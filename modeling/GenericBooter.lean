import GenericBooter.Library.ByteMemory
import GenericBooter.Library.Patches
import GenericBooter.Library.Linked
import GenericBooter.Library.Reader
import GenericBooter.Library.FreeList
import GenericBooter.Library.Search
import GenericBooter.Machine.Memory
import GenericBooter.Machine.Region
import GenericBooter.Machine.Stop
import GenericBooter.Machine.Emission
import GenericBooter.Machine.CString
import GenericBooter.Machine.Malloc
import GenericBooter.DeviceTree.Heap
import GenericBooter.DeviceTree.Layout
import GenericBooter.DeviceTree.Mutators
import GenericBooter.DeviceTree.Flatten
import GenericBooter.DeviceTree.Format
import GenericBooter.DeviceTree.Stores
import GenericBooter.DeviceTree.Encoding
import GenericBooter.DeviceTree.Lookup
import GenericBooter.DeviceTree.Runs
import GenericBooter.DeviceTree.Calls
import GenericBooter.DeviceTree.Growth
import GenericBooter.DeviceTree.Records
import GenericBooter.DeviceTree.Paths
import GenericBooter.DeviceTree.Components
import GenericBooter.DeviceTree.Tallies
import GenericBooter.Xml.Scan
import GenericBooter.Xml.Heap
import GenericBooter.Xml.Parse
import GenericBooter.Xml.Reading
import GenericBooter.Xml.Progress
import GenericBooter.Xml.Layout
import GenericBooter.Xml.Refinement
import GenericBooter.Xml.Runs
import GenericBooter.Xml.Document
import GenericBooter.Xml.Grammar
import GenericBooter.Xml.Frame
import GenericBooter.Xml.Locality
import GenericBooter.Loader.MachO
import GenericBooter.Loader.Reservation
import GenericBooter.Loader.Mapping
import GenericBooter.Loader.Reads
import GenericBooter.Image3.Container
import GenericBooter.Image3.Format
import GenericBooter.Image3.Walk
import GenericBooter.Image3.Catalogue
import GenericBooter.Image3.Bounds
import GenericBooter.Image3.Termination
import GenericBooter.Boot.Kernel
import GenericBooter.Boot.Entrypoint
import GenericBooter.Boot.Footprint
import GenericBooter.Boot.Populate
import GenericBooter.Boot.Population
import GenericBooter.Boot.Entries
import GenericBooter.Boot.Description
import GenericBooter.Boot.Devicetree
import GenericBooter.Boot.Attributes
import GenericBooter.Boot.Arrays
import GenericBooter.Boot.Keyless
import GenericBooter.Boot.Integers
import GenericBooter.Boot.Darwin
import GenericBooter.Boot.Stage2
import GenericBooter.Boot.Ranges
import GenericBooter.Boot.Delivery
import GenericBooter.Boot.Alignment
import GenericBooter.Boot.Names
import GenericBooter.Boot.Entering
import GenericBooter.Boot.LongNames
import GenericBooter.Boot.Finish
import GenericBooter.Boot.Main
import GenericBooter.Boot.CommandLine
import GenericBooter.Boot.Atags
import GenericBooter.Boot.Pool
import GenericBooter.Boot.ZeroFill
import GenericBooter.Boot.Failures
import GenericBooter.Library.Segregated
import GenericBooter.Library.TwoWay
import GenericBooter.Library.Spans
import GenericBooter.Tlsf.Allocator
import GenericBooter.Tlsf.Bits
import GenericBooter.Tlsf.Mapping
import GenericBooter.Tlsf.Cells
import GenericBooter.Tlsf.Filing
import GenericBooter.Tlsf.FreeLists
import GenericBooter.Tlsf.Blocks
import GenericBooter.Tlsf.Heap
import GenericBooter.Tlsf.Carving
import GenericBooter.Tlsf.Malloc
import GenericBooter.Tlsf.Merging
import GenericBooter.Tlsf.Free
import GenericBooter.Tlsf.Realloc
import GenericBooter.Tlsf.Service
import GenericBooter.Tlsf.Calls
import GenericBooter.Library.Clients
import GenericBooter.Library.Arrays
import GenericBooter.Tlsf.Pool
import GenericBooter.Tlsf.Init
import GenericBooter.Tlsf.Runs
import GenericBooter.Tlsf.Recovery
import GenericBooter.Tlsf.Fits
import GenericBooter.Tlsf.Sequence
