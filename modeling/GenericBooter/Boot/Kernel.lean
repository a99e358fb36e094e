import GenericBooter.Image3.Container
import GenericBooter.Loader.Mapping
import GenericBooter.Loader.Reservation

namespace GenericBooter

open ByteMemory

def KERNEL_VMADDR : Word := 0x80001000

def kVirtBase : Word := 0x80000000

def vtophys (x virt phys : Word) : Word := x - virt + phys

def phystov (x virt phys : Word) : Word := x - phys + virt

/-- The memory side of the booter: RAM, `kernel_region` with what it has handed out,
    `kernel_entrypoint` and the place `__end` of the images. -/
structure Platform where
  machine : Machine
  kernelRegion : MemoryRegion
  handedOut : List (Word × Word)
  kernelEntrypoint : Word
  imagesEnd : Word

def Platform.reserve (p : Platform) (size align : Word) : Word × Platform :=
  let (start, reg) := memoryRegionReserve p.kernelRegion size align
  (start, { p with kernelRegion := reg, handedOut := (start, size) :: p.handedOut })

def startRegion (physBase : Word) : MemoryRegion := ⟨physBase + 0x1000, physBase + 0x1000⟩

/-- What the stack happens to hold in the locals of `prepare_kernel`. -/
structure KernelLocals where
  kernelData : Word
  kernelSize : Word
  ctx : LoaderContext

def prepareKernel (locals : KernelLocals) (p : Platform) : Except Stop Platform := do
  let m := p.machine.memory
  let kernelImage ← getImage3 m p.imagesEnd kImage3TypeKernel
  require (kernelImage ≠ 0)
  let payload ← image3GetTagData m kernelImage kImage3TagData locals.kernelData locals.kernelSize
  require (payload.data ≠ 0 ∧ payload.size ≠ 0)
  let initialized := machoInitialize m locals.ctx payload.data
  require (initialized.1 = .kLoadSuccess)
  let biased := machoSetVmBias initialized.2 KERNEL_VMADDR
  require (biased.1 = .kLoadSuccess)
  let kernelSize := machoGetVmsize m biased.2
  require (kernelSize ≠ 0)
  let (kernelBase, p) := p.reserve kernelSize 0
  let mapped := machoFileMap kernelBase (biased.2, p.machine)
  require (mapped.1 = .kLoadSuccess)
  let entry := machoGetEntrypoint mapped.2.1
  require (entry.1 = .kLoadSuccess)
  pure { p with
    machine := mapped.2.2
    kernelEntrypoint := vtophys entry.2 KERNEL_VMADDR p.kernelRegion.base }

def CommandsWithin (m : Memory) (file : Word) (length : Nat) : Nat → Nat → Prop
  | 0, _ => True
  | count + 1, offset =>
    commandBytes m (file + BitVec.ofNat 32 offset) ≤
        (LoadCommand.cmdsize m (file + BitVec.ofNat 32 offset)).toNat ∧
      offset + (LoadCommand.cmdsize m (file + BitVec.ofNat 32 offset)).toNat ≤ length ∧
      CommandsWithin m file length count
        (offset + (LoadCommand.cmdsize m (file + BitVec.ofNat 32 offset)).toNat)

instance decidableCommandsWithin (m : Memory) (file : Word) (length : Nat) :
    (count offset : Nat) → Decidable (CommandsWithin m file length count offset)
  | 0, _ => .isTrue trivial
  | count + 1, offset =>
    have := decidableCommandsWithin m file length count
      (offset + (LoadCommand.cmdsize m (file + BitVec.ofNat 32 offset)).toNat)
    inferInstanceAs (Decidable (_ ∧ _ ∧ _))

def InSegment (m : Memory) (lc : Word) (vmaddr : Nat) : Prop :=
  (SegmentCommand.vmaddr m lc).toNat ≤ vmaddr ∧
    vmaddr < (SegmentCommand.vmaddr m lc).toNat + (SegmentCommand.filesize m lc).toNat

/-- A well-formed 32-bit Mach-O executable of `length` bytes at `file`. -/
structure WellFormedMachO (m : Memory) (file : Word) (length : Nat) : Prop where
  magic : MachHeader.magic m file = kMachMagic
  executable : MachHeader.filetype m file = kMachExecute
  header : MachHeader.size.toNat ≤ length
  commands : CommandsWithin m file length (MachHeader.ncmds m file).toNat MachHeader.size.toNat
  contents : ∀ lc ∈ loadCommands m file, IsSegment m lc →
    (SegmentCommand.fileoff m lc).toNat + (SegmentCommand.filesize m lc).toNat ≤ length
  ranges : ∀ lc ∈ loadCommands m file, IsSegment m lc → ∀ vmaddr, InSegment m lc vmaddr →
    KERNEL_VMADDR.toNat ≤ vmaddr ∧ vmaddr < 2 ^ 32
  disjoint : (loadCommands m file).Pairwise fun lc lc' => IsSegment m lc → IsSegment m lc' →
    ∀ vmaddr, InSegment m lc vmaddr → ¬ InSegment m lc' vmaddr
  thread : ∃ lc ∈ loadCommands m file, LoadCommand.cmd m lc = kLoadCommandUnixThread

def segmentPhys (physBase : Word) (m : Memory) (lc : Word) : Word :=
  physBase + (SegmentCommand.vmaddr m lc - kVirtBase)

theorem segmentTarget_start (physBase : Word) (m : Memory) (lc : Word) :
    segmentTarget (startRegion physBase).pos KERNEL_VMADDR m lc = segmentPhys physBase m lc := by
  simp only [segmentTarget, startRegion, KERNEL_VMADDR, segmentPhys, kVirtBase]
  ring_nf

theorem loadCommandsFrom_inFile (m : Memory) (file : Word) (length count offset : Nat)
    (room : length ≤ 2 ^ 32) (within : CommandsWithin m file length count offset) :
    ∀ lc ∈ loadCommandsFrom m count (file + BitVec.ofNat 32 offset),
      ∀ i < commandBytes m lc, Covers file length (lc + BitVec.ofNat 32 i) := by
  induction count generalizing offset with
  | zero => exact fun _ member => absurd member List.not_mem_nil
  | succ count ih =>
    obtain ⟨whole, fits, later⟩ := within
    intro lc member i small
    rcases List.mem_cons.mp member with rfl | member
    · rw [add_ofNat]
      exact (covers_add file length _ (by omega)).mpr (by omega)
    · have next := ih _ later
      rw [← add_ofNat, BitVec.ofNat_toNat, BitVec.setWidth_eq] at next
      exact next lc member i small

theorem segments_apart (physBase : Word) (m : Memory) (lc lc' : Word)
    (disjoint : ∀ vmaddr, InSegment m lc vmaddr → ¬ InSegment m lc' vmaddr)
    (top : ∀ vmaddr, InSegment m lc vmaddr → vmaddr < 2 ^ 32)
    (top' : ∀ vmaddr, InSegment m lc' vmaddr → vmaddr < 2 ^ 32) (address : Word)
    (covered : Covers (segmentPhys physBase m lc) (SegmentCommand.filesize m lc).toNat address) :
    ¬ Covers (segmentPhys physBase m lc') (SegmentCommand.filesize m lc').toNat address := by
  have place (sc : Word) : segmentPhys physBase m sc =
      BitVec.ofNat 32 ((physBase - kVirtBase).toNat + (SegmentCommand.vmaddr m sc).toNat) := by
    rw [BitVec.ofNat_add, BitVec.ofNat_toNat, BitVec.ofNat_toNat, BitVec.setWidth_eq,
      BitVec.setWidth_eq, segmentPhys]
    ring
  intro covered'
  have nonempty := Nat.zero_lt_of_lt covered
  have nonempty' := Nat.zero_lt_of_lt covered'
  rw [place] at covered covered'
  unfold InSegment at disjoint top top'
  have last := top ((SegmentCommand.vmaddr m lc).toNat + (SegmentCommand.filesize m lc).toNat - 1)
    (by omega)
  have last' := top' ((SegmentCommand.vmaddr m lc').toNat + (SegmentCommand.filesize m lc').toNat - 1)
    (by omega)
  rcases Nat.le_total (SegmentCommand.vmaddr m lc).toNat (SegmentCommand.vmaddr m lc').toNat with le | le
  · have order := disjoint (SegmentCommand.vmaddr m lc').toNat
    exact covers_apart (by omega) (by omega) covered covered'
  · have order := disjoint (SegmentCommand.vmaddr m lc).toNat
    exact covers_apart (by omega) (by omega) covered' covered

theorem WellFormedMachO.mappable {m : Memory} {file physBase : Word} {length : Nat}
    (wellFormed : WellFormedMachO m file length) (room : length ≤ 2 ^ 32)
    (apart : ∀ lc ∈ loadCommands m file, IsSegment m lc → ∀ address,
      Covers (segmentPhys physBase m lc) (SegmentCommand.filesize m lc).toNat address →
        ¬ Covers file length address) :
    Mappable m file length (startRegion physBase).pos KERNEL_VMADDR (loadCommands m file) where
  inFile := loadCommandsFrom_inFile m file length _ _ room wellFormed.commands
  contents := wellFormed.contents
  offSource lc member segment address covered := by
    rw [segmentTarget_start] at covered
    exact apart lc member segment address covered
  apart := by
    refine wellFormed.disjoint.imp_of_mem ?_
    intro lc lc' member member' disjoint segment segment' address
    rw [segmentTarget_start, segmentTarget_start]
    exact segments_apart physBase m lc lc' (disjoint segment segment')
      (fun vmaddr inside => (wellFormed.ranges lc member segment vmaddr inside).2)
      (fun vmaddr inside => (wellFormed.ranges lc' member' segment' vmaddr inside).2) address

structure KernelFound (p : Platform) (locals : KernelLocals) (image : Word) (payload : TagData) :
    Prop where
  located : getImage3 p.machine.memory p.imagesEnd kImage3TypeKernel = .ok image
  present : image ≠ 0
  tagged : image3GetTagData p.machine.memory image kImage3TagData locals.kernelData
    locals.kernelSize = .ok payload
  nonnull : payload.data ≠ 0

def kernelContext (locals : KernelLocals) (payload : TagData) : LoaderContext :=
  { locals.ctx with source := payload.data, vmBias := KERNEL_VMADDR }

theorem machoInitialize_accepts {m : Memory} {file : Word} (ctx : LoaderContext) (nonnull : file ≠ 0)
    (magic : MachHeader.magic m file = kMachMagic)
    (executable : MachHeader.filetype m file = kMachExecute) :
    machoInitialize m ctx file = (.kLoadSuccess, { ctx with source := file }) := by
  simp only [machoInitialize, nonnull, magic, executable, if_false, ne_eq, not_true_eq_false]

theorem prepareKernel_eq {p : Platform} {locals : KernelLocals} {image : Word} {payload : TagData}
    (kernel : KernelFound p locals image payload) (size : payload.size ≠ 0)
    (magic : MachHeader.magic p.machine.memory payload.data = kMachMagic)
    (executable : MachHeader.filetype p.machine.memory payload.data = kMachExecute) :
    prepareKernel locals p =
      let vmsize := machoGetVmsize p.machine.memory (kernelContext locals payload)
      let mapped := (machoFileMap p.kernelRegion.pos (kernelContext locals payload, p.machine)).2
      if vmsize = 0 then .error .assertion
      else .ok { (p.reserve vmsize 0).2 with
        machine := mapped.2
        kernelEntrypoint := vtophys mapped.1.entry KERNEL_VMADDR p.kernelRegion.base } := by
  have accepted := machoInitialize_accepts locals.ctx kernel.nonnull magic executable
  simp only [prepareKernel, kernel.located, kernel.tagged, ok_bind, require_ok kernel.present,
    require_ok (And.intro kernel.nonnull size), accepted, machoSetVmBias, require_ok, kernelContext]
  by_cases empty : machoGetVmsize p.machine.memory
      { locals.ctx with source := payload.data, vmBias := KERNEL_VMADDR } = 0
  · simp only [empty, require, ne_eq, not_true_eq_false, if_false, if_true]
    rfl
  · simp only [empty, require, ne_eq, not_false_eq_true, if_true, if_false, ok_bind]
    rfl

theorem prepareKernel_ok {p p' : Platform} {locals : KernelLocals} (ran : prepareKernel locals p = .ok p') :
    ∃ image payload, KernelFound p locals image payload ∧
      p' = { (p.reserve (machoGetVmsize p.machine.memory (kernelContext locals payload)) 0).2 with
        machine := (machoFileMap p.kernelRegion.pos (kernelContext locals payload, p.machine)).2.2
        kernelEntrypoint := p'.kernelEntrypoint } := by
  simp only [prepareKernel, bind_eq_ok] at ran
  obtain ⟨image, located, _, present, payload, tagged, _, nonnull, _, initialized, _, _, _, _, _, _, _, _, ran⟩ := ran
  have source := machoInitialize_source _ _ _ (require_eq_ok.mp initialized)
  refine ⟨image, payload, ⟨located, require_eq_ok.mp present, tagged, (require_eq_ok.mp nonnull).1⟩, ?_⟩
  rw [source] at ran
  obtain rfl := Except.ok.inj ran
  rfl

/-- Unless the vmsizes add up to nothing, `prepareKernel` succeeds; every segment byte then lies
    at its physical address, nothing else has changed, and the entry point is the place of the pc. -/
theorem prepareKernel_maps (p : Platform) (locals : KernelLocals) (physBase image : Word)
    (payload : TagData) (region : p.kernelRegion = startRegion physBase)
    (kernel : KernelFound p locals image payload)
    (wellFormed : WellFormedMachO p.machine.memory payload.data payload.size.toNat)
    (apart : ∀ lc ∈ loadCommands p.machine.memory payload.data, IsSegment p.machine.memory lc →
      ∀ address, Covers (segmentPhys physBase p.machine.memory lc)
        (SegmentCommand.filesize p.machine.memory lc).toNat address →
          ¬ Covers payload.data payload.size.toNat address) :
    (machoGetVmsize p.machine.memory (kernelContext locals payload) = 0 ∧
      prepareKernel locals p = .error .assertion) ∨
    ∃ p', prepareKernel locals p = .ok p' ∧
      (∀ lc ∈ loadCommands p.machine.memory payload.data, IsSegment p.machine.memory lc →
        ∀ i < (SegmentCommand.filesize p.machine.memory lc).toNat,
          p'.machine.memory (segmentPhys physBase p.machine.memory lc + BitVec.ofNat 32 i) =
            p.machine.memory (payload.data + SegmentCommand.fileoff p.machine.memory lc +
              BitVec.ofNat 32 i)) ∧
      (∀ address, (∀ lc ∈ loadCommands p.machine.memory payload.data, IsSegment p.machine.memory lc →
        ¬ Covers (segmentPhys physBase p.machine.memory lc)
          (SegmentCommand.filesize p.machine.memory lc).toNat address) →
            p'.machine.memory address = p.machine.memory address) ∧
      (∀ pc, lastThreadPc p.machine.memory (loadCommands p.machine.memory payload.data) = some pc →
        ∀ lc ∈ loadCommands p.machine.memory payload.data, IsSegment p.machine.memory lc →
          InSegment p.machine.memory lc pc.toNat →
            p'.kernelEntrypoint = segmentPhys physBase p.machine.memory lc +
                (pc - SegmentCommand.vmaddr p.machine.memory lc) ∧
              p'.machine.memory p'.kernelEntrypoint =
                p.machine.memory (payload.data + SegmentCommand.fileoff p.machine.memory lc +
                  (pc - SegmentCommand.vmaddr p.machine.memory lc))) := by
  have size : payload.size ≠ 0 := by
    intro zero
    have header := wellFormed.header
    rw [zero] at header
    exact absurd header (by decide)
  have result := prepareKernel_eq kernel size wellFormed.magic wellFormed.executable
  by_cases empty : machoGetVmsize p.machine.memory (kernelContext locals payload) = 0
  · rw [result]
    exact Or.inl ⟨empty, if_pos empty⟩
  · have ready := wellFormed.mappable (Nat.le_of_lt payload.size.isLt) apart
    have mapped := machoFileMap_mapped (kernelContext locals payload, p.machine) wellFormed.header
      (Nat.le_of_lt payload.size.isLt) ready rfl rfl
    rw [← region] at mapped
    refine Or.inr ⟨_, result.trans (if_neg empty), ?_, ?_, ?_⟩
    · intro lc member segment i bound
      rw [← segmentTarget_start, ← region]
      exact mapped.arrived lc member segment i bound
    · intro address untouched
      apply mapped.unchanged address
      intro lc member segment
      rw [region]
      change ¬ Covers (segmentTarget _ KERNEL_VMADDR _ _) _ _
      rw [segmentTarget_start]
      exact untouched lc member segment
    · intro pc last lc member segment inside
      have entry := mapped.entry
      rw [last, Option.getD_some] at entry
      have place : vtophys pc KERNEL_VMADDR p.kernelRegion.base =
          segmentPhys physBase p.machine.memory lc + (pc - SegmentCommand.vmaddr p.machine.memory lc) := by
        rw [region]
        simp only [vtophys, startRegion, KERNEL_VMADDR, segmentPhys, kVirtBase]
        ring_nf
      have distance : (pc - SegmentCommand.vmaddr p.machine.memory lc).toNat <
          (SegmentCommand.filesize p.machine.memory lc).toNat := by
        obtain ⟨above, below⟩ := inside
        rw [BitVec.toNat_sub_of_le above]
        omega
      have arrived := mapped.arrived lc member segment _ distance
      rw [BitVec.ofNat_toNat, BitVec.setWidth_eq, region] at arrived
      simp only [entry, place, true_and]
      rw [← arrived, ← segmentTarget_start, region]
      rfl

def sampleKernel : List Byte :=
  ([kMachMagic, 12, 9, kMachExecute, 2, 140, 0] ++ segmentWords 0x80001000 0x1000 0 184 ++
    ([kLoadCommandUnixThread, 84, 1, 17] ++ List.replicate 15 0 ++ [0x80001040, 0]) ++ List.replicate 4 0).flatMap wordBytes

def sampleRam : Memory := write (fun _ => 0) 0x10000 (imageBytes kImage3TypeKernel sampleKernel)

def samplePlatform : Platform :=
  ⟨⟨sampleRam, []⟩, startRegion 0x70000000, [], 0, 0x10000⟩

def sampleLocals : KernelLocals := ⟨0, 0, ⟨0, 0, 0, 0, 0⟩⟩

theorem sampleRam_commands : loadCommands sampleRam 0x10020 = [0x1003c, 0x10074] := by decide

theorem sampleRam_segment (lc : Word) (member : lc ∈ [0x1003c, 0x10074])
    (segment : IsSegment sampleRam lc) : lc = 0x1003c := by
  rcases List.mem_cons.mp member with rfl | member
  · rfl
  · rw [List.mem_singleton] at member
    subst member
    exact absurd segment (by unfold IsSegment; decide)

theorem sampleRam_fields : (SegmentCommand.vmaddr sampleRam 0x1003c).toNat = 0x80001000 ∧
    (SegmentCommand.filesize sampleRam 0x1003c).toNat = 184 := by decide

theorem sampleRam_wellFormed : WellFormedMachO sampleRam 0x10020 184 where
  magic := by decide
  executable := by decide
  header := by decide
  commands := by decide
  contents := by
    rw [sampleRam_commands]
    intro lc member segment
    rw [sampleRam_segment lc member segment]
    decide
  ranges := by
    rw [sampleRam_commands]
    intro lc member segment vmaddr inside
    rw [sampleRam_segment lc member segment] at inside
    unfold InSegment at inside
    rw [sampleRam_fields.1, sampleRam_fields.2] at inside
    have bias : KERNEL_VMADDR.toNat = 0x80001000 := by decide
    rw [bias]
    omega
  disjoint := by
    rw [sampleRam_commands, List.pairwise_pair]
    exact fun _ thread => absurd thread (by unfold IsSegment; decide)
  thread := ⟨0x10074, by decide, by decide⟩

theorem samplePlatform_found : KernelFound samplePlatform sampleLocals 0x10000 ⟨true, 0x10020, 184⟩ where
  located := by decide
  present := by decide
  tagged := by decide +kernel
  nonnull := by decide

theorem sampleRam_apart (lc : Word) (member : lc ∈ loadCommands sampleRam 0x10020) (segment : IsSegment sampleRam lc)
    (address : Word)
    (covered : Covers (segmentPhys 0x70000000 sampleRam lc) (SegmentCommand.filesize sampleRam lc).toNat address) :
    ¬ Covers 0x10020 184 address := by
  rw [sampleRam_commands] at member
  rw [sampleRam_segment lc member segment, sampleRam_fields.2] at covered
  have place : segmentPhys 0x70000000 sampleRam 0x1003c = BitVec.ofNat 32 (0x10020 + 0x6fff0fe0) := by
    decide
  rw [place] at covered
  exact fun covered' => covers_apart (by decide) (by decide) covered' covered

theorem samplePlatform_entry :
    ∃ p', prepareKernel sampleLocals samplePlatform = .ok p' ∧ p'.kernelEntrypoint = 0x70001040 ∧
      p'.machine.memory 0x70001040 = sampleRam 0x10060 := by
  rcases prepareKernel_maps samplePlatform sampleLocals 0x70000000 0x10000 ⟨true, 0x10020, 184⟩ rfl
    samplePlatform_found sampleRam_wellFormed sampleRam_apart with ⟨empty, _⟩ | ⟨p', result, _, _, entry⟩
  · exact absurd empty (by decide)
  · have found := entry 0x80001040 (by decide) 0x1003c (by decide) (by unfold IsSegment; decide)
      ⟨by decide, by decide⟩
    have place : p'.kernelEntrypoint = 0x70001040 := found.1.trans (by decide)
    refine ⟨p', result, place, ?_⟩
    rw [← place, found.2]
    decide

end GenericBooter
