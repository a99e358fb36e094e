import GenericBooter.Machine.Memory
import GenericBooter.Machine.Stop

namespace GenericBooter

open ByteMemory

def store32 (address value : Word) (m : Memory) : Memory := write m address (wordBytes value)

namespace Tlsf

def MAX_LOG2_SLI : Word := 5
def MAX_SLI : Word := 32
def FLI_OFFSET : Word := 6
def SMALL_BLOCK : Word := 128
def MIN_BLOCK_SIZE : Word := 8
def BHDR_OVERHEAD : Word := 8
def TLSF_SIGNATURE : Word := 0x2a59fa59
def PTR_MASK : Word := 3
def BLOCK_SIZE : Word := 0xffffffff - PTR_MASK
def MEM_ALIGN : Word := 7
def PREV_STATE : Word := 2
def FREE_BLOCK : Word := 1
def USED_BLOCK : Word := 0
def PREV_FREE : Word := 2
def PREV_USED : Word := 0

def bhdrSize : Word := 16
def areaInfoSize : Word := 8
def tlsfSize : Word := 3180

def roundupSize (r : Word) : Word := (r + MEM_ALIGN) &&& ~~~MEM_ALIGN

def rounddownSize (r : Word) : Word := r &&& ~~~MEM_ALIGN

def getNextBlock (addr r : Word) : Word := addr + r

end Tlsf

/-! The fields of `bhdr_t`. -/

namespace Bhdr

def prevHdr (m : Memory) (b : Word) : Word := load32 m b
def size (m : Memory) (b : Word) : Word := load32 m (b + 4)
def prev (m : Memory) (b : Word) : Word := load32 m (b + 8)
def next (m : Memory) (b : Word) : Word := load32 m (b + 12)
def buffer (b : Word) : Word := b + 8

def setPrevHdr (b value : Word) (m : Memory) : Memory := store32 b value m
def setSize (b value : Word) (m : Memory) : Memory := store32 (b + 4) value m
def setPrev (b value : Word) (m : Memory) : Memory := store32 (b + 8) value m
def setNext (b value : Word) (m : Memory) : Memory := store32 (b + 12) value m

end Bhdr

/-! The fields of `area_info_t`. -/

namespace AreaInfo

def setEnd (ai value : Word) (m : Memory) : Memory := store32 ai value m
def setNext (ai value : Word) (m : Memory) : Memory := store32 (ai + 4) value m

end AreaInfo

namespace Tlsf

structure Index where
  fl : Word
  sl : Word
deriving DecidableEq, Repr

/-! The fields of `tlsf_t`. -/

def signature (m : Memory) (tlsf : Word) : Word := load32 m tlsf
def flBitmapAt (tlsf : Word) : Word := tlsf + 8
def slBitmapAt (tlsf fl : Word) : Word := tlsf + 12 + 4 * fl
def matrixAt (tlsf : Word) (i : Index) : Word := tlsf + 108 + 4 * (MAX_SLI * i.fl + i.sl)
def flBitmap (m : Memory) (tlsf : Word) : Word := load32 m (flBitmapAt tlsf)
def slBitmap (m : Memory) (tlsf fl : Word) : Word := load32 m (slBitmapAt tlsf fl)
def matrix (m : Memory) (tlsf : Word) (i : Index) : Word := load32 m (matrixAt tlsf i)

def setMatrix (tlsf : Word) (i : Index) (value : Word) (m : Memory) : Memory := store32 (matrixAt tlsf i) value m

def table : List Word :=
  -1 :: 0 :: List.replicate 2 1 ++ List.replicate 4 2 ++ List.replicate 8 3 ++ List.replicate 16 4 ++
    List.replicate 32 5 ++ List.replicate 64 6 ++ List.replicate 128 7

def msBit (i : Word) : Word :=
  let a : Word := if i ≤ 0xffff then (if i ≤ 0xff then 0 else 8) else (if i ≤ 0xffffff then 16 else 24)
  table.getD (i >>> a).toNat 0 + a

def lsBit (i : Word) : Word :=
  let x := i &&& -i
  let a : Word := if x ≤ 0xffff then (if x ≤ 0xff then 0 else 8) else (if x ≤ 0xffffff then 16 else 24)
  table.getD (x >>> a).toNat 0 + a

def setBit (nr addr : Word) (m : Memory) : Memory :=
  let word := addr + 4 * nr.sshiftRight 5
  store32 word (load32 m word ||| (1 : Word) <<< (nr &&& 0x1f)) m

def clearBit (nr addr : Word) (m : Memory) : Memory :=
  let word := addr + 4 * nr.sshiftRight 5
  store32 word (load32 m word &&& ~~~((1 : Word) <<< (nr &&& 0x1f))) m

def mappingInsert (r : Word) : Index :=
  if r < SMALL_BLOCK then ⟨0, r / (SMALL_BLOCK / MAX_SLI)⟩
  else
    let fl := msBit r
    ⟨fl - FLI_OFFSET, (r >>> (fl - MAX_LOG2_SLI)) - MAX_SLI⟩

def mappingSearch (r : Word) : Word × Index :=
  if r < SMALL_BLOCK then (r, ⟨0, r / (SMALL_BLOCK / MAX_SLI)⟩)
  else
    let t := ((1 : Word) <<< (msBit r - MAX_LOG2_SLI)) - 1
    let r := r + t
    let fl := msBit r
    (r &&& ~~~t, ⟨fl - FLI_OFFSET, (r >>> (fl - MAX_LOG2_SLI)) - MAX_SLI⟩)

def findSuitableBlock (tlsf : Word) (i : Index) (m : Memory) : Word × Index :=
  let tmp := slBitmap m tlsf i.fl &&& (~~~(0 : Word) <<< i.sl)
  if tmp ≠ 0 then
    let i : Index := ⟨i.fl, lsBit tmp⟩
    (matrix m tlsf i, i)
  else
    let fl := lsBit (flBitmap m tlsf &&& (~~~(0 : Word) <<< (i.fl + 1)))
    if (0 : Word).slt fl then
      let i : Index := ⟨fl, lsBit (slBitmap m tlsf fl)⟩
      (matrix m tlsf i, i)
    else (0, ⟨fl, i.sl⟩)

def clearBits (tlsf : Word) (i : Index) (m : Memory) : Memory :=
  let m := clearBit i.sl (slBitmapAt tlsf i.fl) m
  if slBitmap m tlsf i.fl = 0 then clearBit i.fl (flBitmapAt tlsf) m else m

def extractBlockHdr (b tlsf : Word) (i : Index) (m : Memory) : Memory :=
  let m := setMatrix tlsf i (Bhdr.next m b) m
  let m := if matrix m tlsf i ≠ 0 then Bhdr.setPrev (matrix m tlsf i) 0 m else clearBits tlsf i m
  Bhdr.setNext b 0 (Bhdr.setPrev b 0 m)

def extractBlock (b tlsf : Word) (i : Index) (m : Memory) : Memory :=
  let m := if Bhdr.next m b ≠ 0 then Bhdr.setPrev (Bhdr.next m b) (Bhdr.prev m b) m else m
  let m := if Bhdr.prev m b ≠ 0 then Bhdr.setNext (Bhdr.prev m b) (Bhdr.next m b) m else m
  let m :=
    if matrix m tlsf i = b then
      let m := setMatrix tlsf i (Bhdr.next m b) m
      if matrix m tlsf i = 0 then clearBits tlsf i m else m
    else m
  Bhdr.setNext b 0 (Bhdr.setPrev b 0 m)

def insertBlock (b tlsf : Word) (i : Index) (m : Memory) : Memory :=
  let m := Bhdr.setPrev b 0 m
  let m := Bhdr.setNext b (matrix m tlsf i) m
  let m := if matrix m tlsf i ≠ 0 then Bhdr.setPrev (matrix m tlsf i) b m else m
  let m := setMatrix tlsf i b m
  let m := setBit i.sl (slBitmapAt tlsf i.fl) m
  setBit i.fl (flBitmapAt tlsf) m

def mallocEx (size tlsf : Word) (m : Memory) : Word × Memory :=
  let size := if size < MIN_BLOCK_SIZE then MIN_BLOCK_SIZE else roundupSize size
  let search := mappingSearch size
  let size := search.1
  let found := findSuitableBlock tlsf search.2 m
  let b := found.1
  if b = 0 then (0, m)
  else
    let m := extractBlockHdr b tlsf found.2 m
    let nextB := getNextBlock (Bhdr.buffer b) (Bhdr.size m b &&& BLOCK_SIZE)
    let tmpSize := (Bhdr.size m b &&& BLOCK_SIZE) - size
    if tmpSize ≥ bhdrSize then
      let tmpSize := tmpSize - BHDR_OVERHEAD
      let b2 := getNextBlock (Bhdr.buffer b) size
      let m := Bhdr.setSize b2 (tmpSize ||| FREE_BLOCK ||| PREV_USED) m
      let m := Bhdr.setPrevHdr nextB b2 m
      let m := insertBlock b2 tlsf (mappingInsert tmpSize) m
      (Bhdr.buffer b, Bhdr.setSize b (size ||| (Bhdr.size m b &&& PREV_STATE)) m)
    else
      let m := Bhdr.setSize nextB (Bhdr.size m nextB &&& ~~~PREV_FREE) m
      (Bhdr.buffer b, Bhdr.setSize b (Bhdr.size m b &&& ~~~FREE_BLOCK) m)

def freeEx (ptr tlsf : Word) (m : Memory) : Memory :=
  if ptr = 0 then m
  else
    let b := ptr - BHDR_OVERHEAD
    let m := Bhdr.setSize b (Bhdr.size m b ||| FREE_BLOCK) m
    let m := Bhdr.setNext b 0 (Bhdr.setPrev b 0 m)
    let tmpB := getNextBlock (Bhdr.buffer b) (Bhdr.size m b &&& BLOCK_SIZE)
    let m :=
      if Bhdr.size m tmpB &&& FREE_BLOCK ≠ 0 then
        let m := extractBlock tmpB tlsf (mappingInsert (Bhdr.size m tmpB &&& BLOCK_SIZE)) m
        Bhdr.setSize b (Bhdr.size m b + ((Bhdr.size m tmpB &&& BLOCK_SIZE) + BHDR_OVERHEAD)) m
      else m
    let merge := Bhdr.size m b &&& PREV_FREE ≠ 0
    let tmpB := Bhdr.prevHdr m b
    let m :=
      if merge then
        let m := extractBlock tmpB tlsf (mappingInsert (Bhdr.size m tmpB &&& BLOCK_SIZE)) m
        Bhdr.setSize tmpB (Bhdr.size m tmpB + ((Bhdr.size m b &&& BLOCK_SIZE) + BHDR_OVERHEAD)) m
      else m
    let b := if merge then tmpB else b
    let m := insertBlock b tlsf (mappingInsert (Bhdr.size m b &&& BLOCK_SIZE)) m
    let tmpB := getNextBlock (Bhdr.buffer b) (Bhdr.size m b &&& BLOCK_SIZE)
    let m := Bhdr.setSize tmpB (Bhdr.size m tmpB ||| PREV_FREE) m
    Bhdr.setPrevHdr tmpB b m

def splitTail (b nextB newSize tmpSize tlsf : Word) (m : Memory) : Memory :=
  let tmpSize := tmpSize - BHDR_OVERHEAD
  let tmpB := getNextBlock (Bhdr.buffer b) newSize
  let m := Bhdr.setSize tmpB (tmpSize ||| FREE_BLOCK ||| PREV_USED) m
  let m := Bhdr.setPrevHdr nextB tmpB m
  let m := Bhdr.setSize nextB (Bhdr.size m nextB ||| PREV_FREE) m
  let m := insertBlock tmpB tlsf (mappingInsert tmpSize) m
  Bhdr.setSize b (newSize ||| (Bhdr.size m b &&& PREV_STATE)) m

/-- The part of `realloc_ex` where the block is no smaller than what is asked for. -/
def reallocShrink (b nextB newSize tlsf : Word) (m : Memory) : Memory :=
  let tmpSize := Bhdr.size m b &&& BLOCK_SIZE
  let merge := Bhdr.size m nextB &&& FREE_BLOCK ≠ 0
  let m :=
    if merge then extractBlock nextB tlsf (mappingInsert (Bhdr.size m nextB &&& BLOCK_SIZE)) m else m
  let tmpSize := if merge then tmpSize + ((Bhdr.size m nextB &&& BLOCK_SIZE) + BHDR_OVERHEAD) else tmpSize
  let nextB := if merge then getNextBlock (Bhdr.buffer nextB) (Bhdr.size m nextB &&& BLOCK_SIZE) else nextB
  let tmpSize := tmpSize - newSize
  if tmpSize ≥ bhdrSize then splitTail b nextB newSize tmpSize tlsf m else m

/-- The part of `realloc_ex` where the block behind is free and makes up what is missing. -/
def reallocGrow (b nextB newSize tlsf : Word) (m : Memory) : Memory :=
  let m := extractBlock nextB tlsf (mappingInsert (Bhdr.size m nextB &&& BLOCK_SIZE)) m
  let m := Bhdr.setSize b (Bhdr.size m b + ((Bhdr.size m nextB &&& BLOCK_SIZE) + BHDR_OVERHEAD)) m
  let nextB := getNextBlock (Bhdr.buffer b) (Bhdr.size m b &&& BLOCK_SIZE)
  let m := Bhdr.setPrevHdr nextB b m
  let m := Bhdr.setSize nextB (Bhdr.size m nextB &&& ~~~PREV_FREE) m
  let tmpSize := (Bhdr.size m b &&& BLOCK_SIZE) - newSize
  if tmpSize ≥ bhdrSize then splitTail b nextB newSize tmpSize tlsf m else m

/-- The part of `realloc_ex` that moves the bytes to another block. -/
def reallocMove (ptr newSize tlsf : Word) (m : Memory) : Word × Memory :=
  let moved := mallocEx newSize tlsf m
  let ptrAux := moved.1
  let m := moved.2
  if ptrAux = 0 then (0, m)
  else
    let held := Bhdr.size m (ptr - BHDR_OVERHEAD) &&& BLOCK_SIZE
    let cpsize := if held > newSize then newSize else held
    let m := copy m ptr ptrAux cpsize.toNat
    (ptrAux, freeEx ptr tlsf m)

def reallocEx (ptr newSize tlsf : Word) (m : Memory) : Word × Memory :=
  if ptr = 0 then if newSize ≠ 0 then mallocEx newSize tlsf m else (0, m)
  else if newSize = 0 then (0, freeEx ptr tlsf m)
  else
    let b := ptr - BHDR_OVERHEAD
    let nextB := getNextBlock (Bhdr.buffer b) (Bhdr.size m b &&& BLOCK_SIZE)
    let newSize := if newSize < MIN_BLOCK_SIZE then MIN_BLOCK_SIZE else roundupSize newSize
    let tmpSize := Bhdr.size m b &&& BLOCK_SIZE
    if newSize ≤ tmpSize then (Bhdr.buffer b, reallocShrink b nextB newSize tlsf m)
    else if Bhdr.size m nextB &&& FREE_BLOCK ≠ 0 ∧ newSize ≤ tmpSize + (Bhdr.size m nextB &&& BLOCK_SIZE) then
      (Bhdr.buffer b, reallocGrow b nextB newSize tlsf m)
    else reallocMove ptr newSize tlsf m

def callocEx (nelem elemSize tlsf : Word) (m : Memory) : Word × Memory :=
  if nelem ≤ 0 ∨ elemSize ≤ 0 then (0, m)
  else
    let taken := mallocEx (nelem * elemSize) tlsf m
    if taken.1 = 0 then (0, taken.2)
    else (taken.1, fill taken.2 taken.1 (nelem * elemSize).toNat 0)

def processArea (area size : Word) (m : Memory) : Word × Memory :=
  let ib := area
  let m := Bhdr.setSize ib
    (if areaInfoSize < MIN_BLOCK_SIZE then MIN_BLOCK_SIZE
      else roundupSize areaInfoSize ||| USED_BLOCK ||| PREV_USED) m
  let b := getNextBlock (Bhdr.buffer ib) (Bhdr.size m ib &&& BLOCK_SIZE)
  let m := Bhdr.setSize b
    (rounddownSize (size - 3 * BHDR_OVERHEAD - (Bhdr.size m ib &&& BLOCK_SIZE)) ||| USED_BLOCK ||| PREV_USED) m
  let m := Bhdr.setPrev b 0 (Bhdr.setNext b 0 m)
  let lb := getNextBlock (Bhdr.buffer b) (Bhdr.size m b &&& BLOCK_SIZE)
  let m := Bhdr.setPrevHdr lb b m
  let m := Bhdr.setSize lb (0 ||| USED_BLOCK ||| PREV_FREE) m
  let ai := Bhdr.buffer ib
  let m := AreaInfo.setNext ai 0 m
  let m := AreaInfo.setEnd ai lb m
  (ib, m)

/-- The variable `mp` of tlsf.c beside the memory. -/
structure Allocator where
  mp : Word
  memory : Memory

def initMemoryPool (memPoolSize memPool : Word) (s : Allocator) : Except Stop (Word × Allocator) :=
  if memPool = 0 ∨ memPoolSize = 0 ∨ memPoolSize < tlsfSize + BHDR_OVERHEAD * 8 then .error .panic
  else if memPool &&& PTR_MASK ≠ 0 then .error .panic
  else
    let tlsf := memPool
    if signature s.memory tlsf = TLSF_SIGNATURE then
      let b := getNextBlock memPool (roundupSize tlsfSize)
      .ok (Bhdr.size s.memory b &&& BLOCK_SIZE, { s with mp := memPool })
    else
      let m := fill s.memory memPool tlsfSize.toNat 0
      let m := store32 tlsf TLSF_SIGNATURE m
      let area := processArea (getNextBlock memPool (roundupSize tlsfSize)) (rounddownSize (memPoolSize - tlsfSize)) m
      let ib := area.1
      let m := area.2
      let b := getNextBlock (Bhdr.buffer ib) (Bhdr.size m ib &&& BLOCK_SIZE)
      let m := freeEx (Bhdr.buffer b) tlsf m
      let m := store32 (tlsf + 4) (Bhdr.buffer ib) m
      .ok (Bhdr.size m b &&& BLOCK_SIZE, ⟨memPool, m⟩)

def tlsfMalloc (size : Word) (s : Allocator) : Word × Allocator :=
  let result := mallocEx size s.mp s.memory
  (result.1, { s with memory := result.2 })

def tlsfFree (ptr : Word) (s : Allocator) : Allocator := { s with memory := freeEx ptr s.mp s.memory }

def tlsfRealloc (ptr size : Word) (s : Allocator) : Word × Allocator :=
  let result := reallocEx ptr size s.mp s.memory
  (result.1, { s with memory := result.2 })

def tlsfCalloc (nelem elemSize : Word) (s : Allocator) : Word × Allocator :=
  let result := callocEx nelem elemSize s.mp s.memory
  (result.1, { s with memory := result.2 })

end Tlsf

/-! malloc.c -/

namespace Tlsf.Allocator

def mallocInit (start size : Word) (s : Allocator) : Except Stop Allocator :=
  (initMemoryPool size start s).map (·.2)

def malloc (size : Word) (s : Allocator) : Word × Allocator := tlsfMalloc size s

def free (pointer : Word) (s : Allocator) : Allocator := tlsfFree pointer s

def realloc (start newsize : Word) (s : Allocator) : Word × Allocator := tlsfRealloc start newsize s

end Tlsf.Allocator

end GenericBooter
