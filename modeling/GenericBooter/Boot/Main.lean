import GenericBooter.Boot.Delivery
import GenericBooter.Tlsf.Init
import Mathlib.Logic.Relation

namespace GenericBooter

open ByteMemory Linked

def kMallocSize : Word := 24 * 1024 * 1024

structure CoreStart where
  booter : Booter
  isFirstRegion : Bool
  isMallocInited : Bool
  pool : Word × Word
  mp : Word

def Booter.withMemory (b : Booter) (m : Memory) : Booter :=
  { b with platform := { b.platform with machine := { b.platform.machine with memory := m } } }

/-- The heap lies in the memory that the walk and the stages read. -/
def CoreStart.heap (core : CoreStart) : Tlsf.Allocator := ⟨core.mp, core.booter.platform.machine.memory⟩

def populateMemoryInfo (start size : Word) (core : CoreStart) : Except Stop CoreStart :=
  if core.isFirstRegion then .ok core
  else do
    let heap ← core.heap.mallocInit (start + size - kMallocSize) kMallocSize
    .ok
      { booter := { core.booter.withMemory heap.memory with
          bootArgs := { core.booter.bootArgs with physBase := start, memSize := size } }
        isFirstRegion := true
        isMallocInited := true
        pool := (start + size - kMallocSize, kMallocSize)
        mp := heap.mp }

section Region

variable (start size : Word)

def InPool (address : Word) : Prop := Covers (start + size - kMallocSize) kMallocSize.toNat address

/-- `init_memory_pool` does not panic on the pool of the region. -/
def PoolAccepted : Prop :=
  start + size - kMallocSize ≠ 0 ∧ (start + size - kMallocSize) &&& Tlsf.PTR_MASK = 0

instance : Decidable (PoolAccepted start size) := inferInstanceAs (Decidable (_ ∧ _))

variable {start size : Word} {core core' : CoreStart}

theorem populateMemoryInfo_first (first : core.isFirstRegion = false)
    (populated : populateMemoryInfo start size core = .ok core') :
    ∃ heap, core.heap.mallocInit (start + size - kMallocSize) kMallocSize = .ok heap ∧
      core' =
        { booter := { core.booter.withMemory heap.memory with
            bootArgs := { core.booter.bootArgs with physBase := start, memSize := size } }
          isFirstRegion := true
          isMallocInited := true
          pool := (start + size - kMallocSize, kMallocSize)
          mp := heap.mp } := by
  rw [populateMemoryInfo, first, if_neg Bool.false_ne_true, bind_eq_ok] at populated
  obtain ⟨heap, inited, result⟩ := populated
  exact ⟨heap, inited, (Except.ok.inj result).symm⟩

theorem populateMemoryInfo_accepts (first : core.isFirstRegion = false) (accepted : PoolAccepted start size) :
    ∃ core', populateMemoryInfo start size core = .ok core' := by
  obtain ⟨heap, inited⟩ := Tlsf.mallocInit_accepts (s := core.heap) accepted.1 accepted.2
  have sized : core.heap.mallocInit (start + size - kMallocSize) kMallocSize = .ok heap := inited
  rw [populateMemoryInfo, first, if_neg Bool.false_ne_true, sized, ok_bind]
  exact ⟨_, rfl⟩

theorem populateMemoryInfo_again (again : core.isFirstRegion = true) :
    populateMemoryInfo start size core = .ok core := by
  rw [populateMemoryInfo, again, if_pos rfl]

theorem populateMemoryInfo_keeps (populated : populateMemoryInfo start size core = .ok core') {address : Word}
    (outside : ¬ InPool start size address) : core'.heap.memory address = core.heap.memory address := by
  cases first : core.isFirstRegion with
  | true =>
    rw [populateMemoryInfo_again first] at populated
    rw [Except.ok.inj populated]
  | false =>
    obtain ⟨heap, inited, rfl⟩ := populateMemoryInfo_first first populated
    exact Tlsf.mallocInit_keeps inited outside

end Region

inductive BootState where
  | cleared (b : Booter)
  | mapped (b : Booter)
  | loaded (b : Booter)
  | described (memoryMap : Nat) (b : Booter)
  | copied (b : Booter)
  | flattened (b : Booter)
  | finished (args : Word) (b : Booter)

def BootState.booter : BootState → Booter
  | .cleared b | .mapped b | .loaded b | .described _ b | .copied b | .flattened b | .finished _ b => b

/-- Each stage as far as it gets through. -/
inductive BootStep (locals : DarwinLocals) : BootState → BootState → Prop
  | map {b : Booter} {platform : Platform} (ran : prepareKernel locals.kernel b.platform = .ok platform) :
    BootStep locals (.cleared b) (.mapped { b with platform := platform })
  | load {b b' : Booter} (ran : prepareDevicetree locals.devicetree b = .ok (true, b')) :
    BootStep locals (.mapped b) (.loaded b')
  | describe {b b' : Booter} {memoryMap : Nat} (ran : b.describeMachine = .ok (memoryMap, b')) :
    BootStep locals (.loaded b) (.described memoryMap b')
  | copy {b b' : Booter} {memoryMap : Nat} (ran : b.enterRamdisk memoryMap = .ok b') :
    BootStep locals (.described memoryMap b) (.copied b')
  | flatten {b b' : Booter} (ran : b.flattenDevicetree = .ok b') : BootStep locals (.copied b) (.flattened b')
  | finish {b b' : Booter} {args : Word} (ran : b.prepareFinalizedBootArgs = (args, b')) :
    BootStep locals (.flattened b) (.finished args b')

def startState (b : Booter) : BootState := .cleared b.clearMemory.prepareBootArgs

theorem startDarwin_run {locals : DarwinLocals} {b b' : Booter} {args : Word}
    (reached : startDarwin locals b = .ok (args, b')) :
    Relation.ReflTransGen (BootStep locals) (startState b) (.finished args b') := by
  simp only [startDarwin, loadImages, Booter.prepareDevicetreeStage2, bind_eq_ok] at reached
  obtain ⟨loaded, ⟨platform, kernel, ⟨entered, b₁⟩, devicetree, _, whole, result⟩, flattened,
    ⟨⟨memoryMap, described⟩, describe, copied, copy, flatten⟩, _, _, final⟩ := reached
  obtain rfl := Except.ok.inj result
  obtain rfl := require_eq_ok.mp whole
  apply Relation.ReflTransGen.tail _ (BootStep.finish (Except.ok.inj final))
  apply Relation.ReflTransGen.tail _ (BootStep.flatten flatten)
  apply Relation.ReflTransGen.tail _ (BootStep.copy copy)
  apply Relation.ReflTransGen.tail _ (BootStep.describe describe)
  apply Relation.ReflTransGen.tail _ (BootStep.load devicetree)
  exact Relation.ReflTransGen.single (BootStep.map kernel)

end GenericBooter
