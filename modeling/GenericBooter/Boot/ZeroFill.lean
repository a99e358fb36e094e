import GenericBooter.Boot.Entering
import GenericBooter.Boot.Pool
import GenericBooter.DeviceTree.Records

namespace GenericBooter

open ByteMemory Linked

section Segments

variable (visit : Word × LoaderState)

def InVmRange (vmaddr : Word) : Prop :=
  Covers (SegmentCommand.vmaddr visit.2.2.memory visit.1) (SegmentCommand.vmsize visit.2.2.memory visit.1).toNat vmaddr

def VmApart (visit visit' : Word × LoaderState) : Prop :=
  IsSegment visit.2.2.memory visit.1 → IsSegment visit'.2.2.memory visit'.1 →
    ∀ vmaddr, InVmRange visit vmaddr → ¬ InVmRange visit' vmaddr

instance : Std.Symm VmApart :=
  ⟨fun _ _ apart own other vmaddr inside inside' => apart other own vmaddr inside' inside⟩

structure SegmentsFit (size : Word) (visits : List (Word × LoaderState)) : Prop where
  disjoint : visits.Pairwise VmApart
  filesize : ∀ visit ∈ visits, IsSegment visit.2.2.memory visit.1 →
    (SegmentCommand.filesize visit.2.2.memory visit.1).toNat ≤ (SegmentCommand.vmsize visit.2.2.memory visit.1).toNat
  inside : ∀ visit ∈ visits, IsSegment visit.2.2.memory visit.1 →
    (SegmentCommand.vmaddr visit.2.2.memory visit.1 - KERNEL_VMADDR).toNat +
      (SegmentCommand.vmsize visit.2.2.memory visit.1).toNat ≤ size.toNat

/-- The place of a byte of a segment that the file has no contents for. -/
def InTail (loadaddr : Word) (visits : List (Word × LoaderState)) (address : Word) : Prop :=
  ∃ visit ∈ visits, IsSegment visit.2.2.memory visit.1 ∧
    ∃ i, (SegmentCommand.filesize visit.2.2.memory visit.1).toNat ≤ i ∧
      i < (SegmentCommand.vmsize visit.2.2.memory visit.1).toNat ∧
        address = segmentTarget loadaddr KERNEL_VMADDR visit.2.2.memory visit.1 + BitVec.ofNat 32 i

end Segments

/-- What the stage that comes next must find: sizes that keep the running position, and what is written at it, below
    the top of the address space. -/
def BootState.HasRoom (locals : DarwinLocals) : BootState → Prop
  | .cleared b => ∀ image payload, KernelFound b.platform locals.kernel image payload →
    b.platform.kernelRegion.pos.toNat +
      (machoGetVmsize b.platform.machine.memory (kernelContext locals.kernel payload)).toNat < 2 ^ 32
  | .described _ b => ∀ image payload, RamdiskFound b image payload →
    roundUp b.platform.kernelRegion.pos.toNat 4096 + payload.size.toNat < 2 ^ 32
  | .copied b => b.platform.kernelRegion.pos.toNat + b.dt.totalSize.toNat < 2 ^ 32 ∧
    ∀ tree, b.dt.unrollNodes b.dt.walkLimit b.dt.rootNode = .ok tree → ∀ put ∈ forestPuts 0 tree,
      b.platform.kernelRegion.pos.toNat + (put.patch.offset + put.patch.data.length) ≤ 2 ^ 32
  | .flattened b => roundUp b.platform.kernelRegion.pos.toNat 1024 + BootArgs.size.toNat < 2 ^ 32
  | _ => True

section Text

variable {m : Memory} {base address : Word}

theorem erased_write {length : Nat} {text : List Byte} (erased : Erased (read m base length) text)
    (room : length ≤ 2 ^ 32) (zero : m address = 0) : write m base text address = 0 := by
  have size := erased.length_eq
  rw [read_length] at size
  by_cases inside : Covers base text.length address
  · obtain ⟨i, bound, rfl⟩ := covers_exists inside
    rw [write_inside m base text i bound (by omega)]
    rcases erased.getElem (i := i) (by rw [read_length]; omega) bound with same | nul
    · rw [same, read_getElem, zero]
    · exact nul
  · rw [write_outside m base address text inside, zero]

theorem prepareDevicetree_zero {locals : DevicetreeLocals} {b b' : Booter} {entered : Bool}
    (ran : prepareDevicetree locals b = .ok (entered, b')) (zero : b.platform.machine.memory address = 0) :
    b'.platform.machine.memory address = 0 := by
  simp only [prepareDevicetree, bind_eq_ok] at ran
  obtain ⟨image, _, _, _, payload, _, dt, _, ran⟩ := ran
  split at ran
  · cases ran
  · simp only [bind_eq_ok] at ran
    obtain ⟨text, held, ⟨entered', text', b₁⟩, document, ran⟩ := ran
    obtain ⟨_, rfl⟩ := Prod.mk.inj (Except.ok.inj ran)
    obtain ⟨same, room⟩ := stringFrom_read held
    have erased := enterDocument_erased document
    rw [same] at erased
    exact erased_write erased room zero

end Text

def ZeroBelow (address : Word) (p : Platform) : Prop :=
  p.machine.memory address = 0 ∧ address.toNat < p.kernelRegion.pos.toNat

section Stages

variable {locals : DarwinLocals} {address : Word}

theorem above_apart {position length : Nat} (below : address.toNat < position) (room : position + length ≤ 2 ^ 32) :
    ¬ Covers (BitVec.ofNat 32 position) length address := by
  have own : Covers (BitVec.ofNat 32 address.toNat) 1 address := by
    rw [BitVec.ofNat_toNat, BitVec.setWidth_eq, Covers, sub_self]
    exact Nat.one_pos
  exact covers_apart below (by omega) own

theorem ZeroBelow.above {p p' : Platform} {position taken : Nat} {made : List Store} (zero : ZeroBelow address p)
    (above : p.kernelRegion.pos.toNat ≤ position) (room : position + taken < 2 ^ 32)
    (pos : p'.kernelRegion.pos = BitVec.ofNat 32 (position + taken)) (steps : p.machine.Steps p'.machine made)
    (inside : ∀ store ∈ made, ¬ store.Touches address) : ZeroBelow address p' := by
  obtain ⟨cell, below⟩ := zero
  refine ⟨?_, ?_⟩
  · rw [steps.2 address inside, cell]
  · rw [pos, BitVec.toNat_ofNat, Nat.mod_eq_of_lt room]
    omega

theorem InTail.untouched {loadaddr size : Word} {visits : List (Word × LoaderState)} (fit : SegmentsFit size visits)
    (tail : InTail loadaddr visits address) {visit : Word × LoaderState} (met : visit ∈ visits) {store : Store}
    (made : store ∈ segmentStore loadaddr KERNEL_VMADDR visit.2.2.memory visit.1) : ¬ store.Touches address := by
  obtain ⟨own, member, segment, i, behind, bound, rfl⟩ := tail
  have small := (SegmentCommand.vmsize own.2.2.memory own.1).isLt
  unfold segmentStore at made
  split at made
  · rename_i mapped
    rw [List.mem_singleton.mp made]
    intro touched
    change Covers (segmentTarget loadaddr KERNEL_VMADDR visit.2.2.memory visit.1) _ _ at touched
    by_cases same : own = visit
    · subst same
      rw [Store.length, covers_add _ _ i (by omega)] at touched
      omega
    · have fits := fit.filesize visit met mapped.1
      have apart := fit.disjoint.forall member met same segment mapped.1
      have place : SegmentCommand.vmaddr own.2.2.memory own.1 + BitVec.ofNat 32 i - SegmentCommand.vmaddr visit.2.2.memory visit.1 =
          segmentTarget loadaddr KERNEL_VMADDR own.2.2.memory own.1 + BitVec.ofNat 32 i -
            segmentTarget loadaddr KERNEL_VMADDR visit.2.2.memory visit.1 := by
        unfold segmentTarget
        ring
      apply apart (SegmentCommand.vmaddr own.2.2.memory own.1 + BitVec.ofNat 32 i)
      · exact (covers_add _ _ i (by omega)).mpr bound
      · rw [InVmRange, Covers, place]
        exact Nat.lt_of_lt_of_le touched fits
  · exact absurd made List.not_mem_nil

theorem InTail.below {loadaddr size : Word} {visits : List (Word × LoaderState)} (fit : SegmentsFit size visits)
    (tail : InTail loadaddr visits address) (room : loadaddr.toNat + size.toNat < 2 ^ 32) :
    address.toNat < (loadaddr + size).toNat := by
  obtain ⟨own, member, segment, i, _, bound, rfl⟩ := tail
  have inside := fit.inside own member segment
  have place : segmentTarget loadaddr KERNEL_VMADDR own.2.2.memory own.1 + BitVec.ofNat 32 i = BitVec.ofNat 32
      (loadaddr.toNat + (SegmentCommand.vmaddr own.2.2.memory own.1 - KERNEL_VMADDR).toNat + i) := by
    rw [BitVec.ofNat_add, BitVec.ofNat_add, BitVec.ofNat_toNat, BitVec.ofNat_toNat, BitVec.setWidth_eq,
      BitVec.setWidth_eq, segmentTarget]
  rw [place, BitVec.toNat_ofNat, Nat.mod_eq_of_lt (by omega), BitVec.toNat_add, Nat.mod_eq_of_lt room]
  omega

theorem map_zero {b : Booter} {p : Platform} {image : Word} {payload : TagData}
    (kernel : KernelFound b.platform locals.kernel image payload)
    (fit : SegmentsFit (machoGetVmsize b.platform.machine.memory (kernelContext locals.kernel payload))
      (fileMapVisits b.platform.kernelRegion.pos (kernelContext locals.kernel payload, b.platform.machine)))
    (tail : InTail b.platform.kernelRegion.pos
      (fileMapVisits b.platform.kernelRegion.pos (kernelContext locals.kernel payload, b.platform.machine)) address)
    (room : (BootState.cleared b).HasRoom locals) (zero : b.platform.machine.memory address = 0)
    (ran : prepareKernel locals.kernel b.platform = .ok p) : ZeroBelow address p := by
  obtain ⟨image', payload', found, result⟩ := prepareKernel_ok ran
  obtain rfl := Except.ok.inj (kernel.located.symm.trans found.located)
  obtain rfl := Except.ok.inj (kernel.tagged.symm.trans found.tagged)
  obtain ⟨made, steps, met⟩ := forEachLcFrom_steps b.platform.kernelRegion.pos KERNEL_VMADDR payload.data (2 ^ 32) 0
    (payload.data + MachHeader.size) (kernelContext locals.kernel payload, b.platform.machine)
  rw [result]
  refine ⟨?_, tail.below fit (room image payload kernel)⟩
  refine (steps.2 address fun store member => ?_).trans zero
  obtain ⟨visit, inside, stored⟩ := met store member
  exact tail.untouched fit inside stored

theorem ZeroBelow.reserves {p : Platform} {machine : Machine} {made : List Store} (request : Request)
    (zero : ZeroBelow address p) (aligns : request.Aligns)
    (room : roundUp p.kernelRegion.pos.toNat request.align.toNat + request.size.toNat < 2 ^ 32)
    (steps : p.machine.Steps machine made) (inside : ∀ store ∈ made, store.Touches address →
      Covers (p.reserve request.size request.align).1 request.size.toNat address) :
    ZeroBelow address { (p.reserve request.size request.align).2 with machine := machine } := by
  have at' := p.kernelRegion.pos_eq
  have above := roundUp_le p.kernelRegion.pos.toNat request.align.toNat
  have reserved := p.reserve_at request aligns at'
  rw [reserved] at inside ⊢
  apply zero.above above room rfl steps
  intro store member touched
  exact above_apart (Nat.lt_of_lt_of_le zero.2 above) (Nat.le_of_lt room) (inside store member touched)

theorem copy_zero {b b' : Booter} {memoryMap : Nat} (zero : ZeroBelow address b.platform)
    (room : (BootState.described memoryMap b).HasRoom locals) (ran : b.enterRamdisk memoryMap = .ok b') :
    ZeroBelow address b'.platform := by
  have at' := b.platform.kernelRegion.pos_eq
  rcases enterRamdisk_found ran with ⟨same, _⟩ | ⟨image, payload, found⟩
  · exact same ▸ zero
  · obtain ⟨_, _, platform⟩ := enterRamdisk_ok found at' ran
    rw [platform]
    apply zero.reserves ⟨payload.size, 4096⟩ (Or.inr ⟨12, by decide, rfl⟩) (room image payload found)
      (Machine.bcopy_steps _ _ _ _)
    intro store member touched
    rw [List.mem_singleton.mp member] at touched
    rw [b.platform.reserve_at ⟨payload.size, 4096⟩ (Or.inr ⟨12, by decide, rfl⟩) at']
    exact touched

theorem flatten_zero {b b' : Booter} (zero : ZeroBelow address b.platform)
    (room : (BootState.copied b).HasRoom locals) (ran : b.flattenDevicetree = .ok b') :
    ZeroBelow address b'.platform := by
  obtain ⟨size, places⟩ := room
  have at' := b.platform.kernelRegion.pos_eq
  have below := zero.2
  have given : BitVec.ofNat 32 b.platform.kernelRegion.pos.toNat ≠ 0 := position_ne_zero (by omega) (by omega)
  obtain ⟨flattened, flat, rfl⟩ := flattenDevicetree_calls at' ran
  rcases dtFlattenDeviceTree_cases flat with ⟨_, same⟩ | ⟨_, buf, dt, tree, chosen, _, unrolled, machine⟩
  · have kept : b.platform.machine.Steps flattened.machine [] := same ▸ Machine.Steps.refl _
    exact zero.above (Nat.le_refl _) size rfl kept fun _ none => absurd none List.not_mem_nil
  · obtain ⟨rfl, rfl⟩ := chosen given
    have stores := (Machine.bzero_steps b.platform.machine (BitVec.ofNat 32 b.platform.kernelRegion.pos.toNat)
      b.dt.totalSize).trans (putAll_steps _ (BitVec.ofNat 32 b.platform.kernelRegion.pos.toNat) (forestPuts 0 tree))
    rw [← machine] at stores
    apply zero.above (Nat.le_refl _) size rfl stores
    intro store member touched
    rcases List.mem_append.mp member with stored | cleared
    · obtain ⟨put, inside, rfl⟩ := List.mem_map.mp (List.mem_reverse.mp stored)
      rw [put.touches_iff, ← BitVec.ofNat_add] at touched
      have place := places tree unrolled put inside
      exact above_apart (by omega) (by omega) touched
    · rw [List.mem_singleton.mp cleared] at touched
      exact above_apart below (Nat.le_of_lt size) touched

theorem finish_zero {b b' : Booter} {args : Word} (zero : ZeroBelow address b.platform)
    (room : (BootState.flattened b).HasRoom locals) (ran : b.prepareFinalizedBootArgs = (args, b')) :
    ZeroBelow address b'.platform := by
  obtain ⟨_, rfl⟩ := Prod.mk.inj ran
  apply zero.reserves ⟨BootArgs.size, 1024⟩ (Or.inr ⟨10, by decide, rfl⟩) room (Machine.storeBytes_steps _ _ _)
  intro store member touched
  rw [List.mem_singleton.mp member] at touched
  rw [← BootArgs.bytes_length]
  exact touched

theorem BootStep.zero {s s' : BootState} (step : BootStep locals s s') (begun : ∀ b, s ≠ .cleared b)
    (room : s.HasRoom locals) (zero : ZeroBelow address s.booter.platform) : ZeroBelow address s'.booter.platform := by
  cases step with
  | map => exact absurd rfl (begun _)
  | load ran =>
    obtain ⟨_, memory, platform⟩ := prepareDevicetree_keeps ran
    refine ⟨prepareDevicetree_zero ran zero.1, ?_⟩
    rw [BootState.booter, platform]
    exact zero.2
  | describe ran =>
    obtain ⟨dt, rfl⟩ := describeMachine_keeps ran
    exact zero
  | copy ran => exact copy_zero zero room ran
  | flatten ran => exact flatten_zero zero room ran
  | finish ran => exact finish_zero zero room ran

theorem BootStep.begun {s s' : BootState} (step : BootStep locals s s') (b : Booter) : s' ≠ .cleared b := by
  cases step <;> rintro ⟨⟩

end Stages

/-- In every run with room for its stages the tails read zero as far as memory has been cleared. -/
theorem tails_read_zero {locals : DarwinLocals} {b : Booter} {s : BootState} {image : Word} {payload : TagData}
    (kernel : KernelFound b.clearMemory.platform locals.kernel image payload)
    (fit : SegmentsFit (machoGetVmsize b.clearMemory.platform.machine.memory (kernelContext locals.kernel payload))
      (fileMapVisits b.clearMemory.platform.kernelRegion.pos
        (kernelContext locals.kernel payload, b.clearMemory.platform.machine)))
    (run : Relation.ReflTransGen (fun s s' => BootStep locals s s' ∧ s.HasRoom locals) (startState b) s) {address : Word}
    (tail : InTail b.clearMemory.platform.kernelRegion.pos (fileMapVisits b.clearMemory.platform.kernelRegion.pos
      (kernelContext locals.kernel payload, b.clearMemory.platform.machine)) address)
    (cleared : Covers b.bootArgs.physBase kClearedLength.toNat address) :
    s.booter.platform.machine.memory address = 0 := by
  have start : (startState b).booter.platform.machine.memory address = 0 := if_pos cleared
  have kept : s = startState b ∨ (∀ b, s ≠ .cleared b) ∧ ZeroBelow address s.booter.platform := by
    induction run with
    | refl => exact Or.inl rfl
    | tail _ step ih =>
      refine Or.inr ⟨step.1.begun, ?_⟩
      rcases ih with rfl | ⟨begun, zero⟩
      · obtain ⟨step, room⟩ := step
        cases step with
        | map ran => exact map_zero kernel fit tail room start ran
      · exact step.1.zero begun step.2 zero
  rcases kept with rfl | ⟨_, zero⟩
  · exact start
  · exact zero.1

theorem BootState.Fits.hasRoom {locals : DarwinLocals} {start size : Word} {s : BootState} (fits : s.Fits start size locals)
    (ram : start.toNat + size.toNat ≤ 2 ^ 32) : s.HasRoom locals := by
  have pool : kMallocSize.toNat = 0x1800000 := rfl
  cases s with
  | cleared b =>
    intro image payload found
    have below := (fits image payload found).1
    unfold BelowPool at below
    omega
  | described _ b =>
    intro image payload found
    have below := fits image payload found
    unfold BelowPool at below
    omega
  | copied b =>
    obtain ⟨tree, shown, names, below⟩ := fits
    unfold BelowPool at below
    have total := shown.totalSize_toNat (by omega)
    refine ⟨by omega, fun tree' unrolled put member => ?_⟩
    obtain rfl := Except.ok.inj (unrolled.symm.trans shown.unrolls)
    have nonempty : tree ≠ .nil := by
      rintro rfl
      cases member
    have place := forestPuts_place member
    obtain ⟨done, flattens⟩ := (flattensTo_iff shown nonempty (show (1 : Word) ≠ 0 by decide) b.platform.machine).mpr
      ⟨names, by omega⟩
    rcases flattens.puts_within shown nonempty (by omega) (by decide) member with empty | within
    · rw [empty, List.length_nil]
      omega
    · omega
  | flattened b =>
    have below : BelowPool start size _ := fits
    unfold BelowPool at below
    change _ < _
    omega
  | mapped => trivial
  | loaded => trivial
  | finished => trivial

section Samples

def sampleVisits (b : Booter) : List (Word × LoaderState) :=
  fileMapVisits b.clearMemory.platform.kernelRegion.pos
    (kernelContext darwinLocals.kernel ⟨true, 0x10020, 184⟩, b.clearMemory.platform.machine)

def sampleSize (b : Booter) : Word :=
  machoGetVmsize b.clearMemory.platform.machine.memory (kernelContext darwinLocals.kernel ⟨true, 0x10020, 184⟩)

structure LoneSegment (b : Booter) (vmsize : Word) : Prop where
  located : getImage3 b.clearMemory.platform.machine.memory b.platform.imagesEnd kImage3TypeKernel = .ok 0x10000
  tagged : image3GetTagData b.clearMemory.platform.machine.memory 0x10000 kImage3TagData 0 0 =
    .ok ⟨true, 0x10020, 184⟩
  alone : (sampleVisits b).Pairwise fun visit visit' =>
    ¬ (LoadCommand.cmd visit.2.2.memory visit.1 = kLoadCommandSegment ∧
      LoadCommand.cmd visit'.2.2.memory visit'.1 = kLoadCommandSegment)
  met : ∃ visit ∈ sampleVisits b, LoadCommand.cmd visit.2.2.memory visit.1 = kLoadCommandSegment
  fields : ∀ visit ∈ sampleVisits b, LoadCommand.cmd visit.2.2.memory visit.1 = kLoadCommandSegment →
    SegmentCommand.vmaddr visit.2.2.memory visit.1 = KERNEL_VMADDR ∧
      SegmentCommand.filesize visit.2.2.memory visit.1 = 184 ∧ SegmentCommand.vmsize visit.2.2.memory visit.1 = vmsize
  size : sampleSize b = vmsize

namespace LoneSegment

variable {b : Booter} {vmsize : Word}

theorem found (lone : LoneSegment b vmsize) :
    KernelFound b.clearMemory.platform darwinLocals.kernel 0x10000 ⟨true, 0x10020, 184⟩ where
  located := lone.located
  present := by decide
  tagged := lone.tagged
  nonnull := by decide

theorem fit (lone : LoneSegment b vmsize) (large : 184 ≤ vmsize.toNat) : SegmentsFit (sampleSize b) (sampleVisits b) where
  disjoint := lone.alone.imp fun alone own other => absurd ⟨own, other⟩ alone
  filesize visit met segment := by
    obtain ⟨_, filesize, vmsize⟩ := lone.fields visit met segment
    rw [filesize, vmsize]
    exact large
  inside visit met segment := by
    obtain ⟨vmaddr, _, vmsize⟩ := lone.fields visit met segment
    rw [vmaddr, vmsize, lone.size, sub_self]
    exact Nat.le_of_eq (Nat.zero_add _)

theorem tail (lone : LoneSegment b vmsize) {i : Nat} (behind : 184 ≤ i) (bound : i < vmsize.toNat) :
    InTail b.clearMemory.platform.kernelRegion.pos (sampleVisits b)
      (b.clearMemory.platform.kernelRegion.pos + BitVec.ofNat 32 i) := by
  obtain ⟨visit, met, segment⟩ := lone.met
  obtain ⟨vmaddr, filesize, vmsize⟩ := lone.fields visit met segment
  refine ⟨visit, met, segment, i, ?_, ?_, ?_⟩
  · rw [filesize]
    exact behind
  · rw [vmsize]
    exact bound
  · rw [segmentTarget, vmaddr, sub_self, add_zero]

end LoneSegment

theorem sampleBooter_lone : LoneSegment (sampleBooter roomy) 0x1000 := by
  constructor <;> decide +kernel

theorem sampleBooter_tail : ∃ args b', startDarwin darwinLocals (sampleBooter roomy) = .ok (args, b') ∧
    ∀ i, 184 ≤ i → i < 0x1000 → b'.platform.machine.memory (0x70001000 + BitVec.ofNat 32 i) = 0 := by
  obtain ⟨args, b', reached, run⟩ := sampleBooter_run
  have ram : (0x70000000 : Word).toNat + (0x10000000 : Word).toNat ≤ 2 ^ 32 := by decide
  have withRoom : Relation.ReflTransGen (fun s s' => BootStep darwinLocals s s' ∧ s.HasRoom darwinLocals)
      (startState (sampleBooter roomy)) (.finished args b') :=
    Relation.ReflTransGen.mono (fun _ _ step => ⟨step.1, step.2.hasRoom ram⟩) _ _ run
  refine ⟨args, b', reached, fun i behind bound => ?_⟩
  have cleared : Covers (sampleBooter roomy).bootArgs.physBase kClearedLength.toNat
      ((0x70001000 : Word) + BitVec.ofNat 32 i) := by
    have place : (0x70001000 : Word) + BitVec.ofNat 32 i = 0x70000000 + BitVec.ofNat 32 (0x1000 + i) := by
      rw [BitVec.ofNat_add, ← add_assoc]
      rfl
    rw [place]
    exact (covers_add _ _ _ (by omega)).mpr (show 0x1000 + i < 0x8000000 by omega)
  exact tails_read_zero sampleBooter_lone.found (sampleBooter_lone.fit (by decide)) withRoom
    (sampleBooter_lone.tail behind bound) cleared

def staleBooter (vmsize ramdisk : Word) : Booter :=
  { sampleBooter roomy with platform := { (sampleBooter roomy).platform with
    machine := ⟨write (fun _ => 7) 0x10000 (imageBytes kImage3TypeKernel
      (([kMachMagic, 12, 9, kMachExecute, 2, 140, 0] ++ segmentWords 0x80001000 vmsize 0 184 ++
        ([kLoadCommandUnixThread, 84, 1, 17] ++ List.replicate 15 0 ++ [0x80001040, 0]) ++
          List.replicate 4 0).flatMap wordBytes) ++ (imageBytes kImage3TypeXmlDeviceTree nestedText ++
      ([kImage3Magic, 36, 16, 0, kImage3TypeRamdisk, kImage3TagData, 16, ramdisk].flatMap wordBytes ++ [1, 2, 3, 4]))), []⟩ } }

def StartsStale (b : Booter) (address : Word) : Prop :=
  KernelFound b.clearMemory.platform darwinLocals.kernel 0x10000 ⟨true, 0x10020, 184⟩ ∧
    SegmentsFit (sampleSize b) (sampleVisits b) ∧
      InTail b.clearMemory.platform.kernelRegion.pos (sampleVisits b) address ∧
        ∃ args b', startDarwin darwinLocals b = .ok (args, b') ∧ b'.platform.machine.memory address ≠ 0

theorem LoneSegment.startsStale {b : Booter} {vmsize : Word} (lone : LoneSegment b vmsize) {i : Nat} {byte : Byte}
    (behind : 184 ≤ i) (bound : i < vmsize.toNat) (stale : byte ≠ 0)
    (reached : (do let (_, b') ← startDarwin darwinLocals b
                   .ok (b'.platform.machine.memory (b.clearMemory.platform.kernelRegion.pos + BitVec.ofNat 32 i))) =
      (.ok byte : Except Stop Byte)) : StartsStale b (b.clearMemory.platform.kernelRegion.pos + BitVec.ofNat 32 i) := by
  obtain ⟨⟨args, b'⟩, ran, held⟩ := bind_eq_ok.mp reached
  refine ⟨lone.found, lone.fit (by omega), lone.tail behind bound, args, b', ran, ?_⟩
  rw [Except.ok.inj held]
  exact stale

theorem staleBooter_starts : StartsStale (staleBooter 0x8000000 4) 0x78000000 ∧
    StartsStale (staleBooter 0x1000 0xffffffff) 0x70001100 := by
  have beyond : LoneSegment (staleBooter 0x8000000 4) 0x8000000 := by constructor <;> decide +kernel
  have around : LoneSegment (staleBooter 0x1000 0xffffffff) 0x1000 := by constructor <;> decide +kernel
  refine ⟨?_, ?_⟩
  · exact beyond.startsStale (i := 0x7fff000) (by decide) (by decide) (show (7 : Byte) ≠ 0 by decide) (by decide +kernel)
  · exact around.startsStale (i := 0x100) (by decide) (by decide) (show (7 : Byte) ≠ 0 by decide) (by decide +kernel)

end Samples

end GenericBooter
