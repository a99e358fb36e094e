import GenericBooter.Loader.MachO

namespace GenericBooter

open ByteMemory

def SegmentFits (m : Memory) (vmBias size lc : Word) : Prop :=
  LoadCommand.cmd m lc = kLoadCommandSegment → SegmentCommand.filesize m lc ≠ 0 →
    (SegmentCommand.vmaddr m lc - vmBias).toNat + (SegmentCommand.filesize m lc).toNat ≤ size.toNat

instance (m : Memory) (vmBias size lc : Word) : Decidable (SegmentFits m vmBias size lc) :=
  inferInstanceAs (Decidable (_ → _ → _))

def segmentStore (loadaddr vmBias : Word) (m : Memory) (lc : Word) : List Store :=
  if LoadCommand.cmd m lc = kLoadCommandSegment ∧ SegmentCommand.filesize m lc ≠ 0 then
    [.bytes (loadaddr + (SegmentCommand.vmaddr m lc - vmBias)) (SegmentCommand.filesize m lc).toNat]
  else []

def fileMapVisits (loadaddr : Word) (s : LoaderState) : List (Word × LoaderState) :=
  lcVisits (fun s => s.2.memory) (fileMapBody loadaddr s.1.vmBias) s.1.source s

theorem fileMapBody_steps (loadaddr vmBias lc : Word) (s : LoaderState) :
    s.2.Steps (fileMapBody loadaddr vmBias lc s).2 (segmentStore loadaddr vmBias s.2.memory lc) := by
  by_cases segment : LoadCommand.cmd s.2.memory lc = kLoadCommandSegment
  · by_cases empty : SegmentCommand.filesize s.2.memory lc = 0
    · simp only [fileMapBody, segmentStore, segment, empty, if_true, ne_eq, not_true_eq_false,
        and_false, if_false]
      exact Machine.Steps.refl _
    · simp only [fileMapBody, segmentStore, segment, empty, if_true, ne_eq, not_false_eq_true,
        and_true]
      exact Machine.bcopy_steps _ _ _ _
  · simp only [fileMapBody, segmentStore, segment, false_and, if_false]
    split <;> exact Machine.Steps.refl _

theorem forEachLcFrom_stores (loadaddr vmBias head : Word) (left i : Nat) (lc : Word)
    (s : LoaderState) (store : Store) :
    store ∈ (forEachLcFrom (fun s => s.2.memory) (fileMapBody loadaddr vmBias) head left i lc s).2.stores ↔
      store ∈ s.2.stores ∨
        ∃ visit ∈ lcVisitsFrom (fun s => s.2.memory) (fileMapBody loadaddr vmBias) head left i lc s,
          store ∈ segmentStore loadaddr vmBias visit.2.2.memory visit.1 := by
  induction left generalizing i lc s with
  | zero => simp [forEachLcFrom, lcVisitsFrom]
  | succ left ih =>
    simp only [forEachLcFrom, lcVisitsFrom]
    split
    · rw [ih, (fileMapBody_steps loadaddr vmBias lc s).1]
      simp only [List.mem_append, List.mem_cons, exists_eq_or_imp]
      tauto
    · simp

theorem forEachLcFrom_steps (loadaddr vmBias head : Word) (left i : Nat) (lc : Word) (s : LoaderState) :
    ∃ made, s.2.Steps (forEachLcFrom (fun s => s.2.memory) (fileMapBody loadaddr vmBias) head left i lc s).2 made ∧
      ∀ store ∈ made, ∃ visit ∈ lcVisitsFrom (fun s => s.2.memory) (fileMapBody loadaddr vmBias) head left i lc s,
        store ∈ segmentStore loadaddr vmBias visit.2.2.memory visit.1 := by
  induction left generalizing i lc s with
  | zero => exact ⟨[], Machine.Steps.refl _, fun _ none => absurd none List.not_mem_nil⟩
  | succ left ih =>
    simp only [forEachLcFrom, lcVisitsFrom]
    split
    · obtain ⟨made, later, met⟩ := ih (i + 1) (lc + LoadCommand.cmdsize (fileMapBody loadaddr vmBias lc s).2.memory lc)
        (fileMapBody loadaddr vmBias lc s)
      refine ⟨made ++ segmentStore loadaddr vmBias s.2.memory lc, (fileMapBody_steps loadaddr vmBias lc s).trans later, ?_⟩
      intro store member
      rcases List.mem_append.mp member with new | here
      · obtain ⟨visit, inside, stored⟩ := met store new
        exact ⟨visit, List.mem_cons_of_mem _ inside, stored⟩
      · exact ⟨(lc, s), List.mem_cons_self, here⟩
    · exact ⟨[], Machine.Steps.refl _, fun _ none => absurd none List.not_mem_nil⟩

theorem segmentStore_inside_iff (loadaddr vmBias size lc : Word) (m : Memory) :
    (∀ store ∈ segmentStore loadaddr vmBias m lc, ∀ address, store.Touches address →
      Covers loadaddr size.toNat address) ↔ SegmentFits m vmBias size lc := by
  by_cases mapped : LoadCommand.cmd m lc = kLoadCommandSegment ∧ SegmentCommand.filesize m lc ≠ 0
  · have nonempty : (SegmentCommand.filesize m lc).toNat ≠ 0 := fun zero =>
      mapped.2 (BitVec.eq_of_toNat_eq zero)
    have range := covers_inside_iff loadaddr (SegmentCommand.vmaddr m lc - vmBias).toNat
      (SegmentCommand.filesize m lc).toNat size.toNat (BitVec.isLt _) size.isLt
    rw [BitVec.ofNat_toNat, BitVec.setWidth_eq] at range
    rw [segmentStore, if_pos mapped]
    constructor
    · intro inside _ _
      have fits := range.mp (fun address touched => inside _ (List.mem_singleton_self _) address touched)
      exact fits.resolve_left nonempty
    · intro fits store member address touched
      rw [List.mem_singleton] at member
      subst member
      exact range.mpr (Or.inr (fits mapped.1 mapped.2)) address touched
  · rw [segmentStore, if_neg mapped]
    constructor
    · intro _ segment nonempty
      exact absurd ⟨segment, nonempty⟩ mapped
    · intro _ store member
      exact absurd member List.not_mem_nil

/-- Neither the Mach header nor a load command lies in the range the kernel is given. -/
def CommandsOutside (m : Memory) (file loadaddr size : Word) : Prop :=
  (∀ i < MachHeader.size.toNat, ¬ Covers loadaddr size.toNat (file + BitVec.ofNat 32 i)) ∧
    ∀ lc ∈ loadCommands m file, ∀ i < commandBytes m lc,
      ¬ Covers loadaddr size.toNat (lc + BitVec.ofNat 32 i)

theorem segmentFits_congr {m m' : Memory} (vmBias size : Word) {lc : Word}
    (same : ∀ i < commandBytes m' lc, m (lc + BitVec.ofNat 32 i) = m' (lc + BitVec.ofNat 32 i)) :
    SegmentFits m vmBias size lc ↔ SegmentFits m' vmBias size lc := by
  have command := (cmd_congr (eight_le_commandBytes m' lc) same).1
  by_cases segment : LoadCommand.cmd m' lc = kLoadCommandSegment
  · have fields := segment_congr segment same
    rw [SegmentFits, SegmentFits, command, fields.vmaddr, fields.filesize]
  · rw [SegmentFits, SegmentFits, command]
    simp only [segment, false_implies]

theorem visits_fit_iff (m : Memory) (file loadaddr vmBias size : Word)
    (header : ∀ i < MachHeader.size.toNat, ¬ Covers loadaddr size.toNat (file + BitVec.ofNat 32 i))
    (count left i : Nat) (lc : Word) (s : LoaderState)
    (counter : i + count = (MachHeader.ncmds m file).toNat) (rounds : count < left)
    (agree : ∀ address, ¬ Covers loadaddr size.toNat address → s.2.memory address = m address)
    (commands : ∀ lc' ∈ loadCommandsFrom m count lc, ∀ i < commandBytes m lc',
      ¬ Covers loadaddr size.toNat (lc' + BitVec.ofNat 32 i)) :
    (∀ visit ∈ lcVisitsFrom (fun s => s.2.memory) (fileMapBody loadaddr vmBias) file left i lc s,
        SegmentFits visit.2.2.memory vmBias size visit.1) ↔
      ∀ lc' ∈ loadCommandsFrom m count lc, SegmentFits m vmBias size lc' := by
  induction count generalizing left i lc s with
  | zero =>
    obtain ⟨left, rfl⟩ := Nat.exists_eq_succ_of_ne_zero (Nat.ne_of_gt rounds)
    have count : MachHeader.ncmds s.2.memory file = MachHeader.ncmds m file :=
      field_congr 16 (fun i small => agree _ (header i small)) (by decide)
    simp only [lcVisitsFrom, count, loadCommandsFrom]
    rw [if_neg (by omega)]
    simp
  | succ count ih =>
    obtain ⟨left, rfl⟩ := Nat.exists_eq_succ_of_ne_zero (Nat.ne_zero_of_lt rounds)
    have total : MachHeader.ncmds s.2.memory file = MachHeader.ncmds m file :=
      field_congr 16 (fun i small => agree _ (header i small)) (by decide)
    have here : ∀ i < commandBytes m lc,
        s.2.memory (lc + BitVec.ofNat 32 i) = m (lc + BitVec.ofNat 32 i) := fun i small =>
      agree _ (commands lc List.mem_cons_self i small)
    have fits := segmentFits_congr vmBias size here
    simp only [lcVisitsFrom, total, loadCommandsFrom]
    rw [if_pos (by omega)]
    simp only [List.forall_mem_cons]
    rw [fits]
    refine and_congr_right fun holds => ?_
    have stays : ∀ address, ¬ Covers loadaddr size.toNat address →
        (fileMapBody loadaddr vmBias lc s).2.memory address = m address := by
      intro address outside
      rw [(fileMapBody_steps loadaddr vmBias lc s).2 address fun store made touched => outside
        ((segmentStore_inside_iff loadaddr vmBias size lc s.2.memory).mpr (fits.mpr holds)
          store made address touched)]
      exact agree address outside
    have next : LoadCommand.cmdsize (fileMapBody loadaddr vmBias lc s).2.memory lc =
        LoadCommand.cmdsize m lc :=
      (cmd_congr (eight_le_commandBytes m lc) fun i small =>
        stays _ (commands lc List.mem_cons_self i small)).2
    rw [next]
    exact ih left (i + 1) _ _ (by omega) (by omega) stays fun lc' member =>
      commands lc' (List.mem_cons_of_mem _ member)

section

variable (m : Memory) (ctx : LoaderContext) (file vmBias loadaddr : Word)

def loaderStart : LoaderState := ((machoSetVmBias (machoInitialize m ctx file).2 vmBias).2, ⟨m, []⟩)

def kernelSize : Word := machoGetVmsize m (loaderStart m ctx file vmBias).1

def kernelStores : List Store := (machoFileMap loadaddr (loaderStart m ctx file vmBias)).2.2.stores

def MappedInside : Prop :=
  ∀ store ∈ kernelStores m ctx file vmBias loadaddr, ∀ address, store.Touches address →
    Covers loadaddr (kernelSize m ctx file vmBias).toNat address

end

theorem machoInitialize_source (m : Memory) (ctx : LoaderContext) (file : Word)
    (accepted : (machoInitialize m ctx file).1 = .kLoadSuccess) :
    (machoInitialize m ctx file).2 = { ctx with source := file } := by
  unfold machoInitialize at accepted ⊢
  split_ifs at accepted ⊢
  rfl

theorem mappedInside_iff_visits (m : Memory) (ctx : LoaderContext) (file vmBias loadaddr : Word) :
    MappedInside m ctx file vmBias loadaddr ↔
      ∀ visit ∈ fileMapVisits loadaddr (loaderStart m ctx file vmBias),
        SegmentFits visit.2.2.memory vmBias (kernelSize m ctx file vmBias) visit.1 := by
  simp only [MappedInside, kernelStores, machoFileMap, forEachLc, forEachLcFrom_stores, loaderStart,
    List.not_mem_nil, false_or, ← segmentStore_inside_iff loadaddr, fileMapVisits, lcVisits]
  exact ⟨fun inside visit met store made => inside store ⟨visit, met, made⟩,
    fun inside store ⟨visit, met, made⟩ => inside visit met store made⟩

def segmentWords (vmaddr vmsize fileoff filesize : Word) : List Word :=
  [kLoadCommandSegment, 56, 0, 0, 0, 0, vmaddr, vmsize, fileoff, filesize, 7, 7, 0, 0]

def twoSegmentKernel (second : Word) : Memory :=
  write (fun _ => 0) 0x10000 (List.flatMap wordBytes
    ([kMachMagic, 12, 9, kMachExecute, 2, 112, 0] ++ segmentWords 0x80001000 0x1000 0 16 ++
      segmentWords second 0x1000 16 16))

end GenericBooter
