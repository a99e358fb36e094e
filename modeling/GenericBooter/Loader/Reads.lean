import GenericBooter.Loader.Mapping
import GenericBooter.Loader.Reservation

namespace GenericBooter

open ByteMemory

structure Load where
  base : Word
  length : Nat
deriving DecidableEq, Repr

def Load.Touches (load : Load) (address : Word) : Prop := Covers load.base load.length address

instance (load : Load) (address : Word) : Decidable (load.Touches address) :=
  inferInstanceAs (Decidable (Covers _ _ _))

def loadWord (address : Word) : Load := ⟨address, 4⟩

def machoInitializeLoads (m : Memory) (file : Word) : List Load :=
  if file = 0 then []
  else if MachHeader.magic m file ≠ kMachMagic then [loadWord file]
  else [loadWord file, loadWord (file + 12)]

def forEachLcLoads {σ : Type*} (memory : σ → Memory) (body : Word → σ → σ) (bodyLoads : Word → σ → List Load)
    (head : Word) (s : σ) : List Load :=
  loadWord (head + 16) :: (lcVisits memory body head s).flatMap fun visit =>
    bodyLoads visit.1 visit.2 ++ [loadWord (visit.1 + 4)]

def vmsizeBodyLoads (m : Memory) (lc : Word) : List Load :=
  loadWord lc :: if LoadCommand.cmd m lc = kLoadCommandSegment then [loadWord (lc + 28)] else []

def machoGetVmsizeLoads (m : Memory) (ctx : LoaderContext) : List Load :=
  forEachLcLoads (fun _ => m) (vmsizeBody m) (fun lc _ => vmsizeBodyLoads m lc) ctx.source 0

/-- `vmsize` is loaded here too, though the sum is not used. -/
def fileMapBodyLoads (lc : Word) (s : LoaderState) : List Load :=
  let m := s.2.memory
  loadWord lc ::
    if LoadCommand.cmd m lc = kLoadCommandSegment then
      [loadWord (lc + 28), loadWord (lc + 24), loadWord (lc + 36)] ++
        if SegmentCommand.filesize m lc ≠ 0 then
          [loadWord (lc + 32), ⟨s.1.source + SegmentCommand.fileoff m lc, (SegmentCommand.filesize m lc).toNat⟩]
        else []
    else if LoadCommand.cmd m lc = kLoadCommandUnixThread then [loadWord (lc + 76)]
    else []

def machoFileMapLoads (loadaddr : Word) (s : LoaderState) : List Load :=
  forEachLcLoads (fun s => s.2.memory) (fileMapBody loadaddr s.1.vmBias) fileMapBodyLoads s.1.source s

def ReadsOnly (held : Word → Prop) (loads : List Load) : Prop :=
  ∀ load ∈ loads, ∀ address, load.Touches address → held address

section Complete

variable {m m' : Memory} {held : Word → Prop}

theorem load32_held {address : Word} (agree : ∀ a, held a → m' a = m a)
    (reads : ∀ a, (loadWord address).Touches a → held a) : load32 m' address = load32 m address :=
  load32_congr fun i small => agree _ (reads _ ((covers_add _ _ i (by omega)).mpr small))

/-- Two walks whose states stay related make the same rounds: all they have in common are the bytes `held`. -/
theorem forEachLcFrom_held {σ σ' : Type*} {memory : σ → Memory} {memory' : σ' → Memory} {body : Word → σ → σ}
    {body' : Word → σ' → σ'} (bodyLoads : Word → σ → List Load) {related : σ → σ' → Prop} {head : Word}
    (agree : ∀ s s', related s s' → ∀ a, held a → memory' s' a = memory s a)
    (step : ∀ s s' lc, related s s' → ReadsOnly held (bodyLoads lc s) → related (body lc s) (body' lc s'))
    (header : ∀ a, (loadWord (head + 16)).Touches a → held a) (left i : Nat) (lc : Word) {s : σ} {s' : σ'}
    (same : related s s')
    (reads : ∀ visit ∈ lcVisitsFrom memory body head left i lc s,
      ReadsOnly held (bodyLoads visit.1 visit.2 ++ [loadWord (visit.1 + 4)])) :
    related (forEachLcFrom memory body head left i lc s) (forEachLcFrom memory' body' head left i lc s') := by
  induction left generalizing i lc s s' with
  | zero => exact same
  | succ left ih =>
    have count : MachHeader.ncmds (memory' s') head = MachHeader.ncmds (memory s) head :=
      load32_held (agree s s' same) header
    simp only [forEachLcFrom, lcVisitsFrom, count] at reads ⊢
    split
    · rename_i more
      rw [if_pos more, List.forall_mem_cons] at reads
      have later := step s s' lc same fun load member => reads.1 load (List.mem_append_left _ member)
      have size : LoadCommand.cmdsize (memory' (body' lc s')) lc = LoadCommand.cmdsize (memory (body lc s)) lc :=
        load32_held (agree _ _ later) (reads.1 _ (List.mem_append_right _ (List.mem_singleton_self _)))
      rw [size]
      exact ih _ _ later reads.2
    · exact same

theorem machoInitialize_reads (ctx : LoaderContext) {file : Word} (agree : ∀ a, held a → m' a = m a)
    (reads : ReadsOnly held (machoInitializeLoads m file)) :
    machoInitialize m' ctx file = machoInitialize m ctx file := by
  simp only [machoInitialize, machoInitializeLoads] at reads ⊢
  by_cases null : file = 0
  · simp only [null, if_true]
  simp only [null, if_false] at reads ⊢
  have magic : MachHeader.magic m' file = MachHeader.magic m file := by
    apply load32_held agree
    apply reads
    split <;> exact List.mem_cons_self
  rw [magic]
  split
  · rfl
  · rename_i fits
    rw [if_neg fits] at reads
    have filetype : MachHeader.filetype m' file = MachHeader.filetype m file :=
      load32_held agree (reads _ (by simp))
    rw [filetype]

theorem readsOnly_nil : ReadsOnly held [] := fun _ none => absurd none List.not_mem_nil

theorem readsOnly_cons (load : Load) (loads : List Load) :
    ReadsOnly held (load :: loads) ↔ (∀ a, load.Touches a → held a) ∧ ReadsOnly held loads := List.forall_mem_cons

theorem readsOnly_append (loads later : List Load) :
    ReadsOnly held (loads ++ later) ↔ ReadsOnly held loads ∧ ReadsOnly held later := by
  simp only [ReadsOnly, List.mem_append, or_imp, forall_and]

theorem readsOnly_forEachLc {σ : Type*} (memory : σ → Memory) (body : Word → σ → σ) (bodyLoads : Word → σ → List Load)
    (head : Word) (s : σ) : ReadsOnly held (forEachLcLoads memory body bodyLoads head s) ↔
      (∀ a, (loadWord (head + 16)).Touches a → held a) ∧
      ∀ visit ∈ lcVisits memory body head s, ReadsOnly held (bodyLoads visit.1 visit.2 ++ [loadWord (visit.1 + 4)]) := by
  rw [forEachLcLoads, readsOnly_cons, ReadsOnly, List.forall_mem_flatMap]
  rfl

theorem cmd_held {lc : Word} {later : List Load} (agree : ∀ a, held a → m' a = m a)
    (reads : ReadsOnly held (loadWord lc :: later)) : LoadCommand.cmd m' lc = LoadCommand.cmd m lc :=
  load32_held agree (reads _ List.mem_cons_self)

theorem machoGetVmsize_reads (ctx : LoaderContext) (agree : ∀ a, held a → m' a = m a)
    (reads : ReadsOnly held (machoGetVmsizeLoads m ctx)) : machoGetVmsize m' ctx = machoGetVmsize m ctx := by
  obtain ⟨header, rounds⟩ := (readsOnly_forEachLc _ _ _ _ _).mp reads
  apply Eq.symm
  apply forEachLcFrom_held (fun lc _ => vmsizeBodyLoads m lc) (fun _ _ _ => agree) ?_ header _ _ _ rfl rounds
  rintro total _ lc rfl loads
  have command := cmd_held agree loads
  simp only [vmsizeBody, command]
  split
  · rename_i segment
    have size : SegmentCommand.vmsize m' lc = SegmentCommand.vmsize m lc := by
      apply load32_held agree
      apply loads
      rw [vmsizeBodyLoads, if_pos segment]
      simp
    rw [size]
  · rfl

structure SameReads (held : Word → Prop) (s₀ s₀' s s' : LoaderState) : Prop where
  context : s'.1 = s.1
  agree : ∀ a, held a → s'.2.memory a = s.2.memory a
  stores : ∃ made, s.2.stores = made ++ s₀.2.stores ∧ s'.2.stores = made ++ s₀'.2.stores

theorem copy_agree {source target : Word} {length : Nat} (agree : ∀ a, held a → m' a = m a)
    (reads : ∀ a, Load.Touches ⟨source, length⟩ a → held a) :
    ∀ a, held a → copy m' source target length a = copy m source target length a := by
  intro a inside
  simp only [copy]
  split
  · rename_i covered
    apply agree
    apply reads
    rw [Load.Touches, Covers, add_sub_cancel_left]
    exact covered
  · exact agree a inside

section Body

variable {lc : Word} {s : LoaderState}

theorem fileMapBodyLoads_segment (segment : LoadCommand.cmd s.2.memory lc = kLoadCommandSegment)
    (contents : SegmentCommand.filesize s.2.memory lc ≠ 0) : fileMapBodyLoads lc s =
      [loadWord lc, loadWord (lc + 28), loadWord (lc + 24), loadWord (lc + 36), loadWord (lc + 32),
        ⟨s.1.source + SegmentCommand.fileoff s.2.memory lc, (SegmentCommand.filesize s.2.memory lc).toNat⟩] := by
  simp only [fileMapBodyLoads, if_pos segment, if_pos contents]
  rfl

theorem fileMapBodyLoads_empty (segment : LoadCommand.cmd s.2.memory lc = kLoadCommandSegment)
    (empty : SegmentCommand.filesize s.2.memory lc = 0) : fileMapBodyLoads lc s =
      [loadWord lc, loadWord (lc + 28), loadWord (lc + 24), loadWord (lc + 36)] := by
  simp only [fileMapBodyLoads, if_pos segment, if_neg (not_not_intro empty)]
  rfl

theorem fileMapBodyLoads_thread (thread : LoadCommand.cmd s.2.memory lc = kLoadCommandUnixThread) :
    fileMapBodyLoads lc s = [loadWord lc, loadWord (lc + 76)] := by
  have other : LoadCommand.cmd s.2.memory lc ≠ kLoadCommandSegment := by
    rw [thread]
    decide
  simp only [fileMapBodyLoads, if_neg other, if_pos thread]

theorem fileMapBodyLoads_other (segment : LoadCommand.cmd s.2.memory lc ≠ kLoadCommandSegment)
    (thread : LoadCommand.cmd s.2.memory lc ≠ kLoadCommandUnixThread) : fileMapBodyLoads lc s = [loadWord lc] := by
  simp only [fileMapBodyLoads, if_neg segment, if_neg thread]

end Body

theorem fileMapBody_reads {loadaddr vmBias : Word} {s₀ s₀' s s' : LoaderState} (lc : Word)
    (same : SameReads held s₀ s₀' s s') (reads : ReadsOnly held (fileMapBodyLoads lc s)) :
    SameReads held s₀ s₀' (fileMapBody loadaddr vmBias lc s) (fileMapBody loadaddr vmBias lc s') := by
  have command : LoadCommand.cmd s'.2.memory lc = LoadCommand.cmd s.2.memory lc := cmd_held same.agree reads
  by_cases segment : LoadCommand.cmd s.2.memory lc = kLoadCommandSegment
  · by_cases empty : SegmentCommand.filesize s.2.memory lc = 0
    · rw [fileMapBodyLoads_empty segment empty] at reads
      have filesize : SegmentCommand.filesize s'.2.memory lc = SegmentCommand.filesize s.2.memory lc :=
        load32_held same.agree (reads _ (by simp))
      simp only [fileMapBody, command, segment, filesize, empty, if_true, ne_eq, not_true_eq_false, if_false]
      exact same
    · rw [fileMapBodyLoads_segment segment empty] at reads
      have vmaddr : SegmentCommand.vmaddr s'.2.memory lc = SegmentCommand.vmaddr s.2.memory lc :=
        load32_held same.agree (reads _ (by simp))
      have filesize : SegmentCommand.filesize s'.2.memory lc = SegmentCommand.filesize s.2.memory lc :=
        load32_held same.agree (reads _ (by simp))
      have fileoff : SegmentCommand.fileoff s'.2.memory lc = SegmentCommand.fileoff s.2.memory lc :=
        load32_held same.agree (reads _ (by simp))
      simp only [fileMapBody, command, segment, filesize, empty, vmaddr, fileoff, same.context, if_true, ne_eq,
        not_false_eq_true]
      obtain ⟨made, before, before'⟩ := same.stores
      refine ⟨rfl, ?_, _ :: made, congrArg _ before, congrArg _ before'⟩
      exact copy_agree same.agree (reads _ (by simp))
  · by_cases thread : LoadCommand.cmd s.2.memory lc = kLoadCommandUnixThread
    · rw [fileMapBodyLoads_thread thread] at reads
      have pc : ThreadCommand.pc s'.2.memory lc = ThreadCommand.pc s.2.memory lc :=
        load32_held same.agree (reads _ (by simp))
      simp only [fileMapBody, command, if_neg segment, if_pos thread, pc, same.context]
      exact ⟨rfl, same.agree, same.stores⟩
    · simp only [fileMapBody, command, if_neg segment, if_neg thread]
      exact same

theorem machoFileMap_reads {loadaddr : Word} {s s' : LoaderState} (context : s'.1 = s.1)
    (agree : ∀ a, held a → s'.2.memory a = s.2.memory a) (reads : ReadsOnly held (machoFileMapLoads loadaddr s)) :
    SameReads held s s' (machoFileMap loadaddr s).2 (machoFileMap loadaddr s').2 := by
  obtain ⟨header, rounds⟩ := (readsOnly_forEachLc _ _ _ _ _).mp reads
  simp only [machoFileMap, forEachLc, context]
  apply forEachLcFrom_held fileMapBodyLoads (fun _ _ same => same.agree) (fun _ _ lc => fileMapBody_reads lc) header _ _ _ ?_ rounds
  exact ⟨context, agree, [], rfl, rfl⟩

end Complete

end GenericBooter
