import GenericBooter.Loader.MachO
import Mathlib.Data.List.Pairwise

namespace GenericBooter

open ByteMemory

def IsSegment (m : Memory) (lc : Word) : Prop := LoadCommand.cmd m lc = kLoadCommandSegment

def segmentTarget (loadaddr vmBias : Word) (m : Memory) (lc : Word) : Word :=
  loadaddr + (SegmentCommand.vmaddr m lc - vmBias)

def lastThreadPc (m : Memory) (commands : List Word) : Option Word :=
  ((commands.filter fun lc => LoadCommand.cmd m lc = kLoadCommandUnixThread).getLast?).map
    (ThreadCommand.pc m)

section

variable (m : Memory) (file : Word) (length : Nat) (loadaddr vmBias : Word)

structure Mappable (commands : List Word) : Prop where
  inFile : ∀ lc ∈ commands, ∀ i < commandBytes m lc, Covers file length (lc + BitVec.ofNat 32 i)
  contents : ∀ lc ∈ commands, IsSegment m lc →
    (SegmentCommand.fileoff m lc).toNat + (SegmentCommand.filesize m lc).toNat ≤ length
  offSource : ∀ lc ∈ commands, IsSegment m lc → ∀ address,
    Covers (segmentTarget loadaddr vmBias m lc) (SegmentCommand.filesize m lc).toNat address →
      ¬ Covers file length address
  apart : commands.Pairwise fun lc lc' => IsSegment m lc → IsSegment m lc' → ∀ address,
    Covers (segmentTarget loadaddr vmBias m lc) (SegmentCommand.filesize m lc).toNat address →
      ¬ Covers (segmentTarget loadaddr vmBias m lc') (SegmentCommand.filesize m lc').toNat address

/-- Every byte of every segment among `commands` has arrived, and nothing else has changed. -/
structure Mapped (commands : List Word) (s t : LoaderState) : Prop where
  arrived : ∀ lc ∈ commands, IsSegment m lc → ∀ i < (SegmentCommand.filesize m lc).toNat,
    t.2.memory (segmentTarget loadaddr vmBias m lc + BitVec.ofNat 32 i) =
      m (file + SegmentCommand.fileoff m lc + BitVec.ofNat 32 i)
  unchanged : ∀ address, (∀ lc ∈ commands, IsSegment m lc →
    ¬ Covers (segmentTarget loadaddr vmBias m lc) (SegmentCommand.filesize m lc).toNat address) →
      t.2.memory address = s.2.memory address
  entry : t.1.entry = (lastThreadPc m commands).getD s.1.entry

end

section

variable {m : Memory} {file : Word} {length : Nat} {loadaddr vmBias : Word}

theorem Mappable.tail {lc : Word} {later : List Word}
    (ready : Mappable m file length loadaddr vmBias (lc :: later)) :
    Mappable m file length loadaddr vmBias later where
  inFile lc' member := ready.inFile lc' (List.mem_cons_of_mem _ member)
  contents lc' member := ready.contents lc' (List.mem_cons_of_mem _ member)
  offSource lc' member := ready.offSource lc' (List.mem_cons_of_mem _ member)
  apart := (List.pairwise_cons.mp ready.apart).2

theorem lastThreadPc_cons_thread {lc : Word} (later : List Word)
    (thread : LoadCommand.cmd m lc = kLoadCommandUnixThread) (start : Word) :
    (lastThreadPc m (lc :: later)).getD start = (lastThreadPc m later).getD (ThreadCommand.pc m lc) := by
  simp only [lastThreadPc, List.filter_cons, thread, decide_true, if_true, List.getLast?_cons]
  cases (later.filter fun lc => LoadCommand.cmd m lc = kLoadCommandUnixThread).getLast? <;> rfl

theorem lastThreadPc_cons_other {lc : Word} (later : List Word)
    (other : LoadCommand.cmd m lc ≠ kLoadCommandUnixThread) :
    lastThreadPc m (lc :: later) = lastThreadPc m later := by
  simp only [lastThreadPc, List.filter_cons, other, decide_false, Bool.false_eq_true, if_false]

/-- One round maps one command: the file itself is still whole when it is read. -/
theorem fileMapBody_mapped {lc : Word} (s : LoaderState)
    (ready : Mappable m file length loadaddr vmBias [lc]) (room : length ≤ 2 ^ 32)
    (source : s.1.source = file) (intact : ∀ address, Covers file length address →
      s.2.memory address = m address) :
    Mapped m file loadaddr vmBias [lc] s (fileMapBody loadaddr vmBias lc s) := by
  have here : ∀ i < commandBytes m lc, s.2.memory (lc + BitVec.ofNat 32 i) = m (lc + BitVec.ofNat 32 i) :=
    fun i small => intact _ (ready.inFile lc (List.mem_singleton_self _) i small)
  have command := (cmd_congr (eight_le_commandBytes m lc) here).1
  by_cases segment : LoadCommand.cmd m lc = kLoadCommandSegment
  · have fields := segment_congr segment here
    have other : LoadCommand.cmd m lc ≠ kLoadCommandUnixThread := by
      rw [segment]
      decide
    have body : fileMapBody loadaddr vmBias lc s =
        (s.1, if SegmentCommand.filesize m lc ≠ 0 then
          s.2.bcopy (file + SegmentCommand.fileoff m lc) (segmentTarget loadaddr vmBias m lc)
            (SegmentCommand.filesize m lc) else s.2) := by
      simp only [fileMapBody, command, segment, if_true, fields.filesize, fields.fileoff,
        fields.vmaddr, source, segmentTarget]
      split <;> rfl
    have inside := ready.contents lc (List.mem_singleton_self _) segment
    rw [body]
    refine ⟨?_, ?_, ?_⟩
    · intro lc' member _ i bound
      rw [List.mem_singleton] at member
      subst member
      have nonempty : SegmentCommand.filesize m lc' ≠ 0 := by
        intro zero
        rw [zero] at bound
        exact absurd bound (Nat.not_lt_zero _)
      have small : i < 2 ^ 32 := by omega
      simp only [if_pos nonempty, Machine.bcopy, copy]
      rw [if_pos ((covers_add _ _ i small).mpr bound), add_sub_cancel_left]
      apply intact
      have place : file + SegmentCommand.fileoff m lc' + BitVec.ofNat 32 i =
          file + BitVec.ofNat 32 ((SegmentCommand.fileoff m lc').toNat + i) := by
        rw [BitVec.ofNat_add, BitVec.ofNat_toNat, BitVec.setWidth_eq, add_assoc]
      rw [place]
      exact (covers_add file length _ (by omega)).mpr (by omega)
    · intro address untouched
      have outside := untouched lc (List.mem_singleton_self _) segment
      simp only
      split
      · exact copy_outside _ _ _ _ _ outside
      · rfl
    · rw [lastThreadPc_cons_other [] other]
      rfl
  · have body : (fileMapBody loadaddr vmBias lc s).2 = s.2 := by
      simp only [fileMapBody, command, segment, if_false]
      split <;> rfl
    refine ⟨?_, fun address _ => by rw [body], ?_⟩
    · intro lc' member segment'
      rw [List.mem_singleton] at member
      subst member
      exact absurd segment' segment
    · by_cases thread : LoadCommand.cmd m lc = kLoadCommandUnixThread
      · rw [lastThreadPc_cons_thread [] thread, ← thread_congr thread here]
        simp only [fileMapBody, command, thread, if_true]
        rfl
      · rw [lastThreadPc_cons_other [] thread]
        simp only [fileMapBody, command, segment, thread, if_false]
        rfl

theorem fileMapBody_context (lc : Word) (s : LoaderState) :
    (fileMapBody loadaddr vmBias lc s).1.source = s.1.source := by
  simp only [fileMapBody]
  split_ifs <;> rfl

theorem Mapped.cons {lc : Word} {later : List Word} {s t u : LoaderState}
    (ready : Mappable m file length loadaddr vmBias (lc :: later))
    (first : Mapped m file loadaddr vmBias [lc] s t)
    (rest : Mapped m file loadaddr vmBias later t u) :
    Mapped m file loadaddr vmBias (lc :: later) s u := by
  have here : lc ∈ [lc] := List.mem_singleton_self lc
  refine ⟨?_, ?_, ?_⟩
  · intro lc' member segment i bound
    rcases List.mem_cons.mp member with rfl | member
    · rw [rest.unchanged, first.arrived lc' here segment i bound]
      intro other inLater segment'
      refine (List.pairwise_cons.mp ready.apart).1 other inLater segment segment' _ ?_
      exact (covers_add _ _ i (by omega)).mpr bound
    · exact rest.arrived lc' member segment i bound
  · intro address untouched
    rw [rest.unchanged address fun lc' member => untouched lc' (List.mem_cons_of_mem _ member)]
    apply first.unchanged
    intro lc' member
    rw [List.mem_singleton] at member
    subst member
    exact untouched lc' List.mem_cons_self
  · rw [rest.entry, first.entry]
    by_cases thread : LoadCommand.cmd m lc = kLoadCommandUnixThread
    · rw [lastThreadPc_cons_thread later thread, lastThreadPc_cons_thread [] thread]
      rfl
    · rw [lastThreadPc_cons_other later thread, lastThreadPc_cons_other [] thread]
      rfl

theorem Mappable.head {lc : Word} {later : List Word}
    (ready : Mappable m file length loadaddr vmBias (lc :: later)) :
    Mappable m file length loadaddr vmBias [lc] := by
  refine ⟨?_, ?_, ?_, List.pairwise_singleton _ _⟩ <;> intro lc' member <;>
    rw [List.mem_singleton] at member <;> subst member
  · exact ready.inFile lc' List.mem_cons_self
  · exact ready.contents lc' List.mem_cons_self
  · exact ready.offSource lc' List.mem_cons_self

theorem fileMapBody_stays {lc : Word} (s : LoaderState) (ready : Mappable m file length loadaddr vmBias [lc])
    (room : length ≤ 2 ^ 32) (source : s.1.source = file)
    (intact : ∀ address, Covers file length address → s.2.memory address = m address) :
    ∀ address, Covers file length address → (fileMapBody loadaddr vmBias lc s).2.memory address = m address := by
  intro address inside
  rw [(fileMapBody_mapped s ready room source intact).unchanged, intact address inside]
  intro lc' member segment covered
  exact ready.offSource lc' member segment address covered inside

theorem forEachLcFrom_mapped (count left i : Nat) (lc : Word) (s : LoaderState)
    (counter : i + count = (MachHeader.ncmds m file).toNat) (rounds : count < left)
    (header : 28 ≤ length) (room : length ≤ 2 ^ 32)
    (ready : Mappable m file length loadaddr vmBias (loadCommandsFrom m count lc))
    (source : s.1.source = file)
    (intact : ∀ address, Covers file length address → s.2.memory address = m address) :
    Mapped m file loadaddr vmBias (loadCommandsFrom m count lc) s
        (forEachLcFrom (fun s => s.2.memory) (fileMapBody loadaddr vmBias) file left i lc s) ∧
      ∀ visit ∈ lcVisitsFrom (fun s => s.2.memory) (fileMapBody loadaddr vmBias) file left i lc s,
        visit.1 ∈ loadCommandsFrom m count lc ∧
          ∀ address, Covers file length address → visit.2.2.memory address = m address := by
  induction count generalizing left i lc s with
  | zero =>
    obtain ⟨left, rfl⟩ := Nat.exists_eq_succ_of_ne_zero (Nat.ne_of_gt rounds)
    have total : MachHeader.ncmds s.2.memory file = MachHeader.ncmds m file :=
      field_congr 16 (fun i small => intact _ ((covers_add _ _ i (by omega)).mpr small)) (by omega)
    simp only [forEachLcFrom, lcVisitsFrom, total]
    rw [if_neg (by omega), if_neg (by omega)]
    exact ⟨⟨fun _ member => absurd member List.not_mem_nil, fun _ _ => rfl, rfl⟩,
      fun _ member => absurd member List.not_mem_nil⟩
  | succ count ih =>
    obtain ⟨left, rfl⟩ := Nat.exists_eq_succ_of_ne_zero (Nat.ne_zero_of_lt rounds)
    have total : MachHeader.ncmds s.2.memory file = MachHeader.ncmds m file :=
      field_congr 16 (fun i small => intact _ ((covers_add _ _ i (by omega)).mpr small)) (by omega)
    simp only [loadCommandsFrom] at ready ⊢
    have first := fileMapBody_mapped s ready.head room source intact
    have stays := fileMapBody_stays s ready.head room source intact
    have next : LoadCommand.cmdsize (fileMapBody loadaddr vmBias lc s).2.memory lc =
        LoadCommand.cmdsize m lc :=
      (cmd_congr (eight_le_commandBytes m lc) fun i small =>
        stays _ (ready.inFile lc List.mem_cons_self i small)).2
    simp only [forEachLcFrom, lcVisitsFrom, total]
    rw [if_pos (by omega), if_pos (by omega), next]
    have source' : (fileMapBody loadaddr vmBias lc s).1.source = file := by rw [fileMapBody_context, source]
    obtain ⟨mapped, visits⟩ := ih left (i + 1) _ _ (by omega) (by omega) ready.tail source' stays
    refine ⟨first.cons ready mapped, List.forall_mem_cons.mpr ⟨⟨List.mem_cons_self, intact⟩, ?_⟩⟩
    exact fun visit member => ⟨List.mem_cons_of_mem _ (visits visit member).1, (visits visit member).2⟩

theorem machoFileMap_mapped (s : LoaderState) (header : 28 ≤ length) (room : length ≤ 2 ^ 32)
    (ready : Mappable m file length loadaddr s.1.vmBias (loadCommands m file))
    (source : s.1.source = file) (intact : s.2.memory = m) :
    Mapped m file loadaddr s.1.vmBias (loadCommands m file) s (machoFileMap loadaddr s).2 := by
  rw [machoFileMap, source]
  exact (forEachLcFrom_mapped _ _ 0 _ s (Nat.zero_add _) (BitVec.isLt _) header room ready source
    fun address _ => by rw [intact]).1

theorem machoFileMap_visits (s : LoaderState) (header : 28 ≤ length) (room : length ≤ 2 ^ 32)
    (ready : Mappable m file length loadaddr s.1.vmBias (loadCommands m file))
    (source : s.1.source = file) (intact : s.2.memory = m) :
    ∀ visit ∈ lcVisits (fun s => s.2.memory) (fileMapBody loadaddr s.1.vmBias) s.1.source s,
      visit.1 ∈ loadCommands m file ∧ ∀ address, Covers file length address → visit.2.2.memory address = m address := by
  rw [lcVisits, source]
  exact (forEachLcFrom_mapped _ _ 0 _ s (Nat.zero_add _) (BitVec.isLt _) header room ready source
    fun address _ => by rw [intact]).2

end

end GenericBooter
