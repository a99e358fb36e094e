import GenericBooter.Boot.Kernel
import GenericBooter.Loader.Reads

namespace GenericBooter

open ByteMemory

section Payload

variable {data size : Word}

/-- The `length` bytes at `address` lie in the payload, whose size they are compared with nowhere in the source. -/
def FieldWithin (data size address : Word) (length : Nat) : Prop := (address - data).toNat + length ≤ size.toNat

instance (address : Word) (length : Nat) : Decidable (FieldWithin data size address length) :=
  inferInstanceAs (Decidable (_ ≤ _))

theorem touches_within_iff {address : Word} {length : Nat} (nonempty : length ≠ 0) :
    (∀ a, Load.Touches ⟨address, length⟩ a → Covers data size.toNat a) ↔ FieldWithin data size address length := by
  have place : address = data + BitVec.ofNat 32 (address - data).toNat := by
    rw [BitVec.ofNat_toNat, BitVec.setWidth_eq, add_sub_cancel]
  have range := covers_inside_iff data (address - data).toNat length size.toNat (BitVec.isLt _) size.isLt
  rw [← place] at range
  exact range.trans (or_iff_right nonempty)

def VmsizeFieldsWithin (data size : Word) (m : Memory) (lc : Word) : Prop :=
  FieldWithin data size lc 8 ∧
    (LoadCommand.cmd m lc = kLoadCommandSegment → FieldWithin data size (lc + 28) 4)

def FileMapFieldsWithin (data size : Word) (m : Memory) (lc : Word) : Prop :=
  FieldWithin data size lc 8 ∧
    (LoadCommand.cmd m lc = kLoadCommandSegment →
      FieldWithin data size (lc + 24) 8 ∧ FieldWithin data size (lc + 36) 4 ∧
      (SegmentCommand.filesize m lc ≠ 0 → FieldWithin data size (lc + 32) 4 ∧
        (SegmentCommand.fileoff m lc).toNat + (SegmentCommand.filesize m lc).toNat ≤ size.toNat)) ∧
    (LoadCommand.cmd m lc = kLoadCommandUnixThread → FieldWithin data size (lc + 76) 4)

theorem word_within_iff {address : Word} :
    (∀ a, (loadWord address).Touches a → Covers data size.toNat a) ↔ FieldWithin data size address 4 :=
  touches_within_iff (by decide)

theorem two_words_within {address : Word} : FieldWithin data size address 4 ∧ FieldWithin data size (address + 4) 4 ↔
    FieldWithin data size address 8 := by
  have limit := size.isLt
  have next : address + 4 - data = address - data + 4 := by ring
  simp only [FieldWithin, next, BitVec.toNat_add]
  constructor
  · rintro ⟨first, second⟩
    have sum : ((address - data).toNat + 4) % 2 ^ 32 = (address - data).toNat + 4 := Nat.mod_eq_of_lt (by omega)
    have four : (4 : Word).toNat = 4 := rfl
    rw [four, sum] at second
    omega
  · intro both
    have sum : ((address - data).toNat + 4) % 2 ^ 32 = (address - data).toNat + 4 := Nat.mod_eq_of_lt (by omega)
    have four : (4 : Word).toNat = 4 := rfl
    rw [four, sum]
    omega

theorem vmsizeBody_within_iff (m : Memory) (lc : Word) :
    ReadsOnly (Covers data size.toNat) (vmsizeBodyLoads m lc ++ [loadWord (lc + 4)]) ↔
      VmsizeFieldsWithin data size m lc := by
  rw [readsOnly_append, VmsizeFieldsWithin, ← two_words_within]
  by_cases segment : LoadCommand.cmd m lc = kLoadCommandSegment
  · rw [vmsizeBodyLoads, if_pos segment]
    simp only [readsOnly_cons, readsOnly_nil, word_within_iff, segment, forall_const, and_true]
    exact and_right_comm
  · rw [vmsizeBodyLoads, if_neg segment]
    simp only [readsOnly_cons, readsOnly_nil, word_within_iff, segment, false_imp_iff, and_true]

theorem contents_within_iff {fileoff filesize : Word} (contents : filesize ≠ 0) :
    (∀ a, Load.Touches ⟨data + fileoff, filesize.toNat⟩ a → Covers data size.toNat a) ↔
      fileoff.toNat + filesize.toNat ≤ size.toNat := by
  have nonempty : filesize.toNat ≠ 0 := fun zero => contents (BitVec.eq_of_toNat_eq zero)
  rw [touches_within_iff nonempty, FieldWithin, add_sub_cancel_left]

theorem fileMapBody_within_iff {s : LoaderState} (source : s.1.source = data) (lc : Word) :
    ReadsOnly (Covers data size.toNat) (fileMapBodyLoads lc s ++ [loadWord (lc + 4)]) ↔
      FileMapFieldsWithin data size s.2.memory lc := by
  have pair : FieldWithin data size (lc + 24) 8 ↔
      FieldWithin data size (lc + 24) 4 ∧ FieldWithin data size (lc + 28) 4 := by
    rw [← two_words_within, show lc + 24 + 4 = lc + 28 by ring]
  rw [readsOnly_append, FileMapFieldsWithin, ← two_words_within, pair]
  by_cases segment : LoadCommand.cmd s.2.memory lc = kLoadCommandSegment
  · have noThread : LoadCommand.cmd s.2.memory lc ≠ kLoadCommandUnixThread := by
      rw [segment]
      decide
    by_cases empty : SegmentCommand.filesize s.2.memory lc = 0
    · rw [fileMapBodyLoads_empty segment empty]
      simp only [readsOnly_cons, readsOnly_nil, word_within_iff, noThread, eq_true segment, empty, ne_eq,
        not_true_eq_false, false_imp_iff, forall_const, and_true]
      constructor
      · rintro ⟨⟨command, vmsize, vmaddr, filesize⟩, cmdsize⟩
        exact ⟨⟨command, cmdsize⟩, ⟨vmaddr, vmsize⟩, filesize⟩
      · rintro ⟨⟨command, cmdsize⟩, ⟨vmaddr, vmsize⟩, filesize⟩
        exact ⟨⟨command, vmsize, vmaddr, filesize⟩, cmdsize⟩
    · rw [fileMapBodyLoads_segment segment empty]
      simp only [readsOnly_cons, readsOnly_nil, word_within_iff, source, contents_within_iff empty, noThread,
        eq_true segment, empty, ne_eq, not_false_eq_true, false_imp_iff, forall_const, and_true]
      constructor
      · rintro ⟨⟨command, vmsize, vmaddr, filesize, fileoff, contents⟩, cmdsize⟩
        exact ⟨⟨command, cmdsize⟩, ⟨vmaddr, vmsize⟩, filesize, fileoff, contents⟩
      · rintro ⟨⟨command, cmdsize⟩, ⟨vmaddr, vmsize⟩, filesize, fileoff, contents⟩
        exact ⟨⟨command, vmsize, vmaddr, filesize, fileoff, contents⟩, cmdsize⟩
  · by_cases thread : LoadCommand.cmd s.2.memory lc = kLoadCommandUnixThread
    · rw [fileMapBodyLoads_thread thread]
      simp only [readsOnly_cons, readsOnly_nil, word_within_iff, segment, eq_true thread, false_imp_iff, forall_const,
        and_true, true_and]
      exact and_right_comm
    · rw [fileMapBodyLoads_other segment thread]
      simp only [readsOnly_cons, readsOnly_nil, word_within_iff, segment, thread, false_imp_iff, and_true]

end Payload

/-- What the loader reads once `prepare_kernel` has the payload, each function only if the one before it accepted. -/
def kernelLoads (locals : KernelLocals) (p : Platform) (payload : TagData) : List Load :=
  let m := p.machine.memory
  if payload.data ≠ 0 ∧ payload.size ≠ 0 then
    machoInitializeLoads m payload.data ++
      if (machoInitialize m locals.ctx payload.data).1 = .kLoadSuccess then
        machoGetVmsizeLoads m (kernelContext locals payload) ++
          if machoGetVmsize m (kernelContext locals payload) ≠ 0 then
            machoFileMapLoads p.kernelRegion.pos (kernelContext locals payload, p.machine)
          else []
      else []
  else []

def PayloadHolds (locals : KernelLocals) (p : Platform) (payload : TagData) : Prop :=
  let m := p.machine.memory
  4 ≤ payload.size.toNat ∧
    (MachHeader.magic m payload.data = kMachMagic → 16 ≤ payload.size.toNat ∧
      (MachHeader.filetype m payload.data = kMachExecute → 20 ≤ payload.size.toNat ∧
        (∀ lc ∈ loadCommands m payload.data, VmsizeFieldsWithin payload.data payload.size m lc) ∧
        (machoGetVmsize m (kernelContext locals payload) ≠ 0 →
          ∀ visit ∈ fileMapVisits p.kernelRegion.pos (kernelContext locals payload, p.machine),
            FileMapFieldsWithin payload.data payload.size visit.2.2.memory visit.1)))

theorem lcVisitsFrom_still {σ : Type*} (m : Memory) (body : Word → σ → σ) (head : Word) (count left i : Nat) (lc : Word)
    (s : σ) (counter : i + count = (MachHeader.ncmds m head).toNat) (rounds : count < left) :
    (lcVisitsFrom (fun _ => m) body head left i lc s).map Prod.fst = loadCommandsFrom m count lc := by
  induction count generalizing left i lc s with
  | zero =>
    obtain ⟨left, rfl⟩ := Nat.exists_eq_succ_of_ne_zero (Nat.ne_of_gt rounds)
    rw [lcVisitsFrom, if_neg (by omega)]
    rfl
  | succ count ih =>
    obtain ⟨left, rfl⟩ := Nat.exists_eq_succ_of_ne_zero (Nat.ne_zero_of_lt rounds)
    rw [lcVisitsFrom, if_pos (by omega), List.map_cons, ih left (i + 1) _ _ (by omega) (by omega)]
    rfl

section Walks

variable {data size : Word}

theorem header_within_iff {field : Nat} (small : field + 4 < 2 ^ 32) :
    FieldWithin data size (data + BitVec.ofNat 32 field) 4 ↔ field + 4 ≤ size.toNat := by
  rw [FieldWithin, add_sub_toNat data field (by omega)]

theorem machoGetVmsize_within_iff (m : Memory) (ctx : LoaderContext) (source : ctx.source = data) :
    ReadsOnly (Covers data size.toNat) (machoGetVmsizeLoads m ctx) ↔
      20 ≤ size.toNat ∧ ∀ lc ∈ loadCommands m data, VmsizeFieldsWithin data size m lc := by
  have still := lcVisitsFrom_still m (vmsizeBody m) data _ (2 ^ 32) 0 (data + MachHeader.size) (0 : Word)
    (Nat.zero_add _) (BitVec.isLt _)
  rw [machoGetVmsizeLoads, readsOnly_forEachLc, source, loadCommands, ← still]
  apply and_congr
  · exact word_within_iff.trans (header_within_iff (by decide))
  · rw [List.forall_mem_map]
    exact forall₂_congr fun visit _ => vmsizeBody_within_iff m visit.1

theorem lcVisitsFrom_source (loadaddr vmBias head : Word) (left i : Nat) (lc : Word) (s : LoaderState) :
    ∀ visit ∈ lcVisitsFrom (fun s => s.2.memory) (fileMapBody loadaddr vmBias) head left i lc s,
      visit.2.1.source = s.1.source := by
  induction left generalizing i lc s with
  | zero => exact fun _ none => absurd none List.not_mem_nil
  | succ left ih =>
    rw [lcVisitsFrom]
    split
    · rw [List.forall_mem_cons]
      refine ⟨rfl, fun visit later => ?_⟩
      rw [ih _ _ _ visit later, fileMapBody_context]
    · exact fun _ none => absurd none List.not_mem_nil

theorem machoFileMap_within_iff (loadaddr : Word) (s : LoaderState) (source : s.1.source = data) :
    ReadsOnly (Covers data size.toNat) (machoFileMapLoads loadaddr s) ↔
      20 ≤ size.toNat ∧
        ∀ visit ∈ fileMapVisits loadaddr s, FileMapFieldsWithin data size visit.2.2.memory visit.1 := by
  rw [machoFileMapLoads, readsOnly_forEachLc, source]
  apply and_congr
  · exact word_within_iff.trans (header_within_iff (by decide))
  · rw [fileMapVisits, source]
    refine forall₂_congr fun visit member => ?_
    exact fileMapBody_within_iff ((lcVisitsFrom_source _ _ _ _ _ _ s visit member).trans source) visit.1

end Walks

theorem kernelLoads_within_iff {p : Platform} {locals : KernelLocals} {image : Word} {payload : TagData}
    (kernel : KernelFound p locals image payload) :
    ReadsOnly (Covers payload.data payload.size.toNat) (kernelLoads locals p payload) ↔
      (payload.size ≠ 0 → PayloadHolds locals p payload) := by
  have nonnull := kernel.nonnull
  have first : (∀ a, (loadWord payload.data).Touches a → Covers payload.data payload.size.toNat a) ↔
      4 ≤ payload.size.toNat := by
    rw [word_within_iff, FieldWithin, sub_self]
    exact Iff.of_eq (congrArg (· ≤ _) (Nat.zero_add 4))
  have third : (∀ a, (loadWord (payload.data + 12)).Touches a → Covers payload.data payload.size.toNat a) ↔
      16 ≤ payload.size.toNat := word_within_iff.trans (header_within_iff (by decide))
  have sized : ReadsOnly (Covers payload.data payload.size.toNat)
      (machoGetVmsizeLoads p.machine.memory (kernelContext locals payload)) ↔ 20 ≤ payload.size.toNat ∧
        ∀ lc ∈ loadCommands p.machine.memory payload.data,
          VmsizeFieldsWithin payload.data payload.size p.machine.memory lc := machoGetVmsize_within_iff _ _ rfl
  rw [kernelLoads, PayloadHolds]
  by_cases empty : payload.size = 0
  · simp only [empty, ne_eq, not_true_eq_false, and_false, if_false, false_imp_iff, readsOnly_nil]
  simp only [nonnull, empty, ne_eq, not_false_eq_true, and_self, if_true, forall_const, machoInitialize,
    machoInitializeLoads, if_false, readsOnly_append]
  by_cases magic : MachHeader.magic p.machine.memory payload.data = kMachMagic
  · by_cases executable : MachHeader.filetype p.machine.memory payload.data = kMachExecute
    · simp only [magic, executable, not_true_eq_false, if_false, if_true, readsOnly_cons, readsOnly_nil, first, third,
        readsOnly_append, sized, and_true, forall_const, and_assoc]
      refine and_congr_right fun _ => and_congr_right fun _ => and_congr_right fun header => and_congr_right fun _ => ?_
      by_cases none : machoGetVmsize p.machine.memory (kernelContext locals payload) = 0
      · simp only [none, not_true_eq_false, if_false, readsOnly_nil, false_imp_iff]
      · simp only [none, not_false_eq_true, if_true, forall_const]
        exact (machoFileMap_within_iff _ _ rfl).trans (and_iff_right header)
    · simp only [magic, executable, not_true_eq_false, not_false_eq_true, if_false, if_true, readsOnly_cons,
        readsOnly_nil, first, third, forall_const, false_imp_iff, and_true, reduceCtorEq]
  · simp only [magic, not_false_eq_true, if_false, if_true, readsOnly_cons, readsOnly_nil, first, false_imp_iff, and_true,
      reduceCtorEq]

section WellFormed

variable {m m' : Memory} {file lc size : Word}

theorem FieldWithin.of_command (field : Nat) {length : Nat} (nonempty : length ≠ 0)
    (inFile : ∀ i < commandBytes m lc, Covers file size.toNat (lc + BitVec.ofNat 32 i))
    (bound : field + length ≤ commandBytes m lc) : FieldWithin file size (lc + BitVec.ofNat 32 field) length := by
  apply (touches_within_iff nonempty).mp
  intro a touched
  obtain ⟨i, small, rfl⟩ := covers_exists touched
  have inside : i < length := small
  rw [add_ofNat]
  exact inFile (field + i) (by omega)

theorem fileMapFields_of_command (inFile : ∀ i < commandBytes m lc, Covers file size.toNat (lc + BitVec.ofNat 32 i))
    (contents : IsSegment m lc →
      (SegmentCommand.fileoff m lc).toNat + (SegmentCommand.filesize m lc).toNat ≤ size.toNat)
    (intact : ∀ address, Covers file size.toNat address → m' address = m address) :
    FileMapFieldsWithin file size m' lc := by
  have same : ∀ i < commandBytes m lc, m' (lc + BitVec.ofNat 32 i) = m (lc + BitVec.ofNat 32 i) :=
    fun i bound => intact _ (inFile i bound)
  have command := (cmd_congr (eight_le_commandBytes m lc) same).1
  rw [FileMapFieldsWithin, command]
  refine ⟨?_, fun segment => ?_, fun thread => ?_⟩
  · have whole : FieldWithin file size (lc + BitVec.ofNat 32 0) 8 :=
      .of_command 0 (by decide) inFile (eight_le_commandBytes m lc)
    rwa [BitVec.add_zero] at whole
  · have fields := segment_congr segment same
    have bytes : commandBytes m lc = 56 := if_pos segment
    rw [fields.filesize, fields.fileoff]
    refine ⟨.of_command 24 ?_ inFile ?_, .of_command 36 ?_ inFile ?_,
      fun _ => ⟨.of_command 32 ?_ inFile ?_, contents segment⟩⟩ <;> omega
  · have other : LoadCommand.cmd m lc ≠ kLoadCommandSegment := by
      rw [thread]
      decide
    have bytes : commandBytes m lc = 84 := by rw [commandBytes, if_neg other, if_pos thread]
    exact .of_command 76 (by decide) inFile (by omega)

theorem FileMapFieldsWithin.vmsize (fields : FileMapFieldsWithin file size m lc)
    (inFile : ∀ i < commandBytes m lc, Covers file size.toNat (lc + BitVec.ofNat 32 i)) :
    VmsizeFieldsWithin file size m lc := by
  refine ⟨fields.1, fun segment => ?_⟩
  have bytes : commandBytes m lc = 56 := if_pos segment
  exact .of_command 28 (by decide) inFile (by omega)

end WellFormed

theorem WellFormedMachO.payloadHolds {p : Platform} {physBase : Word} {payload : TagData} (locals : KernelLocals)
    (region : p.kernelRegion = startRegion physBase)
    (wellFormed : WellFormedMachO p.machine.memory payload.data payload.size.toNat)
    (apart : ∀ lc ∈ loadCommands p.machine.memory payload.data, IsSegment p.machine.memory lc →
      ∀ address, Covers (segmentPhys physBase p.machine.memory lc)
        (SegmentCommand.filesize p.machine.memory lc).toNat address →
          ¬ Covers payload.data payload.size.toNat address) : PayloadHolds locals p payload := by
  have header : 28 ≤ payload.size.toNat := wellFormed.header
  have room : payload.size.toNat ≤ 2 ^ 32 := Nat.le_of_lt payload.size.isLt
  have ready := wellFormed.mappable room apart
  have fields (lc : Word) (member : lc ∈ loadCommands p.machine.memory payload.data) {m' : Memory}
      (intact : ∀ address, Covers payload.data payload.size.toNat address → m' address = p.machine.memory address) :
      FileMapFieldsWithin payload.data payload.size m' lc :=
    fileMapFields_of_command (ready.inFile lc member) (wellFormed.contents lc member) intact
  refine ⟨by omega, fun _ => ⟨by omega, fun _ => ⟨by omega, ?_, fun _ => ?_⟩⟩⟩
  · exact fun lc member => (fields lc member fun _ _ => rfl).vmsize (ready.inFile lc member)
  · intro visit met
    rw [region] at met
    obtain ⟨member, intact⟩ := machoFileMap_visits (kernelContext locals payload, p.machine) header room ready rfl rfl
      visit met
    exact fields visit.1 member intact

/-- `kernelLoads` lists all that is read: with the same bytes there, and any others elsewhere, the three functions
    return the same and make the same stores. -/
theorem kernelLoads_complete {p p' : Platform} {locals : KernelLocals} {payload : TagData} {held : Word → Prop}
    (given : payload.data ≠ 0 ∧ payload.size ≠ 0) (region : p'.kernelRegion = p.kernelRegion)
    (agree : ∀ a, held a → p'.machine.memory a = p.machine.memory a)
    (reads : ReadsOnly held (kernelLoads locals p payload)) :
    machoInitialize p'.machine.memory locals.ctx payload.data = machoInitialize p.machine.memory locals.ctx payload.data ∧
    ((machoInitialize p.machine.memory locals.ctx payload.data).1 = .kLoadSuccess →
      machoGetVmsize p'.machine.memory (kernelContext locals payload) =
        machoGetVmsize p.machine.memory (kernelContext locals payload) ∧
      (machoGetVmsize p.machine.memory (kernelContext locals payload) ≠ 0 →
        SameReads held (kernelContext locals payload, p.machine) (kernelContext locals payload, p'.machine)
          (machoFileMap p.kernelRegion.pos (kernelContext locals payload, p.machine)).2
          (machoFileMap p'.kernelRegion.pos (kernelContext locals payload, p'.machine)).2)) := by
  rw [kernelLoads, if_pos given, readsOnly_append] at reads
  refine ⟨machoInitialize_reads locals.ctx agree reads.1, fun accepted => ?_⟩
  have later := reads.2
  rw [if_pos accepted, readsOnly_append] at later
  refine ⟨machoGetVmsize_reads _ agree later.1, fun sized => ?_⟩
  have mapped := later.2
  rw [if_pos sized] at mapped
  rw [region]
  exact machoFileMap_reads rfl agree mapped

def truncatedKernel : List Byte :=
  ([kMachMagic, 12, 9, kMachExecute, 1, 56, 0] ++ segmentWords 0x80001000 0x1000 0 0x1000).flatMap wordBytes

def truncatedPlatform : Platform :=
  ⟨⟨write (fun _ => 0) 0x10000 (imageBytes kImage3TypeKernel truncatedKernel), []⟩, startRegion 0x70000000, [], 0,
    0x10000⟩

end GenericBooter
