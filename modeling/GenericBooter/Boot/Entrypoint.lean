import GenericBooter.Boot.Kernel

namespace GenericBooter

open ByteMemory

def MeetsThread (loadaddr : Word) (s : LoaderState) : Prop :=
  ∃ visit ∈ fileMapVisits loadaddr s, LoadCommand.cmd visit.2.2.memory visit.1 = kLoadCommandUnixThread

structure SameFile (s s' : LoaderState) : Prop where
  source : s.1.source = s'.1.source
  machine : s.2 = s'.2

section Rounds

variable (loadaddr vmBias : Word)

theorem fileMapBody_sameFile (lc : Word) {s s' : LoaderState} (same : SameFile s s') :
    SameFile (fileMapBody loadaddr vmBias lc s) (fileMapBody loadaddr vmBias lc s') := by
  constructor
  · rw [fileMapBody_context, fileMapBody_context]
    exact same.source
  · simp only [fileMapBody, same.source, same.machine]
    split
    · split
      · rfl
      · exact same.machine
    · split
      · rfl
      · exact same.machine

theorem fileMapBody_thread {lc : Word} {s s' : LoaderState} (same : SameFile s s')
    (agree : LoadCommand.cmd s.2.memory lc = kLoadCommandUnixThread ∨ s.1.entry = s'.1.entry) :
    (fileMapBody loadaddr vmBias lc s).1.entry = (fileMapBody loadaddr vmBias lc s').1.entry := by
  have other : kLoadCommandUnixThread ≠ kLoadCommandSegment := by decide
  rcases agree with thread | entry
  · simp only [fileMapBody, ← same.machine, thread, other, if_true, if_false]
  · simp only [fileMapBody, ← same.machine]
    split
    · split
      · exact entry
      · exact entry
    · split
      · rfl
      · exact entry

theorem fileMapBody_entry {lc : Word} {s : LoaderState}
    (other : LoadCommand.cmd s.2.memory lc ≠ kLoadCommandUnixThread) :
    (fileMapBody loadaddr vmBias lc s).1.entry = s.1.entry := by
  simp only [fileMapBody, other, if_false]
  split
  · split <;> rfl
  · rfl

theorem forEachLcFrom_agree (head : Word) (left i : Nat) (lc : Word) {s s' : LoaderState} (same : SameFile s s')
    (agree : s.1.entry = s'.1.entry ∨
      ∃ visit ∈ lcVisitsFrom (fun s => s.2.memory) (fileMapBody loadaddr vmBias) head left i lc s,
        LoadCommand.cmd visit.2.2.memory visit.1 = kLoadCommandUnixThread) :
    (forEachLcFrom (fun s => s.2.memory) (fileMapBody loadaddr vmBias) head left i lc s).1.entry =
      (forEachLcFrom (fun s => s.2.memory) (fileMapBody loadaddr vmBias) head left i lc s').1.entry := by
  induction left generalizing i lc s s' with
  | zero => exact agree.resolve_right (by simp [lcVisitsFrom])
  | succ left ih =>
    simp only [forEachLcFrom, lcVisitsFrom] at agree ⊢
    have later := fileMapBody_sameFile loadaddr vmBias lc same
    rw [← same.machine, ← later.machine]
    split
    · rename_i more
      apply ih _ _ later
      rw [if_pos more, List.exists_mem_cons_iff] at agree
      rcases agree with entry | thread | met
      · exact Or.inl (fileMapBody_thread loadaddr vmBias same (Or.inr entry))
      · exact Or.inl (fileMapBody_thread loadaddr vmBias same (Or.inl thread))
      · exact Or.inr met
    · rename_i done
      rw [if_neg done] at agree
      exact agree.resolve_right (by simp)

theorem forEachLcFrom_entry (head : Word) (left i : Nat) (lc : Word) {s s' : LoaderState} (same : SameFile s s')
    (none : ∀ visit ∈ lcVisitsFrom (fun s => s.2.memory) (fileMapBody loadaddr vmBias) head left i lc s,
      LoadCommand.cmd visit.2.2.memory visit.1 ≠ kLoadCommandUnixThread) :
    (forEachLcFrom (fun s => s.2.memory) (fileMapBody loadaddr vmBias) head left i lc s').1.entry = s'.1.entry := by
  induction left generalizing i lc s s' with
  | zero => rfl
  | succ left ih =>
    simp only [forEachLcFrom, lcVisitsFrom] at none ⊢
    have later := fileMapBody_sameFile loadaddr vmBias lc same
    rw [← same.machine, ← later.machine]
    split
    · rename_i more
      rw [if_pos more, List.forall_mem_cons] at none
      have other : LoadCommand.cmd s'.2.memory lc ≠ kLoadCommandUnixThread := same.machine ▸ none.1
      rw [ih _ _ later none.2, fileMapBody_entry loadaddr vmBias other]
    · rfl

end Rounds

theorem machoFileMap_agree (loadaddr : Word) {s s' : LoaderState} (same : SameFile s s')
    (bias : s.1.vmBias = s'.1.vmBias) (met : MeetsThread loadaddr s) :
    (machoFileMap loadaddr s).2.1.entry = (machoFileMap loadaddr s').2.1.entry := by
  simp only [machoFileMap, forEachLc, ← bias, ← same.source]
  exact forEachLcFrom_agree loadaddr _ _ _ _ _ same (Or.inr met)

theorem machoFileMap_leaves (loadaddr : Word) {s s' : LoaderState} (same : SameFile s s')
    (bias : s.1.vmBias = s'.1.vmBias) (none : ¬ MeetsThread loadaddr s) :
    (machoFileMap loadaddr s').2.1.entry = s'.1.entry := by
  simp only [machoFileMap, forEachLc, ← bias, ← same.source]
  exact forEachLcFrom_entry loadaddr _ _ _ _ _ same fun visit member thread => none ⟨visit, member, thread⟩

structure Accepted (p : Platform) (locals : KernelLocals) (image : Word) (payload : TagData) : Prop where
  found : KernelFound p locals image payload
  size : payload.size ≠ 0
  magic : MachHeader.magic p.machine.memory payload.data = kMachMagic
  executable : MachHeader.filetype p.machine.memory payload.data = kMachExecute
  vmsize : machoGetVmsize p.machine.memory (kernelContext locals payload) ≠ 0

theorem prepareKernel_accepted {p p' : Platform} {locals : KernelLocals} (ran : prepareKernel locals p = .ok p') :
    ∃ image payload, Accepted p locals image payload := by
  have kept := ran
  simp only [prepareKernel, bind_eq_ok] at ran
  obtain ⟨image, located, _, present, payload, tagged, _, nonnull, _, initialized, _⟩ := ran
  have source := require_eq_ok.mp nonnull
  have found : KernelFound p locals image payload := ⟨located, require_eq_ok.mp present, tagged, source.1⟩
  have header := require_eq_ok.mp initialized
  rw [machoInitialize, if_neg source.1] at header
  have magic : MachHeader.magic p.machine.memory payload.data = kMachMagic := by
    by_contra other
    rw [if_pos other] at header
    cases header
  have executable : MachHeader.filetype p.machine.memory payload.data = kMachExecute := by
    by_contra other
    rw [if_neg (not_not_intro magic), if_pos other] at header
    cases header
  refine ⟨image, payload, found, source.2, magic, executable, fun empty => ?_⟩
  rw [prepareKernel_eq found source.2 magic executable] at kept
  simp only [empty, if_true] at kept
  cases kept

theorem KernelFound.same {p : Platform} {locals : KernelLocals} {image image' : Word} {payload payload' : TagData}
    (found : KernelFound p locals image payload) (found' : KernelFound p locals image' payload') :
    payload = payload' := by
  obtain rfl := Except.ok.inj (found.located.symm.trans found'.located)
  exact Except.ok.inj (found.tagged.symm.trans found'.tagged)

def KernelLocals.withContext (locals : KernelLocals) (ctx : LoaderContext) : KernelLocals :=
  { locals with ctx := ctx }

def mappedEntry (p : Platform) (locals : KernelLocals) (payload : TagData) (ctx : LoaderContext) : Word :=
  vtophys (machoFileMap p.kernelRegion.pos (kernelContext (locals.withContext ctx) payload, p.machine)).2.1.entry
    KERNEL_VMADDR p.kernelRegion.base

theorem Accepted.ran {p : Platform} {locals : KernelLocals} {image : Word} {payload : TagData}
    (accepted : Accepted p locals image payload) (ctx : LoaderContext) :
    ∃ p', prepareKernel (locals.withContext ctx) p = .ok p' ∧
      p'.kernelEntrypoint = mappedEntry p locals payload ctx := by
  have found : KernelFound p (locals.withContext ctx) image payload :=
    ⟨accepted.found.located, accepted.found.present, accepted.found.tagged, accepted.found.nonnull⟩
  have vmsize : machoGetVmsize p.machine.memory (kernelContext (locals.withContext ctx) payload) ≠ 0 := accepted.vmsize
  rw [prepareKernel_eq found accepted.size accepted.magic accepted.executable]
  simp only [vmsize, if_false]
  exact ⟨_, rfl, rfl⟩

/-- The entry point is that of the image, whatever the stack held, exactly when the mapping meets an LC_UNIXTHREAD. -/
theorem entrypoint_determined_iff {p p' : Platform} {locals : KernelLocals} (ran : prepareKernel locals p = .ok p') :
    (∀ ctx, ∃ p'', prepareKernel (locals.withContext ctx) p = .ok p'' ∧
      p''.kernelEntrypoint = p'.kernelEntrypoint) ↔
    ∃ image payload, KernelFound p locals image payload ∧
      MeetsThread p.kernelRegion.pos (kernelContext locals payload, p.machine) := by
  obtain ⟨image, payload, accepted⟩ := prepareKernel_accepted ran
  have entry : p'.kernelEntrypoint = mappedEntry p locals payload locals.ctx := by
    obtain ⟨_, ran', entry⟩ := accepted.ran locals.ctx
    obtain rfl := Except.ok.inj (ran.symm.trans ran')
    exact entry
  have same (ctx : LoaderContext) : SameFile (kernelContext locals payload, p.machine)
      (kernelContext (locals.withContext ctx) payload, p.machine) := ⟨rfl, rfl⟩
  constructor
  · intro determined
    refine ⟨image, payload, accepted.found, ?_⟩
    by_contra none
    obtain ⟨p'', ran'', same'⟩ := determined { locals.ctx with entry := locals.ctx.entry + 1 }
    obtain ⟨_, ran', entry'⟩ := accepted.ran { locals.ctx with entry := locals.ctx.entry + 1 }
    obtain rfl := Except.ok.inj (ran''.symm.trans ran')
    have leaves (ctx : LoaderContext) :
        mappedEntry p locals payload ctx = vtophys ctx.entry KERNEL_VMADDR p.kernelRegion.base :=
      congrArg (vtophys · _ _) (machoFileMap_leaves _ (same ctx) rfl none)
    rw [entry, entry', leaves, leaves] at same'
    simp only [vtophys, add_left_inj, sub_left_inj, add_eq_left] at same'
    exact absurd same' (by decide)
  · rintro ⟨_, _, found, met⟩ ctx
    obtain rfl := accepted.found.same found
    obtain ⟨p'', ran', entry'⟩ := accepted.ran ctx
    refine ⟨p'', ran', ?_⟩
    rw [entry, entry', mappedEntry, mappedEntry]
    exact congrArg (vtophys · _ _) (machoFileMap_agree _ (same ctx) rfl met).symm

theorem samplePlatform_determined : ∃ p',
    prepareKernel ⟨0, 0, ⟨0, 0, 0x80001000, 0, 0⟩⟩ samplePlatform = .ok p' ∧ p'.kernelEntrypoint = 0x70001040 := by
  obtain ⟨p', ran, entry, _⟩ := samplePlatform_entry
  have met : MeetsThread 0x70001000 (kernelContext sampleLocals ⟨true, 0x10020, 184⟩, ⟨sampleRam, []⟩) := by
    unfold MeetsThread
    decide +kernel
  have determined := (entrypoint_determined_iff ran).mpr ⟨_, _, samplePlatform_found, met⟩ ⟨0, 0, 0x80001000, 0, 0⟩
  rwa [entry] at determined

def threadlessKernel : List Byte :=
  ([kMachMagic, 12, 9, kMachExecute, 1, 56, 0] ++ segmentWords 0x80001000 0x1000 0 84).flatMap wordBytes

def threadlessPlatform : Platform :=
  ⟨⟨write (fun _ => 0) 0x10000 (imageBytes kImage3TypeKernel threadlessKernel), []⟩, startRegion 0x70000000, [], 0,
    0x10000⟩

def okEntry (result : Except Stop Platform) : Option Word :=
  match result with
  | .ok p => some p.kernelEntrypoint
  | .error _ => none

theorem threadless_undetermined : ¬ ∀ p locals p', prepareKernel locals p = .ok p' →
    ∀ ctx, ∃ p'', prepareKernel (locals.withContext ctx) p = .ok p'' ∧
      p''.kernelEntrypoint = p'.kernelEntrypoint := by
  intro determined
  have cleared : okEntry (prepareKernel ⟨0, 0, ⟨0, 0, 0, 0, 0⟩⟩ threadlessPlatform) = some 0xf0000000 := by
    decide +kernel
  have filled : okEntry (prepareKernel ⟨0, 0, ⟨0, 0, 0x80001000, 0, 0⟩⟩ threadlessPlatform) = some 0x70001000 := by
    decide +kernel
  cases ran : prepareKernel ⟨0, 0, ⟨0, 0, 0, 0, 0⟩⟩ threadlessPlatform with
  | error stop => cases ran ▸ cleared
  | ok p' =>
    obtain ⟨p'', ran', same⟩ := determined _ _ p' ran ⟨0, 0, 0x80001000, 0, 0⟩
    rw [ran, okEntry] at cleared
    rw [KernelLocals.withContext] at ran'
    rw [ran', okEntry, same, cleared] at filled
    exact absurd (Option.some.inj filled) (by decide)

end GenericBooter
