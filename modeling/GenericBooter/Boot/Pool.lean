import GenericBooter.Boot.Main

namespace GenericBooter

open ByteMemory Linked

section Pool

variable (start size : Word)

def BelowPool (position : Nat) : Prop := position + kMallocSize.toNat ≤ start.toNat + size.toNat

instance (position : Nat) : Decidable (BelowPool start size position) := inferInstanceAs (Decidable (_ ≤ _))

structure Undisturbed (p : Platform) : Prop where
  stores : ∀ store ∈ p.machine.stores, ∀ address, store.Touches address → ¬ InPool start size address
  ranges : ∀ range ∈ p.handedOut, ∀ address, Covers range.1 range.2.toNat address → Covers start size.toNat address

structure Growing (p : Platform) : Prop extends Undisturbed start size p where
  above : start.toNat + 0x1000 ≤ p.kernelRegion.pos.toNat
  below : BelowPool start size p.kernelRegion.pos.toNat

def SegmentAvoids (loadaddr : Word) (visit : Word × LoaderState) : Prop :=
  LoadCommand.cmd visit.2.2.memory visit.1 = kLoadCommandSegment → ∀ address,
    Covers (segmentTarget loadaddr KERNEL_VMADDR visit.2.2.memory visit.1)
      (SegmentCommand.filesize visit.2.2.memory visit.1).toNat address → ¬ InPool start size address

/-- What the stage that comes next must find: a kernel that is not mapped onto the pool, and sizes that keep the
    running position below it. -/
def BootState.Fits (locals : DarwinLocals) : BootState → Prop
  | .cleared b => ∀ image payload, KernelFound b.platform locals.kernel image payload →
    BelowPool start size (b.platform.kernelRegion.pos.toNat +
        (machoGetVmsize b.platform.machine.memory (kernelContext locals.kernel payload)).toNat) ∧
      ∀ visit ∈ fileMapVisits b.platform.kernelRegion.pos (kernelContext locals.kernel payload, b.platform.machine),
        SegmentAvoids start size b.platform.kernelRegion.pos visit
  | .described _ b => ∀ image payload, RamdiskFound b image payload →
    BelowPool start size (roundUp b.platform.kernelRegion.pos.toNat 4096 + payload.size.toNat)
  | .copied b => ∃ tree, Represents b.dt tree ∧ NamesFit (flatTree tree) ∧
    BelowPool start size (b.platform.kernelRegion.pos.toNat + flattenedLength (flatTree tree))
  | .flattened b =>
    BelowPool start size (roundUp b.platform.kernelRegion.pos.toNat 1024 + BootArgs.size.toNat)
  | _ => True

end Pool

section Ranges

variable {start size : Word} {low length : Nat} {address : Word}

theorem covered_in_ram (ram : start.toNat + size.toNat ≤ 2 ^ 32) (above : start.toNat ≤ low)
    (below : low + length ≤ start.toNat + size.toNat) (covered : Covers (BitVec.ofNat 32 low) length address) :
    Covers start size.toNat address := by
  obtain ⟨i, bound, rfl⟩ := covers_exists covered
  have place : BitVec.ofNat 32 low = start + BitVec.ofNat 32 (low - start.toNat) := by
    rw [← Nat.add_sub_cancel' above, BitVec.ofNat_add, BitVec.ofNat_toNat, BitVec.setWidth_eq, Nat.add_sub_cancel_left]
  rw [place, add_ofNat, covers_add _ _ _ (by omega)]
  omega

theorem pool_place (below : BelowPool start size low) :
    start + size - kMallocSize = BitVec.ofNat 32 (start.toNat + size.toNat - kMallocSize.toNat) := by
  have sum : start + size = BitVec.ofNat 32 (start.toNat + size.toNat) := by
    rw [BitVec.ofNat_add, BitVec.ofNat_toNat, BitVec.ofNat_toNat, BitVec.setWidth_eq, BitVec.setWidth_eq]
  unfold BelowPool at below
  rw [sum]
  exact BitVec.ofNat_sub_ofNat_of_le _ kMallocSize.toNat (by decide) (by omega)

theorem covered_not_in_pool (ram : start.toNat + size.toNat ≤ 2 ^ 32)
    (below : BelowPool start size (low + length)) (covered : Covers (BitVec.ofNat 32 low) length address) :
    ¬ InPool start size address := by
  unfold InPool
  rw [pool_place below]
  unfold BelowPool at below
  exact covers_apart (by omega) (by omega) covered

theorem Growing.reserve {p p' : Platform} {position : Nat} {taken : Word} {made : List Store}
    (growing : Growing start size p) (ram : start.toNat + size.toNat ≤ 2 ^ 32)
    (above : p.kernelRegion.pos.toNat ≤ position) (below : BelowPool start size (position + taken.toNat))
    (pos : p'.kernelRegion.pos = BitVec.ofNat 32 (position + taken.toNat))
    (handed : p'.handedOut = (BitVec.ofNat 32 position, taken) :: p.handedOut)
    (stores : p'.machine.stores = made ++ p.machine.stores)
    (inside : ∀ store ∈ made, ∀ address, store.Touches address → Covers (BitVec.ofNat 32 position) taken.toNat address) :
    Growing start size p' := by
  have bound := below
  unfold BelowPool at bound
  have room : position + taken.toNat < 2 ^ 32 := by
    have positive : 0 < kMallocSize.toNat := by decide
    omega
  have place : p'.kernelRegion.pos.toNat = position + taken.toNat := by
    rw [pos, BitVec.toNat_ofNat, Nat.mod_eq_of_lt room]
  have lowest := growing.above
  refine ⟨⟨?_, ?_⟩, by omega, by rwa [place]⟩
  · intro store member address touched
    rw [stores] at member
    rcases List.mem_append.mp member with new | old
    · exact covered_not_in_pool ram below (inside store new address touched)
    · exact growing.stores store old address touched
  · intro range member address covered
    rw [handed] at member
    rcases List.mem_cons.mp member with rfl | old
    · change Covers (BitVec.ofNat 32 position) taken.toNat address at covered
      apply covered_in_ram ram _ _ covered
      · omega
      · omega
    · exact growing.ranges range old address covered

theorem Growing.reserves {p : Platform} {machine : Machine} {made : List Store} (request : Request)
    (growing : Growing start size p) (ram : start.toNat + size.toNat ≤ 2 ^ 32) (aligns : request.Aligns)
    (below : BelowPool start size (roundUp p.kernelRegion.pos.toNat request.align.toNat + request.size.toNat))
    (stores : machine.stores = made ++ p.machine.stores) (inside : ∀ store ∈ made, ∀ address, store.Touches address →
      Covers (p.reserve request.size request.align).1 request.size.toNat address) :
    Growing start size { (p.reserve request.size request.align).2 with machine := machine } := by
  have at' := p.kernelRegion.pos_eq
  have reserved := p.reserve_at request aligns at'
  rw [reserved] at inside ⊢
  exact growing.reserve ram (roundUp_le _ _) below rfl rfl stores inside

end Ranges

section Stages

variable {locals : DarwinLocals} {start size : Word}

theorem map_growing {b : Booter} {p : Platform} (ram : start.toNat + size.toNat ≤ 2 ^ 32)
    (growing : Growing start size b.platform) (fits : (BootState.cleared b).Fits start size locals)
    (ran : prepareKernel locals.kernel b.platform = .ok p) : Growing start size p := by
  obtain ⟨image, payload, found, result⟩ := prepareKernel_ok ran
  obtain ⟨below, avoids⟩ := fits image payload found
  have reserved := growing.reserves ⟨machoGetVmsize b.platform.machine.memory (kernelContext locals.kernel payload), 0⟩
    ram (Or.inl rfl) below (List.nil_append _).symm fun _ none => absurd none List.not_mem_nil
  rw [result]
  refine ⟨⟨?_, reserved.ranges⟩, reserved.above, reserved.below⟩
  intro store member address touched
  rcases (forEachLcFrom_stores _ _ _ _ _ _ _ store).mp member with old | ⟨visit, met, made⟩
  · exact growing.stores store old address touched
  · unfold segmentStore at made
    split at made
    · rename_i segment
      rw [List.mem_singleton.mp made] at touched
      exact avoids visit met segment.1 address touched
    · exact absurd made List.not_mem_nil

theorem copy_growing {b b' : Booter} {memoryMap : Nat} (ram : start.toNat + size.toNat ≤ 2 ^ 32)
    (growing : Growing start size b.platform) (fits : (BootState.described memoryMap b).Fits start size locals)
    (ran : b.enterRamdisk memoryMap = .ok b') : Growing start size b'.platform := by
  have at' := b.platform.kernelRegion.pos_eq
  rcases enterRamdisk_found ran with ⟨same, _⟩ | ⟨image, payload, found⟩
  · exact same ▸ growing
  · obtain ⟨_, _, platform⟩ := enterRamdisk_ok found at' ran
    rw [platform]
    apply growing.reserves ⟨payload.size, 4096⟩ ram (Or.inr ⟨12, by decide, rfl⟩) (fits image payload found)
      (Machine.bcopy_steps _ _ _ _).1
    intro store member address touched
    rw [List.mem_singleton.mp member] at touched
    rw [b.platform.reserve_at ⟨payload.size, 4096⟩ (Or.inr ⟨12, by decide, rfl⟩) at']
    exact touched

theorem flatten_growing {b b' : Booter} (ram : start.toNat + size.toNat ≤ 2 ^ 32)
    (growing : Growing start size b.platform) (fits : (BootState.copied b).Fits start size locals)
    (ran : b.flattenDevicetree = .ok b') : Growing start size b'.platform := by
  obtain ⟨tree, shown, names, below⟩ := fits
  have bound := below
  unfold BelowPool at bound
  have positive : 0 < kMallocSize.toNat := by decide
  have lowest := growing.above
  have at' := b.platform.kernelRegion.pos_eq
  have given : BitVec.ofNat 32 b.platform.kernelRegion.pos.toNat ≠ 0 := position_ne_zero (by omega) (by omega)
  rw [← flattenDevicetree_keeps at' given ran] at shown
  have flat := flattenDevicetree_ok at' given shown names (by omega) ran
  obtain ⟨made, steps, inside⟩ := flat.stores
  have total : (BitVec.ofNat 32 (flattenedLength (flatTree tree)) : Word).toNat = flattenedLength (flatTree tree) := by
    rw [BitVec.toNat_ofNat, Nat.mod_eq_of_lt (by omega)]
  rw [← total] at below inside
  have pos := flat.pos
  rw [← total] at pos
  exact growing.reserve ram (Nat.le_refl _) below pos flat.handedOut steps.1 inside

theorem finish_growing {b b' : Booter} {args : Word} (ram : start.toNat + size.toNat ≤ 2 ^ 32)
    (growing : Growing start size b.platform) (fits : (BootState.flattened b).Fits start size locals)
    (ran : b.prepareFinalizedBootArgs = (args, b')) : Growing start size b'.platform := by
  obtain ⟨_, rfl⟩ := Prod.mk.inj ran
  apply growing.reserves ⟨BootArgs.size, 1024⟩ ram (Or.inr ⟨10, by decide, rfl⟩) fits (Machine.storeBytes_steps _ _ _).1
  intro store member address touched
  rw [List.mem_singleton.mp member] at touched
  rw [← BootArgs.bytes_length]
  exact touched

theorem BootStep.growing {s s' : BootState} (ram : start.toNat + size.toNat ≤ 2 ^ 32) (step : BootStep locals s s')
    (fits : s.Fits start size locals) (growing : Growing start size s.booter.platform) :
    Growing start size s'.booter.platform := by
  cases step with
  | map ran => exact map_growing ram growing fits ran
  | load ran =>
    obtain ⟨_, memory, platform⟩ := prepareDevicetree_keeps ran
    rw [BootState.booter, platform]
    exact ⟨⟨growing.stores, growing.ranges⟩, growing.above, growing.below⟩
  | describe ran =>
    obtain ⟨dt, rfl⟩ := describeMachine_keeps ran
    exact growing
  | copy ran => exact copy_growing ram growing fits ran
  | flatten ran => exact flatten_growing ram growing fits ran
  | finish ran => exact finish_growing ram growing fits ran

theorem startState_growing {b : Booter} (ram : start.toNat + size.toNat ≤ 2 ^ 32)
    (room : kClearedLength.toNat + kMallocSize.toNat ≤ size.toNat) (base : b.bootArgs.physBase = start) :
    Growing start size (startState b).booter.platform := by
  subst base
  have cleared : kClearedLength.toNat = 0x8000000 := rfl
  have pool : kMallocSize.toNat = 0x1800000 := rfl
  have place : BitVec.ofNat 32 b.bootArgs.physBase.toNat = b.bootArgs.physBase := by
    rw [BitVec.ofNat_toNat, BitVec.setWidth_eq]
  have pos : (b.bootArgs.physBase + 0x1000).toNat = b.bootArgs.physBase.toNat + 0x1000 := by
    rw [BitVec.toNat_add]
    exact Nat.mod_eq_of_lt (by change b.bootArgs.physBase.toNat + 0x1000 < 2 ^ 32; omega)
  have below : BelowPool b.bootArgs.physBase size (b.bootArgs.physBase.toNat + kClearedLength.toNat) := by
    unfold BelowPool
    omega
  refine ⟨⟨?_, fun _ none => absurd none List.not_mem_nil⟩, ?_, ?_⟩
  · intro store member address touched
    rw [List.mem_singleton.mp member] at touched
    apply covered_not_in_pool ram below
    rw [place]
    exact touched
  · change _ ≤ (b.bootArgs.physBase + 0x1000).toNat
    omega
  · change (b.bootArgs.physBase + 0x1000).toNat + _ ≤ _
    omega

end Stages

/-- In every run whose stages all fit below the pool nothing is stored to the pool, and the pool and every range
    that is handed out lie in RAM. -/
theorem boot_spares_pool {locals : DarwinLocals} {start size : Word} {core core' : CoreStart} {s : BootState}
    (first : core.isFirstRegion = false) (populated : populateMemoryInfo start size core = .ok core')
    (ram : start.toNat + size.toNat ≤ 2 ^ 32) (room : kClearedLength.toNat + kMallocSize.toNat ≤ size.toNat)
    (run : Relation.ReflTransGen (fun s s' => BootStep locals s s' ∧ s.Fits start size locals)
      (startState core'.booter) s) :
    (∀ store ∈ s.booter.platform.machine.stores, ∀ address, store.Touches address →
      ¬ Covers core'.pool.1 core'.pool.2.toNat address) ∧
    (∀ address, Covers core'.pool.1 core'.pool.2.toNat address → Covers start size.toNat address) ∧
    ∀ range ∈ s.booter.platform.handedOut, ∀ address, Covers range.1 range.2.toNat address →
      Covers start size.toNat address := by
  obtain ⟨heap, _, rfl⟩ := populateMemoryInfo_first first populated
  have growing : Growing start size s.booter.platform := by
    induction run with
    | refl => exact startState_growing ram room rfl
    | tail _ step ih => exact step.1.growing ram step.2 ih
  refine ⟨growing.stores, ?_, growing.ranges⟩
  intro address covered
  have pool : kMallocSize.toNat ≤ size.toNat := by omega
  have below : BelowPool start size start.toNat := by
    unfold BelowPool
    omega
  rw [pool_place below] at covered
  change Covers (BitVec.ofNat 32 (start.toNat + size.toNat - kMallocSize.toNat)) kMallocSize.toNat address at covered
  apply covered_in_ram ram _ _ covered
  · omega
  · omega

def sampleCore : CoreStart := ⟨(sampleBooter roomy).withMemory bootImages, false, false, (0, 0), 0⟩

theorem sampleCore_populated : ∃ core, populateMemoryInfo 0x70000000 0x10000000 sampleCore = .ok core ∧
    core.booter = sampleBooter roomy ∧ core.pool = (0x7e800000, 0x1800000) := by
  have first : sampleCore.isFirstRegion = false := rfl
  have accepted : PoolAccepted 0x70000000 0x10000000 := by decide
  obtain ⟨core, populated⟩ := populateMemoryInfo_accepts first accepted
  obtain ⟨heap, inited, rfl⟩ := populateMemoryInfo_first first populated
  have pool : (0x70000000 + 0x10000000 - kMallocSize : Word) = 0x7e800000 := by decide
  rw [pool] at inited
  have memory : pooled bootImages = heap.memory := by
    rw [pooled]
    exact inited ▸ rfl
  refine ⟨_, populated, ?_, Prod.ext pool rfl⟩
  rw [sampleBooter, memory]
  rfl

theorem sampleBooter_kernel_fits :
    (startState (sampleBooter roomy)).Fits 0x70000000 0x10000000 darwinLocals := by
  intro image payload found
  have located : getImage3 (startState (sampleBooter roomy)).booter.platform.machine.memory
      (startState (sampleBooter roomy)).booter.platform.imagesEnd kImage3TypeKernel = .ok 0x10000 := by decide +kernel
  obtain rfl := Except.ok.inj (located.symm.trans found.located)
  have tagged : image3GetTagData (startState (sampleBooter roomy)).booter.platform.machine.memory 0x10000 kImage3TagData
      0 0 = .ok ⟨true, 0x10020, 184⟩ := by decide +kernel
  obtain rfl := Except.ok.inj (tagged.symm.trans found.tagged)
  refine ⟨by decide +kernel, ?_⟩
  have segments : ∀ visit ∈ fileMapVisits (startState (sampleBooter roomy)).booter.platform.kernelRegion.pos
      (kernelContext darwinLocals.kernel ⟨true, 0x10020, 184⟩, (startState (sampleBooter roomy)).booter.platform.machine),
      LoadCommand.cmd visit.2.2.memory visit.1 = kLoadCommandSegment →
        segmentTarget 0x70001000 KERNEL_VMADDR visit.2.2.memory visit.1 = 0x70001000 ∧
          SegmentCommand.filesize visit.2.2.memory visit.1 = 184 := by decide +kernel
  intro visit met segment address covered
  obtain ⟨target, filesize⟩ := segments visit met segment
  change Covers (segmentTarget 0x70001000 KERNEL_VMADDR visit.2.2.memory visit.1) _ address at covered
  rw [target, filesize] at covered
  have below : BelowPool 0x70000000 0x10000000 (0x70001000 + 184) := by decide
  exact covered_not_in_pool (by decide) below covered

theorem sampleBooter_run : ∃ args b', startDarwin darwinLocals (sampleBooter roomy) = .ok (args, b') ∧
    Relation.ReflTransGen (fun s s' => BootStep darwinLocals s s' ∧ s.Fits 0x70000000 0x10000000 darwinLocals)
      (startState (sampleBooter roomy)) (.finished args b') := by
  obtain ⟨loaded, before, images, shown, same, good⟩ := sampleBooter_loads
  obtain ⟨ramdisk, handed, pos, args, b', reached⟩ := sampleBooter_ramdisk images
  obtain ⟨flattened, staged, final⟩ := startDarwin_stages images reached
  simp only [Booter.prepareDevicetreeStage2, bind_eq_ok] at staged
  obtain ⟨⟨memoryMap, described⟩, describe, entered, enter, flatten⟩ := staged
  have into := ramdisk_entered pos ramdisk describe enter
  obtain ⟨dt, rfl⟩ := describeMachine_keeps describe
  simp only [loadImages, bind_eq_ok] at images
  obtain ⟨platform, kernel, ⟨whole, b₁⟩, devicetree, _, yes, result⟩ := images
  obtain rfl := Except.ok.inj result
  obtain rfl := require_eq_ok.mp yes
  have copies : (BootState.described memoryMap { b₁ with dt := dt }).Fits 0x70000000 0x10000000 darwinLocals := by
    intro image payload found
    obtain rfl := Except.ok.inj (ramdisk.located.symm.trans found.located)
    obtain rfl := Except.ok.inj (ramdisk.tagged.symm.trans found.tagged)
    change BelowPool _ _ (roundUp b₁.platform.kernelRegion.pos.toNat 4096 + _)
    rw [pos]
    decide
  have nonempty : before ≠ .nil := by
    rintro rfl
    cases same
  obtain ⟨tree, held, contents⟩ := into.tree before shown nonempty good
  have flat := flatTree_contents tree
  rw [contents, same] at flat
  have names : NamesFit (flatTree tree) := by
    rw [flat]
    unfold NamesFit
    decide +kernel
  have length : flattenedLength (flatTree tree) = 1040 := by
    rw [flat]
    decide +kernel
  have flattens : (BootState.copied entered).Fits 0x70000000 0x10000000 darwinLocals := by
    refine ⟨tree, held, names, ?_⟩
    rw [into.pos, length]
    decide
  have finishes : (BootState.flattened flattened).Fits 0x70000000 0x10000000 darwinLocals := by
    have given : BitVec.ofNat 32 (roundUp 0x70002000 4096 + (4 : Word).toNat) ≠ 0 := by decide
    have kept := flattenDevicetree_keeps into.pos given flatten
    have flatAt := flattenDevicetree_ok into.pos given (kept ▸ held) names (by omega) flatten
    change BelowPool _ _ (roundUp flattened.platform.kernelRegion.pos.toNat 1024 + _)
    rw [flatAt.pos, length]
    decide
  refine ⟨args, b', reached, ?_⟩
  apply Relation.ReflTransGen.tail _ ⟨BootStep.finish final, finishes⟩
  apply Relation.ReflTransGen.tail _ ⟨BootStep.flatten flatten, flattens⟩
  apply Relation.ReflTransGen.tail _ ⟨BootStep.copy enter, copies⟩
  apply Relation.ReflTransGen.tail _ ⟨BootStep.describe describe, trivial⟩
  apply Relation.ReflTransGen.tail _ ⟨BootStep.load devicetree, trivial⟩
  exact Relation.ReflTransGen.single ⟨BootStep.map kernel, sampleBooter_kernel_fits⟩

theorem sampleBooter_spares_pool : ∃ args b', startDarwin darwinLocals (sampleBooter roomy) = .ok (args, b') ∧
    (∀ store ∈ b'.platform.machine.stores, ∀ address, store.Touches address → ¬ Covers 0x7e800000 0x1800000 address) ∧
    (∀ address, Covers (0x7e800000 : Word) 0x1800000 address → Covers 0x70000000 0x10000000 address) ∧
    ∀ range ∈ b'.platform.handedOut, ∀ address, Covers range.1 range.2.toNat address →
      Covers 0x70000000 0x10000000 address := by
  obtain ⟨args, b', reached, run⟩ := sampleBooter_run
  obtain ⟨core, populated, booter, pool⟩ := sampleCore_populated
  have first : sampleCore.isFirstRegion = false := rfl
  have ram : (0x70000000 : Word).toNat + (0x10000000 : Word).toNat ≤ 2 ^ 32 := by decide
  have room : kClearedLength.toNat + kMallocSize.toNat ≤ (0x10000000 : Word).toNat := by decide
  rw [← booter] at run
  have spared := boot_spares_pool first populated ram room run
  rw [pool] at spared
  exact ⟨args, b', reached, spared⟩

theorem clearing_reaches_pool : ∃ core s, populateMemoryInfo 0x70000000 0x8000000 sampleCore = .ok core ∧
    Relation.ReflTransGen (BootStep darwinLocals) (startState core.booter) s ∧
    ∃ store ∈ s.booter.platform.machine.stores, ∃ address, store.Touches address ∧
      Covers core.pool.1 core.pool.2.toNat address := by
  have first : sampleCore.isFirstRegion = false := rfl
  have accepted : PoolAccepted 0x70000000 0x8000000 := by decide
  obtain ⟨core, populated⟩ := populateMemoryInfo_accepts first accepted
  obtain ⟨heap, _, rfl⟩ := populateMemoryInfo_first first populated
  refine ⟨_, _, populated, Relation.ReflTransGen.refl, .bytes 0x70000000 0x8000000, ?_, 0x76800000, by decide, ?_⟩
  · exact List.mem_singleton.mpr rfl
  · change Covers (0x76800000 : Word) 0x1800000 0x76800000
    decide

end GenericBooter
