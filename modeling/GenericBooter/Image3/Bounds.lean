import GenericBooter.Image3.Catalogue

namespace GenericBooter

open ByteMemory Search

def Examined (m : Memory) (image findTag tag : Word) : Prop :=
  Visits (tagStop m image findTag) (tagNext m) (image + Image3RootHeader.bytes) tag

/-- What a search may depend on is the image alone. -/
structure StaysInside (m : Memory) (image findTag : Word) : Prop where
  headers : ∀ tag, Examined m image findTag tag → (tag - image).toNat + 12 ≤ (Image3Header.size m image).toNat
  range : ∀ outData outSize data size, image3GetTagData m image findTag outData outSize = .ok ⟨true, data, size⟩ →
    (data - image).toNat + size.toNat ≤ (Image3Header.size m image).toNat
  only : ∀ m' : Memory,
    (∀ i < (Image3Header.size m image).toNat, m' (image + BitVec.ofNat 32 i) = m (image + BitVec.ofNat 32 i)) →
      ∀ outData outSize,
        image3GetTagData m' image findTag outData outSize = image3GetTagData m image findTag outData outSize

/-- No size leads into the last 12 bytes of the image or to its end, and the payload that is found fits. -/
structure LinksInside (m : Memory) (image findTag : Word) : Prop where
  first : 32 ≤ (Image3Header.size m image).toNat
  links : ∀ tag, Examined m image findTag tag → Image3Header.magic m tag ≠ findTag →
    (Image3Header.size m image).toNat < (tagNext m tag - image).toNat ∨
      (tagNext m tag - image).toNat + 12 ≤ (Image3Header.size m image).toNat
  payload : ∀ tag, Examined m image findTag tag → Image3Header.magic m tag = findTag → tag ≠ 0 →
    (tag - image).toNat + 12 + (Image3Header.dataSize m tag).toNat ≤ (Image3Header.size m image).toNat

section Rounds

variable {m : Memory} {image findTag tag a : Word}

theorem tagStop_passes_iff : tagStop m image findTag tag = none ↔
    Image3Header.magic m tag ≠ findTag ∧ ¬ Image3Header.size m image < tagNext m tag - image := by
  unfold tagStop tagNext
  by_cases found : Image3Header.magic m tag = findTag
  · simp [found]
  · by_cases leaves : Image3Header.size m image < tag + Image3Header.size m tag - image
    · simp [found, leaves]
    · simp [found, leaves]

theorem tagStop_some_iff : tagStop m image findTag tag = some a ↔
    if Image3Header.magic m tag = findTag then tag = a
    else Image3Header.size m image < tagNext m tag - image ∧ a = 0 := by
  unfold tagStop tagNext
  by_cases found : Image3Header.magic m tag = findTag
  · simp [found]
  · by_cases leaves : Image3Header.size m image < tag + Image3Header.size m tag - image
    · rw [if_neg found, if_neg found, if_pos leaves, and_iff_right leaves, Option.some_inj, eq_comm]
    · simp [found, leaves]

theorem tagStop_nonnull (nonnull : a ≠ 0) : tagStop m image findTag tag = some a ↔
    Image3Header.magic m tag = findTag ∧ tag = a := by
  rw [tagStop_some_iff]
  by_cases found : Image3Header.magic m tag = findTag
  · rw [if_pos found, and_iff_right found]
  · rw [if_neg found]
    exact iff_of_false (fun ended => nonnull ended.2) (fun tagged => found tagged.1)

theorem imageTag_found (nonnull : tag ≠ 0) : image3FindTag m image findTag = .ok tag ↔
    Examined m image findTag tag ∧ Image3Header.magic m tag = findTag := by
  rw [image3FindTag_iff]
  constructor
  · rintro ⟨t, visits, answer⟩
    obtain ⟨found, rfl⟩ := (tagStop_nonnull nonnull).mp answer
    exact ⟨visits, found⟩
  · rintro ⟨visits, found⟩
    exact ⟨tag, visits, (tagStop_nonnull nonnull).mpr ⟨found, rfl⟩⟩

theorem getTagData_found {outData outSize data size : Word} :
    image3GetTagData m image findTag outData outSize = .ok ⟨true, data, size⟩ ↔
      ∃ tag, tag ≠ 0 ∧ Examined m image findTag tag ∧ Image3Header.magic m tag = findTag ∧
        data = tag + Image3Header.bytes ∧ size = Image3Header.dataSize m tag := by
  constructor
  · intro returned
    unfold image3GetTagData at returned
    cases result : image3FindTag m image findTag with
    | error stop =>
      rw [result] at returned
      cases returned
    | ok tag =>
      rw [result] at returned
      simp only [ok_bind] at returned
      by_cases nonnull : tag ≠ 0
      · rw [if_pos nonnull] at returned
        obtain ⟨visits, found⟩ := (imageTag_found nonnull).mp result
        cases returned
        exact ⟨tag, nonnull, visits, found, rfl, rfl⟩
      · rw [if_neg nonnull] at returned
        cases returned
  · rintro ⟨tag, nonnull, visits, found, rfl, rfl⟩
    rw [image3GetTagData, (imageTag_found nonnull).mpr ⟨visits, found⟩]
    simp only [ok_bind]
    rw [if_pos nonnull]

theorem payload_offset {size : Nat} (small : size < 2 ^ 32) (inside : (tag - image).toNat + 12 ≤ size) :
    (tag + Image3Header.bytes - image).toNat = (tag - image).toNat + 12 := by
  have regroup : tag + Image3Header.bytes - image = tag - image + Image3Header.bytes := by
    rw [BitVec.sub_eq_add_neg, BitVec.sub_eq_add_neg, add_right_comm]
  rw [regroup, BitVec.toNat_add]
  exact Nat.mod_eq_of_lt (Nat.lt_of_le_of_lt inside small)

end Rounds

section Bounds

variable {m : Memory} {image findTag : Word}

theorem LinksInside.headers (inside : LinksInside m image findTag) {tag : Word}
    (examined : Examined m image findTag tag) :
    (tag - image).toNat + 12 ≤ (Image3Header.size m image).toNat := by
  apply examined.invariant fun tag => (tag - image).toNat + 12 ≤ (Image3Header.size m image).toNat
  · have start : (image + Image3RootHeader.bytes - image).toNat = 20 := add_sub_toNat image 20 (by decide)
    rw [start]
    exact inside.first
  · intro t visits _ passes
    obtain ⟨other, stays⟩ := tagStop_passes_iff.mp passes
    rcases inside.links t visits other with beyond | fits
    · exact absurd (BitVec.lt_def.mpr beyond) stays
    · exact fits

theorem LinksInside.range (inside : LinksInside m image findTag) {outData outSize data size : Word}
    (returned : image3GetTagData m image findTag outData outSize = .ok ⟨true, data, size⟩) :
    (data - image).toNat + size.toNat ≤ (Image3Header.size m image).toNat := by
  obtain ⟨tag, nonnull, examined, found, rfl, rfl⟩ := getTagData_found.mp returned
  have header := inside.headers examined
  rw [payload_offset (Image3Header.size m image).isLt header]
  exact inside.payload tag examined found nonnull

theorem load32_inside {m' : Memory} {size : Nat}
    (same : ∀ i < size, m' (image + BitVec.ofNat 32 i) = m (image + BitVec.ofNat 32 i)) (header : Word) (field : Nat)
    (fits : (header - image).toNat + field + 4 ≤ size) :
    load32 m' (header + BitVec.ofNat 32 field) = load32 m (header + BitVec.ofNat 32 field) := by
  apply load32_congr
  intro i bound
  have place : header + BitVec.ofNat 32 field + BitVec.ofNat 32 i =
      image + BitVec.ofNat 32 ((header - image).toNat + field + i) := by
    rw [BitVec.ofNat_add, BitVec.ofNat_add, BitVec.ofNat_toNat, BitVec.setWidth_eq, ← BitVec.add_assoc,
      ← BitVec.add_assoc, BitVec.add_comm image, BitVec.sub_add_cancel]
  rw [place]
  exact same _ (by omega)

theorem LinksInside.only (inside : LinksInside m image findTag) {m' : Memory}
    (same : ∀ i < (Image3Header.size m image).toNat,
      m' (image + BitVec.ofNat 32 i) = m (image + BitVec.ofNat 32 i)) (outData outSize : Word) :
    image3GetTagData m' image findTag outData outSize = image3GetTagData m image findTag outData outSize := by
  have first := inside.first
  have fields {header : Word} (fits : (header - image).toNat + 12 ≤ (Image3Header.size m image).toNat) :
      Image3Header.magic m' header = Image3Header.magic m header ∧
        Image3Header.size m' header = Image3Header.size m header ∧
          Image3Header.dataSize m' header = Image3Header.dataSize m header := by
    refine ⟨?_, load32_inside same header 4 (by omega), load32_inside same header 8 (by omega)⟩
    have magic := load32_inside same header 0 (by omega)
    rw [BitVec.add_zero] at magic
    exact magic
  have root : Image3Header.size m' image = Image3Header.size m image := by
    apply load32_inside same image 4
    rw [BitVec.sub_self]
    exact Nat.le_trans (by decide) first
  have rounds : ∀ t, Examined m image findTag t →
      tagStop m' image findTag t = tagStop m image findTag t ∧ tagNext m' t = tagNext m t := by
    intro t examined
    obtain ⟨magic, size, _⟩ := fields (inside.headers examined)
    rw [tagStop, tagStop, tagNext, tagNext, magic, size, root]
    exact ⟨rfl, rfl⟩
  have walk : image3FindTag m' image findTag = image3FindTag m image findTag := by
    rw [image3FindTag, image3FindTag, image3FindTagFrom_search, image3FindTagFrom_search, search_congr rounds]
  rw [image3GetTagData, image3GetTagData, walk]
  cases result : image3FindTag m image findTag with
  | error stop => rfl
  | ok tag =>
    simp only [ok_bind]
    by_cases nonnull : tag ≠ 0
    · obtain ⟨examined, _⟩ := (imageTag_found nonnull).mp result
      rw [if_pos nonnull, if_pos nonnull, (fields (inside.headers examined)).2.2]
    · rw [if_neg nonnull, if_neg nonnull]

theorem staysInside_iff (m : Memory) (image findTag : Word) :
    StaysInside m image findTag ↔ LinksInside m image findTag := by
  constructor
  · intro inside
    constructor
    · have header := inside.headers _ Visits.start
      have start : (image + Image3RootHeader.bytes - image).toNat = 20 := add_sub_toNat image 20 (by decide)
      rwa [start] at header
    · intro tag examined other
      by_cases beyond : Image3Header.size m image < tagNext m tag - image
      · exact Or.inl (BitVec.lt_def.mp beyond)
      · exact Or.inr (inside.headers _ (examined.step (tagStop_passes_iff.mpr ⟨other, beyond⟩)))
    · intro tag examined found nonnull
      have header := inside.headers tag examined
      have range := inside.range 0 0 _ _ (getTagData_found.mpr ⟨tag, nonnull, examined, found, rfl, rfl⟩)
      rwa [payload_offset (Image3Header.size m image).isLt header] at range
  · intro inside
    exact ⟨fun tag => inside.headers, fun _ _ _ _ => inside.range, fun _ => inside.only⟩

end Bounds

def overrun : Memory :=
  write (fun _ => 0) 0x10000
    ((Image3File.mk 0 0 kImage3TypeKernel []).bytes ++ (Image3Tag.mk kImage3TagData [1, 2, 3, 4] []).bytes)

theorem overrun_leaves : Image3Header.magic overrun 0x10000 = kImage3Magic ∧
    image3GetTagData overrun 0x10000 kImage3TagData 0 0 = .ok ⟨true, 0x10020, 4⟩ ∧
      ¬ StaysInside overrun 0x10000 kImage3TagData := by
  refine ⟨by decide +kernel, by decide +kernel, fun inside => ?_⟩
  have first := inside.headers _ Visits.start
  revert first
  decide +kernel

end GenericBooter
