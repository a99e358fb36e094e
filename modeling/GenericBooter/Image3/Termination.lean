import GenericBooter.Image3.Bounds

namespace GenericBooter

open ByteMemory Search

def TagStepsAdvance (m : Memory) (image findTag : Word) : Prop :=
  ∀ tag, Examined m image findTag tag → tagStop m image findTag tag = none →
    (tag - image).toNat < (tagNext m tag - image).toNat

def ImageStepsAdvance (m : Memory) (imagesEnd type : Word) : Prop :=
  ∀ img3, Visits (imageStop m type) (imageNext m) imagesEnd img3 → imageStop m type img3 = none →
    imageNext m img3 = 0 ∨ img3.toNat < (imageNext m img3).toNat

def TagSizesAdvance (m : Memory) (image findTag : Word) : Prop :=
  ∀ tag, Examined m image findTag tag → tagStop m image findTag tag = none →
    Image3Header.size m tag ≠ 0 ∧ (tag - image).toNat + (Image3Header.size m tag).toNat < 2 ^ 32

def ImageSizesAdvance (m : Memory) (imagesEnd type : Word) : Prop :=
  ∀ img3, Visits (imageStop m type) (imageNext m) imagesEnd img3 → imageStop m type img3 = none →
    Image3Header.size m img3 ≠ 0 ∧ img3.toNat + (Image3Header.size m img3).toNat ≤ 2 ^ 32

def TagChainEnds (m : Memory) (image findTag : Word) : Prop :=
  ∃ k, Image3Header.magic m ((tagNext m)^[k] (image + Image3RootHeader.bytes)) = findTag ∨
    Image3Header.size m image < (tagNext m)^[k + 1] (image + Image3RootHeader.bytes) - image

def ImageChainEnds (m : Memory) (imagesEnd type : Word) : Prop :=
  ∃ k, (imageNext m)^[k] imagesEnd = 0 ∨ Image3Header.magic m ((imageNext m)^[k] imagesEnd) ≠ kImage3Magic ∨
    Image3RootHeader.imageType m ((imageNext m)^[k] imagesEnd) = type

/-- Following the sizes from `tag` on leads beyond the image before it leads to a header with the tag. -/
def LeadsOut (m : Memory) (image findTag tag : Word) : Prop :=
  ∃ k, (∀ j < k, Image3Header.magic m ((tagNext m)^[j] tag) ≠ findTag) ∧
    if Image3Header.magic m ((tagNext m)^[k] tag) = findTag then (tagNext m)^[k] tag = 0
    else Image3Header.size m image < (tagNext m)^[k + 1] tag - image

section Tags

variable {m : Memory} {image findTag tag : Word}

theorem tagNext_offset (m : Memory) (image tag : Word) : (tagNext m tag - image).toNat =
    ((tag - image).toNat + (Image3Header.size m tag).toNat) % 2 ^ 32 := by
  have regroup : tagNext m tag - image = tag - image + Image3Header.size m tag := by
    rw [tagNext, BitVec.sub_eq_add_neg, BitVec.sub_eq_add_neg, add_right_comm]
  rw [regroup, BitVec.toNat_add]

theorem tagSteps_advance_iff : TagStepsAdvance m image findTag ↔ TagSizesAdvance m image findTag := by
  have step (tag : Word) : (tag - image).toNat < (tagNext m tag - image).toNat ↔
      Image3Header.size m tag ≠ 0 ∧ (tag - image).toNat + (Image3Header.size m tag).toNat < 2 ^ 32 := by
    have offset := (tag - image).isLt
    have size := (Image3Header.size m tag).isLt
    have zero : Image3Header.size m tag = 0 ↔ (Image3Header.size m tag).toNat = 0 := BitVec.toNat_inj.symm
    rw [tagNext_offset, ne_eq, zero]
    omega
  constructor
  · intro advance tag examined passes
    exact (step tag).mp (advance tag examined passes)
  · intro advance tag examined passes
    exact (step tag).mpr (advance tag examined passes)

theorem TagStepsAdvance.ends (advance : TagStepsAdvance m image findTag) :
    ∃ result, image3FindTag m image findTag = .ok result := by
  have bounded (tag : Word) : (tag - image).toNat ≤ 2 ^ 32 := Nat.le_of_lt (tag - image).isLt
  obtain ⟨result, answer⟩ := answers_of_rising bounded advance
  exact ⟨result, (image3FindTag_iff ..).mpr answer⟩

theorem tagWalk_ends_iff :
    (∃ result, image3FindTag m image findTag = .ok result) ↔ TagChainEnds m image findTag := by
  have same : (∃ result, image3FindTag m image findTag = .ok result) ↔
      ∃ result, Answers (tagStop m image findTag) (tagNext m) (image + Image3RootHeader.bytes) result :=
    exists_congr (image3FindTag_iff m image findTag)
  rw [same, answers_iff_exists]
  apply exists_congr
  intro k
  rw [ne_eq, tagStop_passes_iff, Function.iterate_succ_apply', not_and_or, not_not, not_not]

theorem absent_tag {file : Image3File} (placed : Placed m image file.bytes) (small : file.size < 2 ^ 32)
    (absent : ∀ tag ∈ file.tags, tag.magic ≠ findTag) (result : Word) :
    image3FindTag m image findTag = .ok result ↔
      Answers (tagStop m image findTag) (tagNext m) (image + BitVec.ofNat 32 file.size) result := by
  obtain ⟨_, size, _, tags⟩ := Image3File.placed placed
  have whole : 20 + (file.tags.flatMap Image3Tag.bytes).length = file.size := by
    rw [Image3File.tags_length, Image3File.size]
  rw [image3FindTag_iff, ← whole]
  exact tags_pass small size (Nat.le_of_eq whole) tags absent

theorem tagStop_null_iff : tagStop m image findTag tag = some 0 ↔
    if Image3Header.magic m tag = findTag then tag = 0 else Image3Header.size m image < tagNext m tag - image := by
  rw [tagStop_some_iff, eq_self, and_true]

theorem null_iff_leadsOut :
    Answers (tagStop m image findTag) (tagNext m) tag 0 ↔ LeadsOut m image findTag tag := by
  constructor
  · rintro ⟨_, ⟨k, rfl, before⟩, answer⟩
    have out := tagStop_null_iff.mp answer
    rw [← Function.iterate_succ_apply' (tagNext m)] at out
    exact ⟨k, fun j less => (tagStop_passes_iff.mp (before j less)).1, out⟩
  · rintro ⟨k, others, out⟩
    rw [Function.iterate_succ_apply', ← tagStop_null_iff] at out
    have ends : ∃ k, tagStop m image findTag ((tagNext m)^[k] tag) ≠ none :=
      ⟨k, by rw [out]; exact Option.some_ne_none _⟩
    obtain ⟨result, _, ⟨i, rfl, before⟩, answer⟩ := answers_iff_exists.mpr ends
    rcases Nat.lt_trichotomy i k with less | rfl | greater
    · -- A header before the `k`-th has not the tag, so it can only lead out.
      have other := others i less
      have null : result = 0 := by
        by_contra nonnull
        exact other ((tagStop_nonnull nonnull).mp answer).1
      exact ⟨_, ⟨i, rfl, before⟩, by rw [answer, null]⟩
    · exact ⟨_, ⟨i, rfl, before⟩, out⟩
    · cases out.symm.trans (before k greater)

end Tags

section Images

variable {m : Memory} {imagesEnd type img3 : Word}

theorem imageStop_passes_iff : imageStop m type img3 = none ↔
    img3 ≠ 0 ∧ Image3Header.magic m img3 = kImage3Magic ∧ Image3RootHeader.imageType m img3 ≠ type := by
  unfold imageStop
  by_cases null : img3 = 0
  · simp [null]
  · rw [if_neg null]
    by_cases magic : Image3Header.magic m img3 = kImage3Magic
    · by_cases found : Image3RootHeader.imageType m img3 = type
      · simp only [magic, found, ne_eq, not_true_eq_false, if_false, if_true, and_false, reduceCtorEq]
      · simp only [magic, found, null, ne_eq, not_true_eq_false, not_false_eq_true, if_false, and_true]
    · simp only [magic, ne_eq, not_false_eq_true, if_true, false_and, and_false, reduceCtorEq]

theorem imageSteps_advance_iff : ImageStepsAdvance m imagesEnd type ↔ ImageSizesAdvance m imagesEnd type := by
  have step (img3 : Word) (nonnull : img3 ≠ 0) :
      (imageNext m img3 = 0 ∨ img3.toNat < (imageNext m img3).toNat) ↔
        Image3Header.size m img3 ≠ 0 ∧ img3.toNat + (Image3Header.size m img3).toNat ≤ 2 ^ 32 := by
    have place := img3.isLt
    have size := (Image3Header.size m img3).isLt
    have positive : img3.toNat ≠ 0 := fun zero => nonnull (BitVec.eq_of_toNat_eq zero)
    have next : imageNext m img3 = 0 ↔ (imageNext m img3).toNat = 0 := BitVec.toNat_inj.symm
    have zero : Image3Header.size m img3 = 0 ↔ (Image3Header.size m img3).toNat = 0 := BitVec.toNat_inj.symm
    rw [next, ne_eq, zero, imageNext, BitVec.toNat_add]
    omega
  constructor
  · intro advance img3 visits passes
    exact (step img3 (imageStop_passes_iff.mp passes).1).mp (advance img3 visits passes)
  · intro advance img3 visits passes
    exact (step img3 (imageStop_passes_iff.mp passes).1).mpr (advance img3 visits passes)

theorem ImageStepsAdvance.ends (advance : ImageStepsAdvance m imagesEnd type) :
    ∃ result, getImage3 m imagesEnd type = .ok result := by
  -- The null pointer, where the walk stops, counts as the end of the address space.
  have bounded (img3 : Word) : (if img3 = 0 then 2 ^ 32 else img3.toNat) ≤ 2 ^ 32 := by
    by_cases null : img3 = 0
    · rw [if_pos null]
    · rw [if_neg null]
      exact Nat.le_of_lt img3.isLt
  have rises : ∀ img3, Visits (imageStop m type) (imageNext m) imagesEnd img3 → imageStop m type img3 = none →
      (if img3 = 0 then 2 ^ 32 else img3.toNat) <
        (if imageNext m img3 = 0 then 2 ^ 32 else (imageNext m img3).toNat) := by
    intro img3 visits passes
    rw [if_neg (imageStop_passes_iff.mp passes).1]
    rcases advance img3 visits passes with null | later
    · rw [if_pos null]
      exact img3.isLt
    · have nonnull : imageNext m img3 ≠ 0 := by
        intro null
        rw [null] at later
        exact Nat.not_lt_zero _ later
      rw [if_neg nonnull]
      exact later
  obtain ⟨result, answer⟩ := answers_of_rising bounded rises
  exact ⟨result, (getImage3_iff ..).mpr answer⟩

theorem imageWalk_ends_iff :
    (∃ result, getImage3 m imagesEnd type = .ok result) ↔ ImageChainEnds m imagesEnd type := by
  have same : (∃ result, getImage3 m imagesEnd type = .ok result) ↔
      ∃ result, Answers (imageStop m type) (imageNext m) imagesEnd result :=
    exists_congr (getImage3_iff m imagesEnd type)
  rw [same, answers_iff_exists]
  apply exists_congr
  intro k
  rw [ne_eq, imageStop_passes_iff, not_and_or, not_and_or, not_not, not_not]

end Images

/-- When the walks end, when every step of them advances, and when a search for an absent tag returns null. -/
theorem walks_end_iff (m : Memory) :
    (∀ image findTag,
      ((∃ result, image3FindTag m image findTag = .ok result) ↔ TagChainEnds m image findTag) ∧
      (TagStepsAdvance m image findTag ↔ TagSizesAdvance m image findTag) ∧
      (TagStepsAdvance m image findTag → TagChainEnds m image findTag)) ∧
    (∀ imagesEnd type,
      ((∃ result, getImage3 m imagesEnd type = .ok result) ↔ ImageChainEnds m imagesEnd type) ∧
      (ImageStepsAdvance m imagesEnd type ↔ ImageSizesAdvance m imagesEnd type) ∧
      (ImageStepsAdvance m imagesEnd type → ImageChainEnds m imagesEnd type)) ∧
    ∀ image (file : Image3File) findTag, Placed m image file.bytes → file.size < 2 ^ 32 →
      (∀ tag ∈ file.tags, tag.magic ≠ findTag) →
        (image3FindTag m image findTag = .ok 0 ↔ LeadsOut m image findTag (image + BitVec.ofNat 32 file.size)) := by
  refine ⟨fun image findTag => ?_, fun imagesEnd type => ?_, fun image file findTag placed small absent => ?_⟩
  · exact ⟨tagWalk_ends_iff, tagSteps_advance_iff, fun advance => tagWalk_ends_iff.mp advance.ends⟩
  · exact ⟨imageWalk_ends_iff, imageSteps_advance_iff, fun advance => imageWalk_ends_iff.mp advance.ends⟩
  · rw [absent_tag placed small absent, null_iff_leadsOut]

theorem sampleShelf_leads_out : image3FindTag sampleShelf 0x10000 kImage3TagData = .ok 0 := by
  obtain ⟨_, _, absent⟩ := walks_end_iff sampleShelf
  have placed : Placed sampleShelf 0x10000 (Image3File.mk 0 0 kImage3TypeKernel []).bytes := by decide +kernel
  have returns := absent 0x10000 _ kImage3TagData placed (by decide) (by decide)
  exact returns.mpr ⟨0, fun _ none => absurd none (Nat.not_lt_zero _), by decide +kernel⟩

def lonely : Memory := write (fun _ => 0) 0x10000 (Image3File.mk 0 0 kImage3TypeKernel []).bytes

theorem lonely_endless : Placed lonely 0x10000 (Image3File.mk 0 0 kImage3TypeKernel []).bytes ∧
    ∀ result, image3FindTag lonely 0x10000 kImage3TagData ≠ .ok result := by
  refine ⟨by decide +kernel, fun result returned => ?_⟩
  obtain ⟨k, ends⟩ := tagWalk_ends_iff.mp ⟨result, returned⟩
  have stays : tagNext lonely (0x10000 + Image3RootHeader.bytes) = 0x10000 + Image3RootHeader.bytes := by decide +kernel
  rw [Function.iterate_fixed stays, Function.iterate_fixed stays] at ends
  revert ends
  decide +kernel

end GenericBooter
