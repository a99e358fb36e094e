import GenericBooter.Image3.Walk

namespace GenericBooter

open ByteMemory Search

section Passing

variable {m : Memory} {a : Word}

theorem images_pass {type : Word} {images : List Image3File} {position : Nat} (positive : 0 < position)
    (room : position + (images.flatMap Image3File.bytes).length ≤ 2 ^ 32)
    (placed : Placed m (BitVec.ofNat 32 position) (images.flatMap Image3File.bytes))
    (others : ∀ image ∈ images, image.imageType ≠ type) :
    Answers (imageStop m type) (imageNext m) (BitVec.ofNat 32 position) a ↔
      Answers (imageStop m type) (imageNext m)
        (BitVec.ofNat 32 (position + (images.flatMap Image3File.bytes).length)) a := by
  induction images generalizing position with
  | nil => rfl
  | cons image images ih =>
    rw [List.flatMap_cons] at room placed ⊢
    rw [List.length_append, image.bytes_length] at room ⊢
    obtain ⟨here, later⟩ := Placed.append_iff.mp placed
    rw [image.bytes_length, ← BitVec.ofNat_add] at later
    obtain ⟨magic, size, imageType, _⟩ := Image3File.placed here
    have nonempty : 20 ≤ image.size := Nat.le_add_right _ _
    have passes : imageStop m type (BitVec.ofNat 32 position) = none := by
      rw [imageStop, if_neg (position_ne_zero positive (by omega)), if_neg (not_not.mpr magic),
        if_neg (by rw [imageType]; exact others image List.mem_cons_self)]
    rw [answers_later passes, imageNext, size, ← BitVec.ofNat_add,
      ih (by omega) (by omega) later fun other member => others other (List.mem_cons_of_mem _ member), Nat.add_assoc]

theorem tags_pass {image findTag : Word} {tags : List Image3Tag} {offset size : Nat} (small : size < 2 ^ 32)
    (sized : Image3Header.size m image = BitVec.ofNat 32 size)
    (room : offset + (tags.flatMap Image3Tag.bytes).length ≤ size)
    (placed : Placed m (image + BitVec.ofNat 32 offset) (tags.flatMap Image3Tag.bytes))
    (others : ∀ tag ∈ tags, tag.magic ≠ findTag) :
    Answers (tagStop m image findTag) (tagNext m) (image + BitVec.ofNat 32 offset) a ↔
      Answers (tagStop m image findTag) (tagNext m)
        (image + BitVec.ofNat 32 (offset + (tags.flatMap Image3Tag.bytes).length)) a := by
  induction tags generalizing offset with
  | nil => rfl
  | cons tag tags ih =>
    rw [List.flatMap_cons] at room placed ⊢
    rw [List.length_append, tag.bytes_length] at room ⊢
    obtain ⟨here, later⟩ := Placed.append_iff.mp placed
    rw [tag.bytes_length, add_ofNat] at later
    obtain ⟨magic, step, _⟩ := Image3Tag.placed here
    have next : image + BitVec.ofNat 32 offset + BitVec.ofNat 32 tag.size = image + BitVec.ofNat 32 (offset + tag.size) :=
      add_ofNat image offset tag.size
    have inside : ¬ (BitVec.ofNat 32 size < image + BitVec.ofNat 32 (offset + tag.size) - image) := by
      rw [BitVec.lt_def, add_sub_toNat _ _ (by omega), BitVec.toNat_ofNat, Nat.mod_eq_of_lt small]
      omega
    have passes : tagStop m image findTag (image + BitVec.ofNat 32 offset) = none := by
      rw [tagStop, magic, if_neg (others tag List.mem_cons_self), step, next, sized, if_neg inside]
    rw [answers_later passes, tagNext, step, next,
      ih (by omega) later fun other member => others other (List.mem_cons_of_mem _ member), Nat.add_assoc]

end Passing

/-- The images lie one after another from `__end` on, and what follows them is not another one. -/
structure Catalogue (m : Memory) (imagesEnd : Word) (images : List Image3File) : Prop where
  placed : Placed m imagesEnd (images.flatMap Image3File.bytes)
  nonnull : imagesEnd ≠ 0
  room : imagesEnd.toNat + (images.flatMap Image3File.bytes).length ≤ 2 ^ 32
  ends : Image3Header.magic m (imagesEnd + BitVec.ofNat 32 (images.flatMap Image3File.bytes).length) ≠ kImage3Magic

def imageAddress (imagesEnd : Word) (before : List Image3File) : Word :=
  imagesEnd + BitVec.ofNat 32 (before.flatMap Image3File.bytes).length

def payloadAddress (image : Word) (before : List Image3Tag) : Word :=
  image + BitVec.ofNat 32 (20 + (before.flatMap Image3Tag.bytes).length) + Image3Header.bytes

section Found

variable {m : Memory} {imagesEnd : Word} {images : List Image3File}

theorem Catalogue.start (catalogue : Catalogue m imagesEnd images) :
    0 < imagesEnd.toNat ∧ BitVec.ofNat 32 imagesEnd.toNat = imagesEnd := by
  refine ⟨Nat.pos_of_ne_zero fun zero => catalogue.nonnull (BitVec.eq_of_toNat_eq zero), ?_⟩
  rw [BitVec.ofNat_toNat, BitVec.setWidth_eq]

theorem Catalogue.absent (catalogue : Catalogue m imagesEnd images) {type : Word}
    (others : ∀ image ∈ images, image.imageType ≠ type) : getImage3 m imagesEnd type = .ok 0 := by
  obtain ⟨positive, start⟩ := catalogue.start
  have placed := catalogue.placed
  have ends := catalogue.ends
  rw [← start] at placed
  rw [← start, ← BitVec.ofNat_add] at ends
  have stops : imageStop m type (BitVec.ofNat 32 (imagesEnd.toNat + (images.flatMap Image3File.bytes).length)) =
      some 0 := by
    rw [imageStop]
    by_cases null : BitVec.ofNat 32 (imagesEnd.toNat + (images.flatMap Image3File.bytes).length) = 0
    · exact if_pos null
    · rw [if_neg null, if_pos ends]
  rw [getImage3_iff, ← start, images_pass positive catalogue.room placed others, answers_here stops]

theorem Catalogue.split {before after : List Image3File} {image : Image3File}
    (catalogue : Catalogue m imagesEnd (before ++ image :: after)) :
    Placed m imagesEnd (before.flatMap Image3File.bytes) ∧ Placed m (imageAddress imagesEnd before) image.bytes ∧
      imagesEnd.toNat + (before.flatMap Image3File.bytes).length + image.size ≤ 2 ^ 32 := by
  have placed := catalogue.placed
  have room := catalogue.room
  rw [List.flatMap_append, List.flatMap_cons] at placed room
  rw [List.length_append, List.length_append, image.bytes_length] at room
  obtain ⟨earlier, here⟩ := Placed.append_iff.mp placed
  exact ⟨earlier, (Placed.append_iff.mp here).1, by omega⟩

theorem Catalogue.first {before after : List Image3File} {image : Image3File}
    (catalogue : Catalogue m imagesEnd (before ++ image :: after))
    (others : ∀ other ∈ before, other.imageType ≠ image.imageType) :
    getImage3 m imagesEnd image.imageType = .ok (imageAddress imagesEnd before) ∧ imageAddress imagesEnd before ≠ 0 := by
  obtain ⟨positive, start⟩ := catalogue.start
  obtain ⟨earlier, here, room⟩ := catalogue.split
  have nonempty : 20 ≤ image.size := Nat.le_add_right _ _
  have place : imageAddress imagesEnd before =
      BitVec.ofNat 32 (imagesEnd.toNat + (before.flatMap Image3File.bytes).length) := by
    rw [BitVec.ofNat_add, start]
    rfl
  have nonnull : imageAddress imagesEnd before ≠ 0 := by
    rw [place]
    exact position_ne_zero (by omega) (by omega)
  obtain ⟨magic, _, imageType, _⟩ := Image3File.placed here
  have stops : imageStop m image.imageType (imageAddress imagesEnd before) = some (imageAddress imagesEnd before) := by
    rw [imageStop, if_neg nonnull, if_neg (not_not.mpr magic), if_pos imageType]
  rw [← start] at earlier
  rw [place] at stops
  refine ⟨?_, nonnull⟩
  rw [getImage3_iff, place, ← start, images_pass positive (by omega) earlier others, start, answers_here stops]

theorem image3GetTagData_first {image : Word} {file : Image3File} {before after : List Image3Tag} {tag : Image3Tag}
    (placed : Placed m image file.bytes) (nonnull : image ≠ 0) (room : image.toNat + file.size ≤ 2 ^ 32)
    (contains : file.tags = before ++ tag :: after) (others : ∀ other ∈ before, other.magic ≠ tag.magic)
    (outData outSize : Word) :
    image3GetTagData m image tag.magic outData outSize =
        .ok ⟨true, payloadAddress image before, BitVec.ofNat 32 tag.payload.length⟩ ∧
      (BitVec.ofNat 32 tag.payload.length : Word).toNat = tag.payload.length ∧
        Placed m (payloadAddress image before) tag.payload := by
  have positive : 0 < image.toNat := Nat.pos_of_ne_zero fun zero => nonnull (BitVec.eq_of_toNat_eq zero)
  obtain ⟨_, size, _, tags⟩ := Image3File.placed placed
  have total := Image3File.tags_length file.tags
  have whole : file.size = 20 + (file.tags.map Image3Tag.size).sum := rfl
  rw [contains, List.flatMap_append, List.flatMap_cons] at tags total
  rw [List.length_append, List.length_append, tag.bytes_length, ← contains] at total
  have tagSize : tag.size = 12 + (tag.payload.length + tag.slack.length) := rfl
  obtain ⟨earlier, rest⟩ := Placed.append_iff.mp tags
  have here := (Placed.append_iff.mp rest).1
  have start : image + Image3RootHeader.bytes = image + BitVec.ofNat 32 20 := rfl
  rw [start] at earlier
  rw [start, add_ofNat] at here
  obtain ⟨magic, _, dataSize, payload⟩ := Image3Tag.placed here
  have found : image3FindTag m image tag.magic =
      .ok (image + BitVec.ofNat 32 (20 + (before.flatMap Image3Tag.bytes).length)) := by
    rw [image3FindTag_iff, start, tags_pass (by omega) size (by omega) earlier others, answers_here]
    rw [tagStop, if_pos magic]
  have place : image + BitVec.ofNat 32 (20 + (before.flatMap Image3Tag.bytes).length) ≠ 0 := by
    rw [show image = BitVec.ofNat 32 image.toNat by rw [BitVec.ofNat_toNat, BitVec.setWidth_eq], ← BitVec.ofNat_add]
    exact position_ne_zero (by omega) (by omega)
  refine ⟨?_, ?_, payload⟩
  · rw [image3GetTagData, found]
    simp only [ok_bind]
    rw [if_pos place, dataSize]
    rfl
  · rw [BitVec.toNat_ofNat, Nat.mod_eq_of_lt (by omega)]

/-- Each search ends at the first image of its type and then at the first tag with its magic, whatever bytes the
    payloads hold. -/
theorem catalogue_found (catalogue : Catalogue m imagesEnd images) :
    (∀ type, (∀ image ∈ images, image.imageType ≠ type) → getImage3 m imagesEnd type = .ok 0) ∧
    ∀ before image after, images = before ++ image :: after →
      (∀ other ∈ before, other.imageType ≠ image.imageType) →
        getImage3 m imagesEnd image.imageType = .ok (imageAddress imagesEnd before) ∧
        imageAddress imagesEnd before ≠ 0 ∧ Placed m (imageAddress imagesEnd before) image.bytes ∧
        ∀ earlier tag later, image.tags = earlier ++ tag :: later → (∀ other ∈ earlier, other.magic ≠ tag.magic) →
          ∀ outData outSize, ∃ data size,
            image3GetTagData m (imageAddress imagesEnd before) tag.magic outData outSize = .ok ⟨true, data, size⟩ ∧
            data = payloadAddress (imageAddress imagesEnd before) earlier ∧ size.toNat = tag.payload.length ∧
            read m data size.toNat = tag.payload := by
  refine ⟨fun type others => catalogue.absent others, ?_⟩
  rintro before image after rfl others
  obtain ⟨found, nonnull⟩ := catalogue.first others
  obtain ⟨_, here, room⟩ := catalogue.split
  refine ⟨found, nonnull, here, fun earlier tag later contains others outData outSize => ?_⟩
  have below : (imageAddress imagesEnd before).toNat + image.size ≤ 2 ^ 32 := by
    rw [imageAddress, BitVec.toNat_add, BitVec.toNat_ofNat, Nat.add_mod_mod]
    exact (Nat.add_le_add_right (Nat.mod_le _ _) _).trans room
  obtain ⟨returned, length, payload⟩ := image3GetTagData_first here nonnull below contains others outData outSize
  refine ⟨_, _, returned, rfl, length, ?_⟩
  rw [length]
  exact payload

end Found

def disguised : Image3Tag := ⟨0x54595045, (Image3Tag.mk kImage3TagData [1, 2, 3, 4] []).bytes, [0, 0]⟩

def sampleImages : List Image3File :=
  [⟨0, 0, kImage3TypeKernel, []⟩, ⟨7, 9, kImage3TypeRamdisk, [disguised, ⟨kImage3TagData, [5, 6, 7], [0]⟩]⟩]

def sampleShelf : Memory := write (fun _ => 0) 0x10000 (sampleImages.flatMap Image3File.bytes)

theorem sampleShelf_catalogue : Catalogue sampleShelf 0x10000 sampleImages where
  placed := by decide +kernel
  nonnull := by decide
  room := by decide +kernel
  ends := by decide +kernel

theorem sampleShelf_found : getImage3 sampleShelf 0x10000 kImage3TypeXmlDeviceTree = .ok 0 ∧
    getImage3 sampleShelf 0x10000 kImage3TypeRamdisk = .ok 0x10014 ∧
      ∃ data size, image3GetTagData sampleShelf 0x10014 kImage3TagData 0 0 = .ok ⟨true, data, size⟩ ∧
        size.toNat = 3 ∧ read sampleShelf data size.toNat = [5, 6, 7] := by
  obtain ⟨absent, present⟩ := catalogue_found sampleShelf_catalogue
  obtain ⟨located, _, _, tagged⟩ := present [_] _ [] rfl (by decide)
  obtain ⟨data, size, returned, _, length, payload⟩ := tagged [disguised] _ [] rfl (by decide) 0 0
  exact ⟨absent kImage3TypeXmlDeviceTree (by decide), located, data, size, returned, length, payload⟩

end GenericBooter
