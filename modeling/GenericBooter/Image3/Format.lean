import GenericBooter.Image3.Container

namespace GenericBooter

open ByteMemory

theorem flatMap_wordBytes_length (values : List Word) : (values.flatMap wordBytes).length = 4 * values.length := by
  induction values with
  | nil => rfl
  | cons value values ih =>
    rw [List.flatMap_cons, List.length_append, wordBytes_length, ih, List.length_cons]
    omega

/-- A tag; `slack` is what its size counts behind the payload. -/
structure Image3Tag where
  magic : Word
  payload : List Byte
  slack : List Byte

namespace Image3Tag

def size (tag : Image3Tag) : Nat := 12 + (tag.payload.length + tag.slack.length)

def header (tag : Image3Tag) : List Word :=
  [tag.magic, BitVec.ofNat 32 tag.size, BitVec.ofNat 32 tag.payload.length]

def bytes (tag : Image3Tag) : List Byte := tag.header.flatMap wordBytes ++ (tag.payload ++ tag.slack)

theorem bytes_length (tag : Image3Tag) : tag.bytes.length = tag.size := by
  rw [bytes, List.length_append, flatMap_wordBytes_length, List.length_append]
  rfl

end Image3Tag

/-- A whole file. Nothing is asked of the two fields that the booter does not look at. -/
structure Image3File where
  dataSize : Word
  shshOffset : Word
  imageType : Word
  tags : List Image3Tag

namespace Image3File

def size (image : Image3File) : Nat := 20 + (image.tags.map Image3Tag.size).sum

def header (image : Image3File) : List Word :=
  [kImage3Magic, BitVec.ofNat 32 image.size, image.dataSize, image.shshOffset, image.imageType]

def bytes (image : Image3File) : List Byte :=
  image.header.flatMap wordBytes ++ image.tags.flatMap Image3Tag.bytes

theorem tags_length (tags : List Image3Tag) :
    (tags.flatMap Image3Tag.bytes).length = (tags.map Image3Tag.size).sum := by
  rw [List.length_flatMap]
  exact congrArg List.sum (List.map_congr_left fun tag _ => tag.bytes_length)

theorem bytes_length (image : Image3File) : image.bytes.length = image.size := by
  rw [bytes, List.length_append, flatMap_wordBytes_length, tags_length]
  rfl

end Image3File

def Placed (m : Memory) (base : Word) (bytes : List Byte) : Prop := read m base bytes.length = bytes

instance (m : Memory) (base : Word) (bytes : List Byte) : Decidable (Placed m base bytes) :=
  inferInstanceAs (Decidable (_ = _))

namespace Placed

variable {m : Memory} {base : Word} {first second : List Byte}

theorem append_iff : Placed m base (first ++ second) ↔
    Placed m base first ∧ Placed m (base + BitVec.ofNat 32 first.length) second := by
  unfold Placed
  rw [List.length_append, read_append]
  constructor
  · intro placed
    exact List.append_inj placed (read_length _ _ _)
  · rintro ⟨here, later⟩
    rw [here, later]

theorem word {value : Word} (placed : Placed m base (wordBytes value)) : load32 m base = value := by
  have bytes : ByteMemory.read m base 4 = wordBytes value := placed
  simp only [ByteMemory.read, List.range_succ, List.range_zero, List.nil_append, List.cons_append, List.map_cons, List.map_nil,
    wordBytes, List.cons.injEq] at bytes
  obtain ⟨first, second, third, fourth, _⟩ := bytes
  have start : base + BitVec.ofNat 32 0 = base := BitVec.add_zero base
  rw [start] at first
  change m (base + 1) = _ at second
  change m (base + 2) = _ at third
  change m (base + 3) = _ at fourth
  rw [load32, first, second, third, fourth, joinWord_wordBytes]

theorem words {values : List Word} (placed : Placed m base (values.flatMap wordBytes)) {i : Nat} {value : Word}
    (found : values[i]? = some value) : load32 m (base + BitVec.ofNat 32 (4 * i)) = value := by
  induction values generalizing base i with
  | nil => cases found
  | cons first values ih =>
    rw [List.flatMap_cons] at placed
    obtain ⟨here, later⟩ := append_iff.mp placed
    cases i with
    | zero =>
      obtain rfl : first = value := Option.some.inj found
      exact (congrArg (load32 m) (BitVec.add_zero base)).trans here.word
    | succ i =>
      have place := ih later found
      rw [wordBytes_length, add_ofNat, show 4 + 4 * i = 4 * (i + 1) by omega] at place
      exact place

theorem first_word {value : Word} {values : List Word} (placed : Placed m base ((value :: values).flatMap wordBytes)) :
    load32 m base = value := by
  rw [List.flatMap_cons] at placed
  exact (append_iff.mp placed).1.word

end Placed

section Headers

variable {m : Memory} {base : Word}

theorem Image3Tag.placed {tag : Image3Tag} (placed : Placed m base tag.bytes) :
    Image3Header.magic m base = tag.magic ∧ Image3Header.size m base = BitVec.ofNat 32 tag.size ∧
      Image3Header.dataSize m base = BitVec.ofNat 32 tag.payload.length ∧
        Placed m (base + Image3Header.bytes) tag.payload := by
  obtain ⟨header, body⟩ := Placed.append_iff.mp placed
  exact ⟨header.first_word, header.words (i := 1) rfl, header.words (i := 2) rfl, (Placed.append_iff.mp body).1⟩

theorem Image3File.placed {image : Image3File} (placed : Placed m base image.bytes) :
    Image3Header.magic m base = kImage3Magic ∧ Image3Header.size m base = BitVec.ofNat 32 image.size ∧
      Image3RootHeader.imageType m base = image.imageType ∧
        Placed m (base + Image3RootHeader.bytes) (image.tags.flatMap Image3Tag.bytes) := by
  obtain ⟨header, tags⟩ := Placed.append_iff.mp placed
  exact ⟨header.first_word, header.words (i := 1) rfl, header.words (i := 4) rfl, tags⟩

end Headers

end GenericBooter
