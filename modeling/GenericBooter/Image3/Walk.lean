import GenericBooter.Image3.Format
import GenericBooter.Library.Search

namespace GenericBooter

open ByteMemory Search

instance : Finite Word := Finite.of_equiv _ BitVec.equivFin.toEquiv.symm

theorem card_word : Nat.card Word = 2 ^ 32 := by
  rw [Nat.card_congr BitVec.equivFin.toEquiv, Nat.card_fin]

def ended : Option Word → Except Stop Word
  | some result => .ok result
  | none => .error .diverges

def imageStop (m : Memory) (type img3 : Word) : Option Word :=
  if img3 = 0 then some 0
  else if Image3Header.magic m img3 ≠ kImage3Magic then some 0
  else if Image3RootHeader.imageType m img3 = type then some img3
  else none

def imageNext (m : Memory) (img3 : Word) : Word := img3 + Image3Header.size m img3

/-- What a round of `image3_find_tag` returns, if anything. -/
def tagStop (m : Memory) (image findTag tag : Word) : Option Word :=
  if Image3Header.magic m tag = findTag then some tag
  else if Image3Header.size m image < tag + Image3Header.size m tag - image then some 0
  else none

def tagNext (m : Memory) (tag : Word) : Word := tag + Image3Header.size m tag

theorem getImage3From_search (m : Memory) (type : Word) (left : Nat) (img3 : Word) :
    getImage3From m type left img3 = ended (search (imageStop m type) (imageNext m) left img3) := by
  induction left generalizing img3 with
  | zero => rfl
  | succ left ih =>
    rw [getImage3From, search, imageStop]
    by_cases null : img3 = 0
    · rw [if_pos null, if_pos null]
      rfl
    · rw [if_neg null, if_neg null]
      by_cases magic : Image3Header.magic m img3 ≠ kImage3Magic
      · rw [if_pos magic, if_pos magic]
        rfl
      · rw [if_neg magic, if_neg magic]
        by_cases found : Image3RootHeader.imageType m img3 = type
        · rw [if_pos found, if_pos found]
          rfl
        · rw [if_neg found, if_neg found]
          exact ih _

theorem image3FindTagFrom_search (m : Memory) (image findTag : Word) (left : Nat) (tag : Word) :
    image3FindTagFrom m image findTag left tag =
      ended (search (tagStop m image findTag) (tagNext m) left tag) := by
  induction left generalizing tag with
  | zero => rfl
  | succ left ih =>
    rw [image3FindTagFrom, search, tagStop]
    by_cases found : Image3Header.magic m tag = findTag
    · rw [if_pos found, if_pos found]
      rfl
    · rw [if_neg found, if_neg found]
      by_cases leaves : Image3Header.size m image < tag + Image3Header.size m tag - image
      · simp only [if_pos leaves]
        rfl
      · simp only [if_neg leaves]
        exact ih _

theorem ended_eq_ok {result : Option Word} {a : Word} : ended result = .ok a ↔ result = some a := by
  cases result with
  | none => exact ⟨fun absurd => (by cases absurd), fun absurd => (by cases absurd)⟩
  | some b => exact ⟨fun same => congrArg some (Except.ok.inj same), fun same => congrArg Except.ok (Option.some.inj same)⟩

theorem getImage3_iff (m : Memory) (imagesEnd type a : Word) :
    getImage3 m imagesEnd type = .ok a ↔ Answers (imageStop m type) (imageNext m) imagesEnd a := by
  rw [getImage3, getImage3From_search, ended_eq_ok, ← card_word, search_card_iff]

theorem image3FindTag_iff (m : Memory) (image findTag a : Word) : image3FindTag m image findTag = .ok a ↔
    Answers (tagStop m image findTag) (tagNext m) (image + Image3RootHeader.bytes) a := by
  rw [image3FindTag, image3FindTagFrom_search, ended_eq_ok, ← card_word, search_card_iff]

end GenericBooter
