import GenericBooter.Machine.Memory
import GenericBooter.Machine.Stop

namespace GenericBooter

/-- `'Img3'`. -/
def kImage3Magic : Word := 0x496d6733
/-- `'krnl'`. -/
def kImage3TypeKernel : Word := 0x6b726e6c
/-- `'xmdt'`. -/
def kImage3TypeXmlDeviceTree : Word := 0x786d6474
/-- `'rdsk'`, spelt out where it is used. -/
def kImage3TypeRamdisk : Word := 0x7264736b
/-- `'DATA'`. -/
def kImage3TagData : Word := 0x44415441

namespace Image3Header

def magic (m : Memory) (header : Word) : Word := load32 m header
def size (m : Memory) (header : Word) : Word := load32 m (header + 4)
def dataSize (m : Memory) (header : Word) : Word := load32 m (header + 8)
def bytes : Word := 12

end Image3Header

namespace Image3RootHeader

def imageType (m : Memory) (root : Word) : Word := load32 m (root + 16)
def bytes : Word := 20

end Image3RootHeader

/-- There are only 2^32 places for `img3`, so a walk of that many rounds never ends. -/
def getImage3From (m : Memory) (type : Word) : Nat → Word → Except Stop Word
  | 0, _ => .error .diverges
  | left + 1, img3 =>
    if img3 = 0 then .ok 0
    else if Image3Header.magic m img3 ≠ kImage3Magic then .ok 0
    else if Image3RootHeader.imageType m img3 = type then .ok img3
    else getImage3From m type left (img3 + Image3Header.size m img3)

/-- The images lie one after another from `__end` on; 0 is the null pointer. -/
def getImage3 (m : Memory) (imagesEnd type : Word) : Except Stop Word :=
  getImage3From m type (2 ^ 32) imagesEnd

def image3FindTagFrom (m : Memory) (image findTag : Word) : Nat → Word → Except Stop Word
  | 0, _ => .error .diverges
  | left + 1, tag =>
    if Image3Header.magic m tag = findTag then .ok tag
    else
      let next := tag + Image3Header.size m tag
      if Image3Header.size m image < next - image then .ok 0
      else image3FindTagFrom m image findTag left next

def image3FindTag (m : Memory) (image findTag : Word) : Except Stop Word :=
  image3FindTagFrom m image findTag (2 ^ 32) (image + Image3RootHeader.bytes)

structure TagData where
  found : Bool
  data : Word
  size : Word
deriving DecidableEq, Repr

def image3GetTagData (m : Memory) (image tag outData outSize : Word) : Except Stop TagData := do
  let imageTag ← image3FindTag m image tag
  if imageTag ≠ 0 then
    .ok ⟨true, imageTag + Image3Header.bytes, Image3Header.dataSize m imageTag⟩
  else .ok ⟨false, outData, outSize⟩

def imageBytes (type : Word) (data : List Byte) : List Byte :=
  [kImage3Magic, BitVec.ofNat 32 (32 + data.length), BitVec.ofNat 32 (12 + data.length), 0, type, kImage3TagData,
    BitVec.ofNat 32 (12 + data.length), BitVec.ofNat 32 data.length].flatMap wordBytes ++ data

end GenericBooter
