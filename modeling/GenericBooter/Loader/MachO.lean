import GenericBooter.Machine.Region

namespace GenericBooter

open ByteMemory

structure LoaderContext where
  source : Word
  loadAddr : Word
  entry : Word
  vmBias : Word
  vmSize : Word
deriving DecidableEq, Repr

inductive LoaderReturn where
  | kLoadSuccess
  | kLoadBadImage
  | kLoadInvalidParameter
deriving DecidableEq, Repr

def kMachMagic : Word := 0xfeedface
def kMachExecute : Word := 2
def kLoadCommandSegment : Word := 1
def kLoadCommandUnixThread : Word := 5

namespace MachHeader

def magic (m : Memory) (header : Word) : Word := load32 m header
def filetype (m : Memory) (header : Word) : Word := load32 m (header + 12)
def ncmds (m : Memory) (header : Word) : Word := load32 m (header + 16)
def size : Word := 28

end MachHeader

namespace LoadCommand

def cmd (m : Memory) (lc : Word) : Word := load32 m lc
def cmdsize (m : Memory) (lc : Word) : Word := load32 m (lc + 4)

end LoadCommand

namespace SegmentCommand

def vmaddr (m : Memory) (sc : Word) : Word := load32 m (sc + 24)
def vmsize (m : Memory) (sc : Word) : Word := load32 m (sc + 28)
def fileoff (m : Memory) (sc : Word) : Word := load32 m (sc + 32)
def filesize (m : Memory) (sc : Word) : Word := load32 m (sc + 36)

end SegmentCommand

def ThreadCommand.pc (m : Memory) (tc : Word) : Word := load32 m (tc + 76)

def machoInitialize (m : Memory) (ctx : LoaderContext) (file : Word) : LoaderReturn × LoaderContext :=
  if file = 0 then (.kLoadInvalidParameter, ctx)
  else if MachHeader.magic m file ≠ kMachMagic then (.kLoadBadImage, ctx)
  else if MachHeader.filetype m file ≠ kMachExecute then (.kLoadBadImage, ctx)
  else (.kLoadSuccess, { ctx with source := file })

def machoSetVmBias (ctx : LoaderContext) (vmaddr : Word) : LoaderReturn × LoaderContext :=
  (.kLoadSuccess, { ctx with vmBias := vmaddr })

def machoGetEntrypoint (ctx : LoaderContext) : LoaderReturn × Word :=
  (.kLoadSuccess, ctx.entry)

section

variable {σ : Type*} (memory : σ → Memory) (body : Word → σ → σ) (head : Word)

/-- `left` counts the values the 32-bit `XXi` has not taken yet. `ncmds` and `cmdsize` are
    loaded afresh on every round, from memory the body may have changed. -/
def forEachLcFrom : Nat → Nat → Word → σ → σ
  | 0, _, _, s => s
  | left + 1, i, lc, s =>
    if i < (MachHeader.ncmds (memory s) head).toNat then
      forEachLcFrom left (i + 1) (lc + LoadCommand.cmdsize (memory (body lc s)) lc) (body lc s)
    else s

def forEachLc (s : σ) : σ :=
  forEachLcFrom memory body head (2 ^ 32) 0 (head + MachHeader.size) s

def lcVisitsFrom : Nat → Nat → Word → σ → List (Word × σ)
  | 0, _, _, _ => []
  | left + 1, i, lc, s =>
    if i < (MachHeader.ncmds (memory s) head).toNat then
      (lc, s) :: lcVisitsFrom left (i + 1) (lc + LoadCommand.cmdsize (memory (body lc s)) lc) (body lc s)
    else []

def lcVisits (s : σ) : List (Word × σ) :=
  lcVisitsFrom memory body head (2 ^ 32) 0 (head + MachHeader.size) s

end

def vmsizeBody (m : Memory) (lc total : Word) : Word :=
  if LoadCommand.cmd m lc = kLoadCommandSegment then total + SegmentCommand.vmsize m lc else total

def machoGetVmsize (m : Memory) (ctx : LoaderContext) : Word :=
  forEachLc (fun _ => m) (vmsizeBody m) ctx.source 0

abbrev LoaderState := LoaderContext × Machine

def fileMapBody (loadaddr vmBias lc : Word) (s : LoaderState) : LoaderState :=
  let m := s.2.memory
  if LoadCommand.cmd m lc = kLoadCommandSegment then
    let ourVmaddr := SegmentCommand.vmaddr m lc - vmBias
    if SegmentCommand.filesize m lc ≠ 0 then
      (s.1, s.2.bcopy (s.1.source + SegmentCommand.fileoff m lc) (loadaddr + ourVmaddr)
        (SegmentCommand.filesize m lc))
    else s
  else if LoadCommand.cmd m lc = kLoadCommandUnixThread then
    ({ s.1 with entry := ThreadCommand.pc m lc }, s.2)
  else s

def machoFileMap (loadaddr : Word) (s : LoaderState) : LoaderReturn × LoaderState :=
  (.kLoadSuccess,
    forEachLc (fun s => s.2.memory) (fileMapBody loadaddr s.1.vmBias) s.1.source s)

/-- The load commands of a file that nothing overwrites. -/
def loadCommandsFrom (m : Memory) : Nat → Word → List Word
  | 0, _ => []
  | count + 1, lc => lc :: loadCommandsFrom m count (lc + LoadCommand.cmdsize m lc)

def loadCommands (m : Memory) (file : Word) : List Word :=
  loadCommandsFrom m (MachHeader.ncmds m file).toNat (file + MachHeader.size)

def commandBytes (m : Memory) (lc : Word) : Nat :=
  if LoadCommand.cmd m lc = kLoadCommandSegment then 56
  else if LoadCommand.cmd m lc = kLoadCommandUnixThread then 84
  else 8

theorem eight_le_commandBytes (m : Memory) (lc : Word) : 8 ≤ commandBytes m lc := by
  unfold commandBytes
  split_ifs <;> decide

theorem field_congr {m m' : Memory} {address : Word} {length : Nat} (field : Nat)
    (same : ∀ i < length, m (address + BitVec.ofNat 32 i) = m' (address + BitVec.ofNat 32 i))
    (bound : field + 4 ≤ length) :
    load32 m (address + BitVec.ofNat 32 field) = load32 m' (address + BitVec.ofNat 32 field) := by
  apply load32_congr
  intro i small
  rw [add_ofNat]
  exact same (field + i) (by omega)

section

variable {m m' : Memory} {lc : Word}

theorem cmd_congr {length : Nat} (bound : 8 ≤ length)
    (same : ∀ i < length, m (lc + BitVec.ofNat 32 i) = m' (lc + BitVec.ofNat 32 i)) :
    LoadCommand.cmd m lc = LoadCommand.cmd m' lc ∧
      LoadCommand.cmdsize m lc = LoadCommand.cmdsize m' lc :=
  ⟨load32_congr fun i small => same i (by omega), field_congr 4 same (by omega)⟩

structure SameSegment (m m' : Memory) (lc : Word) : Prop where
  vmaddr : SegmentCommand.vmaddr m lc = SegmentCommand.vmaddr m' lc
  vmsize : SegmentCommand.vmsize m lc = SegmentCommand.vmsize m' lc
  fileoff : SegmentCommand.fileoff m lc = SegmentCommand.fileoff m' lc
  filesize : SegmentCommand.filesize m lc = SegmentCommand.filesize m' lc

theorem segment_congr (segment : LoadCommand.cmd m' lc = kLoadCommandSegment)
    (same : ∀ i < commandBytes m' lc, m (lc + BitVec.ofNat 32 i) = m' (lc + BitVec.ofNat 32 i)) :
    SameSegment m m' lc := by
  rw [commandBytes, if_pos segment] at same
  exact ⟨field_congr 24 same (by decide), field_congr 28 same (by decide),
    field_congr 32 same (by decide), field_congr 36 same (by decide)⟩

theorem thread_congr (thread : LoadCommand.cmd m' lc = kLoadCommandUnixThread)
    (same : ∀ i < commandBytes m' lc, m (lc + BitVec.ofNat 32 i) = m' (lc + BitVec.ofNat 32 i)) :
    ThreadCommand.pc m lc = ThreadCommand.pc m' lc := by
  have other : LoadCommand.cmd m' lc ≠ kLoadCommandSegment := by
    rw [thread]
    decide
  rw [commandBytes, if_neg other, if_pos thread] at same
  exact field_congr 76 same (by decide)

end

end GenericBooter
