import GenericBooter.Boot.CommandLine
import GenericBooter.Boot.Main
import GenericBooter.Image3.Walk

namespace GenericBooter

open ByteMemory

def ATAG_NONE : Word := 0
def ATAG_CORE : Word := 0x54410001
def ATAG_MEM : Word := 0x54410002
def ATAG_INITRD2 : Word := 0x54420005
def ATAG_CMDLINE : Word := 0x54410009

def MACH_TYPE_REALVIEW_PBA8 : Word := 1897

namespace Atag

def size (m : Memory) (atag : Word) : Word := load32 m atag
def tag (m : Memory) (atag : Word) : Word := load32 m (atag + 4)

end Atag

namespace AtagMem

def size (m : Memory) (atag : Word) : Word := load32 m (Atag.payload atag)
def start (m : Memory) (atag : Word) : Word := load32 m (Atag.payload atag + 4)

end AtagMem

namespace AtagInitrd2

def start (m : Memory) (atag : Word) : Word := load32 m (Atag.payload atag)
def size (m : Memory) (atag : Word) : Word := load32 m (Atag.payload atag + 4)

end AtagInitrd2

structure MainState extends CoreStart where
  isFirstRamdisk : Bool

def MainState.memory (main : MainState) : Memory := main.booter.platform.machine.memory

def strncpyBytes : List Byte → Nat → List Byte
  | _, 0 => [0]
  | [], _ + 1 => []
  | c :: s2, n + 1 => if c = 0 then [c] else c :: strncpyBytes s2 n

def overlay {length : Nat} (field : Vector Byte length) (data : List Byte) : Vector Byte length :=
  Vector.ofFn fun i => data[i.val]?.getD field[i]

def overwrite {length : Nat} (field : Vector Byte length) (data : List Byte) : Except Stop (Vector Byte length) :=
  if data.length ≤ length then .ok (overlay field data) else .error .bounds

def MainState.withCommandLine (main : MainState) (commandLine : Vector Byte kBootLineLength) : MainState :=
  { main with booter := { main.booter with bootArgs := { main.booter.bootArgs with commandLine := commandLine } } }

/-- `populate_commandline_info` on the structure as a value; a copy that leaves the field is out of bounds. -/
def populateCommandLine (cmdline : List Byte) (main : MainState) : Except Stop MainState :=
  if cmdline.length = 1 then .ok main
  else do
    let commandLine ← overwrite main.booter.bootArgs.commandLine (strncpyBytes cmdline kBootLineLength)
    .ok (main.withCommandLine commandLine)

def populateRamdiskInfo (start size : Word) (main : MainState) : MainState :=
  if main.isFirstRamdisk then main
  else { main with
    isFirstRamdisk := true
    booter := { main.booter with ramdiskBase := start, ramdiskSize := size } }

def populateAtag (tag atag : Word) (main : MainState) : Except Stop MainState :=
  if tag = ATAG_MEM then do
    let core ← populateMemoryInfo (AtagMem.start main.memory atag) (AtagMem.size main.memory atag) main.toCoreStart
    .ok { main with toCoreStart := core }
  else if tag = ATAG_CMDLINE then do
    let cmdline ← stringAt main.memory (Atag.payload atag)
    populateCommandLine cmdline main
  else if tag = ATAG_INITRD2 then
    .ok (populateRamdiskInfo (AtagInitrd2.start main.memory atag) (AtagInitrd2.size main.memory atag) main)
  else .ok main

/-- `tag` is the one that the test of the loop sees, the one before; its body loads the tag anew. The size is loaded
    after the `switch`, when `malloc_init` may have written over it. -/
def walkAtagsFrom : Nat → Word → Word → MainState → Except Stop MainState
  | 0, _, _, _ => .error .diverges
  | left + 1, tag, atag, main =>
    if tag = ATAG_NONE then .ok main
    else do
      let tag := Atag.tag main.memory atag
      let main ← populateAtag tag atag main
      walkAtagsFrom left tag (atag + 4 * Atag.size main.memory atag) main

/-- There are 2^32 places for a tag before `malloc_init` and 2^32 after it, and at most one round more before a test. -/
def walkAtags (atags : Word) (main : MainState) : Except Stop MainState :=
  walkAtagsFrom (2 ^ 33 + 1) (Atag.tag main.memory atags) atags main

def BootArgs.zero : BootArgs :=
  ⟨0, 0, 0, 0, 0, 0, ⟨0, 0, 0, 0, 0, 0⟩, 0, 0, 0, Vector.replicate kBootLineLength 0⟩

def MainState.cleared (main : MainState) : MainState :=
  { main with booter := { main.booter with bootArgs := BootArgs.zero } }

/-- Ends where `start_darwin` does. On another machine `_locore_halt_system` loops for ever. `gBootArgs` is state of its
    own, apart from the list. -/
def corestartMain (locals : DarwinLocals) (machineType atags : Word) (main : MainState) :
    Except Stop (Word × Booter) :=
  if machineType ≠ MACH_TYPE_REALVIEW_PBA8 then .error .diverges
  else do
    let main ← walkAtags atags main.cleared
    if main.isMallocInited then startDarwin locals main.booter else .error .panic

inductive AtagEntry where
  | mem (start size : Word)
  | cmdline (line : CString)
  | initrd2 (start size : Word)
  | other

def AtagEntry.At (m : Memory) (atag : Word) : AtagEntry → Prop
  | .mem start size => Atag.tag m atag = ATAG_MEM ∧ AtagMem.start m atag = start ∧ AtagMem.size m atag = size
  | .cmdline line => Atag.tag m atag = ATAG_CMDLINE ∧ stringAt m (Atag.payload atag) = .ok line.bytes
  | .initrd2 start size =>
    Atag.tag m atag = ATAG_INITRD2 ∧ AtagInitrd2.start m atag = start ∧ AtagInitrd2.size m atag = size
  | .other => Atag.tag m atag ≠ ATAG_NONE ∧ Atag.tag m atag ≠ ATAG_MEM ∧ Atag.tag m atag ≠ ATAG_CMDLINE ∧
    Atag.tag m atag ≠ ATAG_INITRD2

inductive AtagList (m : Memory) : Word → List AtagEntry → Prop
  | ended {atag : Word} (ends : Atag.tag m atag = ATAG_NONE) : AtagList m atag []
  | entry {atag : Word} {e : AtagEntry} {later : List AtagEntry} (held : e.At m atag)
    (words : 2 ≤ (Atag.size m atag).toNat) (rest : AtagList m (atag + 4 * Atag.size m atag) later) :
    AtagList m atag (e :: later)

structure WellFormedAtags (m : Memory) (atags : Word) (entries : List AtagEntry) : Prop where
  core : Atag.tag m atags = ATAG_CORE
  list : AtagList m atags entries
  lines : ∀ line, .cmdline line ∈ entries → line.chars.length < kBootLineLength

def AtagEntry.length : AtagEntry → Nat
  | .cmdline line => 8 + line.bytes.length
  | .other => 8
  | _ => 16

def ListApart (m : Memory) (pool : Word → Prop) : Word → List AtagEntry → Prop
  | atag, [] => ∀ address, Covers atag 8 address → ¬ pool address
  | atag, e :: later => (∀ address, Covers atag e.length address → ¬ pool address) ∧
    ListApart m pool (atag + 4 * Atag.size m atag) later

/-- What the walk looks at after `malloc_init` is outside of the pool: the size of the first region's entry, and the
    entries behind it. -/
def RegionApart (m : Memory) : Word → List AtagEntry → Prop
  | _, [] => True
  | atag, .mem start size :: later => (∀ address, Covers atag 4 address → ¬ InPool start size address) ∧
    ListApart m (InPool start size) (atag + 4 * Atag.size m atag) later
  | atag, _ :: later => RegionApart m (atag + 4 * Atag.size m atag) later

def MainState.enterLine (line : CString) (main : MainState) : MainState :=
  if line.chars = [] then main else main.withCommandLine (overlay main.booter.bootArgs.commandLine line.bytes)

def AtagEntry.enter (main : MainState) : AtagEntry → Except Stop MainState
  | .mem start size => do
    let core ← populateMemoryInfo start size main.toCoreStart
    .ok { main with toCoreStart := core }
  | .cmdline line => .ok (main.enterLine line)
  | .initrd2 start size => .ok (populateRamdiskInfo start size main)
  | .other => .ok main

def AtagEntry.mem? : AtagEntry → Option (Word × Word)
  | .mem start size => some (start, size)
  | _ => none

def AtagEntry.initrd2? : AtagEntry → Option (Word × Word)
  | .initrd2 start size => some (start, size)
  | _ => none

def AtagEntry.line? : AtagEntry → Option CString
  | .cmdline line => if line.chars = [] then none else some line
  | _ => none

def firstMem (entries : List AtagEntry) : Option (Word × Word) := entries.findSome? AtagEntry.mem?
def firstInitrd2 (entries : List AtagEntry) : Option (Word × Word) := entries.findSome? AtagEntry.initrd2?
def lastLine (entries : List AtagEntry) : Option CString := entries.reverse.findSome? AtagEntry.line?

theorem strncpyBytes_eq {chars : List Byte} (noNul : 0 ∉ chars) (n : Nat) :
    strncpyBytes (chars ++ [0]) n = chars.take n ++ [0] := by
  induction chars generalizing n with
  | nil =>
    cases n with
    | zero => rfl
    | succ n => rfl
  | cons c chars ih =>
    rw [List.mem_cons, not_or] at noNul
    cases n with
    | zero => rfl
    | succ n =>
      rw [List.cons_append, strncpyBytes, if_neg (Ne.symm noNul.1), ih noNul.2, List.take_succ_cons, List.cons_append]

theorem strncpyBytes_line {line : CString} (short : line.chars.length < kBootLineLength) :
    strncpyBytes line.bytes kBootLineLength = line.bytes := by
  rw [CString.bytes, strncpyBytes_eq line.noNul, List.take_of_length_le (Nat.le_of_lt short)]

theorem populateCommandLine_eq {line : CString} (short : line.chars.length < kBootLineLength) (main : MainState) :
    populateCommandLine line.bytes main = .ok (main.enterLine line) := by
  have length := line.bytes_length
  rw [populateCommandLine, MainState.enterLine]
  by_cases empty : line.chars = []
  · have single : line.bytes.length = 1 := by rw [length, empty, List.length_nil]
    rw [if_pos single, if_pos empty]
  · have some_chars := List.length_pos_iff.mpr empty
    rw [if_neg (by omega), if_neg empty, overwrite, strncpyBytes_line short, if_pos (by omega), ok_bind]

theorem populateAtag_eq {main : MainState} {atag : Word} {e : AtagEntry} (held : e.At main.memory atag)
    (short : ∀ line, e = .cmdline line → line.chars.length < kBootLineLength) :
    populateAtag (Atag.tag main.memory atag) atag main = e.enter main := by
  cases e with
  | mem start size =>
    obtain ⟨tag, rfl, rfl⟩ := held
    rw [populateAtag, if_pos tag]
    rfl
  | cmdline line =>
    obtain ⟨tag, given⟩ := held
    rw [populateAtag, tag, if_neg (by decide), if_pos rfl, given, ok_bind, populateCommandLine_eq (short line rfl)]
    rfl
  | initrd2 start size =>
    obtain ⟨tag, rfl, rfl⟩ := held
    rw [populateAtag, tag, if_neg (by decide), if_neg (by decide), if_pos rfl]
    rfl
  | other =>
    obtain ⟨_, mem, cmdline, initrd2⟩ := held
    rw [populateAtag, if_neg mem, if_neg cmdline, if_neg initrd2]
    rfl

theorem AtagEntry.At.tag_ne {m : Memory} {atag : Word} {e : AtagEntry} (held : e.At m atag) :
    Atag.tag m atag ≠ ATAG_NONE := by
  cases e with
  | mem start size =>
    rw [held.1]
    decide
  | cmdline line =>
    rw [held.1]
    decide
  | initrd2 start size =>
    rw [held.1]
    decide
  | other => exact held.1

section Memories

variable {m m' : Memory} {atag : Word} {e : AtagEntry} {length : Nat}

theorem load32_same (same : ∀ address, Covers atag length address → m' address = m address) {offset : Nat}
    (inside : offset + 4 ≤ length) (room : length ≤ 2 ^ 32) :
    load32 m' (atag + BitVec.ofNat 32 offset) = load32 m (atag + BitVec.ofNat 32 offset) := by
  apply load32_congr
  intro i small
  apply same
  rw [add_ofNat, covers_add _ _ _ (by omega)]
  omega

theorem size_same (same : ∀ address, Covers atag 4 address → m' address = m address) :
    Atag.size m' atag = Atag.size m atag := by
  have word := load32_same same (by decide : 0 + 4 ≤ 4) (by decide)
  rwa [BitVec.add_zero] at word

theorem tag_same (same : ∀ address, Covers atag 8 address → m' address = m address) :
    Atag.tag m' atag = Atag.tag m atag :=
  load32_same same (by decide : 4 + 4 ≤ 8) (by decide)

theorem words_same (same : ∀ address, Covers atag 16 address → m' address = m address) :
    load32 m' (Atag.payload atag) = load32 m (Atag.payload atag) ∧
      load32 m' (Atag.payload atag + 4) = load32 m (Atag.payload atag + 4) := by
  have second : Atag.payload atag + 4 = atag + BitVec.ofNat 32 12 := add_ofNat atag 8 4
  rw [second]
  refine ⟨load32_same same ?_ (by decide), load32_same same ?_ (by decide)⟩
  · decide
  · decide

theorem covers_less {address : Word} {shorter : Nat} (less : shorter ≤ length)
    (covered : Covers atag shorter address) : Covers atag length address := Nat.lt_of_lt_of_le covered less

theorem AtagEntry.header_le (e : AtagEntry) : 8 ≤ e.length := by
  cases e <;> simp [AtagEntry.length]

theorem AtagEntry.At.same (held : e.At m atag)
    (same : ∀ address, Covers atag e.length address → m' address = m address)
    (short : ∀ line, e = .cmdline line → line.chars.length < kBootLineLength) : e.At m' atag := by
  have tag := tag_same fun address covered => same address (covers_less e.header_le covered)
  cases e with
  | mem start size =>
    obtain ⟨known, first, second⟩ := held
    obtain ⟨word, word'⟩ := words_same same
    exact ⟨tag.trans known, word'.trans first, word.trans second⟩
  | cmdline line =>
    obtain ⟨known, given⟩ := held
    have small := short line rfl
    have length := line.bytes_length
    have limit : kBootLineLength = 256 := rfl
    have text := (stringFrom_read given).1
    refine ⟨tag.trans known, stringFrom_of_read line.noNul ?_ (by omega)⟩
    rw [← length]
    refine (read_congr _ _ _ _ fun i less => ?_).trans text.symm
    apply same
    rw [Atag.payload, show (8 : Word) = BitVec.ofNat 32 8 from rfl, add_ofNat, covers_add _ _ _ (by omega),
      AtagEntry.length]
    omega
  | initrd2 start size =>
    obtain ⟨known, first, second⟩ := held
    obtain ⟨word, word'⟩ := words_same same
    exact ⟨tag.trans known, word.trans first, word'.trans second⟩
  | other =>
    rw [AtagEntry.At, tag]
    exact held

end Memories

/-- The walk over `entries`, each of them read from the memory that the ones before have left. -/
inductive Walks : Word → List AtagEntry → MainState → MainState → Prop
  | ended {atag : Word} {main : MainState} (ends : Atag.tag main.memory atag = ATAG_NONE) : Walks atag [] main main
  | entry {atag : Word} {e : AtagEntry} {later : List AtagEntry} {main main' main'' : MainState}
    (held : e.At main.memory atag) (short : ∀ line, e = .cmdline line → line.chars.length < kBootLineLength)
    (entered : e.enter main = .ok main') (rest : Walks (atag + 4 * Atag.size main'.memory atag) later main' main'') :
    Walks atag (e :: later) main main''

section Walking

variable {m : Memory} {atag : Word} {entries : List AtagEntry} {main main' : MainState} {e : AtagEntry}

theorem Walks.reaches (walks : Walks atag entries main main') {left : Nat} (enough : entries.length + 2 ≤ left)
    {tag : Word} (before : tag ≠ ATAG_NONE) : walkAtagsFrom left tag atag main = .ok main' := by
  induction walks generalizing left tag with
  | @ended atag main ends =>
    obtain ⟨left, rfl⟩ := Nat.exists_eq_add_of_le' enough
    have skipped : populateAtag ATAG_NONE atag main = .ok main := rfl
    rw [List.length_nil, walkAtagsFrom, if_neg before]
    simp only
    rw [ends, skipped, ok_bind, walkAtagsFrom, if_pos rfl]
  | @entry atag e later main main₁ _ held short entered rest ih =>
    rw [List.length_cons] at enough
    obtain ⟨left, rfl⟩ := Nat.exists_eq_add_of_le' (Nat.le_trans (Nat.le_add_left 1 _) enough)
    rw [walkAtagsFrom, if_neg before]
    simp only
    rw [populateAtag_eq held short, entered, ok_bind]
    exact ih (by omega) held.tag_ne

theorem Walks.folds (walks : Walks atag entries main main') : entries.foldlM AtagEntry.enter main = .ok main' := by
  induction walks with
  | ended => rfl
  | entry _ _ entered _ ih => rw [List.foldlM_cons, entered, ok_bind, ih]

theorem AtagEntry.enter_plain (plain : e.mem? = none ∨ main.isFirstRegion = true) :
    ∃ main', e.enter main = .ok main' ∧ main'.heap = main.heap ∧ main'.isFirstRegion = main.isFirstRegion := by
  cases e with
  | mem start size =>
    have again := plain.resolve_left (Option.some_ne_none _)
    rw [AtagEntry.enter, populateMemoryInfo_again again]
    exact ⟨_, rfl, rfl, rfl⟩
  | cmdline line =>
    refine ⟨_, rfl, ?_⟩
    rw [MainState.enterLine]
    split
    · exact ⟨rfl, rfl⟩
    · generalize overlay main.booter.bootArgs.commandLine line.bytes = commandLine
      exact ⟨rfl, rfl⟩
  | initrd2 start size =>
    refine ⟨_, rfl, ?_⟩
    rw [populateRamdiskInfo]
    split
    · exact ⟨rfl, rfl⟩
    · exact ⟨rfl, rfl⟩
  | other => exact ⟨main, rfl, rfl, rfl⟩

theorem short_cons {later : List AtagEntry}
    (short : ∀ line, .cmdline line ∈ e :: later → line.chars.length < kBootLineLength) :
    (∀ line, e = .cmdline line → line.chars.length < kBootLineLength) ∧
      ∀ line, .cmdline line ∈ later → line.chars.length < kBootLineLength :=
  ⟨fun line equal => short line (equal ▸ List.mem_cons_self),
    fun line member => short line (List.mem_cons_of_mem _ member)⟩

theorem AtagList.walks_again {pool : Word → Prop} (list : AtagList m atag entries)
    (apart : ListApart m pool atag entries) (again : main.isFirstRegion = true)
    (short : ∀ line, .cmdline line ∈ entries → line.chars.length < kBootLineLength)
    (same : ∀ address, ¬ pool address → main.memory address = m address) :
    ∃ main', Walks atag entries main main' := by
  induction list generalizing main with
  | ended ends =>
    refine ⟨main, .ended ?_⟩
    rw [tag_same fun address covered => same address (apart address covered), ends]
  | @entry atag e later held words rest ih =>
    obtain ⟨here, behind⟩ := apart
    have kept (address : Word) (covered : Covers atag e.length address) := same address (here address covered)
    obtain ⟨shortHere, shortLater⟩ := short_cons short
    obtain ⟨main₁, entered, heap, flag⟩ := e.enter_plain (Or.inr again)
    have memory : main₁.memory = main.memory := congrArg Tlsf.Allocator.memory heap
    have size : Atag.size main₁.memory atag = Atag.size m atag := by
      rw [memory]
      exact size_same fun address covered =>
        kept address (covers_less (Nat.le_trans (by decide) e.header_le) covered)
    obtain ⟨main', walks⟩ := ih behind (flag.trans again) shortLater (memory ▸ same)
    exact ⟨main', .entry (held.same kept shortHere) shortHere entered (size ▸ walks)⟩

theorem AtagList.walks (list : AtagList main.memory atag entries) (apart : RegionApart main.memory atag entries)
    (first : main.isFirstRegion = false)
    (short : ∀ line, .cmdline line ∈ entries → line.chars.length < kBootLineLength)
    (accepted : ∀ start size, firstMem entries = some (start, size) → PoolAccepted start size) :
    ∃ main', Walks atag entries main main' := by
  generalize known : main.memory = m at list apart
  induction list generalizing main with
  | ended ends => exact ⟨main, .ended (known ▸ ends)⟩
  | @entry atag e later held words rest ih =>
    obtain ⟨shortHere, shortLater⟩ := short_cons short
    have plain (none : e.mem? = none) (behind : RegionApart m (atag + 4 * Atag.size m atag) later) :
        ∃ main', Walks atag (e :: later) main main' := by
      obtain ⟨main₁, entered, heap, flag⟩ := @AtagEntry.enter_plain main e (Or.inl none)
      have memory : main₁.memory = m := (congrArg Tlsf.Allocator.memory heap).trans known
      have more (start size : Word) (found : firstMem later = some (start, size)) : PoolAccepted start size := by
        apply accepted
        rw [firstMem, List.findSome?_cons, none]
        exact found
      obtain ⟨main', walks⟩ := ih (flag.trans first) shortLater more memory behind
      exact ⟨main', .entry (known ▸ held) shortHere entered (memory ▸ walks)⟩
    cases e with
    | mem start size =>
      obtain ⟨here, behind⟩ := apart
      obtain ⟨core, populated⟩ := populateMemoryInfo_accepts first (accepted start size rfl)
      have kept (address : Word) (outside : ¬ InPool start size address) :
          core.heap.memory address = m address := by
        rw [← known]
        exact populateMemoryInfo_keeps populated outside
      have entered : (AtagEntry.mem start size).enter main = .ok { main with toCoreStart := core } := by
        rw [AtagEntry.enter, populated, ok_bind]
      obtain ⟨_, _, shape⟩ := populateMemoryInfo_first first populated
      have again : core.isFirstRegion = true := by rw [shape]
      have after : ({ main with toCoreStart := core } : MainState).isFirstRegion = true := again
      obtain ⟨main', walks⟩ := rest.walks_again behind after shortLater kept
      have same : Atag.size core.heap.memory atag = Atag.size m atag :=
        size_same fun address covered => kept address (here address covered)
      exact ⟨main', .entry (known ▸ held) shortHere entered (same ▸ walks)⟩
    | cmdline line => exact plain rfl apart
    | initrd2 start size => exact plain rfl apart
    | other => exact plain rfl apart

end Walking

theorem AtagList.length_lt {m : Memory} {atag : Word} {entries : List AtagEntry} (list : AtagList m atag entries) :
    entries.length < 2 ^ 32 := by
  let stop : Word → Option Unit := fun atag => if Atag.tag m atag = ATAG_NONE then some () else none
  let next : Word → Word := fun atag => atag + 4 * Atag.size m atag
  have ends : stop (next^[entries.length] atag) ≠ none ∧ ∀ j < entries.length, stop (next^[j] atag) = none := by
    induction list with
    | ended ends => exact ⟨by simp [stop, ends], fun j none => absurd none (Nat.not_lt_zero j)⟩
    | entry held words rest ih =>
      refine ⟨ih.1, fun j bound => ?_⟩
      cases j with
      | zero => exact if_neg held.tag_ne
      | succ j => exact ih.2 j (Nat.lt_of_succ_lt_succ bound)
  rw [← card_word]
  exact Search.first_answer_bound ends.1 ends.2

theorem overlay_toList {length : Nat} (field : Vector Byte length) {data : List Byte} (room : data.length ≤ length) :
    (overlay field data).toList = data ++ field.toList.drop data.length := by
  apply List.ext_getElem
  · rw [Vector.length_toList, List.length_append, List.length_drop, Vector.length_toList]
    omega
  · intro i bound bound'
    have small : i < length := by rwa [Vector.length_toList] at bound
    have cell : (overlay field data).toList[i] = data[i]?.getD field[i] := by simp [overlay]
    rw [cell]
    by_cases inside : i < data.length
    · rw [List.getElem_append_left inside, List.getElem?_eq_getElem inside, Option.getD_some]
    · rw [List.getElem_append_right (Nat.le_of_not_lt inside), List.getElem?_eq_none (Nat.le_of_not_lt inside),
        Option.getD_none, List.getElem_drop]
      simp [Nat.add_sub_cancel' (Nat.le_of_not_lt inside)]

theorem cString_overlay {length : Nat} (field : Vector Byte length) {line : CString}
    (room : line.bytes.length ≤ length) : cString (overlay field line.bytes).toList = line := by
  apply CString.ext_chars
  rw [overlay_toList field room, CString.bytes, List.append_assoc]
  exact cString_append_zero line.noNul _

def HeapEntered : Option (Word × Word) → Tlsf.Allocator → Tlsf.Allocator → Prop
  | none, heap, heap' => heap' = heap
  | some region, heap, heap' => heap.mallocInit (region.1 + region.2 - kMallocSize) kMallocSize = .ok heap'

/-- What the statics hold after entries of which `mem` is the region, `initrd2` the ramdisk and `line` the line. -/
structure Entered (mem initrd2 : Option (Word × Word)) (line : Option CString) (main main' : MainState) : Prop where
  isFirstRegion : main'.isFirstRegion = mem.isSome
  isMallocInited : main'.isMallocInited = mem.isSome
  isFirstRamdisk : main'.isFirstRamdisk = initrd2.isSome
  region : (main'.booter.bootArgs.physBase, main'.booter.bootArgs.memSize) =
    mem.getD (main.booter.bootArgs.physBase, main.booter.bootArgs.memSize)
  pool : main'.pool = (mem.map fun given => (given.1 + given.2 - kMallocSize, kMallocSize)).getD main.pool
  heap : HeapEntered mem main.heap main'.heap
  ramdisk : (main'.booter.ramdiskBase, main'.booter.ramdiskSize) =
    initrd2.getD (main.booter.ramdiskBase, main.booter.ramdiskSize)
  commandLine : cString main'.booter.bootArgs.commandLine.toList =
    line.getD (cString main.booter.bootArgs.commandLine.toList)
  rest : main'.booter.platform = { main.booter.platform with
      machine := { main.booter.platform.machine with memory := main'.memory } } ∧
    main'.booter.xml = main.booter.xml ∧ main'.booter.dt = main.booter.dt

structure MainState.Fresh (main : MainState) : Prop where
  isFirstRegion : main.isFirstRegion = false
  isMallocInited : main.isMallocInited = false
  isFirstRamdisk : main.isFirstRamdisk = false

section Step

variable {mem initrd2 : Option (Word × Word)} {line : Option CString} {main main₁ main' : MainState}

theorem MainState.Fresh.entered (fresh : main.Fresh) : Entered none none none main main :=
  ⟨fresh.isFirstRegion, fresh.isMallocInited, fresh.isFirstRamdisk, rfl, rfl, rfl, rfl, rfl, rfl, rfl, rfl⟩

theorem Entered.enterMem (entered : Entered mem initrd2 line main main₁) {start size : Word}
    (ran : (AtagEntry.mem start size).enter main₁ = .ok main') :
    Entered (mem.or (some (start, size))) initrd2 line main main' := by
  have flag := entered.isFirstRegion
  obtain ⟨core, populated, result⟩ := bind_eq_ok.mp ran
  obtain rfl := Except.ok.inj result
  cases mem with
  | some given =>
    rw [populateMemoryInfo_again flag] at populated
    obtain rfl := Except.ok.inj populated
    exact entered
  | none =>
    obtain ⟨heap, inited, rfl⟩ := populateMemoryInfo_first flag populated
    have same : main₁.heap = main.heap := entered.heap
    obtain ⟨platform, xml, dt⟩ := entered.rest
    refine ⟨rfl, rfl, entered.isFirstRamdisk, rfl, rfl, ?_, entered.ramdisk, entered.commandLine, ?_, xml, dt⟩
    · rw [same] at inited
      exact inited
    · change { main₁.booter.platform with machine := ⟨heap.memory, main₁.booter.platform.machine.stores⟩ } = _
      rw [platform]
      rfl

theorem Entered.enterInitrd2 (entered : Entered mem initrd2 line main main₁) (start size : Word) :
    Entered mem (initrd2.or (some (start, size))) line main (populateRamdiskInfo start size main₁) := by
  have flag := entered.isFirstRamdisk
  rw [populateRamdiskInfo, flag]
  cases initrd2 with
  | some given => exact entered
  | none =>
    exact ⟨entered.isFirstRegion, entered.isMallocInited, rfl, entered.region, entered.pool, entered.heap, rfl,
      entered.commandLine, entered.rest⟩

theorem Entered.enterCmdline (entered : Entered mem initrd2 line main main₁) {given : CString}
    (short : given.chars.length < kBootLineLength) :
    Entered mem initrd2 ((AtagEntry.cmdline given).line?.or line) main (main₁.enterLine given) := by
  rw [MainState.enterLine, AtagEntry.line?]
  split
  · exact entered
  · have held := cString_overlay main₁.booter.bootArgs.commandLine (by rw [given.bytes_length]; exact short)
    generalize overlay main₁.booter.bootArgs.commandLine given.bytes = commandLine at held
    exact ⟨entered.isFirstRegion, entered.isMallocInited, entered.isFirstRamdisk, entered.region, entered.pool,
      entered.heap, entered.ramdisk, held, entered.rest⟩

theorem Entered.step (entered : Entered mem initrd2 line main main₁) {e : AtagEntry}
    (short : ∀ given, e = .cmdline given → given.chars.length < kBootLineLength) (ran : e.enter main₁ = .ok main') :
    Entered (mem.or e.mem?) (initrd2.or e.initrd2?) (e.line?.or line) main main' := by
  cases e with
  | mem start size =>
    simp only [AtagEntry.initrd2?, Option.or_none]
    exact entered.enterMem ran
  | cmdline given =>
    simp only [AtagEntry.mem?, AtagEntry.initrd2?, Option.or_none]
    exact Except.ok.inj ran ▸ entered.enterCmdline (short given rfl)
  | initrd2 start size =>
    simp only [AtagEntry.mem?, Option.or_none]
    exact Except.ok.inj ran ▸ entered.enterInitrd2 start size
  | other =>
    simp only [AtagEntry.mem?, AtagEntry.initrd2?, Option.or_none]
    exact Except.ok.inj ran ▸ entered

end Step

theorem foldlM_entered {main main' : MainState} (fresh : main.Fresh) {entries : List AtagEntry}
    (short : ∀ line, .cmdline line ∈ entries → line.chars.length < kBootLineLength)
    (ran : entries.foldlM AtagEntry.enter main = .ok main') :
    Entered (firstMem entries) (firstInitrd2 entries) (lastLine entries) main main' := by
  induction entries using List.reverseRecOn generalizing main' with
  | nil =>
    obtain rfl := Except.ok.inj ran
    exact fresh.entered
  | append_singleton entries e ih =>
    rw [List.foldlM_append, bind_eq_ok] at ran
    obtain ⟨main₁, before, ran⟩ := ran
    rw [List.foldlM_cons, bind_eq_ok] at ran
    obtain ⟨main₂, entered, ran⟩ := ran
    obtain rfl := Except.ok.inj ran
    have step := (ih (fun line member => short line (List.mem_append_left _ member)) before).step (by
      rintro line rfl
      exact short line (List.mem_append_right _ (List.mem_singleton_self _))) entered
    have last : lastLine (entries ++ [e]) = e.line?.or (lastLine entries) := by
      rw [lastLine, List.reverse_append, List.findSome?_append]
      simp [lastLine]
    rw [last, firstMem, firstInitrd2, List.findSome?_append, List.findSome?_append]
    simpa [firstMem, firstInitrd2] using step

theorem BootArgs.bytes_header (bootArgs : BootArgs) : ∃ header : List Byte, header.length = commandLineOffset ∧
    ∀ commandLine, ({ bootArgs with commandLine := commandLine } : BootArgs).bytes = header ++ commandLine.toList := by
  refine ⟨halfBytes bootArgs.revision ++ (halfBytes bootArgs.version ++
    ([bootArgs.virtBase, bootArgs.physBase, bootArgs.memSize, bootArgs.topOfKernelData] ++ (bootArgs.video.words ++
      [bootArgs.machineType, bootArgs.deviceTreeP, bootArgs.deviceTreeLength])).flatMap wordBytes), rfl, ?_⟩
  intro commandLine
  simp only [BootArgs.bytes, List.append_assoc]

theorem read_overlaid (m : Memory) (base : Word) {data : List Byte} {length : Nat} (room : data.length ≤ length)
    (small : length < 2 ^ 32) : read (write m base data) base length = data ++ (read m base length).drop data.length := by
  obtain ⟨behind, rfl⟩ := Nat.exists_eq_add_of_le room
  rw [read_append, read_append, read_write _ _ _ (by omega), List.drop_append_of_le_length (by rw [read_length]),
    List.drop_of_length_le (by rw [read_length]), List.nil_append]
  congr 1
  apply read_congr
  intro i bound
  apply write_outside
  rw [add_ofNat, covers_add _ _ _ (by omega)]
  exact Nat.not_lt_of_le (Nat.le_add_right _ _)

/-- The copy in memory does to the structure there what the copy does to the value. -/
theorem populateCommandLine_stores {gBootArgs atag : Word} {line : CString} {s : Machine} {main : MainState}
    (given : stringAt s.memory (Atag.payload atag) = .ok line.bytes)
    (apart : ∀ address, Covers (Atag.payload atag) line.bytes.length address →
      ¬ Covers gBootArgs BootArgs.size.toNat address) (short : line.chars.length < kBootLineLength)
    (held : read s.memory gBootArgs BootArgs.size.toNat = main.booter.bootArgs.bytes) :
    ∃ s', populateCommandlineInfo gBootArgs atag s = .ok s' ∧
      read s'.memory gBootArgs BootArgs.size.toNat = (main.enterLine line).booter.bootArgs.bytes := by
  rw [MainState.enterLine]
  by_cases empty : line.chars = []
  · rw [if_pos empty]
    exact ⟨s, populateCommandlineInfo_empty given empty, held⟩
  · refine ⟨_, populateCommandlineInfo_spec given apart empty, ?_⟩
    obtain ⟨header, length, bytes⟩ := main.booter.bootArgs.bytes_header
    have size : BootArgs.size.toNat = BootArgs.commandLineOffset + kBootLineLength := rfl
    have fits : line.bytes.length ≤ kBootLineLength := by rw [line.bytes_length]; exact short
    have before : read s.memory gBootArgs BootArgs.size.toNat =
        header ++ main.booter.bootArgs.commandLine.toList := held.trans (bytes _)
    rw [size, read_append] at before
    obtain ⟨front, field⟩ := List.append_inj before (by rw [read_length, length])
    have kept : read (write s.memory (gBootArgs + BitVec.ofNat 32 BootArgs.commandLineOffset) line.bytes) gBootArgs
        BootArgs.commandLineOffset = header := by
      rw [← front]
      apply read_congr
      intro i bound
      apply write_outside
      have limit : BootArgs.commandLineOffset + kBootLineLength < 2 ^ 32 := by decide
      rw [covers_shift _ _ _ _ (by omega) (by omega)]
      omega
    rw [if_neg empty, List.take_of_length_le (Nat.le_of_lt short), size, read_append]
    have after := bytes (overlay main.booter.bootArgs.commandLine line.bytes)
    rw [MainState.withCommandLine]
    simp only
    rw [after, overlay_toList _ fits, ← field, ← read_overlaid _ _ fits (by decide), ← kept]
    rfl

theorem firstMem_isSome {entries : List AtagEntry} :
    (firstMem entries).isSome ↔ ∃ start size, .mem start size ∈ entries := by
  rw [firstMem, List.findSome?_isSome_iff]
  constructor
  · rintro ⟨e, member, given⟩
    cases e with
    | mem start size => exact ⟨start, size, member⟩
    | _ => cases given
  · rintro ⟨start, size, member⟩
    exact ⟨_, member, rfl⟩

theorem cString_cleared (main : MainState) : cString main.cleared.booter.bootArgs.commandLine.toList = ascii "" := by
  have zeros : main.cleared.booter.bootArgs.commandLine.toList = List.replicate kBootLineLength 0 :=
    Vector.toList_replicate
  have cells : List.replicate kBootLineLength (0 : Byte) = [] ++ 0 :: List.replicate (kBootLineLength - 1) 0 := rfl
  rw [zeros, cells]
  apply CString.ext_chars
  exact cString_append_zero List.not_mem_nil _

/-- The walk of `corestart_main` enters the entries before the terminator, one after the other, and the booter goes on
    exactly when one of them is a region. -/
theorem corestartMain_enters {locals : DarwinLocals} {atags : Word} {main : MainState} {entries : List AtagEntry}
    (fresh : main.Fresh) (wellFormed : WellFormedAtags main.memory atags entries)
    (accepted : ∀ start size, firstMem entries = some (start, size) → PoolAccepted start size)
    (apart : RegionApart main.memory atags entries) :
    ∃ main', walkAtags atags main.cleared = .ok main' ∧ entries.foldlM AtagEntry.enter main.cleared = .ok main' ∧
      Entered (firstMem entries) (firstInitrd2 entries) (lastLine entries) main.cleared main' ∧
      cString main'.booter.bootArgs.commandLine.toList = (lastLine entries).getD (ascii "") ∧
      (∀ start size, .mem start size ∈ entries →
        corestartMain locals MACH_TYPE_REALVIEW_PBA8 atags main = startDarwin locals main'.booter) ∧
      ((∀ start size, .mem start size ∉ entries) →
        corestartMain locals MACH_TYPE_REALVIEW_PBA8 atags main = .error .panic) := by
  have clear : main.cleared.Fresh := ⟨fresh.isFirstRegion, fresh.isMallocInited, fresh.isFirstRamdisk⟩
  have list : AtagList main.cleared.memory atags entries := wellFormed.list
  obtain ⟨main', walks⟩ := list.walks apart clear.isFirstRegion wellFormed.lines accepted
  have bound := list.length_lt
  have core : Atag.tag main.cleared.memory atags ≠ ATAG_NONE := by
    rw [show Atag.tag main.cleared.memory atags = ATAG_CORE from wellFormed.core]
    decide
  have walked : walkAtags atags main.cleared = .ok main' := walks.reaches (by omega) core
  have entered := foldlM_entered clear wellFormed.lines walks.folds
  have line := entered.commandLine
  rw [cString_cleared] at line
  have ends : corestartMain locals MACH_TYPE_REALVIEW_PBA8 atags main =
      if (firstMem entries).isSome then startDarwin locals main'.booter else .error .panic := by
    rw [corestartMain, if_neg (not_not_intro rfl), walked, ok_bind, entered.isMallocInited]
  refine ⟨main', walked, walks.folds, entered, line, fun start size member => ?_, fun none => ?_⟩
  · rw [ends, if_pos (firstMem_isSome.mpr ⟨start, size, member⟩)]
  · rw [ends, if_neg]
    intro shown
    obtain ⟨start, size, member⟩ := firstMem_isSome.mp shown
    exact none start size member

def atagWords (size : Word) : List Byte :=
  [2, ATAG_CORE, 4, ATAG_MEM, size, 0x70000000, 4, ATAG_CMDLINE].flatMap wordBytes ++
    ((ascii "rd=md0").bytes ++ 0 :: [4, ATAG_MEM, 0x1000, 0x1000].flatMap wordBytes)

def atagRam (size : Word) : Memory := write (fun _ => 0) 0x70000100 (atagWords size)

def sampleEntries (size : Word) : List AtagEntry :=
  [.other, .mem 0x70000000 size, .cmdline (ascii "rd=md0"), .mem 0x1000 0x1000]

def sampleMain (size : Word) : MainState where
  booter := (sampleBooter roomy).withMemory (atagRam size)
  isFirstRegion := false
  isMallocInited := false
  pool := (0, 0)
  mp := 0
  isFirstRamdisk := false

theorem sampleMain_fresh (size : Word) : (sampleMain size).Fresh := ⟨rfl, rfl, rfl⟩

theorem AtagEntry.At.before {m : Memory} {atag size : Word} {e : AtagEntry} {later : List AtagEntry}
    (held : e.At m atag) (same : Atag.size m atag = size) (words : 2 ≤ size.toNat)
    (rest : AtagList m (atag + 4 * size) later) :
    AtagList m atag (e :: later) := by
  subst same
  exact .entry held words rest

theorem sampleEntries_wellFormed {m : Memory} {size : Word}
    (tags : [0x70000100, 0x70000108, 0x70000118, 0x70000128, 0x70000138].map (Atag.tag m) =
      [ATAG_CORE, ATAG_MEM, ATAG_CMDLINE, ATAG_MEM, ATAG_NONE])
    (sizes : [0x70000100, 0x70000108, 0x70000118, 0x70000128].map (Atag.size m) = [2, 4, 4, 4])
    (regions : [0x70000108, 0x70000128].map (fun atag => (AtagMem.start m atag, AtagMem.size m atag)) =
      [(0x70000000, size), (0x1000, 0x1000)])
    (line : read m 0x70000120 7 = (ascii "rd=md0").bytes) : WellFormedAtags m 0x70000100 (sampleEntries size) := by
  simp only [List.map_cons, List.map_nil, List.cons.injEq, Prod.mk.injEq, and_true] at tags sizes regions
  obtain ⟨core, mem, cmdline, mem', none⟩ := tags
  obtain ⟨two, four, four', four''⟩ := sizes
  obtain ⟨⟨start, length⟩, start', length'⟩ := regions
  have string : stringAt m (Atag.payload 0x70000118) = .ok (ascii "rd=md0").bytes :=
    stringFrom_of_read (ascii "rd=md0").noNul line (by decide)
  refine ⟨core, ?_, ?_⟩
  · have other : AtagEntry.other.At m 0x70000100 := by
      rw [AtagEntry.At, core]
      decide
    have first : (AtagEntry.mem 0x70000000 size).At m 0x70000108 := ⟨mem, start, length⟩
    have given : (AtagEntry.cmdline (ascii "rd=md0")).At m 0x70000118 := ⟨cmdline, string⟩
    have second : (AtagEntry.mem 0x1000 0x1000).At m 0x70000128 := ⟨mem', start', length'⟩
    apply other.before two (by decide)
    apply first.before four (by decide)
    apply given.before four' (by decide)
    apply second.before four'' (by decide)
    exact AtagList.ended none
  · intro given member
    simp [sampleEntries] at member
    subst member
    decide

theorem sampleMain_enters :
    ∃ main', walkAtags 0x70000100 (sampleMain 0x8000000).cleared = .ok main' ∧
      (main'.booter.bootArgs.physBase, main'.booter.bootArgs.memSize) = (0x70000000, 0x8000000) ∧
      cString main'.booter.bootArgs.commandLine.toList = ascii "rd=md0" ∧
      corestartMain darwinLocals MACH_TYPE_REALVIEW_PBA8 0x70000100 (sampleMain 0x8000000) =
        startDarwin darwinLocals main'.booter := by
  have wellFormed : WellFormedAtags (sampleMain 0x8000000).memory 0x70000100 (sampleEntries 0x8000000) :=
    sampleEntries_wellFormed (by decide) (by decide) (by decide) (by decide)
  have accepted (start size : Word) (first : firstMem (sampleEntries 0x8000000) = some (start, size)) :
      PoolAccepted start size := by
    obtain ⟨rfl, rfl⟩ := Prod.mk.inj (Option.some.inj first)
    decide
  have below {atag : Word} {length : Nat} (less : atag.toNat + length ≤ 0x76800000) (address : Word)
      (covered : Covers atag length address) : ¬ InPool 0x70000000 0x8000000 address := by
    have place : BitVec.ofNat 32 atag.toNat = atag := by rw [BitVec.ofNat_toNat, BitVec.setWidth_eq]
    rw [← place] at covered
    change ¬ Covers (BitVec.ofNat 32 0x76800000) 0x1800000 address
    exact covers_apart less (by omega) covered
  have apart : RegionApart (sampleMain 0x8000000).memory 0x70000100 (sampleEntries 0x8000000) :=
    ⟨below (by decide), below (by decide), below (by decide), below (by decide)⟩
  obtain ⟨main', walked, _, entered, line, goesOn, _⟩ :=
    corestartMain_enters (sampleMain_fresh 0x8000000) wellFormed accepted apart
  exact ⟨main', walked, entered.region, line, goesOn 0x70000000 0x8000000 (by simp [sampleEntries])⟩

/-- In 24 MB of RAM the pool begins where the RAM does, and `malloc_init` clears the list while it is walked over. -/
theorem cleared_list_loses_line : ¬ ∀ atags main entries, MainState.Fresh main →
    WellFormedAtags main.memory atags entries →
    (∀ start size, firstMem entries = some (start, size) → PoolAccepted start size) →
    ∃ main', walkAtags atags main.cleared = .ok main' ∧
      cString main'.booter.bootArgs.commandLine.toList = (lastLine entries).getD (ascii "") := by
  intro enters
  have wellFormed : WellFormedAtags (sampleMain 0x1800000).memory 0x70000100 (sampleEntries 0x1800000) :=
    sampleEntries_wellFormed (by decide) (by decide) (by decide) (by decide)
  have accepted (start size : Word) (first : firstMem (sampleEntries 0x1800000) = some (start, size)) :
      PoolAccepted start size := by
    obtain ⟨rfl, rfl⟩ := Prod.mk.inj (Option.some.inj first)
    decide
  obtain ⟨main', walked, line⟩ := enters _ _ _ (sampleMain_fresh 0x1800000) wellFormed accepted
  have lost : (do let main ← walkAtags 0x70000100 (sampleMain 0x1800000).cleared
                  .ok (cString main.booter.bootArgs.commandLine.toList)) = (.ok (ascii "") : Except Stop CString) := by
    decide +kernel
  rw [walked, ok_bind, line] at lost
  exact absurd (Except.ok.inj lost) (by decide)

end GenericBooter
