import GenericBooter.Library.Arrays
import GenericBooter.Library.Clients
import GenericBooter.Tlsf.Pool

namespace GenericBooter

open ByteMemory Arrays

namespace Tlsf

def pointed (result : Word × Allocator) : Answer Word Byte × Allocator :=
  (if result.1 = 0 then .none else .pointer result.1, result.2)

/-- A request, met by the functions of malloc.c and tlsf.c and by the client's own loads and stores. -/
def answer (request : Arrays.Request Word Byte) (s : Allocator) : Answer Word Byte × Allocator :=
  match request with
  | .malloc size => pointed (s.malloc (BitVec.ofNat 32 size))
  | .calloc count size => pointed (tlsfCalloc (BitVec.ofNat 32 count) (BitVec.ofNat 32 size) s)
  | .realloc p size => pointed (s.realloc (p.getD 0) (BitVec.ofNat 32 size))
  | .free p => (.none, s.free (p.getD 0))
  | .load p offset length => (.bytes (read s.memory (p + BitVec.ofNat 32 offset) length), s)
  | .store p offset data => (.none, { s with memory := write s.memory (p + BitVec.ofNat 32 offset) data })

structure Backed (m : Memory) (live : Live Word Byte) (held : List (Word × Word)) : Prop where
  arrays : ∀ x ∈ held, ∃ data, live (x.1 + 8) = some data ∧ data.length ≤ x.2.toNat ∧ read m (x.1 + 8) data.length = data
  only : ∀ p, live p ≠ none → ∃ x ∈ held, x.1 + 8 = p

variable {tlsf : Word} {finish : Nat} {m m' : Memory} {live : Live Word Byte} {held all : List (Word × Word)}
  {x y : Word × Word} {data : List Byte}

theorem Serves.distinct (serves : Serves tlsf finish m (x :: held)) (member : y ∈ held) : y.1 + 8 ≠ x.1 + 8 := by
  intro same
  obtain ⟨bounds, apart⟩ := serves.apart
  have first := (bounds x List.mem_cons_self).1.2
  have second := (bounds y (List.mem_cons_of_mem _ member)).1.2
  have disjoint := (List.pairwise_cons.mp apart).1 y member
  have start : y.1 = x.1 := add_right_cancel same
  have inside : x.1.toNat + 8 ∈ lent x := ⟨Nat.le_refl _, by omega⟩
  refine Set.disjoint_left.mp disjoint inside ?_
  unfold lent
  rw [start]
  exact ⟨Nat.le_refl _, by omega⟩

theorem Backed.keeps (backed : Backed m live held) (serves : Serves tlsf finish m' all) (among : ∀ x ∈ held, x ∈ all)
    {m'' : Memory} (changes : ChangesOnly (spared tlsf finish held) m m'') : Backed m'' live held := by
  refine ⟨fun x member => ?_, backed.only⟩
  obtain ⟨data, shown, short, same⟩ := backed.arrays x member
  refine ⟨data, shown, short, (read_congr _ _ _ _ fun i less => ?_).trans same⟩
  have place := (serves.byte_at (among x member) (Nat.lt_of_lt_of_le less short)).2
  exact changes _ fun inside => inside.2.2 x member place

theorem Backed.take (backed : Backed m live held) (data : List Byte) (serves : Serves tlsf finish m' (x :: held))
    (short : data.length ≤ x.2.toNat) (same : read m (x.1 + 8) data.length = data) :
    live (x.1 + 8) = none ∧ Backed m (Function.update live (x.1 + 8) (some data)) (x :: held) := by
  have new : live (x.1 + 8) = none := by
    by_contra known
    obtain ⟨y, member, place⟩ := backed.only _ known
    exact serves.distinct member place
  refine ⟨new, fun y member => ?_, fun p known => ?_⟩
  · rcases List.mem_cons.mp member with rfl | member
    · exact ⟨data, Function.update_self _ _ _, short, same⟩
    · rw [Function.update_of_ne (serves.distinct member)]
      exact backed.arrays y member
  · by_cases here : p = x.1 + 8
    · exact ⟨x, List.mem_cons_self, here.symm⟩
    · rw [Function.update_of_ne here] at known
      obtain ⟨y, member, place⟩ := backed.only p known
      exact ⟨y, List.mem_cons_of_mem _ member, place⟩

theorem Backed.give (backed : Backed m live (x :: held)) (serves : Serves tlsf finish m' (x :: held)) :
    Backed m (Function.update live (x.1 + 8) none) held := by
  refine ⟨fun y member => ?_, fun p known => ?_⟩
  · rw [Function.update_of_ne (serves.distinct member)]
    exact backed.arrays y (List.mem_cons_of_mem _ member)
  · by_cases here : p = x.1 + 8
    · rw [here, Function.update_self] at known
      exact absurd rfl known
    · rw [Function.update_of_ne here] at known
      obtain ⟨y, member, place⟩ := backed.only p known
      rcases List.mem_cons.mp member with rfl | member
      · exact absurd place.symm here
      · exact ⟨y, member, place⟩

theorem Backed.perm (backed : Backed m live held) (same : held.Perm all) : Backed m live all := by
  refine ⟨fun x member => backed.arrays x (same.mem_iff.mpr member), fun p known => ?_⟩
  obtain ⟨x, member, place⟩ := backed.only p known
  exact ⟨x, same.mem_iff.mp member, place⟩

/-- The allocator's state shows the arrays `live`, and since `m₀` nothing was changed outside of the pool. -/
def Shows (tlsf : Word) (finish : Nat) (m₀ : Memory) (s : Allocator) (live : Live Word Byte) : Prop :=
  s.mp = tlsf ∧ ChangesOnly (Set.Ico tlsf.toNat finish) m₀ s.memory ∧
    ∃ held, Serves tlsf finish s.memory held ∧ Backed s.memory live held

theorem spared_pool : spared tlsf finish held ⊆ Set.Ico tlsf.toNat finish := fun _ inside => ⟨inside.1, inside.2.1⟩

section Calls

variable {m₀ : Memory} {s s' : Allocator} {p : Word} {old : List Byte} {size count : Nat}

theorem Shows.find (shows' : Shows tlsf finish m₀ s live) (known : live p = some old) :
    ∃ x rest, x.1 + 8 = p ∧ old.length ≤ x.2.toNat ∧ read s.memory p old.length = old ∧
      Serves tlsf finish s.memory (x :: rest) ∧ Backed s.memory live (x :: rest) := by
  obtain ⟨_, _, held, serves, backed⟩ := shows'
  obtain ⟨x, member, rfl⟩ := backed.only p (by rw [known]; exact Option.some_ne_none _)
  have front := List.perm_cons_erase member
  obtain ⟨data, shown, short, same⟩ := backed.arrays x member
  obtain rfl : old = data := Option.some.inj (known.symm.trans shown)
  exact ⟨x, held.erase x, rfl, short, same, serves.perm front, backed.perm front⟩

theorem Shows.take (shows' : Shows tlsf finish m₀ s live) (backed : Backed s.memory live held)
    (serves : Serves tlsf finish m' (x :: held)) (changes : ChangesOnly (spared tlsf finish held) s.memory m')
    (short : data.length ≤ x.2.toNat) (same : read m' (x.1 + 8) data.length = data) :
    live (x.1 + 8) = none ∧ Shows tlsf finish m₀ ⟨tlsf, m'⟩ (Function.update live (x.1 + 8) (some data)) := by
  have kept := backed.keeps serves (fun _ member => List.mem_cons_of_mem _ member) changes
  obtain ⟨new, taken⟩ := kept.take data serves short same
  exact ⟨new, rfl, shows'.2.1.trans (changes.mono spared_pool), x :: held, serves, taken⟩

theorem size_toNat (bound : size ≤ 0xfc000000) : (BitVec.ofNat 32 size).toNat = size := by
  rw [BitVec.toNat_ofNat]
  exact Nat.mod_eq_of_lt (by omega)

theorem size_ne_zero (bound : size ≤ 0xfc000000) (some : size ≠ 0) : BitVec.ofNat 32 size ≠ 0 := by
  intro zero
  have value := size_toNat bound
  rw [zero] at value
  exact some value.symm

theorem Shows.nonnull (shows' : Shows tlsf finish m₀ s live) (known : live p = some old) : p ≠ 0 := by
  obtain ⟨x, rest, rfl, _, _, serves, _⟩ := shows'.find known
  exact serves.nonnull

theorem Shows.malloc (shows' : Shows tlsf finish m₀ s live) (bound : size ≤ 0xfc000000) :
    s.malloc (BitVec.ofNat 32 size) = (0, s) ∨
      ∃ data, data.length = size ∧ (s.malloc (BitVec.ofNat 32 size)).1 ≠ 0 ∧ live (s.malloc (BitVec.ofNat 32 size)).1 = none ∧
        Shows tlsf finish m₀ (s.malloc (BitVec.ofNat 32 size)).2
          (Function.update live (s.malloc (BitVec.ofNat 32 size)).1 (some data)) := by
  obtain ⟨at', _, held, serves, backed⟩ := id shows'
  have value := size_toNat bound
  simp only [Allocator.malloc, tlsfMalloc, at']
  rcases serves.malloc (value.le.trans bound) with refused | ⟨x, result, enough, serves', changes⟩
  · left
    rw [refused, ← at']
  · right
    rw [value] at enough
    rw [result]
    have length := read_length (mallocEx (BitVec.ofNat 32 size) tlsf s.memory).2 (x.1 + 8) size
    obtain ⟨new, taken⟩ := shows'.take backed serves' changes (Nat.le_trans (Nat.le_of_eq length) enough)
      (congrArg _ length)
    exact ⟨_, length, serves'.nonnull, new, taken⟩

theorem Shows.free (shows' : Shows tlsf finish m₀ s live) (known : live p = some old) :
    Shows tlsf finish m₀ (s.free p) (Function.update live p none) := by
  obtain ⟨x, rest, rfl, _, _, serves, backed⟩ := shows'.find known
  obtain ⟨serves', changes⟩ := serves.free
  obtain ⟨at', outside, _⟩ := shows'
  simp only [Allocator.free, tlsfFree, at']
  refine ⟨rfl, outside.trans (changes.mono spared_pool), rest, serves', ?_⟩
  exact (backed.give serves).keeps serves (fun _ member => List.mem_cons_of_mem _ member) changes

def Met (tlsf : Word) (finish : Nat) (m₀ : Memory) (s : Allocator) (live : Live Word Byte)
    (request : Arrays.Request Word Byte) : Prop :=
  ∃ live', Step 0 live request (answer request s).1 live' ∧ Shows tlsf finish m₀ (answer request s).2 live'

theorem pointed_none {result : Word × Allocator} (refused : result = (0, s)) : pointed result = (.none, s) := by
  rw [refused]
  rfl

theorem pointed_some {result : Word × Allocator} (given : result.1 ≠ 0) :
    pointed result = (.pointer result.1, result.2) := by
  rw [pointed, if_neg given]

theorem malloc_met (shows' : Shows tlsf finish m₀ s live) (bound : size ≤ 0xfc000000) :
    Met tlsf finish m₀ s live (.malloc size) := by
  rcases shows'.malloc bound with refused | ⟨data, length, given, new, taken⟩
  · refine ⟨live, ?_⟩
    simp only [answer, pointed_none refused]
    exact ⟨.refused trivial, shows'⟩
  · refine ⟨_, ?_, taken⟩
    simp only [answer, pointed_some given]
    exact .malloc length new

theorem calloc_met (shows' : Shows tlsf finish m₀ s live) (bound : count * size ≤ 0xfc000000) :
    Met tlsf finish m₀ s live (.calloc count size) := by
  obtain ⟨at', _, held, serves, backed⟩ := id shows'
  have value : (BitVec.ofNat 32 count * BitVec.ofNat 32 size).toNat = count * size := by
    rw [← BitVec.ofNat_mul, size_toNat bound]
  unfold Met
  simp only [answer, tlsfCalloc, at']
  rcases serves.calloc (value.le.trans bound) with
    refused | ⟨x, result, enough, serves', changes, zero⟩
  · refine ⟨live, ?_⟩
    rw [refused, pointed_none rfl]
    exact ⟨.refused trivial, at' ▸ shows'⟩
  · rw [value] at enough zero
    rw [pointed_some (by rw [result]; exact serves'.nonnull), result]
    have cleared : read (callocEx (BitVec.ofNat 32 count) (BitVec.ofNat 32 size) tlsf s.memory).2 (x.1 + 8) (count * size) =
        List.replicate (count * size) 0 := by
      refine List.eq_replicate_iff.mpr ⟨read_length _ _ _, fun b member => ?_⟩
      obtain ⟨i, less, rfl⟩ := List.mem_map.mp member
      exact zero i (List.mem_range.mp less)
    have length : (List.replicate (count * size) (0 : Byte)).length = count * size := List.length_replicate
    rw [← length] at enough
    obtain ⟨new, taken⟩ := shows'.take backed serves' changes enough ((congrArg _ length).trans cleared)
    exact ⟨_, .calloc new, taken⟩

theorem resize_met (shows' : Shows tlsf finish m₀ s live) (known : live p = some old) (bound : size ≤ 0xfc000000)
    (some : size ≠ 0) : Met tlsf finish m₀ s live (.realloc (Option.some p) size) := by
  obtain ⟨x, rest, rfl, short, same, serves, backed⟩ := shows'.find known
  obtain ⟨at', outside, _⟩ := id shows'
  have value := size_toNat bound
  have nonzero := size_ne_zero bound some
  unfold Met
  simp only [answer, Allocator.realloc, tlsfRealloc, at', Option.getD_some]
  rcases serves.realloc (value.le.trans bound) nonzero with refused | ⟨y, result, resized⟩
  · refine ⟨live, ?_⟩
    rw [refused, pointed_none rfl]
    exact ⟨.refused (Or.inr some), at' ▸ shows'⟩
  · rw [pointed_some (by rw [result]; exact resized.serves.nonnull), result]
    rw [value] at resized
    set m' := (reallocEx (x.1 + 8) (BitVec.ofNat 32 size) tlsf s.memory).2
    have length := read_length m' (y.1 + 8) size
    have others := (backed.give serves).keeps resized.serves (fun _ member => List.mem_cons_of_mem _ member) resized.changes
    obtain ⟨new, taken⟩ := others.take (read m' (y.1 + 8) size) resized.serves (by rw [length]; exact resized.enough)
      (congrArg _ length)
    refine ⟨_, .resized length known ?_ fun i less less' => ?_, rfl,
      outside.trans (resized.changes.mono spared_pool), y :: rest, resized.serves, taken⟩
    · by_cases here : y.1 + 8 = x.1 + 8
      · exact Or.inl here
      · rw [Function.update_of_ne here] at new
        exact Or.inr new
    · have first := read_getElem m' (y.1 + 8) size i (by omega)
      have second := read_getElem s.memory (x.1 + 8) old.length i (by rw [read_length]; exact less)
      rw [List.getElem?_eq_getElem (by omega), List.getElem?_eq_getElem less, first, resized.same i (by omega) less', ← second]
      simp only [same]

theorem realloc_met (shows' : Shows tlsf finish m₀ s live) {q : Option Word} (bound : size ≤ 0xfc000000)
    (known : ∀ p, q = some p → live p ≠ none) : Met tlsf finish m₀ s live (.realloc q size) := by
  by_cases zero : size = 0
  · subst zero
    cases q with
    | none => exact ⟨live, .refused (Or.inl rfl), shows'⟩
    | some p =>
      obtain ⟨old, known⟩ := Option.ne_none_iff_exists'.mp (known p rfl)
      have freed : answer (.realloc (some p) 0) s = (.none, s.free p) := by
        have nonnull := shows'.nonnull known
        simp only [answer, Allocator.realloc, tlsfRealloc, reallocEx, Option.getD_some, if_neg nonnull]
        rfl
      refine ⟨Function.update live p none, ?_, ?_⟩
      · rw [freed]
        exact .dropped
      · rw [freed]
        exact shows'.free known
  · cases q with
    | none =>
      have started : answer (.realloc none size) s = answer (.malloc size) s := by
        simp only [answer, Allocator.realloc, tlsfRealloc, reallocEx, Option.getD_none, if_true, if_pos (size_ne_zero bound zero)]
        rfl
      unfold Met
      rw [started]
      rcases shows'.malloc bound with refused | ⟨data, length, given, new, taken⟩
      · refine ⟨live, ?_⟩
        simp only [answer, pointed_none refused]
        exact ⟨.refused (Or.inl rfl), shows'⟩
      · refine ⟨_, ?_, taken⟩
        simp only [answer, pointed_some given]
        exact .started length new
    | some p =>
      obtain ⟨old, known⟩ := Option.ne_none_iff_exists'.mp (known p rfl)
      exact resize_met shows' known bound zero

theorem store_met (shows' : Shows tlsf finish m₀ s live) (known : live p = some old) {offset : Nat}
    (fits : offset + data.length ≤ old.length) : Met tlsf finish m₀ s live (.store p offset data) := by
  obtain ⟨x, rest, rfl, short, same, serves, backed⟩ := shows'.find known
  obtain ⟨at', outside, _⟩ := id shows'
  have bounds := serves.apart.1 x List.mem_cons_self
  have top := serves.top
  have length := patch_length fits
  set m' := write s.memory (x.1 + 8 + BitVec.ofNat 32 offset) data with stored
  have patched : m' = write s.memory (x.1 + 8) (patch old offset data) := by
    have before : write s.memory (x.1 + 8) old = s.memory := write_same _ _ _ fun i bound => by
      have shown := read_getElem s.memory (x.1 + 8) old.length i (by rw [read_length]; exact bound)
      rw [← shown]
      simp only [same]
    have parts : old.take offset ++ ((old.drop offset).take data.length ++ old.drop (offset + data.length)) = old := by
      rw [← List.drop_drop, List.take_append_drop, List.take_append_drop]
    have first : (old.take offset).length = offset := List.length_take_of_le (by omega)
    have second : ((old.drop offset).take data.length).length = data.length :=
      List.length_take_of_le (by rw [List.length_drop]; omega)
    have result := write_patch s.memory (x.1 + 8) (old.take offset) _ data (old.drop (offset + data.length)) second
      (by rw [first, second, List.length_drop]; omega)
    rw [parts, before, first] at result
    exact result
  have place := (serves.byte_at (i := 0) List.mem_cons_self (by omega)).1
  rw [BitVec.add_zero] at place
  have changes : ChangesOnly (lent x) s.memory m' := by
    rw [patched]
    refine (write_changesOnly _ _ _ (by omega)).mono fun n inside => ?_
    rw [place, length, Set.mem_Ico] at inside
    exact ⟨by omega, by omega⟩
  have serves' := serves.write List.mem_cons_self changes
  have others := (backed.give serves).keeps serves (fun _ member => List.mem_cons_of_mem _ member)
    (changes.mono serves.lent_spared)
  obtain ⟨_, taken⟩ := others.take (patch old offset data) serves' (by omega)
    (by rw [patched]; exact read_write _ _ _ (by omega))
  refine ⟨_, .stored known fits, at', outside.trans ((changes.mono serves.lent_spared).mono spared_pool), x :: rest, ?_, ?_⟩
  · exact at' ▸ serves'
  · rw [Function.update_idem] at taken
    exact taken

theorem load_met (shows' : Shows tlsf finish m₀ s live) (known : live p = some old) {offset : Nat}
    (fits : offset + size ≤ old.length) : Met tlsf finish m₀ s live (.load p offset size) := by
  obtain ⟨x, rest, rfl, short, same, serves, backed⟩ := shows'.find known
  refine ⟨live, ?_, shows'⟩
  have part := read_part s.memory (x.1 + 8) fits
  rw [same] at part
  exact .loaded known fits part

theorem answer_met (shows' : Shows tlsf finish m₀ s live) (request : Arrays.Request Word Byte)
    (legal : request.Legal 0xfc000000 live) : Met tlsf finish m₀ s live request := by
  cases request with
  | malloc size => exact malloc_met shows' legal
  | calloc count size => exact calloc_met shows' legal
  | realloc q size => exact realloc_met shows' legal.1 legal.2
  | free q =>
    cases q with
    | none => exact ⟨live, .nothing, shows'⟩
    | some p =>
      obtain ⟨old, known⟩ := Option.ne_none_iff_exists'.mp (legal p rfl)
      exact ⟨_, .freed, shows'.free known⟩
  | load p offset length =>
    obtain ⟨old, known, fits⟩ := legal
    exact load_met shows' known fits
  | store p offset data =>
    obtain ⟨old, known, fits⟩ := legal
    exact store_met shows' known fits

end Calls

structure Separate (tlsf : Word) (finish : Nat) (live : Live Word Byte) : Prop where
  inside : ∀ p data, live p = some data →
    tlsf.toNat + 3208 ≤ p.toNat ∧ p.toNat + data.length + 8 ≤ finish ∧ p.toNat % 8 = tlsf.toNat % 8
  apart : ∀ p q data data', live p = some data → live q = some data' → p ≠ q →
    Disjoint (Set.Ico p.toNat (p.toNat + data.length)) (Set.Ico q.toNat (q.toNat + data'.length))

theorem Separate.sizes {live' : Live Word Byte} (separate : Separate tlsf finish live) (same : live.sizes = live'.sizes) :
    Separate tlsf finish live' := by
  have known {p : Word} {data : List Byte} (shown : live' p = some data) :
      ∃ old, live p = some old ∧ old.length = data.length := by
    have length := congrFun same p
    rw [Live.sizes, Live.sizes, shown] at length
    exact Option.map_eq_some_iff.mp length
  constructor
  · intro p data shown
    obtain ⟨old, before, length⟩ := known shown
    exact length ▸ separate.inside p old before
  · intro p q data data' shown shown' different
    obtain ⟨old, before, length⟩ := known shown
    obtain ⟨old', before', length'⟩ := known shown'
    rw [← length, ← length']
    exact separate.apart p q old old' before before' different

theorem Shows.separate {m₀ : Memory} {s : Allocator} (shows' : Shows tlsf finish m₀ s live) :
    Separate tlsf finish live := by
  have place {p : Word} {data : List Byte} (known : live p = some data) :=
    shows'.find known
  constructor
  · intro p data known
    obtain ⟨x, rest, rfl, short, _, serves, _⟩ := place known
    have bounds := serves.apart.1 x List.mem_cons_self
    have start := (serves.byte_at (i := 0) List.mem_cons_self (by omega)).1
    rw [BitVec.add_zero] at start
    omega
  · intro p q data data' known known' different
    obtain ⟨x, rest, rfl, short, _, serves, backed⟩ := place known
    obtain ⟨y, member, rfl⟩ := backed.only q (by rw [known']; exact Option.some_ne_none _)
    obtain ⟨data'', shown, short', _⟩ := backed.arrays y member
    obtain rfl : data' = data'' := Option.some.inj (known'.symm.trans shown)
    have other : y ∈ rest := by
      rcases List.mem_cons.mp member with rfl | other
      · exact absurd rfl different
      · exact other
    have bounds := serves.apart.1 x List.mem_cons_self
    have bounds' := serves.apart.1 y member
    have start := (serves.byte_at (i := 0) List.mem_cons_self (by omega)).1
    have start' := (serves.byte_at (i := 0) member (by omega)).1
    rw [BitVec.add_zero] at start start'
    have disjoint := (List.pairwise_cons.mp serves.apart.2).1 y other
    rw [start, start']
    refine disjoint.mono (fun n inside => ?_) fun n inside => ?_
    · exact ⟨inside.1, Nat.lt_of_lt_of_le inside.2 (by omega)⟩
    · exact ⟨inside.1, Nat.lt_of_lt_of_le inside.2 (by omega)⟩

def sampleClient (history : Clients.History (Arrays.Request Word Byte) (Answer Word Byte)) : Arrays.Request Word Byte :=
  match history with
  | [] => .malloc 16
  | [(_, .pointer p)] => .store p 0 [1, 2]
  | [_, (_, .pointer p)] => .free (some p)
  | _ => .malloc 8

theorem sampleClient_careful :
    Clients.Careful (Step 0) (Arrays.Request.Legal 0xfc000000) (fun _ => none) sampleClient := by
  intro history live made allowed
  unfold sampleClient
  split
  · change 16 ≤ 0xfc000000
    decide
  · obtain ⟨rfl, _⟩ := made
    cases allowed with
    | cons before step =>
      cases before with
      | nil =>
        cases step with
        | malloc length new => exact ⟨_, Function.update_self _ _ _, by rw [length]; decide⟩
  · rename_i p
    obtain ⟨asked, rfl, _⟩ := made
    cases allowed with
    | cons before step =>
      change _ = Arrays.Request.store p 0 [1, 2] at asked
      subst asked
      rintro q ⟨⟩
      cases step with
      | refused mayFail => exact mayFail.elim
      | stored known fits =>
        rw [Function.update_self]
        exact Option.some_ne_none _
  · change 8 ≤ 0xfc000000
    decide

section Pool

variable {start size : Word} {s : Allocator} (large : 3244 ≤ size.toNat) (small : size.toNat < 2 ^ 30)
  (room : poolEnd start size ≤ 2 ^ 32) (nonnull : start ≠ 0) (aligned : start &&& PTR_MASK = 0)
  (fresh : signature s.memory start ≠ TLSF_SIGNATURE)
  {client : Clients.History (Arrays.Request Word Byte) (Answer Word Byte) → Arrays.Request Word Byte}
  (careful : Clients.Careful (Step 0) (Arrays.Request.Legal 0xfc000000) (fun _ => none) client)

include large small room nonnull aligned fresh

theorem mallocInit_shows : ∃ s₁, s.mallocInit start size = .ok s₁ ∧
    Shows start (poolEnd start size) s.memory s₁ (fun _ => none) := by
  obtain ⟨result, ran, mp, serves, changes⟩ := initMemoryPool_serves large small room nonnull aligned fresh
  refine ⟨result.2, ?_, mp, changes, [], serves, fun x member => absurd member List.not_mem_nil, ?_⟩
  · rw [Allocator.mallocInit, ran]
    rfl
  · exact fun p known => absurd rfl known

include careful

theorem clients_show : ∃ s₁, s.mallocInit start size = .ok s₁ ∧ ∀ n, ∃ live,
    Clients.Allows (Step 0) (fun _ => none) (Clients.serve answer client s₁ n).1 live ∧
    Shows start (poolEnd start size) s.memory (Clients.serve answer client s₁ n).2 live := by
  obtain ⟨s₁, ran, first⟩ := mallocInit_shows large small room nonnull aligned fresh
  exact ⟨s₁, ran, Clients.serve_allowed (fun _ _ request shown legal => answer_met shown request legal) first careful⟩

/-- What a client sees of the allocator from `malloc_init` on, it may see of a set of arrays that starts empty. -/
theorem clients_served : ∃ s₁, s.mallocInit start size = .ok s₁ ∧
    ∀ n, ∃ live, Clients.Allows (Step 0) (fun _ => none) (Clients.serve answer client s₁ n).1 live := by
  obtain ⟨s₁, ran, shown⟩ := clients_show large small room nonnull aligned fresh careful
  refine ⟨s₁, ran, fun n => ?_⟩
  obtain ⟨live, allowed, _⟩ := shown n
  exact ⟨live, allowed⟩

theorem clients_separate : ∃ s₁, s.mallocInit start size = .ok s₁ ∧ ∀ n,
    (∀ live, Clients.Allows (Step 0) (fun _ => none) (Clients.serve answer client s₁ n).1 live →
      Separate start (poolEnd start size) live) ∧
    ChangesOnly (Set.Ico start.toNat (poolEnd start size)) s.memory (Clients.serve answer client s₁ n).2.memory := by
  obtain ⟨s₁, ran, shown⟩ := clients_show large small room nonnull aligned fresh careful
  refine ⟨s₁, ran, fun n => ?_⟩
  obtain ⟨live, allowed, shown⟩ := shown n
  refine ⟨fun live' allowed' => ?_, shown.2.1⟩
  have same : live.sizes = live'.sizes :=
    allowed.determined allowed' Live.sizes fun _ _ _ _ _ _ equal step step' => Step.sizes equal step step'
  exact shown.separate.sizes same

/-- At every moment of a run the pool is cut up into blocks: their headers say so, no two neighbours are free, and the
    lists and bitmaps of `tlsf_t` file exactly the free ones, each under its size class. -/
theorem clients_keep_heap : ∃ s₁, s.mallocInit start size = .ok s₁ ∧ ∀ n, ∃ blocks lists,
    Heap start (poolEnd start size) (Clients.serve answer client s₁ n).2.memory blocks lists := by
  obtain ⟨s₁, ran, shown⟩ := clients_show large small room nonnull aligned fresh careful
  refine ⟨s₁, ran, fun n => ?_⟩
  obtain ⟨_, _, _, _, _, ⟨blocks, lists, heap, _⟩, _⟩ := shown n
  exact ⟨blocks, lists, heap⟩

end Pool

section Samples

theorem samplePool_large : 3244 ≤ (0x1800000 : Word).toNat := by decide

theorem samplePool_room : poolEnd 0x1000 0x1800000 ≤ 2 ^ 32 := by decide

theorem sampleClient_served : ∃ s₁, zeroed.mallocInit 0x1000 0x1800000 = .ok s₁ ∧
    ∀ n, ∃ live, Clients.Allows (Step 0) (fun _ => none) (Clients.serve answer sampleClient s₁ n).1 live :=
  clients_served samplePool_large (by decide) samplePool_room (by decide) (by decide) (zeroed_fresh _) sampleClient_careful

theorem sampleClient_separate : ∃ s₁, zeroed.mallocInit 0x1000 0x1800000 = .ok s₁ ∧ ∀ n,
    (∀ live, Clients.Allows (Step 0) (fun _ => none) (Clients.serve answer sampleClient s₁ n).1 live →
      Separate 0x1000 (poolEnd 0x1000 0x1800000) live) ∧
    ChangesOnly (Set.Ico 0x1000 (poolEnd 0x1000 0x1800000)) zeroed.memory (Clients.serve answer sampleClient s₁ n).2.memory :=
  clients_separate samplePool_large (by decide) samplePool_room (by decide) (by decide) (zeroed_fresh _)
    sampleClient_careful

theorem sampleClient_keeps_heap : ∃ s₁, zeroed.mallocInit 0x1000 0x1800000 = .ok s₁ ∧ ∀ n, ∃ blocks lists,
    Heap 0x1000 (poolEnd 0x1000 0x1800000) (Clients.serve answer sampleClient s₁ n).2.memory blocks lists :=
  clients_keep_heap samplePool_large (by decide) samplePool_room (by decide) (by decide) (zeroed_fresh _)
    sampleClient_careful

end Samples

end Tlsf

end GenericBooter
