import Mathlib.Algebra.Group.Nat.Defs
import Marfs.Cstring.Snprintf

/-!
# Filling a buffer piece by piece

A string builder hands what is left of its buffer to one `snprintf` after the other and adds up the
lengths they report.  Whatever the size of the buffer, this comes to a single `snprintf` of the whole
string (`printPieces_eq`), so that the length is that of the whole string and the buffer holds as much
of it as fits (`LengthStable`).
-/

namespace Marfs.Cstring

open List

/-- `INT_MAX`: the greatest length `snprintf` can report. -/
def snprintfMax : Nat := 2 ^ 31 - 1

abbrev Memory := Nat → Char

def store (mem : Memory) (start : Nat) (s : List Char) : Memory := fun i =>
  if start ≤ i then s[i - start]?.getD (mem i) else mem i

/-- What `snprintf` leaves in memory: as much of the string as fits into `len` bytes, and a
terminator. -/
def fill (mem : Memory) (tgtstr len : Nat) (s : List Char) : Memory :=
  if len = 0 then mem else store mem tgtstr (s.take (len - 1) ++ ['\x00'])

/-- What `snprintf` returns: the length of the whole string, or a negative value if an `int` cannot
hold it. -/
def snprintf (s : List Char) : Int := if s.length ≤ snprintfMax then s.length else -1

/-- The calls for the pieces of a string, each with its check and the bookkeeping after it. -/
def printPieces : List (List Char) → Memory → (tgtstr len totsz : Nat) → Nat × Memory
  | [], mem, _, _, totsz => (totsz, mem)
  | piece :: rest, mem, tgtstr, len, totsz =>
    let mem := fill mem tgtstr len piece
    if snprintf piece < 1 then (0, mem)
    else
      let prres := (snprintf piece).toNat
      if len > prres then printPieces rest mem (tgtstr + prres) (len - prres) (totsz + prres)
      else printPieces rest mem tgtstr 0 (totsz + prres)

def Reportable (pieces : List (List Char)) : Prop := ∀ piece ∈ pieces, piece.length ≤ snprintfMax

instance (pieces : List (List Char)) : Decidable (Reportable pieces) :=
  inferInstanceAs (Decidable (∀ piece ∈ pieces, _))

/-! ## Stores -/

variable {mem : Memory} {i start tgtstr len : Nat} {s : List Char} {pieces : List (List Char)}

theorem store_of_lt (s : List Char) (h : i < start) : store mem start s i = mem i := if_neg (by omega)

theorem store_of_le (h : start + s.length ≤ i) : store mem start s i = mem i := by
  unfold store
  split
  · rw [List.getElem?_eq_none (by omega)]
    rfl
  · rfl

theorem store_getElem {c : Char} (h : s[i]? = some c) : store mem start s (start + i) = c := by
  rw [store, if_pos (Nat.le_add_right ..), Nat.add_sub_cancel_left, h]
  rfl

variable {a full : List Char} {totsz : Nat} {tostr : Nat → Memory → Nat × Memory}

theorem store_append {b : List Char} (end' : Char) (hb : b ≠ []) :
    store (store mem start (a ++ [end'])) (start + a.length) b = store mem start (a ++ b) := by
  have hlen : 0 < b.length := List.length_pos_iff.2 hb
  funext i
  rcases Nat.lt_or_ge i start with hi | hi
  · rw [store_of_lt _ (by omega), store_of_lt _ hi, store_of_lt _ hi]
  obtain ⟨k, rfl⟩ := Nat.exists_eq_add_of_le hi
  rcases Nat.lt_or_ge k a.length with hk | hk
  · have hget : (a ++ b)[k]? = some a[k] := by
      rw [List.getElem?_append_left hk, List.getElem?_eq_getElem hk]
    have hget' : (a ++ [end'])[k]? = some a[k] := by
      rw [List.getElem?_append_left hk, List.getElem?_eq_getElem hk]
    rw [store_of_lt _ (by omega), store_getElem hget, store_getElem hget']
  obtain ⟨j, rfl⟩ := Nat.exists_eq_add_of_le hk
  rcases Nat.lt_or_ge j b.length with hj | hj
  · have hget : (a ++ b)[a.length + j]? = some b[j] := by
      rw [List.getElem?_append_right hk, Nat.add_sub_cancel_left, List.getElem?_eq_getElem hj]
    rw [store_getElem hget, ← Nat.add_assoc, store_getElem (List.getElem?_eq_getElem hj)]
  · rw [store_of_le (by omega), store_of_le (by simp only [length_append, length_singleton]; omega),
      store_of_le (by simp only [length_append]; omega)]

/-! ## One call after the other -/

@[simp] theorem fill_zero (mem : Memory) (tgtstr : Nat) (s : List Char) : fill mem tgtstr 0 s = mem :=
  rfl

/-- A call writes inside of its buffer. -/
theorem fill_outside (s : List Char) (h : tgtstr + len ≤ i) : fill mem tgtstr len s i = mem i := by
  unfold fill
  split
  · rfl
  · apply store_of_le
    simp only [length_append, length_take, length_singleton]
    omega

/-- The next piece follows a piece that fits. -/
theorem fill_append_of_lt (b : List Char) (h : a.length < len) :
    fill (fill mem tgtstr len a) (tgtstr + a.length) (len - a.length) b =
      fill mem tgtstr len (a ++ b) := by
  have htake : (a ++ b).take (len - 1) = a ++ b.take (len - a.length - 1) := by
    rw [take_append, take_of_length_le (by omega)]
    congr 2
    omega
  unfold fill
  rw [if_neg (by omega), if_neg (by omega), if_neg (by omega), htake,
    take_of_length_le (by omega), append_assoc]
  exact store_append _ (append_ne_nil_of_right_ne_nil _ (cons_ne_nil _ _))

/-- Nothing is added to a buffer that is full. -/
theorem fill_append_of_le (b : List Char) (h : len ≤ a.length) :
    fill mem tgtstr len (a ++ b) = fill mem tgtstr len a := by
  unfold fill
  rw [take_append_of_le_length (by omega)]

theorem snprintf_of_le (h : s.length ≤ snprintfMax) : snprintf s = s.length :=
  if_pos h

theorem snprintf_of_lt (h : snprintfMax < s.length) : snprintf s = -1 :=
  if_neg (by omega)

theorem printPieces_eq (hne : pieces ≠ []) (hpcs : ∀ piece ∈ pieces, piece ≠ []) (hrep : Reportable pieces)
    (mem : Memory) (tgtstr len totsz : Nat) :
    printPieces pieces mem tgtstr len totsz =
      (totsz + pieces.flatten.length, fill mem tgtstr len pieces.flatten) := by
  induction pieces generalizing mem tgtstr len totsz with
  | nil => exact absurd rfl hne
  | cons piece rest ih =>
    obtain ⟨hpiece, hrest⟩ := List.forall_mem_cons.1 hpcs
    obtain ⟨hle, hrep⟩ := List.forall_mem_cons.1 hrep
    have hpos : 0 < piece.length := List.length_pos_iff.2 hpiece
    rw [printPieces, snprintf_of_le hle, if_neg (by omega), Int.toNat_natCast]
    rcases eq_or_ne rest [] with rfl | hcons
    · simp only [printPieces, flatten_cons, flatten_nil, List.append_nil, ite_self]
    · rw [flatten_cons, length_append, ← Nat.add_assoc]
      dsimp only
      split
      · rename_i hlt
        rw [ih hcons hrest hrep, fill_append_of_lt _ hlt]
      · rename_i hge
        rw [ih hcons hrest hrep, fill_zero, fill_append_of_le _ (by omega)]

theorem printPieces_outside (h : tgtstr + len ≤ i) :
    (printPieces pieces mem tgtstr len totsz).2 i = mem i := by
  induction pieces generalizing mem tgtstr len totsz with
  | nil => rfl
  | cons piece rest ih =>
    have hfill : fill mem tgtstr len piece i = mem i := fill_outside piece h
    rw [printPieces]
    split
    · exact hfill
    · dsimp only
      split
      · rw [ih (by omega), hfill]
      · rcases Nat.lt_or_ge i tgtstr with hlt | hge
        · omega
        · rw [ih (by omega), hfill]

theorem printPieces_of_not_reportable (h : ¬ Reportable pieces) :
    (printPieces pieces mem tgtstr len totsz).1 = 0 := by
  induction pieces generalizing mem tgtstr len totsz with
  | nil => exact absurd (forall_mem_nil _) h
  | cons piece rest ih =>
    rw [printPieces]
    by_cases hle : piece.length ≤ snprintfMax
    · have hrest : ¬ Reportable rest := fun hrep => h (List.forall_mem_cons.2 ⟨hle, hrep⟩)
      split
      · rfl
      · dsimp only
        split
        · exact ih hrest
        · exact ih hrest
    · rw [snprintf_of_lt (by omega), if_pos (by decide)]

/-! ## Builders -/

/-- A builder of the string `full`: with any buffer, whose size it is told, it returns the length of the
whole string and leaves as much of it as fits in the buffer, with a terminator. -/
structure LengthStable (tostr : Nat → Memory → Nat × Memory) (full : List Char) : Prop where
  length : ∀ len mem, (tostr len mem).1 = full.length
  outside : ∀ len mem i, len ≤ i → (tostr len mem).2 i = mem i
  text : ∀ len mem i c, (full.take (len - 1))[i]? = some c → (tostr len mem).2 i = c
  terminator : ∀ len mem, 0 < len → (tostr len mem).2 (full.take (len - 1)).length = '\x00'
  whole : ∀ mem mem', let size := (tostr 0 mem).1
    (∀ i c, full[i]? = some c → (tostr (size + 1) mem').2 i = c) ∧
      (tostr (size + 1) mem').2 full.length = '\x00'

/-- A builder that reports an error with any buffer. -/
structure Refuses (tostr : Nat → Memory → Nat × Memory) : Prop where
  error : ∀ len mem, (tostr len mem).1 = 0
  outside : ∀ len mem i, len ≤ i → (tostr len mem).2 i = mem i

def Builds (tostr : Nat → Memory → Nat × Memory) (printable : Prop) (full : List Char) : Prop :=
  (printable → LengthStable tostr full) ∧ (¬ printable → Refuses tostr)

theorem LengthStable.of_fill (h : ∀ len mem, tostr len mem = (full.length, fill mem 0 len full)) :
    LengthStable tostr full := by
  have htext : ∀ len mem i c, (full.take (len - 1))[i]? = some c → (tostr len mem).2 i = c := by
    intro len mem i c hget
    rw [h]
    dsimp only
    rcases Nat.eq_zero_or_pos len with rfl | hpos
    · rw [Nat.zero_sub, take_zero] at hget
      cases hget
    · rw [fill, if_neg (by omega), ← Nat.zero_add i]
      apply store_getElem
      obtain ⟨hlt, -⟩ := List.getElem?_eq_some_iff.1 hget
      rw [List.getElem?_append_left hlt, hget]
  have hterm : ∀ len mem, 0 < len →
      (tostr len mem).2 (full.take (len - 1)).length = '\x00' := by
    intro len mem hpos
    rw [h]
    dsimp only
    rw [fill, if_neg (by omega), ← Nat.zero_add (full.take (len - 1)).length]
    apply store_getElem
    rw [List.getElem?_append_right (Nat.le_refl _), Nat.sub_self]
    rfl
  refine ⟨fun len mem => by rw [h], fun len mem i hi => ?_, htext, hterm, fun mem mem' => ?_⟩
  · rw [h]
    exact fill_outside full (by omega)
  · have hsize : (tostr 0 mem).1 = full.length := by rw [h]
    have htake : full.take (full.length + 1 - 1) = full := by
      rw [Nat.add_sub_cancel, take_length]
    have htext' := htext (full.length + 1) mem'
    have hterm' := hterm (full.length + 1) mem' (Nat.succ_pos _)
    rw [htake] at htext' hterm'
    rw [hsize]
    exact ⟨htext', hterm'⟩

theorem builds_pieces (htostr : ∀ len mem, tostr len mem = printPieces pieces mem 0 len 0) (hne : pieces ≠ [])
    (hpcs : ∀ piece ∈ pieces, piece ≠ []) (hfull : pieces.flatten = full) :
    Builds tostr (Reportable pieces) full := by
  constructor
  · intro hrep
    apply LengthStable.of_fill
    intro len mem
    rw [htostr, printPieces_eq hne hpcs hrep, hfull, Nat.zero_add]
  · intro hnot
    constructor
    · intro len mem
      rw [htostr]
      exact printPieces_of_not_reportable hnot
    · intro len mem i hi
      rw [htostr]
      exact printPieces_outside (by omega)

theorem Builds.guard {print : Nat → Memory → Nat × Memory} {accepted printable : Prop} [Decidable accepted]
    (h : Builds print printable full)
    (htostr : ∀ len mem, tostr len mem = if accepted then print len mem else (0, mem)) :
    Builds tostr (accepted ∧ printable) full := by
  by_cases hacc : accepted
  · have heq : tostr = print := by
      funext len mem
      rw [htostr, if_pos hacc]
    rw [heq, and_iff_right hacc]
    exact h
  · constructor
    · intro hboth
      exact absurd hboth.1 hacc
    · intro _
      constructor
      · intro len mem
        rw [htostr, if_neg hacc]
      · intro len mem i _
        rw [htostr, if_neg hacc]

end Marfs.Cstring
