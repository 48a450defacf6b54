import Marfs.Cstring.Walk

/-!
# Reading a buffer without a terminator

A buffer is the list of its bytes, and a pointer into it is what follows there: the difference of two
pointers is the difference of the lengths, and a pointer to the end is the empty list.  Nothing stands
behind the end, so that a function of the C library that has to read on there is a fault.
-/

namespace Marfs.Cstring

/-- `*parse`. -/
def byteAt : List Char → Walk Char
  | [] => .fault
  | c :: _ => .done c

def strncmpIn : List Char → (word : List Char) → Walk Bool
  | _, [] => .done true
  | [], _ :: _ => .fault
  | c :: s, w :: word => if c = w then strncmpIn s word else .done false

def isDigitOf (base : Nat) (c : Char) : Bool := c.isDigit && c.toNat - '0'.toNat < base

def afterNumber (base : Nat) (s : List Char) : List Char :=
  (takeSign (s.dropWhile isspace)).2.dropWhile (isDigitOf base)

/-- `strtoull` in a base up to ten.  It reads up to the character that ends the number; without a digit
it stays where it is. -/
def strtoullIn (base : Nat) (s : List Char) : Walk (Nat × List Char) :=
  match afterNumber base s with
  | [] => .fault
  | c :: rest =>
    let (neg, t) := takeSign (s.dropWhile isspace)
    match t.takeWhile (isDigitOf base) with
    | [] => .done (0, s)
    | digit :: digits =>
      let n := Nat.ofDigitChars base (digit :: digits) 0
      .done (if n > ullongMax then ullongMax else if neg then (2 ^ 64 - n) % 2 ^ 64 else n, c :: rest)

def strlenIn : List Char → Walk Nat
  | [] => .fault
  | c :: s => if c = '\x00' then .done 0 else do
    let length ← strlenIn s
    pure (length + 1)

def strnlenIn : (maxlen : Nat) → List Char → Walk Nat
  | 0, _ => .done 0
  | _ + 1, [] => .fault
  | maxlen + 1, c :: s => if c = '\x00' then .done 0 else do
    let length ← strnlenIn maxlen s
    pure (length + 1)

/-! ## What the functions read -/

theorem byteAt_of_ne_nil {s : List Char} (h : s ≠ []) : ∃ c, byteAt s = .done c ∧ s = c :: s.tail := by
  cases s with
  | nil => exact absurd rfl h
  | cons c s => exact ⟨c, rfl, rfl⟩

theorem byteAt_eq_done_iff {s : List Char} {c : Char} : byteAt s = .done c ↔ s.head? = some c := by
  cases s <;> simp [byteAt]

theorem strncmpIn_eq (word : List Char) :
    ∀ {s : List Char}, word.length ≤ s.length → strncmpIn s word = .done (word.isPrefixOf s) := by
  induction word with
  | nil =>
    intro s _
    cases s <;> rfl
  | cons w word ih =>
    intro s h
    cases s with
    | nil => cases h
    | cons c s =>
      rw [List.length_cons, List.length_cons, Nat.add_le_add_iff_right] at h
      rw [strncmpIn, List.isPrefixOf]
      by_cases heq : c = w
      · rw [if_pos heq, ih h, heq, beq_self_eq_true, Bool.true_and]
      · rw [if_neg heq, beq_eq_false_iff_ne.2 (Ne.symm heq), Bool.false_and]

theorem afterNumber_suffix (base : Nat) (s : List Char) : afterNumber base s <:+ s :=
  ((List.dropWhile_suffix _).trans (takeSign_suffix _)).trans (List.dropWhile_suffix _)

theorem strtoullIn_cases (base : Nat) (s : List Char) :
    afterNumber base s = [] ∧ strtoullIn base s = .fault ∨
      afterNumber base s ≠ [] ∧ ∃ n endptr,
        strtoullIn base s = .done (n, endptr) ∧ endptr <:+ s ∧ endptr ≠ [] := by
  unfold strtoullIn
  split
  · next h => exact .inl ⟨h, rfl⟩
  next c rest h =>
  right
  have hsuf := afterNumber_suffix base s
  rw [h] at hsuf ⊢
  refine ⟨List.cons_ne_nil _ _, ?_⟩
  dsimp only
  split
  · refine ⟨0, s, rfl, List.suffix_rfl, ?_⟩
    rintro rfl
    cases h
  · exact ⟨_, _, rfl, hsuf, List.cons_ne_nil _ _⟩

theorem strlenIn_cases (s : List Char) : strlenIn s = .fault ∨ ∃ length, strlenIn s = .done length := by
  induction s with
  | nil => exact .inl rfl
  | cons c s ih =>
    rw [strlenIn]
    split
    · exact .inr ⟨0, rfl⟩
    rcases ih with hfault | ⟨length, hdone⟩
    · rw [hfault]
      exact .inl rfl
    · rw [hdone]
      exact .inr ⟨length + 1, rfl⟩

theorem strnlenIn_cases (s : List Char) :
    ∀ maxlen, strnlenIn maxlen s = .fault ∨ ∃ length, strnlenIn maxlen s = .done length := by
  induction s with
  | nil =>
    intro maxlen
    cases maxlen with
    | zero => exact .inr ⟨0, rfl⟩
    | succ maxlen => exact .inl rfl
  | cons c s ih =>
    intro maxlen
    cases maxlen with
    | zero => exact .inr ⟨0, rfl⟩
    | succ maxlen =>
      rw [strnlenIn]
      split
      · exact .inr ⟨0, rfl⟩
      rcases ih maxlen with hfault | ⟨length, hdone⟩
      · rw [hfault]
        exact .inl rfl
      · rw [hdone]
        exact .inr ⟨length + 1, rfl⟩

end Marfs.Cstring
