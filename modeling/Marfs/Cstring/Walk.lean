import Marfs.Cstring.Strto

/-!
# Walking a C string

A parser in C has a pointer into a string and moves it on by hand.  `Walk` is how such a parser ends;
reads behind the terminator and writes through a pointer that is not set are faults.  A string is the
list of its characters before the terminator, so the terminator is at its length.

Parsers on lists cannot leave the string.  `Walk.Follows` is that a walk ends as one of them does:
its rules follow the way a walk is put together.
-/

namespace Marfs.Cstring

open List

inductive Walk (α : Type) where
  | done (a : α)
  | error
  | fault
  | running
  deriving DecidableEq, Repr

namespace Walk

variable {α β γ δ : Type}

instance : Monad Walk where
  pure := done
  bind
    | .done a, f => f a
    | .error, _ => .error
    | .fault, _ => .fault
    | .running, _ => .running

/-- A value that may be missing. -/
def ofOption : Option α → Walk α
  | some a => .done a
  | none => .error

def check (condition : Bool) : Walk Unit := if condition then .done () else .error

def Returns : Walk α → Prop
  | .done _ => True
  | .error => True
  | .fault => False
  | .running => False

@[simp] theorem done_bind (a : α) (f : α → Walk β) : (Walk.done a >>= f) = f a := rfl

@[simp] theorem error_bind (f : α → Walk β) : (Walk.error >>= f) = .error := rfl

@[simp] theorem fault_bind (f : α → Walk β) : (Walk.fault >>= f) = .fault := rfl

@[simp] theorem check_true : Walk.check true = .done () := rfl

variable {w : Walk α} {b : β} {m : Option β} {f : α → Walk γ}

theorem bind_eq_done {f : α → Walk β} : (w >>= f) = .done b ↔ ∃ a, w = .done a ∧ f a = .done b := by
  cases w with
  | done a => simp
  | error => simp
  | fault => simp
  | running => simp [Bind.bind]

theorem check_eq_done {condition : Bool} {u : Unit} : Walk.check condition = .done u ↔ condition = true := by
  cases condition <;> simp [Walk.check]

theorem ofOption_eq_done {m : Option α} {a : α} : Walk.ofOption m = .done a ↔ m = some a := by
  cases m <;> simp [Walk.ofOption]

@[simp] theorem returns_error : (Walk.error : Walk α).Returns := trivial

/-! ## Following a computation on lists -/

/-- The walk ends as the computation does, and what they end with is related. -/
inductive Follows (R : α → β → Prop) : Walk α → Option β → Prop where
  | done {a : α} {b : β} (h : R a b) : Follows R (.done a) (some b)
  | error : Follows R .error none

variable {R : α → β → Prop} {R' : γ → δ → Prop}

theorem Follows.returns (h : Follows R w m) : w.Returns := by
  cases h with
  | done h => trivial
  | error => trivial

theorem Follows.exists_done (h : Follows R w (some b)) : ∃ a, w = .done a ∧ R a b := by
  cases h with
  | done h => exact ⟨_, rfl, h⟩

theorem Follows.bind (h : Follows R w m) {g : β → Option δ}
    (hnext : ∀ a b, R a b → m = some b → Follows R' (f a) (g b)) : Follows R' (w >>= f) (m.bind g) := by
  cases h with
  | done h => exact hnext _ _ h rfl
  | error => exact .error

theorem Follows.bind_error (h : Follows R w m) (hnext : ∀ a b, R a b → m = some b → f a = .error) :
    (w >>= f) = .error := by
  cases h with
  | done h => exact hnext _ _ h rfl
  | error => rfl

theorem Follows.map (h : Follows R w m) {f : α → γ} {g : β → δ} (hval : ∀ a b, R a b → R' (f a) (g b)) :
    Follows R' (w >>= fun a => pure (f a)) (m.map g) := by
  cases h with
  | done h => exact .done (hval _ _ h)
  | error => exact .error

theorem Follows.ofOption (m : Option α) : Follows Eq (ofOption m) m := by
  cases m with
  | none => exact .error
  | some a => exact .done rfl

end Walk

/-! ## Reading a string -/

/-- The character at an index: the terminator at the end of the string, and nothing behind it. -/
def charAt (s : List Char) (i : Nat) : Walk Char :=
  if h : i < s.length then .done (s.get ⟨i, h⟩)
  else if i = s.length then .done '\x00'
  else .fault

def strncmpAt (s : List Char) (i : Nat) (word : List Char) : Walk Bool :=
  if i ≤ s.length then .done (word.isPrefixOf (s.drop i)) else .fault

/-- `strtoull` at an index: the number, and the index of what follows it. -/
def strtoullAt (s : List Char) (i : Nat) : Walk (Nat × Nat) :=
  if i ≤ s.length then
    .done ((strtoull (s.drop i)).1, s.length - (strtoull (s.drop i)).2.length)
  else .fault

/-- The index is inside the string or at its end, and this is what follows it. -/
structure At (s : List Char) (i : Nat) (rest : List Char) : Prop where
  le : i ≤ s.length
  drop : s.drop i = rest

namespace At

variable {s rest : List Char} {i : Nat} {c : Char}

theorem start (s : List Char) : At s 0 s := ⟨Nat.zero_le _, rfl⟩

theorem length_eq (h : At s i rest) : i + rest.length = s.length := by
  have hle := h.le
  rw [← h.drop, length_drop]
  omega

/-- One character further. -/
theorem next (h : At s i (c :: rest)) : At s (i + 1) rest := by
  have hlen := h.length_eq
  rw [length_cons] at hlen
  refine ⟨by omega, ?_⟩
  rw [← drop_drop, h.drop, drop_one, tail_cons]

/-- Behind a prefix of what follows. -/
theorem skip {front : List Char} (h : At s i (front ++ rest)) : At s (i + front.length) rest := by
  have hlen := h.length_eq
  rw [length_append] at hlen
  refine ⟨by omega, ?_⟩
  rw [← drop_drop, h.drop, drop_left]

theorem of_suffix (h : At s i rest) {tail : List Char} (htail : tail <:+ rest) :
    At s (s.length - tail.length) tail := by
  have hsuf : tail <:+ s := by
    rw [← h.drop] at htail
    exact htail.trans (drop_suffix i s)
  exact ⟨Nat.sub_le _ _, (List.suffix_iff_eq_drop.1 hsuf).symm⟩

theorem charAt_cons (h : At s i (c :: rest)) : charAt s i = .done c := by
  have hlen := h.length_eq
  rw [length_cons] at hlen
  have hlt : i < s.length := by omega
  have hget := getElem_cons_drop hlt
  rw [h.drop] at hget
  rw [charAt, dif_pos hlt, get_eq_getElem, (List.cons.inj hget).1]

theorem charAt_nil (h : At s i []) : charAt s i = .done '\x00' := by
  have hlen := h.length_eq
  rw [length_nil, Nat.add_zero] at hlen
  rw [charAt, dif_neg (by omega), if_pos hlen]

theorem strncmpAt_eq (h : At s i rest) (word : List Char) :
    strncmpAt s i word = .done (word.isPrefixOf rest) := by
  rw [strncmpAt, if_pos h.le, h.drop]

theorem strtoullAt_eq (h : At s i rest) : ∃ endptr,
    strtoullAt s i = .done ((strtoull rest).1, endptr) ∧ At s endptr (strtoull rest).2 := by
  refine ⟨s.length - (strtoull rest).2.length, ?_, h.of_suffix (strtoull_suffix rest)⟩
  rw [strtoullAt, if_pos h.le, h.drop]

/-- What follows an index has no terminator in it. -/
theorem not_mem (h : At s i rest) (hnul : '\x00' ∉ s) : '\x00' ∉ rest := by
  intro hmem
  rw [← h.drop] at hmem
  exact hnul (mem_of_mem_drop hmem)

end At

end Marfs.Cstring
