import Marfs.Cstring.Decimal

/-!
# Reading numbers back

`strtoull` and `strtol` skip blanks, take a sign, and read as many decimal digits as there are; they
return the value and what follows it.  A C string is the list of its characters before the
terminator, so the end of the string is the end of the list.

A printed number followed by anything but a digit is read back, and what follows it is left
(`Prints`, `strtol_decimalInt`).
-/

namespace Marfs.Cstring

open List

def isspace (c : Char) : Bool := c == ' ' || (9 ≤ c.toNat && c.toNat ≤ 13)

/-- An optional sign: whether it is a minus, and what follows it. -/
def takeSign : List Char → Bool × List Char
  | '-' :: s => (true, s)
  | '+' :: s => (false, s)
  | s => (false, s)

def ullongMax : Nat := 2 ^ 64 - 1

/-- `LONG_MAX`; `LONG_MIN` is one below its negation. -/
def longMax : Int := 2 ^ 63 - 1

def scanNumber (s : List Char) : Option (Bool × Nat × List Char) :=
  let (neg, t) := takeSign (s.dropWhile isspace)
  match t.takeWhile Char.isDigit with
  | [] => none
  | digit :: digits => some (neg, Nat.ofDigitChars 10 (digit :: digits) 0, t.dropWhile Char.isDigit)

/-- `strtoull` in base ten: a number out of range gives `ULLONG_MAX`, a negated one is taken modulo
`2 ^ 64`. -/
def strtoull (s : List Char) : Nat × List Char :=
  match scanNumber s with
  | none => (0, s)
  | some (neg, n, endptr) =>
    (if n > ullongMax then ullongMax else if neg then (2 ^ 64 - n) % 2 ^ 64 else n, endptr)

/-- `strtol` in base ten: a number out of range gives the bound it exceeds. -/
def strtol (s : List Char) : Int × List Char :=
  match scanNumber s with
  | none => (0, s)
  | some (neg, n, endptr) =>
    (if neg then max (-(n : Int)) (-longMax - 1) else min (n : Int) longMax, endptr)

/-- `%d`, `%ld`: a minus sign before the digits of a negative number. -/
def decimalInt (n : Int) : List Char :=
  if n < 0 then '-' :: decimal n.natAbs else decimal n.natAbs

/-- The value stored when `n` is converted to an unsigned 64-bit integer. -/
def toUll (n : Int) : Nat := (n % 2 ^ 64).toNat

/-- A number ends here: no digit follows. -/
def Stops (s : List Char) : Prop := ∀ c ∈ s.head?, c.isDigit = false

@[simp] theorem stops_nil : Stops [] := by simp [Stops]

variable {c : Char} {n : Nat} {digits rest : List Char}

@[simp] theorem stops_cons {s : List Char} : Stops (c :: s) ↔ c.isDigit = false := by
  simp [Stops]

/-! ## Printed digits -/

theorem isDigit_of_mem_decimal (h : c ∈ decimal n) : c.isDigit = true :=
  Nat.isDigit_of_mem_toDigits (by decide) (by decide) h

theorem decimal_ne_nil (n : Nat) : decimal n ≠ [] := Nat.toDigits_ne_nil

theorem isDigit_of_mem_padded {w : Nat} (h : c ∈ padded w n) : c.isDigit = true := by
  rcases List.mem_append.1 h with h | h
  · rw [eq_of_mem_replicate h]
    rfl
  · exact isDigit_of_mem_decimal h

theorem padded_ne_nil (w n : Nat) : padded w n ≠ [] := by
  simp [padded, decimal_ne_nil]

@[simp] theorem ofDigitChars_decimal (n : Nat) : Nat.ofDigitChars 10 (decimal n) 0 = n :=
  Nat.ofDigitChars_ten_toDigits

@[simp] theorem ofDigitChars_padded (w n : Nat) : Nat.ofDigitChars 10 (padded w n) 0 = n := by
  rw [padded, Nat.ofDigitChars_append, Nat.ofDigitChars_replicate_zero, Nat.mul_zero,
    ofDigitChars_decimal]

theorem ofDigitChars_lt (h : ∀ c ∈ digits, c.isDigit = true) :
    ∀ init, Nat.ofDigitChars 10 digits init < (init + 1) * 10 ^ digits.length := by
  induction digits with
  | nil =>
    intro init
    rw [Nat.ofDigitChars_nil, length_nil, Nat.pow_zero, Nat.mul_one]
    exact Nat.lt_succ_self init
  | cons c digits ih =>
    intro init
    have hdigit : c.toNat - '0'.toNat ≤ 9 := by
      have hc := h c (mem_cons_self ..)
      have hzero : '0'.toNat = 48 := rfl
      simp only [Char.isDigit, ge_iff_le, Bool.and_eq_true, decide_eq_true_eq,
        UInt32.le_iff_toNat_le] at hc
      have hle : c.toNat ≤ 57 := hc.2
      omega
    have hnext := ih (fun d hd => h d (mem_cons_of_mem _ hd)) (10 * init + (c.toNat - '0'.toNat))
    rw [Nat.ofDigitChars_cons, length_cons, Nat.pow_succ, Nat.mul_comm _ 10, ← Nat.mul_assoc]
    exact hnext.trans_le (Nat.mul_le_mul_right _ (by omega))

theorem ofDigitChars_pos (hn : 0 < n) (h : decimal n = digits ++ rest) (hne : digits ≠ []) :
    0 < Nat.ofDigitChars 10 digits 0 := by
  have hrest : ∀ c ∈ rest, c.isDigit = true := fun c hc =>
    isDigit_of_mem_decimal (h ▸ mem_append_right digits hc)
  apply Nat.pos_of_ne_zero
  intro hzero
  have hval : n = Nat.ofDigitChars 10 rest 0 := by
    rw [← ofDigitChars_decimal n, h, Nat.ofDigitChars_append, hzero]
  have hlt := ofDigitChars_lt hrest 0
  rw [← hval, Nat.zero_add, Nat.one_mul] at hlt
  have hlen := congrArg List.length h
  have hpos := List.length_pos_iff.2 hne
  rw [length_append] at hlen
  cases hcnt : rest.length with
  | zero =>
    rw [hcnt] at hlt
    omega
  | succ k =>
    have hle := (Nat.length_toDigits_le_iff (by decide) (by omega : 0 < rest.length)).2 hlt
    rw [decimal] at hlen
    omega

theorem takeWhile_isDigit (h : ∀ c ∈ digits, c.isDigit = true) (hrest : Stops rest) :
    (digits ++ rest).takeWhile Char.isDigit = digits ∧
      (digits ++ rest).dropWhile Char.isDigit = rest := by
  have hnone : rest.takeWhile Char.isDigit = [] ∧ rest.dropWhile Char.isDigit = rest := by
    cases rest with
    | nil => exact ⟨rfl, rfl⟩
    | cons c rest => simp_all
  exact ⟨by rw [takeWhile_append_of_pos h, hnone.1, List.append_nil],
    by rw [dropWhile_append_of_pos h, hnone.2]⟩

theorem not_isspace_of_isDigit (h : c.isDigit = true) : isspace c = false := by
  simp only [Char.isDigit, ge_iff_le, Bool.and_eq_true, decide_eq_true_eq, UInt32.le_iff_toNat_le] at h
  change 48 ≤ c.toNat ∧ c.toNat ≤ 57 at h
  have hspace : c ≠ ' ' := fun heq => by
    rw [heq] at h
    exact absurd h.1 (by decide)
  simp only [isspace, Bool.or_eq_false_iff, beq_eq_false_iff_ne, Bool.and_eq_false_iff,
    decide_eq_false_iff_not]
  exact ⟨hspace, .inr (by omega)⟩

theorem takeSign_of_isDigit {s : List Char} (h : c.isDigit = true) : takeSign (c :: s) = (false, c :: s) := by
  unfold takeSign
  split
  · rename_i heq
    obtain ⟨rfl, -⟩ := List.cons.inj heq
    exact absurd h (by decide)
  · rename_i heq
    obtain ⟨rfl, -⟩ := List.cons.inj heq
    exact absurd h (by decide)
  · rfl

theorem scanNumber_digits (h : ∀ c ∈ digits, c.isDigit = true) (hne : digits ≠ []) (hrest : Stops rest) :
    scanNumber (digits ++ rest) = some (false, Nat.ofDigitChars 10 digits 0, rest) := by
  obtain ⟨htake, hdrop⟩ := takeWhile_isDigit h hrest
  cases digits with
  | nil => exact absurd rfl hne
  | cons c digits =>
    have hc := h c (mem_cons_self ..)
    unfold scanNumber
    rw [cons_append, dropWhile_cons_of_neg (by simp [not_isspace_of_isDigit hc]),
      takeSign_of_isDigit hc]
    rw [cons_append] at htake hdrop
    simp only [htake, hdrop]

theorem scanNumber_neg (h : ∀ c ∈ digits, c.isDigit = true) (hne : digits ≠ []) (hrest : Stops rest) :
    scanNumber ('-' :: (digits ++ rest)) = some (true, Nat.ofDigitChars 10 digits 0, rest) := by
  obtain ⟨htake, hdrop⟩ := takeWhile_isDigit h hrest
  cases digits with
  | nil => exact absurd rfl hne
  | cons c digits =>
    unfold scanNumber
    rw [dropWhile_cons_of_neg (by decide)]
    simp only [takeSign, htake, hdrop]

/-! ## Reading back -/

theorem takeSign_suffix (s : List Char) : (takeSign s).2 <:+ s := by
  unfold takeSign
  split
  · exact suffix_cons ..
  · exact suffix_cons ..
  · exact suffix_rfl

/-- What is left of a string is its end. -/
theorem scanNumber_suffix {s : List Char} {neg : Bool} (h : scanNumber s = some (neg, n, rest)) :
    rest <:+ s := by
  unfold scanNumber at h
  dsimp only at h
  split at h
  · cases h
  · cases h
    exact ((dropWhile_suffix _).trans (takeSign_suffix _)).trans (dropWhile_suffix _)

theorem strtoull_suffix (s : List Char) : (strtoull s).2 <:+ s := by
  unfold strtoull
  split
  · exact suffix_rfl
  · rename_i h
    exact scanNumber_suffix h

theorem strtoull_le (s : List Char) : (strtoull s).1 ≤ ullongMax := by
  unfold strtoull
  split
  · exact Nat.zero_le _
  · dsimp only
    unfold ullongMax
    split
    · exact le_rfl
    · split <;> omega

/-- The string is read back as the number `n`, whatever follows it. -/
def Prints (digits : List Char) (n : Nat) : Prop :=
  ∀ rest, Stops rest → strtoull (digits ++ rest) = (n, rest)

theorem prints_decimal (hn : n ≤ ullongMax) : Prints (decimal n) n := by
  intro rest hrest
  unfold strtoull
  rw [scanNumber_digits (fun _ => isDigit_of_mem_decimal) (decimal_ne_nil n) hrest]
  simp [hn]

theorem prints_padded {w : Nat} (hn : n ≤ ullongMax) : Prints (padded w n) n := by
  intro rest hrest
  unfold strtoull
  rw [scanNumber_digits (fun _ => isDigit_of_mem_padded) (padded_ne_nil w n) hrest]
  simp [hn]

theorem prints_decimalInt {n : Int} (hn : n.natAbs ≤ ullongMax) : Prints (decimalInt n) (toUll n) := by
  intro rest hrest
  by_cases hneg : n < 0
  · unfold strtoull
    rw [decimalInt, if_pos hneg, cons_append,
      scanNumber_neg (fun _ => isDigit_of_mem_decimal) (decimal_ne_nil _) hrest]
    have hmod : toUll n = (2 ^ 64 - n.natAbs) % 2 ^ 64 := by
      unfold ullongMax at hn
      unfold toUll
      omega
    simp [hn, hmod]
  · have hval : toUll n = n.natAbs := by
      unfold ullongMax at hn
      unfold toUll
      omega
    rw [decimalInt, if_neg hneg, hval]
    exact prints_decimal hn rest hrest

theorem strtol_decimalInt {n : Int} (hmin : -longMax - 1 ≤ n) (hmax : n ≤ longMax) (hrest : Stops rest) :
    strtol (decimalInt n ++ rest) = (n, rest) := by
  unfold strtol
  by_cases hneg : n < 0
  · rw [decimalInt, if_pos hneg, cons_append,
      scanNumber_neg (fun _ => isDigit_of_mem_decimal) (decimal_ne_nil _) hrest]
    simp only [ofDigitChars_decimal, if_true]
    congr 1
    omega
  · rw [decimalInt, if_neg hneg,
      scanNumber_digits (fun _ => isDigit_of_mem_decimal) (decimal_ne_nil _) hrest]
    simp only [ofDigitChars_decimal, Bool.false_eq_true, if_false]
    congr 1
    omega

end Marfs.Cstring
