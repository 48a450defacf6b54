import Marfs.Cstring.Strto
import Marfs.Machine.SizeT
import Mathlib.Data.List.TakeWhile
import Mathlib.Tactic.Ring

/-!
# Sizes in a configuration

A size is a number in the text of a node, with a unit behind it or none.  The product is taken modulo
`2 ^ 64` before it is compared with `SIZE_MAX`, and the number is read by `strtoull`, which takes
blanks, a sign or no digit at all; `ReadsExactly` is what a text must be for its size to be exact.
-/

namespace Marfs.Config

open Machine Cstring

def sizeUnit : Char → Option Nat
  | 'K' => some 1024
  | 'M' => some 1048576
  | 'G' => some 1073741824
  | 'T' => some 1099511627776
  | 'P' => some 1125899906842624
  | _ => none

/-- What is behind the digits of a size: nothing, or one unit. -/
def unitmult : List Char → Option Nat
  | [] => some 1
  | [unit] => sizeUnit unit
  | _ => none

def storeSize (value : Nat) : Option Nat :=
  if value ≥ SizeT.modulus - 1 then none else some value

def parseSizeNode : Option (List Char) → Option Nat
  | none => some 0
  | some valuestr =>
    let parsed := strtoull valuestr
    (unitmult parsed.2).bind fun mult => storeSize (SizeT.wrap (parsed.1 * mult))

variable {n mult : Nat} {unit text : List Char}

variable {value size : Nat} {neg : Bool}

theorem storeSize_lt (h : storeSize value = some n) : n < SizeT.modulus - 1 := by
  unfold storeSize at h
  split at h
  · cases h
  · next hlt =>
    obtain rfl := Option.some.inj h
    exact Nat.lt_of_not_le hlt

theorem parseSizeNode_lt {content : Option (List Char)} (h : parseSizeNode content = some n) :
    n < SizeT.modulus - 1 := by
  cases content with
  | none =>
    obtain rfl : 0 = n := Option.some.inj h
    decide
  | some valuestr =>
    obtain ⟨mult, -, hmult⟩ := Option.bind_eq_some_iff.1 h
    exact storeSize_lt hmult

/-! ## The size a text denotes -/

def IsSize (text : List Char) (size : Nat) : Prop :=
  ∃ digits unit mult, text = digits ++ unit ∧ digits ≠ [] ∧ (∀ c ∈ digits, c.isDigit = true) ∧
    unitmult unit = some mult ∧ size = Nat.ofDigitChars 10 digits 0 * mult

def StartsWithDigit (text : List Char) : Prop := ∃ c ∈ text.head?, c.isDigit = true

/-- A text is read as it stands when something else than a unit is behind the number, when the
number is out of range and has no unit, or when a digit comes first and the product does not wrap. -/
def ReadsExactly (text : List Char) : Prop :=
  match scanNumber text with
  | none => unitmult text = none
  | some (neg, n, unit) =>
    unitmult unit = none ∨
      (unit = [] ∧ if neg then n = 1 ∨ ullongMax < n else ullongMax ≤ n) ∨
      (StartsWithDigit text ∧ ∀ mult, unitmult unit = some mult → n * mult ≤ ullongMax)

/-! ## Units -/

theorem unitmult_cases (h : unitmult unit = some mult) :
    unit = [] ∧ mult = 1 ∨ unit ≠ [] ∧ 1024 ∣ mult ∧ 0 < mult := by
  unfold unitmult at h
  split at h
  · exact .inl ⟨rfl, (Option.some.inj h).symm⟩
  · right
    refine ⟨List.cons_ne_nil _ _, ?_⟩
    unfold sizeUnit at h
    split at h <;> cases h <;> decide
  · cases h

theorem unitmult_pos (h : unitmult unit = some mult) : 0 < mult := by
  rcases unitmult_cases h with ⟨-, rfl⟩ | ⟨-, -, hpos⟩
  · exact Nat.one_pos
  · exact hpos

theorem unitmult_stops (h : unitmult unit = some mult) : Stops unit := by
  unfold unitmult at h
  split at h
  · exact stops_nil
  · rw [stops_cons]
    unfold sizeUnit at h
    split at h <;> first | rfl | cases h
  · cases h

/-! ## The number of a text -/

theorem scanNumber_of_digit (hdigit : StartsWithDigit text) (h : scanNumber text = some (neg, n, unit)) :
    neg = false ∧ ∃ digits, text = digits ++ unit ∧ digits ≠ [] ∧
      (∀ c ∈ digits, c.isDigit = true) ∧ n = Nat.ofDigitChars 10 digits 0 := by
  obtain ⟨c, hc, hcd⟩ := hdigit
  cases text with
  | nil => cases hc
  | cons d text =>
    obtain rfl : d = c := Option.some.inj hc
    unfold scanNumber at h
    rw [List.dropWhile_cons_of_neg (by simp [not_isspace_of_isDigit hcd]),
      takeSign_of_isDigit hcd] at h
    dsimp only at h
    rw [List.takeWhile_cons_of_pos hcd] at h
    cases h
    refine ⟨rfl, d :: text.takeWhile Char.isDigit, ?_, List.cons_ne_nil _ _, ?_, rfl⟩
    · rw [← List.takeWhile_cons_of_pos hcd, List.takeWhile_append_dropWhile]
    · intro e he
      rw [← List.takeWhile_cons_of_pos hcd] at he
      exact List.mem_takeWhile_imp he

theorem isSize_iff :
    IsSize text size ↔ StartsWithDigit text ∧ ∃ n unit mult,
      scanNumber text = some (false, n, unit) ∧ unitmult unit = some mult ∧ size = n * mult := by
  constructor
  · rintro ⟨digits, unit, mult, rfl, hne, hdig, hunit, rfl⟩
    refine ⟨?_, _, unit, mult, scanNumber_digits hdig hne (unitmult_stops hunit), hunit, rfl⟩
    cases digits with
    | nil => exact absurd rfl hne
    | cons d digits => exact ⟨d, rfl, hdig d (List.mem_cons_self ..)⟩
  · rintro ⟨hdigit, n, unit, mult, hscan, hunit, rfl⟩
    obtain ⟨-, digits, htext, hne, hdig, rfl⟩ := scanNumber_of_digit hdigit hscan
    exact ⟨digits, unit, mult, htext, hne, hdig, hunit, rfl⟩

/-! ## When a size is exact -/

theorem storeSize_eq_some : storeSize value = some n ↔ value = n ∧ value < SizeT.modulus - 1 := by
  unfold storeSize
  split
  · next hge => simp; omega
  · next hlt => simp; omega

theorem wrap_mul_lt (n : Nat) (h : 1024 ∣ mult) : SizeT.wrap (n * mult) < SizeT.modulus - 1 := by
  obtain ⟨k, rfl⟩ := h
  have heven : n * (1024 * k) = 2 * (512 * (n * k)) := by ring
  rw [heven]
  unfold SizeT.wrap SizeT.modulus
  omega

theorem parseSizeNode_eq_some :
    parseSizeNode (some text) = some size ↔ ∃ mult, unitmult (strtoull text).2 = some mult ∧
      SizeT.wrap ((strtoull text).1 * mult) = size ∧ size < SizeT.modulus - 1 := by
  simp only [parseSizeNode, Option.bind_eq_some_iff, storeSize_eq_some]
  constructor
  · rintro ⟨mult, hunit, rfl, hlt⟩
    exact ⟨mult, hunit, rfl, hlt⟩
  · rintro ⟨mult, hunit, rfl, hlt⟩
    exact ⟨mult, hunit, rfl, hlt⟩

theorem strtoull_eq_max (h : scanNumber text = some (neg, n, unit)) :
    (strtoull text).1 = ullongMax ↔ if neg then n = 1 ∨ ullongMax < n else ullongMax ≤ n := by
  unfold strtoull
  rw [h]
  unfold ullongMax
  dsimp only
  cases neg with
  | false =>
    simp only [Bool.false_eq_true, if_false]
    split <;> omega
  | true =>
    simp only [if_true]
    split <;> omega

theorem strtoull_of_scan (h : scanNumber text = some (false, n, unit)) (hn : n ≤ ullongMax) :
    strtoull text = (n, unit) := by
  unfold strtoull
  rw [h]
  simp [Nat.not_lt.2 hn]

theorem strtoull_unit (h : scanNumber text = some (neg, n, unit)) : (strtoull text).2 = unit := by
  unfold strtoull
  rw [h]

theorem ReadsExactly.exact (h : ReadsExactly text) (hprs : parseSizeNode (some text) = some size) :
    IsSize text size ∧ size < SizeT.modulus - 1 := by
  obtain ⟨mult, hunit, hsize, hlt⟩ := parseSizeNode_eq_some.1 hprs
  refine ⟨?_, hlt⟩
  unfold ReadsExactly at h
  split at h
  · next hscan =>
    have htext : (strtoull text).2 = text := by unfold strtoull; rw [hscan]
    rw [htext, h] at hunit
    cases hunit
  · next neg n unit hscan =>
    rw [strtoull_unit hscan] at hunit
    rcases h with hnone | ⟨rfl, hmax⟩ | ⟨hdigit, hfits⟩
    · rw [hnone] at hunit
      cases hunit
    · -- a number out of range is `SIZE_MAX`, and that is not stored
      obtain rfl : 1 = mult := Option.some.inj hunit
      rw [(strtoull_eq_max hscan).2 hmax, Nat.mul_one] at hsize
      subst hsize
      exact absurd hlt (by decide)
    · obtain ⟨rfl, -⟩ := scanNumber_of_digit hdigit hscan
      have hn : n ≤ ullongMax :=
        (Nat.le_mul_of_pos_right n (unitmult_pos hunit)).trans (hfits mult hunit)
      have hwrap : SizeT.wrap (n * mult) = n * mult :=
        SizeT.wrap_of_lt (Nat.lt_of_le_of_lt (hfits mult hunit) (by decide))
      rw [strtoull_of_scan hscan hn, hwrap] at hsize
      exact isSize_iff.2 ⟨hdigit, n, unit, mult, hscan, hunit, hsize.symm⟩

theorem ReadsExactly.of_exact (h : ∀ size, parseSizeNode (some text) = some size →
      IsSize text size ∧ size < SizeT.modulus - 1) : ReadsExactly text := by
  unfold ReadsExactly
  split
  · next hscan =>
    -- a text without a number would be stored as zero
    have htext : strtoull text = (0, text) := by unfold strtoull; rw [hscan]
    cases hunit : unitmult text with
    | none => rfl
    | some mult =>
      have hprs : parseSizeNode (some text) = some 0 := by
        refine parseSizeNode_eq_some.2 ⟨mult, by rw [htext]; exact hunit, ?_, by decide⟩
        rw [htext, Nat.zero_mul]
        rfl
      obtain ⟨-, n, unit, _, hsome, -⟩ := isSize_iff.1 (h 0 hprs).1
      rw [hscan] at hsome
      cases hsome
  · next neg n unit hscan =>
    cases hunit : unitmult unit with
    | none => exact .inl rfl
    | some mult =>
      right
      have hmult : unitmult (strtoull text).2 = some mult := by rw [strtoull_unit hscan, hunit]
      by_cases hlt : SizeT.wrap ((strtoull text).1 * mult) < SizeT.modulus - 1
      · -- the size is stored, so it is the one the text denotes
        right
        obtain ⟨hsize, -⟩ := h _ (parseSizeNode_eq_some.2 ⟨mult, hmult, rfl, hlt⟩)
        obtain ⟨hdigit, n', unit', mult', hscan', hunit', heq⟩ := isSize_iff.1 hsize
        rw [hscan] at hscan'
        cases hscan'
        rw [hunit] at hunit'
        cases hunit'
        refine ⟨hdigit, fun other hoth => ?_⟩
        obtain rfl : mult = other := Option.some.inj hoth
        rw [← heq]
        exact Nat.le_trans (Nat.le_of_lt hlt) (by decide)
      · left
        rcases unitmult_cases hunit with ⟨rfl, rfl⟩ | ⟨-, heven, -⟩
        · refine ⟨rfl, (strtoull_eq_max hscan).1 ?_⟩
          have hle := strtoull_le text
          rw [Nat.mul_one, SizeT.wrap_of_lt (Nat.lt_of_le_of_lt hle (by decide))] at hlt
          unfold SizeT.modulus at hlt
          unfold ullongMax at *
          omega
        · exact absurd (wrap_mul_lt _ heven) hlt

/-- A size is stored as the text denotes it exactly for the texts that are read as they stand. -/
theorem parseSizeNode_exact_iff (text : List Char) :
    (∀ size, parseSizeNode (some text) = some size →
      IsSize text size ∧ size < SizeT.modulus - 1) ↔ ReadsExactly text :=
  ⟨ReadsExactly.of_exact, fun h _ => h.exact⟩

/-- A size of `2 ^ 64` is stored as zero. -/
theorem wrapped_size_inexact :
    parseSizeNode (some "16384P".toList) = some 0 ∧ IsSize "16384P".toList (2 ^ 64) ∧
      ¬ ∀ size, parseSizeNode (some "16384P".toList) = some size →
        IsSize "16384P".toList size ∧ size < SizeT.modulus - 1 := by
  have hscan : scanNumber "16384P".toList = some (false, 16384, ['P']) := by decide +kernel
  have hparse : parseSizeNode (some "16384P".toList) = some 0 := by decide +kernel
  refine ⟨hparse, ?_, fun h => ?_⟩
  · exact isSize_iff.2 ⟨⟨'1', by decide +kernel, by decide⟩, 16384, ['P'], _, hscan, rfl, by decide⟩
  · obtain ⟨-, n, unit, mult, hscan', hunit, heq⟩ := isSize_iff.1 (h 0 hparse).1
    rw [hscan] at hscan'
    cases hscan'
    cases hunit
    exact absurd heq (by decide)

end Marfs.Config
