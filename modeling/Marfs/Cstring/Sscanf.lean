import Marfs.Cstring.Strto

/-!
# Scanning words

`sscanf` with conversions such as `%19s` skips blanks and reads a word of at most so many characters;
what does not fit is left for the next conversion.  A conversion may be suppressed, and then it is read
over and not counted.
-/

namespace Marfs.Cstring

open List

/-- `%Ns`, or `%*Ns` if it is suppressed. -/
structure WordConversion where
  width : Nat
  suppressed : Bool
  deriving DecidableEq, Repr

def scanWords : List WordConversion → List Char → List (List Char)
  | [], _ => []
  | conversion :: conversions, s =>
    let s := s.dropWhile isspace
    if s = [] then []
    else
      let word := (s.take conversion.width).takeWhile fun c => !isspace c
      if conversion.suppressed then scanWords conversions (s.drop word.length)
      else word :: scanWords conversions (s.drop word.length)

structure IsWord (word : List Char) : Prop where
  ne_nil : word ≠ []
  nonblank : ∀ c ∈ word, isspace c = false

theorem scanWords_nil (conversions : List WordConversion) : scanWords conversions [] = [] := by
  cases conversions <;> rfl

theorem scanWords_length (conversions : List WordConversion) : ∀ s : List Char,
    (scanWords conversions s).length ≤
      (conversions.filter fun conversion => !conversion.suppressed).length := by
  induction conversions with
  | nil => exact fun _ => le_rfl
  | cons conversion conversions ih =>
    intro s
    rw [scanWords]
    dsimp only
    split
    · exact Nat.zero_le _
    · split
      · rename_i hsuppressed
        rw [filter_cons_of_neg (by simp [hsuppressed])]
        exact ih _
      · rename_i hassigned
        rw [filter_cons_of_pos (by simp [hassigned]), length_cons, length_cons]
        exact Nat.succ_le_succ (ih _)

theorem scanWords_blank {c : Char} (hc : isspace c = true) (conversions : List WordConversion)
    (s : List Char) : scanWords conversions (c :: s) = scanWords conversions s := by
  cases conversions with
  | nil => rfl
  | cons conversion conversions => rw [scanWords, scanWords, dropWhile_cons_of_pos hc]

theorem scanWords_word {word rest : List Char} (h : IsWord word) {width : Nat} (hlen : word.length ≤ width)
    (hrest : ∀ c ∈ rest.head?, isspace c = true) (conversions : List WordConversion) :
    scanWords ({ width := width, suppressed := false } :: conversions) (word ++ rest) =
      word :: scanWords conversions rest := by
  obtain ⟨c, word, rfl⟩ := exists_cons_of_ne_nil h.ne_nil
  have hblank : (c :: word ++ rest).dropWhile isspace = c :: word ++ rest := by
    rw [cons_append, dropWhile_cons_of_neg]
    rw [h.nonblank c (mem_cons_self ..)]
    exact Bool.false_ne_true
  have hstop : (rest.take (width - (c :: word).length)).takeWhile (fun c => !isspace c) = [] := by
    cases rest with
    | nil => simp
    | cons d rest =>
      cases width - (c :: word).length with
      | zero => rfl
      | succ n => rw [take_succ_cons, takeWhile_cons_of_neg (by simp [hrest d rfl])]
  have htake : ((c :: word ++ rest).take width).takeWhile (fun c => !isspace c) = c :: word := by
    rw [take_append, take_of_length_le hlen, takeWhile_append_of_pos, hstop,
      List.append_nil]
    intro d hd
    rw [h.nonblank d hd]
    rfl
  have hdrop : (c :: word ++ rest).drop (c :: word).length = rest := drop_left
  rw [scanWords, hblank, htake, if_neg (by simp)]
  dsimp only
  rw [hdrop, if_neg Bool.false_ne_true]

end Marfs.Cstring
