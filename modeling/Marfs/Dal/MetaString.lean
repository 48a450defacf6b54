import Marfs.Cstring.Sscanf
import Marfs.Dal.MetaInfo
import Mathlib.Data.List.TakeWhile

/-!
# The metadata of a block as a string

`dal_set_meta_helper` stores the values of a `meta_info` behind a version tag, and
`dal_get_meta_helper` reads them back.  Strings without the tag are older: their fifth value is not
used.  They have a value less to be read, but as many are expected, and the last one is the total size.
-/

namespace Marfs.Dal

open Cstring List

/-- `get_minfo_strlen`: 8 bits for each of the 56 bytes of the struct, and 13 more characters. -/
def getMinfoStrlen : Nat := 56 * 8 / 3 + 13

/-! ## Storing -/

/-- What is printed. -/
def metaText (minfo : MetaInfo) : List Char :=
  "v1 ".toList ++ decimalInt minfo.N ++ ' ' :: decimalInt minfo.E ++ ' ' :: decimalInt minfo.O ++
    ' ' :: decimalInt minfo.partsz ++ ' ' :: decimalInt minfo.versz ++ ' ' :: decimalInt minfo.blocksz ++
    ' ' :: decimal (toUll minfo.crcsum) ++ ' ' :: decimalInt minfo.totsz ++ ['\n']

/-- `dal_set_meta_helper`: the bytes that are stored, the terminator among them. -/
def dalSetMetaHelper (minfo : MetaInfo) : List Char :=
  (metaText minfo).take (getMinfoStrlen - 1) ++ ['\x00']

/-! ## Reading back -/

def standIns : MetaInfo where
  N := 0
  E := -1
  O := -1
  partsz := -1
  versz := -1
  blocksz := -1
  crcsum := -1
  totsz := -1

/-- `sscanf` of a version tag, behind the letter: what it returns, and the value. -/
def scanVertag (s : List Char) : Int × Option Int :=
  if s.dropWhile isspace = [] then (-1, none)
  else
    match scanNumber s with
    | none => (0, none)
    | some _ => (1, some (Int.bmod (strtol s).1 (2 ^ 32)))

def parseVertag (str : List Char) : Int × List Char :=
  match str with
  | 'v' :: s =>
    let (res, value) := scanVertag s
    (value.getD 1, if res ≠ 0 then (str.dropWhile (· ≠ ' ')).tail else str)
  | _ => (0, str)

def wordOf (width : Nat) : WordConversion := { width := width, suppressed := false }

/-- The values of a string with a tag. -/
def taggedConversions : List WordConversion :=
  [wordOf 4, wordOf 4, wordOf 4, wordOf 19, wordOf 19, wordOf 19, wordOf 19, wordOf 19]

/-- The values of a string without a tag. -/
def legacyConversions : List WordConversion :=
  [wordOf 4, wordOf 4, wordOf 4, wordOf 19, { width := 19, suppressed := true }, wordOf 19, wordOf 19,
    wordOf 19]

def parseValue (ret gtVal : Nat) (str : List Char) (val status : Int) : Int × Int :=
  if ret > gtVal then
    let (tmpVal, endptr) := strtol str
    if endptr = [] ∧ tmpVal > val then (tmpVal, status) else (val, status - 1)
  else (val, status)

/-- The values are parsed one after the other.  The first three have at most four characters, and fit
into an `int`. -/
def parseValues (ret : Nat) (str : Nat → List Char) (status : Int) : MetaInfo × Int :=
  let (N, status) := parseValue ret 0 (str 0) standIns.N status
  let (E, status) := parseValue ret 1 (str 1) standIns.E status
  let (O, status) := parseValue ret 2 (str 2) standIns.O status
  let (partsz, status) := parseValue ret 3 (str 3) standIns.partsz status
  let (versz, status) := parseValue ret 4 (str 4) standIns.versz status
  let (blocksz, status) := parseValue ret 5 (str 5) standIns.blocksz status
  let (crcsum, status) := parseValue ret 6 (str 6) standIns.crcsum status
  let (totsz, status) := parseValue ret 7 (str 7) standIns.totsz status
  ({ N := N, E := E, O := O, partsz := partsz, versz := versz, blocksz := blocksz, crcsum := crcsum
     totsz := totsz }, status)

/-- The arrays of the values, and how many of them `sscanf` has filled. -/
def scanValues (vertag : Int) (parse : List Char) : Nat × (Nat → List Char) :=
  if vertag ≠ 0 then
    let words := scanWords taggedConversions parse
    (words.length, fun i => (words[i]?).getD [])
  else
    let words := scanWords legacyConversions parse
    -- the version size is a copy of the part size
    (words.length, fun i => (words[if i < 4 then i else i - 1]?).getD [])

/-- `dal_get_meta_helper`: what it returns, and the values.  Of the eight values that are expected as
many are missing as were not read or not parsed. -/
def dalGetMetaHelper (stored : List Char) : Int × MetaInfo :=
  let dstrbytes := stored.length
  if dstrbytes = 0 ∨ dstrbytes > getMinfoStrlen then (-1, standIns)
  else
    let validSuffix := decide (2 ≤ dstrbytes ∧ stored[dstrbytes - 2]? = some '\n')
    let str := (stored.take (dstrbytes - 1)).takeWhile (· ≠ '\x00')
    let (vertag, parse) := parseVertag str
    let (ret, strs) := scanValues vertag parse
    if ret < 1 then (-1, standIns)
    else
      let (minfo, status) := parseValues ret strs ret
      (if validSuffix ∧ status = 8 then 0 else status, minfo)

/-! ## Stored strings -/

/-- The values of an object that can be stored. -/
structure MetaInfo.Storable (minfo : MetaInfo) : Prop where
  N : 1 ≤ minfo.N ∧ minfo.N ≤ 9999
  E : 0 ≤ minfo.E ∧ minfo.E ≤ 9999
  O : 0 ≤ minfo.O ∧ minfo.O ≤ 9999
  partsz : 0 ≤ minfo.partsz ∧ minfo.partsz ≤ longMax
  versz : 0 ≤ minfo.versz ∧ minfo.versz ≤ longMax
  blocksz : 0 ≤ minfo.blocksz ∧ minfo.blocksz ≤ longMax
  crcsum : 0 ≤ minfo.crcsum ∧ minfo.crcsum ≤ longMax
  totsz : 0 ≤ minfo.totsz ∧ minfo.totsz ≤ longMax

/-- Numbers, with a blank between them and a newline behind them. -/
def joined : List Nat → List Char
  | [] => ['\n']
  | [n] => decimal n ++ ['\n']
  | n :: m :: ns => decimal n ++ ' ' :: joined (m :: ns)

def MetaInfo.numbers (minfo : MetaInfo) : List Nat :=
  [minfo.N.toNat, minfo.E.toNat, minfo.O.toNat, minfo.partsz.toNat, minfo.versz.toNat,
    minfo.blocksz.toNat, minfo.crcsum.toNat, minfo.totsz.toNat]

variable {n : Int} {minfo : MetaInfo} {ret : Nat}

theorem decimalInt_of_nonneg (h : 0 ≤ n) : decimalInt n = decimal n.toNat := by
  rw [decimalInt, if_neg (by omega), show n.natAbs = n.toNat by omega]

theorem toUll_of_nonneg (h : 0 ≤ n) (hle : n ≤ longMax) : toUll n = n.toNat := by
  unfold longMax at hle
  rw [toUll, Int.emod_eq_of_lt h (by omega)]

theorem metaText_eq (h : minfo.Storable) : metaText minfo = 'v' :: '1' :: ' ' :: joined minfo.numbers := by
  unfold metaText MetaInfo.numbers
  rw [decimalInt_of_nonneg h.E.1, decimalInt_of_nonneg h.O.1, decimalInt_of_nonneg h.partsz.1,
    decimalInt_of_nonneg h.versz.1, decimalInt_of_nonneg h.blocksz.1, decimalInt_of_nonneg h.totsz.1,
    toUll_of_nonneg h.crcsum.1 h.crcsum.2, decimalInt_of_nonneg (by have := h.N.1; omega)]
  simp only [joined, append_assoc, cons_append]
  rfl

variable {width : Nat} {numbers widths : List Nat} {rest str stored text : List Char}
  {strs : Nat → List Char}

theorem decimal_length_le (bound : Nat) (h : n ≤ bound) (hpos : 0 < width) (hwidth : bound < 10 ^ width) :
    (decimal n.toNat).length ≤ width :=
  (Nat.length_toDigits_le_iff (by decide) hpos).2 (by omega)

theorem isWord_decimal (n : Nat) : IsWord (decimal n) :=
  ⟨decimal_ne_nil n, fun _ hc => not_isspace_of_isDigit (isDigit_of_mem_decimal hc)⟩

theorem scanWords_joined (h : Forall₂ (fun n width => (decimal n).length ≤ width) numbers widths) :
    scanWords (widths.map wordOf) (joined numbers) = numbers.map decimal := by
  induction h with
  | nil => rfl
  | @cons n width numbers widths hlen htail ih =>
    cases numbers with
    | nil =>
      cases htail
      rw [joined]
      exact scanWords_word (isWord_decimal n) hlen (by simp [isspace]) []
    | cons m numbers =>
      rw [joined, map_cons, wordOf, scanWords_word (isWord_decimal n) hlen (by simp [isspace]),
        scanWords_blank (by decide), ih]
      rfl

theorem joined_length_le (h : Forall₂ (fun n width => (decimal n).length ≤ width) numbers widths) :
    (joined numbers).length ≤ widths.sum + widths.length + 1 := by
  induction h with
  | nil => exact le_rfl
  | @cons n width numbers widths hlen htail ih =>
    rw [sum_cons, length_cons]
    cases numbers with
    | nil =>
      rw [joined, length_append, length_singleton]
      omega
    | cons m numbers =>
      rw [joined, length_append, length_cons]
      omega

def valueWidths : List Nat := [4, 4, 4, 19, 19, 19, 19, 19]

theorem MetaInfo.Storable.fits (h : minfo.Storable) :
    Forall₂ (fun n width => (decimal n).length ≤ width) minfo.numbers valueWidths := by
  have hfour : ∀ {n : Int}, n ≤ 9999 → (decimal n.toNat).length ≤ 4 := fun hn =>
    decimal_length_le 9999 hn (by decide) (by decide)
  have hlong : ∀ {n : Int}, n ≤ longMax → (decimal n.toNat).length ≤ 19 := fun hn =>
    decimal_length_le (2 ^ 63 - 1) hn (by decide) (by decide)
  exact .cons (hfour h.N.2) (.cons (hfour h.E.2) (.cons (hfour h.O.2) (.cons (hlong h.partsz.2)
    (.cons (hlong h.versz.2) (.cons (hlong h.blocksz.2) (.cons (hlong h.crcsum.2)
      (.cons (hlong h.totsz.2) .nil)))))))

theorem dalSetMetaHelper_eq (h : minfo.Storable) :
    dalSetMetaHelper minfo = metaText minfo ++ ['\x00'] ∧
      (dalSetMetaHelper minfo).length ≤ getMinfoStrlen := by
  have hlen : (metaText minfo).length ≤ getMinfoStrlen - 1 := by
    have hjoined := joined_length_le h.fits
    rw [metaText_eq h]
    exact (Nat.add_le_add_right hjoined 3).trans (by decide)
  have heq : dalSetMetaHelper minfo = metaText minfo ++ ['\x00'] := by
    rw [dalSetMetaHelper, take_of_length_le hlen]
  refine ⟨heq, ?_⟩
  rw [heq, length_append]
  exact (Nat.add_le_add_right hlen 1).trans (by decide)

/-! ## Reading a stored string -/

theorem nul_not_mem_joined (numbers : List Nat) : '\x00' ∉ joined numbers := by
  have hdec : ∀ n, '\x00' ∉ decimal n := by
    intro n hmem
    cases isDigit_of_mem_decimal hmem
  induction numbers with
  | nil => decide
  | cons n numbers ih =>
    cases numbers with
    | nil =>
      rw [joined, mem_append, not_or]
      exact ⟨hdec n, by decide⟩
    | cons m numbers =>
      rw [joined, mem_append, mem_cons, not_or, not_or]
      exact ⟨hdec n, by decide, ih⟩

theorem scanVertag_one (h : Stops rest) : scanVertag ('1' :: rest) = (1, some 1) := by
  have hnum : scanNumber (['1'] ++ rest) = some (false, Nat.ofDigitChars 10 ['1'] 0, rest) :=
    scanNumber_digits (by simp) (cons_ne_nil _ _) h
  have hval : strtol (decimalInt 1 ++ rest) = (1, rest) := strtol_decimalInt (by decide) (by decide) h
  have hone : decimalInt 1 = ['1'] := by decide
  rw [hone] at hval
  rw [singleton_append] at hnum hval
  have hne : ('1' :: rest).dropWhile isspace ≠ [] := by
    rw [dropWhile_cons_of_neg (by decide)]
    exact cons_ne_nil _ _
  unfold scanVertag
  rw [if_neg hne, hnum, hval]
  rfl

/-- The version tag is read, and what follows the blank behind it is left. -/
theorem parseVertag_one (h : Stops rest) :
    parseVertag ('v' :: '1' :: rest) = (1, (rest.dropWhile (· ≠ ' ')).tail) := by
  have hdrop : ('v' :: '1' :: rest).dropWhile (· ≠ ' ') = rest.dropWhile (· ≠ ' ') := rfl
  have hprs : parseVertag ('v' :: '1' :: rest) = ((scanVertag ('1' :: rest)).2.getD 1,
      if (scanVertag ('1' :: rest)).1 ≠ 0 then (('v' :: '1' :: rest).dropWhile (· ≠ ' ')).tail
      else 'v' :: '1' :: rest) := rfl
  rw [hprs, scanVertag_one h, hdrop]
  rfl

theorem parseValue_decimal (h : 0 ≤ n) (hle : n ≤ longMax) {gtVal : Nat} (hret : ret > gtVal) {val : Int}
    (hval : n > val) (status : Int) : parseValue ret gtVal (decimal n.toNat) val status = (n, status) := by
  have hvalue := strtol_decimalInt (n := n) (by unfold longMax; omega) hle stops_nil
  rw [List.append_nil, decimalInt_of_nonneg h] at hvalue
  unfold parseValue
  rw [if_pos hret, hvalue]
  dsimp only
  rw [if_pos ⟨rfl, hval⟩]

theorem parseValues_numbers (h : minfo.Storable) (status : Int) :
    parseValues 8 (fun i => ((minfo.numbers.map decimal)[i]?).getD []) status = (minfo, status) := by
  have hlong : (9999 : Int) ≤ longMax := by decide
  have hgt : ∀ {n : Int}, 0 ≤ n → n > -1 := Int.lt_of_lt_of_le (by decide)
  simp only [parseValues, MetaInfo.numbers, map_cons, List.getElem?_cons_zero,
    List.getElem?_cons_succ, Option.getD_some]
  rw [parseValue_decimal (Int.le_trans (by decide) h.N.1) (h.N.2.trans hlong) (by decide)
      (show minfo.N > standIns.N from h.N.1),
    parseValue_decimal h.E.1 (h.E.2.trans hlong) (by decide)
      (show minfo.E > standIns.E from hgt h.E.1),
    parseValue_decimal h.O.1 (h.O.2.trans hlong) (by decide)
      (show minfo.O > standIns.O from hgt h.O.1),
    parseValue_decimal h.partsz.1 h.partsz.2 (by decide)
      (show minfo.partsz > standIns.partsz from hgt h.partsz.1),
    parseValue_decimal h.versz.1 h.versz.2 (by decide)
      (show minfo.versz > standIns.versz from hgt h.versz.1),
    parseValue_decimal h.blocksz.1 h.blocksz.2 (by decide)
      (show minfo.blocksz > standIns.blocksz from hgt h.blocksz.1),
    parseValue_decimal h.crcsum.1 h.crcsum.2 (by decide)
      (show minfo.crcsum > standIns.crcsum from hgt h.crcsum.1),
    parseValue_decimal h.totsz.1 h.totsz.2 (by decide)
      (show minfo.totsz > standIns.totsz from hgt h.totsz.1)]

theorem joined_newline (numbers : List Nat) : ∃ front, joined numbers = front ++ ['\n'] ∧ '\n' ∉ front := by
  have hdec : ∀ n, '\n' ∉ decimal n := by
    intro n hmem
    cases isDigit_of_mem_decimal hmem
  induction numbers with
  | nil => exact ⟨[], rfl, not_mem_nil⟩
  | cons n numbers ih =>
    cases numbers with
    | nil => exact ⟨decimal n, rfl, hdec n⟩
    | cons m numbers =>
      obtain ⟨front, hfront, hmem⟩ := ih
      refine ⟨decimal n ++ ' ' :: front, ?_, ?_⟩
      · rw [joined, hfront, append_assoc, cons_append]
      · simp [hdec, hmem]

theorem metaText_newline (h : minfo.Storable) : ∃ front, metaText minfo = front ++ ['\n'] ∧ '\n' ∉ front := by
  obtain ⟨front, hfront, hmem⟩ := joined_newline minfo.numbers
  refine ⟨'v' :: '1' :: ' ' :: front, ?_, ?_⟩
  · rw [metaText_eq h, hfront]
    rfl
  · simp [hmem]

/-- The parts of the function, one after the other. -/
theorem dalGetMetaHelper_eq {parse : List Char} {vertag : Int} (hpos : stored.length ≠ 0)
    (hle : stored.length ≤ getMinfoStrlen)
    (hstr : (stored.take (stored.length - 1)).takeWhile (· ≠ '\x00') = str)
    (htag : parseVertag str = (vertag, parse)) (hscan : scanValues vertag parse = (ret, strs)) :
    dalGetMetaHelper stored =
      if ret < 1 then (-1, standIns)
      else
        (if (2 ≤ stored.length ∧ stored[stored.length - 2]? = some '\n') ∧
            (parseValues ret strs ret).2 = 8 then 0
          else (parseValues ret strs ret).2, (parseValues ret strs ret).1) := by
  unfold dalGetMetaHelper
  dsimp only
  rw [if_neg (by omega), hstr, htag]
  dsimp only
  rw [hscan]
  dsimp only
  simp only [decide_eq_true_eq]

theorem dalGetMetaHelper_stored (h : minfo.Storable) :
    dalGetMetaHelper (dalSetMetaHelper minfo) = (0, minfo) := by
  obtain ⟨heq, hlen⟩ := dalSetMetaHelper_eq h
  obtain ⟨front, hfront, -⟩ := metaText_newline h
  have hnul : '\x00' ∉ metaText minfo := by
    rw [metaText_eq h]
    simp [nul_not_mem_joined]
  have hcnt : (metaText minfo ++ ['\x00']).length = (metaText minfo).length + 1 := by
    rw [length_append, length_singleton]
  have hpos : 0 < (metaText minfo).length := by
    rw [hfront, length_append, length_singleton]
    omega
  have hstr : ((metaText minfo ++ ['\x00']).take ((metaText minfo ++ ['\x00']).length - 1)).takeWhile
      (· ≠ '\x00') = metaText minfo := by
    rw [hcnt, Nat.add_sub_cancel, take_left, takeWhile_eq_self_iff]
    intro c hc
    exact decide_eq_true fun hzero => hnul (hzero ▸ hc)
  have htag : parseVertag (metaText minfo) = (1, joined minfo.numbers) := by
    rw [metaText_eq h]
    exact parseVertag_one (stops_cons.2 (by decide))
  have hscan : scanValues 1 (joined minfo.numbers) =
      (8, fun i => ((minfo.numbers.map decimal)[i]?).getD []) := by
    have hwords : scanWords taggedConversions (joined minfo.numbers) = minfo.numbers.map decimal :=
      scanWords_joined h.fits
    rw [scanValues, if_pos (by decide), hwords]
    rfl
  have hnewline : (metaText minfo ++ ['\x00'])[(metaText minfo ++ ['\x00']).length - 2]? = some '\n' := by
    rw [hfront, append_assoc, length_append]
    simp
  rw [heq] at hlen
  rw [heq, dalGetMetaHelper_eq (by omega) hlen hstr htag hscan, if_neg (by omega),
    parseValues_numbers h, if_pos ⟨⟨by omega, hnewline⟩, rfl⟩]

/-! ## A string that is cut off -/

theorem parseValue_status (ret gtVal : Nat) (str : List Char) (val status : Int) :
    status - (if ret > gtVal then 1 else 0) ≤ (parseValue ret gtVal str val status).2 := by
  unfold parseValue
  split
  · dsimp only
    split <;> dsimp only <;> omega
  · dsimp only
    omega

theorem parseValues_status_pos (hret : 0 < ret) (hle : ret ≤ 8)
    (hfst : (parseValue ret 0 (strs 0) standIns.N ret).2 = ret) : 0 < (parseValues ret strs ret).2 := by
  unfold parseValues
  dsimp only
  rw [hfst]
  have hE := parseValue_status ret 1 (strs 1) standIns.E ret
  generalize (parseValue ret 1 (strs 1) standIns.E ret).2 = status at hE ⊢
  have hO := parseValue_status ret 2 (strs 2) standIns.O status
  generalize (parseValue ret 2 (strs 2) standIns.O status).2 = status at hO ⊢
  have hpsz := parseValue_status ret 3 (strs 3) standIns.partsz status
  generalize (parseValue ret 3 (strs 3) standIns.partsz status).2 = status at hpsz ⊢
  have hvsz := parseValue_status ret 4 (strs 4) standIns.versz status
  generalize (parseValue ret 4 (strs 4) standIns.versz status).2 = status at hvsz ⊢
  have hbsz := parseValue_status ret 5 (strs 5) standIns.blocksz status
  generalize (parseValue ret 5 (strs 5) standIns.blocksz status).2 = status at hbsz ⊢
  have hcrcsum := parseValue_status ret 6 (strs 6) standIns.crcsum status
  generalize (parseValue ret 6 (strs 6) standIns.crcsum status).2 = status at hcrcsum ⊢
  have htotsz := parseValue_status ret 7 (strs 7) standIns.totsz status
  generalize (parseValue ret 7 (strs 7) standIns.totsz status).2 = status at htotsz ⊢
  split_ifs at hE hO hpsz hvsz hbsz hcrcsum htotsz <;> omega

theorem scanWords_first {n : Nat} {c : Char} (hne : text ≠ []) (hc : isspace c = true)
    (htext : text <+: decimal n ++ c :: rest) (conversions : List WordConversion) (hwidth : 0 < width) :
    ∃ digits words, scanWords (wordOf width :: conversions) text = digits :: words ∧ digits ≠ [] ∧
      digits <+: decimal n := by
  obtain ⟨first, tail, rfl⟩ := exists_cons_of_ne_nil hne
  obtain ⟨d, ds, hdec⟩ := exists_cons_of_ne_nil (decimal_ne_nil n)
  have hfst : isspace first = false := by
    rw [hdec, cons_append, cons_prefix_cons] at htext
    rw [htext.1]
    exact not_isspace_of_isDigit (isDigit_of_mem_decimal (hdec ▸ mem_cons_self ..))
  have hblank : (first :: tail).dropWhile isspace = first :: tail :=
    dropWhile_cons_of_neg (by rw [hfst]; exact Bool.false_ne_true)
  have hscan : scanWords (wordOf width :: conversions) (first :: tail) =
      (((first :: tail).take width).takeWhile fun c => !isspace c) ::
        scanWords conversions ((first :: tail).drop
          (((first :: tail).take width).takeWhile fun c => !isspace c).length) := by
    rw [scanWords, hblank, if_neg hne]
    rfl
  refine ⟨_, _, hscan, ?_, ?_⟩
  · obtain ⟨k, rfl⟩ := Nat.exists_eq_add_of_lt hwidth
    rw [Nat.zero_add, take_succ_cons, takeWhile_cons_of_pos (by rw [hfst]; rfl)]
    exact cons_ne_nil _ _
  · have hpart : (((first :: tail).take width).takeWhile fun c => !isspace c) <+:
        decimal n ++ c :: rest :=
      ((List.takeWhile_prefix _).trans (List.take_prefix _ _)).trans htext
    rcases Nat.lt_or_ge (decimal n).length
      (((first :: tail).take width).takeWhile fun c => !isspace c).length with hlt | hle
    · -- a longer word would have the blank in it
      have hblankin : decimal n ++ [c] <+: decimal n ++ c :: rest :=
        ⟨rest, by rw [append_assoc, singleton_append]⟩
      have hlong := prefix_of_prefix_length_le hblankin hpart
        (by rw [length_append, length_singleton]; exact hlt)
      have hmem := mem_takeWhile_imp (hlong.subset (mem_append_right _ (mem_singleton_self c)))
      rw [hc] at hmem
      cases hmem
    · exact prefix_of_prefix_length_le hpart (prefix_append _ _) hle

theorem parseValue_first {n : Nat} (hn : 0 < n) {digits : List Char} (hne : digits ≠ [])
    (h : digits <+: decimal n) (hret : 0 < ret) (status : Int) :
    (parseValue ret 0 digits standIns.N status).2 = status := by
  obtain ⟨rest, hrest⟩ := h
  have hdig : ∀ c ∈ digits, c.isDigit = true := fun c hc =>
    isDigit_of_mem_decimal (hrest ▸ mem_append_left rest hc)
  have hpos := ofDigitChars_pos hn hrest.symm hne
  have hnum := scanNumber_digits hdig hne stops_nil
  rw [List.append_nil] at hnum
  have hstrtol : strtol digits = (min (Nat.ofDigitChars 10 digits 0 : Int) longMax, []) := by
    unfold strtol
    rw [hnum]
    rfl
  have hlong : (0 : Int) < longMax := by decide
  unfold parseValue
  rw [if_pos hret, hstrtol]
  dsimp only
  rw [if_pos ⟨rfl, lt_min (show standIns.N < _ from Int.natCast_pos.2 hpos) hlong⟩]

theorem scanValues_length_le (vertag : Int) (parse : List Char) : (scanValues vertag parse).1 ≤ 8 := by
  unfold scanValues
  split
  · exact scanWords_length taggedConversions parse
  · exact (scanWords_length legacyConversions parse).trans (by decide)

theorem scanValues_prefix (h : minfo.Storable) (htext : text <+: joined minfo.numbers)
    (hscan : scanValues 1 text = (ret, strs)) :
    ret = 0 ∨ 0 < ret ∧ (parseValue ret 0 (strs 0) standIns.N ret).2 = ret := by
  rw [scanValues, if_pos (by decide)] at hscan
  by_cases hne : text = []
  · rw [hne, scanWords_nil] at hscan
    exact .inl (congrArg Prod.fst hscan).symm
  · have hN := h.N.1
    obtain ⟨digits, words, hwords, hdig, hpre⟩ := scanWords_first hne (by decide) htext
      [wordOf 4, wordOf 4, wordOf 19, wordOf 19, wordOf 19, wordOf 19, wordOf 19] (by decide : 0 < 4)
    have hscanned : scanWords taggedConversions text = digits :: words := hwords
    rw [hscanned] at hscan
    obtain ⟨rfl, rfl⟩ := Prod.mk.inj hscan
    exact .inr ⟨Nat.succ_pos _, parseValue_first (by omega) hdig hpre (Nat.succ_pos _) _⟩

theorem parseVertag_prefix (h : minfo.Storable) (hstr : str <+: metaText minfo) :
    ∃ vertag parse, parseVertag str = (vertag, parse) ∧
      (parse = [] ∨ vertag = 1 ∧ parse <+: joined minfo.numbers) := by
  rw [metaText_eq h] at hstr
  match str with
  | [] => exact ⟨0, [], rfl, .inl rfl⟩
  | [c] =>
    obtain ⟨rfl, -⟩ := List.cons_prefix_cons.1 hstr
    exact ⟨1, [], rfl, .inl rfl⟩
  | [c, d] =>
    obtain ⟨rfl, hone⟩ := List.cons_prefix_cons.1 hstr
    obtain ⟨rfl, -⟩ := List.cons_prefix_cons.1 hone
    exact ⟨1, [], parseVertag_one stops_nil, .inl rfl⟩
  | c :: d :: e :: str =>
    obtain ⟨rfl, hone⟩ := List.cons_prefix_cons.1 hstr
    obtain ⟨rfl, hblank⟩ := List.cons_prefix_cons.1 hone
    obtain ⟨rfl, hnumbers⟩ := List.cons_prefix_cons.1 hblank
    exact ⟨1, str, parseVertag_one (stops_cons.2 (by decide)), .inr ⟨rfl, hnumbers⟩⟩

theorem dalGetMetaHelper_cut (h : minfo.Storable) {cut : List Char} (hcut : cut <+: dalSetMetaHelper minfo)
    (hne : cut ≠ dalSetMetaHelper minfo) : (dalGetMetaHelper cut).1 ≠ 0 := by
  obtain ⟨heq, hlen⟩ := dalSetMetaHelper_eq h
  obtain ⟨front, hfront, hmem⟩ := metaText_newline h
  by_cases hnil : cut.length = 0
  · rw [eq_nil_of_length_eq_zero hnil]
    decide
  have hshort : cut.length < (dalSetMetaHelper minfo).length :=
    lt_of_le_of_ne hcut.length_le fun hlength => hne (hcut.eq_of_length hlength)
  have htext : cut <+: metaText minfo := by
    rw [heq] at hcut hshort
    rw [length_append, length_singleton] at hshort
    exact prefix_of_prefix_length_le hcut (prefix_append _ _) (by omega)
  -- the character in front of the last one is not the newline
  have hnewline : ¬ (2 ≤ cut.length ∧ cut[cut.length - 2]? = some '\n') := by
    rintro ⟨htwo, hchar⟩
    have hle := htext.length_le
    obtain ⟨rest, hrest⟩ := htext
    rw [hfront, length_append, length_singleton] at hle
    rw [hfront] at hrest
    have hin : (cut ++ rest)[cut.length - 2]? = (front ++ ['\n'])[cut.length - 2]? := by rw [hrest]
    rw [List.getElem?_append_left (by omega), List.getElem?_append_left (by omega), hchar] at hin
    exact hmem (mem_of_getElem? hin.symm)
  obtain ⟨vertag, parse, htag, hprs⟩ := parseVertag_prefix h
    (((List.takeWhile_prefix (· ≠ '\x00')).trans (List.take_prefix (cut.length - 1) cut)).trans htext)
  obtain ⟨ret, strs, hscan⟩ : ∃ ret strs, scanValues vertag parse = (ret, strs) := ⟨_, _, rfl⟩
  have hle := scanValues_length_le vertag parse
  rw [hscan] at hle
  rw [dalGetMetaHelper_eq hnil (hshort.le.trans hlen) rfl htag hscan]
  rcases hprs with rfl | ⟨rfl, hnumbers⟩
  · have hnone : ret = 0 := by
      unfold scanValues at hscan
      rw [scanWords_nil, scanWords_nil] at hscan
      split at hscan <;> exact (congrArg Prod.fst hscan).symm
    rw [hnone, if_pos Nat.zero_lt_one]
    decide
  · rcases scanValues_prefix h hnumbers hscan with rfl | ⟨hpos, hfst⟩
    · rw [if_pos Nat.zero_lt_one]
      decide
    · have hstat := parseValues_status_pos hpos hle hfst
      rw [if_neg (by omega), if_neg fun hboth => hnewline hboth.1]
      exact ne_of_gt hstat

/-! ## The two formats -/

/-- How the metadata of a block is stored: behind a version tag, or in the older format, with a fifth
value that is not used. -/
inductive MetaFormat where
  | tagged
  | legacy (unused : Nat)
  deriving DecidableEq, Repr

def storedMeta (minfo : MetaInfo) : MetaFormat → List Char
  | .tagged => dalSetMetaHelper minfo
  | .legacy unused =>
    joined [minfo.N.toNat, minfo.E.toNat, minfo.O.toNat, minfo.partsz.toNat, unused,
      minfo.blocksz.toNat, minfo.crcsum.toNat, minfo.totsz.toNat] ++ ['\x00']

/-- What should be read: an older format has no version size, and the part size stands for it. -/
def readMeta (minfo : MetaInfo) : MetaFormat → MetaInfo
  | .tagged => minfo
  | .legacy _ => { minfo with versz := minfo.partsz }

theorem parseVertag_untagged (h : ∀ c ∈ str.head?, c ≠ 'v') :
    parseVertag str = (0, str) := by
  unfold parseVertag
  split
  · exact absurd rfl (h 'v' rfl)
  · rfl

theorem parseValues_totsz (h : ret ≤ 7) (strs : Nat → List Char) (status : Int) :
    (parseValues ret strs status).1.totsz = -1 := by
  have hlast : ∀ st, parseValue ret 7 (strs 7) standIns.totsz st = (standIns.totsz, st) :=
    fun _ => if_neg (by omega)
  unfold parseValues
  dsimp only
  rw [hlast]
  rfl

/-- A string without a tag has no total size. -/
theorem dalGetMetaHelper_untagged (h : ∀ c ∈ stored.head?, c ≠ 'v') :
    (dalGetMetaHelper stored).2.totsz = -1 := by
  by_cases hpos : stored.length = 0
  · rw [eq_nil_of_length_eq_zero hpos]
    rfl
  by_cases hle : stored.length ≤ getMinfoStrlen
  · have hstr : ∀ c ∈ ((stored.take (stored.length - 1)).takeWhile (· ≠ '\x00')).head?, c ≠ 'v' := by
      intro c hc
      apply h
      obtain ⟨rest, hrest⟩ := (List.takeWhile_prefix (· ≠ '\x00')).trans
        (List.take_prefix (stored.length - 1) stored)
      rw [← hrest, List.head?_append, Option.mem_def.1 hc]
      rfl
    obtain ⟨ret, strs, hscan⟩ : ∃ ret strs, scanValues 0
        ((stored.take (stored.length - 1)).takeWhile (· ≠ '\x00')) = (ret, strs) := ⟨_, _, rfl⟩
    have hret : ret ≤ 7 := by
      rw [scanValues, if_neg (by decide)] at hscan
      obtain ⟨rfl, -⟩ := Prod.mk.inj hscan
      exact scanWords_length legacyConversions _
    rw [dalGetMetaHelper_eq hpos hle rfl (parseVertag_untagged hstr) hscan]
    split
    · rfl
    · exact parseValues_totsz hret strs _
  · unfold dalGetMetaHelper
    dsimp only
    rw [if_pos (.inr (by omega))]
    rfl

theorem head_joined (n : Nat) (numbers : List Nat) (rest : List Char) :
    ∀ c ∈ (joined (n :: numbers) ++ rest).head?, c.isDigit = true := by
  have hdec : ∀ text : List Char, ∀ c ∈ (decimal n ++ text).head?, c.isDigit = true := by
    intro text c hc
    obtain ⟨d, ds, hn⟩ := exists_cons_of_ne_nil (decimal_ne_nil n)
    rw [hn] at hc
    obtain rfl := Option.some.inj hc
    exact isDigit_of_mem_decimal (hn ▸ mem_cons_self ..)
  cases numbers with
  | nil =>
    rw [joined, append_assoc]
    exact hdec _
  | cons m numbers =>
    rw [joined, append_assoc]
    exact hdec _

/-- Metadata is read back, and none of it if it is cut off, just if it has a version tag. -/
theorem storedMeta_read_iff (h : minfo.Storable) (format : MetaFormat) :
    (dalGetMetaHelper (storedMeta minfo format) = (0, readMeta minfo format) ∧
      ∀ cut, cut <+: dalSetMetaHelper minfo → cut ≠ dalSetMetaHelper minfo →
        (dalGetMetaHelper cut).1 ≠ 0) ↔ format = .tagged := by
  constructor
  · rintro ⟨hread, -⟩
    cases format with
    | tagged => rfl
    | legacy unused =>
      have htotsz : (dalGetMetaHelper (storedMeta minfo (.legacy unused))).2.totsz = -1 := by
        apply dalGetMetaHelper_untagged
        intro c hc
        have hdigit : c.isDigit = true := head_joined _ _ _ c hc
        rintro rfl
        cases hdigit
      rw [hread] at htotsz
      have hnonneg := h.totsz.1
      change minfo.totsz = -1 at htotsz
      omega
  · rintro rfl
    exact ⟨dalGetMetaHelper_stored h, fun cut => dalGetMetaHelper_cut h⟩

/-- An object of ten data and two parity blocks. -/
def sampleMeta : MetaInfo where
  N := 10
  E := 2
  O := 3
  partsz := 1024
  versz := 4096
  blocksz := 2 ^ 40
  crcsum := 123456789
  totsz := 2 ^ 43

theorem sampleMeta_read : dalGetMetaHelper (dalSetMetaHelper sampleMeta) = (0, sampleMeta) :=
  ((storedMeta_read_iff (by constructor <;> decide) .tagged).2 rfl).1

/-- The total size of an object in the older format is lost. -/
theorem sampleMeta_legacy : dalGetMetaHelper (storedMeta sampleMeta (.legacy 4096)) =
    (7, { sampleMeta with versz := 1024, totsz := -1 }) := by
  decide +kernel

end Marfs.Dal
