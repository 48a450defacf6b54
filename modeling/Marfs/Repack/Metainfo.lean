import Marfs.Repack.Paths

/-!
# The names in a reference directory

A reference directory holds the names of meta files, of rebuild markers and of repack markers, and
`ftag_metainfo` tells them apart: behind the last separator it expects a number, and behind that
nothing or the suffix of a marker.
-/

namespace Marfs.Repack

open Cstring Tagging List

/-! ## Names -/

def ftagRebuildmarker (ftag : Ftag) : List Char :=
  ftag.ctag ++ '|' :: (sanstream ftag.streamid ++ '|' :: (decimal ftag.objno ++ "rebuild".toList))

/-- The values of `entrytype`, in their order. -/
inductive Entrytype where
  | file
  | rebuild
  | repack
  deriving DecidableEq, Repr

/-- What ends the names of a kind. -/
def Entrytype.suffix : Entrytype → List Char
  | .file => []
  | .rebuild => "rebuild".toList
  | .repack => "REPACK".toList

def ssizeMax : Nat := 2 ^ 63 - 1

/-! ## `ftag_metainfo` -/

/-- What follows the last `'|'`, where `finfield` is what follows the last one seen so far. -/
def finfieldLoop : List Char → Option (List Char) → Option (List Char)
  | [], finfield => finfield
  | c :: parse, finfield => finfieldLoop parse (if c = '|' then some parse else finfield)

/-- The kind of a name, by what follows its number, and what is left of it behind that. -/
def entrytypeOf (endptr : List Char) : Entrytype × List Char :=
  if "rebuild".toList.isPrefixOf endptr then (.rebuild, endptr.drop 7)
  else if "REPACK".toList.isPrefixOf endptr then (.repack, endptr.drop 6)
  else (.file, endptr)

/-- `ftag_metainfo`, on what follows the last `'|'`. -/
def parseTail (tail : List Char) : Option (Entrytype × Nat) :=
  if tail = [] then none
  else
    let (parseval, endptr) := strtoull tail
    let (entrytype, endptr) := entrytypeOf endptr
    if endptr ≠ [] then none
    else if parseval > ssizeMax then none
    else some (entrytype, parseval)

def ftagMetainfo (metapath : List Char) : Option (Entrytype × Nat) := do
  let tail ← finfieldLoop metapath none
  parseTail tail

/-! ## The last field -/

variable {s tail digits rest : List Char} {t : Entrytype}

theorem finfieldLoop_not_mem (h : '|' ∉ s) (finfield : Option (List Char)) :
    finfieldLoop s finfield = finfield := by
  induction s with
  | nil => rfl
  | cons c s ih =>
    rw [mem_cons, not_or] at h
    rw [finfieldLoop, if_neg (Ne.symm h.1), ih h.2]

theorem finfieldLoop_append (pre : List Char) (h : '|' ∉ tail) (finfield : Option (List Char)) :
    finfieldLoop (pre ++ '|' :: tail) finfield = some tail := by
  induction pre generalizing finfield with
  | nil => rw [nil_append, finfieldLoop, if_pos rfl, finfieldLoop_not_mem h]
  | cons c pre ih => rw [cons_append, finfieldLoop, ih]

/-- The last field ends the string. -/
theorem finfieldLoop_eq_some {finfield : Option (List Char)} (h : finfieldLoop s finfield = some tail) :
    finfield = some tail ∧ '|' ∉ s ∨ ∃ pre, s = pre ++ '|' :: tail ∧ '|' ∉ tail := by
  induction s generalizing finfield with
  | nil => exact .inl ⟨h, not_mem_nil⟩
  | cons c s ih =>
    rw [finfieldLoop] at h
    obtain ⟨hfin, hmem⟩ | ⟨pre, rfl, hmem⟩ := ih h
    · by_cases hc : c = '|'
      · rw [if_pos hc, Option.some.injEq] at hfin
        rw [hfin] at hmem ⊢
        exact .inr ⟨[], by rw [hc, nil_append], hmem⟩
      · rw [if_neg hc] at hfin
        refine .inl ⟨hfin, ?_⟩
        rw [mem_cons, not_or]
        exact ⟨Ne.symm hc, hmem⟩
    · exact .inr ⟨c :: pre, rfl, hmem⟩

/-- The last field of a string. -/
theorem finfield_iff : finfieldLoop s none = some tail ↔ ∃ pre, s = pre ++ '|' :: tail ∧ '|' ∉ tail := by
  constructor
  · intro h
    obtain ⟨hnone, -⟩ | hspl := finfieldLoop_eq_some h
    · cases hnone
    · exact hspl
  · rintro ⟨pre, rfl, hmem⟩
    exact finfieldLoop_append pre hmem none

/-! ## Suffixes -/

theorem stops_suffix (t : Entrytype) : Stops t.suffix := by
  cases t with
  | file => exact stops_nil
  | rebuild => exact stops_cons.2 rfl
  | repack => exact stops_cons.2 rfl

theorem suffix_not_mem (t : Entrytype) : '|' ∉ t.suffix := by
  cases t with
  | file => exact not_mem_nil
  | rebuild => decide
  | repack => decide

variable {t' : Entrytype} {n value : Nat} {blanks sign : List Char}

theorem suffix_inj (h : t.suffix = t'.suffix) : t = t' := by
  have hlen := congrArg List.length h
  cases t with
  | file => cases t' with
    | file => rfl
    | _ => cases hlen
  | rebuild => cases t' with
    | rebuild => rfl
    | _ => cases hlen
  | repack => cases t' with
    | repack => rfl
    | _ => cases hlen

theorem entrytypeOf_suffix (t : Entrytype) : entrytypeOf t.suffix = (t, []) := by
  cases t with
  | file => rfl
  | rebuild => rfl
  | repack => rfl

theorem eq_suffix_of_entrytypeOf {endptr : List Char} (h : entrytypeOf endptr = (t, [])) :
    endptr = t.suffix := by
  unfold entrytypeOf at h
  split at h
  · next hbegins =>
    obtain ⟨rest, rfl⟩ := List.isPrefixOf_iff_prefix.1 hbegins
    obtain ⟨rfl, hrest⟩ := Prod.mk.inj h
    replace hrest : rest = [] := hrest
    rw [hrest]
    exact List.append_nil _
  · split at h
    · next hbegins =>
      obtain ⟨rest, rfl⟩ := List.isPrefixOf_iff_prefix.1 hbegins
      obtain ⟨rfl, hrest⟩ := Prod.mk.inj h
      replace hrest : rest = [] := hrest
      rw [hrest]
      exact List.append_nil _
    · obtain ⟨rfl, rfl⟩ := Prod.mk.inj h
      rfl

/-! ## Tails that end in a number -/

theorem strtoull_digits (hdig : ∀ c ∈ digits, c.isDigit = true) (hne : digits ≠ []) (hrest : Stops rest) :
    strtoull (digits ++ rest) = (min (Nat.ofDigitChars 10 digits 0) ullongMax, rest) := by
  rw [strtoull, scanNumber_digits hdig hne hrest]
  generalize Nat.ofDigitChars 10 digits 0 = n
  by_cases hn : n > ullongMax
  · simp only [hn, if_true, Nat.min_eq_right (Nat.le_of_lt hn)]
  · simp only [hn, if_false, Bool.false_eq_true, Nat.min_eq_left (Nat.le_of_not_lt hn)]

/-- Digits and the suffix of a kind are accepted, unless the number is out of the range of the
result. -/
theorem parseTail_digits (hdig : ∀ c ∈ digits, c.isDigit = true) (hne : digits ≠ []) (t : Entrytype) :
    parseTail (digits ++ t.suffix) =
      if Nat.ofDigitChars 10 digits 0 ≤ ssizeMax then some (t, Nat.ofDigitChars 10 digits 0)
      else none := by
  have hmax : ssizeMax < ullongMax := by decide
  rw [parseTail, strtoull_digits hdig hne (stops_suffix t)]
  simp only [entrytypeOf_suffix, append_eq_nil_iff, hne, false_and, if_false, ne_eq,
    not_true_eq_false]
  generalize Nat.ofDigitChars 10 digits 0 = n
  by_cases hn : n ≤ ssizeMax
  · rw [Nat.min_eq_left (by omega), if_neg (by omega), if_pos hn]
  · rw [if_pos (by omega), if_neg hn]

/-! ## The names of MarFS -/

def Entrytype.name (ftag : Ftag) : Entrytype → List Char
  | .file => ftagMetatgt ftag
  | .rebuild => ftagRebuildmarker ftag
  | .repack => ftagRepackmarker ftag

def Entrytype.number (ftag : Ftag) : Entrytype → Nat
  | .file => ftag.fileno
  | .rebuild => ftag.objno
  | .repack => ftag.fileno

theorem name_eq (ftag : Ftag) (t : Entrytype) :
    t.name ftag = (ftag.ctag ++ '|' :: sanstream ftag.streamid) ++
      '|' :: (decimal (t.number ftag) ++ t.suffix) := by
  rw [append_assoc, cons_append]
  cases t with
  | file =>
    change ftagMetatgt ftag = ftag.ctag ++ '|' ::
      (sanstream ftag.streamid ++ '|' :: (decimal ftag.fileno ++ []))
    rw [List.append_nil, ftagMetatgt]
  | rebuild => rfl
  | repack => rfl

/-- The separators do not occur in the parts of the names. -/
structure Unseparated (ftag : Ftag) : Prop where
  ctag_bar : '|' ∉ ftag.ctag
  ctag_hash : '#' ∉ ftag.ctag
  streamid_bar : '|' ∉ ftag.streamid
  streamid_hash : '#' ∉ ftag.streamid

theorem sanstream_of_not_mem {streamid : List Char} (h : '|' ∉ streamid) :
    sanstream streamid = streamid := by
  unfold sanstream
  conv_rhs => rw [← map_id streamid]
  apply map_congr_left
  intro c hc
  have hne : c ≠ '|' := by
    intro heq
    exact h (heq ▸ hc)
  rw [if_neg hne, id]

theorem number_not_mem (n : Nat) (t : Entrytype) : '|' ∉ decimal n ++ t.suffix := by
  rw [mem_append, not_or]
  refine ⟨fun hmem => ?_, suffix_not_mem t⟩
  exact absurd (isDigit_of_mem_decimal hmem) (by decide)

theorem metainfo_name (ftag : Ftag) (t : Entrytype) :
    ftagMetainfo (t.name ftag) =
      if t.number ftag ≤ ssizeMax then some (t, t.number ftag) else none := by
  have hdig : ∀ c ∈ decimal (t.number ftag), c.isDigit = true := fun _ => isDigit_of_mem_decimal
  have htail := parseTail_digits hdig (decimal_ne_nil _) t
  rw [ofDigitChars_decimal] at htail
  have hlast : finfieldLoop (t.name ftag) none = some (decimal (t.number ftag) ++ t.suffix) := by
    rw [name_eq, finfieldLoop_append _ (number_not_mem _ t)]
  rw [ftagMetainfo, hlast]
  exact htail

theorem number_inj {n' : Nat} (h : decimal n ++ t.suffix = decimal n' ++ t'.suffix) : n = n' ∧ t = t' := by
  obtain ⟨htake, hdrop⟩ := takeWhile_isDigit (fun _ => isDigit_of_mem_decimal (n := n))
    (stops_suffix t)
  obtain ⟨htake', hdrop'⟩ := takeWhile_isDigit (fun _ => isDigit_of_mem_decimal (n := n'))
    (stops_suffix t')
  have hdig : decimal n = decimal n' := by rw [← htake, h, htake']
  have hsuf : t.suffix = t'.suffix := by rw [← hdrop, h, hdrop']
  refine ⟨?_, suffix_inj hsuf⟩
  rw [← ofDigitChars_decimal n, hdig, ofDigitChars_decimal]

theorem name_inj {f g : Ftag} (hf : Unseparated f) (hg : Unseparated g) {u : Entrytype}
    (h : t.name f = u.name g) :
    t = u ∧ f.ctag = g.ctag ∧ f.streamid = g.streamid ∧ t.number f = u.number g := by
  rw [name_eq, name_eq, sanstream_of_not_mem hf.streamid_bar,
    sanstream_of_not_mem hg.streamid_bar] at h
  have hlast := congrArg (finfieldLoop · none) h
  rw [finfieldLoop_append _ (number_not_mem _ t), finfieldLoop_append _ (number_not_mem _ u),
    Option.some.injEq] at hlast
  obtain ⟨hnum, hkind⟩ := number_inj hlast
  rw [hlast] at h
  have hparts := append_cancel_right h
  obtain ⟨hctag, -, hsid⟩ :=
    (append_cons_inj_of_notMem hf.ctag_bar hf.streamid_bar).1 hparts
  exact ⟨hkind, hctag, hsid, hnum⟩

/-- The names of a reference directory are unambiguous: a name gives back its kind and its number,
if `ssize_t` has it, and no two names coincide that differ in their kind, their stream or their
number. -/
theorem names_unambiguous (f g : Ftag) (hf : Unseparated f) (hg : Unseparated g) :
    (∀ t : Entrytype, ftagMetainfo (t.name f) =
      if t.number f ≤ ssizeMax then some (t, t.number f) else none) ∧
    ∀ t u : Entrytype, t.name f = u.name g →
      t = u ∧ f.ctag = g.ctag ∧ f.streamid = g.streamid ∧ t.number f = u.number g :=
  ⟨metainfo_name f, fun _ _ => name_inj hf hg⟩

theorem sampleFtag_unseparated (fileno objno : Nat) (endofstream : Bool) :
    Unseparated (sampleFtag fileno objno endofstream) where
  ctag_bar := by simp [sampleFtag]
  ctag_hash := by simp [sampleFtag]
  streamid_bar := by simp [sampleFtag]
  streamid_hash := by simp [sampleFtag]

/-- The marker of an object beside the name of a file. -/
theorem sampleFtag_names :
    ftagMetainfo (ftagRebuildmarker (sampleFtag 3 1 true)) = some (.rebuild, 1) ∧
      ftagRebuildmarker (sampleFtag 3 1 true) ≠ ftagMetatgt (sampleFtag 1 0 true) := by
  obtain ⟨hinfo, hinj⟩ := names_unambiguous (sampleFtag 3 1 true) (sampleFtag 1 0 true)
    (sampleFtag_unseparated 3 1 true) (sampleFtag_unseparated 1 0 true)
  refine ⟨hinfo .rebuild, ?_⟩
  intro heq
  cases (hinj .rebuild .file heq).1

/-- A file number that `ssize_t` does not have is not given back. -/
theorem sampleFtag_unreadable :
    Unseparated (sampleFtag (2 ^ 63) 0 true) ∧
      ftagMetainfo (ftagMetatgt (sampleFtag (2 ^ 63) 0 true)) ≠ some (.file, 2 ^ 63) := by
  refine ⟨sampleFtag_unseparated _ _ _, ?_⟩
  have hnone : ftagMetainfo (ftagMetatgt (sampleFtag (2 ^ 63) 0 true)) = none :=
    (metainfo_name (sampleFtag (2 ^ 63) 0 true) .file).trans (if_neg (by decide))
  rw [hnone]
  exact nofun

/-! ## All names that are accepted -/

/-- The name ends in `'|'`, digits, and the suffix of its kind, and its number is the value of the
digits. -/
structure EndsIn (metapath : List Char) (t : Entrytype) (value : Nat) (digits : List Char) : Prop where
  ends : ∃ pre, metapath = pre ++ '|' :: (digits ++ t.suffix)
  digits_ne : digits ≠ []
  isDigit : ∀ c ∈ digits, c.isDigit = true
  value_eq : value = Nat.ofDigitChars 10 digits 0

def ExactName (metapath : List Char) : Prop :=
  ∀ t value, ftagMetainfo metapath = some (t, value) → ∃ digits, EndsIn metapath t value digits

def signedValue (sign : List Char) (n : Nat) : Nat :=
  if n > ullongMax then ullongMax else if sign = ['-'] then (2 ^ 64 - n) % 2 ^ 64 else n

/-- Tails of names that are no number with a suffix, though they pass for one: the suffix of a marker
alone, and a number behind blanks or a sign. -/
inductive LooseTail : List Char → Prop where
  | bare (t : Entrytype) (hmarker : t ≠ .file) : LooseTail t.suffix
  | number (blanks sign digits : List Char) (t : Entrytype)
      (hblanks : ∀ c ∈ blanks, isspace c = true) (hsign : sign ∈ [[], ['-'], ['+']])
      (hdigits : ∀ c ∈ digits, c.isDigit = true) (hdigits_ne : digits ≠ [])
      (hbefore : blanks ++ sign ≠ [])
      (hvalue : signedValue sign (Nat.ofDigitChars 10 digits 0) ≤ ssizeMax) :
      LooseTail (blanks ++ (sign ++ (digits ++ t.suffix)))

/-! ### Numbers behind blanks and signs -/

theorem takeSign_eq (s : List Char) :
    ∃ sign ∈ [[], ['-'], ['+']], s = sign ++ (takeSign s).2 ∧
      (takeSign s).1 = decide (sign = ['-']) := by
  unfold takeSign
  split
  · exact ⟨['-'], by simp, rfl, rfl⟩
  · exact ⟨['+'], by simp, rfl, rfl⟩
  · exact ⟨[], by simp, rfl, rfl⟩

theorem scanNumber_parts {neg : Bool} (h : scanNumber s = some (neg, n, rest)) :
    ∃ blanks sign digits, s = blanks ++ (sign ++ (digits ++ rest)) ∧
      (∀ c ∈ blanks, isspace c = true) ∧ sign ∈ [[], ['-'], ['+']] ∧ digits ≠ [] ∧
      (∀ c ∈ digits, c.isDigit = true) ∧ n = Nat.ofDigitChars 10 digits 0 ∧
      neg = decide (sign = ['-']) := by
  obtain ⟨sign, hsign, hspl, hneg⟩ := takeSign_eq (s.dropWhile isspace)
  unfold scanNumber at h
  dsimp only at h
  split at h
  · cases h
  · next digit digits htake =>
    obtain ⟨rfl, hn, rfl⟩ : _ ∧ _ ∧ _ := by
      simpa only [Option.some.injEq, Prod.mk.injEq] using h
    refine ⟨s.takeWhile isspace, sign, digit :: digits, ?_, ?_, hsign, cons_ne_nil _ _, ?_,
      hn.symm, hneg⟩
    · rw [← htake, takeWhile_append_dropWhile, ← hspl, takeWhile_append_dropWhile]
    · exact List.all_eq_true.1 all_takeWhile
    · rw [← htake]
      exact List.all_eq_true.1 all_takeWhile

theorem scanNumber_blanks (hblanks : ∀ c ∈ blanks, isspace c = true) (s : List Char) :
    scanNumber (blanks ++ s) = scanNumber s := by
  unfold scanNumber
  rw [dropWhile_append_of_pos hblanks]

theorem scanNumber_sign (hsign : sign ∈ [[], ['-'], ['+']])
    (hdig : ∀ c ∈ digits, c.isDigit = true) (hne : digits ≠ []) (hrest : Stops rest) :
    scanNumber (sign ++ (digits ++ rest)) =
      some (decide (sign = ['-']), Nat.ofDigitChars 10 digits 0, rest) := by
  simp only [mem_cons, not_mem_nil, or_false] at hsign
  obtain rfl | rfl | rfl := hsign
  · exact scanNumber_digits hdig hne hrest
  · exact scanNumber_neg hdig hne hrest
  · obtain ⟨htake, hdrop⟩ := takeWhile_isDigit hdig hrest
    obtain ⟨c, digits, rfl⟩ := exists_cons_of_ne_nil hne
    unfold scanNumber
    rw [cons_append, dropWhile_cons_of_neg (by decide)]
    simp only [nil_append, takeSign, htake, hdrop]
    rfl

theorem strtoull_signed (hblanks : ∀ c ∈ blanks, isspace c = true)
    (hsign : sign ∈ [[], ['-'], ['+']]) (hdig : ∀ c ∈ digits, c.isDigit = true) (hne : digits ≠ [])
    (hrest : Stops rest) :
    strtoull (blanks ++ (sign ++ (digits ++ rest))) =
      (signedValue sign (Nat.ofDigitChars 10 digits 0), rest) := by
  rw [strtoull, scanNumber_blanks hblanks, scanNumber_sign hsign hdig hne hrest]
  simp only [signedValue, decide_eq_true_eq]

/-! ### Loose tails are accepted -/

theorem parseTail_eq (hne : tail ≠ []) (hread : strtoull tail = (value, t.suffix)) (hval : value ≤ ssizeMax) :
    parseTail tail = some (t, value) := by
  rw [parseTail, hread]
  simp only [hne, if_false, entrytypeOf_suffix, ne_eq, not_true_eq_false]
  rw [if_neg (by omega)]

theorem of_parseTail (h : parseTail tail = some (t, value)) :
    tail ≠ [] ∧ strtoull tail = (value, t.suffix) ∧ value ≤ ssizeMax := by
  unfold parseTail at h
  by_cases hne : tail = []
  · rw [if_pos hne] at h
    cases h
  · rw [if_neg hne] at h
    rcases hread : strtoull tail with ⟨parseval, endptr⟩
    rcases hkind : entrytypeOf endptr with ⟨entrytype, left⟩
    simp only [hread, hkind] at h
    by_cases hleft : left = []
    · rw [if_neg (not_not_intro hleft)] at h
      split at h
      · cases h
      · obtain ⟨rfl, rfl⟩ : _ ∧ _ := by
          simpa only [Option.some.injEq, Prod.mk.injEq] using h
        rw [hleft] at hkind
        exact ⟨hne, by rw [eq_suffix_of_entrytypeOf hkind], by omega⟩
    · rw [if_pos hleft] at h
      cases h

namespace LooseTail

variable {tail : List Char}

theorem stops (h : LooseTail tail) : Stops tail := by
  cases h with
  | bare t hmark => exact stops_suffix t
  | number blanks sign digits t hblanks hsign hdig hdigits_ne hbef hval =>
    cases blanks with
    | nil =>
      simp only [mem_cons, not_mem_nil, or_false] at hsign
      obtain rfl | rfl | rfl := hsign
      · exact absurd rfl hbef
      · exact stops_cons.2 rfl
      · exact stops_cons.2 rfl
    | cons c blanks =>
      refine stops_cons.2 ?_
      by_contra hdigit
      have hspace := not_isspace_of_isDigit (Bool.of_not_eq_false hdigit)
      rw [hblanks c (mem_cons_self ..)] at hspace
      cases hspace

theorem accepted (h : LooseTail tail) : ∃ t value, parseTail tail = some (t, value) := by
  cases h with
  | bare t hmark =>
    refine ⟨t, 0, parseTail_eq ?_ ?_ (Nat.zero_le _)⟩
    · intro hnil
      exact hmark (suffix_inj (show t.suffix = Entrytype.file.suffix from hnil))
    · cases t with
      | file => exact absurd rfl hmark
      | rebuild => rfl
      | repack => rfl
  | number blanks sign digits t hblanks hsign hdig hdigits_ne hbef hval =>
    refine ⟨t, _, parseTail_eq ?_ (strtoull_signed hblanks hsign hdig hdigits_ne
      (stops_suffix t)) hval⟩
    simp [hdigits_ne]

end LooseTail

theorem not_loose_of_exact {metapath : List Char} (h : ExactName metapath)
    (hlast : finfieldLoop metapath none = some tail) : ¬ LooseTail tail := by
  intro hloose
  obtain ⟨t, value, hprs⟩ := hloose.accepted
  obtain ⟨digits, hends⟩ := h t value (by rw [ftagMetainfo, hlast]; exact hprs)
  obtain ⟨pre, hspl⟩ := hends.ends
  have hbar : '|' ∉ digits ++ t.suffix := by
    rw [mem_append, not_or]
    refine ⟨fun hmem => ?_, suffix_not_mem t⟩
    exact absurd (hends.isDigit _ hmem) (by decide)
  rw [hspl, finfieldLoop_append pre hbar, Option.some.injEq] at hlast
  obtain ⟨c, rest, hdig⟩ := exists_cons_of_ne_nil hends.digits_ne
  have hstops := hloose.stops
  rw [← hlast, hdig, cons_append, stops_cons] at hstops
  have hdigit := hends.isDigit c (by rw [hdig]; exact mem_cons_self ..)
  rw [hdigit] at hstops
  cases hstops

theorem digits_of_parseTail (h : parseTail tail = some (t, value)) (hloose : ¬ LooseTail tail) :
    ∃ digits, tail = digits ++ t.suffix ∧ digits ≠ [] ∧ (∀ c ∈ digits, c.isDigit = true) ∧
      value = Nat.ofDigitChars 10 digits 0 := by
  obtain ⟨hne, hread, hvalue⟩ := of_parseTail h
  cases hscan : scanNumber tail with
  | none =>
    rw [strtoull, hscan] at hread
    obtain ⟨-, rfl⟩ := Prod.mk.inj hread
    refine absurd (LooseTail.bare t ?_) hloose
    rintro rfl
    exact hne rfl
  | some number =>
    obtain ⟨neg, n, rest⟩ := number
    obtain ⟨blanks, sign, digits, rfl, hblanks, hsign, hdigits_ne, hdig, rfl, rfl⟩ :=
      scanNumber_parts hscan
    rw [strtoull, hscan] at hread
    obtain ⟨hval, rfl⟩ := Prod.mk.inj hread
    have hsigned : signedValue sign (Nat.ofDigitChars 10 digits 0) = value := by
      rw [← hval]
      simp only [signedValue, decide_eq_true_eq]
    by_cases hbef : blanks ++ sign = []
    · obtain ⟨rfl, rfl⟩ := List.append_eq_nil_iff.1 hbef
      refine ⟨digits, rfl, hdigits_ne, hdig, ?_⟩
      have hmax : ssizeMax < ullongMax := by decide
      rw [← hsigned] at hvalue ⊢
      unfold signedValue at hvalue ⊢
      by_cases hlarge : Nat.ofDigitChars 10 digits 0 > ullongMax
      · rw [if_pos hlarge] at hvalue
        omega
      · rw [if_neg hlarge]
        rfl
    · exact absurd (LooseTail.number blanks sign digits t hblanks hsign hdig hdigits_ne hbef
        (hsigned ▸ hvalue)) hloose

/-- `ftag_metainfo` accepts a name only for the number and the suffix it ends in, unless its tail is
the suffix of a marker alone, or a number behind blanks or a sign. -/
theorem metainfo_exact_iff (metapath : List Char) :
    ExactName metapath ↔
      ∀ tail, finfieldLoop metapath none = some tail → ¬ LooseTail tail := by
  constructor
  · intro h tail hlast
    exact not_loose_of_exact h hlast
  · intro h t value hinfo
    obtain ⟨tail, hlast, hparse⟩ := Option.bind_eq_some_iff.1 hinfo
    obtain ⟨digits, htail, hne, hdigits, hvalue⟩ := digits_of_parseTail hparse (h tail hlast)
    obtain ⟨pre, hsplit, -⟩ := finfield_iff.1 hlast
    exact ⟨digits, ⟨pre, by rw [hsplit, htail]⟩, hne, hdigits, hvalue⟩

/-- A name without a number passes for the rebuild marker of object zero. -/
theorem bare_marker_accepted :
    ftagMetainfo "c|s|rebuild".toList = some (.rebuild, 0) ∧
      ¬ ExactName "c|s|rebuild".toList := by
  refine ⟨rfl, ?_⟩
  intro hexact
  have hlast : finfieldLoop "c|s|rebuild".toList none = some Entrytype.rebuild.suffix := rfl
  exact not_loose_of_exact hexact hlast (.bare .rebuild (by decide))

end Marfs.Repack
