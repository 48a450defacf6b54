import Marfs.Recovery.Object

/-!
# Parsing a printed record

A record of `recovery_finfotostr` is parsed back, wherever it stands and whatever the struct held before,
as long as its numbers are values of their C types and its path is a C string; only a number of
nanoseconds beyond `LONG_MAX` is refused (`parseFinfoAt_printed`, `parseFinfoAt_refused`).
-/

namespace Marfs.Recovery

open Cstring Machine List

/-! ## Digits -/

/-- The digits of a number that `strtoull` can read. -/
structure Digits (base : Nat) (digits : List Char) (n : Nat) : Prop where
  digit : ∀ c ∈ digits, isDigitOf base c = true
  ne_nil : digits ≠ []
  value : Nat.ofDigitChars base digits 0 = n
  le : n ≤ ullongMax

variable {c : Char} {n base : Nat} {rest : List Char} {finfo : RecoveryFinfo}

theorem isDigitOf_ten (h : c.isDigit = true) : isDigitOf 10 c = true := by
  have hle : c.toNat ≤ 57 := by
    simp only [Char.isDigit, ge_iff_le, Bool.and_eq_true, decide_eq_true_eq,
      UInt32.le_iff_toNat_le] at h
    exact h.2
  have hzero : '0'.toNat = 48 := rfl
  simp only [isDigitOf, h, hzero, Bool.true_and, decide_eq_true_eq]
  omega

theorem decimal_digits (h : n ≤ ullongMax) : Digits 10 (decimal n) n :=
  ⟨fun _ hc => isDigitOf_ten (isDigit_of_mem_decimal hc), decimal_ne_nil n, ofDigitChars_decimal n, h⟩

theorem padded_digits {w : Nat} (h : n ≤ ullongMax) : Digits 10 (padded w n) n :=
  ⟨fun _ hc => isDigitOf_ten (isDigit_of_mem_padded hc), padded_ne_nil w n, ofDigitChars_padded w n, h⟩

/-- The mode is printed with a leading zero. -/
theorem octal_digits (h : n ≤ ullongMax) : Digits 8 ('0' :: octal n) n := by
  have hchar : ∀ k < 8, isDigitOf 8 k.digitChar = true := by decide
  have hdigit : ∀ m, ∀ c ∈ octal m, isDigitOf 8 c = true := by
    intro m
    unfold octal
    induction m using Nat.base_induction 8 (by decide) with
    | single m hm =>
      rw [Nat.toDigits_of_lt_base hm]
      exact List.forall_mem_singleton.2 (hchar m hm)
    | digit m k hk hm ih =>
      rw [← Nat.toDigits_append_toDigits (by decide) hm hk, Nat.toDigits_of_lt_base hk]
      exact List.forall_mem_append.2 ⟨ih, List.forall_mem_singleton.2 (hchar k hk)⟩
  refine ⟨List.forall_mem_cons.2 ⟨by decide, hdigit n⟩, cons_ne_nil _ _, ?_, h⟩
  rw [Nat.ofDigitChars_cons]
  exact Nat.ofDigitChars_toDigits (by decide) (by decide)

theorem isDigit_of_isDigitOf (h : isDigitOf base c = true) : c.isDigit = true := by
  rw [isDigitOf, Bool.and_eq_true] at h
  exact h.1

variable {digits : List Char} {st : FinfoState} {bufsize : Nat}

/-- A number is read up to the character that ends it. -/
theorem strtoullIn_digits (h : Digits base digits n) (hc : c.isDigit = false) :
    strtoullIn base (digits ++ c :: rest) = .done (n, c :: rest) := by
  obtain ⟨digit, digits, rfl⟩ := exists_cons_of_ne_nil h.ne_nil
  have hdigit := isDigit_of_isDigitOf (h.digit digit (mem_cons_self ..))
  have hstop : isDigitOf base c = false := by
    rw [isDigitOf, hc, Bool.false_and]
  have hsign : takeSign ((digit :: digits ++ c :: rest).dropWhile isspace) =
      (false, digit :: digits ++ c :: rest) := by
    rw [cons_append, dropWhile_cons_of_neg (by simp [not_isspace_of_isDigit hdigit]),
      takeSign_of_isDigit hdigit]
  have hafter : afterNumber base (digit :: digits ++ c :: rest) = c :: rest := by
    rw [afterNumber, hsign, dropWhile_append_of_pos h.digit,
      dropWhile_cons_of_neg (by simp [hstop])]
  have hwhile : (digit :: digits ++ c :: rest).takeWhile (isDigitOf base) = digit :: digits := by
    rw [takeWhile_append_of_pos h.digit, takeWhile_cons_of_neg (by simp [hstop]),
      List.append_nil]
  unfold strtoullIn
  simp only [hafter, hsign, hwhile, h.value, Bool.false_eq_true, if_false,
    if_neg (Nat.not_lt.2 h.le)]

theorem parseNumber_separated {terminators : List Char} (h : Digits base digits n) :
    parseNumber base terminators (digits ++ '|' :: rest) = .done (n, rest) := by
  rw [parseNumber, strtoullIn_digits h (by decide), Walk.done_bind]
  rfl

theorem parseNumber_ended {terminators : List Char} (h : Digits base digits n) (hc : c.isDigit = false)
    (hne : c ≠ '|') (hmem : c ∈ terminators) :
    parseNumber base terminators (digits ++ c :: rest) = .done (n, c :: rest) := by
  rw [parseNumber, strtoullIn_digits h hc, Walk.done_bind]
  simp only [byteAt, Walk.done_bind]
  rw [if_neg hne, if_pos hmem]
  rfl

/-! ## A turn of the loop -/

section Turn

variable {st : FinfoState} {tag : Char} {value : FinfoValue} {digits rest : List Char} {n : Nat}

theorem loopCondition_letter {text : List Char} (hprs : st.parse = tag :: text)
    (hval : FinfoValue.ofTag tag = some value) (hroom : msgTail.length ≤ st.bufsize) :
    loopCondition st = .done true := by
  have htail : tag ≠ ')' := by
    rintro rfl
    cases hval
  have hnul : tag ≠ '\x00' := by
    rintro rfl
    cases hval
  have hword : strncmpIn st.parse msgTail = .done false := by
    rw [hprs]
    exact if_neg htail
  unfold loopCondition
  rw [if_neg (Nat.not_lt.2 hroom), hword, Walk.done_bind, if_neg Bool.false_ne_true, hprs, byteAt,
    Walk.done_bind, decide_eq_true hnul]
  rfl

theorem parseValue_letter {text endptr : List Char} (hprs : st.parse = tag :: text)
    (hnum : parseNumber (parsemode tag) valueTerminators text = .done (n, endptr))
    (hval : FinfoValue.ofTag tag = some value)
    (hroom : st.parse.length - endptr.length + msgTail.length ≤ st.bufsize)
    (hlt : st.bufsize < SizeT.modulus) : parseValue true st = interpretValue true st value n endptr := by
  have hin : st.parse.length - endptr.length ≤ SizeT.sub st.bufsize msgTail.length := by
    rw [SizeT.sub_of_le (by omega) hlt]
    omega
  have hbyte : byteAt st.parse = .done tag := by
    rw [hprs]
    rfl
  have htext : st.parse.tail = text := by
    rw [hprs]
    rfl
  unfold parseValue
  rw [hbyte, Walk.done_bind, htext, hnum, Walk.done_bind]
  dsimp only
  rw [decide_eq_true hin, hval]
  rfl

variable {found : FinfoValue → Bool} {bufsize : Nat} {path : List Char}

theorem finfoLoop_number (tag : Char) (hval : FinfoValue.ofTag tag = some value)
    (hkind : value ≠ .mtime ∧ value ≠ .path) (hdig : Digits (parsemode tag) digits n) (hmax : n ≤ value.max)
    (hfound : found value = false) (hroom : digits.length + 2 + msgTail.length ≤ bufsize)
    (hlt : bufsize < SizeT.modulus) (fuel : Nat) (uninit : RecoveryFinfo) :
    finfoLoop true (fuel + 1)
        { parse := tag :: (digits ++ '|' :: rest), bufsize := bufsize, finfo := uninit, found := found } =
      finfoLoop true fuel
        { parse := rest
          bufsize := bufsize - (digits.length + 2)
          finfo := value.store n uninit
          found := Function.update found value true } := by
  have hmov : (tag :: (digits ++ '|' :: rest)).length - rest.length = digits.length + 2 := by
    rw [length_cons, length_append, length_cons]
    omega
  have hstep : parseValue true
        { parse := tag :: (digits ++ '|' :: rest), bufsize := bufsize, finfo := uninit, found := found } =
      interpretValue true
        { parse := tag :: (digits ++ '|' :: rest), bufsize := bufsize, finfo := uninit, found := found }
        value n rest :=
    parseValue_letter rfl (parseNumber_separated hdig) hval (by rw [hmov]; exact hroom) hlt
  rw [finfoLoop, loopCondition_letter rfl hval (by dsimp only; omega), Walk.done_bind, if_pos rfl,
    hstep, interpretValue_number hfound hkind.1 hkind.2, if_pos hmax, Walk.done_bind, hmov,
    SizeT.sub_of_le (by omega) hlt]

/-- A timestamp is stored, unless its nanoseconds are too many.  The seconds are not taken off the number
of bytes that are left. -/
theorem finfoLoop_mtime {sec nsec : List Char} {tvSec tvNsec : Nat} (hsec : Digits 10 sec tvSec)
    (hnsec : Digits 10 nsec tvNsec) (hfound : found .mtime = false)
    (hroom : sec.length + nsec.length + 3 + msgTail.length ≤ bufsize) (hlt : bufsize < SizeT.modulus)
    (fuel : Nat) (uninit : RecoveryFinfo) :
    finfoLoop true (fuel + 1)
        { parse := 't' :: (sec ++ '.' :: (nsec ++ '|' :: rest)), bufsize := bufsize, finfo := uninit
          found := found } =
      if tvNsec ≤ nsecMax then finfoLoop true fuel
        { parse := rest
          bufsize := bufsize - (nsec.length + 2)
          finfo := { uninit with mtimeSec := tvSec, mtimeNsec := tvNsec }
          found := Function.update found .mtime true }
      else .error := by
  have hmov : ('t' :: (sec ++ '.' :: (nsec ++ '|' :: rest))).length -
      ('.' :: (nsec ++ '|' :: rest)).length = sec.length + 1 := by
    rw [length_cons, length_append]
    omega
  have hleft : ('.' :: (nsec ++ '|' :: rest)).length - rest.length = nsec.length + 2 := by
    rw [length_cons, length_append, length_cons]
    omega
  have hnum : parseNumber (parsemode 't') valueTerminators
      (sec ++ '.' :: (nsec ++ '|' :: rest)) = .done (tvSec, '.' :: (nsec ++ '|' :: rest)) :=
    parseNumber_ended hsec (by decide) (by decide) (by decide)
  have hstep : parseValue true
        { parse := 't' :: (sec ++ '.' :: (nsec ++ '|' :: rest)), bufsize := bufsize, finfo := uninit
          found := found } =
      interpretValue true
        { parse := 't' :: (sec ++ '.' :: (nsec ++ '|' :: rest)), bufsize := bufsize, finfo := uninit
          found := found } .mtime tvSec ('.' :: (nsec ++ '|' :: rest)) :=
    parseValue_letter rfl hnum rfl (by rw [hmov]; dsimp only; omega) hlt
  rw [finfoLoop, loopCondition_letter rfl rfl (by dsimp only; omega), Walk.done_bind, if_pos rfl, hstep,
    interpretValue_mtime hfound, storeMtime, tail_cons, parseNumber_separated hnsec,
    Walk.done_bind]
  dsimp only
  by_cases hle : tvNsec ≤ nsecMax
  · rw [if_pos hle, decide_eq_true hle, Walk.check_true, Walk.done_bind, hleft,
      SizeT.sub_of_le (by omega) hlt]
    rfl
  · rw [if_neg hle, decide_eq_false hle]
    rfl

theorem strnlenIn_append (hnul : '\x00' ∉ path) (rest : List Char) :
    strnlenIn path.length (path ++ rest) = .done path.length := by
  induction path with
  | nil => cases rest <;> rfl
  | cons c path ih =>
    rw [mem_cons, not_or] at hnul
    rw [cons_append, length_cons, strnlenIn, if_neg (Ne.symm hnul.1), ih hnul.2]
    rfl

theorem toInt_of_le {n : Nat} (h : n ≤ intMax) : toInt n = n := by
  have hmax : intMax = 2147483647 := by decide
  apply Int.bmod_eq_of_le <;> omega

theorem printedLength_path (hnul : '\x00' ∉ path) (hlen : path.length ≤ intMax) (rest : List Char) :
    printedLength path.length (path ++ rest) = .done path.length := by
  have hsign : ¬ (path.length : Int) < 0 := by omega
  rw [printedLength, snprintfPath, readLength, toInt_of_le hlen, if_neg hsign, Int.toNat_natCast,
    strnlenIn_append hnul, Walk.done_bind, if_pos hlen]
  rfl

theorem finfoLoop_path (hdig : Digits 10 digits path.length) (hnul : '\x00' ∉ path)
    (hlen : path.length ≤ intMax) (hfound : found .path = false)
    (hroom : digits.length + 2 + path.length + msgTail.length ≤ bufsize) (hlt : bufsize < SizeT.modulus)
    (fuel : Nat) (uninit : RecoveryFinfo) :
    finfoLoop true (fuel + 1)
        { parse := 'p' :: (digits ++ ':' :: (path ++ (msgTail ++ rest))), bufsize := bufsize
          finfo := uninit, found := found } =
      finfoLoop true fuel
        { parse := msgTail ++ rest
          bufsize := bufsize - (digits.length + 2) - path.length
          finfo := { uninit with path := path }
          found := Function.update found .path true } := by
  have hmov : ('p' :: (digits ++ ':' :: (path ++ (msgTail ++ rest)))).length -
      (path ++ (msgTail ++ rest)).length = digits.length + 2 := by
    rw [length_cons, length_append, length_cons]
    omega
  have hcolon : ('p' :: (digits ++ ':' :: (path ++ (msgTail ++ rest)))).length -
      (':' :: (path ++ (msgTail ++ rest))).length = digits.length + 1 := by
    rw [length_cons, length_append]
    omega
  have hnum : parseNumber (parsemode 'p') valueTerminators
      (digits ++ ':' :: (path ++ (msgTail ++ rest))) =
        .done (path.length, ':' :: (path ++ (msgTail ++ rest))) :=
    parseNumber_ended hdig (by decide) (by decide) (by decide)
  have hstep : parseValue true
        { parse := 'p' :: (digits ++ ':' :: (path ++ (msgTail ++ rest))), bufsize := bufsize
          finfo := uninit, found := found } =
      interpretValue true
        { parse := 'p' :: (digits ++ ':' :: (path ++ (msgTail ++ rest))), bufsize := bufsize
          finfo := uninit, found := found } .path path.length
        (':' :: (path ++ (msgTail ++ rest))) :=
    parseValue_letter rfl hnum rfl (by rw [hcolon]; dsimp only; omega) hlt
  have hsize : SizeT.sub bufsize (digits.length + 2) = bufsize - (digits.length + 2) :=
    SizeT.sub_of_le (by omega) hlt
  have hfits : path.length ≤ SizeT.sub (bufsize - (digits.length + 2)) msgTail.length := by
    rw [SizeT.sub_of_le (by omega) (by omega)]
    omega
  have hdrop : (path ++ (msgTail ++ rest)).drop path.length = msgTail ++ rest := drop_left
  have htake : (path ++ (msgTail ++ rest)).take path.length = path := take_left
  have hbyte : byteAt (msgTail ++ rest) = .done ')' := rfl
  have hnone : (if ')' = '|' then 1 else 0) = 0 := rfl
  rw [finfoLoop, loopCondition_letter rfl rfl (by dsimp only; omega), Walk.done_bind, if_pos rfl, hstep]
  unfold interpretValue
  simp only [hfound, Bool.not_false, Walk.check_true, Walk.done_bind, byteAt, decide_true,
    tail_cons, hmov, hsize]
  rw [storePath, decide_eq_true hfits, Walk.check_true, Walk.done_bind, Walk.done_bind,
    printedLength_path hnul hlen, Walk.done_bind, decide_eq_true rfl, Walk.check_true, Walk.done_bind,
    hdrop, hbyte, Walk.done_bind, htake, SizeT.sub_of_le (by omega) (by omega)]
  dsimp only
  rw [hnone, SizeT.sub_of_le (Nat.zero_le _) (by omega)]
  rfl

end Turn

/-! ## A record -/

structure RecoveryFinfo.Printable (finfo : RecoveryFinfo) : Prop where
  inode : finfo.inode ≤ ullongMax
  mode : finfo.mode ≤ FinfoValue.mode.max
  owner : finfo.owner ≤ FinfoValue.owner.max
  group : finfo.group ≤ FinfoValue.group.max
  size : finfo.size ≤ ullongMax
  mtimeSec : finfo.mtimeSec ≤ ullongMax
  mtimeNsec : finfo.mtimeNsec ≤ ullongMax
  path : '\x00' ∉ finfo.path
  length : (recoveryFinfotostr finfo).length ≤ intMax

namespace RecoveryFinfo

variable (finfo : RecoveryFinfo) (after : List Char)

def pathText : List Char :=
  'p' :: (decimal finfo.path.length ++ ':' :: (finfo.path ++ (msgTail ++ after)))

/-- The record from its flag on. -/
def eofText : List Char := 'e' :: (decimal finfo.eof.toNat ++ '|' :: finfo.pathText after)

/-- The record from its timestamp on. -/
def mtimeText : List Char :=
  't' :: (padded sizeDigits finfo.mtimeSec ++
    '.' :: (padded sizeDigits finfo.mtimeNsec ++ '|' :: finfo.eofText after))

def sizeText : List Char := 's' :: (padded sizeDigits finfo.size ++ '|' :: finfo.mtimeText after)

def groupText : List Char := 'g' :: (decimal finfo.group ++ '|' :: finfo.sizeText after)

def ownerText : List Char := 'o' :: (decimal finfo.owner ++ '|' :: finfo.groupText after)

def modeText : List Char := 'm' :: ('0' :: octal finfo.mode ++ '|' :: finfo.ownerText after)

def inodeText : List Char := 'i' :: (decimal finfo.inode ++ '|' :: finfo.modeText after)

theorem text_eq : recoveryFinfotostr finfo ++ after = msgHead ++ (finfoType ++ finfo.inodeText after) := by
  unfold recoveryFinfotostr inodeText modeText ownerText groupText sizeText mtimeText eofText pathText
  simp only [append_assoc, cons_append, String.toList]
  rfl

end RecoveryFinfo

theorem strncmpIn_append (word after : List Char) : strncmpIn (word ++ after) word = .done true := by
  rw [strncmpIn_eq word (by simp), List.isPrefixOf_iff_prefix.2 (prefix_append word after)]

theorem loopCondition_tail {after : List Char} (h : st.parse = msgTail ++ after) :
    loopCondition st = .done false := by
  unfold loopCondition
  by_cases hroom : st.bufsize < msgTail.length
  · rw [if_pos hroom]
    rfl
  · rw [if_neg hroom, h, strncmpIn_append, Walk.done_bind]
    rfl

theorem recoveryFinfotostr_length (finfo : RecoveryFinfo) :
    (recoveryFinfotostr finfo).length = (decimal finfo.inode).length + ('0' :: octal finfo.mode).length +
      (decimal finfo.owner).length + (decimal finfo.group).length +
      (padded sizeDigits finfo.size).length + (padded sizeDigits finfo.mtimeSec).length +
      (padded sizeDigits finfo.mtimeNsec).length + (decimal finfo.eof.toNat).length +
      (decimal finfo.path.length).length + finfo.path.length + 33 := by
  have htail : msgTail.length = 2 := rfl
  have hhead : msgHead.length = 7 := rfl
  have htype : finfoType.length = 7 := rfl
  have htext := finfo.text_eq []
  rw [List.append_nil] at htext
  rw [htext]
  simp only [RecoveryFinfo.inodeText, RecoveryFinfo.modeText, RecoveryFinfo.ownerText,
    RecoveryFinfo.groupText, RecoveryFinfo.sizeText, RecoveryFinfo.mtimeText, RecoveryFinfo.eofText,
    RecoveryFinfo.pathText, length_cons, length_append, length_nil, htail, hhead, htype]
  omega

structure FinfoState.Complete (st : FinfoState) (finfo : RecoveryFinfo) (after : List Char) : Prop where
  parse : st.parse = msgTail ++ after
  bufsize : msgTail.length ≤ st.bufsize
  finfo : st.finfo = finfo
  found : ∀ value, st.found value = true

theorem finfoLoop_printed (h : finfo.Printable) (after : List Char) (uninit : RecoveryFinfo) (fuel : Nat)
    (hsize : (recoveryFinfotostr finfo).length ≤ bufsize + (msgHead.length + finfoType.length))
    (hlt : bufsize < SizeT.modulus) :
    ∃ st : FinfoState, st.Complete finfo after ∧ finfoLoop true (fuel + 9)
        { parse := finfo.inodeText after, bufsize := bufsize, finfo := uninit, found := fun _ => false } =
      if finfo.mtimeNsec ≤ nsecMax then .done st else .error := by
  have htail : msgTail.length = 2 := rfl
  have hhead : msgHead.length = 7 := rfl
  have htype : finfoType.length = 7 := rfl
  rw [recoveryFinfotostr_length] at hsize
  have hinode := decimal_digits h.inode
  have hmode := octal_digits (h.mode.trans (by decide))
  have howner := decimal_digits (h.owner.trans (by decide))
  have hgroup := decimal_digits (h.group.trans (by decide))
  have hflag : finfo.eof.toNat ≤ 1 := Bool.toNat_le _
  have hplain : ∀ value, value ∈ [FinfoValue.inode, .mode, .owner, .group, .size, .eof] →
      value ≠ .mtime ∧ value ≠ .path := by decide
  have hpathlen : finfo.path.length ≤ intMax := by
    have hlen := h.length
    rw [recoveryFinfotostr_length] at hlen
    omega
  have hintmax : intMax ≤ ullongMax := by decide
  rw [RecoveryFinfo.inodeText,
    finfoLoop_number 'i' rfl (hplain .inode (by decide)) hinode h.inode rfl,
    RecoveryFinfo.modeText, finfoLoop_number 'm' rfl (hplain .mode (by decide)) hmode h.mode rfl,
    RecoveryFinfo.ownerText, finfoLoop_number 'o' rfl (hplain .owner (by decide)) howner h.owner rfl,
    RecoveryFinfo.groupText, finfoLoop_number 'g' rfl (hplain .group (by decide)) hgroup h.group rfl,
    RecoveryFinfo.sizeText,
    finfoLoop_number 's' rfl (hplain .size (by decide)) (padded_digits h.size) h.size rfl,
    RecoveryFinfo.mtimeText,
    finfoLoop_mtime (padded_digits h.mtimeSec) (padded_digits h.mtimeNsec) rfl]
  · split
    · rw [RecoveryFinfo.eofText,
        finfoLoop_number 'e' rfl (hplain .eof (by decide)) (decimal_digits (hflag.trans (by decide)))
          hflag rfl,
        RecoveryFinfo.pathText,
        finfoLoop_path (decimal_digits (hpathlen.trans hintmax)) h.path hpathlen rfl]
      · -- every value of the struct has been written
        have heof : decide (finfo.eof.toNat = 1) = finfo.eof := by cases finfo.eof <;> rfl
        refine ⟨_, ?_, by rw [finfoLoop, loopCondition_tail rfl, Walk.done_bind]; rfl⟩
        refine ⟨rfl, by dsimp only; omega, ?_, fun value => by cases value <;> rfl⟩
        simp only [FinfoValue.store, heof]
      all_goals omega
    · exact ⟨⟨msgTail ++ after, msgTail.length, finfo, fun _ => true⟩, ⟨rfl, le_rfl, rfl, fun _ => rfl⟩, rfl⟩
  all_goals omega

theorem skipWord_append {word : List Char} (hle : word.length ≤ bufsize) (hlt : bufsize < SizeT.modulus)
    (uninit : RecoveryFinfo) (found : FinfoValue → Bool) :
    skipWord word { parse := word ++ rest, bufsize := bufsize, finfo := uninit, found := found } =
      .done { parse := rest, bufsize := bufsize - word.length, finfo := uninit, found := found } := by
  have hdrop : (word ++ rest).drop word.length = rest := drop_left
  unfold skipWord
  rw [decide_eq_true hle, Walk.check_true, Walk.done_bind, strncmpIn_append, Walk.done_bind,
    Walk.check_true, Walk.done_bind, hdrop, SizeT.sub_of_le hle hlt]
  rfl

/-- The words in front of the values are skipped. -/
theorem parseFinfoAt_entered {fuel : Nat} {content : List Char}
    (hle : msgHead.length + finfoType.length ≤ bufsize) (hlt : bufsize < SizeT.modulus)
    (uninit : RecoveryFinfo) :
    parseFinfoAt fuel (msgHead ++ (finfoType ++ content)) bufsize uninit =
      finfoLoop true fuel
        { parse := content, bufsize := bufsize - msgHead.length - finfoType.length, finfo := uninit
          found := fun _ => false } >>= checkFinfo := by
  unfold parseFinfoAt
  rw [skipWord_append (by omega) hlt, Walk.done_bind, skipWord_append (by omega) (by omega),
    Walk.done_bind]

theorem checkFinfo_complete {after : List Char} (h : st.Complete finfo after) : checkFinfo st = .done st := by
  have hall : FinfoValue.all.all st.found = true := by
    rw [all_eq_true]
    exact fun value _ => h.found value
  rw [checkFinfo, decide_eq_true h.bufsize, Walk.check_true, Walk.done_bind, hall, Walk.check_true,
    Walk.done_bind]
  rfl

/-- A record that can be printed is parsed back, whatever follows it and whatever the struct held.  Only
if there are too many nanoseconds it is refused. -/
theorem parseFinfoAt_printed (h : finfo.Printable) (after : List Char) (uninit : RecoveryFinfo) (fuel : Nat) :
    ∃ st : FinfoState, st.Complete finfo after ∧
      parseFinfoAt (fuel + 9) (recoveryFinfotostr finfo ++ after) (recoveryFinfotostr finfo).length
        uninit = if finfo.mtimeNsec ≤ nsecMax then .done st else .error := by
  have hhead : msgHead.length = 7 := rfl
  have htype : finfoType.length = 7 := rfl
  have hmax : intMax < SizeT.modulus := by decide
  have hlen := h.length
  have hlength := recoveryFinfotostr_length finfo
  generalize hn : (recoveryFinfotostr finfo).length = n at hlen hlength ⊢
  have hsize : (recoveryFinfotostr finfo).length ≤
      n - msgHead.length - finfoType.length + (msgHead.length + finfoType.length) := by omega
  obtain ⟨st, hst, hloop⟩ := finfoLoop_printed h after uninit fuel hsize (by omega)
  refine ⟨st, hst, ?_⟩
  rw [finfo.text_eq after, parseFinfoAt_entered (by omega) (by omega), hloop]
  split
  · rw [Walk.done_bind, checkFinfo_complete hst]
  · rfl

theorem finfofromBuffer_of_parse {finfobuf : List Char} {uninit : RecoveryFinfo} (hpos : 1 ≤ finfobuf.length)
    (hst : st.Complete finfo ['\x00'])
    (hprs : parseFinfoAt (finfobuf.length + 9) (finfobuf ++ ['\x00']) finfobuf.length uninit =
      .done st) : finfofromBuffer finfobuf uninit = .done finfo := by
  have hparsed : st.parse.length = msgTail.length + 1 := by
    rw [hst.parse, length_append, length_singleton]
  have hconsumed : finfobuf.length ≤ finfobuf.length + 1 - st.parse.length + msgTail.length := by
    omega
  unfold finfofromBuffer
  rw [decide_eq_true hpos, Walk.check_true, Walk.done_bind, hprs, Walk.done_bind,
    decide_eq_true hconsumed, Walk.check_true, Walk.done_bind, hst.finfo]
  rfl

theorem finfofromBuffer_printed (h : finfo.Printable) (hnsec : finfo.mtimeNsec ≤ nsecMax)
    (uninit : RecoveryFinfo) : finfofromBuffer (recoveryFinfotostr finfo) uninit = .done finfo := by
  have hpos := finfoLength_pos finfo
  unfold finfoLength at hpos
  obtain ⟨st, hst, hprs⟩ :=
    parseFinfoAt_printed h ['\x00'] uninit (recoveryFinfotostr finfo).length
  rw [if_pos hnsec] at hprs
  exact finfofromBuffer_of_parse hpos hst hprs

end Marfs.Recovery
