import Marfs.Rman.Logline

/-!
# Reading a resource log back

The parser finds the end of a line, of a marker path and of an RTAG by a character, so that a chain
is read back exactly if its strings do not contain that character and if each of its lines fits into
the buffer (`Loggable`).  The parsers of the pieces are followed from the printed text
(`parseOp_text`), and back from what they accept (`parseOp_eq_some`).
-/

namespace Marfs.Rman

open Cstring Tagging List

/-! ## The text of an op -/

def RebuildInfo.text (info : RebuildInfo) : List Char :=
  "\x7b ".toList ++ (info.markerpath ++
    (match info.rtag with
      | none => " \x7d ".toList
      | some rtag => ' ' :: (rtag.toStr ++ " \x7d ".toList)))

def Extinfo.text : Extinfo → List Char
  | .delobj info => "DEL-OBJ ".toList ++ ("\x7b ".toList ++ (decimal info.offset ++ " \x7d ".toList))
  | .delref info =>
    "DEL-REF ".toList ++ ("\x7b ".toList ++ (decimal info.prevActiveIndex ++ ' ' ::
      ((if info.delzero then "DZ ".toList else "-- ".toList) ++
        ((if info.eos then "EOS".toList else "CNT".toList) ++ " \x7d ".toList))))
  | .rebuild none => "REBUILD ".toList
  | .rebuild (some info) => "REBUILD ".toList ++ info.text
  | .repack info => "REPACK ".toList ++ ("\x7b ".toList ++ (decimal info.totalbytes ++ " \x7d ".toList))

def Opinfo.text (op : Opinfo) (next : Bool) : List Char :=
  op.extendedinfo.text ++ (op.printValues ++ (op.ftag.toStr ++ nextFlag next))

/-! ## Ops a producer can build -/

/-- The extended info a producer allocates: its numbers are values of their C types, and its RTAG is
one that was read. -/
def Extinfo.Produced : Extinfo → Prop
  | .delobj info => info.offset ≤ ullongMax
  | .delref info => info.prevActiveIndex ≤ ullongMax
  | .rebuild none => True
  | .rebuild (some info) =>
    ∀ rtag, info.rtag = some rtag → ∃ rtagstr, rtagInitstr .zeroed rtagstr = some rtag
  | .repack info => info.totalbytes ≤ ullongMax

structure Opinfo.Produced (op : Opinfo) : Prop where
  extendedinfo : op.extendedinfo.Produced
  count : op.count ≤ ullongMax
  errval : IsInt op.errval
  ftag : ∃ dest ftagstr, dest.Representable ∧ ftagInitstr dest ftagstr = some op.ftag

def Extinfo.Loggable : Extinfo → Prop
  | .rebuild (some info) => info.markerpath ≠ [] ∧ ∀ c ∈ info.markerpath, wordChar c = true
  | _ => True

/-- What the log needs of an op: no newline in a string of its FTAG, no blank or newline in its
marker path, and a line, the newline included, that is shorter than the buffer. -/
structure Opinfo.Loggable (op : Opinfo) (next : Bool) : Prop where
  extendedinfo : op.extendedinfo.Loggable
  ctag : '\n' ∉ op.ftag.ctag
  streamid : '\n' ∉ op.ftag.streamid
  reftree : op.ftag.ReftreeNonneg
  length : (op.text next).length + 1 < maxBuffer

/-- What the log needs of a chain. -/
def Loggable : List Opinfo → Prop
  | [] => True
  | op :: next => op.Loggable (!next.isEmpty) ∧ Loggable next

/-! ## Characters of the text -/

section Characters

variable {c : Char}

theorem not_mem_decimal (hc : c.isDigit = false) (n : Nat) : c ∉ decimal n := by
  intro h
  rw [isDigit_of_mem_decimal h] at hc
  cases hc

theorem not_mem_padded (hc : c.isDigit = false) (w n : Nat) : c ∉ padded w n := by
  intro h
  rw [isDigit_of_mem_padded h] at hc
  cases hc

theorem not_mem_decimalInt (hc : c.isDigit = false) (hsign : c ≠ '-') (n : Int) :
    c ∉ decimalInt n := by
  unfold decimalInt
  split
  · simp [hsign, not_mem_decimal hc]
  · exact not_mem_decimal hc _

theorem separator_of_not_wordChar (hc : wordChar c = false) : c = ' ' ∨ c = '\n' := by
  simpa [wordChar, or_iff_not_imp_left] using hc

theorem not_mem_healthValues (hc : c = ' ' ∨ c = '\n') (healths : List Bool) :
    c ∉ healthValues healths := by
  have hflag : ∀ health, c ≠ healthFlag health := by
    intro health
    rcases hc with rfl | rfl <;> cases health <;> decide
  have hsep : c ≠ '-' := by rcases hc with rfl | rfl <;> decide
  induction healths using healthValues.induct with
  | case1 => simp [healthValues]
  | case2 health => simp [healthValues, hflag]
  | case3 health healths _ ih => simp [healthValues, hflag, hsep, ih]

theorem not_mem_rtagToStr (hc : c = ' ' ∨ c = '\n') (rtag : Rtag) : c ∉ rtag.toStr := by
  have hdigit : c.isDigit = false := by rcases hc with rfl | rfl <;> rfl
  have hnum := not_mem_decimal hdigit
  have hhealth := not_mem_healthValues hc
  have hhdr : ∀ header ∈ [rtagVersionHeader, timestampHeader, stripeinfoHeader,
      datahealthHeader, metahealthHeader], c ∉ header := by
    rcases hc with rfl | rfl <;> decide
  have hpunct : c ∉ ['.', ')', 'w', '|', 'v', 'b', 't'] := by
    rcases hc with rfl | rfl <;> decide
  simp only [mem_cons, not_mem_nil, or_false, not_or, forall_eq_or_imp, forall_eq]
    at hhdr hpunct
  simp only [Rtag.toStr, Rtag.versionStanza, Rtag.timestampStanza, Rtag.stripeStanza,
    Rtag.healthStanzas, mem_append, mem_cons, not_or]
  split <;> simp [hhdr, hpunct, hnum, hhealth, not_mem_padded hdigit]

theorem newline_not_mem_ftagToStr {ftag : Ftag} (hctag : '\n' ∉ ftag.ctag) (hsid : '\n' ∉ ftag.streamid) :
    '\n' ∉ ftag.toStr := by
  have hnum := not_mem_decimal (c := '\n') rfl
  have hint := not_mem_decimalInt (c := '\n') rfl (by decide)
  have hhdr : ∀ header ∈ [versionHeader, streaminfoHeader, reftreeHeader, filepositionHeader,
      datacontentHeader], '\n' ∉ header := by decide
  have hdata : '\n' ∉ ftag.state.data.name := by cases ftag.state.data <;> decide
  have hperms : '\n' ∉ ftag.state.perms := by
    unfold FtagState.perms
    split <;> split <;> decide
  simp only [mem_cons, not_mem_nil, or_false, forall_eq_or_imp, forall_eq] at hhdr
  simp [Ftag.toStr, Ftag.versionStanza, Ftag.streamStanza, Ftag.reftreeStanza, Ftag.positionStanza,
    Ftag.contentStanza, Ftag.contentValues, hhdr, hnum, hint, hctag, hsid, hdata, hperms,
    not_mem_padded (c := '\n') rfl]

theorem newline_not_mem_extinfoText {extinfo : Extinfo} (h : extinfo.Loggable) : '\n' ∉ extinfo.text := by
  have hnum := not_mem_decimal (c := '\n') rfl
  have hmark : ∀ {path : List Char}, (∀ c ∈ path, wordChar c = true) → '\n' ∉ path := by
    intro path hword hmem
    exact absurd (hword _ hmem) (by decide)
  unfold Extinfo.text
  split
  · simp [hnum]
  · rename_i info
    cases info.delzero <;> cases info.eos <;> simp [hnum]
  · simp
  · rename_i info
    have hpath := hmark h.2
    unfold RebuildInfo.text
    cases info.rtag with
    | none => simp [hpath]
    | some rtag => simp [hpath, not_mem_rtagToStr (.inr rfl) rtag]
  · simp [hnum]

theorem newline_not_mem_text {op : Opinfo} {next : Bool} (h : op.Loggable next) : '\n' ∉ op.text next := by
  have hnum := not_mem_decimal (c := '\n') rfl
  have hint := not_mem_decimalInt (c := '\n') rfl (by decide)
  have hvals : '\n' ∉ op.printValues := by
    unfold Opinfo.printValues
    cases op.start <;> simp [hnum, hint]
  have hflag : '\n' ∉ nextFlag next := by cases next <;> decide
  simp [Opinfo.text, newline_not_mem_extinfoText h.extendedinfo, hvals, hflag,
    newline_not_mem_ftagToStr h.ctag h.streamid]

end Characters

/-! ## Printing the text -/

variable {extinfo : Extinfo} {op : Opinfo} {next : Bool} {rest line s : List Char} {chain : List Opinfo}

theorem Extinfo.print_eq (hprod : extinfo.Produced) (h : extinfo.Loggable) :
    extinfo.print = some extinfo.text := by
  unfold Extinfo.print Extinfo.text
  split
  · rfl
  · rfl
  · rfl
  · rename_i info
    obtain ⟨markerpath, rtag⟩ := info
    have hpath : markerpath.isEmpty = false := by simpa using h.1
    cases rtag with
    | none => simp [RebuildInfo.print, RebuildInfo.text, hpath]
    | some rtag =>
      obtain ⟨rtagstr, hread⟩ := hprod rtag rfl
      simp [RebuildInfo.print, RebuildInfo.text, hpath,
        rtagTostr_accepted (rtagInitstr_accepted hread)]
  · rfl

theorem Opinfo.Produced.accepted (h : op.Produced) :
    op.ftag.majorversion = ftagCurrentMajorversion ∧
      op.ftag.minorversion = ftagCurrentMinorversion ∧ '|' ∉ op.ftag.ctag ∧
      '|' ∉ op.ftag.streamid ∧ op.ftag.Representable := by
  obtain ⟨dest, ftagstr, hrep, hread⟩ := h.ftag
  have hacc := ftagInitstr_accepted hread
  exact ⟨hacc.majorversion, hacc.minorversion, hacc.ctag.1, hacc.streamid.1,
    hacc.representable hrep⟩

theorem Opinfo.line_eq (hprod : op.Produced) (h : op.Loggable next) :
    op.line next = some (op.text next ++ ['\n']) := by
  obtain ⟨hmaj, hmin, -, -, -⟩ := hprod.accepted
  have hlen := h.length
  simp only [Opinfo.text, length_append] at hlen
  have hroom : op.ftag.toStr.length <
      maxBuffer - (op.extendedinfo.text ++ op.printValues).length := by
    rw [length_append]
    omega
  have hfits : ¬ (op.extendedinfo.text ++ op.printValues).length + op.ftag.toStr.length +
      (nextFlag next).length + 1 ≥ maxBuffer := by
    rw [length_append]
    omega
  simp only [Opinfo.line, Extinfo.print_eq hprod.extendedinfo h.extendedinfo,
    Option.bind_eq_bind, Option.bind_some, ftagTostr_of_lt hmaj hmin hroom, if_neg hfits]
  simp [Opinfo.text]

/-! ## Reading the text -/

variable {n : Nat} {word yes no text input : List Char} {errval : Int} {info : RebuildInfo}
  {uninit : Ftag}

theorem spacedNumber_append {digits : List Char} (h : Prints digits n) :
    spacedNumber (digits ++ ' ' :: rest) = some (n, rest) := by
  unfold spacedNumber
  rw [h _ (stops_cons.2 rfl)]
  rfl

theorem spacedWord_append (h : ∀ c ∈ word, wordChar c = true) :
    spacedWord (word ++ ' ' :: rest) = some (word, rest) := by
  unfold spacedWord
  rw [dropWhile_append_of_pos h, takeWhile_append_of_pos h,
    dropWhile_cons_of_neg (by decide), takeWhile_cons_of_neg (by decide)]
  simp

theorem eitherWord_append (first : Bool) (rest : List Char) (hne : skipHeader yes (no ++ rest) = none) :
    eitherWord yes no ((if first then yes else no) ++ rest) = some (first, rest) := by
  unfold eitherWord
  cases first with
  | true => simp
  | false => simp [hne]

theorem parseErrval_append (h : IsInt errval) (rest : List Char) :
    parseErrval (decimalInt errval ++ ' ' :: rest) = some (errval, rest) := by
  have hmin : -longMax - 1 ≤ errval := by
    have := h.min_le
    have hval : longMax = 9223372036854775807 := by decide
    omega
  have hmax : errval ≤ longMax := by
    have := h.le_max
    have hval : longMax = 9223372036854775807 := by decide
    omega
  have hbmod : Int.bmod errval (2 ^ 32) = errval := by
    have := h.min_le
    have := h.le_max
    have hmod : ((2 ^ 32 : Nat) : Int) = 4294967296 := by decide
    rw [Int.bmod_def, hmod]
    split <;> omega
  unfold parseErrval
  rw [strtol_decimalInt hmin hmax (stops_cons.2 rfl)]
  simp only [hbmod]

theorem parseDelobj_text {info : DelobjInfo} (h : info.offset ≤ ullongMax) (rest : List Char) :
    parseDelobj ("\x7b ".toList ++ (decimal info.offset ++ ' ' :: ("\x7d ".toList ++ rest))) =
      some (.delobj info, rest) := by
  simp only [parseDelobj, skipHeader_append, Option.bind_eq_bind, Option.bind_some,
    spacedNumber_append (prints_decimal h)]

theorem parseRepack_text {info : RepackInfo} (h : info.totalbytes ≤ ullongMax) (rest : List Char) :
    parseRepack ("\x7b ".toList ++ (decimal info.totalbytes ++ ' ' :: ("\x7d ".toList ++ rest))) =
      some (.repack info, rest) := by
  simp only [parseRepack, skipHeader_append, Option.bind_eq_bind, Option.bind_some,
    spacedNumber_append (prints_decimal h)]

theorem parseDelref_text {info : DelrefInfo} (h : info.prevActiveIndex ≤ ullongMax)
    (rest : List Char) :
    parseDelref ("\x7b ".toList ++ (decimal info.prevActiveIndex ++ ' ' ::
      ((if info.delzero then "DZ ".toList else "-- ".toList) ++
        ((if info.eos then "EOS".toList else "CNT".toList) ++ (" \x7d ".toList ++ rest))))) =
      some (.delref info, rest) := by
  simp only [parseDelref, skipHeader_append, Option.bind_eq_bind, Option.bind_some,
    spacedNumber_append (prints_decimal h)]
  rw [eitherWord_append _ _ (by rfl), Option.bind_some, eitherWord_append _ _ (by rfl),
    Option.bind_some, skipHeader_append, Option.bind_some]

theorem wordChar_rtagToStr (rtag : Rtag) : ∀ c ∈ rtag.toStr, wordChar c = true := by
  intro c hc
  by_contra hsep
  exact not_mem_rtagToStr (separator_of_not_wordChar (by simpa using hsep)) rtag hc

theorem rtagToStr_head (rtag : Rtag) : ∃ tail, rtag.toStr = 'V' :: tail := ⟨_, rfl⟩

theorem parseRebuild_text (hprod : (Extinfo.rebuild (some info)).Produced)
    (h : ∀ c ∈ info.markerpath, wordChar c = true) (rest : List Char) :
    parseRebuild (info.text ++ rest) = some (.rebuild (some info), rest) := by
  obtain ⟨markerpath, rtag⟩ := info
  unfold RebuildInfo.text parseRebuild
  rw [append_assoc, skipHeader_append]
  cases rtag with
  | none =>
    have hword : spacedWord (markerpath ++ " \x7d ".toList ++ rest) =
        some (markerpath, "\x7d ".toList ++ rest) := by
      rw [append_assoc]
      exact spacedWord_append h
    simp only [hword, Option.bind_eq_bind, Option.bind_some, skipHeader_append]
    rfl
  | some rtag =>
    obtain ⟨rtagstr, hread⟩ := hprod rtag rfl
    obtain ⟨tail, hhead⟩ := rtagToStr_head rtag
    have hpath : spacedWord (markerpath ++ ' ' :: (rtag.toStr ++ " \x7d ".toList) ++ rest) =
        some (markerpath, rtag.toStr ++ " \x7d ".toList ++ rest) := by
      rw [append_assoc]
      exact spacedWord_append h
    have hrtag : spacedWord (rtag.toStr ++ " \x7d ".toList ++ rest) =
        some (rtag.toStr, "\x7d ".toList ++ rest) := by
      rw [append_assoc]
      exact spacedWord_append (wordChar_rtagToStr rtag)
    have hmore : ¬ ((rtag.toStr ++ " \x7d ".toList ++ rest).head? = some '}' ∨
        rtag.toStr ++ " \x7d ".toList ++ rest = []) := by
      rw [hhead]
      simp
    simp only [hpath, hrtag, hmore, Option.bind_eq_bind, Option.bind_some, if_false,
      rtagInitstr_toStr (rtagInitstr_accepted hread), skipHeader_append, Bool.or_eq_true,
      decide_eq_true_eq]

/-- The extended info and what follows it, which is not another brace. -/
theorem parseExtinfo_text (hprod : extinfo.Produced) (h : extinfo.Loggable)
    (hrest : skipHeader "\x7b ".toList rest = none) :
    parseExtinfo (extinfo.text ++ rest) = some (extinfo, rest) := by
  unfold Extinfo.text
  split
  · rename_i info
    have hread := parseDelobj_text hprod rest
    simp only [append_assoc]
    unfold parseExtinfo
    rw [skipHeader_append]
    exact hread
  · rename_i info
    have hread := parseDelref_text hprod rest
    have hskip : ∀ s, skipHeader "DEL-OBJ ".toList ("DEL-REF ".toList ++ s) = none := fun _ => rfl
    simp only [append_assoc, cons_append]
    unfold parseExtinfo
    rw [hskip, skipHeader_append]
    exact hread
  · have hread : parseRebuild rest = some (.rebuild none, rest) := by
      unfold parseRebuild
      rw [hrest]
    unfold parseExtinfo
    have hskip : ∀ s, skipHeader "DEL-OBJ ".toList ("REBUILD ".toList ++ s) = none ∧
        skipHeader "DEL-REF ".toList ("REBUILD ".toList ++ s) = none := fun _ => ⟨rfl, rfl⟩
    rw [(hskip rest).1, (hskip rest).2, skipHeader_append]
    exact hread
  · rename_i info
    have hread := parseRebuild_text hprod h.2 rest
    have hskip : ∀ s, skipHeader "DEL-OBJ ".toList ("REBUILD ".toList ++ s) = none ∧
        skipHeader "DEL-REF ".toList ("REBUILD ".toList ++ s) = none := fun _ => ⟨rfl, rfl⟩
    rw [append_assoc]
    unfold parseExtinfo
    rw [(hskip _).1, (hskip _).2, skipHeader_append]
    exact hread
  · rename_i info
    have hread := parseRepack_text hprod rest
    have hskip : ∀ s, skipHeader "DEL-OBJ ".toList ("REPACK ".toList ++ s) = none ∧
        skipHeader "DEL-REF ".toList ("REPACK ".toList ++ s) = none ∧
        skipHeader "REBUILD ".toList ("REPACK ".toList ++ s) = none := fun _ => ⟨rfl, rfl, rfl⟩
    simp only [append_assoc]
    unfold parseExtinfo
    rw [(hskip _).1, (hskip _).2.1, (hskip _).2.2, skipHeader_append]
    exact hread

theorem parseStart_append (op : Opinfo) (rest : List Char) :
    parseStart (op.printValues ++ rest) =
      some (op.start, decimal op.count ++ ' ' :: (decimalInt op.errval ++ ' ' :: rest)) := by
  unfold Opinfo.printValues
  cases op.start <;> simp [parseStart]

theorem nextFlag_length_le (op : Opinfo) (next : Bool) :
    (op.ftag.toStr ++ nextFlag next ++ ['\n']).take
      ((op.ftag.toStr ++ nextFlag next ++ ['\n']).length - ((nextFlag next).length + 1)) =
      op.ftag.toStr := by
  have hlen : (op.ftag.toStr ++ nextFlag next ++ ['\n']).length - ((nextFlag next).length + 1) =
      op.ftag.toStr.length := by
    simp only [length_append, length_cons, length_nil]
    omega
  rw [hlen, append_assoc, take_left]

/-- A line ends with the closing parenthesis of its FTAG, if no flag follows it. -/
theorem parseNext_text (op : Opinfo) (next : Bool) : parseNext (op.text next) = some next := by
  cases next with
  | true =>
    have hflag : (op.text true).reverse = '-' :: ' ' :: (op.extendedinfo.text ++
        (op.printValues ++ op.ftag.toStr)).reverse := by
      simp [Opinfo.text, nextFlag]
    unfold parseNext
    rw [hflag]
    rfl
  | false =>
    have hparen : op.ftag.toStr.getLast? = some ')' := by
      simp [Ftag.toStr, Ftag.contentStanza, Ftag.contentValues, List.getLast?_cons]
    obtain ⟨tail, hlast⟩ := List.getLast?_eq_some_iff.1 hparen
    have hflag : (op.text false).reverse = ')' :: (op.extendedinfo.text ++
        (op.printValues ++ tail)).reverse := by
      simp [Opinfo.text, nextFlag, hlast]
    unfold parseNext
    rw [hflag]
    rfl

theorem parseOp_text (hprod : op.Produced) (h : op.Loggable next) (uninit : Ftag) :
    parseOp uninit (op.text next) = some (op, next) := by
  obtain ⟨hmaj, hmin, hctag, hsid, hrep⟩ := hprod.accepted
  have hftag := ftagInitstr_toStr hmaj hmin hctag hsid hrep h.reftree uninit
  have hrest : skipHeader "\x7b ".toList
      (op.printValues ++ (op.ftag.toStr ++ nextFlag next ++ ['\n'])) = none := by
    unfold Opinfo.printValues
    cases op.start <;> rfl
  have htext : op.text next ++ ['\n'] = op.extendedinfo.text ++
      (op.printValues ++ (op.ftag.toStr ++ nextFlag next ++ ['\n'])) := by
    simp [Opinfo.text]
  unfold parseOp
  simp only [htext, parseExtinfo_text hprod.extendedinfo h.extendedinfo hrest, parseStart_append,
    spacedNumber_append (prints_decimal hprod.count), parseErrval_append hprod.errval,
    parseNext_text, nextFlag_length_le, hftag, Option.bind_eq_bind, Option.bind_some]

theorem readLine_append (hline : '\n' ∉ line) (hlen : line.length < maxBuffer) (rest : List Char) :
    readLine (line ++ '\n' :: rest) = .line line rest := by
  have hall : ∀ c ∈ line, decide (c ≠ '\n') = true := by
    intro c hc
    simpa using ne_of_mem_of_not_mem hc hline
  unfold readLine
  rw [dropWhile_append_of_pos hall, takeWhile_append_of_pos hall,
    takeWhile_cons_of_neg (by simp), dropWhile_cons_of_neg (by simp), List.append_nil,
    if_neg (by omega)]

/-! ## Chains -/

/-- A chain comes back: it is printed as a whole, and wherever the text stands in a log, it is read
as that chain, with the position behind it. -/
def RoundTrips (chain : List Opinfo) : Prop :=
  ∃ text, printlogline chain = (text, true) ∧
    ∀ (uninit : Nat → Ftag) (rest : List Char), (∀ i, (uninit i).Representable) →
      parselogline uninit (text ++ rest) = { chain := some chain, eof := 0, rest := rest }

def chainText : List Opinfo → List Char
  | [] => []
  | op :: next => op.text (!next.isEmpty) ++ '\n' :: chainText next

theorem printlogline_eq (hprod : ∀ op ∈ chain, op.Produced) (h : Loggable chain) :
    printlogline chain = (chainText chain, true) := by
  induction chain with
  | nil => rfl
  | cons op next ih =>
    have hline := Opinfo.line_eq (hprod op (mem_cons_self ..)) h.1
    have hnext := ih (fun op hop => hprod op (mem_cons_of_mem _ hop)) h.2
    simp only [printlogline, hline, hnext, chainText]
    simp

/-- Every line takes one turn of the recursion. -/
theorem parseLines_chainText (uninit : Nat → Ftag) (rest : List Char) (hne : chain ≠ [])
    (hprod : ∀ op ∈ chain, op.Produced) (h : Loggable chain) :
    ∀ fuel, chain.length ≤ fuel → parseLines uninit fuel (chainText chain ++ rest) =
      { chain := some chain, eof := 0, rest := rest } := by
  induction chain with
  | nil => exact absurd rfl hne
  | cons op next ih =>
    intro fuel hfuel
    obtain ⟨fuel, rfl⟩ := Nat.exists_eq_add_of_lt hfuel
    have hop := parseOp_text (hprod op (mem_cons_self ..)) h.1 (uninit (next.length + fuel))
    have hlen := h.1.length
    have hread : readLine (chainText (op :: next) ++ rest) =
        .line (op.text (!next.isEmpty)) (chainText next ++ rest) := by
      rw [chainText, append_assoc]
      exact readLine_append (newline_not_mem_text h.1) (by omega) _
    rw [parseLines, hread]
    dsimp only
    rw [hop]
    cases next with
    | nil => rfl
    | cons op' next =>
      have hnext := ih (cons_ne_nil _ _)
        (fun op hop => hprod op (mem_cons_of_mem _ hop)) h.2 ((op' :: next).length + fuel)
        (Nat.le_add_right _ _)
      simp only [isEmpty_cons, Bool.not_false, hnext]

theorem length_le_chainText (chain : List Opinfo) : chain.length ≤ (chainText chain).length := by
  induction chain with
  | nil => exact le_rfl
  | cons op next ih =>
    simp only [chainText, length_append, length_cons]
    omega

theorem roundTrips_of_loggable (hne : chain ≠ []) (hprod : ∀ op ∈ chain, op.Produced) (h : Loggable chain) :
    RoundTrips chain := by
  refine ⟨chainText chain, printlogline_eq hprod h, ?_⟩
  intro uninit rest _
  have hlen := length_le_chainText chain
  apply parseLines_chainText uninit rest hne hprod h
  rw [length_append]
  omega

/-! ## What is printed -/

theorem Extinfo.print_eq_some (hprod : extinfo.Produced) (h : extinfo.print = some text) :
    text = extinfo.text := by
  unfold Extinfo.print at h
  unfold Extinfo.text
  split at h
  · exact (Option.some.inj h).symm
  · exact (Option.some.inj h).symm
  · exact (Option.some.inj h).symm
  · rename_i info
    obtain ⟨markerpath, rtag⟩ := info
    obtain ⟨printed, hprint, rfl⟩ := Option.map_eq_some_iff.1 h
    unfold RebuildInfo.print at hprint
    split at hprint
    · cases hprint
    · cases rtag with
      | none =>
        obtain rfl := Option.some.inj hprint
        rfl
      | some rtag =>
        obtain ⟨rtagstr, hread⟩ := hprod rtag rfl
        simp only [rtagTostr_accepted (rtagInitstr_accepted hread), Option.map_some] at hprint
        obtain rfl := Option.some.inj hprint
        rfl
  · exact (Option.some.inj h).symm

theorem Extinfo.markerpath_ne_nil (h : (Extinfo.rebuild (some info)).print = some text) :
    info.markerpath ≠ [] := by
  intro hemp
  simp [Extinfo.print, RebuildInfo.print, hemp] at h

theorem Opinfo.line_eq_some (hprod : op.Produced) (h : op.line next = some line) :
    line = op.text next ++ ['\n'] ∧ (op.text next).length + 1 < maxBuffer := by
  obtain ⟨hmaj, hmin, -, -, -⟩ := hprod.accepted
  unfold Opinfo.line at h
  simp only [Option.bind_eq_bind, Option.bind_eq_some_iff] at h
  obtain ⟨extinfo, hprint, ⟨ftagstr, ftaglen⟩, htostr, h⟩ := h
  obtain rfl := Extinfo.print_eq_some hprod.extendedinfo hprint
  obtain ⟨-, -, -, rfl⟩ := ftagTostr_eq_some htostr
  dsimp only at h
  split at h
  · cases h
  · rename_i hfits
    rw [ftagTostr_of_lt hmaj hmin (by omega)] at htostr
    obtain ⟨rfl, -⟩ := Prod.mk.inj (Option.some.inj htostr)
    obtain rfl := Option.some.inj h
    simp only [length_append] at hfits
    refine ⟨by simp [Opinfo.text], ?_⟩
    simp only [Opinfo.text, length_append]
    omega

/-! ## What is read -/

theorem skipHeader_suffix {header : List Char} (h : skipHeader header s = some rest) : rest <:+ s := by
  rw [skipHeader_eq_some h]
  exact suffix_append ..

theorem spacedNumber_suffix (h : spacedNumber s = some (n, rest)) : rest <:+ s := by
  have hsuf := strtoull_suffix s
  unfold spacedNumber at h
  split at h
  · rename_i heq
    rw [heq] at hsuf
    cases h
    exact (suffix_cons ..).trans hsuf
  · cases h

theorem eitherWord_suffix {first : Bool} (h : eitherWord yes no s = some (first, rest)) : rest <:+ s := by
  unfold eitherWord at h
  split at h
  · rename_i hskip
    cases h
    exact skipHeader_suffix hskip
  · obtain ⟨t, hskip, h⟩ := Option.map_eq_some_iff.1 h
    cases h
    exact skipHeader_suffix hskip

theorem spacedWord_eq_some (h : spacedWord s = some (word, rest)) :
    (∀ c ∈ word, wordChar c = true) ∧ rest <:+ s := by
  have hsuf := dropWhile_suffix (l := s) wordChar
  unfold spacedWord at h
  split at h
  · rename_i heq
    rw [heq] at hsuf
    cases h
    exact ⟨fun c hc => List.all_eq_true.1 all_takeWhile c hc,
      (suffix_cons ..).trans hsuf⟩
  · cases h

theorem parseStart_suffix {start : Bool} (h : parseStart s = some (start, rest)) : rest <:+ s := by
  unfold parseStart at h
  split at h
  · cases h
    exact ⟨['S', ' '], rfl⟩
  · cases h
    exact ⟨['E', ' '], rfl⟩
  · cases h

theorem parseErrval_suffix (h : parseErrval s = some (errval, rest)) : rest <:+ s := by
  unfold parseErrval strtol at h
  split at h
  · rename_i heq
    split at heq
    · cases heq
      generalize Int.bmod _ _ = val at h
      cases h
      exact suffix_cons ..
    · rename_i hscan
      obtain ⟨-, rfl⟩ := Prod.mk.inj heq
      generalize Int.bmod _ _ = val at h
      cases h
      exact (suffix_cons ..).trans (scanNumber_suffix hscan)
  · cases h

theorem parseRebuild_eq_some (h : parseRebuild s = some (extinfo, rest)) :
    rest <:+ s ∧ ∀ info, extinfo = .rebuild (some info) →
      ∀ c ∈ info.markerpath, wordChar c = true := by
  unfold parseRebuild at h
  split at h
  · cases h
    exact ⟨suffix_rfl, nofun⟩
  · rename_i s₁ hskip
    simp only [Option.bind_eq_bind, Option.bind_eq_some_iff] at h
    obtain ⟨⟨markerpath, s₂⟩, hpath, h⟩ := h
    obtain ⟨hword, hsuf⟩ := spacedWord_eq_some hpath
    have hsuf := hsuf.trans (skipHeader_suffix hskip)
    dsimp only at h
    split at h
    · obtain ⟨s₃, hskip', h⟩ := Option.bind_eq_some_iff.1 h
      cases h
      refine ⟨(skipHeader_suffix hskip').trans hsuf, ?_⟩
      rintro info ⟨⟩
      exact hword
    · simp only [Option.bind_eq_some_iff] at h
      obtain ⟨⟨rtagstr, s₃⟩, hrtagstr, rtag, -, s₄, hskip', h⟩ := h
      cases h
      refine ⟨((skipHeader_suffix hskip').trans (spacedWord_eq_some hrtagstr).2).trans hsuf, ?_⟩
      rintro info ⟨⟩
      exact hword

theorem parseExtinfo_eq_some (h : parseExtinfo s = some (extinfo, rest)) :
    rest <:+ s ∧ ∀ info, extinfo = .rebuild (some info) →
      ∀ c ∈ info.markerpath, wordChar c = true := by
  unfold parseExtinfo at h
  split at h
  · rename_i s₁ hskip
    simp only [parseDelobj, Option.bind_eq_bind, Option.bind_eq_some_iff] at h
    obtain ⟨s₂, hbrace, ⟨offset, s₃⟩, hoff, s₄, hend, h⟩ := h
    cases h
    exact ⟨(((skipHeader_suffix hend).trans (spacedNumber_suffix hoff)).trans
      (skipHeader_suffix hbrace)).trans (skipHeader_suffix hskip), nofun⟩
  · split at h
    · rename_i s₁ hskip
      simp only [parseDelref, Option.bind_eq_bind, Option.bind_eq_some_iff] at h
      obtain ⟨s₂, hbrace, ⟨prevActiveIndex, s₃⟩, hprev, ⟨delzero, s₄⟩, hdelzero, ⟨eos, s₅⟩, heos,
        s₆, hend, h⟩ := h
      cases h
      exact ⟨(((((skipHeader_suffix hend).trans (eitherWord_suffix heos)).trans
        (eitherWord_suffix hdelzero)).trans (spacedNumber_suffix hprev)).trans
        (skipHeader_suffix hbrace)).trans (skipHeader_suffix hskip), nofun⟩
    · split at h
      · rename_i s₁ hskip
        obtain ⟨hsuf, hword⟩ := parseRebuild_eq_some h
        exact ⟨hsuf.trans (skipHeader_suffix hskip), hword⟩
      · obtain ⟨s₁, hskip, h⟩ := Option.bind_eq_some_iff.1 h
        simp only [parseRepack, Option.bind_eq_bind, Option.bind_eq_some_iff] at h
        obtain ⟨s₂, hbrace, ⟨totalbytes, s₃⟩, htotal, s₄, hend, h⟩ := h
        cases h
        exact ⟨(((skipHeader_suffix hend).trans (spacedNumber_suffix htotal)).trans
          (skipHeader_suffix hbrace)).trans (skipHeader_suffix hskip), nofun⟩

/-- What is left of the buffer, without its last character, lies within the line. -/
theorem take_subset_line (h : s <:+ line ++ ['\n']) (n : Nat) :
    ∀ c ∈ s.take (s.length - (n + 1)), c ∈ line := by
  intro c hc
  have hdrop : s.take (s.length - (n + 1)) <+: s.dropLast := by
    rw [dropLast_eq_take]
    exact take_prefix_take_left (by omega)
  have hmem : c ∈ s.dropLast := hdrop.subset hc
  rcases List.suffix_concat_iff.1 h with rfl | ⟨t, rfl, ht⟩
  · simp at hmem
  · rw [dropLast_concat] at hmem
    exact ht.subset hmem

theorem parseOp_ftag (h : parseOp uninit line = some (op, next)) :
    (∀ info, op.extendedinfo = .rebuild (some info) → ∀ c ∈ info.markerpath, wordChar c = true) ∧
      ∃ ftagstr, (∀ c ∈ ftagstr, c ∈ line) ∧ ftagInitstr uninit ftagstr = some op.ftag := by
  simp only [parseOp, Option.bind_eq_bind, Option.bind_eq_some_iff] at h
  obtain ⟨⟨extinfo, s₁⟩, hextinfo, ⟨start, s₂⟩, hst, ⟨count, s₃⟩, hcnt, ⟨errval, s₄⟩, herr,
    flag, -, ftag, hftag, h⟩ := h
  obtain ⟨hsuf, hword⟩ := parseExtinfo_eq_some hextinfo
  have hsuf := (((parseErrval_suffix herr).trans (spacedNumber_suffix hcnt)).trans
    (parseStart_suffix hst)).trans hsuf
  cases h
  exact ⟨hword, _, take_subset_line hsuf _, hftag⟩

theorem parseOp_eq_some (h : parseOp uninit line = some (op, next)) (hline : '\n' ∉ line) :
    (∀ info, op.extendedinfo = .rebuild (some info) → ∀ c ∈ info.markerpath, wordChar c = true) ∧
      '\n' ∉ op.ftag.ctag ∧ '\n' ∉ op.ftag.streamid ∧
      (uninit.ReftreeNonneg → op.ftag.ReftreeNonneg) := by
  obtain ⟨hword, ftagstr, hsub, hftag⟩ := parseOp_ftag h
  have hacc := ftagInitstr_accepted hftag
  exact ⟨hword, fun hmem => hline (hsub _ (hacc.ctag.2 _ hmem)),
    fun hmem => hline (hsub _ (hacc.streamid.2 _ hmem)), hacc.reftree⟩

theorem readLine_eq_line (h : readLine input = .line line rest) : '\n' ∉ line := by
  unfold readLine at h
  dsimp only at h
  split at h
  · cases h
  · split at h
    · cases h
      intro hmem
      simpa using List.all_eq_true.1 all_takeWhile _ hmem
    · split at h <;> cases h

theorem readLine_eq_append (h : readLine input = .line line rest) : input = line ++ '\n' :: rest := by
  unfold readLine at h
  dsimp only at h
  split at h
  · cases h
  · split at h
    · rename_i c behind hdrop
      cases h
      have hc : c = '\n' := by
        have hhead := List.head?_dropWhile_not (fun c : Char => decide (c ≠ '\n')) input
        rw [hdrop] at hhead
        simpa using hhead
      subst hc
      rw [← hdrop, takeWhile_append_dropWhile]
    · split at h <;> cases h

/-! ## Chains that come back -/

theorem printlogline_cons {next : List Opinfo} (h : printlogline (op :: next) = (text, true)) :
    ∃ line written, op.line (!next.isEmpty) = some line ∧ printlogline next = (written, true) ∧
      text = line ++ written := by
  unfold printlogline at h
  split at h
  · cases h
  · rename_i line hline
    obtain ⟨rfl, hok⟩ := Prod.mk.inj h
    exact ⟨line, (printlogline next).1, hline, Prod.ext rfl hok, rfl⟩

theorem parseLines_cons {uninit : Nat → Ftag} {fuel : Nat} {next : List Opinfo}
    (h : (parseLines uninit fuel input).chain = some (op :: next)) :
    ∃ n line after flag, readLine input = .line line after ∧
      parseOp (uninit n) line = some (op, flag) ∧
      (next = [] ∨ (parseLines uninit n after).chain = some next) := by
  cases fuel with
  | zero => cases h
  | succ n =>
    rw [parseLines] at h
    split at h
    · cases h
    · cases h
    · cases h
    · rename_i line after hread
      split at h
      · cases h
      · rename_i hop
        obtain ⟨rfl, rfl⟩ := List.cons.inj (Option.some.inj h)
        exact ⟨n, line, after, false, hread, hop, .inl rfl⟩
      · rename_i hop
        generalize hprs : parseLines uninit n after = parsed at h
        obtain ⟨_ | chain, eof, behind⟩ := parsed
        · cases h
        · obtain ⟨rfl, rfl⟩ := List.cons.inj (Option.some.inj h)
          exact ⟨n, line, after, true, hread, hop, .inr (by rw [hprs])⟩

/-- The induction follows the lines: the op that is read is the one that was printed, so that its
strings are free of newlines, its line is the one that was read, and the next op starts behind it. -/
theorem loggable_of_parseLines {dest : Ftag} (hdest : dest.ReftreeNonneg)
    (hprod : ∀ op ∈ chain, op.Produced) :
    ∀ {text : List Char} {fuel : Nat}, printlogline chain = (text, true) →
      (parseLines (fun _ => dest) fuel (text ++ rest)).chain = some chain → Loggable chain := by
  induction chain with
  | nil => exact fun _ _ => trivial
  | cons op next ih =>
    intro text fuel hprint hprs
    obtain ⟨line, written, hline, hwrit, rfl⟩ := printlogline_cons hprint
    obtain ⟨n, read, after, flag, hread, hop, hnext⟩ := parseLines_cons hprs
    obtain ⟨rfl, hlen⟩ := Opinfo.line_eq_some (hprod op (mem_cons_self ..)) hline
    obtain ⟨hword, hctag, hsid, href⟩ := parseOp_eq_some hop (readLine_eq_line hread)
    have hextinfo : op.extendedinfo.Loggable := by
      unfold Opinfo.line at hline
      obtain ⟨text, hprinted, -⟩ := Option.bind_eq_some_iff.1 hline
      cases hext : op.extendedinfo with
      | rebuild info =>
        cases info with
        | none => trivial
        | some info =>
          rw [hext] at hprinted
          exact ⟨Extinfo.markerpath_ne_nil hprinted, hword info hext⟩
      | _ => trivial
    have hlog : op.Loggable (!next.isEmpty) := ⟨hextinfo, hctag, hsid, href hdest, hlen⟩
    refine ⟨hlog, ?_⟩
    rcases hnext with rfl | hnext
    · trivial
    · rw [append_assoc, append_assoc, singleton_append,
        readLine_append (newline_not_mem_text hlog) (by omega)] at hread
      obtain ⟨-, rfl⟩ := LineRead.line.inj hread
      exact ih (fun op hop => hprod op (mem_cons_of_mem _ hop)) hwrit hnext

theorem loggable_of_roundTrips (hprod : ∀ op ∈ chain, op.Produced) (h : RoundTrips chain) :
    Loggable chain := by
  obtain ⟨text, hprint, hprs⟩ := h
  have hrep := sampleFtag_nonNegative
  have hread := hprs (fun _ => sampleFtag 1 2 true) [] (fun _ => hrep.toRepresentable)
  exact loggable_of_parseLines hrep.toReftreeNonneg hprod hprint (by rw [← parselogline, hread])

/-- A chain that the producers can build comes back exactly if the log can hold it. -/
theorem roundTrips_iff (hne : chain ≠ []) (hprod : ∀ op ∈ chain, op.Produced) :
    RoundTrips chain ↔ Loggable chain :=
  ⟨loggable_of_roundTrips hprod, roundTrips_of_loggable hne hprod⟩

def clientDelobj (ctag : List Char) (start : Bool) : Opinfo :=
  { extendedinfo := .delobj { offset := 0 }, start := start, count := 1, errval := 0
    ftag := { sampleFtag 1 2 true with ctag := ctag } }

theorem clientDelobj_produced {ctag : List Char} (hctag : '|' ∉ ctag) (start : Bool) :
    (clientDelobj ctag start).Produced := by
  have hrep := sampleFtag_nonNegative
  have hcnt : 1 ≤ ullongMax := by decide
  have herr : IsInt 0 := by decide
  have hsid : '|' ∉ ['s'] := by decide
  refine ⟨Nat.zero_le _, hcnt, herr, sampleFtag 1 2 true, (clientDelobj ctag start).ftag.toStr,
    hrep.toRepresentable, ?_⟩
  apply ftagInitstr_toStr rfl rfl hctag hsid
  · exact { hrep.toRepresentable with }
  · exact { hrep.toReftreeNonneg with }

theorem clientDelobj_loggable (start next : Bool) : (clientDelobj ['c'] start).Loggable next := by
  have hlen : ((clientDelobj ['c'] start).text next).length + 1 < maxBuffer := by
    cases start <;> cases next <;> decide +kernel
  have hname : ∀ name ∈ [['c'], ['s']], '\n' ∉ name := by decide
  exact ⟨trivial, hname ['c'] (by simp), hname ['s'] (by simp),
    { sampleFtag_nonNegative.toReftreeNonneg with }, hlen⟩

theorem clientDelobj_roundTrips :
    RoundTrips [clientDelobj ['c'] true, clientDelobj ['c'] false] := by
  refine (roundTrips_iff (by simp) ?_).2
    ⟨clientDelobj_loggable _ _, clientDelobj_loggable _ _, trivial⟩
  intro op hop
  rcases List.mem_pair.1 hop with rfl | rfl
  · exact clientDelobj_produced (by decide) _
  · exact clientDelobj_produced (by decide) _

/-- The name of the client a repack runs under ends with a newline, so that the log cannot hold an
op on a file it wrote. -/
theorem repacked_lost :
    (clientDelobj "RMAN-Repack\n".toList true).Produced ∧
      ¬ RoundTrips [clientDelobj "RMAN-Repack\n".toList true] := by
  have hprod : (clientDelobj "RMAN-Repack\n".toList true).Produced :=
    clientDelobj_produced (by decide) true
  refine ⟨hprod, fun hround => ?_⟩
  have hlog := loggable_of_roundTrips (by simpa using hprod) hround
  exact hlog.1.ctag (by decide)

end Marfs.Rman
