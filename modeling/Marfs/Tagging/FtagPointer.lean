import Marfs.Cstring.Walk
import Marfs.Tagging.FtagString
import Mathlib.Data.List.TakeWhile

/-!
# The pointers of the FTAG parser

`ftag_initstr` walks its string by a pointer, and writes the names of the stream through another one,
which is not set before the end of a name has been found once.  Here the parser is modelled with both;
up to the names it does what the parser on lists does, and behind them again.

A debug build prints the rest of the string where a data content value is not followed by a separator;
`debug` tells whether this is one.
-/

namespace Marfs.Tagging

open Cstring

/-! ## The parser -/

structure Output where
  size : Nat
  written : List Char
  deriving DecidableEq, Repr

/-- `*output = c; output++`, through a pointer that may not be set. -/
def writeOutput (c : Char) : Option Output → Walk Output
  | none => .fault
  | some output =>
    if output.written.length < output.size then
      .done { output with written := output.written ++ [c] }
    else .fault

def skipHeaderAt (s header : List Char) (parse : Nat) : Walk Nat := do
  let found ← strncmpAt s parse header
  Walk.check found
  pure (parse + header.length)

def versionNumberAt (s : List Char) (stop : Char) (parse : Nat) : Walk (Nat × Nat) := do
  let (parseval, endptr) ← strtoullAt s parse
  let c ← charAt s endptr
  Walk.check (c = stop)
  Walk.check (parseval ≤ uintMax)
  pure (parseval, endptr + 1)

def parseVersionAt (s : List Char) : Walk Nat := do
  let parse ← skipHeaderAt s versionHeader 0
  let (majorversion, parse) ← versionNumberAt s '.' parse
  let (minorversion, parse) ← versionNumberAt s ')' parse
  Walk.check (majorversion = ftagCurrentMajorversion && minorversion = ftagCurrentMinorversion)
  pure parse

/-- The loop over a name of the stream, from `endptr` on: when it finds the end of the name for the
first time, it allocates memory and goes back to the start of the name; then it writes the name.
`alloc` is whether the allocation succeeds. -/
def nameLoop (s : List Char) (alloc : Bool) (endptr : Nat) :
    Nat → (parse outputlen : Nat) → Option Output → Walk (Nat × Option Output)
  | 0, _, _, _ => .running
  | fuel + 1, parse, outputlen, output => do
    let c ← charAt s parse
    if c = '\x00' then pure (parse, output)
    else if c = '|' then
      if output.isSome then pure (parse, output)
      else do
        Walk.check alloc
        nameLoop s alloc endptr fuel endptr 1 (some { size := outputlen, written := [] })
    else if output.isSome then do
      let output ← writeOutput c output
      nameLoop s alloc endptr fuel (parse + 1) (outputlen + 1) (some output)
    else nameLoop s alloc endptr fuel (parse + 1) (outputlen + 1) output

/-- The client tag: it is checked before it is terminated. -/
def parseCtagAt (s : List Char) (alloc : Bool) (fuel parse : Nat) : Walk (List Char × Nat) := do
  let (parse, output) ← nameLoop s alloc parse fuel parse 1 none
  Walk.check output.isSome
  let output ← writeOutput '\x00' output
  pure (output.written.dropLast, parse + 1)

def parseStreamidAt (s : List Char) (alloc : Bool) (fuel parse : Nat) : Walk (List Char × Nat) := do
  let (parse, output) ← nameLoop s alloc parse fuel parse 1 none
  let terminated ← writeOutput '\x00' output
  Walk.check output.isSome
  pure (terminated.written.dropLast, parse + 1)

def parseValuesAt (s : List Char) (store : Char → Nat → Ftag → Option Ftag) :
    Nat → (parse : Nat) → Ftag → (found : Nat) → Walk (Ftag × Nat × Nat)
  | 0, _, _, _ => .running
  | fuel + 1, parse, ftag, found => do
    let tag ← charAt s parse
    if tag = '\x00' then pure (ftag, found, parse)
    else do
      let (parseval, endptr) ← strtoullAt s (parse + 1)
      let ftag ← Walk.ofOption (store tag parseval ftag)
      let c ← charAt s endptr
      if c = '-' then parseValuesAt s store fuel (endptr + 1) ftag (found + 1)
      else if c = ')' then pure (ftag, found + 1, endptr + 1)
      else .error

/-- The stream stanza; the allocations of its names may fail. -/
def parseStreamAt (s : List Char) (ctagAlloc streamidAlloc : Bool) (fuel parse : Nat)
    (ftag : Ftag) : Walk (Ftag × Nat) := do
  let parse ← skipHeaderAt s streaminfoHeader parse
  let (ctag, parse) ← parseCtagAt s ctagAlloc fuel parse
  let (streamid, parse) ← parseStreamidAt s streamidAlloc fuel parse
  let ftag := { ftag with
    majorversion := ftagCurrentMajorversion, minorversion := ftagCurrentMinorversion
    ctag := ctag, streamid := streamid }
  let (ftag, found, parse) ← parseValuesAt s storeStream fuel parse ftag 0
  Walk.check (foundvals found 2)
  pure (ftag, parse)

def parseStanzaAt (s header : List Char) (store : Char → Nat → Ftag → Option Ftag)
    (expected fuel parse : Nat) (ftag : Ftag) : Walk (Ftag × Nat) := do
  let parse ← skipHeaderAt s header parse
  let (ftag, found, parse) ← parseValuesAt s store fuel parse ftag 0
  Walk.check (foundvals found expected)
  pure (ftag, parse)

def contentWords : List (List Char × (Content → Option Content)) :=
  [("INIT".toList, (·.setState .init)), ("SIZED".toList, (·.setState .sized)),
    ("FIN".toList, (·.setState .fin)), ("COMP".toList, (·.setState .comp)),
    ("CACHED".toList, (·.setState .cached)), ("RO".toList, (·.setPerms false true)),
    ("WO".toList, (·.setPerms true false)), ("RW".toList, (·.setPerms true true)),
    ("NO".toList, (·.setPerms false false))]

def parseContentValueAt (s : List Char) (parse : Nat) (content : Content) :
    List (List Char × (Content → Option Content)) → Walk (Content × Nat)
  | [] => do
    let tag ← charAt s parse
    let (parseval, endptr) ← strtoullAt s (parse + 1)
    let ftag ← Walk.ofOption (storeContent tag parseval content.ftag)
    pure ({ content with ftag := ftag, found := content.found + 1 }, endptr)
  | (word, set) :: words => do
    if ← strncmpAt s parse word then do
      let content ← Walk.ofOption (set content)
      pure (content, parse + word.length)
    else parseContentValueAt s parse content words

def parseContentAt (s : List Char) (debug : Bool) :
    Nat → (parse : Nat) → Content → Walk (Content × Nat)
  | 0, _, _ => .running
  | fuel + 1, parse, content => do
    let first ← charAt s parse
    if first = '\x00' then pure (content, parse)
    else do
      let (content, endptr) ← parseContentValueAt s parse content contentWords
      let parse := endptr + 1
      let c ← charAt s endptr
      if c = ')' then pure (content, parse)
      else if c = '-' then parseContentAt s debug fuel parse content
      else if debug then do
        -- the message prints what `parse` points to
        let _ ← charAt s parse
        .error
      else .error

def parseDataAt (s : List Char) (debug : Bool) (fuel parse : Nat) (ftag : Ftag) : Walk Ftag := do
  let parse ← skipHeaderAt s datacontentHeader parse
  let ftag := { ftag with state := { data := .init, writeable := false, readable := false } }
  let (content, parse) ← parseContentAt s debug fuel parse
    { ftag := ftag, found := 0, datastate := false, dataperms := false }
  Walk.check (foundvals content.found 7 && content.datastate && content.dataperms)
  let c ← charAt s parse
  Walk.check (c = '\x00')
  pure content.ftag

def ftagInitstrAt (debug ctagAlloc streamidAlloc : Bool) (fuel : Nat) (ftag : Ftag)
    (s : List Char) : Walk Ftag := do
  let parse ← parseVersionAt s
  let (ftag, parse) ← parseStreamAt s ctagAlloc streamidAlloc fuel parse ftag
  let (ftag, parse) ← parseStanzaAt s reftreeHeader storeReftree 3 fuel parse ftag
  let (ftag, parse) ← parseStanzaAt s filepositionHeader storePosition 4 fuel parse ftag
  parseDataAt s debug fuel parse ftag

/-! ## Walks beside lists -/

variable {s rest : List Char} {i : Nat}

/-- A value beside an index, and the same value beside what follows the index. -/
def Lands {α : Type} (s : List Char) (walked : α × Nat) (parsed : α × List Char) : Prop :=
  walked.1 = parsed.1 ∧ At s walked.2 parsed.2

theorem skipHeaderAt_follows (h : At s i rest) (header : List Char) :
    Walk.Follows (At s) (skipHeaderAt s header i) (skipHeader header rest) := by
  rw [skipHeaderAt, h.strncmpAt_eq, Walk.done_bind, skipHeader]
  by_cases hbegins : header.isPrefixOf rest = true
  · obtain ⟨tail, rfl⟩ := List.isPrefixOf_iff_prefix.1 hbegins
    rw [hbegins, if_pos rfl, List.drop_left]
    exact .done h.skip
  · rw [Bool.not_eq_true] at hbegins
    rw [hbegins, if_neg Bool.false_ne_true]
    exact .error

theorem versionNumberAt_follows (h : At s i rest) {stop : Char} (hstop : stop ≠ '\x00') :
    Walk.Follows (Lands s) (versionNumberAt s stop i) (versionNumber stop rest) := by
  obtain ⟨endptr, hread, hend⟩ := h.strtoullAt_eq
  rw [versionNumberAt, hread, versionNumber]
  rcases hnum : strtoull rest with ⟨val, tail⟩
  rw [hnum] at hend
  simp only [Walk.done_bind]
  cases tail with
  | nil =>
    rw [hend.charAt_nil, Walk.done_bind, Walk.check, if_neg (by simpa using hstop.symm)]
    exact .error
  | cons c tail =>
    rw [hend.charAt_cons, Walk.done_bind]
    by_cases hc : c = stop
    · by_cases hval : val ≤ uintMax
      · simp only [Walk.check, hc, hval, decide_true, if_true, Walk.done_bind, ne_eq,
          not_true_eq_false, decide_false, Bool.false_or]
        rw [if_neg (by simpa using hval)]
        exact .done ⟨rfl, hend.next⟩
      · simp only [Walk.check, hc, hval, decide_true, if_true, Walk.done_bind, decide_false,
          Bool.false_eq_true, if_false, Walk.error_bind]
        rw [if_pos (by simpa using Nat.lt_of_not_le hval)]
        exact .error
    · simp only [Walk.check, hc, decide_false, Bool.false_eq_true, if_false, Walk.error_bind]
      rw [if_pos (by simp [hc])]
      exact .error

theorem parseVersionAt_follows (s : List Char) : Walk.Follows (At s) (parseVersionAt s) (parseVersion s) := by
  refine (skipHeaderAt_follows (.start s) versionHeader).bind fun parse rest h _ => ?_
  refine (versionNumberAt_follows h (by decide)).bind fun major number hmaj _ => ?_
  obtain ⟨majorversion, parse⟩ := major
  obtain ⟨majorversion', rest⟩ := number
  obtain ⟨rfl, hprs⟩ := hmaj
  refine (versionNumberAt_follows hprs (by decide)).bind fun minor number hmin _ => ?_
  obtain ⟨minorversion, parse⟩ := minor
  obtain ⟨minorversion', rest⟩ := number
  obtain ⟨rfl, hprs⟩ := hmin
  dsimp only
  by_cases hver : (decide (majorversion = ftagCurrentMajorversion) &&
      decide (minorversion = ftagCurrentMinorversion)) = true
  · rw [hver, if_pos rfl]
    exact .done hprs
  · rw [if_neg hver, Walk.check, if_neg hver]
    exact .error

/-! ## Numeric values -/

/-- The state of a loop over values, beside the one on lists. -/
def LandsFound {α : Type} (s : List Char) (walked : α × Nat × Nat) (parsed : α × Nat × List Char) :
    Prop :=
  walked.1 = parsed.1 ∧ walked.2.1 = parsed.2.1 ∧ At s walked.2.2 parsed.2.2

variable {fuel : Nat} {ftag : Ftag} {tail : List Char} {alloc : Bool}

variable {turns endptr outputlen : Nat} {field : List Char} {c : Char} {content : Content} {debug : Bool}

variable {store : Char → Nat → Ftag → Option Ftag} {streamidAlloc : Bool} {ftagstr : List Char}

/-- The loop over the values of a stanza goes on as on lists, and ends if it may take a turn for each
character and one more. -/
theorem parseValuesAt_follows (hnul : '\x00' ∉ s)
    {found : Nat} (h : At s i rest) (hfuel : rest.length ≤ fuel) (hturns : rest.length < turns) :
    Walk.Follows (LandsFound s) (parseValuesAt s store turns i ftag found)
      (parseValues '-' store fuel rest ftag found) := by
  induction fuel generalizing turns i rest ftag found with
  | zero =>
    obtain rfl := List.eq_nil_of_length_eq_zero (Nat.le_zero.1 hfuel)
    obtain ⟨turns, rfl⟩ := Nat.exists_eq_succ_of_ne_zero (Nat.ne_of_gt hturns)
    rw [parseValuesAt, h.charAt_nil]
    exact .done ⟨rfl, rfl, h⟩
  | succ fuel ih =>
    obtain ⟨turns, rfl⟩ := Nat.exists_eq_succ_of_ne_zero (Nat.ne_of_gt (Nat.zero_lt_of_lt hturns))
    cases rest with
    | nil =>
      rw [parseValuesAt, h.charAt_nil]
      exact .done ⟨rfl, rfl, h⟩
    | cons tag rest =>
      have htag : tag ≠ '\x00' := by
        rintro rfl
        exact h.not_mem hnul (List.mem_cons_self ..)
      obtain ⟨endptr, hread, hend⟩ := h.next.strtoullAt_eq
      have hsuf := strtoull_suffix rest
      rw [parseValuesAt, h.charAt_cons, Walk.done_bind, if_neg htag, hread, parseValues]
      rcases hnum : strtoull rest with ⟨val, tail⟩
      rw [hnum] at hend hsuf
      refine (Walk.Follows.ofOption (store tag val ftag)).bind fun stored stored' heq _ => ?_
      subst heq
      have htail := hsuf.length_le
      cases tail with
      | nil =>
        rw [hend.charAt_nil]
        exact .error
      | cons c tail =>
        rw [List.length_cons] at htail hfuel hturns
        rw [hend.charAt_cons, Walk.done_bind]
        dsimp only
        by_cases hsep : c = '-'
        · rw [if_pos hsep, if_pos hsep]
          exact ih hend.next (by omega) (by omega)
        · rw [if_neg hsep, if_neg hsep]
          by_cases hclose : c = ')'
          · rw [if_pos hclose, if_pos hclose]
            exact .done ⟨rfl, rfl, hend.next⟩
          · rw [if_neg hclose, if_neg hclose]
            exact .error

theorem parseStanzaAt_follows (hnul : '\x00' ∉ s) {header : List Char} {expected : Nat} (h : At s i rest)
    (hfuel : s.length < fuel) :
    Walk.Follows (Lands s) (parseStanzaAt s header store expected fuel i ftag)
      (parseStanza header store expected rest ftag) := by
  refine (skipHeaderAt_follows h header).bind fun parse rest h _ => ?_
  have hlen := h.length_eq
  refine (parseValuesAt_follows hnul h (le_refl _) (by omega)).bind fun values parsed hvals _ => ?_
  obtain ⟨stored, found, parse⟩ := values
  obtain ⟨stored', found', rest⟩ := parsed
  obtain ⟨rfl, rfl, hprs⟩ := hvals
  dsimp only
  by_cases hfound : foundvals found expected = true
  · rw [if_pos hfound, Walk.check, if_pos hfound]
    exact .done ⟨rfl, hprs⟩
  · rw [if_neg hfound, Walk.check, if_neg hfound]
    exact .error

/-! ## The names of the stream -/

theorem nameLoop_search (hnul : '\x00' ∉ s) (hfield : '|' ∉ field) (h : At s i (field ++ tail)) :
    nameLoop s alloc endptr (field.length + fuel) i outputlen none =
      nameLoop s alloc endptr fuel (i + field.length) (outputlen + field.length) none := by
  induction field generalizing i outputlen with
  | nil => simp
  | cons c field ih =>
    rw [List.mem_cons, not_or] at hfield
    have hc : c ≠ '\x00' := by
      rintro rfl
      exact h.not_mem hnul (List.mem_cons_self ..)
    rw [List.length_cons, Nat.add_right_comm, nameLoop, List.cons_append] at *
    rw [h.charAt_cons, Walk.done_bind, if_neg hc, if_neg (Ne.symm hfield.1)]
    simp only [Option.isSome_none, Bool.false_eq_true, if_false]
    rw [ih hfield.2 h.next, Nat.add_right_comm i 1, Nat.add_right_comm outputlen 1, Nat.add_assoc i,
      Nat.add_assoc outputlen]

theorem nameLoop_write (hnul : '\x00' ∉ s) (hfield : '|' ∉ field)
    {size : Nat} {written : List Char} (h : At s i (field ++ '|' :: tail))
    (hsize : written.length + field.length ≤ size) :
    nameLoop s alloc endptr (field.length + (fuel + 1)) i outputlen
        (some { size := size, written := written }) =
      .done (i + field.length, some { size := size, written := written ++ field }) := by
  induction field generalizing i outputlen written with
  | nil =>
    rw [List.nil_append] at h
    rw [List.length_nil, Nat.zero_add, nameLoop, h.charAt_cons, Walk.done_bind,
      if_neg (by decide), if_pos rfl, if_pos Option.isSome_some, Nat.add_zero, List.append_nil]
    rfl
  | cons c field ih =>
    rw [List.mem_cons, not_or] at hfield
    have hc : c ≠ '\x00' := by
      rintro rfl
      exact h.not_mem hnul (List.mem_cons_self ..)
    rw [List.length_cons] at hsize
    have hroom : written.length < size := by omega
    have hnext : (written ++ [c]).length + field.length ≤ size := by
      rw [List.length_append, List.length_singleton]
      omega
    rw [List.length_cons, Nat.add_right_comm, nameLoop]
    rw [List.cons_append] at h
    rw [h.charAt_cons, Walk.done_bind, if_neg hc, if_neg (Ne.symm hfield.1),
      if_pos Option.isSome_some, writeOutput, if_pos hroom, Walk.done_bind,
      ih hfield.2 h.next hnext,
      List.append_assoc, List.singleton_append, Nat.add_assoc, Nat.add_comm 1]

theorem nameLoop_turn (h : At s i ('|' :: tail)) :
    nameLoop s alloc endptr (fuel + 1) i outputlen none =
      (do
        Walk.check alloc
        nameLoop s alloc endptr fuel endptr 1 (some { size := outputlen, written := [] })) := by
  rw [nameLoop, h.charAt_cons, Walk.done_bind, if_neg (by decide), if_pos rfl]
  rfl

theorem nameLoop_found (hnul : '\x00' ∉ s) (hfield : '|' ∉ field)
    (h : At s i (field ++ '|' :: tail)) (hfuel : 2 * s.length < fuel) :
    nameLoop s alloc i fuel i 1 none =
      (do
        Walk.check alloc
        pure (i + field.length, some { size := field.length + 1, written := field })) := by
  have hlen := h.length_eq
  rw [List.length_append, List.length_cons] at hlen
  -- one search through the name, one turn at its end, and the name once more
  obtain ⟨turns, rfl⟩ : ∃ turns, fuel = field.length + (field.length + (turns + 1) + 1) :=
    ⟨fuel - (2 * field.length + 2), by omega⟩
  rw [nameLoop_search hnul hfield h, nameLoop_turn h.skip,
    nameLoop_write hnul hfield h (by simp), Nat.add_comm 1, List.nil_append]
  rfl

/-- Without an end the loop comes to the end of the string, and nothing is written. -/
theorem nameLoop_missing (hnul : '\x00' ∉ s) (hrest : '|' ∉ rest) (h : At s i rest)
    (hfuel : s.length < fuel) : nameLoop s alloc i fuel i 1 none = .done (s.length, none) := by
  have hlen := h.length_eq
  obtain ⟨turns, rfl⟩ : ∃ turns, fuel = rest.length + (turns + 1) :=
    ⟨fuel - (rest.length + 1), by omega⟩
  have hend : At s i (rest ++ []) := by
    rw [List.append_nil]
    exact h
  rw [nameLoop_search hnul hrest hend, nameLoop, hend.skip.charAt_nil, Walk.done_bind, if_pos rfl,
    hlen]
  rfl

theorem barField_eq_none : barField rest = none ↔ '|' ∉ rest := by
  unfold barField
  constructor
  · intro h hmem
    split at h
    · next hdrop =>
      have hall := List.dropWhile_eq_nil_iff.1 hdrop '|' hmem
      simp at hall
    · cases h
  · intro hnot
    have hdrop : rest.dropWhile (· ≠ '|') = [] := by
      rw [List.dropWhile_eq_nil_iff]
      intro c hc
      simpa using ne_of_mem_of_not_mem hc hnot
    rw [hdrop]

/-- The memory for a name has room for its terminator. -/
theorem writeOutput_nul (field : List Char) :
    writeOutput '\x00' (some { size := field.length + 1, written := field }) =
      .done { size := field.length + 1, written := field ++ ['\x00'] } := by
  rw [writeOutput, if_pos (Nat.lt_succ_self _)]

/-- The client tag is read as on lists, unless there is no memory for it. -/
theorem parseCtagAt_follows (hnul : '\x00' ∉ s) (alloc : Bool) (h : At s i rest)
    (hfuel : 2 * s.length < fuel) :
    Walk.Follows (Lands s) (parseCtagAt s alloc fuel i)
      (if alloc then barField rest else none) := by
  cases hfield : barField rest with
  | none =>
    rw [parseCtagAt, nameLoop_missing hnul (barField_eq_none.1 hfield) h (by omega), ite_self]
    exact .error
  | some parsed =>
    obtain ⟨field, tail⟩ := parsed
    obtain ⟨rfl, hnot⟩ := barField_eq_some hfield
    rw [parseCtagAt, nameLoop_found hnul hnot h hfuel]
    cases alloc with
    | false => exact .error
    | true =>
      have hend := h.skip.next
      simp only [Walk.check, if_true, Walk.done_bind, pure, Option.isSome_some, writeOutput_nul,
        List.dropLast_concat]
      exact .done ⟨rfl, hend⟩

/-- The stream ID is read as on lists, unless there is no memory for it, or its end is missing: then
the terminator is written through a pointer that is not set. -/
theorem parseStreamidAt_follows (hnul : '\x00' ∉ s) (alloc : Bool) (h : At s i rest)
    (hfuel : 2 * s.length < fuel) (hend : '|' ∈ rest) :
    Walk.Follows (Lands s) (parseStreamidAt s alloc fuel i)
      (if alloc then barField rest else none) := by
  cases hfield : barField rest with
  | none => exact absurd hend (barField_eq_none.1 hfield)
  | some parsed =>
    obtain ⟨field, tail⟩ := parsed
    obtain ⟨rfl, hnot⟩ := barField_eq_some hfield
    rw [parseStreamidAt, nameLoop_found hnul hnot h hfuel]
    cases alloc with
    | false => exact .error
    | true =>
      have hend := h.skip.next
      simp only [Walk.check, if_true, Walk.done_bind, pure, Option.isSome_some, writeOutput_nul,
        List.dropLast_concat]
      exact .done ⟨rfl, hend⟩

@[inherit_doc parseStreamidAt_follows]
theorem parseStreamidAt_fault (hnul : '\x00' ∉ s) (alloc : Bool)
    (h : At s i rest) (hfuel : 2 * s.length < fuel) (hend : '|' ∉ rest) :
    parseStreamidAt s alloc fuel i = .fault := by
  rw [parseStreamidAt, nameLoop_missing hnul hend h (by omega)]
  rfl

/-! ## The data content -/

/-- The first word that starts the string sets the value; without one it is a number. -/
def parseWords (content : Content) (s : List Char) :
    List (List Char × (Content → Option Content)) → Option (Content × List Char)
  | [] =>
    match s with
    | [] => none
    | tag :: rest =>
      (storeContent tag (strtoull rest).1 content.ftag).map fun ftag =>
        ({ content with ftag := ftag, found := content.found + 1 }, (strtoull rest).2)
  | (word, set) :: words =>
    if word.isPrefixOf s then (set content).map (·, s.drop word.length)
    else parseWords content s words

theorem isPrefixOf_eq_false {tag : Char} {word rest : List Char}
    (h : ∀ endptr, tag = c → rest = word ++ endptr → False) :
    (c :: word).isPrefixOf (tag :: rest) = false := by
  rw [Bool.eq_false_iff]
  intro hbegins
  obtain ⟨endptr, heq⟩ := List.isPrefixOf_iff_prefix.1 hbegins
  obtain ⟨hc, hword⟩ := List.cons.inj heq
  exact h endptr hc.symm hword.symm

theorem parseContentValue_eq (content : Content) (s : List Char) :
    parseContentValue content s = parseWords content s contentWords := by
  fun_cases parseContentValue content s
  case case10 tag rest hinit hsized hfin hcomp hcache hro hwo hrw hno val endptr hread =>
    have hinit : "INIT".toList.isPrefixOf (tag :: rest) = false := isPrefixOf_eq_false hinit
    have hsized : "SIZED".toList.isPrefixOf (tag :: rest) = false := isPrefixOf_eq_false hsized
    have hfin : "FIN".toList.isPrefixOf (tag :: rest) = false := isPrefixOf_eq_false hfin
    have hcomp : "COMP".toList.isPrefixOf (tag :: rest) = false := isPrefixOf_eq_false hcomp
    have hcache : "CACHED".toList.isPrefixOf (tag :: rest) = false := isPrefixOf_eq_false hcache
    have hro : "RO".toList.isPrefixOf (tag :: rest) = false := isPrefixOf_eq_false hro
    have hwo : "WO".toList.isPrefixOf (tag :: rest) = false := isPrefixOf_eq_false hwo
    have hrw : "RW".toList.isPrefixOf (tag :: rest) = false := isPrefixOf_eq_false hrw
    have hno : "NO".toList.isPrefixOf (tag :: rest) = false := isPrefixOf_eq_false hno
    simp only [contentWords, parseWords, hinit, hsized, hfin, hcomp, hcache, hro, hwo, hrw, hno,
      Bool.false_eq_true, if_false, hread]
  case case11 => rfl
  all_goals rfl

theorem parseContentValueAt_follows (content : Content) (h : At s i (c :: rest))
    (words : List (List Char × (Content → Option Content))) :
    Walk.Follows (Lands s) (parseContentValueAt s i content words)
      (parseWords content (c :: rest) words) := by
  induction words with
  | nil =>
    obtain ⟨endptr, hread, hend⟩ := h.next.strtoullAt_eq
    rw [parseContentValueAt, h.charAt_cons, Walk.done_bind, hread, parseWords]
    refine (Walk.Follows.ofOption _).map fun stored stored' heq => ?_
    subst heq
    exact ⟨rfl, hend⟩
  | cons entry words ih =>
    obtain ⟨word, set⟩ := entry
    rw [parseContentValueAt, h.strncmpAt_eq, Walk.done_bind, parseWords]
    by_cases hword : word.isPrefixOf (c :: rest) = true
    · obtain ⟨tail, htail⟩ := List.isPrefixOf_iff_prefix.1 hword
      rw [if_pos hword, if_pos hword]
      refine (Walk.Follows.ofOption _).map fun stored stored' heq => ?_
      subst heq
      refine ⟨rfl, ?_⟩
      rw [← htail] at h ⊢
      rw [List.drop_left]
      exact h.skip
    · rw [if_neg hword, if_neg hword]
      exact ih

def contentCut : Nat → List Char → Content → Bool
  | 0, _, _ => false
  | _, [], _ => false
  | fuel + 1, c :: rest, content =>
    match parseContentValue content (c :: rest) with
    | none => false
    | some (_, []) => true
    | some (content, c :: parse) => if c = '-' then contentCut fuel parse content else false

theorem parseContentValue_shorter {content' : Content} {rest endptr : List Char}
    (h : parseContentValue content (c :: rest) = some (content', endptr)) : endptr.length ≤ rest.length := by
  rw [parseContentValue_eq] at h
  have hwords : ∀ entry ∈ contentWords, entry.1 ≠ [] := by
    simp only [contentWords, List.forall_mem_cons]
    decide
  revert h hwords
  induction contentWords with
  | nil =>
    intro h _
    obtain ⟨stored, -, heq⟩ := Option.map_eq_some_iff.1 h
    obtain ⟨-, rfl⟩ := Prod.mk.inj heq
    exact (strtoull_suffix rest).length_le
  | cons entry words ih =>
    intro h hwords
    obtain ⟨word, set⟩ := entry
    rw [parseWords] at h
    split at h
    · obtain ⟨stored, -, heq⟩ := Option.map_eq_some_iff.1 h
      obtain ⟨-, rfl⟩ := Prod.mk.inj heq
      have hpos : 0 < word.length :=
        List.length_pos_iff.2 (hwords (word, set) (List.mem_cons_self ..))
      rw [List.length_drop, List.length_cons]
      omega
    · exact ih h fun entry hent => hwords entry (List.mem_cons_of_mem _ hent)

/-- The loop over the data content goes on as on lists, unless a debug build finds the end of the
string behind a value. -/
theorem parseContentAt_follows (hnul : '\x00' ∉ s) (h : At s i rest) (hfuel : rest.length ≤ fuel)
    (hturns : rest.length < turns) (hcut : debug = true → contentCut fuel rest content = false) :
    Walk.Follows (Lands s) (parseContentAt s debug turns i content)
      (parseContent fuel rest content) := by
  induction fuel generalizing turns i rest content with
  | zero =>
    obtain rfl := List.eq_nil_of_length_eq_zero (Nat.le_zero.1 hfuel)
    obtain ⟨turns, rfl⟩ := Nat.exists_eq_succ_of_ne_zero (Nat.ne_of_gt hturns)
    rw [parseContentAt, h.charAt_nil]
    exact .done ⟨rfl, h⟩
  | succ fuel ih =>
    obtain ⟨turns, rfl⟩ := Nat.exists_eq_succ_of_ne_zero (Nat.ne_of_gt (Nat.zero_lt_of_lt hturns))
    cases rest with
    | nil =>
      rw [parseContentAt, h.charAt_nil]
      exact .done ⟨rfl, h⟩
    | cons c rest =>
      have hc : c ≠ '\x00' := by
        rintro rfl
        exact h.not_mem hnul (List.mem_cons_self ..)
      rw [parseContentAt, h.charAt_cons, Walk.done_bind, if_neg hc, parseContent]
      have hval := parseContentValueAt_follows content h contentWords
      rw [← parseContentValue_eq] at hval
      refine hval.bind fun walked parsed hlands hprs => ?_
      obtain ⟨content', endptr⟩ := walked
      obtain ⟨content'', tail⟩ := parsed
      obtain ⟨hsame, hend⟩ := hlands
      dsimp only at hsame hend hprs ⊢
      subst hsame
      have hshort := parseContentValue_shorter hprs
      rw [List.length_cons] at hfuel hturns
      cases tail with
      | nil =>
        rw [hend.charAt_nil]
        cases debug with
        | false => exact .error
        | true =>
          have hfalse := hcut rfl
          rw [contentCut, hprs] at hfalse
          cases hfalse
      | cons d tail =>
        rw [List.length_cons] at hshort
        rw [hend.charAt_cons, Walk.done_bind]
        by_cases hclose : d = ')'
        · subst hclose
          exact .done ⟨rfl, hend.next⟩
        · by_cases hsep : d = '-'
          · subst hsep
            rw [if_neg (by decide), if_pos rfl]
            refine ih hend.next (by omega) (by omega) fun hdebug => ?_
            have hrest := hcut hdebug
            rw [contentCut, hprs] at hrest
            exact hrest
          · obtain ⟨read, hread⟩ : ∃ read, charAt s (endptr + 1) = .done read := by
              cases tail with
              | nil => exact ⟨_, hend.next.charAt_nil⟩
              | cons e tail => exact ⟨_, hend.next.charAt_cons⟩
            rw [if_neg hclose, if_neg hsep, hread, Walk.done_bind, ite_self]
            split
            · next heq => exact absurd (List.cons.inj (Prod.mk.inj heq).2).1 hclose
            · next heq => exact absurd (List.cons.inj (Prod.mk.inj heq).2).1 hsep
            · exact .error

/-- A debug build reads behind the string where it ends behind a value of the data content. -/
theorem parseContentAt_fault (hnul : '\x00' ∉ s) (h : At s i rest) (hturns : rest.length < turns)
    (hcut : contentCut fuel rest content = true) : parseContentAt s true turns i content = .fault := by
  induction fuel generalizing turns i rest content with
  | zero => cases hcut
  | succ fuel ih =>
    obtain ⟨turns, rfl⟩ := Nat.exists_eq_succ_of_ne_zero (Nat.ne_of_gt (Nat.zero_lt_of_lt hturns))
    cases rest with
    | nil => cases hcut
    | cons c rest =>
      have hc : c ≠ '\x00' := by
        rintro rfl
        exact h.not_mem hnul (List.mem_cons_self ..)
      rw [parseContentAt, h.charAt_cons, Walk.done_bind, if_neg hc]
      have hval := parseContentValueAt_follows content h contentWords
      rw [← parseContentValue_eq] at hval
      rw [contentCut] at hcut
      cases hprs : parseContentValue content (c :: rest) with
      | none =>
        rw [hprs] at hcut
        cases hcut
      | some parsed =>
        obtain ⟨content', tail⟩ := parsed
        have hshort := parseContentValue_shorter hprs
        rw [hprs] at hval hcut
        rw [List.length_cons] at hturns
        generalize parseContentValueAt s i content contentWords = walk at hval
        cases hval with
        | done hlands =>
          rename_i walked
          obtain ⟨content'', endptr⟩ := walked
          obtain ⟨hsame, hend⟩ := hlands
          dsimp only at hsame hend hcut
          subst hsame
          cases tail with
          | nil =>
            -- the message reads behind the terminator
            have hbeh : charAt s (endptr + 1) = .fault := by
              have hlen := hend.length_eq
              rw [List.length_nil] at hlen
              rw [charAt, dif_neg (by omega), if_neg (by omega)]
            simp only [Walk.done_bind, hend.charAt_nil, hbeh, Walk.fault_bind, if_true]
            rfl
          | cons d tail =>
            dsimp only at hcut
            by_cases hsep : d = '-'
            · subst hsep
              rw [List.length_cons] at hshort
              rw [if_pos rfl] at hcut
              simp only [Walk.done_bind, hend.charAt_cons]
              exact ih hend.next (by omega) hcut
            · rw [if_neg hsep] at hcut
              cases hcut

def contentStart (ftag : Ftag) : Content :=
  { ftag := { ftag with state := { data := .init, writeable := false, readable := false } }
    found := 0, datastate := false, dataperms := false }

theorem parseDataAt_follows (hnul : '\x00' ∉ s) (h : At s i rest) (hfuel : s.length < fuel)
    (hcut : debug = true → ∀ tail, skipHeader datacontentHeader rest = some tail →
      contentCut tail.length tail (contentStart ftag) = false) :
    Walk.Follows Eq (parseDataAt s debug fuel i ftag) (parseData rest ftag) := by
  refine (skipHeaderAt_follows h datacontentHeader).bind fun parse tail h htail => ?_
  have hlen := h.length_eq
  refine (parseContentAt_follows hnul h (le_refl _) (by omega) fun hdebug =>
    hcut hdebug tail htail).bind fun walked parsed hlands _ => ?_
  obtain ⟨content, parse⟩ := walked
  obtain ⟨content', last⟩ := parsed
  obtain ⟨hsame, hend⟩ := hlands
  dsimp only at hsame hend ⊢
  subst hsame
  by_cases hfound : (foundvals content.found 7 && content.datastate && content.dataperms) = true
  · rw [hfound, Bool.true_and, Walk.check, if_pos rfl, Walk.done_bind]
    cases last with
    | nil =>
      rw [hend.charAt_nil]
      exact .done rfl
    | cons c last =>
      have hc : c ≠ '\x00' := by
        rintro rfl
        exact hend.not_mem hnul (List.mem_cons_self ..)
      rw [hend.charAt_cons, Walk.done_bind, Walk.check, if_neg (by simpa using hc)]
      exact .error
  · rw [Bool.not_eq_true] at hfound
    rw [hfound]
    exact .error

@[inherit_doc parseContentAt_fault]
theorem parseDataAt_fault (hnul : '\x00' ∉ s) (h : At s i rest)
    (hfuel : s.length < fuel) (htail : skipHeader datacontentHeader rest = some tail)
    (hcut : contentCut tail.length tail (contentStart ftag) = true) :
    parseDataAt s true fuel i ftag = .fault := by
  obtain ⟨parse, hskip, hprs⟩ :=
    (htail ▸ skipHeaderAt_follows h datacontentHeader).exists_done
  have hlen := hprs.length_eq
  rw [parseDataAt, hskip, Walk.done_bind]
  dsimp only
  rw [contentStart] at hcut
  rw [parseContentAt_fault hnul hprs (by omega) hcut, Walk.fault_bind]

/-! ## The whole string -/

def openStreamid (stanza : List Char) : Bool :=
  match skipHeader streaminfoHeader stanza with
  | none => false
  | some names =>
    match barField names with
    | none => false
    | some (_, tail) => decide ('|' ∉ tail)

/-- A stream ID without an end, behind the client tag. -/
theorem openStreamid_eq {names ctag : List Char} (hskip : skipHeader streaminfoHeader rest = some names)
    (hfield : barField names = some (ctag, tail)) : openStreamid rest = decide ('|' ∉ tail) := by
  rw [openStreamid, hskip]
  dsimp only
  rw [hfield]

theorem parseStreamAt_follows (hnul : '\x00' ∉ s) (h : At s i rest) (hfuel : 2 * s.length < fuel)
    (hopen : openStreamid rest = false) :
    Walk.Follows (Lands s) (parseStreamAt s true true fuel i ftag) (parseStream rest ftag) := by
  refine (skipHeaderAt_follows h streaminfoHeader).bind fun parse names h hskip => ?_
  refine (parseCtagAt_follows hnul true h hfuel).bind fun walked field hlands hfield => ?_
  obtain ⟨ctag, parse⟩ := walked
  obtain ⟨ctag', tail⟩ := field
  obtain ⟨hsame, h⟩ := hlands
  dsimp only at hsame h ⊢
  subst hsame
  rw [openStreamid_eq hskip hfield, decide_eq_false_iff_not, not_not] at hopen
  refine (parseStreamidAt_follows hnul true h hfuel hopen).bind fun walked field hlands _ => ?_
  obtain ⟨streamid, parse⟩ := walked
  obtain ⟨streamid', tail⟩ := field
  obtain ⟨hsame, h⟩ := hlands
  dsimp only at hsame h ⊢
  subst hsame
  have hlen := h.length_eq
  refine (parseValuesAt_follows hnul h (le_refl _) (by omega)).bind fun walked parsed hlands _ => ?_
  obtain ⟨stored, found, parse⟩ := walked
  obtain ⟨stored', found', tail⟩ := parsed
  obtain ⟨hsame, hsame', h⟩ := hlands
  dsimp only at hsame hsame' h ⊢
  subst hsame hsame'
  by_cases hfound : foundvals found 2 = true
  · rw [if_pos hfound, Walk.check, if_pos hfound]
    exact .done ⟨rfl, h⟩
  · rw [if_neg hfound, Walk.check, if_neg hfound]
    exact .error

theorem parseStreamAt_error (hnul : '\x00' ∉ s) {ctagAlloc : Bool} (h : At s i rest)
    (hfuel : 2 * s.length < fuel) (hopen : ctagAlloc = true → openStreamid rest = false)
    (hall : (ctagAlloc && streamidAlloc) = false) :
    parseStreamAt s ctagAlloc streamidAlloc fuel i ftag = .error := by
  refine (skipHeaderAt_follows h streaminfoHeader).bind_error fun parse names h hskip => ?_
  refine (parseCtagAt_follows hnul ctagAlloc h hfuel).bind_error fun walked field hlands hfield => ?_
  obtain ⟨ctag, parse⟩ := walked
  obtain ⟨ctag', tail⟩ := field
  cases ctagAlloc with
  | false => cases hfield
  | true =>
    rw [Bool.true_and] at hall
    have hcl := hopen rfl
    rw [openStreamid_eq hskip hfield, decide_eq_false_iff_not, not_not] at hcl
    refine (parseStreamidAt_follows hnul streamidAlloc hlands.2 hfuel hcl).bind_error
      fun walked field hlands hfield => ?_
    rw [hall] at hfield
    cases hfield

/-- The terminator of a stream ID without an end is written through a pointer that is not set. -/
theorem parseStreamAt_fault (hnul : '\x00' ∉ s) (h : At s i rest) (hfuel : 2 * s.length < fuel)
    (hopen : openStreamid rest = true) : parseStreamAt s true streamidAlloc fuel i ftag = .fault := by
  rw [openStreamid] at hopen
  cases hskip : skipHeader streaminfoHeader rest with
  | none =>
    rw [hskip] at hopen
    cases hopen
  | some names =>
    obtain ⟨parse, hwalk, hprs⟩ := (hskip ▸ skipHeaderAt_follows h streaminfoHeader).exists_done
    rw [hskip] at hopen
    dsimp only at hopen
    cases hfield : barField names with
    | none =>
      rw [hfield] at hopen
      cases hopen
    | some field =>
      obtain ⟨ctag, tail⟩ := field
      rw [hfield] at hopen
      have hctag := parseCtagAt_follows hnul true hprs hfuel
      rw [if_pos rfl, hfield] at hctag
      obtain ⟨⟨ctag', parse'⟩, hctag, hlands⟩ := hctag.exists_done
      rw [parseStreamAt, hwalk, Walk.done_bind, hctag, Walk.done_bind]
      dsimp only
      rw [parseStreamidAt_fault hnul streamidAlloc hlands.2 hfuel (of_decide_eq_true hopen),
        Walk.fault_bind]

def OpenStreamid (ftagstr : List Char) : Prop :=
  ∃ stanza, parseVersion ftagstr = some stanza ∧ openStreamid stanza = true

/-- The string ends right behind a value of its data content, and nothing before that is wrong
with it. -/
def CutContent (ftag : Ftag) (ftagstr : List Char) : Prop :=
  ∃ stanza ftag₂ s₂ ftag₃ s₃ ftag₄ s₄ tail, parseVersion ftagstr = some stanza ∧
    parseStream stanza ftag = some (ftag₂, s₂) ∧
    parseStanza reftreeHeader storeReftree 3 s₂ ftag₂ = some (ftag₃, s₃) ∧
    parseStanza filepositionHeader storePosition 4 s₃ ftag₃ = some (ftag₄, s₄) ∧
    skipHeader datacontentHeader s₄ = some tail ∧
    contentCut tail.length tail (contentStart ftag₄) = true

/-- Where there is memory, and neither of the two ends of a string is met, the parser with pointers
does what the one on lists does. -/
theorem ftagInitstrAt_follows (hnul : '\x00' ∉ ftagstr) (hfuel : 2 * ftagstr.length < fuel)
    (hopen : ¬ OpenStreamid ftagstr) (hcut : debug = true → ¬ CutContent ftag ftagstr) :
    Walk.Follows Eq (ftagInitstrAt debug true true fuel ftag ftagstr) (ftagInitstr ftag ftagstr) := by
  refine (parseVersionAt_follows ftagstr).bind fun parse stanza h hver => ?_
  have hcl : openStreamid stanza = false := by
    rw [Bool.eq_false_iff]
    exact fun hend => hopen ⟨stanza, hver, hend⟩
  refine (parseStreamAt_follows hnul h hfuel hcl).bind fun walked parsed hlands hstr => ?_
  obtain ⟨ftag₂, parse⟩ := walked
  obtain ⟨ftag₂', s₂⟩ := parsed
  obtain ⟨hsame, h⟩ := hlands
  dsimp only at hsame h ⊢
  subst hsame
  refine (parseStanzaAt_follows hnul h (by omega)).bind fun walked parsed hlands href => ?_
  obtain ⟨ftag₃, parse⟩ := walked
  obtain ⟨ftag₃', s₃⟩ := parsed
  obtain ⟨hsame, h⟩ := hlands
  dsimp only at hsame h ⊢
  subst hsame
  refine (parseStanzaAt_follows hnul h (by omega)).bind fun walked parsed hlands hpos => ?_
  obtain ⟨ftag₄, parse⟩ := walked
  obtain ⟨ftag₄', s₄⟩ := parsed
  obtain ⟨hsame, h⟩ := hlands
  dsimp only at hsame h ⊢
  subst hsame
  refine parseDataAt_follows hnul h (by omega) fun hdebug tail htail => ?_
  rw [Bool.eq_false_iff]
  exact fun hend => hcut hdebug
    ⟨_, _, _, _, _, _, _, _, hver, hstr, href, hpos, htail, hend⟩

section Faults

variable {ftagstr : List Char} {debug ctagAlloc streamidAlloc : Bool} {fuel : Nat} {ftag : Ftag}

theorem ftagInitstrAt_open (hnul : '\x00' ∉ ftagstr) (hfuel : 2 * ftagstr.length < fuel)
    (hopen : OpenStreamid ftagstr) : ftagInitstrAt debug true streamidAlloc fuel ftag ftagstr = .fault := by
  obtain ⟨stanza, hver, hend⟩ := hopen
  obtain ⟨parse, hwalk, h⟩ := (hver ▸ parseVersionAt_follows ftagstr).exists_done
  rw [ftagInitstrAt, hwalk, Walk.done_bind, parseStreamAt_fault hnul h hfuel hend,
    Walk.fault_bind]

theorem ftagInitstrAt_cut (hnul : '\x00' ∉ ftagstr) (hfuel : 2 * ftagstr.length < fuel)
    (hcut : CutContent ftag ftagstr) : ftagInitstrAt true true true fuel ftag ftagstr = .fault := by
  by_cases hopen : OpenStreamid ftagstr
  · exact ftagInitstrAt_open hnul hfuel hopen
  obtain ⟨stanza, ftag₂, s₂, ftag₃, s₃, ftag₄, s₄, tail, hver, hstr, href, hpos,
    htail, hend⟩ := hcut
  have hcl : openStreamid stanza = false := by
    rw [Bool.eq_false_iff]
    exact fun hend => hopen ⟨stanza, hver, hend⟩
  have hlen : ftagstr.length < fuel := by omega
  obtain ⟨parse, hwalk, h⟩ := (hver ▸ parseVersionAt_follows ftagstr).exists_done
  rw [ftagInitstrAt, hwalk, Walk.done_bind]
  obtain ⟨⟨_, parse⟩, hwalk, rfl, h⟩ :=
    (hstr ▸ parseStreamAt_follows hnul h hfuel hcl).exists_done
  rw [hwalk, Walk.done_bind]
  dsimp only at h ⊢
  obtain ⟨⟨_, parse⟩, hwalk, rfl, h⟩ :=
    (href ▸ parseStanzaAt_follows hnul h hlen).exists_done
  rw [hwalk, Walk.done_bind]
  dsimp only at h ⊢
  obtain ⟨⟨_, parse⟩, hwalk, rfl, h⟩ :=
    (hpos ▸ parseStanzaAt_follows hnul h hlen).exists_done
  rw [hwalk, Walk.done_bind]
  exact parseDataAt_fault hnul h (by omega) htail hend

theorem ftagInitstrAt_error (hnul : '\x00' ∉ ftagstr) (hfuel : 2 * ftagstr.length < fuel)
    (hopen : ctagAlloc = true → ¬ OpenStreamid ftagstr) (hall : (ctagAlloc && streamidAlloc) = false) :
    ftagInitstrAt debug ctagAlloc streamidAlloc fuel ftag ftagstr = .error := by
  refine (parseVersionAt_follows ftagstr).bind_error fun parse stanza h hver => ?_
  rw [parseStreamAt_error hnul h hfuel _ hall]
  · rfl
  · intro hctag
    rw [Bool.eq_false_iff]
    exact fun hend => hopen hctag ⟨stanza, hver, hend⟩

end Faults

/-- The parser of FTAG strings ends, and reads and writes only where it may, exactly if the string does
not end within its stream ID, where its terminator is written before the pointer is checked; and, in a
debug build, not right behind a value of its data content, where what is behind the string is
printed. -/
theorem initstrAt_returns_iff (hnul : '\x00' ∉ ftagstr) (debug ctagAlloc streamidAlloc : Bool) (ftag : Ftag)
    (hfuel : 2 * ftagstr.length < fuel) :
    (ftagInitstrAt debug ctagAlloc streamidAlloc fuel ftag ftagstr).Returns ↔
      ¬ (ctagAlloc = true ∧ OpenStreamid ftagstr) ∧
        ¬ (debug = true ∧ ctagAlloc = true ∧ streamidAlloc = true ∧ CutContent ftag ftagstr) := by
  constructor
  · intro hreturns
    constructor
    · rintro ⟨rfl, hopen⟩
      rw [ftagInitstrAt_open hnul hfuel hopen] at hreturns
      exact hreturns
    · rintro ⟨rfl, rfl, rfl, hcut⟩
      rw [ftagInitstrAt_cut hnul hfuel hcut] at hreturns
      exact hreturns
  · rintro ⟨hopen, hcut⟩
    by_cases halloc : (ctagAlloc && streamidAlloc) = true
    · obtain ⟨rfl, rfl⟩ := Bool.and_eq_true_iff.1 halloc
      refine (ftagInitstrAt_follows hnul hfuel (fun hend => hopen ⟨rfl, hend⟩)
        fun hdebug hend => hcut ⟨hdebug, rfl, rfl, hend⟩).returns
    · rw [ftagInitstrAt_error hnul hfuel (fun hctag hend => hopen ⟨hctag, hend⟩)
        (Bool.not_eq_true _ ▸ halloc)]
      trivial

/-- A string that ends at a separator of its version is an error. -/
theorem versionString_returns :
    (ftagInitstrAt true true true 100 (sampleFtag 0 0 true) "VER(0.001".toList).Returns := by
  have hversion : parseVersion "VER(0.001".toList = none := rfl
  refine (initstrAt_returns_iff (by decide) true true true (sampleFtag 0 0 true) (by decide)).2
    ⟨?_, ?_⟩
  · rintro ⟨-, stanza, h, -⟩
    rw [hversion] at h
    cases h
  · rintro ⟨-, -, -, stanza, -, -, -, -, -, -, -, h, -⟩
    rw [hversion] at h
    cases h

/-- A string that ends within its stream ID is a fault, whatever fuel there is. -/
theorem openString_fault : '\x00' ∉ "VER(0.001)STM(c|s".toList ∧ ∀ fuel > 100,
    ftagInitstrAt false true true fuel (sampleFtag 0 0 true) "VER(0.001)STM(c|s".toList =
      .fault := by
  refine ⟨by decide, fun fuel hfuel => ?_⟩
  have hlength : 2 * "VER(0.001)STM(c|s".toList.length < fuel := lt_trans (by decide) hfuel
  exact ftagInitstrAt_open (by decide) hlength ⟨"STM(c|s".toList, rfl, rfl⟩

end Marfs.Tagging
