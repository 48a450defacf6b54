import Marfs.Cstring.Snprintf
import Marfs.Cstring.Strto
import Marfs.Tagging.Ftag

/-!
# FTAG strings

`ftag_tostr` prints a tag as five stanzas, each a header and a parenthesised list of values;
`ftag_initstr` reads the values of a stanza in any order, by their one-character names, and counts
them.  A tag of the current version whose strings are free of the separator comes back unchanged
(`ftagInitstr_ftagTostr`).
-/

namespace Marfs.Tagging

open Cstring List

/-! ## Headers and states -/

def ftagCurrentMajorversion : Nat := 0

def ftagCurrentMinorversion : Nat := 1

def versionHeader : List Char := "VER(".toList

def streaminfoHeader : List Char := "STM(".toList

def reftreeHeader : List Char := "REF(".toList

def filepositionHeader : List Char := "POS(".toList

def datacontentHeader : List Char := "DAT(".toList

def DataState.name : DataState → List Char
  | .init => "INIT".toList
  | .sized => "SIZED".toList
  | .fin => "FIN".toList
  | .comp => "COMP".toList
  | .cached => "CACHED".toList

def FtagState.perms (state : FtagState) : List Char :=
  if state.writeable then if state.readable then "RW".toList else "WO".toList
  else if state.readable then "RO".toList
  else "NO".toList

/-! ## Printing -/

namespace Ftag

def versionStanza (ftag : Ftag) : List Char :=
  versionHeader ++ decimal ftag.majorversion ++ '.' :: (padded 3 ftag.minorversion ++ [')'])

def streamStanza (ftag : Ftag) : List Char :=
  streaminfoHeader ++ ftag.ctag ++ '|' :: (ftag.streamid ++ '|' :: 'F' :: (decimal ftag.objfiles ++
    '-' :: 'D' :: (decimal ftag.objsize ++ [')'])))

def reftreeStanza (ftag : Ftag) : List Char :=
  reftreeHeader ++ 'B' :: (decimalInt ftag.refbreadth ++ '-' :: 'D' :: (decimalInt ftag.refdepth ++
    '-' :: 'd' :: (decimalInt ftag.refdigits ++ [')'])))

def positionStanza (ftag : Ftag) : List Char :=
  filepositionHeader ++ 'f' :: (decimal ftag.fileno ++ '-' :: 'o' :: (decimal ftag.objno ++
    '-' :: '@' :: (decimal ftag.offset ++
    '-' :: 'e' :: (decimal ftag.endofstream.toNat ++ [')']))))

def contentValues (ftag : Ftag) : List Char :=
  'n' :: (decimalInt ftag.protection.N ++ '-' :: 'e' :: (decimalInt ftag.protection.E ++
    '-' :: 'o' :: (decimalInt ftag.protection.O ++ '-' :: 'p' :: (decimal ftag.protection.partsz ++
    '-' :: 'b' :: (decimal ftag.bytes ++ '-' :: 'a' :: (decimal ftag.availbytes ++
    '-' :: 'r' :: (decimal ftag.recoverybytes ++ '-' :: (ftag.state.data.name ++
    '-' :: (ftag.state.perms ++ [')']))))))))) 

def contentStanza (ftag : Ftag) : List Char := datacontentHeader ++ ftag.contentValues

def toStr (ftag : Ftag) : List Char :=
  ftag.versionStanza ++ (ftag.streamStanza ++ (ftag.reftreeStanza ++
    (ftag.positionStanza ++ ftag.contentStanza)))

end Ftag

/-- `ftag_tostr` with a buffer of `len` bytes: what the buffer holds and the length of the string;
`none` for a tag of another version. -/
def ftagTostr (ftag : Ftag) (len : Nat) : Option (List Char × Nat) :=
  if ftag.majorversion ≠ ftagCurrentMajorversion || ftag.minorversion ≠ ftagCurrentMinorversion then
    none
  else
    let out := Outbuf.init len
    let out := out.print ftag.versionStanza
    let out := out.print ftag.streamStanza
    let out := out.print ftag.reftreeStanza
    let out := out.print ftag.positionStanza
    let out := out.print ftag.contentStanza
    some (out.content, out.totsz)

/-! ## Parsing -/

/-- `strncmp` with a header at the start of the string, and the step over it. -/
def skipHeader (header : List Char) (s : List Char) : Option (List Char) :=
  if header.isPrefixOf s then some (s.drop header.length) else none

def uintMax : Nat := 2 ^ 32 - 1

def intMax : Nat := 2 ^ 31 - 1

def toInt (n : Nat) : Int := Int.bmod n (2 ^ 32)

def versionNumber (stop : Char) (s : List Char) : Option (Nat × List Char) :=
  match strtoull s with
  | (val, c :: rest) => if c ≠ stop || val > uintMax then none else some (val, rest)
  | (_, []) => none

/-- A string up to the next `|`, and what follows that. -/
def barField (s : List Char) : Option (List Char × List Char) :=
  match s.dropWhile (· ≠ '|') with
  | [] => none
  | _ :: rest => some (s.takeWhile (· ≠ '|'), rest)

/-- The loop over the numeric values of a stanza, which `sep` separates, until its closing
parenthesis or the end of the string: `store` keeps a value under its one-character name.  Every
turn goes forward, so `fuel` is the length of the string.  It returns the number of values, which
the source counts in a `char`. -/
def parseValues {σ : Type} (sep : Char) (store : Char → Nat → σ → Option σ) :
    Nat → List Char → σ → Nat → Option (σ × Nat × List Char)
  | _, [], state, found => some (state, found, [])
  | 0, _ :: _, _, _ => none
  | fuel + 1, tag :: rest, state, found =>
    match strtoull rest with
    | (val, endptr) =>
      (store tag val state).bind fun state =>
        match endptr with
        | [] => none
        | c :: parse =>
          if c = sep then parseValues sep store fuel parse state (found + 1)
          else if c = ')' then some (state, found + 1, parse)
          else none

/-- The count of a `char`. -/
def foundvals (found : Nat) (expected : Nat) : Bool := found % 2 ^ 8 == expected

def storeStream (tag : Char) (val : Nat) (ftag : Ftag) : Option Ftag :=
  match tag with
  | 'F' => some { ftag with objfiles := val }
  | 'D' => some { ftag with objsize := val }
  | _ => none

/-- A reference tree value: breadth, depth or digits. -/
def storeReftree (tag : Char) (val : Nat) (ftag : Ftag) : Option Ftag :=
  if val > intMax then none
  else
    match tag with
    | 'B' => some { ftag with refbreadth := val }
    | 'D' => some { ftag with refdepth := val }
    | 'd' => some { ftag with refdigits := val }
    | _ => none

def storePosition (tag : Char) (val : Nat) (ftag : Ftag) : Option Ftag :=
  match tag with
  | 'f' => some { ftag with fileno := val }
  | 'o' => some { ftag with objno := val }
  | '@' => some { ftag with offset := val }
  | 'e' =>
    if val = 1 then some { ftag with endofstream := true }
    else if val = 0 then some { ftag with endofstream := false }
    else none
  | _ => none

def storeContent (tag : Char) (val : Nat) (ftag : Ftag) : Option Ftag :=
  match tag with
  | 'n' => some { ftag with protection := { ftag.protection with N := toInt val } }
  | 'e' => some { ftag with protection := { ftag.protection with E := toInt val } }
  | 'o' => some { ftag with protection := { ftag.protection with O := toInt val } }
  | 'p' => some { ftag with protection := { ftag.protection with partsz := val } }
  | 'b' => some { ftag with bytes := val }
  | 'a' => some { ftag with availbytes := val }
  | 'r' => some { ftag with recoverybytes := val }
  | _ => none

structure Content where
  ftag : Ftag
  found : Nat
  datastate : Bool
  dataperms : Bool

/-- A data state is found; a second one is refused. -/
def Content.setState (content : Content) (data : DataState) : Option Content :=
  if content.datastate then none
  else some { content with
    datastate := true
    ftag := { content.ftag with state := { content.ftag.state with data := data } } }

/-- The permissions are found; a second time they are refused. -/
def Content.setPerms (content : Content) (writeable readable : Bool) : Option Content :=
  if content.dataperms then none
  else some { content with
    dataperms := true
    ftag := { content.ftag with
      state := { content.ftag.state with writeable := writeable, readable := readable } } }

def parseContentValue (content : Content) : List Char → Option (Content × List Char)
  | 'I' :: 'N' :: 'I' :: 'T' :: endptr => (content.setState .init).map (·, endptr)
  | 'S' :: 'I' :: 'Z' :: 'E' :: 'D' :: endptr => (content.setState .sized).map (·, endptr)
  | 'F' :: 'I' :: 'N' :: endptr => (content.setState .fin).map (·, endptr)
  | 'C' :: 'O' :: 'M' :: 'P' :: endptr => (content.setState .comp).map (·, endptr)
  | 'C' :: 'A' :: 'C' :: 'H' :: 'E' :: 'D' :: endptr => (content.setState .cached).map (·, endptr)
  | 'R' :: 'O' :: endptr => (content.setPerms false true).map (·, endptr)
  | 'W' :: 'O' :: endptr => (content.setPerms true false).map (·, endptr)
  | 'R' :: 'W' :: endptr => (content.setPerms true true).map (·, endptr)
  | 'N' :: 'O' :: endptr => (content.setPerms false false).map (·, endptr)
  | tag :: rest =>
    match strtoull rest with
    | (val, endptr) =>
      (storeContent tag val content.ftag).map fun ftag =>
        ({ content with ftag := ftag, found := content.found + 1 }, endptr)
  | [] => none

def parseContent : Nat → List Char → Content → Option (Content × List Char)
  | _, [], content => some (content, [])
  | 0, _ :: _, _ => none
  | fuel + 1, c :: rest, content =>
    (parseContentValue content (c :: rest)).bind fun
      | (content, ')' :: parse) => some (content, parse)
      | (content, '-' :: parse) => parseContent fuel parse content
      | _ => none

def parseVersion (s : List Char) : Option (List Char) := do
  let s ← skipHeader versionHeader s
  let (majorversion, s) ← versionNumber '.' s
  let (minorversion, s) ← versionNumber ')' s
  if majorversion = ftagCurrentMajorversion && minorversion = ftagCurrentMinorversion then some s
  else none

def parseStream (s : List Char) (ftag : Ftag) : Option (Ftag × List Char) := do
  let s ← skipHeader streaminfoHeader s
  let (ctag, s) ← barField s
  let (streamid, s) ← barField s
  let ftag := { ftag with
    majorversion := ftagCurrentMajorversion, minorversion := ftagCurrentMinorversion
    ctag := ctag, streamid := streamid }
  let (ftag, found, s) ← parseValues '-' storeStream s.length s ftag 0
  if foundvals found 2 then some (ftag, s) else none

def parseStanza (header : List Char) (store : Char → Nat → Ftag → Option Ftag) (expected : Nat)
    (s : List Char) (ftag : Ftag) : Option (Ftag × List Char) := do
  let s ← skipHeader header s
  let (ftag, found, s) ← parseValues '-' store s.length s ftag 0
  if foundvals found expected then some (ftag, s) else none

def parseData (s : List Char) (ftag : Ftag) : Option Ftag := do
  let s ← skipHeader datacontentHeader s
  let ftag := { ftag with state := { data := .init, writeable := false, readable := false } }
  let (content, s) ← parseContent s.length s
    { ftag := ftag, found := 0, datastate := false, dataperms := false }
  if foundvals content.found 7 && content.datastate && content.dataperms && s.isEmpty then
    some content.ftag
  else none

def ftagInitstr (ftag : Ftag) (ftagstr : List Char) : Option Ftag := do
  let s ← parseVersion ftagstr
  let (ftag, s) ← parseStream s ftag
  let (ftag, s) ← parseStanza reftreeHeader storeReftree 3 s ftag
  let (ftag, s) ← parseStanza filepositionHeader storePosition 4 s ftag
  parseData s ftag

/-! ## Reading a string back -/

section Parsing

@[simp] theorem skipHeader_append (header s : List Char) : skipHeader header (header ++ s) = some s := by
  simp [skipHeader]

theorem versionNumber_append {digits rest : List Char} {n : Nat} {stop : Char}
    (h : Prints digits n) (hn : n ≤ uintMax) (hstop : stop.isDigit = false) :
    versionNumber stop (digits ++ stop :: rest) = some (n, rest) := by
  unfold versionNumber
  rw [h _ (stops_cons.2 hstop)]
  simp [hn]

theorem barField_append {field : List Char} (h : '|' ∉ field) (rest : List Char) :
    barField (field ++ '|' :: rest) = some (field, rest) := by
  have hall : ∀ c ∈ field, decide (c ≠ '|') = true := fun c hc => by
    simpa using ne_of_mem_of_not_mem hc h
  unfold barField
  rw [dropWhile_append_of_pos hall, takeWhile_append_of_pos hall]
  simp

variable {σ : Type} {sep : Char} {store : Char → Nat → σ → Option σ} {tag : Char}
  {digits parse : List Char} {n : Nat} {state state' : σ} {found : Nat}

theorem parseValues_next (hdig : Prints digits n) (hsep : sep.isDigit = false)
    (hstore : store tag n state = some state') {result : Option (σ × Nat × List Char)}
    (hrest : ∀ fuel, parse.length ≤ fuel →
      parseValues sep store fuel parse state' (found + 1) = result) :
    ∀ fuel, (tag :: (digits ++ sep :: parse)).length ≤ fuel →
      parseValues sep store fuel (tag :: (digits ++ sep :: parse)) state found = result := by
  intro fuel hfuel
  cases fuel with
  | zero => simp at hfuel
  | succ fuel =>
    simp only [length_cons, length_append] at hfuel
    rw [parseValues, hdig _ (stops_cons.2 hsep)]
    simp only [hstore, Option.bind_some, if_true]
    exact hrest fuel (by omega)

theorem parseValues_last (hdig : Prints digits n) (hsep : ')' ≠ sep)
    (hstore : store tag n state = some state') :
    ∀ fuel, (tag :: (digits ++ ')' :: parse)).length ≤ fuel →
      parseValues sep store fuel (tag :: (digits ++ ')' :: parse)) state found =
        some (state', found + 1, parse) := by
  intro fuel hfuel
  cases fuel with
  | zero => simp at hfuel
  | succ fuel =>
    rw [parseValues, hdig _ (stops_cons.2 rfl)]
    simp only [hstore, Option.bind_some, if_neg hsep, if_true]

def ReadsValue (item : List Char) (content content' : Content) : Prop :=
  item ≠ [] ∧ ∀ c rest, c.isDigit = false →
    parseContentValue content (item ++ c :: rest) = some (content', c :: rest)

theorem readsValue_number (hdig : Prints digits n) {content : Content} {ftag : Ftag}
    (htag : tag ∈ ['n', 'e', 'o', 'p', 'b', 'a', 'r'])
    (hstore : storeContent tag n content.ftag = some ftag) :
    ReadsValue (tag :: digits) content
      { content with ftag := ftag, found := content.found + 1 } := by
  refine ⟨cons_ne_nil _ _, fun c rest hc => ?_⟩
  have hread := hdig (c :: rest) (stops_cons.2 hc)
  have hnum : parseContentValue content (tag :: digits ++ c :: rest) =
      match strtoull (digits ++ c :: rest) with
      | (val, endptr) => (storeContent tag val content.ftag).map fun ftag =>
        ({ content with ftag := ftag, found := content.found + 1 }, endptr) := by
    simp only [mem_cons, not_mem_nil, or_false] at htag
    rcases htag with rfl | rfl | rfl | rfl | rfl | rfl | rfl <;> rfl
  rw [hnum, hread]
  simp [hstore]

variable {item : List Char} {content content' : Content}

variable {result : Option (Content × List Char)}

theorem parseContent_next (h : ReadsValue item content content')
    (hrest : ∀ fuel, parse.length ≤ fuel → parseContent fuel parse content' = result) :
    ∀ fuel, (item ++ '-' :: parse).length ≤ fuel →
      parseContent fuel (item ++ '-' :: parse) content = result := by
  intro fuel hfuel
  cases item with
  | nil => exact absurd rfl h.1
  | cons c item =>
    cases fuel with
    | zero => simp at hfuel
    | succ fuel =>
      simp only [length_cons, length_append, cons_append] at hfuel
      have hread := h.2 '-' parse (by decide)
      rw [cons_append] at hread ⊢
      rw [parseContent, hread]
      exact hrest fuel (by omega)

theorem parseContent_number (hdig : Prints digits n) {ftag : Ftag}
    (htag : tag ∈ ['n', 'e', 'o', 'p', 'b', 'a', 'r'])
    (hstore : storeContent tag n content.ftag = some ftag)
    (hrest : ∀ fuel, parse.length ≤ fuel →
      parseContent fuel parse { content with ftag := ftag, found := content.found + 1 } = result) :
    ∀ fuel, (tag :: (digits ++ '-' :: parse)).length ≤ fuel →
      parseContent fuel (tag :: (digits ++ '-' :: parse)) content = result :=
  parseContent_next (readsValue_number hdig htag hstore) hrest

theorem parseContent_last (h : ReadsValue item content content') :
    ∀ fuel, (item ++ ')' :: parse).length ≤ fuel →
      parseContent fuel (item ++ ')' :: parse) content = some (content', parse) := by
  intro fuel hfuel
  cases item with
  | nil => exact absurd rfl h.1
  | cons c item =>
    cases fuel with
    | zero => simp at hfuel
    | succ fuel =>
      have hread := h.2 ')' parse (by decide)
      rw [cons_append] at hread ⊢
      rw [parseContent, hread]
      rfl

theorem readsValue_state (data : DataState) (hfound : content.datastate = false) :
    ReadsValue data.name content
      { content with
        datastate := true
        ftag := { content.ftag with state := { content.ftag.state with data := data } } } := by
  have hset : content.setState data = some { content with
      datastate := true
      ftag := { content.ftag with state := { content.ftag.state with data := data } } } := by
    rw [Content.setState, if_neg (by simp [hfound])]
  refine ⟨by cases data <;> decide, fun c rest _ => ?_⟩
  have hread : parseContentValue content (data.name ++ c :: rest) =
      (content.setState data).map (·, c :: rest) := by
    cases data <;> rfl
  rw [hread, hset]
  rfl

theorem readsValue_perms (state : FtagState) (hfound : content.dataperms = false) :
    ReadsValue state.perms content
      { content with
        dataperms := true
        ftag := { content.ftag with
          state := { content.ftag.state with
            writeable := state.writeable, readable := state.readable } } } := by
  have hset : content.setPerms state.writeable state.readable = some { content with
      dataperms := true
      ftag := { content.ftag with
        state := { content.ftag.state with
          writeable := state.writeable, readable := state.readable } } } := by
    rw [Content.setPerms, if_neg (by simp [hfound])]
  obtain ⟨data, writeable, readable⟩ := state
  refine ⟨by cases writeable <;> cases readable <;> simp [FtagState.perms], fun c rest _ => ?_⟩
  have hread : parseContentValue content
      (FtagState.perms { data := data, writeable := writeable, readable := readable } ++ c :: rest) =
      (content.setPerms writeable readable).map (·, c :: rest) := by
    cases writeable <;> cases readable <;> rfl
  rw [hread, hset]
  rfl

end Parsing

/-! ## The round trip -/

/-- A value of type `int`. -/
structure IsInt (n : Int) : Prop where
  min_le : -2147483648 ≤ n
  le_max : n ≤ 2147483647

instance (n : Int) : Decidable (IsInt n) :=
  decidable_of_iff (-2147483648 ≤ n ∧ n ≤ 2147483647) ⟨fun h => ⟨h.1, h.2⟩, fun h => ⟨h.1, h.2⟩⟩

/-- The integer fields are values of their C types. -/
structure Ftag.Representable (ftag : Ftag) : Prop where
  objfiles : ftag.objfiles ≤ ullongMax
  objsize : ftag.objsize ≤ ullongMax
  refbreadth : IsInt ftag.refbreadth
  refdepth : IsInt ftag.refdepth
  refdigits : IsInt ftag.refdigits
  fileno : ftag.fileno ≤ ullongMax
  objno : ftag.objno ≤ ullongMax
  offset : ftag.offset ≤ ullongMax
  N : IsInt ftag.protection.N
  E : IsInt ftag.protection.E
  O : IsInt ftag.protection.O
  partsz : ftag.protection.partsz ≤ ullongMax
  bytes : ftag.bytes ≤ ullongMax
  availbytes : ftag.availbytes ≤ ullongMax
  recoverybytes : ftag.recoverybytes ≤ ullongMax

/-- The reference tree values are not negative, which the parser insists on. -/
structure Ftag.ReftreeNonneg (ftag : Ftag) : Prop where
  refbreadth_nonneg : 0 ≤ ftag.refbreadth
  refdepth_nonneg : 0 ≤ ftag.refdepth
  refdigits_nonneg : 0 ≤ ftag.refdigits

/-- No integer field is negative. -/
structure Ftag.NonNegative (ftag : Ftag) : Prop extends ftag.Representable, ftag.ReftreeNonneg where
  N_nonneg : 0 ≤ ftag.protection.N
  E_nonneg : 0 ≤ ftag.protection.E
  O_nonneg : 0 ≤ ftag.protection.O

variable {n : Int} {ftag : Ftag} {s rest : List Char}

theorem IsInt.natAbs_le (h : IsInt n) : n.natAbs ≤ ullongMax := by
  have hlt : 2147483648 ≤ ullongMax := by decide
  have := h.min_le
  have := h.le_max
  omega

theorem prints_int (h : IsInt n) : Prints (decimalInt n) (toUll n) :=
  prints_decimalInt h.natAbs_le

theorem toInt_toUll (h : IsInt n) : toInt (toUll n) = n := by
  obtain ⟨hmin, hmax⟩ := h
  have hmod : ((2 ^ 32 : Nat) : Int) = 4294967296 := by decide
  have hval : ((toUll n : Nat) : Int) = n % 18446744073709551616 :=
    Int.toNat_of_nonneg (Int.emod_nonneg _ (by decide))
  unfold toInt
  rw [hval, Int.bmod_def, hmod]
  have hdvd : n % 18446744073709551616 % 4294967296 = n % 4294967296 :=
    Int.emod_emod_of_dvd n (by decide)
  rw [hdvd]
  split <;> omega

theorem toUll_of_nonneg (h : IsInt n) (hn : 0 ≤ n) : toUll n = n.toNat := by
  have := h.le_max
  unfold toUll
  omega

/-- A printed number is followed by its value, which the struct takes. -/
theorem storeReftree_of_int (h : IsInt n) (hn : 0 ≤ n) (tag : Char) (dest : Ftag) :
    storeReftree tag (toUll n) dest =
      match tag with
      | 'B' => some { dest with refbreadth := n }
      | 'D' => some { dest with refdepth := n }
      | 'd' => some { dest with refdigits := n }
      | _ => none := by
  have hle : ¬ n.toNat > intMax := by
    have hmax : intMax = 2147483647 := by decide
    have := h.le_max
    omega
  unfold storeReftree
  rw [toUll_of_nonneg h hn, if_neg hle, Int.toNat_of_nonneg hn]

theorem storeContent_of_int (h : IsInt n) (dest : Ftag) :
    storeContent 'n' (toUll n) dest =
        some { dest with protection := { dest.protection with N := n } } ∧
      storeContent 'e' (toUll n) dest =
        some { dest with protection := { dest.protection with E := n } } ∧
      storeContent 'o' (toUll n) dest =
        some { dest with protection := { dest.protection with O := n } } := by
  simp only [storeContent, toInt_toUll h, and_self]

theorem storePosition_endofstream (endofstream : Bool) (dest : Ftag) :
    storePosition 'e' endofstream.toNat dest = some { dest with endofstream := endofstream } := by
  cases endofstream <;> rfl

section RoundTrip

variable {ftag : Ftag} (h : ftag.Representable)
include h

theorem parseValues_stream (dest : Ftag) (rest : List Char) :
    ∀ fuel, ('F' :: (decimal ftag.objfiles ++ '-' :: 'D' ::
        (decimal ftag.objsize ++ ')' :: rest))).length ≤ fuel →
      parseValues '-' storeStream fuel ('F' :: (decimal ftag.objfiles ++ '-' :: 'D' ::
          (decimal ftag.objsize ++ ')' :: rest))) dest 0 =
        some ({ dest with objfiles := ftag.objfiles, objsize := ftag.objsize }, 2, rest) :=
  parseValues_next (prints_decimal h.objfiles) rfl rfl <|
    parseValues_last (prints_decimal h.objsize) (by decide) rfl

theorem parseStanza_reftree (href : ftag.ReftreeNonneg) (dest : Ftag) (rest : List Char) :
    parseStanza reftreeHeader storeReftree 3 (ftag.reftreeStanza ++ rest) dest =
      some ({ dest with refbreadth := ftag.refbreadth, refdepth := ftag.refdepth
                        refdigits := ftag.refdigits }, rest) := by
  simp only [parseStanza, Ftag.reftreeStanza, append_assoc, cons_append, nil_append,
    skipHeader_append, Option.bind_eq_bind, Option.bind_some]
  refine Option.bind_eq_some_iff.2 ⟨_, parseValues_next (prints_int h.refbreadth) rfl
    (storeReftree_of_int h.refbreadth href.refbreadth_nonneg 'B' dest) (parseValues_next (prints_int h.refdepth) rfl
      (storeReftree_of_int h.refdepth href.refdepth_nonneg 'D' _) (parseValues_last (prints_int h.refdigits) (by decide)
        (storeReftree_of_int h.refdigits href.refdigits_nonneg 'd' _))) _ le_rfl, rfl⟩

theorem parseStanza_position (dest : Ftag) (rest : List Char) :
    parseStanza filepositionHeader storePosition 4 (ftag.positionStanza ++ rest) dest =
      some ({ dest with fileno := ftag.fileno, objno := ftag.objno, offset := ftag.offset
                        endofstream := ftag.endofstream }, rest) := by
  have heos : ftag.endofstream.toNat ≤ ullongMax :=
    (Bool.toNat_le _).trans (by decide)
  simp only [parseStanza, Ftag.positionStanza, append_assoc, cons_append, nil_append,
    skipHeader_append, Option.bind_eq_bind, Option.bind_some]
  refine Option.bind_eq_some_iff.2 ⟨_, parseValues_next (prints_decimal h.fileno) rfl (by rfl)
    (parseValues_next (prints_decimal h.objno) rfl (by rfl)
      (parseValues_next (prints_decimal h.offset) rfl (by rfl)
        (parseValues_last (prints_decimal heos) (by decide) (storePosition_endofstream _ _)))) _ le_rfl, rfl⟩

theorem parseContent_values (dest : Ftag) :
    ∀ fuel, ftag.contentValues.length ≤ fuel →
      parseContent fuel ftag.contentValues
          { ftag := dest, found := 0, datastate := false, dataperms := false } =
        some ({ ftag := { dest with
                  protection := ftag.protection, bytes := ftag.bytes
                  availbytes := ftag.availbytes, recoverybytes := ftag.recoverybytes
                  state := ftag.state }
                found := 7, datastate := true, dataperms := true }, []) := by
  unfold Ftag.contentValues
  refine parseContent_number (prints_int h.N) (by simp) (storeContent_of_int h.N _).1 ?_
  refine parseContent_number (prints_int h.E) (by simp) (storeContent_of_int h.E _).2.1 ?_
  refine parseContent_number (prints_int h.O) (by simp) (storeContent_of_int h.O _).2.2 ?_
  refine parseContent_number (prints_decimal h.partsz) (by simp) rfl ?_
  refine parseContent_number (prints_decimal h.bytes) (by simp) rfl ?_
  refine parseContent_number (prints_decimal h.availbytes) (by simp) rfl ?_
  refine parseContent_number (prints_decimal h.recoverybytes) (by simp) rfl ?_
  refine parseContent_next (readsValue_state ftag.state.data rfl) ?_
  exact parseContent_last (readsValue_perms ftag.state rfl)

end RoundTrip

theorem ftagTostr_eq (hmaj : ftag.majorversion = ftagCurrentMajorversion)
    (hmin : ftag.minorversion = ftagCurrentMinorversion) (len : Nat) :
    ftagTostr ftag len = some (ftag.toStr.take (len - 1), ftag.toStr.length) := by
  have hholds := ((((Outbuf.init_holds len).print ftag.versionStanza).print ftag.streamStanza).print
    ftag.reftreeStanza).print ftag.positionStanza |>.print ftag.contentStanza
  simp only [nil_append, append_assoc] at hholds
  unfold ftagTostr Ftag.toStr
  rw [if_neg (by simp [hmaj, hmin]), ← hholds.content, ← hholds.totsz]

variable {len : Nat} {header str : List Char} {sep : Char} {base dest : Ftag}
  {store : Char → Nat → Ftag → Option Ftag}

theorem ftagTostr_of_lt (hmaj : ftag.majorversion = ftagCurrentMajorversion)
    (hmin : ftag.minorversion = ftagCurrentMinorversion) (hlen : ftag.toStr.length < len) :
    ftagTostr ftag len = some (ftag.toStr, ftag.toStr.length) := by
  rw [ftagTostr_eq hmaj hmin, take_of_length_le (by omega)]

theorem ftagTostr_eq_some {size : Nat} {content : List Char} (h : ftagTostr ftag len = some (content, size)) :
    ftag.majorversion = ftagCurrentMajorversion ∧ ftag.minorversion = ftagCurrentMinorversion ∧
      content = ftag.toStr.take (len - 1) ∧ size = ftag.toStr.length := by
  have hver : ftag.majorversion = ftagCurrentMajorversion ∧
      ftag.minorversion = ftagCurrentMinorversion := by
    unfold ftagTostr at h
    split at h
    · cases h
    · rename_i hcurr
      simpa using hcurr
  rw [ftagTostr_eq hver.1 hver.2] at h
  obtain ⟨hcont, hsize⟩ := Prod.mk.inj (Option.some.inj h)
  exact ⟨hver.1, hver.2, hcont.symm, hsize.symm⟩

theorem ftagInitstr_toStr (hmaj : ftag.majorversion = ftagCurrentMajorversion)
    (hmin : ftag.minorversion = ftagCurrentMinorversion) (hctag : '|' ∉ ftag.ctag)
    (hsid : '|' ∉ ftag.streamid) (h : ftag.Representable) (href : ftag.ReftreeNonneg) (dest : Ftag) :
    ftagInitstr dest ftag.toStr = some ftag := by
  have hmajorval : Prints (decimal ftag.majorversion) ftag.majorversion :=
    prints_decimal (by rw [hmaj]; decide)
  have hminorval : Prints (padded 3 ftag.minorversion) ftag.minorversion :=
    prints_padded (by rw [hmin]; decide)
  have hver : ∀ rest, parseVersion (ftag.versionStanza ++ rest) = some rest := by
    intro rest
    simp only [parseVersion, Ftag.versionStanza, append_assoc, cons_append,
      nil_append, skipHeader_append, Option.bind_eq_bind, Option.bind_some]
    rw [versionNumber_append hmajorval (by rw [hmaj]; decide) (by decide), Option.bind_some]
    rw [versionNumber_append hminorval (by rw [hmin]; decide) (by decide), Option.bind_some]
    simp [hmaj, hmin]
  have hstr : ∀ rest, parseStream (ftag.streamStanza ++ rest) dest =
      some ({ dest with
        majorversion := ftag.majorversion, minorversion := ftag.minorversion, ctag := ftag.ctag
        streamid := ftag.streamid, objfiles := ftag.objfiles, objsize := ftag.objsize }, rest) := by
    intro rest
    simp only [parseStream, Ftag.streamStanza, append_assoc, cons_append,
      nil_append, skipHeader_append, Option.bind_eq_bind, Option.bind_some,
      barField_append hctag, barField_append hsid]
    rw [parseValues_stream h _ _ _ le_rfl, Option.bind_some, hmaj, hmin]
    rfl
  simp only [ftagInitstr, Ftag.toStr, hver, hstr, parseStanza_reftree h href,
    parseStanza_position h, Option.bind_eq_bind, Option.bind_some]
  simp only [parseData, Ftag.contentStanza, skipHeader_append, Option.bind_eq_bind,
    Option.bind_some]
  rw [parseContent_values h _ _ le_rfl, Option.bind_some]
  rfl

/-- The FTAG round trip: whatever the struct held before, it holds the printed tag. -/
theorem ftagInitstr_ftagTostr (hmajor : ftag.majorversion = ftagCurrentMajorversion)
    (hminor : ftag.minorversion = ftagCurrentMinorversion) (hctag : '|' ∉ ftag.ctag)
    (hstreamid : '|' ∉ ftag.streamid) (h : ftag.NonNegative) :
    ∃ size, ∀ len, size < len → ∃ str, ftagTostr ftag len = some (str, size) ∧
      ∀ dest, ∃ parsed, ftagInitstr dest str = some parsed ∧ ftagCmp ftag parsed = false := by
  refine ⟨ftag.toStr.length, fun len hlen => ⟨ftag.toStr, ftagTostr_of_lt hmajor hminor hlen,
    fun dest => ⟨ftag, ftagInitstr_toStr hmajor hminor hctag hstreamid
      h.toRepresentable h.toReftreeNonneg dest, ?_⟩⟩⟩
  simp [ftagCmp]

/-! ## What the parser accepts -/

theorem skipHeader_eq_some (h : skipHeader header s = some rest) : s = header ++ rest := by
  unfold skipHeader at h
  split at h
  · rename_i hpre
    obtain ⟨t, rfl⟩ := List.isPrefixOf_iff_prefix.1 hpre
    simpa using h
  · cases h

theorem barField_eq_some {field : List Char} (h : barField s = some (field, rest)) :
    s = field ++ '|' :: rest ∧ '|' ∉ field := by
  unfold barField at h
  have hspl := takeWhile_append_dropWhile (p := fun c => decide (c ≠ '|')) (l := s)
  cases hdrop : s.dropWhile fun c => decide (c ≠ '|') with
  | nil =>
    rw [hdrop] at h
    cases h
  | cons c tail =>
    rw [hdrop] at h hspl
    obtain ⟨rfl, rfl⟩ := Prod.mk.inj (Option.some.inj h)
    have hbar : c = '|' := by
      have hne : s.dropWhile (fun c => decide (c ≠ '|')) ≠ [] := by
        rw [hdrop]
        exact cons_ne_nil _ _
      have := head_dropWhile_not _ hne
      simp only [hdrop, head_cons] at this
      simpa using this
    subst hbar
    refine ⟨hspl.symm, fun hmem => ?_⟩
    simpa using List.all_eq_true.1 all_takeWhile _ hmem

/-- What the values of a string leave alone, and what they cannot break. -/
structure Ftag.Keeps (base ftag : Ftag) : Prop where
  majorversion : ftag.majorversion = base.majorversion
  minorversion : ftag.minorversion = base.minorversion
  ctag : ftag.ctag = base.ctag
  streamid : ftag.streamid = base.streamid
  representable : base.Representable → ftag.Representable
  reftree : base.ReftreeNonneg → ftag.ReftreeNonneg

theorem Ftag.Keeps.refl (ftag : Ftag) : ftag.Keeps ftag := ⟨rfl, rfl, rfl, rfl, id, id⟩

theorem Ftag.Keeps.trans {a b c : Ftag} (hab : a.Keeps b) (hbc : b.Keeps c) : a.Keeps c where
  majorversion := hbc.majorversion.trans hab.majorversion
  minorversion := hbc.minorversion.trans hab.minorversion
  ctag := hbc.ctag.trans hab.ctag
  streamid := hbc.streamid.trans hab.streamid
  representable h := hbc.representable (hab.representable h)
  reftree h := hbc.reftree (hab.reftree h)

theorem isInt_toInt (n : Nat) : IsInt (toInt n) := by
  have hmod : ((2 ^ 32 : Nat) : Int) = 4294967296 := by decide
  unfold toInt
  rw [Int.bmod_def, hmod]
  constructor <;> split <;> omega

theorem isInt_of_le {n : Nat} (h : ¬ n > intMax) : IsInt n := by
  have hmax : intMax = 2147483647 := by decide
  constructor <;> omega

def StoreKeeps (store : Char → Nat → Ftag → Option Ftag) : Prop :=
  ∀ {tag n base ftag}, n ≤ ullongMax → store tag n base = some ftag → base.Keeps ftag

theorem storeStream_keeps : StoreKeeps storeStream := by
  intro tag n base ftag hn h
  unfold storeStream at h
  split at h
  · cases h
    exact ⟨rfl, rfl, rfl, rfl, fun hrep => { hrep with objfiles := hn }, fun href => { href with }⟩
  · cases h
    exact ⟨rfl, rfl, rfl, rfl, fun hrep => { hrep with objsize := hn }, fun href => { href with }⟩
  · cases h

theorem storeReftree_keeps : StoreKeeps storeReftree := by
  intro tag n base ftag _ h
  unfold storeReftree at h
  split at h
  · cases h
  rename_i hle
  have hint := isInt_of_le hle
  have hnonneg : (0 : Int) ≤ n := by omega
  split at h
  · cases h
    exact ⟨rfl, rfl, rfl, rfl, fun hrep => { hrep with refbreadth := hint },
      fun href => { href with refbreadth_nonneg := hnonneg }⟩
  · cases h
    exact ⟨rfl, rfl, rfl, rfl, fun hrep => { hrep with refdepth := hint },
      fun href => { href with refdepth_nonneg := hnonneg }⟩
  · cases h
    exact ⟨rfl, rfl, rfl, rfl, fun hrep => { hrep with refdigits := hint },
      fun href => { href with refdigits_nonneg := hnonneg }⟩
  · cases h

theorem storePosition_keeps : StoreKeeps storePosition := by
  intro tag n base ftag hn h
  unfold storePosition at h
  split at h
  · cases h
    exact ⟨rfl, rfl, rfl, rfl, fun hrep => { hrep with fileno := hn }, fun href => { href with }⟩
  · cases h
    exact ⟨rfl, rfl, rfl, rfl, fun hrep => { hrep with objno := hn }, fun href => { href with }⟩
  · cases h
    exact ⟨rfl, rfl, rfl, rfl, fun hrep => { hrep with offset := hn }, fun href => { href with }⟩
  · split at h
    · cases h
      exact ⟨rfl, rfl, rfl, rfl, fun hrep => { hrep with }, fun href => { href with }⟩
    · split at h
      · cases h
        exact ⟨rfl, rfl, rfl, rfl, fun hrep => { hrep with }, fun href => { href with }⟩
      · cases h
  · cases h

theorem Ftag.keeps_int (base : Ftag) (h : IsInt n) :
    base.Keeps { base with protection := { base.protection with N := n } } ∧
      base.Keeps { base with protection := { base.protection with E := n } } ∧
      base.Keeps { base with protection := { base.protection with O := n } } := by
  refine ⟨?_, ?_, ?_⟩
  · exact ⟨rfl, rfl, rfl, rfl, fun hrep => { hrep with N := h }, fun href => { href with }⟩
  · exact ⟨rfl, rfl, rfl, rfl, fun hrep => { hrep with E := h }, fun href => { href with }⟩
  · exact ⟨rfl, rfl, rfl, rfl, fun hrep => { hrep with O := h }, fun href => { href with }⟩

theorem storeContent_keeps : StoreKeeps storeContent := by
  intro tag n base ftag hn h
  have hint := base.keeps_int (isInt_toInt n)
  unfold storeContent at h
  split at h
  · obtain rfl := Option.some.inj h
    exact hint.1
  · obtain rfl := Option.some.inj h
    exact hint.2.1
  · obtain rfl := Option.some.inj h
    exact hint.2.2
  · obtain rfl := Option.some.inj h
    exact ⟨rfl, rfl, rfl, rfl, fun hrep => { hrep with partsz := hn }, fun href => { href with }⟩
  · obtain rfl := Option.some.inj h
    exact ⟨rfl, rfl, rfl, rfl, fun hrep => { hrep with bytes := hn }, fun href => { href with }⟩
  · obtain rfl := Option.some.inj h
    exact ⟨rfl, rfl, rfl, rfl, fun hrep => { hrep with availbytes := hn },
      fun href => { href with }⟩
  · obtain rfl := Option.some.inj h
    exact ⟨rfl, rfl, rfl, rfl, fun hrep => { hrep with recoverybytes := hn },
      fun href => { href with }⟩
  · cases h

theorem parseValues_invariant {σ : Type} {store : Char → Nat → σ → Option σ} {P : σ → Prop}
    (hstore : ∀ tag n state state', n ≤ ullongMax → P state → store tag n state = some state' →
      P state') (fuel : Nat) :
    ∀ {s : List Char} {state : σ} {found : Nat} {result : σ × Nat × List Char},
      P state → parseValues sep store fuel s state found = some result → P result.1 := by
  induction fuel with
  | zero =>
    intro s state found result hP h
    cases s with
    | nil =>
      cases h
      exact hP
    | cons tag rest => cases h
  | succ fuel ih =>
    intro s state found result hP h
    cases s with
    | nil =>
      cases h
      exact hP
    | cons tag rest =>
      rw [parseValues] at h
      obtain ⟨state', hnext, h⟩ := Option.bind_eq_some_iff.1 h
      have hP' := hstore _ _ _ _ (strtoull_le rest) hP hnext
      split at h
      · cases h
      · split at h
        · exact ih hP' h
        · split at h
          · cases h
            exact hP'
          · cases h

theorem parseValues_keeps (hstore : StoreKeeps store) {fuel found : Nat} {result : Ftag × Nat × List Char}
    (h : parseValues sep store fuel s base found = some result) : base.Keeps result.1 :=
  parseValues_invariant (fun _ _ _ _ hn hkeeps hnext => hkeeps.trans (hstore hn hnext)) fuel
    (.refl base) h

theorem parseStanza_keeps (hstore : StoreKeeps store) {expected : Nat}
    (h : parseStanza header store expected s base = some (ftag, rest)) : base.Keeps ftag := by
  unfold parseStanza at h
  simp only [Option.bind_eq_bind, Option.bind_eq_some_iff] at h
  obtain ⟨t, -, result, hvals, h⟩ := h
  split at h
  · cases h
    exact parseValues_keeps hstore hvals
  · cases h

theorem parseContentValue_keeps {content content' : Content}
    (h : parseContentValue content s = some (content', rest)) : content.ftag.Keeps content'.ftag := by
  have hstate : ∀ {data : DataState}, content.setState data = some content' →
      content.ftag.Keeps content'.ftag := by
    intro data hset
    unfold Content.setState at hset
    split at hset
    · cases hset
    · cases hset
      exact ⟨rfl, rfl, rfl, rfl, fun hrep => { hrep with }, fun href => { href with }⟩
  have hperms : ∀ {writeable readable : Bool}, content.setPerms writeable readable = some content' →
      content.ftag.Keeps content'.ftag := by
    intro writeable readable hset
    unfold Content.setPerms at hset
    split at hset
    · cases hset
    · cases hset
      exact ⟨rfl, rfl, rfl, rfl, fun hrep => { hrep with }, fun href => { href with }⟩
  unfold parseContentValue at h
  split at h
  case h_10 =>
    obtain ⟨ftag, hstore, h⟩ := Option.map_eq_some_iff.1 h
    cases h
    exact storeContent_keeps (strtoull_le _) hstore
  case h_11 => cases h
  all_goals
    obtain ⟨updated, hset, h⟩ := Option.map_eq_some_iff.1 h
    cases h
    first
      | exact hstate hset
      | exact hperms hset

theorem parseContent_keeps (fuel : Nat) :
    ∀ {s rest : List Char} {content content' : Content},
      parseContent fuel s content = some (content', rest) → content.ftag.Keeps content'.ftag := by
  induction fuel with
  | zero =>
    intro s rest content content' h
    cases s with
    | nil =>
      cases h
      exact .refl _
    | cons c s => cases h
  | succ fuel ih =>
    intro s rest content content' h
    cases s with
    | nil =>
      cases h
      exact .refl _
    | cons c s =>
      rw [parseContent] at h
      obtain ⟨⟨next, parse⟩, hval, h⟩ := Option.bind_eq_some_iff.1 h
      have hkeeps := parseContentValue_keeps hval
      split at h
      · rename_i heq
        cases heq
        cases h
        exact hkeeps
      · rename_i heq
        cases heq
        exact hkeeps.trans (ih h)
      · cases h

theorem versionNumber_suffix {stop : Char} {n : Nat} (h : versionNumber stop s = some (n, rest)) :
    rest <:+ s := by
  unfold versionNumber at h
  have hsuf := strtoull_suffix s
  split at h
  · rename_i hval
    rw [hval] at hsuf
    split at h
    · cases h
    · cases h
      exact (suffix_cons ..).trans hsuf
  · cases h

theorem parseVersion_suffix (h : parseVersion s = some rest) : rest <:+ s := by
  simp only [parseVersion, Option.bind_eq_bind, Option.bind_eq_some_iff] at h
  obtain ⟨s₁, hskip, ⟨major, s₂⟩, hmaj, ⟨minor, s₃⟩, hmin, h⟩ := h
  obtain rfl := skipHeader_eq_some hskip
  dsimp only at h hmin
  split at h
  · cases h
    exact ((versionNumber_suffix hmin).trans (versionNumber_suffix hmaj)).trans
      (suffix_append ..)
  · cases h

theorem parseStream_eq_some (h : parseStream s dest = some (ftag, rest)) :
    ∃ ctag streamid, (∃ tail, s = streaminfoHeader ++ (ctag ++ '|' :: (streamid ++ '|' :: tail))) ∧
      '|' ∉ ctag ∧ '|' ∉ streamid ∧
      Ftag.Keeps { dest with
        majorversion := ftagCurrentMajorversion, minorversion := ftagCurrentMinorversion
        ctag := ctag, streamid := streamid } ftag := by
  simp only [parseStream, Option.bind_eq_bind, Option.bind_eq_some_iff] at h
  obtain ⟨s₁, hskip, ⟨ctag, s₂⟩, hctag, ⟨streamid, s₃⟩, hsid, result, hvals, h⟩ := h
  obtain rfl := skipHeader_eq_some hskip
  obtain ⟨rfl, hnobar⟩ := barField_eq_some hctag
  obtain ⟨rfl, hnobar'⟩ := barField_eq_some hsid
  split at h
  · cases h
    exact ⟨ctag, streamid, ⟨_, rfl⟩, hnobar, hnobar', parseValues_keeps storeStream_keeps hvals⟩
  · cases h

theorem parseData_keeps (h : parseData s base = some ftag) : base.Keeps ftag := by
  simp only [parseData, Option.bind_eq_bind, Option.bind_eq_some_iff] at h
  obtain ⟨s₁, -, ⟨content, s₂⟩, hcont, h⟩ := h
  have hstate : base.Keeps
      { base with state := { data := .init, writeable := false, readable := false } } :=
    ⟨rfl, rfl, rfl, rfl, fun hrep => { hrep with }, fun href => { href with }⟩
  have hkeeps := hstate.trans (parseContent_keeps _ hcont)
  split at h
  · cases h
    exact hkeeps
  · cases h

/-- A string that is accepted gives a tag of the current version, whose strings are pieces of it and
free of the separator; values of the C types stay so. -/
structure Ftag.Accepted (dest ftag : Ftag) (str : List Char) : Prop where
  majorversion : ftag.majorversion = ftagCurrentMajorversion
  minorversion : ftag.minorversion = ftagCurrentMinorversion
  ctag : '|' ∉ ftag.ctag ∧ ∀ c ∈ ftag.ctag, c ∈ str
  streamid : '|' ∉ ftag.streamid ∧ ∀ c ∈ ftag.streamid, c ∈ str
  representable : dest.Representable → ftag.Representable
  reftree : dest.ReftreeNonneg → ftag.ReftreeNonneg

theorem ftagInitstr_accepted (h : ftagInitstr dest str = some ftag) : dest.Accepted ftag str := by
  simp only [ftagInitstr, Option.bind_eq_bind, Option.bind_eq_some_iff] at h
  obtain ⟨s, hver, ⟨ftag₁, s₁⟩, hstr, ⟨ftag₂, s₂⟩, hreftree, ⟨ftag₃, s₃⟩, hpos,
    hdata⟩ := h
  have hsuf := parseVersion_suffix hver
  obtain ⟨ctag, streamid, ⟨tail, rfl⟩, hctag, hsid, hkeeps₁⟩ := parseStream_eq_some hstr
  have hkeeps := ((hkeeps₁.trans (parseStanza_keeps storeReftree_keeps hreftree)).trans
    (parseStanza_keeps storePosition_keeps hpos)).trans (parseData_keeps hdata)
  refine ⟨hkeeps.majorversion, hkeeps.minorversion, ?_, ?_, fun hrep => hkeeps.representable ?_,
    fun href => hkeeps.reftree ?_⟩
  · rw [hkeeps.ctag]
    exact ⟨hctag, fun c hc => hsuf.subset (by simp [hc])⟩
  · rw [hkeeps.streamid]
    exact ⟨hsid, fun c hc => hsuf.subset (by simp [hc])⟩
  · exact { hrep with }
  · exact { href with }

theorem bar_mem_of_ftagInitstr (h : ftagInitstr dest str = some ftag) :
    '|' ∈ str := by
  simp only [ftagInitstr, Option.bind_eq_bind, Option.bind_eq_some_iff] at h
  obtain ⟨s, hver, ⟨ftag₁, s₁⟩, hstr, -⟩ := h
  obtain ⟨ctag, streamid, ⟨tail, rfl⟩, -⟩ := parseStream_eq_some hstr
  apply (parseVersion_suffix hver).subset
  simp

theorem sampleFtag_nonNegative : (sampleFtag 1 2 true).NonNegative := by
  constructor
  · constructor <;> decide
  · constructor <;> decide
  all_goals decide

theorem sampleFtag_roundTrip :
    ∃ size, ∀ len, size < len → ∃ str, ftagTostr (sampleFtag 1 2 true) len = some (str, size) ∧
      ∀ dest, ∃ parsed, ftagInitstr dest str = some parsed ∧
        ftagCmp (sampleFtag 1 2 true) parsed = false :=
  ftagInitstr_ftagTostr rfl rfl (by decide) (by decide) sampleFtag_nonNegative

end Marfs.Tagging
