import Marfs.Tagging.FtagString

/-!
# The values an FTAG string sets

The parser of FTAG strings counts the values of a stanza, but it does not look which ones they are:
a value that is named twice counts twice, and one that is not named keeps what the struct held
before.  So a string determines its FTAG exactly if each of its stanzas names all of its values.
-/

namespace Marfs.Tagging

open Cstring

/-! ## Numeric fields -/

/-- The numeric fields of an FTAG that the stanzas name. -/
inductive Field where
  | objfiles
  | objsize
  | refbreadth
  | refdepth
  | refdigits
  | fileno
  | objno
  | offset
  | endofstream
  | N
  | E
  | O
  | partsz
  | bytes
  | availbytes
  | recoverybytes
  deriving DecidableEq, Repr

def Ftag.value (ftag : Ftag) : Field → Int
  | .objfiles => ftag.objfiles
  | .objsize => ftag.objsize
  | .refbreadth => ftag.refbreadth
  | .refdepth => ftag.refdepth
  | .refdigits => ftag.refdigits
  | .fileno => ftag.fileno
  | .objno => ftag.objno
  | .offset => ftag.offset
  | .endofstream => ftag.endofstream.toNat
  | .N => ftag.protection.N
  | .E => ftag.protection.E
  | .O => ftag.protection.O
  | .partsz => ftag.protection.partsz
  | .bytes => ftag.bytes
  | .availbytes => ftag.availbytes
  | .recoverybytes => ftag.recoverybytes

def streamField : Char → Option Field
  | 'F' => some .objfiles
  | 'D' => some .objsize
  | _ => none

def reftreeField : Char → Option Field
  | 'B' => some .refbreadth
  | 'D' => some .refdepth
  | 'd' => some .refdigits
  | _ => none

def positionField : Char → Option Field
  | 'f' => some .fileno
  | 'o' => some .objno
  | '@' => some .offset
  | 'e' => some .endofstream
  | _ => none

def contentField : Char → Option Field
  | 'n' => some .N
  | 'e' => some .E
  | 'o' => some .O
  | 'p' => some .partsz
  | 'b' => some .bytes
  | 'a' => some .availbytes
  | 'r' => some .recoverybytes
  | _ => none

/-- The versions of two tags and the names of their streams agree. -/
structure SameStream (ftag₁ ftag₂ : Ftag) : Prop where
  majorversion : ftag₁.majorversion = ftag₂.majorversion
  minorversion : ftag₁.minorversion = ftag₂.minorversion
  ctag : ftag₁.ctag = ftag₂.ctag
  streamid : ftag₁.streamid = ftag₂.streamid

theorem ftag_eq_iff {ftag₁ ftag₂ : Ftag} (hstr : SameStream ftag₁ ftag₂)
    (hstate : ftag₁.state = ftag₂.state) :
    ftag₁ = ftag₂ ↔ ∀ field, ftag₁.value field = ftag₂.value field := by
  constructor
  · intro h field
    rw [h]
  · intro h
    obtain ⟨h₁, h₂, h₃, h₄⟩ := hstr
    have hobjfiles := h .objfiles
    have hsize := h .objsize
    have hrefbreadth := h .refbreadth
    have hrefdepth := h .refdepth
    have hrefdigits := h .refdigits
    have hfno := h .fileno
    have hobj := h .objno
    have hoff := h .offset
    have hendofstream := h .endofstream
    have hN := h .N
    have hE := h .E
    have hO := h .O
    have hpsz := h .partsz
    have hbytes := h .bytes
    have havailbytes := h .availbytes
    have hrecoverybytes := h .recoverybytes
    cases ftag₁ with
    | mk _ _ _ _ _ _ _ _ _ _ _ _ endofstream₁ protection₁ =>
      cases ftag₂ with
      | mk _ _ _ _ _ _ _ _ _ _ _ _ endofstream₂ protection₂ =>
        cases protection₁
        cases protection₂
        simp only [Ftag.value, Nat.cast_inj] at *
        have heos : endofstream₁ = endofstream₂ := by
          cases endofstream₁ <;> cases endofstream₂ <;> simp_all
        simp_all

/-! ## What one value sets -/

/-- Two tags in which a store of a value resulted, from any tags: they agree in the field that was
named, and elsewhere as the tags did before. -/
structure Written (named : Option Field) (ftag₁ ftag₂ ftag₁' ftag₂' : Ftag) : Prop where
  value_iff : ∀ field, ftag₁'.value field = ftag₂'.value field ↔
    (named = some field ∨ ftag₁.value field = ftag₂.value field)
  stream : SameStream ftag₁ ftag₂ → SameStream ftag₁' ftag₂'
  state : ftag₁.state = ftag₂.state → ftag₁'.state = ftag₂'.state

def StoreSets (store : Char → Nat → Ftag → Option Ftag) (fieldOf : Char → Option Field) : Prop :=
  ∀ {tag n ftag₁ ftag₁'}, store tag n ftag₁ = some ftag₁' → ∀ ftag₂, ∃ ftag₂',
    store tag n ftag₂ = some ftag₂' ∧ Written (fieldOf tag) ftag₁ ftag₂ ftag₁' ftag₂'

theorem storeStream_sets : StoreSets storeStream streamField := by
  intro tag n ftag₁ ftag₁' h ftag₂
  unfold storeStream at h
  split at h <;> cases h
  all_goals
    refine ⟨_, rfl, ?_, fun hstr => { hstr with }, id⟩
    intro field
    cases field <;> simp [Ftag.value, streamField]

theorem storeReftree_sets : StoreSets storeReftree reftreeField := by
  intro tag n ftag₁ ftag₁' h ftag₂
  unfold storeReftree at h ⊢
  split at h
  · cases h
  · next hle =>
    simp only [hle, if_false]
    split at h <;> cases h
    all_goals
      refine ⟨_, rfl, ?_, fun hstr => { hstr with }, id⟩
      intro field
      cases field <;> simp [Ftag.value, reftreeField]

theorem storePosition_sets : StoreSets storePosition positionField := by
  intro tag n ftag₁ ftag₁' h ftag₂
  unfold storePosition at h
  split at h
  · cases h
    refine ⟨_, rfl, ?_, fun hstr => { hstr with }, id⟩
    intro field
    cases field <;> simp [Ftag.value, positionField]
  · cases h
    refine ⟨_, rfl, ?_, fun hstr => { hstr with }, id⟩
    intro field
    cases field <;> simp [Ftag.value, positionField]
  · cases h
    refine ⟨_, rfl, ?_, fun hstr => { hstr with }, id⟩
    intro field
    cases field <;> simp [Ftag.value, positionField]
  · -- the end of a stream is told by zero or one
    split at h
    · next hone =>
      cases h
      subst hone
      refine ⟨_, storePosition_endofstream true ftag₂, ?_, fun hstr => { hstr with }, id⟩
      intro field
      cases field <;> simp [Ftag.value, positionField]
    · split at h
      · next hzero =>
        cases h
        subst hzero
        refine ⟨_, storePosition_endofstream false ftag₂, ?_, fun hstr => { hstr with }, id⟩
        intro field
        cases field <;> simp [Ftag.value, positionField]
      · cases h
  · cases h

theorem written_protection (value : Int) (ftag₁ ftag₂ : Ftag) :
    Written (contentField 'n') ftag₁ ftag₂
        { ftag₁ with protection := { ftag₁.protection with N := value } }
        { ftag₂ with protection := { ftag₂.protection with N := value } } ∧
      Written (contentField 'e') ftag₁ ftag₂
        { ftag₁ with protection := { ftag₁.protection with E := value } }
        { ftag₂ with protection := { ftag₂.protection with E := value } } ∧
      Written (contentField 'o') ftag₁ ftag₂
        { ftag₁ with protection := { ftag₁.protection with O := value } }
        { ftag₂ with protection := { ftag₂.protection with O := value } } := by
  refine ⟨⟨?_, fun h => { h with }, id⟩, ⟨?_, fun h => { h with }, id⟩, ⟨?_, fun h => { h with }, id⟩⟩
  all_goals
    intro field
    cases field <;> simp [Ftag.value, contentField]

theorem storeContent_sets : StoreSets storeContent contentField := by
  intro tag n ftag₁ ftag₁' h ftag₂
  unfold storeContent at h
  split at h <;> cases h
  case h_1 => exact ⟨_, rfl, (written_protection (toInt n) ftag₁ ftag₂).1⟩
  case h_2 => exact ⟨_, rfl, (written_protection (toInt n) ftag₁ ftag₂).2.1⟩
  case h_3 => exact ⟨_, rfl, (written_protection (toInt n) ftag₁ ftag₂).2.2⟩
  all_goals
    refine ⟨_, rfl, ?_, fun hstr => { hstr with }, id⟩
    intro field
    cases field <;> simp [Ftag.value, contentField]

/-! ## What a stanza sets -/

def valueNames (sep : Char) : Nat → List Char → List Char × List Char
  | 0, s => ([], s)
  | _, [] => ([], [])
  | fuel + 1, tag :: rest =>
    match (strtoull rest).2 with
    | [] => ([tag], [])
    | c :: parse =>
      if c = sep then (tag :: (valueNames sep fuel parse).1, (valueNames sep fuel parse).2)
      else ([tag], parse)

structure AllWritten (fieldOf : Char → Option Field) (names : List Char)
    (ftag₁ ftag₂ ftag₁' ftag₂' : Ftag) : Prop where
  value_iff : ∀ field, ftag₁'.value field = ftag₂'.value field ↔
    ((∃ name ∈ names, fieldOf name = some field) ∨ ftag₁.value field = ftag₂.value field)
  stream : SameStream ftag₁ ftag₂ → SameStream ftag₁' ftag₂'

section Stanza

variable {fieldOf : Char → Option Field} {ftag₁ ftag₂ ftag₁' ftag₂' ftag₁'' ftag₂'' : Ftag}

theorem AllWritten.nil : AllWritten fieldOf [] ftag₁ ftag₂ ftag₁ ftag₂ where
  value_iff field := by simp
  stream := id

/-- One name more. -/
theorem AllWritten.cons {tag : Char} {names : List Char}
    (hwrit : Written (fieldOf tag) ftag₁ ftag₂ ftag₁' ftag₂')
    (hall : AllWritten fieldOf names ftag₁' ftag₂' ftag₁'' ftag₂'') :
    AllWritten fieldOf (tag :: names) ftag₁ ftag₂ ftag₁'' ftag₂'' where
  value_iff field := by
    rw [hall.value_iff, hwrit.value_iff, List.exists_mem_cons_iff, or_left_comm, or_assoc]
  stream := hall.stream ∘ hwrit.stream

theorem parseValues_sets {sep : Char} {store : Char → Nat → Ftag → Option Ftag}
    (hstore : StoreSets store fieldOf) {fuel found found' : Nat} {s rest : List Char}
    (h : parseValues sep store fuel s ftag₁ found = some (ftag₁', found', rest)) (ftag₂ : Ftag) :
    ∃ ftag₂', parseValues sep store fuel s ftag₂ found = some (ftag₂', found', rest) ∧
      (valueNames sep fuel s).2 = rest ∧
      AllWritten fieldOf (valueNames sep fuel s).1 ftag₁ ftag₂ ftag₁' ftag₂' := by
  induction fuel generalizing s ftag₁ ftag₂ found with
  | zero =>
    cases s with
    | nil =>
      cases h
      exact ⟨ftag₂, rfl, rfl, .nil⟩
    | cons tag s => cases h
  | succ fuel ih =>
    cases s with
    | nil =>
      cases h
      exact ⟨ftag₂, rfl, rfl, .nil⟩
    | cons tag s =>
      rw [parseValues] at h
      rw [valueNames]
      rcases hread : strtoull s with ⟨val, endptr⟩
      simp only [hread] at h ⊢
      obtain ⟨stored₁, hsto₁, h⟩ := Option.bind_eq_some_iff.1 h
      obtain ⟨stored₂, hsto₂, hwrit⟩ := hstore hsto₁ ftag₂
      cases endptr with
      | nil => cases h
      | cons c parse =>
        dsimp only at h ⊢
        by_cases hsep : c = sep
        · rw [if_pos hsep] at h
          obtain ⟨ftag₂', hprs, hrest, hall⟩ := ih h stored₂
          refine ⟨ftag₂', ?_, ?_, ?_⟩
          · rw [parseValues]
            simp only [hread, hsto₂, Option.bind_some, if_pos hsep, hprs]
          · rw [if_pos hsep]
            exact hrest
          · rw [if_pos hsep]
            exact .cons hwrit hall
        · rw [if_neg hsep] at h
          split at h
          · next hclose =>
            cases h
            refine ⟨stored₂, ?_, ?_, ?_⟩
            · rw [parseValues]
              simp only [hread, hsto₂, Option.bind_some, if_neg hsep, if_pos hclose]
            · rw [if_neg hsep]
            · rw [if_neg hsep]
              exact .cons hwrit .nil
          · cases h

end Stanza

/-! ## What the data content sets -/

def contentName : List Char → Option Char × List Char
  | 'I' :: 'N' :: 'I' :: 'T' :: endptr => (none, endptr)
  | 'S' :: 'I' :: 'Z' :: 'E' :: 'D' :: endptr => (none, endptr)
  | 'F' :: 'I' :: 'N' :: endptr => (none, endptr)
  | 'C' :: 'O' :: 'M' :: 'P' :: endptr => (none, endptr)
  | 'C' :: 'A' :: 'C' :: 'H' :: 'E' :: 'D' :: endptr => (none, endptr)
  | 'R' :: 'O' :: endptr => (none, endptr)
  | 'W' :: 'O' :: endptr => (none, endptr)
  | 'R' :: 'W' :: endptr => (none, endptr)
  | 'N' :: 'O' :: endptr => (none, endptr)
  | tag :: rest => (some tag, (strtoull rest).2)
  | [] => (none, [])

def contentNames : Nat → List Char → List Char
  | 0, _ => []
  | _, [] => []
  | fuel + 1, c :: rest =>
    (contentName (c :: rest)).1.toList ++
      match (contentName (c :: rest)).2 with
      | '-' :: parse => contentNames fuel parse
      | _ => []

structure SameFound (content₁ content₂ : Content) : Prop where
  found : content₁.found = content₂.found
  datastate : content₁.datastate = content₂.datastate
  dataperms : content₁.dataperms = content₂.dataperms
  stream : SameStream content₁.ftag content₂.ftag
  state : content₁.ftag.state = content₂.ftag.state

structure ContentSet (name : Option Char) (content₁ content₂ content₁' content₂' : Content) :
    Prop where
  same : SameFound content₁' content₂'
  value_iff : ∀ field, content₁'.ftag.value field = content₂'.ftag.value field ↔
    ((∃ tag ∈ name, contentField tag = some field) ∨
      content₁.ftag.value field = content₂.ftag.value field)

section Content

variable {content₁ content₂ content₁' : Content}

theorem setState_sets (hsame : SameFound content₁ content₂) {data : DataState}
    (h : content₁.setState data = some content₁') :
    ∃ content₂', content₂.setState data = some content₂' ∧
      ContentSet none content₁ content₂ content₁' content₂' := by
  unfold Content.setState at h ⊢
  rw [← hsame.datastate]
  split at h
  · cases h
  · next hfound =>
    cases h
    refine ⟨_, if_neg hfound, ⟨hsame.found, rfl, hsame.dataperms, { hsame.stream with },
      by rw [hsame.state]⟩, ?_⟩
    intro field
    cases field <;> simp [Ftag.value]

theorem setPerms_sets (hsame : SameFound content₁ content₂) {writeable readable : Bool}
    (h : content₁.setPerms writeable readable = some content₁') :
    ∃ content₂', content₂.setPerms writeable readable = some content₂' ∧
      ContentSet none content₁ content₂ content₁' content₂' := by
  unfold Content.setPerms at h ⊢
  rw [← hsame.dataperms]
  split at h
  · cases h
  · next hfound =>
    cases h
    refine ⟨_, if_neg hfound, ⟨hsame.found, hsame.datastate, rfl, { hsame.stream with },
      by rw [hsame.state]⟩, ?_⟩
    intro field
    cases field <;> simp [Ftag.value]

variable {rest endptr s : List Char}

theorem word_sets (set : Content → Option Content)
    (hset : ∀ {stored}, set content₁ = some stored → ∃ content₂', set content₂ = some content₂' ∧
      ContentSet none content₁ content₂ stored content₂')
    (h : (set content₁).map (·, rest) = some (content₁', endptr)) :
    ∃ content₂', (set content₂).map (·, rest) = some (content₂', endptr) ∧ rest = endptr ∧
      ContentSet none content₁ content₂ content₁' content₂' := by
  obtain ⟨stored, hsto, heq⟩ := Option.map_eq_some_iff.1 h
  cases heq
  obtain ⟨content₂', hset₂, hsets⟩ := hset hsto
  exact ⟨content₂', by rw [hset₂]; rfl, rfl, hsets⟩

theorem number_sets (hsame : SameFound content₁ content₂) {tag : Char} {val : Nat}
    (h : ((storeContent tag val content₁.ftag).map fun ftag =>
      ({ content₁ with ftag := ftag, found := content₁.found + 1 }, rest)) =
        some (content₁', endptr)) :
    ∃ content₂', ((storeContent tag val content₂.ftag).map fun ftag =>
        ({ content₂ with ftag := ftag, found := content₂.found + 1 }, rest)) =
          some (content₂', endptr) ∧ rest = endptr ∧
      ContentSet (some tag) content₁ content₂ content₁' content₂' := by
  obtain ⟨stored, hsto, heq⟩ := Option.map_eq_some_iff.1 h
  obtain ⟨rfl, rfl⟩ := Prod.mk.inj heq
  obtain ⟨stored₂, hsto₂, hwrit⟩ := storeContent_sets hsto content₂.ftag
  refine ⟨{ content₂ with ftag := stored₂, found := content₂.found + 1 }, by rw [hsto₂]; rfl,
    rfl, ⟨by rw [hsame.found], hsame.datastate, hsame.dataperms, hwrit.stream hsame.stream,
      hwrit.state hsame.state⟩, ?_⟩
  intro field
  simpa using hwrit.value_iff field

theorem parseContentValue_sets (hsame : SameFound content₁ content₂)
    (h : parseContentValue content₁ s = some (content₁', endptr)) :
    ∃ content₂', parseContentValue content₂ s = some (content₂', endptr) ∧
      (contentName s).2 = endptr ∧
      ContentSet (contentName s).1 content₁ content₂ content₁' content₂' := by
  fun_cases contentName s
  case case10 tag rest _ _ _ _ _ _ _ _ _ =>
    simp only [parseContentValue] at h ⊢
    exact number_sets hsame h
  case case11 => cases h
  case case1 | case2 | case3 | case4 | case5 =>
    exact word_sets (Content.setState · _) (setState_sets hsame) h
  all_goals exact word_sets (Content.setPerms · _ _) (setPerms_sets hsame) h

/-- Two states that the loop over the data content leaves. -/
structure ContentAll (names : List Char) (content₁ content₂ content₁' content₂' : Content) :
    Prop where
  same : SameFound content₁' content₂'
  value_iff : ∀ field, content₁'.ftag.value field = content₂'.ftag.value field ↔
    ((∃ tag ∈ names, contentField tag = some field) ∨
      content₁.ftag.value field = content₂.ftag.value field)

theorem ContentAll.append {name : Option Char} {names : List Char} {content₁'' content₂' content₂'' : Content}
    (hfst : ContentSet name content₁ content₂ content₁' content₂')
    (hoths : ContentAll names content₁' content₂' content₁'' content₂'') :
    ContentAll (name.toList ++ names) content₁ content₂ content₁'' content₂'' where
  same := hoths.same
  value_iff field := by
    rw [hoths.value_iff, hfst.value_iff]
    simp only [List.mem_append, Option.mem_toList, Option.mem_def, or_and_right, exists_or]
    rw [or_left_comm, or_assoc]

theorem parseContent_sets {fuel : Nat} (hsame : SameFound content₁ content₂)
    (h : parseContent fuel s content₁ = some (content₁', rest)) :
    ∃ content₂', parseContent fuel s content₂ = some (content₂', rest) ∧
      ContentAll (contentNames fuel s) content₁ content₂ content₁' content₂' := by
  induction fuel generalizing s content₁ content₂ with
  | zero =>
    cases s with
    | nil =>
      cases h
      exact ⟨content₂, rfl, hsame, fun field => by simp [contentNames]⟩
    | cons c s => cases h
  | succ fuel ih =>
    cases s with
    | nil =>
      cases h
      exact ⟨content₂, rfl, hsame, fun field => by simp [contentNames]⟩
    | cons c s =>
      rw [parseContent] at h
      obtain ⟨⟨stored₁, endptr⟩, hsto₁, h⟩ := Option.bind_eq_some_iff.1 h
      obtain ⟨stored₂, hsto₂, hend, hset⟩ := parseContentValue_sets hsame hsto₁
      rw [parseContent, hsto₂, Option.bind_some, contentNames, hend]
      split at h
      · next heq =>
        obtain ⟨rfl, rfl⟩ := Prod.mk.inj heq
        cases h
        exact ⟨stored₂, rfl, .append hset ⟨hset.same, fun field => by simp⟩⟩
      · next heq =>
        obtain ⟨rfl, rfl⟩ := Prod.mk.inj heq
        obtain ⟨content₂', hprs, hall⟩ := ih hset.same h
        exact ⟨content₂', hprs, .append hset hall⟩
      · cases h

end Content

/-! ## What a string sets -/

/-- The names of the values in the stanzas of a string. -/
structure Names where
  stream : List Char
  reftree : List Char
  position : List Char
  content : List Char

def stanzaNames (header : List Char) (s : List Char) : Option (List Char × List Char) := do
  let s ← skipHeader header s
  some (valueNames '-' s.length s)

def skipStream (s : List Char) : Option (List Char) := do
  let s ← skipHeader streaminfoHeader s
  let (_, s) ← barField s
  let (_, s) ← barField s
  some s

def ftagNames (ftagstr : List Char) : Option Names := do
  let s ← parseVersion ftagstr
  let s ← skipStream s
  let (stream, s) := valueNames '-' s.length s
  let (reftree, s) ← stanzaNames reftreeHeader s
  let (position, s) ← stanzaNames filepositionHeader s
  let s ← skipHeader datacontentHeader s
  some { stream := stream, reftree := reftree, position := position
         content := contentNames s.length s }

def Names.Sets (names : Names) (field : Field) : Prop :=
  (∃ name ∈ names.stream, streamField name = some field) ∨
    (∃ name ∈ names.reftree, reftreeField name = some field) ∨
    (∃ name ∈ names.position, positionField name = some field) ∨
    ∃ name ∈ names.content, contentField name = some field

/-- Each stanza names each of its values. -/
structure Names.Complete (names : Names) : Prop where
  stream : ∀ name ∈ ['F', 'D'], name ∈ names.stream
  reftree : ∀ name ∈ ['B', 'D', 'd'], name ∈ names.reftree
  position : ∀ name ∈ ['f', 'o', '@', 'e'], name ∈ names.position
  content : ∀ name ∈ ['n', 'e', 'o', 'p', 'b', 'a', 'r'], name ∈ names.content

section String

variable {ftag₁ ftag₂ ftag₁' : Ftag} {s rest : List Char}

theorem parseStream_sets (h : parseStream s ftag₁ = some (ftag₁', rest)) (ftag₂ : Ftag) :
    ∃ ftag₂' values, parseStream s ftag₂ = some (ftag₂', rest) ∧ skipStream s = some values ∧
      (valueNames '-' values.length values).2 = rest ∧
      SameStream ftag₁' ftag₂' ∧
      ∀ field, ftag₁'.value field = ftag₂'.value field ↔
        ((∃ name ∈ (valueNames '-' values.length values).1, streamField name = some field) ∨
          ftag₁.value field = ftag₂.value field) := by
  obtain ⟨s₁, hhdr, h⟩ := Option.bind_eq_some_iff.1 h
  obtain ⟨⟨ctag, s₂⟩, hctag, h⟩ := Option.bind_eq_some_iff.1 h
  obtain ⟨⟨streamid, values⟩, hsid, h⟩ := Option.bind_eq_some_iff.1 h
  obtain ⟨⟨stored₁, found, s₃⟩, hvals, h⟩ := Option.bind_eq_some_iff.1 h
  obtain ⟨stored₂, hvals₂, hrest, hall⟩ := parseValues_sets @storeStream_sets hvals
    { ftag₂ with
      majorversion := ftagCurrentMajorversion, minorversion := ftagCurrentMinorversion
      ctag := ctag, streamid := streamid }
  dsimp only at h
  split at h
  · next hfound =>
    cases h
    refine ⟨stored₂, values, ?_, ?_, hrest, hall.stream ⟨rfl, rfl, rfl, rfl⟩, ?_⟩
    · simp only [parseStream, hhdr, hctag, hsid, hvals₂, Option.bind_eq_bind,
        Option.bind_some, hfound, if_true]
    · simp only [skipStream, hhdr, hctag, hsid, Option.bind_eq_bind, Option.bind_some]
    · intro field
      rw [hall.value_iff]
      cases field <;> rfl
  · cases h

theorem parseStanza_sets {header : List Char} {store : Char → Nat → Ftag → Option Ftag}
    {fieldOf : Char → Option Field} (hstore : StoreSets store fieldOf) {expected : Nat}
    (h : parseStanza header store expected s ftag₁ = some (ftag₁', rest)) (ftag₂ : Ftag) :
    ∃ ftag₂' names, parseStanza header store expected s ftag₂ = some (ftag₂', rest) ∧
      stanzaNames header s = some (names, rest) ∧
      AllWritten fieldOf names ftag₁ ftag₂ ftag₁' ftag₂' := by
  obtain ⟨values, hhdr, h⟩ := Option.bind_eq_some_iff.1 h
  obtain ⟨⟨stored₁, found, s'⟩, hvals, h⟩ := Option.bind_eq_some_iff.1 h
  obtain ⟨stored₂, hvals₂, hrest, hall⟩ := parseValues_sets @hstore hvals ftag₂
  dsimp only at h
  split at h
  · next hfound =>
    cases h
    refine ⟨stored₂, (valueNames '-' values.length values).1, ?_, ?_, hall⟩
    · simp only [parseStanza, hhdr, hvals₂, Option.bind_eq_bind, Option.bind_some, hfound,
        if_true]
    · simp only [stanzaNames, hhdr, Option.bind_eq_bind, Option.bind_some, ← hrest]
  · cases h

theorem parseData_sets (h : parseData s ftag₁ = some ftag₁') {ftag₂ : Ftag} (hstr : SameStream ftag₁ ftag₂) :
    ∃ ftag₂' values, parseData s ftag₂ = some ftag₂' ∧
      skipHeader datacontentHeader s = some values ∧
      SameStream ftag₁' ftag₂' ∧ ftag₁'.state = ftag₂'.state ∧
      ∀ field, ftag₁'.value field = ftag₂'.value field ↔
        ((∃ name ∈ contentNames values.length values, contentField name = some field) ∨
          ftag₁.value field = ftag₂.value field) := by
  obtain ⟨values, hhdr, h⟩ := Option.bind_eq_some_iff.1 h
  obtain ⟨⟨content₁, s'⟩, hcont, h⟩ := Option.bind_eq_some_iff.1 h
  have hst : SameFound
      { ftag := { ftag₁ with state := { data := .init, writeable := false, readable := false } }
        found := 0, datastate := false, dataperms := false }
      { ftag := { ftag₂ with state := { data := .init, writeable := false, readable := false } }
        found := 0, datastate := false, dataperms := false } :=
    ⟨rfl, rfl, rfl, { hstr with }, rfl⟩
  obtain ⟨content₂, hcont₂, hall⟩ := parseContent_sets hst hcont
  have hsame := hall.same
  dsimp only at h
  split at h
  · next hfound =>
    cases h
    rw [hsame.found, hsame.datastate, hsame.dataperms] at hfound
    refine ⟨content₂.ftag, values, ?_, hhdr, hsame.stream, hsame.state, ?_⟩
    · simp only [parseData, hhdr, hcont₂, Option.bind_eq_bind, Option.bind_some, hfound,
        if_true]
    · intro field
      rw [hall.value_iff]
      cases field <;> rfl
  · cases h

/-- What a string sets does not depend on the struct it is parsed into, and it is what the stanzas
name, the stream and the state. -/
theorem ftagInitstr_sets (h : ftagInitstr ftag₁ s = some ftag₁') (ftag₂ : Ftag) :
    ∃ ftag₂' names, ftagInitstr ftag₂ s = some ftag₂' ∧ ftagNames s = some names ∧
      SameStream ftag₁' ftag₂' ∧ ftag₁'.state = ftag₂'.state ∧
      ∀ field, ftag₁'.value field = ftag₂'.value field ↔
        (names.Sets field ∨ ftag₁.value field = ftag₂.value field) := by
  obtain ⟨s₁, hver, h⟩ := Option.bind_eq_some_iff.1 h
  obtain ⟨⟨a₁, s₂⟩, hstr, h⟩ := Option.bind_eq_some_iff.1 h
  obtain ⟨⟨b₁, s₃⟩, href, h⟩ := Option.bind_eq_some_iff.1 h
  obtain ⟨⟨c₁, s₄⟩, hpos, hdata⟩ := Option.bind_eq_some_iff.1 h
  obtain ⟨a₂, values, hstr₂, hskip, hrest, hsame, hval⟩ := parseStream_sets hstr ftag₂
  obtain ⟨b₂, reftree, href₂, hnames, hall⟩ :=
    parseStanza_sets @storeReftree_sets href a₂
  obtain ⟨c₂, position, hpos₂, hnames', hall'⟩ :=
    parseStanza_sets @storePosition_sets hpos b₂
  obtain ⟨d₂, content, hdata₂, hhdr, hsame', hstate, hval'⟩ :=
    parseData_sets hdata (hall'.stream (hall.stream hsame))
  refine ⟨d₂, ⟨(valueNames '-' values.length values).1, reftree, position,
    contentNames content.length content⟩, ?_, ?_, hsame', hstate, ?_⟩
  · simp only [ftagInitstr, hver, hstr₂, href₂, hpos₂, hdata₂, Option.bind_eq_bind,
      Option.bind_some]
  · simp only [ftagNames, hver, hskip, hrest, hnames, hnames', hhdr, Option.bind_eq_bind,
      Option.bind_some]
  · intro field
    rw [hval', hall'.value_iff, hall.value_iff, hval, Names.Sets]
    exact iff_of_eq (by ac_rfl)

end String

/-! ## Strings that determine their tag -/

def Names.HasName (names : Names) : Field → Prop
  | .objfiles => 'F' ∈ names.stream
  | .objsize => 'D' ∈ names.stream
  | .refbreadth => 'B' ∈ names.reftree
  | .refdepth => 'D' ∈ names.reftree
  | .refdigits => 'd' ∈ names.reftree
  | .fileno => 'f' ∈ names.position
  | .objno => 'o' ∈ names.position
  | .offset => '@' ∈ names.position
  | .endofstream => 'e' ∈ names.position
  | .N => 'n' ∈ names.content
  | .E => 'e' ∈ names.content
  | .O => 'o' ∈ names.content
  | .partsz => 'p' ∈ names.content
  | .bytes => 'b' ∈ names.content
  | .availbytes => 'a' ∈ names.content
  | .recoverybytes => 'r' ∈ names.content

variable {c : Char} {field : Field}

theorem streamField_eq_some :
    streamField c = some field ↔ c = 'F' ∧ field = .objfiles ∨ c = 'D' ∧ field = .objsize := by
  unfold streamField
  split
  · simp [eq_comm]
  · simp [eq_comm]
  · simp_all

theorem reftreeField_eq_some :
    reftreeField c = some field ↔ c = 'B' ∧ field = .refbreadth ∨ c = 'D' ∧ field = .refdepth ∨
      c = 'd' ∧ field = .refdigits := by
  unfold reftreeField
  split
  · simp [eq_comm]
  · simp [eq_comm]
  · simp [eq_comm]
  · simp_all

theorem positionField_eq_some :
    positionField c = some field ↔ c = 'f' ∧ field = .fileno ∨ c = 'o' ∧ field = .objno ∨
      c = '@' ∧ field = .offset ∨ c = 'e' ∧ field = .endofstream := by
  unfold positionField
  split
  · simp [eq_comm]
  · simp [eq_comm]
  · simp [eq_comm]
  · simp [eq_comm]
  · simp_all

theorem contentField_eq_some :
    contentField c = some field ↔ c = 'n' ∧ field = .N ∨ c = 'e' ∧ field = .E ∨
      c = 'o' ∧ field = .O ∨ c = 'p' ∧ field = .partsz ∨ c = 'b' ∧ field = .bytes ∨
      c = 'a' ∧ field = .availbytes ∨ c = 'r' ∧ field = .recoverybytes := by
  unfold contentField
  split
  · simp [eq_comm]
  · simp [eq_comm]
  · simp [eq_comm]
  · simp [eq_comm]
  · simp [eq_comm]
  · simp [eq_comm]
  · simp [eq_comm]
  · simp_all

theorem sets_iff (names : Names) (field : Field) : names.Sets field ↔ names.HasName field := by
  unfold Names.Sets
  simp only [streamField_eq_some, reftreeField_eq_some, positionField_eq_some,
    contentField_eq_some]
  cases field <;> simp [Names.HasName]

theorem complete_iff (names : Names) : names.Complete ↔ ∀ field, names.Sets field := by
  simp only [sets_iff]
  constructor
  · intro h field
    obtain ⟨hstr, href, hpos, hcont⟩ := h
    simp only [List.forall_mem_cons, List.not_mem_nil, false_imp_iff, implies_true, and_true] at *
    cases field <;> simp_all [Names.HasName]
  · intro h
    refine ⟨?_, ?_, ?_, ?_⟩
    · simpa using ⟨h .objfiles, h .objsize⟩
    · simpa using ⟨h .refbreadth, h .refdepth, h .refdigits⟩
    · simpa using ⟨h .fileno, h .objno, h .offset, h .endofstream⟩
    · simpa using ⟨h .N, h .E, h .O, h .partsz, h .bytes, h .availbytes, h .recoverybytes⟩

def NamesEvery (ftagstr : List Char) : Prop :=
  ∃ names, ftagNames ftagstr = some names ∧ names.Complete

/-- A tag whose fields are all zero, or all one. -/
def uniformFtag (n : Nat) : Ftag :=
  { sampleFtag n n (n ≠ 0) with
    objfiles := n, objsize := n, refbreadth := n, refdepth := n, refdigits := n, offset := n
    protection := { N := n, E := n, O := n, partsz := n }
    bytes := n, availbytes := n, recoverybytes := n }

theorem uniformFtag_ne (field : Field) : (uniformFtag 0).value field ≠ (uniformFtag 1).value field := by
  cases field <;> decide

/-- A string that is accepted determines all fields of the tag exactly if each of its stanzas names
each of its values. -/
theorem initstr_determined_iff {ftagstr : List Char} {ftag result : Ftag}
    (h : ftagInitstr ftag ftagstr = some result) :
    (∀ ftag₁ ftag₂, ftagInitstr ftag₁ ftagstr = ftagInitstr ftag₂ ftagstr) ↔
      NamesEvery ftagstr := by
  constructor
  · intro hsame
    obtain ⟨result₀, -, hresult₀, -⟩ := ftagInitstr_sets h (uniformFtag 0)
    obtain ⟨result₁, names, hresult₁, hnames, -, -, hvalue⟩ :=
      ftagInitstr_sets hresult₀ (uniformFtag 1)
    have heq : result₀ = result₁ := by
      have hboth := hsame (uniformFtag 0) (uniformFtag 1)
      rw [hresult₀, hresult₁] at hboth
      exact Option.some.inj hboth
    refine ⟨names, hnames, (complete_iff names).2 fun field => ?_⟩
    exact ((hvalue field).1 (by rw [heq])).resolve_right (uniformFtag_ne field)
  · rintro ⟨names, hnames, hcomplete⟩ ftag₁ ftag₂
    obtain ⟨result₁, -, hresult₁, -⟩ := ftagInitstr_sets h ftag₁
    obtain ⟨result₂, names', hresult₂, hnames', hstream, hstate, hvalue⟩ :=
      ftagInitstr_sets hresult₁ ftag₂
    rw [hnames] at hnames'
    cases hnames'
    have heq : result₁ = result₂ := by
      rw [ftag_eq_iff hstream hstate]
      intro field
      exact (hvalue field).2 (.inl ((complete_iff names).1 hcomplete field))
    rw [hresult₁, hresult₂, heq]

def sampleString (values : List Char) : List Char :=
  "VER(0.001)STM(c|s|".toList ++ (values ++
    ")REF(B1-D1-d1)POS(f1-o1-@1-e0)DAT(n1-e1-o1-p1-b1-a1-r1-INIT-RW)".toList)

/-- A string that names every value determines its tag. -/
theorem sampleString_determined :
    NamesEvery (sampleString "F1-D2".toList) ∧ ∀ ftag₁ ftag₂,
      ftagInitstr ftag₁ (sampleString "F1-D2".toList) =
        ftagInitstr ftag₂ (sampleString "F1-D2".toList) := by
  have hfound : ftagNames (sampleString "F1-D2".toList) = some
      { stream := ['F', 'D'], reftree := ['B', 'D', 'd'], position := ['f', 'o', '@', 'e']
        content := ['n', 'e', 'o', 'p', 'b', 'a', 'r'] } := rfl
  have hnames : NamesEvery (sampleString "F1-D2".toList) :=
    ⟨_, hfound, fun _ h => h, fun _ h => h, fun _ h => h, fun _ h => h⟩
  obtain ⟨ftag, hparse⟩ : ∃ ftag,
      ftagInitstr (uniformFtag 0) (sampleString "F1-D2".toList) = some ftag := ⟨_, rfl⟩
  exact ⟨hnames, (initstr_determined_iff hparse).2 hnames⟩

/-- A string that names `objfiles` twice leaves the object size as it was. -/
theorem sampleString_undetermined : ∃ ftag₁ ftag₂,
    ftagInitstr (uniformFtag 0) (sampleString "F1-F2".toList) = some ftag₁ ∧
      ftagInitstr (uniformFtag 1) (sampleString "F1-F2".toList) = some ftag₂ ∧ ftag₁ ≠ ftag₂ := by
  have hkept : ∀ n ≤ 1, (ftagInitstr (uniformFtag n) (sampleString "F1-F2".toList)).map
      (·.objsize) = some n := by decide +kernel
  obtain ⟨ftag₁, hparse₁, hsize₁⟩ := Option.map_eq_some_iff.1 (hkept 0 (by decide))
  obtain ⟨ftag₂, hparse₂, hsize₂⟩ := Option.map_eq_some_iff.1 (hkept 1 (by decide))
  refine ⟨ftag₁, ftag₂, hparse₁, hparse₂, ?_⟩
  intro heq
  rw [heq, hsize₂] at hsize₁
  cases hsize₁

end Marfs.Tagging
