import Marfs.Cstring.Strto
import Marfs.Tape.Format

/-!
# Processing paths are recognized

The path of a place has the components of the processing subdirectory and the host, and behind them those
of the place; `try_from` reads them one by one and comes back to the place.  Only components are looked at,
so an entry that cleanup comes to is recognized as well, whatever separators its path has.
-/

namespace Marfs.Tape

open Marfs.Cstring List

/-! ## Texts -/

section Texts

theorem osStr_append (s t : String) : osStr (s ++ t) = osStr s ++ osStr t := by
  rw [osStr, String.toList_append, map_append]
  rfl

@[simp] theorem toStr_osStr (s : String) : toStr (osStr s) = some s := by
  have hchars : ∀ l : List Char, (l.map OsChar.char).mapM OsChar.char? = some l := by
    intro l
    induction l with
    | nil => rfl
    | cons c l ih =>
      rw [map_cons, mapM_cons, ih]
      rfl
  rw [toStr, osStr, hchars, Option.map_some, String.ofList_toList]

theorem stripStr_append (front rest : String) : stripStr (front ++ rest) front = some rest := by
  rw [stripStr, String.toList_append, if_pos (prefix_append _ _), drop_left, String.ofList_toList]

theorem toList_toString (n : Nat) : (toString n).toList = decimal n := Nat.toList_repr

theorem parseDigits_digits {bits : Nat} {digits : List Char} (hdig : ∀ c ∈ digits, c.isDigit = true)
    {result : Nat} (hfits : Nat.ofDigitChars 10 digits result < 2 ^ bits) :
    digits.foldlM (parseDigit bits) result = .ok (Nat.ofDigitChars 10 digits result) := by
  induction digits generalizing result with
  | nil => rfl
  | cons c digits ih =>
    obtain ⟨hc, hrest⟩ := List.forall_mem_cons.1 hdig
    rw [Nat.ofDigitChars_cons, Nat.mul_comm] at hfits ⊢
    have hlt : result * 10 + (c.toNat - '0'.toNat) < 2 ^ bits := by
      refine Nat.lt_of_le_of_lt ?_ hfits
      rw [Nat.ofDigitChars_eq_ofDigitChars_zero]
      have hpow : 1 ≤ 10 ^ digits.length := Nat.one_le_pow _ _ (by omega)
      exact Nat.le_add_right_of_le (Nat.le_mul_of_pos_left _ hpow)
    rw [foldlM_cons, parseDigit, if_pos hc, if_pos hlt]
    exact ih hrest hfits

/-- A number that fits is read back from its text. -/
theorem parseUnsigned_toString {bits n : Nat} (hn : n < 2 ^ bits) :
    parseUnsigned bits (toString n) = .ok n := by
  have hdig : ∀ c ∈ decimal n, c.isDigit = true := fun c hc => isDigit_of_mem_decimal hc
  have hprs : parseDigits bits (decimal n) = .ok n := by
    rw [parseDigits, parseDigits_digits hdig (by rwa [ofDigitChars_decimal]), ofDigitChars_decimal]
  rw [parseUnsigned, toList_toString]
  cases hdec : decimal n with
  | nil => exact absurd hdec (decimal_ne_nil n)
  | cons c digits =>
    rw [hdec] at hprs hdig
    have hplus : c ≠ '+' := by
      rintro rfl
      exact absurd (hdig _ (mem_cons_self ..)) (by decide)
    split
    · next h => cases h
    · next h => exact absurd (List.cons.inj h).1 hplus
    · next h => exact absurd (List.cons.inj h).1 hplus
    · exact hprs

end Texts

/-! ## Places -/

def IsName (text : OsStr) : Prop := sep ∉ text ∧ text ≠ [] ∧ text ≠ [dot] ∧ text ≠ [dot, dot]

/-- What is assumed of the texts of timestamps: each names a directory, and is parsed back. -/
structure DateTime.Faithful (datetime : DateTime) : Prop where
  parse_debug : ∀ time, datetime.parse (datetime.debug time) = some time
  isName_debug : ∀ time, IsName (osStr (datetime.debug time))

abbrev body (text : OsStr) : List Component := OsPath.body sep dot text

/-- The name of a directory of a process or of a subtask. -/
def numbered (front : String) (n : Nat) : OsStr := osStr (front ++ toString n)

/-- Equality, up to separators that do not count. -/
def ProcessingPathElement.Same : ProcessingPathElement → ProcessingPathElement → Prop
  | .originalTaskfile path, .originalTaskfile path' => elements path = elements path'
  | element, element' => element = element'

def ProcessingPathElement.Plain : ProcessingPathElement → Prop
  | .originalTaskfile path =>
    OsPath.hasRoot sep path = false ∧ (OsPath.components sep dot path).front ≠ some .curDir
  | _ => True

def ProcessingPathElement.place : ProcessingPathElement → List Component
  | .intermediateDir => []
  | .originalTaskfile path => .normal (osStr "original") :: body path
  | .filteredTaskfile => [.normal (osStr "filtered")]
  | .subTaskDir num => [.normal (numbered "subtask." num.toNat)]
  | .subTaskInput num => [.normal (numbered "subtask." num.toNat), .normal (osStr "input")]
  | .subTaskOutput num => [.normal (numbered "subtask." num.toNat), .normal (osStr "output")]

namespace ProcessingPath

structure Same (ppath ppath' : ProcessingPath) : Prop where
  process : ppath.process = ppath'.process
  timestamp : ppath.timestamp = ppath'.timestamp
  element : ppath.element.Same ppath'.element

def place (datetime : DateTime) (ppath : ProcessingPath) : List Component :=
  (ppath.process.map fun pid => OsPath.Component.normal (numbered "PID" pid.toNat)).toList ++
    ((ppath.timestamp.map fun time => OsPath.Component.normal (osStr (datetime.debug time))).toList ++
      ppath.element.place)

end ProcessingPath

section Places

variable {config : Subdirs} {datetime : DateTime} {process : Option UInt32} {timestamp : Option SystemTime}
  {element : ProcessingPathElement} {ppath : ProcessingPath} {path name : OsStr} {rest : List Component}

theorem IsName.body_eq {text : OsStr} (h : IsName text) : body text = [.normal text] :=
  OsPath.body_name h.1 h.2.1 h.2.2.1 h.2.2.2

theorem sep_notMem_numbered {front : String} (hfront : sep ∉ osStr front) (n : Nat) :
    sep ∉ numbered front n := by
  rw [numbered, osStr_append, mem_append, not_or]
  refine ⟨hfront, ?_⟩
  intro hmem
  rw [osStr, toList_toString] at hmem
  obtain ⟨c, hc, heq⟩ := List.mem_map.1 hmem
  obtain rfl := OsChar.char.inj heq
  exact absurd (isDigit_of_mem_decimal hc) (by decide)

theorem isName_of_length {text : OsStr} (hsep : sep ∉ text) (hlong : 3 ≤ text.length) : IsName text := by
  refine ⟨hsep, ?_, ?_, ?_⟩
  · rintro rfl
    exact absurd hlong (by decide)
  · rintro rfl
    exact absurd hlong (by decide)
  · rintro rfl
    exact absurd hlong (by decide)

theorem isName_numbered {front : String} (hfront : sep ∉ osStr front) (hlong : 2 ≤ front.toList.length)
    (n : Nat) : IsName (numbered front n) := by
  have hlen : 3 ≤ (numbered front n).length := by
    have hdig := List.length_pos_iff.2 (decimal_ne_nil n)
    rw [numbered, osStr, length_map, String.toList_append, length_append, toList_toString]
    omega
  exact isName_of_length (sep_notMem_numbered hfront n) hlen

theorem isName_pid (n : Nat) : IsName (numbered "PID" n) :=
  isName_numbered (by decide) (by decide) n

theorem isName_subtask (n : Nat) : IsName (numbered "subtask." n) :=
  isName_numbered (by decide) (by decide) n

theorem osStr_slash (s t : String) : osStr (s ++ "/" ++ t) = osStr s ++ sep :: osStr t := by
  rw [osStr_append, osStr_append, append_assoc]
  rfl

theorem body_slash (s t : String) : body (osStr (s ++ "/" ++ t)) = body (osStr s) ++ body (osStr t) := by
  rw [osStr_slash]
  exact OsPath.body_append_sep _ _

theorem elements_slash {s : String} (hs : s ≠ "") (t : String) :
    elements (osStr (s ++ "/" ++ t)) = elements (osStr s) ++ body (osStr t) := by
  rw [osStr_slash]
  apply OsPath.elements_append_sep
  intro hnil
  exact hs (String.toList_eq_nil_iff.1 (List.map_eq_nil_iff.1 hnil))

theorem elements_pid (hsub : config.processingSubdir ≠ "") (n : Nat) :
    elements (osStr (config.processingSubdir ++ "/" ++ config.host ++ "/PID" ++ toString n)) =
      elements (osStr config.processingSubdir) ++
        (body (osStr config.host) ++ [.normal (numbered "PID" n)]) := by
  have htext : config.processingSubdir ++ "/" ++ config.host ++ "/PID" ++ toString n =
      config.processingSubdir ++ "/" ++ (config.host ++ "/" ++ ("PID" ++ toString n)) := by
    rw [show "/PID" = "/" ++ "PID" from rfl]
    simp only [String.append_assoc]
  rw [htext, elements_slash hsub, body_slash, ← numbered, (isName_pid n).body_eq]

theorem elements_timestamp (hsub : config.processingSubdir ≠ "") (hdate : datetime.Faithful) (n : Nat)
    (time : SystemTime) :
    elements (osStr (config.processingSubdir ++ "/" ++ config.host ++ "/PID" ++ toString n ++ "/" ++
        datetime.debug time)) =
      elements (osStr config.processingSubdir) ++ (body (osStr config.host) ++
        ([.normal (numbered "PID" n)] ++ [.normal (osStr (datetime.debug time))])) := by
  have hne : config.processingSubdir ++ "/" ++ config.host ++ "/PID" ++ toString n ≠ "" := by
    intro hnil
    have htoList := congrArg String.toList hnil
    simp only [String.toList_append] at htoList
    simp at htoList
  rw [elements_slash hne, elements_pid hsub, (hdate.isName_debug time).body_eq, append_assoc,
    append_assoc]

theorem elements_pushPath (more : OsStr) (hpath : path ≠ []) (hmore : OsPath.hasRoot sep more = false) :
    elements (pushPath path more) = elements path ++ body more := OsPath.elements_push hpath hmore

theorem osStr_ne_nil {text : String} (h : text ≠ "") : osStr text ≠ [] :=
  fun hnil => h (String.toList_eq_nil_iff.1 (List.map_eq_nil_iff.1 hnil))

theorem toPathBuf_elements (hsub : config.processingSubdir ≠ "") (hdate : datetime.Faithful)
    (hplain : ppath.element.Plain) (hpath : ppath.toPathBuf config datetime = some path) :
    elements path =
      elements (osStr config.processingSubdir) ++ (body (osStr config.host) ++ ppath.place datetime) := by
  obtain ⟨process, timestamp, element⟩ := ppath
  unfold ProcessingPath.toPathBuf at hpath
  split at hpath
  · next hprocess htime helem =>
    dsimp only at hprocess htime helem
    subst hprocess htime helem
    obtain rfl := Option.some.inj hpath
    rw [elements_slash hsub]
    exact congrArg _ (List.append_nil _).symm
  · next pid hprocess htime helem =>
    dsimp only at hprocess htime helem
    subst hprocess htime helem
    obtain rfl := Option.some.inj hpath
    exact elements_pid hsub _
  · next pid time hprocess htime =>
    dsimp only at hprocess htime hpath
    subst hprocess htime
    have hpbuf := elements_timestamp hsub hdate pid.toNat time
    generalize htext : config.processingSubdir ++ "/" ++ config.host ++ "/PID" ++ toString pid.toNat ++ "/" ++
      datetime.debug time = text at hpath hpbuf
    have hne : osStr text ≠ [] := by
      apply osStr_ne_nil
      rintro rfl
      have htoList := congrArg String.toList htext
      simp only [String.toList_append] at htoList
      simp at htoList
    have hplc : ∀ more, elements path = elements (osStr text) ++ more → more = element.place →
        elements path = elements (osStr config.processingSubdir) ++ (body (osStr config.host) ++
          ProcessingPath.place datetime ⟨some pid, some time, element⟩) := by
      rintro more hmore rfl
      rw [hmore, hpbuf]
      simp [ProcessingPath.place]
    have hsubtask : ∀ num : UInt64, OsPath.hasRoot sep (osStr ("subtask." ++ toString num.toNat)) =
        false := by
      intro num
      simp [OsPath.hasRoot, osStr]
    cases element with
    | intermediateDir =>
      obtain rfl := Option.some.inj hpath
      exact hplc [] (List.append_nil _).symm rfl
    | originalTaskfile taskfile =>
      obtain rfl := Option.some.inj hpath
      refine hplc ([.normal (osStr "original")] ++ body taskfile) ?_ rfl
      have horig := elements_pushPath (osStr "original") hne rfl
      have hpush : pushPath (osStr text) (osStr "original") ≠ [] := by
        intro hnil
        rw [hnil] at horig
        have hbody : body (osStr "original") ≠ [] := by decide
        exact hbody (List.append_eq_nil_iff.1 horig.symm).2
      rw [elements_pushPath _ hpush hplain.1, horig, append_assoc]
      rfl
    | filteredTaskfile =>
      obtain rfl := Option.some.inj hpath
      exact hplc _ (elements_pushPath _ hne rfl) rfl
    | subTaskDir num =>
      obtain rfl := Option.some.inj hpath
      exact hplc _ (elements_pushPath _ hne (hsubtask num)) (isName_subtask _).body_eq
    | subTaskInput num =>
      obtain rfl := Option.some.inj hpath
      refine hplc _ (elements_pushPath _ hne ?_) ?_
      · simp [OsPath.hasRoot, osStr]
      · rw [show "/input" = "/" ++ "input" from rfl, ← String.append_assoc, body_slash, ← numbered,
          (isName_subtask _).body_eq]
        rfl
    | subTaskOutput num =>
      obtain rfl := Option.some.inj hpath
      refine hplc _ (elements_pushPath _ hne ?_) ?_
      · simp [OsPath.hasRoot, osStr]
      · rw [show "/output" = "/" ++ "output" from rfl, ← String.append_assoc, body_slash, ← numbered,
          (isName_subtask _).body_eq]
        rfl
  · cases hpath
  · cases hpath

end Places

/-! ## Recognition -/

section Recognition

variable {config : Subdirs} {datetime : DateTime} {process : Option UInt32} {timestamp : Option SystemTime}
  {element : ProcessingPathElement} {ppath : ProcessingPath} {path name base : OsStr} {rest : List Component}
  {it : OsPath.Components OsChar}

theorem next_of_cons {comp : Component} (h : it.toList dot = comp :: rest) :
    ∃ it', it.next dot = some (comp, it') ∧ it'.toList dot = rest := by
  cases hnext : it.next dot with
  | none =>
    rw [OsPath.Components.next_none hnext] at h
    cases h
  | some step =>
    obtain ⟨comp', it'⟩ := step
    rw [OsPath.Components.next_some hnext] at h
    obtain ⟨rfl, hrest⟩ := List.cons.inj h
    exact ⟨it', rfl, hrest⟩

theorem next_of_nil (h : it.toList dot = []) : it.next dot = none := by
  cases hnext : it.next dot with
  | none => rfl
  | some step =>
    rw [OsPath.Components.next_some hnext] at h
    cases h

theorem nextNormal_of_cons (h : elements path = .normal name :: rest) :
    ∃ it, nextNormal path = some (name, it) ∧ it.toList dot = rest := by
  obtain ⟨it, hnext, hrest⟩ := next_of_cons h
  exact ⟨it, by rw [nextNormal, hnext], hrest⟩

theorem nextNormal_of_nil (h : elements path = []) : nextNormal path = none := by
  rw [nextNormal, next_of_nil h]

theorem stripPrefix_of_append (h : elements path = elements base ++ rest) :
    ∃ text, stripPrefix path base = some text ∧ elements text = rest :=
  OsPath.stripPrefix_of_elements (by decide) h

theorem IsName.elements_eq {text : OsStr} (h : IsName text) : elements text = [.normal text] :=
  OsPath.elements_name h.1 h.2.1 h.2.2.1 h.2.2.2

theorem stripPrefix_name (hname : IsName name) (h : elements path = .normal name :: rest) :
    ∃ path', stripPrefix path name = some path' ∧ elements path' = rest := by
  apply stripPrefix_of_append
  rw [hname.elements_eq]
  exact h

theorem startsWith_name (path : OsStr) (hname : IsName name) :
    OsPath.startsWith sep dot path name = true ↔ (elements path).head? = some (.normal name) := by
  rw [OsPath.startsWith_iff, show OsPath.elements sep dot name = _ from hname.elements_eq]
  constructor
  · rintro ⟨rest, hrest⟩
    rw [elements, ← hrest]
    rfl
  · intro hhead
    obtain ⟨rest, hrest⟩ := List.head?_eq_some_iff.1 hhead
    exact ⟨rest, hrest.symm⟩

theorem isName_original : IsName (osStr "original") := isName_of_length (by decide) (by decide)

theorem isName_filtered : IsName (osStr "filtered") := isName_of_length (by decide) (by decide)

theorem numbered_subtask_ne (n : Nat) :
    numbered "subtask." n ≠ osStr "original" ∧ numbered "subtask." n ≠ osStr "filtered" := by
  have hhead : (numbered "subtask." n).head? = some (.char 's') := by
    rw [numbered, osStr_append]
    rfl
  constructor
  · intro heq
    rw [heq] at hhead
    exact absurd hhead (by decide)
  · intro heq
    rw [heq] at hhead
    exact absurd hhead (by decide)

theorem tryFromSubtask_dir (num : UInt64) (h : it.toList dot = []) :
    ProcessingPath.tryFromSubtask process timestamp path (numbered "subtask." num.toNat) it =
      some (.ok ⟨process, timestamp, .subTaskDir num⟩) := by
  rw [ProcessingPath.tryFromSubtask, numbered, toStr_osStr]
  dsimp only
  rw [stripStr_append]
  dsimp only
  rw [parseUnsigned_toString num.toNat_lt, next_of_nil h]
  dsimp only
  rw [UInt64.ofNat_toNat]

theorem tryFromSubtask_file (num : UInt64) {comp : String} (h : it.toList dot = [.normal (osStr comp)]) :
    ProcessingPath.tryFromSubtask process timestamp path (numbered "subtask." num.toNat) it =
      if comp = "input" then some (.ok ⟨process, timestamp, .subTaskInput num⟩)
      else if comp = "output" then some (.ok ⟨process, timestamp, .subTaskOutput num⟩)
      else some (.error ("unrecognized subtask element: \"" ++ comp ++ "\"")) := by
  obtain ⟨it', hnext, hrest⟩ := next_of_cons h
  rw [ProcessingPath.tryFromSubtask, numbered, toStr_osStr]
  dsimp only
  rw [stripStr_append]
  dsimp only
  rw [parseUnsigned_toString num.toNat_lt, hnext]
  dsimp only
  rw [next_of_nil hrest, UInt64.ofNat_toNat, if_neg (by simp), asOsStr, toStr_osStr]

theorem tryFromElement_subtask {num : UInt64}
    (h : elements path = .normal (numbered "subtask." num.toNat) :: rest) :
    ∃ it : OsPath.Components OsChar, it.toList dot = rest ∧
      ProcessingPath.tryFromElement process timestamp path =
        ProcessingPath.tryFromSubtask process timestamp path (numbered "subtask." num.toNat) it := by
  obtain ⟨it, hnext, hrest⟩ := nextNormal_of_cons h
  obtain ⟨horig, hfilt⟩ := numbered_subtask_ne num.toNat
  refine ⟨it, hrest, ?_⟩
  rw [ProcessingPath.tryFromElement, if_neg, if_neg, hnext]
  · intro hst
    have heq := (startsWith_name path isName_filtered).1 hst.1
    rw [h] at heq
    exact hfilt (OsPath.Component.normal.inj (Option.some.inj heq))
  · intro hst
    have heq := (startsWith_name path isName_original).1 hst
    rw [h] at heq
    exact horig (OsPath.Component.normal.inj (Option.some.inj heq))

theorem tryFromElement_place (process : Option UInt32) (timestamp : Option SystemTime)
    (hplain : element.Plain) (h : elements path = element.place) :
    ∃ element', ProcessingPath.tryFromElement process timestamp path =
      some (.ok ⟨process, timestamp, element'⟩) ∧
      element.Same element' := by
  have horig := startsWith_name path isName_original
  have hfilt := startsWith_name path isName_filtered
  rw [h] at horig hfilt
  cases element with
  | intermediateDir =>
    refine ⟨.intermediateDir, ?_, rfl⟩
    rw [ProcessingPath.tryFromElement, if_neg (fun hst => nomatch horig.1 hst),
      if_neg (fun hst => nomatch hfilt.1 hst.1), nextNormal_of_nil h]
  | originalTaskfile taskfile =>
    obtain ⟨path', hstrip, helements⟩ := stripPrefix_name isName_original h
    refine ⟨.originalTaskfile path', ?_, ?_⟩
    · rw [ProcessingPath.tryFromElement, if_pos (horig.2 rfl), hstrip]
      rfl
    · show elements taskfile = elements path'
      rw [helements]
      exact OsPath.elements_eq_body hplain.1 hplain.2
  | filteredTaskfile =>
    refine ⟨.filteredTaskfile, ?_, rfl⟩
    have hnot : ¬OsPath.startsWith sep dot path (osStr "original") = true := by
      rw [horig]
      decide
    have hone : (elements path).length = 1 := by
      rw [h]
      rfl
    rw [ProcessingPath.tryFromElement, if_neg hnot, if_pos ⟨hfilt.2 rfl, hone⟩]
  | subTaskDir num =>
    obtain ⟨it, hrest, hsubtask⟩ := tryFromElement_subtask h
    exact ⟨.subTaskDir num, hsubtask.trans (tryFromSubtask_dir num hrest), rfl⟩
  | subTaskInput num =>
    obtain ⟨it, hrest, hsubtask⟩ := tryFromElement_subtask h
    exact ⟨.subTaskInput num, hsubtask.trans ((tryFromSubtask_file num hrest).trans (if_pos rfl)), rfl⟩
  | subTaskOutput num =>
    obtain ⟨it, hrest, hsubtask⟩ := tryFromElement_subtask h
    have hoth : "output" ≠ "input" := by decide
    exact ⟨.subTaskOutput num,
      hsubtask.trans ((tryFromSubtask_file num hrest).trans ((if_neg hoth).trans (if_pos rfl))), rfl⟩

theorem tryFromTimestamp_place (process : Option UInt32) (hdate : datetime.Faithful) (hplain : element.Plain)
    (hnone : timestamp = none → element = .intermediateDir) (h : elements path =
      (timestamp.map fun time => OsPath.Component.normal (osStr (datetime.debug time))).toList ++
      element.place) :
    ∃ element', ProcessingPath.tryFromTimestamp datetime process path =
      some (.ok ⟨process, timestamp, element'⟩) ∧
      element.Same element' := by
  unfold ProcessingPath.tryFromTimestamp
  cases timestamp with
  | none =>
    rw [hnone rfl] at h
    rw [nextNormal_of_nil h, hnone rfl]
    exact ⟨_, rfl, rfl⟩
  | some time =>
    obtain ⟨it, hnext, -⟩ := nextNormal_of_cons h
    obtain ⟨path', hstrip, hrest⟩ := stripPrefix_name (hdate.isName_debug time) h
    obtain ⟨element', hfrom, hsame⟩ := tryFromElement_place process (some time) hplain hrest
    refine ⟨element', ?_, hsame⟩
    rw [hnext]
    dsimp only
    rw [toStr_osStr]
    dsimp only
    rw [hdate.parse_debug, hstrip]
    exact hfrom

/-- Below the directory of the host. -/
theorem tryFromProcess_place (hdate : datetime.Faithful) (hplain : ppath.element.Plain)
    (hnew : ProcessingPath.new ppath.process ppath.timestamp ppath.element = some ppath)
    (h : elements path = ppath.place datetime) :
    ∃ ppath', ProcessingPath.tryFromProcess datetime path = some (.ok ppath') ∧ ppath.Same ppath' := by
  obtain ⟨process, timestamp, element⟩ := ppath
  unfold ProcessingPath.tryFromProcess
  cases process with
  | none =>
    cases timestamp with
    | none =>
      cases element with
      | intermediateDir =>
        rw [nextNormal_of_nil h]
        exact ⟨_, rfl, rfl, rfl, rfl⟩
      | _ => cases hnew
    | some time => cases hnew
  | some pid =>
    have hnone : timestamp = none → element = .intermediateDir := by
      rintro rfl
      cases element with
      | intermediateDir => rfl
      | _ => cases hnew
    obtain ⟨it, hnext, -⟩ := nextNormal_of_cons h
    obtain ⟨path', hstrip, hrest⟩ := stripPrefix_name (isName_pid pid.toNat) h
    obtain ⟨element', hfrom, hsame⟩ :=
      tryFromTimestamp_place (some pid) hdate hplain hnone hrest
    refine ⟨⟨some pid, timestamp, element'⟩, ?_, rfl, rfl, hsame⟩
    rw [hnext]
    dsimp only
    rw [numbered, toStr_osStr]
    dsimp only
    rw [stripStr_append]
    dsimp only
    rw [parseUnsigned_toString pid.toNat_lt]
    dsimp only
    rw [← numbered, hstrip, UInt32.ofNat_toNat]
    exact hfrom

def Subdirs.NamesHost (config : Subdirs) : Prop := ∃ name, elements (osStr config.host) = [.normal name]

theorem Subdirs.NamesHost.elements_eq (h : config.NamesHost) :
    elements (osStr config.host) = body (osStr config.host) := by
  obtain ⟨name, hname⟩ := h
  have hnames : ∀ comp ∈ elements (osStr config.host), ∃ name, comp = OsPath.Component.normal name := by
    intro comp hcomp
    rw [hname, mem_singleton] at hcomp
    exact ⟨name, hcomp⟩
  obtain ⟨hroot, hdot⟩ := OsPath.elements_eq_body_of_names hnames
  exact OsPath.elements_eq_body hroot hdot

theorem tryFrom_place (hhost : config.NamesHost) (hdate : datetime.Faithful) (hplain : ppath.element.Plain)
    (hnew : ProcessingPath.new ppath.process ppath.timestamp ppath.element = some ppath)
    (h : elements path =
      elements (osStr config.processingSubdir) ++ (body (osStr config.host) ++ ppath.place datetime)) :
    ∃ ppath', ProcessingPath.tryFrom config datetime path = some (.ok ppath') ∧ ppath.Same ppath' := by
  obtain ⟨path', hsub, hrest⟩ := stripPrefix_of_append h
  rw [← hhost.elements_eq] at hrest
  obtain ⟨path'', hhost', hplc⟩ := stripPrefix_of_append hrest
  obtain ⟨ppath', hfrom, hsame⟩ := tryFromProcess_place hdate hplain hnew hplc
  refine ⟨ppath', ?_, hsame⟩
  rw [ProcessingPath.tryFrom, hsub]
  dsimp only
  rw [hhost']
  exact hfrom

end Recognition

/-! ## Files and their cleanup -/

def ProcessingPathElement.OnlyNames : ProcessingPathElement → Prop
  | .originalTaskfile path => ∀ comp ∈ elements path, ∃ name, comp = .normal name
  | _ => True

def ProcessingPathElement.CleanedBy (config : Subdirs) (entpath : OsStr) (isFile : Bool) :
    ProcessingPathElement → CleanupStep → Prop
  | .originalTaskfile path, step =>
    if isFile then
      ∃ subpath, elements subpath = elements path ∧
        step = .rename entpath (pushPath (osStr config.outputFailureSubdir) subpath)
    else step = .removeDir entpath
  | .intermediateDir, step | .subTaskDir _, step => step = .removeDir entpath
  | .filteredTaskfile, step | .subTaskInput _, step | .subTaskOutput _, step => step = .removeFile entpath

section Files

variable {config : Subdirs} {datetime : DateTime} {process : Option UInt32} {timestamp : Option SystemTime}
  {element element' element'' : ProcessingPathElement} {ppath ppath' other : ProcessingPath}
  {path path' : OsStr}

theorem sameElement_of (h : element.Same element'') (h' : element'.Same element'') :
    element.Same element' := by
  cases element <;> cases element'' <;> try cases h
  all_goals cases element' <;> try cases h'
  all_goals first
    | rfl
    | exact Eq.trans h (Eq.symm h')

theorem ProcessingPath.Same.of (h : ppath.Same ppath') (h' : other.Same ppath') : ppath.Same other :=
  ⟨h.process.trans h'.process.symm, h.timestamp.trans h'.timestamp.symm, sameElement_of h.element h'.element⟩

theorem ProcessingPathElement.OnlyNames.plain (h : element.OnlyNames) : element.Plain := by
  cases element with
  | originalTaskfile path => exact OsPath.elements_eq_body_of_names h
  | _ => trivial

theorem place_names (datetime : DateTime) (h : ppath.element.OnlyNames) :
    ∃ names : List OsStr, ppath.place datetime = names.map .normal := by
  have helem : ∃ names : List OsStr, ppath.element.place = names.map .normal := by
    obtain ⟨process, timestamp, element⟩ := ppath
    cases element with
    | intermediateDir => exact ⟨[], rfl⟩
    | originalTaskfile path =>
      have hbody : elements path = body path := OsPath.elements_eq_body h.plain.1 h.plain.2
      have hnames : ∀ comps : List Component, (∀ comp ∈ comps, ∃ name, comp = OsPath.Component.normal name) →
          ∃ names : List OsStr, comps = names.map .normal := by
        intro comps hcomps
        induction comps with
        | nil => exact ⟨[], rfl⟩
        | cons comp comps ih =>
          obtain ⟨⟨name, rfl⟩, hrest⟩ := List.forall_mem_cons.1 hcomps
          obtain ⟨names, rfl⟩ := ih hrest
          exact ⟨name :: names, rfl⟩
      obtain ⟨names, hpath⟩ := hnames _ h
      exact ⟨osStr "original" :: names, congrArg (_ :: ·) (hbody.symm.trans hpath)⟩
    | filteredTaskfile => exact ⟨[_], rfl⟩
    | subTaskDir num => exact ⟨[_], rfl⟩
    | subTaskInput num => exact ⟨[_, _], rfl⟩
    | subTaskOutput num => exact ⟨[_, _], rfl⟩
  obtain ⟨names, hnames⟩ := helem
  refine ⟨(ppath.process.map fun pid => numbered "PID" pid.toNat).toList ++
    ((ppath.timestamp.map fun time => osStr (datetime.debug time)).toList ++ names), ?_⟩
  rw [ProcessingPath.place, hnames, map_append, map_append]
  cases ppath.process <;> cases ppath.timestamp <;> rfl

theorem same_of_elements (hsub : config.processingSubdir ≠ "") (hhost : config.NamesHost)
    (hdate : datetime.Faithful) (hplain : ppath.element.Plain) (hplain' : other.element.Plain)
    (hnew : ProcessingPath.new ppath.process ppath.timestamp ppath.element = some ppath)
    (hnew' : ProcessingPath.new other.process other.timestamp other.element = some other)
    (hpath : ppath.toPathBuf config datetime = some path)
    (hpath' : other.toPathBuf config datetime = some path') (h : elements path = elements path') :
    ppath.Same other := by
  have hplc := toPathBuf_elements hsub hdate hplain hpath
  have hplc' := toPathBuf_elements hsub hdate hplain' hpath'
  obtain ⟨found, hfrom, hsame⟩ := tryFrom_place hhost hdate hplain hnew hplc
  obtain ⟨found', hfrom', hsame'⟩ := tryFrom_place hhost hdate hplain' hnew' (h.trans hplc')
  rw [hfrom] at hfrom'
  obtain rfl := Except.ok.inj (Option.some.inj hfrom')
  exact hsame.of hsame'

theorem elements_of_locate (hsub : config.processingSubdir ≠ "") (hhost : config.NamesHost)
    (hdate : datetime.Faithful) (hnames : ppath.element.OnlyNames) (hnames' : other.element.OnlyNames)
    (hpath : ppath.toPathBuf config datetime = some path)
    (hpath' : other.toPathBuf config datetime = some path') {cwd : List OsStr}
    (h : OsPath.locate cwd (elements path) = OsPath.locate cwd (elements path')) :
    elements path = elements path' := by
  obtain ⟨host, hhost'⟩ := hhost
  have hbody : body (osStr config.host) = [.normal host] := by
    rw [← hhost']
    exact (Subdirs.NamesHost.elements_eq ⟨host, hhost'⟩).symm
  obtain ⟨names, hplc⟩ := place_names datetime hnames
  obtain ⟨names', hplc'⟩ := place_names datetime hnames'
  rw [toPathBuf_elements hsub hdate hnames.plain hpath,
    toPathBuf_elements hsub hdate hnames'.plain hpath',
    hbody, hplc, hplc'] at h ⊢
  have hlocate : ∀ names : List OsStr, OsPath.locate cwd (elements (osStr config.processingSubdir) ++
      ([.normal host] ++ names.map .normal)) =
        OsPath.locate cwd (elements (osStr config.processingSubdir)) ++ host :: names := by
    intro names
    rw [OsPath.locate_append]
    exact OsPath.locate_names _ (host :: names)
  rw [hlocate, hlocate] at h
  rw [(List.cons.inj (append_cancel_left h)).2]

theorem cleanupEntry_of {entpath : OsStr} (isFile : Bool)
    (hfrom : ProcessingPath.tryFrom config datetime entpath = some (.ok ppath')) (hsame : ppath.Same ppath') :
    ∃ step, cleanupEntry config datetime entpath isFile = some step ∧
      ppath.element.CleanedBy config entpath isFile step := by
  have helem := hsame.element
  rw [cleanupEntry, hfrom]
  refine ⟨_, rfl, ?_⟩
  obtain ⟨process, timestamp, element⟩ := ppath
  obtain ⟨process', timestamp', element'⟩ := ppath'
  cases element with
  | originalTaskfile path =>
    cases element' with
    | originalTaskfile subpath =>
      cases isFile with
      | true => exact ⟨subpath, helem.symm, rfl⟩
      | false => rfl
    | _ => cases helem
  | _ =>
    obtain rfl : _ = element' := helem
    rfl

/-- The path of a place that `new` accepts is read back as that place, no other place has its components or
its file, and cleanup does with it what belongs to the place. -/
theorem processingPath_recognized (hsub : config.processingSubdir ≠ "") (hhost : config.NamesHost)
    (hdatetime : datetime.Faithful) (hnew : ProcessingPath.new process timestamp element = some ppath)
    (hplain : element.Plain) :
    ∃ path, ppath.toPathBuf config datetime = some path ∧
      (∃ ppath', ProcessingPath.tryFrom config datetime path = some (.ok ppath') ∧ ppath.Same ppath') ∧
      (∀ entpath isFile, elements entpath = elements path →
        ∃ step, cleanupEntry config datetime entpath isFile = some step ∧
          element.CleanedBy config entpath isFile step) ∧
      ∀ process' timestamp' element' other path',
        ProcessingPath.new process' timestamp' element' = some other →
        other.toPathBuf config datetime = some path' →
        (element'.Plain → elements path = elements path' → ppath.Same other) ∧
        (element.OnlyNames → element'.OnlyNames → ∀ cwd,
          OsPath.locate cwd (elements path) = OsPath.locate cwd (elements path') → ppath.Same other) := by
  have hfields : ∀ {process timestamp element ppath},
      ProcessingPath.new process timestamp element = some ppath →
      ppath = ⟨process, timestamp, element⟩ := by
    intro process timestamp element ppath hnew
    unfold ProcessingPath.new at hnew
    split at hnew <;> first
      | exact (Option.some.inj hnew).symm
      | cases hnew
  obtain rfl := hfields hnew
  obtain ⟨path, hpath⟩ : ∃ path,
      ProcessingPath.toPathBuf config datetime ⟨process, timestamp, element⟩ = some path := by
    cases process <;> cases timestamp
    · cases element with
      | intermediateDir => exact ⟨_, rfl⟩
      | _ => cases hnew
    · cases hnew
    · cases element with
      | intermediateDir => exact ⟨_, rfl⟩
      | _ => cases hnew
    · exact ⟨_, rfl⟩
  have hplace := toPathBuf_elements hsub hdatetime hplain hpath
  refine ⟨path, hpath, tryFrom_place hhost hdatetime hplain hnew hplace, ?_, ?_⟩
  · intro entpath isFile hentpath
    obtain ⟨found, hfrom, hsame⟩ := tryFrom_place hhost hdatetime hplain hnew (hentpath.trans hplace)
    exact cleanupEntry_of isFile hfrom hsame
  · intro process' timestamp' element' other path' hnew' hpath'
    obtain rfl := hfields hnew'
    constructor
    · intro hplain' heq
      exact same_of_elements hsub hhost hdatetime hplain hplain' hnew hnew' hpath hpath' heq
    · intro hnames hnames' cwd hlocate
      have heq := elements_of_locate hsub hhost hdatetime hnames hnames' hpath hpath' hlocate
      exact same_of_elements hsub hhost hdatetime hplain hnames'.plain hnew hnew' hpath hpath' heq

end Files

/-! ### A taskfile in the processing tree -/

def sampleSubdirs : Subdirs where
  processingSubdir := "processing"
  outputFailureSubdir := "output-failure"
  host := "node-1"

/-- Seconds of the first minute. -/
def sampleDateTime : DateTime where
  debug time := "1970-01-01T00:00:" ++ (toString time ++ "+00:00")
  parse text :=
    let rest := text.toList.drop 17
    some (Nat.ofDigitChars 10 (rest.take (rest.length - 6)) 0)

theorem sampleDateTime_debug (time : SystemTime) :
    sampleDateTime.debug time = "1970-01-01T00:00:" ++ (toString time ++ "+00:00") := rfl

theorem sampleDateTime_faithful : sampleDateTime.Faithful where
  parse_debug := by
    intro time
    have hlen : ("1970-01-01T00:00:".toList).length = 17 := by decide
    have hzone : ("+00:00".toList).length = 6 := by decide
    have htext : (sampleDateTime.debug time).toList =
        "1970-01-01T00:00:".toList ++ (decimal time ++ "+00:00".toList) := by
      rw [sampleDateTime_debug, String.toList_append, String.toList_append, toList_toString]
    have hrest : (sampleDateTime.debug time).toList.drop 17 = decimal time ++ "+00:00".toList :=
      (congrArg (List.drop 17) htext).trans (drop_left' hlen)
    show some (Nat.ofDigitChars 10 (((sampleDateTime.debug time).toList.drop 17).take
      (((sampleDateTime.debug time).toList.drop 17).length - 6)) 0) = some time
    rw [hrest]
    generalize "+00:00".toList = zone at hzone
    rw [length_append, hzone, Nat.add_sub_cancel, take_left, ofDigitChars_decimal]
  isName_debug := by
    intro time
    have htext : osStr (sampleDateTime.debug time) =
        osStr "1970-01-01T00:00:" ++ (numbered "" time ++ osStr "+00:00") := by
      rw [sampleDateTime_debug, osStr_append, osStr_append, numbered, String.empty_append]
    have hlong : 17 ≤ (osStr (sampleDateTime.debug time)).length := by
      have hlen : (osStr "1970-01-01T00:00:").length = 17 := by decide
      rw [htext, length_append]
      exact Nat.le_add_right_of_le (Nat.le_of_eq hlen.symm)
    refine isName_of_length ?_ (Nat.le_trans (by decide) hlong)
    rw [htext, mem_append, mem_append, not_or, not_or]
    refine ⟨by decide, ?_, by decide⟩
    exact sep_notMem_numbered (by decide) time

theorem sampleSubdirs_namesHost : sampleSubdirs.NamesHost := ⟨osStr "node-1", by decide⟩

/-- A taskfile that is left over is renamed. -/
theorem taskfile_recognized :
    ∃ ppath path, ProcessingPath.new (some 5) (some 12) (.originalTaskfile (osStr "a/b")) = some ppath ∧
    ppath.toPathBuf sampleSubdirs sampleDateTime = some path ∧
    path = osStr "processing/node-1/PID5/1970-01-01T00:00:12+00:00/original/a/b" ∧
    (∃ ppath', ProcessingPath.tryFrom sampleSubdirs sampleDateTime path = some (.ok ppath') ∧
      ppath.Same ppath') ∧
    ∃ step, cleanupEntry sampleSubdirs sampleDateTime path true = some step ∧
      (ProcessingPathElement.originalTaskfile (osStr "a/b")).CleanedBy sampleSubdirs path true step := by
  have hnew : ProcessingPath.new (some 5) (some 12) (.originalTaskfile (osStr "a/b")) = some _ := rfl
  have hsub : sampleSubdirs.processingSubdir ≠ "" := by decide +kernel
  obtain ⟨path, hpath, hfrom, hcleanup, -⟩ := processingPath_recognized hsub
    sampleSubdirs_namesHost sampleDateTime_faithful hnew ⟨by decide +kernel, by decide +kernel⟩
  refine ⟨_, path, hnew, hpath, ?_, hfrom, hcleanup path true rfl⟩
  have heq : ProcessingPath.toPathBuf sampleSubdirs sampleDateTime
      ⟨some 5, some 12, .originalTaskfile (osStr "a/b")⟩ =
      some (osStr "processing/node-1/PID5/1970-01-01T00:00:12+00:00/original/a/b") := by decide +kernel
  exact Option.some.inj (hpath.symm.trans heq)

/-- A leading `.` is lost; without a processing subdirectory no path is recognized; and `..` leads out of the
directory of a taskfile. -/
theorem taskfile_mistaken :
    (∃ path, ProcessingPath.toPathBuf sampleSubdirs sampleDateTime
      ⟨some 5, some 12, .originalTaskfile (osStr "./a")⟩ =
        some path ∧
      ProcessingPath.tryFrom sampleSubdirs sampleDateTime path =
        some (.ok ⟨some 5, some 12, .originalTaskfile (osStr "a")⟩) ∧
      ¬(ProcessingPathElement.originalTaskfile (osStr "./a")).Same (.originalTaskfile (osStr "a"))) ∧
    (∃ path, ProcessingPath.toPathBuf { sampleSubdirs with processingSubdir := "" } sampleDateTime
        ⟨some 5, none, .intermediateDir⟩ = some path ∧
      ProcessingPath.tryFrom { sampleSubdirs with processingSubdir := "" } sampleDateTime path =
        some (.error "not within per-host subdir")) ∧
    ∃ path path', ProcessingPath.toPathBuf sampleSubdirs sampleDateTime
        ⟨some 5, some 12, .originalTaskfile (osStr "../filtered")⟩ = some path ∧
      ProcessingPath.toPathBuf sampleSubdirs sampleDateTime ⟨some 5, some 12, .filteredTaskfile⟩ =
        some path' ∧
      OsPath.locate [] (elements path) = OsPath.locate [] (elements path') ∧
      ¬(ProcessingPathElement.originalTaskfile (osStr "../filtered")).Same .filteredTaskfile := by
  refine ⟨⟨osStr "processing/node-1/PID5/1970-01-01T00:00:12+00:00/original/./a", ?_, ?_, ?_⟩,
    ⟨osStr "/node-1/PID5", ?_, ?_⟩,
    ⟨osStr "processing/node-1/PID5/1970-01-01T00:00:12+00:00/original/../filtered",
      osStr "processing/node-1/PID5/1970-01-01T00:00:12+00:00/filtered", ?_, ?_, ?_, ?_⟩⟩
  · decide +kernel
  · rfl
  · intro h
    have hne : elements (osStr "./a") ≠ elements (osStr "a") := by decide +kernel
    exact hne h
  · decide +kernel
  · rfl
  · decide +kernel
  · decide +kernel
  · decide +kernel
  · intro h
    cases h

end Marfs.Tape
