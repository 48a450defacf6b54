import Marfs.Recovery.HeaderPrinted
import Mathlib.Data.List.Induction

/-!
# Recovering an object

The files of an object come back one after the other, from the last to the first, as long as the start
of every record is found and no record is refused.  A record that is taken to start in its path is
never parsed to the file that it belongs to: what is parsed has a shorter path
(`parseFinfoAt_path_length`).  So an object is recovered only if no path has the type string in it that
the search takes for that of the record (`recoverObject_iff`).
-/

namespace Marfs.Recovery

open Cstring Machine List

/-! ## The path of a record that is parsed -/

/-- A path that was read and what is left of the buffer fit into a length. -/
structure PathWithin (bound : Nat) (st : FinfoState) : Prop where
  parse : st.parse.length ≤ bound
  path : st.found .path = true → st.finfo.path.length + st.parse.length ≤ bound

section PathWithin

variable {bound : Nat} {st st' : FinfoState}

theorem PathWithin.move (h : PathWithin bound st) (hparse : st'.parse.length ≤ st.parse.length)
    (hpath : st'.finfo.path = st.finfo.path) (hfound : st'.found .path = st.found .path) :
    PathWithin bound st' := by
  refine ⟨hparse.trans h.parse, ?_⟩
  intro hread
  rw [hfound] at hread
  have hle := h.path hread
  rw [hpath]
  omega

theorem storeMtime_within {parse : List Char} {parseval : Nat} (h : PathWithin bound st)
    (hparse : parse.length ≤ st.parse.length) (hdone : storeMtime st parse parseval = .done st') :
    PathWithin bound st' := by
  unfold storeMtime at hdone
  obtain ⟨⟨parsensec, endptr⟩, hnum, hdone⟩ := Walk.bind_eq_done.1 hdone
  obtain ⟨-, -, hdone⟩ := Walk.bind_eq_done.1 hdone
  cases hdone
  have hlen := parseNumber_length hnum
  rw [length_tail] at hlen
  exact h.move (by dsimp only; omega) rfl rfl

theorem storePath_within {alloc : Bool} {parse : List Char} {bufsize parseval : Nat}
    {printed : Walk Nat} (hparse : parse.length ≤ bound)
    (hdone : storePath alloc st parse bufsize parseval printed = .done st') : PathWithin bound st' := by
  unfold storePath at hdone
  obtain ⟨-, -, hdone⟩ := Walk.bind_eq_done.1 hdone
  obtain ⟨-, -, hdone⟩ := Walk.bind_eq_done.1 hdone
  obtain ⟨length, -, hdone⟩ := Walk.bind_eq_done.1 hdone
  obtain ⟨-, -, hdone⟩ := Walk.bind_eq_done.1 hdone
  obtain ⟨c, -, hdone⟩ := Walk.bind_eq_done.1 hdone
  cases hdone
  refine ⟨?_, fun _ => ?_⟩
  · simp only [length_drop]
    omega
  · simp only [length_drop, length_take]
    omega

theorem interpretValue_within {alloc : Bool} {value : FinfoValue} {parseval : Nat}
    {endptr : List Char} (h : PathWithin bound st) (hend : endptr.length ≤ st.parse.length)
    (hdone : interpretValue alloc st value parseval endptr = .done st') : PathWithin bound st' := by
  unfold interpretValue at hdone
  obtain ⟨-, -, hdone⟩ := Walk.bind_eq_done.1 hdone
  have hparse := h.parse
  have hnum : ∀ value, value ≠ .path → (do
      Walk.check (parseval ≤ value.max)
      pure
        { parse := endptr
          bufsize := SizeT.sub st.bufsize (st.parse.length - endptr.length)
          finfo := value.store parseval st.finfo
          found := Function.update st.found value true } : Walk FinfoState) = .done st' →
      PathWithin bound st' := by
    intro value hne hsto
    obtain ⟨-, -, hsto⟩ := Walk.bind_eq_done.1 hsto
    cases hsto
    refine h.move hend ?_ (Function.update_of_ne (Ne.symm hne) _ _)
    cases value <;> rfl
  cases value with
  | mtime =>
    obtain ⟨c, -, hdone⟩ := Walk.bind_eq_done.1 hdone
    obtain ⟨-, -, hdone⟩ := Walk.bind_eq_done.1 hdone
    exact storeMtime_within h hend hdone
  | path =>
    obtain ⟨c, -, hdone⟩ := Walk.bind_eq_done.1 hdone
    obtain ⟨-, -, hdone⟩ := Walk.bind_eq_done.1 hdone
    refine storePath_within ?_ hdone
    rw [length_tail]
    omega
  | inode => exact hnum .inode (by simp) hdone
  | mode => exact hnum .mode (by simp) hdone
  | owner => exact hnum .owner (by simp) hdone
  | group => exact hnum .group (by simp) hdone
  | size => exact hnum .size (by simp) hdone
  | eof => exact hnum .eof (by simp) hdone

theorem parseValue_within {alloc : Bool} (h : PathWithin bound st)
    (hdone : parseValue alloc st = .done st') : PathWithin bound st' := by
  unfold parseValue at hdone
  obtain ⟨tag, -, hdone⟩ := Walk.bind_eq_done.1 hdone
  obtain ⟨⟨parseval, endptr⟩, hnum, hdone⟩ := Walk.bind_eq_done.1 hdone
  obtain ⟨-, -, hdone⟩ := Walk.bind_eq_done.1 hdone
  obtain ⟨value, -, hdone⟩ := Walk.bind_eq_done.1 hdone
  have hlen := parseNumber_length hnum
  rw [length_tail] at hlen
  exact interpretValue_within h (by omega) hdone

theorem finfoLoop_within {alloc : Bool} : ∀ {fuel : Nat} {st : FinfoState}, PathWithin bound st →
    finfoLoop alloc fuel st = .done st' → PathWithin bound st' := by
  intro fuel
  induction fuel with
  | zero => exact fun _ hdone => nomatch hdone
  | succ fuel ih =>
    intro st h hdone
    rw [finfoLoop] at hdone
    obtain ⟨more, -, hdone⟩ := Walk.bind_eq_done.1 hdone
    cases more with
    | false =>
      cases hdone
      exact h
    | true =>
      obtain ⟨next, hnext, hdone⟩ := Walk.bind_eq_done.1 hdone
      exact ih (parseValue_within h hnext) hdone

theorem skipWord_length {word : List Char} (hdone : skipWord word st = .done st') :
    st'.parse.length = st.parse.length - word.length ∧ st'.found = st.found := by
  unfold skipWord at hdone
  obtain ⟨-, -, hdone⟩ := Walk.bind_eq_done.1 hdone
  obtain ⟨found, -, hdone⟩ := Walk.bind_eq_done.1 hdone
  obtain ⟨-, -, hdone⟩ := Walk.bind_eq_done.1 hdone
  cases hdone
  exact ⟨length_drop, rfl⟩

end PathWithin

theorem parseFinfoAt_path_length {fuel bufsize : Nat} {finfobuf : List Char} {uninit : RecoveryFinfo}
    {st : FinfoState} (hdone : parseFinfoAt fuel finfobuf bufsize uninit = .done st) :
    st.finfo.path.length + st.parse.length ≤ finfobuf.length - msgHead.length - finfoType.length := by
  unfold parseFinfoAt at hdone
  obtain ⟨headed, hhead, hdone⟩ := Walk.bind_eq_done.1 hdone
  obtain ⟨typed, htype, hdone⟩ := Walk.bind_eq_done.1 hdone
  obtain ⟨looped, hloop, hdone⟩ := Walk.bind_eq_done.1 hdone
  unfold checkFinfo at hdone
  obtain ⟨-, -, hdone⟩ := Walk.bind_eq_done.1 hdone
  obtain ⟨u, hall, hdone⟩ := Walk.bind_eq_done.1 hdone
  cases hdone
  obtain ⟨hheadlen, hheadfound⟩ := skipWord_length hhead
  obtain ⟨htypelen, htypefound⟩ := skipWord_length htype
  have hstart : PathWithin (finfobuf.length - msgHead.length - finfoType.length) typed := by
    refine ⟨by rw [htypelen, hheadlen], ?_⟩
    intro hread
    rw [htypefound, hheadfound] at hread
    cases hread
  have hpath : st.found .path = true :=
    List.all_eq_true.1 (Walk.check_eq_done.1 hall) .path (by decide)
  exact (finfoLoop_within hstart hloop).path hpath

/-! ## A turn of the loop over the files -/

/-- The record of a file is found, and it is not refused. -/
structure RecoveryFinfo.Recoverable (finfo : RecoveryFinfo) : Prop where
  clear : ¬ HidesStart finfo.path
  nsec : finfo.mtimeNsec ≤ nsecMax

instance (finfo : RecoveryFinfo) : Decidable finfo.Recoverable :=
  decidable_of_iff (¬ HidesStart finfo.path ∧ finfo.mtimeNsec ≤ nsecMax)
    ⟨fun h => ⟨h.1, h.2⟩, fun h => ⟨h.clear, h.nsec⟩⟩

section Populate

variable {uninit : Nat → RecoveryFinfo} {file : RecoveryFile} {files result : List RecoveryFile}
  {before after : List Char}

theorem populateLoop_suffix : ∀ {fuel : Nat} {before after : List Char} {files : List RecoveryFile},
    populateLoop uninit fuel before after files = .done result → files <:+ result := by
  intro fuel
  induction fuel with
  | zero => exact fun hdone => nomatch hdone
  | succ fuel ih =>
    intro before after files hdone
    rw [populateLoop] at hdone
    split at hdone
    · cases hdone
      exact suffix_rfl
    · obtain ⟨parsed, -, hdone⟩ := Walk.bind_eq_done.1 hdone
      obtain ⟨st, -, hdone⟩ := Walk.bind_eq_done.1 hdone
      obtain ⟨u, -, hdone⟩ := Walk.bind_eq_done.1 hdone
      exact (suffix_cons _ _).trans (ih hdone)

/-- A text that is the record of a file is not empty, and the search and the parser agree on it. -/
structure RecordOf (finfo : RecoveryFinfo) (record : List Char) : Prop where
  pos : 0 < record.length
  locate : ¬ HidesStart finfo.path → ∀ before,
    locateFinfoStart (record.reverse ++ before) = some (record.length - 1)
  hidden : HidesStart finfo.path → ∀ {before n},
    locateFinfoStart (record.reverse ++ before) = some n → n < finfo.path.length + msgTail.length
  parse : ∀ after uninit, ∃ st : FinfoState, st.Complete finfo after ∧
    parseFinfoAt ((record ++ after).length + 1) (record ++ after) record.length uninit =
      if finfo.mtimeNsec ≤ nsecMax then .done st else .error

theorem RecoveryFinfo.Printable.recordOf {finfo : RecoveryFinfo} (h : finfo.Printable) :
    RecordOf finfo (recoveryFinfotostr finfo) := by
  have hlen := recoveryFinfotostr_length finfo
  refine ⟨?_, locateFinfoStart_of_clear, fun hhides => locateFinfoStart_of_hidden hhides, ?_⟩
  · generalize (recoveryFinfotostr finfo).length = length at hlen
    omega
  · intro after uninit
    have hfuel : 9 ≤ (recoveryFinfotostr finfo ++ after).length + 1 := by
      rw [length_append]
      generalize (recoveryFinfotostr finfo).length = length at hlen
      omega
    obtain ⟨fuel, hfuel⟩ := Nat.exists_eq_add_of_le' hfuel
    rw [hfuel]
    exact parseFinfoAt_printed h after uninit fuel

theorem populateLoop_recoverable {record : List Char} (h : RecordOf file.finfo record)
    (hrec : file.finfo.Recoverable)
    (hdata : before = [] ∧ file.data.length ≤ file.finfo.size ∨ file.data.length = file.finfo.size)
    (fuel : Nat) :
    populateLoop uninit (fuel + 1) (record.reverse ++ (file.data.reverse ++ before)) after files =
      populateLoop uninit fuel before (file.data ++ (record ++ after)) (file :: files) := by
  have hne : record.reverse ++ (file.data.reverse ++ before) ≠ [] := by
    intro hnil
    have hlen := congrArg List.length hnil
    have hpos := h.pos
    rw [length_append, length_reverse, length_nil] at hlen
    omega
  have htake : (record.reverse ++ (file.data.reverse ++ before)).take record.length =
      record.reverse := by
    rw [← length_reverse]
    exact take_left
  have hdrop : (record.reverse ++ (file.data.reverse ++ before)).drop record.length =
      file.data.reverse ++ before := by
    rw [← length_reverse]
    exact drop_left
  have hinobj : (if file.finfo.size > (file.data.reverse ++ before).length then
      (file.data.reverse ++ before).length else file.finfo.size) = file.data.reverse.length := by
    rw [length_append, length_reverse]
    rcases hdata with ⟨rfl, hle⟩ | heq
    · rw [length_nil]
      split <;> omega
    · rw [if_neg (by omega), heq]
  obtain ⟨st, hst, hparse⟩ := h.parse after (uninit fuel)
  have hcurpos : st.parse.length = after.length + msgTail.length := by
    rw [hst.parse, length_append, Nat.add_comm]
  rw [populateLoop, if_neg hne, h.locate hrec.clear, Walk.ofOption, Walk.done_bind]
  dsimp only
  rw [Nat.sub_add_cancel h.pos, htake, reverse_reverse, hparse, if_pos hrec.nsec, Walk.done_bind,
    decide_eq_true hcurpos, Walk.check_true, Walk.done_bind, hdrop, hst.finfo, hinobj, take_left,
    drop_left, reverse_reverse]

/-- Two ends of a list of the same length are the same. -/
theorem eq_of_suffix {file' : RecoveryFile} (h : file :: files <:+ result)
    (h' : file' :: files <:+ result) : file = file' := by
  have hsuf := suffix_of_suffix_length_le h h' le_rfl
  exact (List.cons.inj (hsuf.eq_of_length rfl)).1

theorem populateLoop_unrecoverable {record : List Char} (h : RecordOf file.finfo record)
    (hrec : ¬ file.finfo.Recoverable) {fuel : Nat}
    (hdone : populateLoop uninit fuel (record.reverse ++ before) after files = .done result) :
    ¬ file :: files <:+ result := by
  intro hsuf
  cases fuel with
  | zero => cases hdone
  | succ fuel =>
    have hne : record.reverse ++ before ≠ [] := by
      intro hnil
      have hlen := congrArg List.length hnil
      have hpos := h.pos
      rw [length_append, length_reverse, length_nil] at hlen
      omega
    rw [populateLoop, if_neg hne] at hdone
    obtain ⟨parsed, hlocate, hdone⟩ := Walk.bind_eq_done.1 hdone
    obtain ⟨st, hparse, hdone⟩ := Walk.bind_eq_done.1 hdone
    obtain ⟨u, hcurpos, hdone⟩ := Walk.bind_eq_done.1 hdone
    have hcurpos := of_decide_eq_true (Walk.check_eq_done.1 hcurpos)
    have hlocate := Walk.ofOption_eq_done.1 hlocate
    have hfinfo : file.finfo = st.finfo :=
      congrArg RecoveryFile.finfo (eq_of_suffix hsuf (populateLoop_suffix hdone))
    by_cases hhides : HidesStart file.finfo.path
    · -- the path of what is parsed would be as long as the text it is in
      have hlt := h.hidden hhides hlocate
      have hle := parseFinfoAt_path_length hparse
      have hhead : msgHead.length = 7 := rfl
      have htail : msgTail.length = 2 := rfl
      rw [length_append, length_reverse, length_take, ← hfinfo, hcurpos] at hle
      omega
    · have hnsec : ¬ file.finfo.mtimeNsec ≤ nsecMax := fun hle => hrec ⟨hhides, hle⟩
      have hparsed : record.length - 1 = parsed := by
        rw [h.locate hhides] at hlocate
        exact Option.some.inj hlocate
      have htake : (record.reverse ++ before).take (parsed + 1) = record.reverse := by
        rw [← hparsed, Nat.sub_add_cancel h.pos, ← length_reverse]
        exact take_left
      obtain ⟨st', -, href⟩ := h.parse after (uninit fuel)
      rw [htake, reverse_reverse, ← hparsed, Nat.sub_add_cancel h.pos, href,
        if_neg hnsec] at hparse
      cases hparse

end Populate

/-! ## All files of an object -/

theorem Laid.init {files : List RecoveryFile} {file : RecoveryFile} (h : Laid (files ++ [file])) :
    Laid files := by
  cases files with
  | nil => exact ⟨fun _ hfst => (nomatch hfst), fun _ hlater => (nomatch hlater)⟩
  | cons first files => exact ⟨h.first, fun file hfile => h.later file (mem_append_left _ hfile)⟩

theorem Laid.last {files : List RecoveryFile} {file : RecoveryFile} (h : Laid (files ++ [file])) :
    files = [] ∧ file.data.length ≤ file.finfo.size ∨ file.data.length = file.finfo.size := by
  cases files with
  | nil => exact .inl ⟨rfl, h.first file rfl⟩
  | cons first files =>
    exact .inr (h.later file (mem_append_right _ (mem_singleton_self _)))

theorem populateLoop_iff {uninit : Nat → RecoveryFinfo} {files : List RecoveryFile}
    (hprint : ∀ file ∈ files, file.finfo.Printable) (hlaid : Laid files) :
    ∀ {fuel : Nat} (after : List Char) (found : List RecoveryFile),
      (files.flatMap RecoveryFile.text).length < fuel →
      (populateLoop uninit fuel (files.flatMap RecoveryFile.text).reverse after found =
          .done (files ++ found) ↔
        ∀ file ∈ files, file.finfo.Recoverable) := by
  induction files using reverseRecOn with
  | nil =>
    intro fuel after found hfuel
    obtain ⟨fuel, rfl⟩ := Nat.exists_eq_add_of_lt hfuel
    exact iff_of_true rfl (fun _ h => nomatch h)
  | append_singleton files file ih =>
    intro fuel after found hfuel
    have hrecord := (hprint file (mem_append_right _ (mem_singleton_self _))).recordOf
    have htext : (files ++ [file]).flatMap RecoveryFile.text =
        files.flatMap RecoveryFile.text ++ (file.data ++ recoveryFinfotostr file.finfo) := by
      rw [flatMap_append, flatMap_singleton, RecoveryFile.text]
    rw [htext] at hfuel ⊢
    generalize recoveryFinfotostr file.finfo = record at hrecord hfuel ⊢
    rw [reverse_append, reverse_append, append_assoc, append_assoc,
      singleton_append, forall_mem_append, forall_mem_singleton]
    by_cases hrec : file.finfo.Recoverable
    · have hdata : (files.flatMap RecoveryFile.text).reverse = [] ∧
          file.data.length ≤ file.finfo.size ∨ file.data.length = file.finfo.size := by
        rcases hlaid.last with ⟨rfl, hle⟩ | heq
        · exact .inl ⟨rfl, hle⟩
        · exact .inr heq
      rw [length_append, length_append] at hfuel
      have hpos := hrecord.pos
      cases fuel with
      | zero => omega
      | succ fuel =>
        have hinit := fun file hfile => hprint file (mem_append_left _ hfile)
        rw [populateLoop_recoverable hrecord hrec hdata, ih hinit hlaid.init _ _ (by omega)]
        exact (and_iff_left hrec).symm
    · refine iff_of_false (fun hdone => ?_) (fun h => hrec h.2)
      exact populateLoop_unrecoverable hrecord hrec hdone (suffix_append _ _)

theorem recoverObject_eq {text content : List Char} {header : RecoveryHeader}
    (h : parseRecovHeader text = .done (header, content)) (uninit : Nat → RecoveryFinfo) (calls : Nat) :
    recoverObject uninit calls text =
      populateLoop uninit (content.length + 1) content.reverse [] [] >>= fun files =>
        pure (header, files.take calls) := by
  unfold recoverObject recoveryInit
  rw [h, Walk.done_bind]
  dsimp only
  cases populateLoop uninit (content.length + 1) content.reverse [] [] with
  | done files =>
    simp only [Walk.done_bind]
    rw [← nextfiles_eq_take calls header]
    rfl
  | error => rfl
  | fault => rfl
  | running => rfl

theorem take_eq_iff {found files : List RecoveryFile} :
    found.take (files.length + 1) = files ↔ found = files := by
  refine ⟨fun h => ?_, fun h => by rw [h, take_of_length_le (Nat.le_succ _)]⟩
  have hlen := congrArg List.length h
  rw [length_take] at hlen
  rw [← h, take_of_length_le (by omega)]

/-- An object with a header and files is recovered just if the record of each of them is found and not
refused: all files are handed out, in order, and then no more. -/
theorem recoverObject_iff {header : RecoveryHeader} {files : List RecoveryFile}
    (hheader : header.Printable) (hctag : '|' ∉ header.ctag)
    (hstreamid : ¬ msgTail <:+: header.streamid) (hfiles : ∀ file ∈ files, file.finfo.Printable)
    (hlaid : Laid files) (hlt : (objectText header files).length < SizeT.modulus)
    (uninit : Nat → RecoveryFinfo) :
    recoverObject uninit (files.length + 1) (objectText header files) = .done (header, files) ↔
      ∀ file ∈ files, file.finfo.Recoverable := by
  generalize htext : objectText header files = text at hlt ⊢
  rw [objectText] at htext
  have hloop := @populateLoop_iff uninit files hfiles hlaid _ [] [] (Nat.lt_succ_self _)
  rw [List.append_nil] at hloop
  rw [recoverObject_eq (parseRecovHeader_text hheader hctag hstreamid htext.symm hlt), ← hloop,
    Walk.bind_eq_done]
  constructor
  · rintro ⟨found, hfound, htake⟩
    rw [hfound, take_eq_iff.1 (congrArg Prod.snd (Walk.done.inj htake))]
  · intro hfound
    exact ⟨files, hfound, congrArg (fun files => Walk.done (header, files)) (take_eq_iff.2 rfl)⟩

def sampleFile (path : String) (size : Nat) (data : String) : RecoveryFile where
  finfo :=
    { inode := 7, mode := 0o644, owner := 1000, group := 1000, size := size, mtimeSec := 1
      mtimeNsec := 5, eof := true, path := path.toList }
  data := data.toList

def sampleHeader : RecoveryHeader where
  majorversion := 0
  minorversion := 1
  ctag := "client".toList
  streamid := "stream)".toList

/-- The first file has begun in another object; the data of the second one looks like a record. -/
theorem sampleFiles_recovered :
    recoverObject (fun _ => (sampleFile "" 0 "").finfo) 3
        (objectText sampleHeader [sampleFile "a|p1:b" 9 "bc", sampleFile "FINFO|" 8 "FINFO||)"]) =
      .done (sampleHeader, [sampleFile "a|p1:b" 9 "bc", sampleFile "FINFO|" 8 "FINFO||)"]) := by
  refine (recoverObject_iff ?_ (by decide +kernel) (by decide +kernel) ?_ ?_ (by decide +kernel) _).2
    (by decide +kernel)
  · constructor <;> decide +kernel
  · rw [forall_mem_cons, forall_mem_singleton]
    constructor <;> constructor <;> decide +kernel
  · constructor <;> decide +kernel

/-- A path with the type string in it is taken for the beginning of the record. -/
theorem hiddenFile_not_recovered :
    ('|' ∉ sampleHeader.ctag ∧ ¬ msgTail <:+: sampleHeader.streamid ∧
      (sampleFile "dir/FINFO||x" 2 "bc").data.length = (sampleFile "dir/FINFO||x" 2 "bc").finfo.size ∧
      '\x00' ∉ (sampleFile "dir/FINFO||x" 2 "bc").finfo.path) ∧
    recoverObject (fun _ => (sampleFile "" 0 "").finfo) 2
        (objectText sampleHeader [sampleFile "dir/FINFO||x" 2 "bc"]) ≠
      .done (sampleHeader, [sampleFile "dir/FINFO||x" 2 "bc"]) := by
  decide +kernel

end Marfs.Recovery
