import Marfs.Search.Dispatch
import Marfs.Tape.Filter

/-!
# Every accepted line is written once

The subtasks of a task are the groups in which the lines accepted so far are dispatched by their command
values, and the input of a subtask is the text of its group.  This holds of every state that invocations of
`filter` leave, whatever the table answers in each of them: an invocation skips exactly the lines up to the
last accepted one, and the files it opens hold what was written before.
-/

namespace Marfs.Tape

open Marfs.Search List

def textOf (lines : List String) : String := lines.foldl (fun text line => text ++ (line ++ "\n")) ""

theorem textOf_concat (lines : List String) (line : String) :
    textOf (lines ++ [line]) = textOf lines ++ (line ++ "\n") := by
  rw [textOf, foldl_append]
  rfl

namespace Task

def lineSent (config : Config) (format : LineFormat) (task : Task) (index : Nat) :
    Option (List (String × String) × String) := do
  let sourceline ← task.lines[index]?
  let linecaptures ← config.taskContentRegex sourceline
  let cmdvals ← populate config.taskContentValues task.taskdef.commandValues linecaptures
    (pathTable task.pathvals task.taskdef.commandValues)
  let filevals ← populate config.taskContentValues format.fileFormatValues linecaptures
    (pathTable task.pathvals format.fileFormatValues)
  let outputline ← (formatLine format.word format.fileFormat filevals).toOption
  return (cmdvals, outputline)

end Task

/-! ## Appending -/

section Append

variable {event : FilesEvent} {files files' : Files} {st : SubTask} {writer : Nat}

@[simp] theorem append_some (text more : String) : append (some text) more = some (text ++ more) := rfl

theorem append_getD (file : Option String) (text : String) :
    append file text = some (file.getD "" ++ text) := rfl

theorem appendInput_nil {count : Nat} (h : (files.input count).isSome) :
    files.appendInput count "" = files := by
  obtain ⟨text, htext⟩ := Option.isSome_iff_exists.1 h
  have happend : append (files.input count) "" = files.input count := by
    rw [htext, append_some, String.append_empty]
  rw [Files.appendInput, happend, Function.update_eq_self]

theorem getWriter_ok (h : st.getWriter event files = .ok (writer, files')) :
    writer = st.count ∧ files' = files.appendInput st.count "" := by
  unfold SubTask.getWriter at h
  split at h
  · split at h
    · obtain ⟨rfl, rfl⟩ := Prod.mk.inj (Except.ok.inj h)
      exact ⟨rfl, rfl⟩
    · cases h
  · cases h

theorem openWriters_ok {subtasks : List SubTask} {writers : List Nat}
    (h : openWriters event files subtasks = .ok (writers, files'))
    (hthere : ∀ st ∈ subtasks, (files.input st.count).isSome) :
    writers = subtasks.map SubTask.count ∧ files' = files := by
  induction subtasks generalizing writers files files' with
  | nil =>
    obtain ⟨rfl, rfl⟩ := Prod.mk.inj (Except.ok.inj h)
    exact ⟨rfl, rfl⟩
  | cons st rest ih =>
    rw [openWriters] at h
    split at h
    · cases h
    · next writer mid hwr =>
      obtain ⟨rfl, rfl⟩ := getWriter_ok hwr
      rw [appendInput_nil (hthere st mem_cons_self)] at h
      split at h
      · cases h
      · next writers' files'' hrest =>
        obtain ⟨rfl, rfl⟩ := ih hrest fun st hst => hthere st (mem_cons_of_mem _ hst)
        obtain ⟨rfl, rfl⟩ := Prod.mk.inj (Except.ok.inj h)
        exact ⟨rfl, rfl⟩

end Append

/-! ## What a line does -/

section Line

variable {config : Config} {format : LineFormat} {event : FilesEvent} {index : Nat} {sourceline : String}
  {s s' : Filtering} {pos : Nat}

theorem findSubtask_ok (h : s.findSubtask event = .ok (s', pos)) :
    (s' = s ∧ s.task.subtasks.findIdx? (fun st => sameVals st.cmdvals s.cmdvals) = some pos) ∨
      (s.task.subtasks.findIdx? (fun st => sameVals st.cmdvals s.cmdvals) = none ∧
        pos = s.task.subtasks.length ∧
        s' = { s with
          task := { s.task with
            subtasks := s.task.subtasks ++ [SubTask.new s.cmdvals s.task.timestamp s.task.subtasks.length] }
          files := s.files.appendInput s.task.subtasks.length ""
          writers := s.writers ++ [s.task.subtasks.length] }) := by
  unfold Filtering.findSubtask at h
  split at h
  · next pos' hpos =>
    obtain ⟨rfl, rfl⟩ := Prod.mk.inj (Except.ok.inj h)
    exact Or.inl ⟨rfl, hpos⟩
  · next hnone =>
    dsimp only at h
    split at h
    · cases h
    · next writer files hwr =>
      obtain ⟨rfl, rfl⟩ := getWriter_ok hwr
      obtain ⟨rfl, rfl⟩ := Prod.mk.inj (Except.ok.inj h)
      exact Or.inr ⟨hnone, rfl, rfl⟩

variable {how : LineEnd}

theorem writeLine_cases (h : s.writeLine format event index sourceline = some how) :
    (∃ s' e, how = .failed s' e ∧ s'.verdicts = s.verdicts ∧
        s'.task.parsedoffset = s.task.parsedoffset ∧ s'.task.drop s'.objtable = s.task.drop s.objtable) ∨
      ∃ outputline mid pos writer, formatLine format.word format.fileFormat s.filevals = .ok outputline ∧
        Filtering.findSubtask event { s with files := s.files.appendFiltered (sourceline ++ "\n") } =
          .ok (mid, pos) ∧
        mid.writers[pos]? = some writer ∧
        how = .next { mid with files := mid.files.appendInput writer (outputline ++ "\n") } := by
  unfold Filtering.writeLine at h
  split at h
  · exact Or.inl ⟨_, _, (Option.some.inj h).symm, rfl, rfl, rfl⟩
  · dsimp only at h
    split at h
    · exact Or.inl ⟨_, _, (Option.some.inj h).symm, rfl, rfl, rfl⟩
    · next outputline hformat =>
      split at h
      · exact Or.inl ⟨_, _, (Option.some.inj h).symm, rfl, rfl, rfl⟩
      · next mid pos hfind =>
        split at h
        · cases h
        · next writer hwr =>
          split at h
          · refine Or.inl ⟨_, _, (Option.some.inj h).symm, ?_⟩
            rcases findSubtask_ok hfind with ⟨rfl, -⟩ | ⟨-, -, rfl⟩
            · exact ⟨rfl, rfl, rfl⟩
            · exact ⟨rfl, rfl, rfl⟩
          · exact Or.inr ⟨outputline, mid, pos, writer, hformat, hfind, hwr, (Option.some.inj h).symm⟩

def Filtering.looked (s : Filtering) (index : Nat) (cmdvals filevals : List (String × String))
    (verdict : Except LookupError Unit) (objtable : ObjTable) : Filtering :=
  { s with cmdvals, filevals, objtable, verdicts := s.verdicts ++ [(index, verdict)] }

theorem filterLine_cases (h : s.filterLine config format event index sourceline = some how) :
    (∃ e, how = .failed s e) ∨ (index < s.task.parsedoffset ∧ how = .next s) ∨
      ∃ linecaptures cmdvals filevals object verdict objtable, s.task.parsedoffset ≤ index ∧
        config.taskContentRegex sourceline = some linecaptures ∧
        populate config.taskContentValues s.task.taskdef.commandValues linecaptures s.cmdvals = some cmdvals ∧
        populate config.taskContentValues format.fileFormatValues linecaptures s.filevals = some filevals ∧
        s.task.lineObject config linecaptures = some object ∧
        s.objtable.insert object s.task.taskdef s.task.timestamp = (verdict, objtable) ∧
        (verdict = .error .wait ∧ how = .wait (s.looked index cmdvals filevals verdict objtable) ∨
          verdict = .error .skip ∧ how = .next (s.looked index cmdvals filevals verdict objtable) ∨
          (∃ error e, verdict = .error (.conflict error) ∧
            how = .failed (s.looked index cmdvals filevals verdict objtable) e) ∨
          verdict = .ok () ∧ Filtering.writeLine format event index sourceline
            { s.looked index cmdvals filevals verdict objtable with
              task := { s.task with parsedoffset := index + 1 } } = some how) := by
  unfold Filtering.filterLine at h
  split at h
  · exact Or.inl ⟨_, (Option.some.inj h).symm⟩
  by_cases hskip : index < s.task.parsedoffset
  · rw [if_pos hskip] at h
    exact Or.inr (Or.inl ⟨hskip, (Option.some.inj h).symm⟩)
  rw [if_neg hskip] at h
  split at h
  · exact Or.inl ⟨_, (Option.some.inj h).symm⟩
  · next linecaptures hregex =>
    split at h
    · next cmdvals filevals object hvals hfvals hobj =>
      rcases hinsert : s.objtable.insert object s.task.taskdef s.task.timestamp with ⟨verdict, objtable⟩
      rw [hinsert] at h
      dsimp only at h
      refine Or.inr (Or.inr ⟨linecaptures, cmdvals, filevals, object, verdict, objtable,
        Nat.le_of_not_lt hskip, hregex, hvals, hfvals, hobj, hinsert, ?_⟩)
      split at h
      · exact Or.inl ⟨rfl, (Option.some.inj h).symm⟩
      · exact Or.inr (Or.inl ⟨rfl, (Option.some.inj h).symm⟩)
      · exact Or.inr (Or.inr (Or.inl ⟨_, _, rfl, (Option.some.inj h).symm⟩))
      · exact Or.inr (Or.inr (Or.inr ⟨rfl, h⟩))
    · cases h

end Line

/-! ## What is written -/

structure Copied (config : Config) (format : LineFormat) (task : Task) (p : Progress) : Prop where
  frame : p.task = { task with parsedoffset := p.task.parsedoffset, subtasks := p.task.subtasks }
  increasing : (acceptedLines p.verdicts).Pairwise (· < ·)
  bounded : ∀ index ∈ acceptedLines p.verdicts, index < p.task.parsedoffset
  valid : ∀ index ∈ acceptedLines p.verdicts, (task.lineSent config format index).isSome
  filtered : p.files.filtered.getD "" = textOf ((acceptedLines p.verdicts).filterMap fun index => task.lines[index]?)

def sentLines (config : Config) (format : LineFormat) (task : Task)
    (verdicts : List (Nat × Except LookupError Unit)) : List (List (String × String) × String) :=
  (acceptedLines verdicts).filterMap (task.lineSent config format)

structure Settled (config : Config) (format : LineFormat) (task : Task) (p : Progress) : Prop
    extends Copied config format task p where
  subtasks : ∀ n : Nat, p.task.subtasks[n]? = (dispatchAll (sentLines config format task p.verdicts))[n]?.map
    fun group => SubTask.new group.1 task.timestamp n
  inputs : ∀ n : Nat, p.files.input n = (dispatchAll (sentLines config format task p.verdicts))[n]?.map
    fun group => textOf group.2

section Settled

variable {config : Config} {format : LineFormat} {task : Task} {p p' : Progress} {index : Nat}
  {sourceline outputline : String} {cmdvals : List (String × String)}

theorem acceptedLines_ok (verdicts : List (Nat × Except LookupError Unit)) (index : Nat) :
    acceptedLines (verdicts ++ [(index, .ok ())]) = acceptedLines verdicts ++ [index] := by
  rw [acceptedLines, filterMap_append]
  rfl

theorem acceptedLines_error (verdicts : List (Nat × Except LookupError Unit)) (index : Nat)
    (error : LookupError) : acceptedLines (verdicts ++ [(index, .error error)]) = acceptedLines verdicts := by
  rw [acceptedLines, filterMap_append]
  exact List.append_nil _

theorem Settled.start (task : Task) (hsubs : task.subtasks = []) :
    Settled config format task (Progress.start task) where
  frame := rfl
  increasing := List.Pairwise.nil
  bounded := fun _ h => absurd h not_mem_nil
  valid := fun _ h => absurd h not_mem_nil
  filtered := rfl
  subtasks := by
    intro n
    rw [Progress.start, hsubs]
    rfl
  inputs := fun _ => rfl

theorem Copied.accept (h : Copied config format task p) (hidx : p.task.parsedoffset ≤ index)
    (hline : task.lines[index]? = some sourceline)
    (hsent : task.lineSent config format index = some (cmdvals, outputline))
    (htask : p'.task = { p.task with parsedoffset := index + 1, subtasks := p'.task.subtasks })
    (hverd : p'.verdicts = p.verdicts ++ [(index, .ok ())])
    (hfilt : p'.files.filtered = append p.files.filtered (sourceline ++ "\n")) :
    Copied config format task p' where
  frame := by
    rw [htask, h.frame]
  increasing := by
    rw [hverd, acceptedLines_ok]
    apply List.pairwise_append.2
    refine ⟨h.increasing, pairwise_singleton _ _, ?_⟩
    intro i hi j hj
    rw [List.mem_singleton.1 hj]
    exact Nat.lt_of_lt_of_le (h.bounded i hi) hidx
  bounded := by
    intro i hi
    rw [htask]
    rw [hverd, acceptedLines_ok, mem_append, mem_singleton] at hi
    dsimp only
    rcases hi with hi | rfl
    · exact Nat.lt_succ_of_lt (Nat.lt_of_lt_of_le (h.bounded i hi) hidx)
    · exact Nat.lt_succ_self i
  valid := by
    intro i hi
    rw [hverd, acceptedLines_ok, mem_append, mem_singleton] at hi
    rcases hi with hi | rfl
    · exact h.valid i hi
    · rw [hsent]
      rfl
  filtered := by
    rw [hfilt, hverd, acceptedLines_ok, filterMap_append, append_getD, Option.getD_some, h.filtered]
    have hlast : [index].filterMap (fun index => task.lines[index]?) = [sourceline] := by
      rw [filterMap_cons, hline]
      rfl
    rw [hlast, textOf_concat]

/-! ### The groups -/

theorem lineSent_iff : task.lineSent config format index = some (cmdvals, outputline) ↔
    ∃ sourceline linecaptures filevals, task.lines[index]? = some sourceline ∧
      config.taskContentRegex sourceline = some linecaptures ∧
      populate config.taskContentValues task.taskdef.commandValues linecaptures
        (pathTable task.pathvals task.taskdef.commandValues) = some cmdvals ∧
      populate config.taskContentValues format.fileFormatValues linecaptures
        (pathTable task.pathvals format.fileFormatValues) = some filevals ∧
      formatLine format.word format.fileFormat filevals = .ok outputline := by
  have htoOption : ∀ res : Except String String, res.toOption = some outputline ↔ res = .ok outputline := by
    intro res
    cases res with
    | error e => exact ⟨nofun, nofun⟩
    | ok text => exact ⟨fun h => congrArg Except.ok (Option.some.inj h), fun h => congrArg some (Except.ok.inj h)⟩
  unfold Task.lineSent
  constructor
  · intro h
    obtain ⟨sourceline, hline, h⟩ := Option.bind_eq_some_iff.1 h
    obtain ⟨linecaptures, hregex, h⟩ := Option.bind_eq_some_iff.1 h
    obtain ⟨cmdvals', hvals, h⟩ := Option.bind_eq_some_iff.1 h
    obtain ⟨filevals, hfvals, h⟩ := Option.bind_eq_some_iff.1 h
    obtain ⟨text, htext, h⟩ := Option.bind_eq_some_iff.1 h
    obtain ⟨rfl, rfl⟩ := Prod.mk.inj (Option.some.inj h)
    exact ⟨sourceline, linecaptures, filevals, hline, hregex, hvals, hfvals, (htoOption _).1 htext⟩
  · rintro ⟨sourceline, linecaptures, filevals, hline, hregex, hvals, hfvals, hformat⟩
    simp only [hline, hregex, hvals, hfvals, (htoOption _).2 hformat, Option.bind_eq_bind,
      Option.bind_some, Option.pure_def]

theorem lineSent_keys (h : task.lineSent config format index = some (cmdvals, outputline)) :
    cmdvals.map Prod.fst = (config.taskContentValues.filter task.taskdef.commandValues.contains).foldl withKey
      ((pathTable task.pathvals task.taskdef.commandValues).map Prod.fst) := by
  obtain ⟨sourceline, linecaptures, filevals, -, -, hvals, -, -⟩ := lineSent_iff.1 h
  exact populate_keys hvals

theorem lineSent_nodup (h : task.lineSent config format index = some (cmdvals, outputline)) :
    (cmdvals.map Prod.fst).Nodup := by
  rw [lineSent_keys h]
  exact nodup_foldl_withKey (nodup_pathTable _ _)

variable {verdicts : List (Nat × Except LookupError Unit)}

theorem mem_sentLines :
    (cmdvals, outputline) ∈ sentLines config format task verdicts ↔
      ∃ index ∈ acceptedLines verdicts, task.lineSent config format index = some (cmdvals, outputline) :=
  mem_filterMap

theorem group_sent {group : List (String × String) × List String}
    (h : group ∈ dispatchAll (sentLines config format task verdicts)) :
    ∃ index ∈ acceptedLines verdicts, ∃ outputline,
      task.lineSent config format index = some (group.1, outputline) := by
  have hkey := mem_keys.1 (List.mem_map.2 ⟨group, h, rfl⟩)
  obtain ⟨⟨cmdvals, outputline⟩, hmem, hkey⟩ := List.mem_map.1 hkey
  dsimp only at hkey
  subst hkey
  obtain ⟨index, hidx, hsent⟩ := mem_sentLines.1 hmem
  exact ⟨index, hidx, outputline, hsent⟩

theorem Settled.sameVals_iff (h : Settled config format task p)
    (hsent : task.lineSent config format index = some (cmdvals, outputline)) {n : Nat} {st : SubTask}
    (hst : p.task.subtasks[n]? = some st) : sameVals st.cmdvals cmdvals = true ↔ st.cmdvals = cmdvals := by
  rw [h.subtasks n] at hst
  obtain ⟨group, hgroup, rfl⟩ := Option.map_eq_some_iff.1 hst
  obtain ⟨index', -, outputline', hsent'⟩ := group_sent (mem_of_getElem? hgroup)
  exact Tape.sameVals_iff ((lineSent_keys hsent').trans (lineSent_keys hsent).symm) (lineSent_nodup hsent')

theorem Settled.length (h : Settled config format task p) :
    p.task.subtasks.length = (dispatchAll (sentLines config format task p.verdicts)).length := by
  apply Nat.le_antisymm
  · apply List.getElem?_eq_none_iff.1
    rw [h.subtasks, List.getElem?_eq_none (Nat.le_refl _)]
    rfl
  · apply List.getElem?_eq_none_iff.1
    have hn := h.subtasks p.task.subtasks.length
    rw [List.getElem?_eq_none (Nat.le_refl _)] at hn
    exact Option.map_eq_none_iff.1 hn.symm

theorem sentLines_ok (hsent : task.lineSent config format index = some (cmdvals, outputline))
    (verdicts : List (Nat × Except LookupError Unit)) :
    sentLines config format task (verdicts ++ [(index, .ok ())]) =
      sentLines config format task verdicts ++ [(cmdvals, outputline)] := by
  rw [sentLines, acceptedLines_ok, filterMap_append, ← sentLines, filterMap_cons, hsent]
  rfl

theorem Settled.joins (h : Settled config format task p) (hidx : p.task.parsedoffset ≤ index)
    (hline : task.lines[index]? = some sourceline)
    (hsent : task.lineSent config format index = some (cmdvals, outputline)) {pos : Nat}
    (hpos : p.task.subtasks.findIdx? (fun st => sameVals st.cmdvals cmdvals) = some pos) :
    Settled config format task
      { task := { p.task with parsedoffset := index + 1 }
        files := (p.files.appendFiltered (sourceline ++ "\n")).appendInput pos (outputline ++ "\n")
        verdicts := p.verdicts ++ [(index, .ok ())] } := by
  obtain ⟨hlt, hsame, -⟩ := List.findIdx?_eq_some_iff_getElem.1 hpos
  have hst : p.task.subtasks[pos]? = some p.task.subtasks[pos] := List.getElem?_eq_getElem hlt
  have hvals := (h.sameVals_iff hsent hst).1 hsame
  rw [h.subtasks pos] at hst
  obtain ⟨⟨key, items⟩, hgroup, hnew⟩ := Option.map_eq_some_iff.1 hst
  have hkey : key = cmdvals := by
    rw [← hvals, ← hnew]
    rfl
  subst hkey
  have hdispatch := getElem?_dispatch_found (keys_nodup _) hgroup outputline
  have hinput := h.inputs pos
  rw [hgroup] at hinput
  constructor
  · exact h.toCopied.accept hidx hline hsent rfl rfl rfl
  · intro n
    dsimp only
    rw [sentLines_ok hsent, dispatchAll_concat, hdispatch, h.subtasks n]
    by_cases hn : n = pos
    · rw [if_pos hn, hn, hgroup]
      rfl
    · rw [if_neg hn]
  · intro n
    dsimp only [Files.appendInput, Files.appendFiltered]
    rw [sentLines_ok hsent, dispatchAll_concat, hdispatch]
    by_cases hn : n = pos
    · rw [if_pos hn, hn, Function.update_self, hinput, Option.map_some, Option.map_some, append_some,
        textOf_concat]
    · rw [if_neg hn, Function.update_of_ne hn, h.inputs n]

theorem Settled.begins (h : Settled config format task p) (hidx : p.task.parsedoffset ≤ index)
    (hline : task.lines[index]? = some sourceline)
    (hsent : task.lineSent config format index = some (cmdvals, outputline))
    (hpos : p.task.subtasks.findIdx? (fun st => sameVals st.cmdvals cmdvals) = none) :
    Settled config format task
      { task := { p.task with
          parsedoffset := index + 1
          subtasks := p.task.subtasks ++ [SubTask.new cmdvals p.task.timestamp p.task.subtasks.length] }
        files := ((p.files.appendFiltered (sourceline ++ "\n")).appendInput p.task.subtasks.length
          "").appendInput p.task.subtasks.length (outputline ++ "\n")
        verdicts := p.verdicts ++ [(index, .ok ())] } := by
  have hnew : cmdvals ∉ (dispatchAll (sentLines config format task p.verdicts)).map Prod.fst := by
    intro hmem
    obtain ⟨group, hgroup, hkey⟩ := List.mem_map.1 hmem
    obtain ⟨n, hn⟩ := List.mem_iff_getElem?.1 hgroup
    have hst := h.subtasks n
    rw [hn, Option.map_some] at hst
    have hsame := (h.sameVals_iff hsent hst).2 hkey
    rw [List.findIdx?_eq_none_iff.1 hpos _ (mem_of_getElem? hst)] at hsame
    cases hsame
  have hdispatch := getElem?_dispatch_new hnew outputline
  have htimestamp : p.task.timestamp = task.timestamp := by
    rw [h.frame]
  constructor
  · exact h.toCopied.accept hidx hline hsent rfl rfl rfl
  · intro n
    dsimp only
    rw [sentLines_ok hsent, dispatchAll_concat, hdispatch, ← h.length]
    by_cases hn : n = p.task.subtasks.length
    · rw [if_pos hn, hn, List.getElem?_concat_length, htimestamp]
      rfl
    · rw [if_neg hn, ← h.subtasks n]
      rcases Nat.lt_or_gt_of_ne hn with hlt | hgt
      · exact List.getElem?_append_left hlt
      · rw [List.getElem?_eq_none (Nat.le_of_lt hgt), List.getElem?_eq_none]
        rw [length_append, length_singleton]
        exact hgt
  · intro n
    dsimp only [Files.appendInput, Files.appendFiltered]
    rw [sentLines_ok hsent, dispatchAll_concat, hdispatch, ← h.length]
    by_cases hn : n = p.task.subtasks.length
    · have hinput := h.inputs n
      rw [List.getElem?_eq_none (Nat.le_of_eq (h.length.symm.trans hn.symm))] at hinput
      rw [if_pos hn, ← hn, Function.update_self, Function.update_self, hinput]
      rfl
    · rw [if_neg hn, Function.update_of_ne hn, Function.update_of_ne hn, h.inputs n]

end Settled

/-! ## The loop -/

def LineEnd.Leaves (holds : Filtering → Prop) : LineEnd → Prop
  | .next s | .wait s => holds s
  | .failed _ _ => True

/-- The invariant of the loop. -/
structure Working (config : Config) (format : LineFormat) (task : Task) (s : Filtering) : Prop where
  settled : Settled config format task s.toProgress
  created : s.files.filtered.isSome
  writers : s.writers = s.task.subtasks.map SubTask.count
  cmdvals : Carried config.taskContentValues task.taskdef.commandValues
    (pathTable task.pathvals task.taskdef.commandValues) s.cmdvals
  filevals : Carried config.taskContentValues format.fileFormatValues
    (pathTable task.pathvals format.fileFormatValues) s.filevals

section Working

variable {config : Config} {format : LineFormat} {event : FilesEvent} {task : Task} {index : Nat}
  {sourceline : String} {s : Filtering} {how : LineEnd}

theorem Settled.looked (h : Settled config format task s.toProgress)
    (cmdvals filevals : List (String × String)) (error : LookupError) (objtable : ObjTable) :
    Settled config format task (s.looked index cmdvals filevals (.error error) objtable).toProgress := by
  have hsent : sentLines config format task (s.verdicts ++ [(index, .error error)]) =
      sentLines config format task s.verdicts := by
    rw [sentLines, acceptedLines_error, ← sentLines]
  constructor
  · constructor
    · exact h.frame
    · rw [Filtering.looked, acceptedLines_error]
      exact h.increasing
    · rw [Filtering.looked, acceptedLines_error]
      exact h.bounded
    · rw [Filtering.looked, acceptedLines_error]
      exact h.valid
    · rw [Filtering.looked, acceptedLines_error]
      exact h.filtered
  · rw [Filtering.looked, hsent]
    exact h.subtasks
  · rw [Filtering.looked, hsent]
    exact h.inputs

variable {linecaptures : String → Option String} {cmdvals filevals : List (String × String)}
  {objtable : ObjTable} {lines : List String}

theorem Working.writes (h : Working config format task s) (hidx : s.task.parsedoffset ≤ index)
    (hline : task.lines[index]? = some sourceline)
    (hregex : config.taskContentRegex sourceline = some linecaptures)
    (hvals : populate config.taskContentValues task.taskdef.commandValues linecaptures
      (pathTable task.pathvals task.taskdef.commandValues) = some cmdvals)
    (hfvals : populate config.taskContentValues format.fileFormatValues linecaptures
      (pathTable task.pathvals format.fileFormatValues) = some filevals)
    (hwrite : Filtering.writeLine format event index sourceline
      { s.looked index cmdvals filevals (.ok ()) objtable with
        task := { s.task with parsedoffset := index + 1 } } = some how) :
    how.Leaves (Working config format task) := by
  rcases writeLine_cases hwrite with ⟨s', e, rfl, -⟩ | ⟨outputline, mid, pos, writer, hformat, hfind, hwr, rfl⟩
  · trivial
  have hsent : task.lineSent config format index = some (cmdvals, outputline) :=
    lineSent_iff.2 ⟨sourceline, linecaptures, filevals, hline, hregex, hvals, hfvals, hformat⟩
  rcases findSubtask_ok hfind with ⟨rfl, hpos⟩ | ⟨hnone, rfl, rfl⟩
  · have hwr' : s.writers[pos]? = some writer := hwr
    obtain ⟨hlt, -, -⟩ := List.findIdx?_eq_some_iff_getElem.1 hpos
    have hst : s.task.subtasks[pos]? = some s.task.subtasks[pos] := List.getElem?_eq_getElem hlt
    have hcnt : writer = pos := by
      rw [h.writers, List.getElem?_map, hst, Option.map_some] at hwr'
      rw [h.settled.subtasks pos] at hst
      obtain ⟨group, -, hnew⟩ := Option.map_eq_some_iff.1 hst
      rw [← Option.some.inj hwr', ← hnew]
      rfl
    subst hcnt
    exact
      { settled := h.settled.joins hidx hline hsent hpos
        created := rfl
        writers := h.writers
        cmdvals := Or.inr ⟨linecaptures, hvals⟩
        filevals := Or.inr ⟨linecaptures, hfvals⟩ }
  · have hlen : s.writers.length = s.task.subtasks.length := by
      rw [h.writers, length_map]
    have hwr' : (s.writers ++ [s.task.subtasks.length])[s.task.subtasks.length]? = some writer := hwr
    rw [← hlen, List.getElem?_concat_length] at hwr'
    obtain rfl := Option.some.inj hwr'
    rw [hlen]
    exact
      { settled := h.settled.begins hidx hline hsent hnone
        created := rfl
        writers := by
          rw [map_append, ← h.writers]
          rfl
        cmdvals := Or.inr ⟨linecaptures, hvals⟩
        filevals := Or.inr ⟨linecaptures, hfvals⟩ }

theorem Working.line (h : Working config format task s) (hline : task.lines[index]? = some sourceline)
    (hpass : s.filterLine config format event index sourceline = some how) :
    how.Leaves (Working config format task) := by
  rcases filterLine_cases hpass with ⟨e, rfl⟩ | ⟨-, rfl⟩ |
    ⟨linecaptures, cmdvals, filevals, object, verdict, objtable, hidx, hregex, hvals, hfvals, -, -,
      hverdict⟩
  · trivial
  · exact h
  have htaskdef : s.task.taskdef = task.taskdef := by
    rw [h.settled.frame]
  rw [htaskdef] at hvals
  have hvals' := h.cmdvals.populate (nodup_pathTable _ _) hvals
  have hfvals' := h.filevals.populate (nodup_pathTable _ _) hfvals
  have hlooked : ∀ error, Working config format task (s.looked index cmdvals filevals (.error error) objtable) := by
    intro error
    exact
      { settled := h.settled.looked cmdvals filevals error objtable
        created := h.created
        writers := h.writers
        cmdvals := Or.inr ⟨linecaptures, hvals'⟩
        filevals := Or.inr ⟨linecaptures, hfvals'⟩ }
  rcases hverdict with ⟨rfl, rfl⟩ | ⟨rfl, rfl⟩ | ⟨error, e, rfl, rfl⟩ | ⟨rfl, hwrite⟩
  · exact hlooked .wait
  · exact hlooked .skip
  · trivial
  · exact h.writes hidx hline hregex hvals' hfvals' hwrite

theorem drop_eq_cons {l rest : List String} {front : String} (h : l.drop index = front :: rest) :
    l[index]? = some front ∧ l.drop (index + 1) = rest := by
  constructor
  · rw [← List.head?_drop, h]
    rfl
  · rw [← tail_drop, h]
    rfl

theorem Working.loop (h : Working config format task s) (hlines : task.lines.drop index = lines)
    (hloop : s.filterLoop config format event index lines = some how) :
    how.Leaves (Working config format task) := by
  induction lines generalizing s index with
  | nil =>
    obtain rfl := Option.some.inj hloop
    exact h
  | cons sourceline lines ih =>
    obtain ⟨hline, hrest⟩ := drop_eq_cons hlines
    rw [Filtering.filterLoop] at hloop
    cases hpass : s.filterLine config format event index sourceline with
    | none =>
      rw [hpass] at hloop
      cases hloop
    | some how' =>
      have hleav := h.line hline hpass
      rw [hpass] at hloop
      cases how' with
      | next s' => exact ih hleav hrest hloop
      | wait s' =>
        obtain rfl := Option.some.inj hloop
        exact hleav
      | failed s' e =>
        obtain rfl := Option.some.inj hloop
        trivial

/-! ### The loop without its files -/

def LineEnd.Matches : LineEnd → Task × ObjTable × Task.FilterEnd → Prop
  | .next s, (task, objtable, how) => task = s.task ∧ objtable = s.objtable ∧ how = .through
  | .wait s, (task, objtable, how) => task = s.task ∧ objtable = s.objtable ∧ ∃ object, how = .wait object
  | .failed s e, (task, objtable, how) => task.drop objtable = s.task.drop s.objtable ∧ how = .failed e

theorem Working.assigns {s' : Filtering} (h : Working config format task s)
    (hline : task.lines[index]? = some sourceline)
    (hregex : config.taskContentRegex sourceline = some linecaptures)
    (hvals : populate config.taskContentValues task.taskdef.commandValues linecaptures
      (pathTable task.pathvals task.taskdef.commandValues) = some cmdvals)
    (hfvals : populate config.taskContentValues format.fileFormatValues linecaptures
      (pathTable task.pathvals format.fileFormatValues) = some filevals)
    (hwrite : Filtering.writeLine format event index sourceline
      { s.looked index cmdvals filevals (.ok ()) objtable with
        task := { s.task with parsedoffset := index + 1 } } = some (.next s')) :
    s'.task = Task.assign { s.task with parsedoffset := index + 1 } cmdvals ∧ s'.objtable = objtable := by
  rcases writeLine_cases hwrite with ⟨s', e, heq, -⟩ | ⟨outputline, mid, pos, writer, hformat, hfind, -, heq⟩
  · cases heq
  obtain rfl := LineEnd.next.inj heq
  have hsent : task.lineSent config format index = some (cmdvals, outputline) :=
    lineSent_iff.2 ⟨sourceline, linecaptures, filevals, hline, hregex, hvals, hfvals, hformat⟩
  have hsame : ∀ st ∈ s.task.subtasks, sameVals st.cmdvals cmdvals = (st.cmdvals == cmdvals) := by
    intro st hst
    obtain ⟨n, hn⟩ := List.mem_iff_getElem?.1 hst
    rw [Bool.eq_iff_iff, h.settled.sameVals_iff hsent hn, beq_iff_eq]
  rcases findSubtask_ok hfind with ⟨rfl, hpos⟩ | ⟨hnone, rfl, rfl⟩
  · obtain ⟨hlt, hfound, -⟩ := List.findIdx?_eq_some_iff_getElem.1 hpos
    have hany : s.task.subtasks.any (fun st => st.cmdvals == cmdvals) = true :=
      List.any_eq_true.2 ⟨_, getElem_mem hlt, (hsame _ (getElem_mem hlt)).symm.trans hfound⟩
    exact ⟨(if_pos hany).symm, rfl⟩
  · have hany : ¬ s.task.subtasks.any (fun st => st.cmdvals == cmdvals) = true := by
      intro hany
      obtain ⟨st, hst, heq⟩ := List.any_eq_true.1 hany
      have hno : sameVals st.cmdvals cmdvals = false := List.findIdx?_eq_none_iff.1 hnone st hst
      rw [hsame st hst] at hno
      exact Bool.false_ne_true (hno.symm.trans heq)
    exact ⟨(if_neg hany).symm, rfl⟩

def LineEnd.Continues (config : Config) (filterEvent : Task.FilterEvent) (index : Nat) (rest : List String)
    (result : Option (Task × ObjTable × Task.FilterEnd)) : LineEnd → Prop
  | .next s => result = Task.filterLoop config filterEvent s.task s.objtable (index + 1) rest
  | how => ∃ r, result = some r ∧ how.Matches r

/-- A pass of the loop from the verdict on the object of its line on. -/
def Task.judged (config : Config) (filterEvent : Task.FilterEvent) (task : Task) (index : Nat)
    (rest : List String) (cmdvals : List (String × String)) (object : Object) :
    Except LookupError Unit × ObjTable → Option (Task × ObjTable × Task.FilterEnd)
  | (.error .wait, objtable) => some (task, objtable, .wait object)
  | (.error .skip, objtable) => Task.filterLoop config filterEvent task objtable (index + 1) rest
  | (.error (.conflict e), objtable) => some (task, objtable, .failed
      ("ERROR: Task conflict detected with new " ++ task.taskdef.name ++ " ops: " ++ e))
  | (.ok (), objtable) =>
    match filterEvent.written index with
    | .error e => some ({ task with parsedoffset := index + 1 }, objtable, .failed e)
    | .ok () => Task.filterLoop config filterEvent (Task.assign { task with parsedoffset := index + 1 } cmdvals)
        objtable (index + 1) rest

theorem Working.line_refines (h : Working config format task s) (hline : task.lines[index]? = some sourceline)
    (hpass : s.filterLine config format event index sourceline = some how) (rest : List String) :
    ∃ res : Except String Unit, ∀ filterEvent : Task.FilterEvent, filterEvent.read = event.read →
      filterEvent.written index = res → how.Continues config filterEvent index rest
        (Task.filterLoop config filterEvent s.task s.objtable index (sourceline :: rest)) := by
  unfold Filtering.filterLine at hpass
  split at hpass
  · next e hread =>
    obtain rfl := Option.some.inj hpass
    refine ⟨.ok (), fun filterEvent heq _ => ⟨(s.task, s.objtable, _), ?_, rfl, rfl⟩⟩
    rw [Task.filterLoop, heq, hread]
  · next hread =>
    by_cases hskip : index < s.task.parsedoffset
    · rw [if_pos hskip] at hpass
      obtain rfl := Option.some.inj hpass
      refine ⟨.ok (), fun filterEvent heq _ => ?_⟩
      rw [LineEnd.Continues, Task.filterLoop, heq, hread]
      exact if_pos hskip
    rw [if_neg hskip] at hpass
    split at hpass
    · next hregex =>
      obtain rfl := Option.some.inj hpass
      refine ⟨.ok (), fun filterEvent heq _ => ⟨(s.task, s.objtable, _), ?_, rfl, rfl⟩⟩
      rw [Task.filterLoop, heq, hread]
      dsimp only
      rw [if_neg hskip, hregex]
    · next linecaptures hregex =>
      split at hpass
      · next cmdvals filevals object hvals hfvals hobj =>
        have htaskdef : s.task.taskdef = task.taskdef := by
          rw [h.settled.frame]
        have hpathvals : s.task.pathvals = task.pathvals := by
          rw [h.settled.frame]
        rw [htaskdef] at hvals
        have hvals' := h.cmdvals.populate (nodup_pathTable _ _) hvals
        have hfvals' := h.filevals.populate (nodup_pathTable _ _) hfvals
        have hline' : s.task.lineCmdvals config linecaptures = some cmdvals := by
          rw [← hvals', ← htaskdef, ← hpathvals]
          rfl
        have hlooked : ∀ filterEvent : Task.FilterEvent, filterEvent.read = event.read →
            Task.filterLoop config filterEvent s.task s.objtable index (sourceline :: rest) =
              Task.judged config filterEvent s.task index rest cmdvals object
                (s.objtable.insert object s.task.taskdef s.task.timestamp) := by
          intro filterEvent heq
          rw [Task.filterLoop, heq, hread]
          dsimp only
          rw [if_neg hskip, hregex]
          dsimp only
          rw [hline', hobj]
          rfl
        rcases hinsert : s.objtable.insert object s.task.taskdef s.task.timestamp with ⟨verdict, objtable⟩
        rw [hinsert] at hpass hlooked
        dsimp only at hpass
        split at hpass
        · obtain rfl := Option.some.inj hpass
          exact ⟨.ok (), fun filterEvent heq _ => ⟨_, hlooked filterEvent heq, rfl, rfl, object, rfl⟩⟩
        · obtain rfl := Option.some.inj hpass
          exact ⟨.ok (), fun filterEvent heq _ => hlooked filterEvent heq⟩
        · obtain rfl := Option.some.inj hpass
          exact ⟨.ok (), fun filterEvent heq _ => ⟨_, hlooked filterEvent heq, rfl, rfl⟩⟩
        · cases how with
          | next s' =>
            obtain ⟨htask, hobjtable⟩ := h.assigns hline hregex hvals' hfvals' hpass
            refine ⟨.ok (), fun filterEvent heq hwrit => ?_⟩
            rw [LineEnd.Continues, hlooked filterEvent heq, Task.judged, hwrit, htask, hobjtable]
          | wait s' =>
            rcases writeLine_cases hpass with ⟨_, _, hfail, -⟩ | ⟨_, _, _, _, -, -, -, hnext⟩
            · cases hfail
            · cases hnext
          | failed s' e =>
            refine ⟨.error e, fun filterEvent heq hwrit => ?_⟩
            refine ⟨({ s.task with parsedoffset := index + 1 }, objtable, .failed e), ?_, ?_, rfl⟩
            · rw [hlooked filterEvent heq, Task.judged, hwrit]
            · rcases writeLine_cases hpass with ⟨_, _, hfail, -, -, hdrop⟩ | ⟨_, _, _, _, -, -, -, hnext⟩
              · obtain ⟨rfl, rfl⟩ := LineEnd.failed.inj hfail
                exact hdrop.symm
              · cases hnext
      · cases hpass

theorem Working.loop_refines (h : Working config format task s) (hlines : task.lines.drop index = lines)
    (hloop : s.filterLoop config format event index lines = some how) :
    ∃ written : Nat → Except String Unit, ∀ filterEvent : Task.FilterEvent, filterEvent.read = event.read →
      (∀ i, index ≤ i → filterEvent.written i = written i) →
        ∃ r, Task.filterLoop config filterEvent s.task s.objtable index lines = some r ∧ how.Matches r := by
  induction lines generalizing s index with
  | nil =>
    obtain rfl := Option.some.inj hloop
    exact ⟨fun _ => .ok (), fun _ _ _ => ⟨_, rfl, rfl, rfl, rfl⟩⟩
  | cons sourceline lines ih =>
    obtain ⟨hline, hrest⟩ := drop_eq_cons hlines
    rw [Filtering.filterLoop] at hloop
    cases hpass : s.filterLine config format event index sourceline with
    | none =>
      rw [hpass] at hloop
      cases hloop
    | some how' =>
      obtain ⟨res, hres⟩ := h.line_refines hline hpass lines
      have hleav := h.line hline hpass
      rw [hpass] at hloop
      cases how' with
      | next s' =>
        obtain ⟨written, hwrit⟩ := ih hleav hrest hloop
        refine ⟨Function.update written index res, fun filterEvent heq hagree => ?_⟩
        have hfst : filterEvent.written index = res := by
          rw [hagree index (Nat.le_refl index), Function.update_self]
        rw [show Task.filterLoop config filterEvent s.task s.objtable index (sourceline :: lines) =
          Task.filterLoop config filterEvent s'.task s'.objtable (index + 1) lines from
            hres filterEvent heq hfst]
        apply hwrit filterEvent heq
        intro i hi
        rw [hagree i (Nat.le_of_succ_le hi), Function.update_of_ne (Nat.ne_of_gt hi)]
      | wait s' =>
        obtain rfl := Option.some.inj hloop
        exact ⟨fun _ => res, fun filterEvent heq hagree => hres filterEvent heq (hagree index (Nat.le_refl index))⟩
      | failed s' e =>
        obtain rfl := Option.some.inj hloop
        exact ⟨fun _ => res, fun filterEvent heq hagree => hres filterEvent heq (hagree index (Nat.le_refl index))⟩

end Working

/-! ## Invocations -/

/-- An invocation fails, or leaves the task in a state of a kind. -/
def FilterResult.Leaves (holds : Progress → Prop) : FilterResult → Prop
  | .unchanged p | .transformed p => holds p
  | .err _ => True

section Invocations

variable {config : Config} {format : LineFormat} {event : FilesEvent} {task : Task} {p p' : Progress}
  {objtable objtable' : ObjTable} {result : FilterResult}

variable {writers : List Nat} {files : Files} {n : Nat} {st : SubTask}

theorem Settled.opens (h : Settled config format task p)
    (hopen : openWriters event (p.files.appendFiltered "") p.task.subtasks = .ok (writers, files)) :
    writers = p.task.subtasks.map SubTask.count ∧ files = p.files.appendFiltered "" := by
  apply openWriters_ok hopen
  intro st hst
  obtain ⟨n, hn⟩ := List.mem_iff_getElem?.1 hst
  rw [h.subtasks n] at hn
  obtain ⟨group, hgroup, rfl⟩ := Option.map_eq_some_iff.1 hn
  have hinput := h.inputs n
  rw [hgroup] at hinput
  exact Option.isSome_iff_exists.2 ⟨_, hinput⟩

/-- The loop of an invocation begins with the invariant. -/
theorem Settled.working (h : Settled config format task p)
    (hopen : openWriters event (p.files.appendFiltered "") p.task.subtasks = .ok (writers, files))
    (objtable : ObjTable) : Working config format task
      { task := p.task, files, verdicts := p.verdicts, objtable
        cmdvals := pathTable p.task.pathvals p.task.taskdef.commandValues
        filevals := pathTable p.task.pathvals format.fileFormatValues, writers } := by
  obtain ⟨hwriters, rfl⟩ := h.opens hopen
  have hpathvals : p.task.pathvals = task.pathvals := by
    rw [h.frame]
  have htaskdef : p.task.taskdef = task.taskdef := by
    rw [h.frame]
  rw [hpathvals, htaskdef]
  exact
    { settled :=
        { frame := h.frame
          increasing := h.increasing
          bounded := h.bounded
          valid := h.valid
          filtered := by
            rw [← h.filtered]
            exact String.append_empty
          subtasks := h.subtasks
          inputs := h.inputs }
      created := rfl
      writers := hwriters
      cmdvals := Or.inl rfl
      filevals := Or.inl rfl }

/-- The invariant holds after every invocation. -/
theorem Settled.filter (h : Settled config format task p)
    (hfilt : p.filter config format event objtable = some (result, objtable')) :
    result.Leaves fun p' => Settled config format task p' ∧ p'.files.filtered.isSome := by
  have hlines : task.lines.drop 0 = p.task.lines := by
    rw [h.frame]
    rfl
  unfold Progress.filter at hfilt
  split at hfilt
  · obtain ⟨rfl, -⟩ := Prod.mk.inj (Option.some.inj hfilt)
    trivial
  split at hfilt
  · obtain ⟨rfl, -⟩ := Prod.mk.inj (Option.some.inj hfilt)
    trivial
  split at hfilt
  · obtain ⟨rfl, -⟩ := Prod.mk.inj (Option.some.inj hfilt)
    trivial
  next writers files hopen =>
    have hwork := h.working hopen objtable
    dsimp only at hfilt
    split at hfilt
    · cases hfilt
    · next s hloop =>
      obtain ⟨rfl, -⟩ := Prod.mk.inj (Option.some.inj hfilt)
      have hleav := hwork.loop hlines hloop
      exact ⟨hleav.settled, hleav.created⟩
    · next s hloop =>
      obtain ⟨rfl, -⟩ := Prod.mk.inj (Option.some.inj hfilt)
      have hleav := hwork.loop hlines hloop
      exact ⟨hleav.settled, hleav.created⟩
    · obtain ⟨rfl, -⟩ := Prod.mk.inj (Option.some.inj hfilt)
      trivial

/-- An invocation without the files. -/
def FilterResult.taskResult : FilterResult → TaskResult
  | .unchanged p => .unchanged p.task
  | .transformed p => .transformed p.task
  | .err e => .err e

/-- An invocation is one without the files, for some answers to its writes. -/
theorem Settled.filter_refines (h : Settled config format task p)
    (hfilt : p.filter config format event objtable = some (result, objtable')) :
    ∃ filterEvent, p.task.filter config filterEvent objtable = some (result.taskResult, objtable') := by
  have hlines : task.lines.drop 0 = p.task.lines := by
    rw [h.frame]
    rfl
  have hunopened : ∀ e, (FilterResult.err e, p.task.drop objtable) = (result, objtable') →
      ∃ filterEvent, p.task.filter config filterEvent objtable = some (result.taskResult, objtable') := by
    intro e heq
    obtain ⟨rfl, rfl⟩ := Prod.mk.inj heq
    exact ⟨⟨.error e, fun _ => .ok (), fun _ => .ok ()⟩, rfl⟩
  unfold Progress.filter at hfilt
  split at hfilt
  · exact hunopened _ (Option.some.inj hfilt)
  split at hfilt
  · exact hunopened _ (Option.some.inj hfilt)
  split at hfilt
  · exact hunopened _ (Option.some.inj hfilt)
  next writers files hopen =>
    have hwork := h.working hopen objtable
    dsimp only at hfilt
    split at hfilt
    · cases hfilt
    · next s hloop =>
      obtain ⟨rfl, rfl⟩ := Prod.mk.inj (Option.some.inj hfilt)
      obtain ⟨written, hwrit⟩ := hwork.loop_refines hlines hloop
      obtain ⟨⟨task', objtable'', how⟩, hrun, rfl, rfl, rfl⟩ :=
        hwrit ⟨.ok (), event.read, written⟩ rfl fun _ _ => rfl
      refine ⟨⟨.ok (), event.read, written⟩, ?_⟩
      rw [Task.filter, hrun]
      rfl
    · next s hloop =>
      obtain ⟨rfl, rfl⟩ := Prod.mk.inj (Option.some.inj hfilt)
      obtain ⟨written, hwrit⟩ := hwork.loop_refines hlines hloop
      obtain ⟨⟨task', objtable'', how⟩, hrun, rfl, rfl, object, rfl⟩ :=
        hwrit ⟨.ok (), event.read, written⟩ rfl fun _ _ => rfl
      refine ⟨⟨.ok (), event.read, written⟩, ?_⟩
      rw [Task.filter, hrun]
      rfl
    · next s e hloop =>
      obtain ⟨rfl, rfl⟩ := Prod.mk.inj (Option.some.inj hfilt)
      obtain ⟨written, hwrit⟩ := hwork.loop_refines hlines hloop
      obtain ⟨⟨task', objtable'', how⟩, hrun, hdrop, rfl⟩ :=
        hwrit ⟨.ok (), event.read, written⟩ rfl fun _ _ => rfl
      refine ⟨⟨.ok (), event.read, written⟩, ?_⟩
      rw [Task.filter, hrun]
      exact congrArg (fun objtable => some (TaskResult.err e, objtable)) hdrop

/-- The invariant holds after any number of invocations. -/
theorem Settled.retries (h : Settled config format task p)
    (hretries : Relation.ReflTransGen (Progress.Waits config format) p p') :
    Settled config format task p' := by
  induction hretries with
  | refl => exact h
  | tail _ hwaits ih =>
    obtain ⟨event, objtable, objtable', hfilt⟩ := hwaits
    exact (ih.filter hfilt).1

def Task.sentTo (config : Config) (format : LineFormat) (task : Task) (cmdvals : List (String × String))
    (index : Nat) : Option String :=
  (task.lineSent config format index).bind fun sent =>
    if sameVals cmdvals sent.1 then some sent.2 else none

/-- Every accepted line is written once, in the order of the file, to the filtered taskfile and to the input
of the subtask with its command values. -/
structure WrittenOnce (config : Config) (format : LineFormat) (task : Task) (p : Progress) : Prop where
  increasing : (acceptedLines p.verdicts).Pairwise (· < ·)
  filtered : p.files.filtered =
    some (textOf ((acceptedLines p.verdicts).filterMap fun index => task.lines[index]?))
  input : ∀ (n : Nat) (st : SubTask), p.task.subtasks[n]? = some st → st.count = n ∧
    p.files.input n = some (textOf ((acceptedLines p.verdicts).filterMap (task.sentTo config format st.cmdvals)))
  noOther : ∀ n, p.task.subtasks.length ≤ n → p.files.input n = none
  one : ∀ index ∈ acceptedLines p.verdicts, ∃ sourceline cmdvals outputline,
    task.lines[index]? = some sourceline ∧ task.lineSent config format index = some (cmdvals, outputline) ∧
      ∃! n : Nat, ∃ st : SubTask, p.task.subtasks[n]? = some st ∧ sameVals st.cmdvals cmdvals = true
  differ : ∀ (m n : Nat) (st st' : SubTask), m ≠ n → p.task.subtasks[m]? = some st →
    p.task.subtasks[n]? = some st' → sameVals st.cmdvals st'.cmdvals = false

theorem Settled.sent (h : Settled config format task p) (hst : p.task.subtasks[n]? = some st) :
    ∃ index outputline, task.lineSent config format index = some (st.cmdvals, outputline) := by
  rw [h.subtasks n] at hst
  obtain ⟨group, hgroup, rfl⟩ := Option.map_eq_some_iff.1 hst
  obtain ⟨index, -, outputline, hsent⟩ := group_sent (mem_of_getElem? hgroup)
  exact ⟨index, outputline, hsent⟩

theorem Settled.unique (h : Settled config format task p) {m : Nat} {st' : SubTask}
    (hst : p.task.subtasks[m]? = some st) (hst' : p.task.subtasks[n]? = some st')
    (heq : st.cmdvals = st'.cmdvals) : m = n := by
  have hkey : ∀ {n : Nat} {st : SubTask}, p.task.subtasks[n]? = some st →
      ((dispatchAll (sentLines config format task p.verdicts)).map Prod.fst)[n]? = some st.cmdvals := by
    intro n st hst
    rw [h.subtasks n] at hst
    obtain ⟨group, hgroup, rfl⟩ := Option.map_eq_some_iff.1 hst
    rw [List.getElem?_map, hgroup]
    rfl
  have hm := hkey hst
  have hn := hkey hst'
  rw [heq, ← hn] at hm
  exact (List.getElem?_inj (List.getElem?_eq_some_iff.1 (hkey hst)).1 (keys_nodup _)).1 hm

theorem Settled.writtenOnce (h : Settled config format task p) (hcreat : p.files.filtered.isSome) :
    WrittenOnce config format task p where
  increasing := h.increasing
  filtered := by
    obtain ⟨text, htext⟩ := Option.isSome_iff_exists.1 hcreat
    have hfilt := h.filtered
    rw [htext, Option.getD_some] at hfilt
    rw [htext, hfilt]
  input := by
    intro n st hst
    have hst' := hst
    rw [h.subtasks n] at hst'
    obtain ⟨group, hgroup, rfl⟩ := Option.map_eq_some_iff.1 hst'
    refine ⟨rfl, ?_⟩
    have hitems : group.2 = itemsOf group.1 (sentLines config format task p.verdicts) :=
      items_eq (mem_of_getElem? hgroup)
    rw [h.inputs n, hgroup, Option.map_some, hitems, itemsOf, sentLines, filter_filterMap,
      map_filterMap]
    congr 2
    apply filterMap_congr
    intro index hidx
    obtain ⟨⟨cmdvals, outputline⟩, hsent⟩ := Option.isSome_iff_exists.1 (h.valid index hidx)
    rw [Task.sentTo, hsent, Option.bind_some, Option.filter_some]
    have hsame := h.sameVals_iff hsent hst
    by_cases heq : cmdvals = group.1
    · rw [if_pos (decide_eq_true heq), if_pos (hsame.2 heq.symm)]
      rfl
    · rw [if_neg (fun h => heq (of_decide_eq_true h)), if_neg (fun h => heq (hsame.1 h).symm)]
      rfl
  noOther := by
    intro n hn
    rw [h.inputs n, List.getElem?_eq_none (h.length ▸ hn)]
    rfl
  one := by
    intro index hidx
    obtain ⟨⟨cmdvals, outputline⟩, hsent⟩ := Option.isSome_iff_exists.1 (h.valid index hidx)
    obtain ⟨sourceline, -, -, hline, -⟩ := lineSent_iff.1 hsent
    refine ⟨sourceline, cmdvals, outputline, hline, hsent, ?_⟩
    have hkey : cmdvals ∈ (dispatchAll (sentLines config format task p.verdicts)).map Prod.fst :=
      mem_keys.2 (List.mem_map.2 ⟨_, mem_sentLines.2 ⟨index, hidx, hsent⟩, rfl⟩)
    obtain ⟨n, hn⟩ := List.mem_iff_getElem?.1 hkey
    rw [List.getElem?_map] at hn
    obtain ⟨group, hgroup, rfl⟩ := Option.map_eq_some_iff.1 hn
    have hst := h.subtasks n
    rw [hgroup, Option.map_some] at hst
    refine ⟨n, ⟨_, hst, (h.sameVals_iff hsent hst).2 rfl⟩, ?_⟩
    rintro m ⟨st, hm, hsame⟩
    exact h.unique hm hst ((h.sameVals_iff hsent hm).1 hsame)
  differ := by
    intro m n st st' hmn hst hst'
    obtain ⟨index, outputline, hsent⟩ := h.sent hst'
    rw [Bool.eq_false_iff]
    intro hsame
    exact hmn (h.unique hst hst' ((h.sameVals_iff hsent hst).1 hsame))

/-- Whatever the table answers to a task in invocations that end with a `Wait`, when `filter` is through
each line that was accepted in one of them is written once. -/
theorem filtered_once {file : Taskfile} (hnew : Task.new config file = some task)
    (hretries : Relation.ReflTransGen (Progress.Waits config format) (Progress.start task) p)
    (hlast : p.filter config format event objtable = some (.transformed p', objtable')) :
    WrittenOnce config format task p' := by
  have hsubtasks : task.subtasks = [] := by
    obtain ⟨taskdef, -, rfl⟩ := Option.map_eq_some_iff.1 hnew
    rfl
  obtain ⟨hsettled, hcreated⟩ := ((Settled.start task hsubtasks).retries hretries).filter hlast
  exact hsettled.writtenOnce hcreated

/-- However often a task had to wait, the next invocation is one without the files. -/
theorem filter_refined {file : Taskfile} (hnew : Task.new config file = some task)
    (hretries : Relation.ReflTransGen (Progress.Waits config format) (.start task) p)
    (hfilt : p.filter config format event objtable = some (result, objtable')) :
    ∃ filterEvent, p.task.filter config filterEvent objtable = some (result.taskResult, objtable') := by
  have hsubtasks : task.subtasks = [] := by
    obtain ⟨taskdef, -, rfl⟩ := Option.map_eq_some_iff.1 hnew
    rfl
  exact ((Settled.start task hsubtasks).retries hretries).filter_refines hfilt

end Invocations

/-! ### A task that waits -/

def eraseTask : ConfigTask where
  name := "erase"
  commandValues := ["volume"]
  overrides := ["read"]
  conflicts := []

def readTask : ConfigTask where
  name := "read"
  commandValues := []
  overrides := []
  conflicts := []

def lineConfig : Config where
  tasks := [eraseTask]
  taskParallelism := 1
  taskContentValues := ["object", "volume"]
  taskContentRegex line :=
    match line.toList with
    | [object, ' ', volume] => some fun key =>
        if key = "object" then some (String.singleton object)
        else if key = "volume" then some (String.singleton volume)
        else none
    | _ => none

def objectFormat : LineFormat where
  fileFormat := "\x7bobject\x7d"
  fileFormatValues := ["object"]
  word c := c.isAlphanum || c == '_'

def noErrors : FilesEvent where
  source := .ok ()
  filterfile := .ok ()
  writer _ := .ok ()
  read _ := .ok ()
  filterWritten _ := .ok ()
  inputWritten _ := .ok ()

def eraseFile : Taskfile where
  lines := ["a 1", "b 2", "c 1"]
  taskname := "erase"
  pathvals := []
  timestamp := 0

def grabbed : Task where
  lines := ["a 1", "b 2", "c 1"]
  timestamp := 0
  taskdef := eraseTask
  parsedoffset := 0
  pathvals := []
  subtasks := []

def busyTable : ObjTable := (ObjTable.new.insert ⟨"b", 0, 0, 0, 0⟩ readTask 1).2

def stalled : Progress where
  task := { grabbed with parsedoffset := 1, subtasks := [SubTask.new [("volume", "1")] 0 0] }
  files := ((Files.empty.appendFiltered "a 1\n").appendInput 0 "").appendInput 0 "a\n"
  verdicts := [(0, .ok ()), (1, .error .wait)]

theorem eraseFile_once : ∃ p, p.files.filtered = some "a 1\nb 2\nc 1\n" ∧ p.files.input 0 = some "a\nc\n" ∧
    p.files.input 1 = some "b\n" ∧ WrittenOnce lineConfig objectFormat grabbed p := by
  have hnew : Task.new lineConfig eraseFile = some grabbed := rfl
  have hwaits : (Progress.start grabbed).Waits lineConfig objectFormat stalled := ⟨noErrors, busyTable, _, rfl⟩
  have hlast : stalled.filter lineConfig objectFormat noErrors ObjTable.new = some (.transformed _, _) := rfl
  exact ⟨_, rfl, rfl, rfl, filtered_once hnew (.single hwaits) hlast⟩

theorem stalled_refined : ∃ filterEvent task' objtable',
    stalled.task.filter lineConfig filterEvent ObjTable.new = some (.transformed task', objtable') := by
  have hwaits : (Progress.start grabbed).Waits lineConfig objectFormat stalled := ⟨noErrors, busyTable, _, rfl⟩
  have hlast : stalled.filter lineConfig objectFormat noErrors ObjTable.new = some (.transformed _, _) := rfl
  obtain ⟨filterEvent, hfilt⟩ := filter_refined (show Task.new lineConfig eraseFile = _ from rfl) (.single hwaits) hlast
  exact ⟨filterEvent, _, _, hfilt⟩

end Marfs.Tape
