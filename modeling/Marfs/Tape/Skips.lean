import Marfs.Tape.FilterSpec

/-!
# Skipped lines

The resume offset of a task stands behind the last line that was accepted.  A line that was skipped after
it is looked up again when the task is resumed, and the table may answer differently by then.  As long as
every invocation begins with the offset behind all skips, the lines are decided in turn.
-/

namespace Marfs.Tape

open List

def decidedLines (verdicts : List (Nat × Except LookupError Unit)) : List Nat :=
  verdicts.filterMap fun
    | (index, .ok ()) => some index
    | (index, .error .skip) => some index
    | (_, .error _) => none

def SkipFinal (verdicts : List (Nat × Except LookupError Unit)) : Prop :=
  verdicts.Pairwise fun earlier later =>
    earlier.1 = later.1 → earlier.2 = .error .skip → later.2 ≠ .ok ()

def LineEnd.state : LineEnd → Filtering
  | .next s | .wait s | .failed s _ => s

namespace Progress

def CaughtUp (p : Progress) : Prop :=
  ∀ index, (index, .error .skip) ∈ p.verdicts → index < p.task.parsedoffset

def ends (config : Config) (format : LineFormat) (event : FilesEvent) (p : Progress) (objtable : ObjTable) :
    Option LineEnd :=
  match event.source, event.filterfile, openWriters event (p.files.appendFiltered "") p.task.subtasks with
  | .ok (), .ok (), .ok (writers, files) =>
    Filtering.filterLoop config format event
      { task := p.task, files, verdicts := p.verdicts, objtable
        cmdvals := pathTable p.task.pathvals p.task.taskdef.commandValues
        filevals := pathTable p.task.pathvals format.fileFormatValues, writers } 0 p.task.lines
  | _, _, _ => none

end Progress

/-! ## Decided lines -/

section Decided

variable {verdicts : List (Nat × Except LookupError Unit)} {index : Nat}

theorem decidedLines_ok (verdicts : List (Nat × Except LookupError Unit)) (index : Nat) :
    decidedLines (verdicts ++ [(index, .ok ())]) = decidedLines verdicts ++ [index] := by
  rw [decidedLines, filterMap_append]
  rfl

theorem decidedLines_skip (verdicts : List (Nat × Except LookupError Unit)) (index : Nat) :
    decidedLines (verdicts ++ [(index, .error .skip)]) = decidedLines verdicts ++ [index] := by
  rw [decidedLines, filterMap_append]
  rfl

theorem decidedLines_wait (verdicts : List (Nat × Except LookupError Unit)) (index : Nat) :
    decidedLines (verdicts ++ [(index, .error .wait)]) = decidedLines verdicts := by
  rw [decidedLines, filterMap_append]
  exact List.append_nil _

theorem decidedLines_conflict (verdicts : List (Nat × Except LookupError Unit)) (index : Nat)
    (error : String) :
    decidedLines (verdicts ++ [(index, .error (.conflict error))]) = decidedLines verdicts := by
  rw [decidedLines, filterMap_append]
  exact List.append_nil _

theorem mem_acceptedLines : index ∈ acceptedLines verdicts ↔ (index, .ok ()) ∈ verdicts := by
  rw [acceptedLines, mem_filterMap]
  constructor
  · rintro ⟨⟨line, error | ⟨⟩⟩, hmem, heq⟩
    · cases heq
    · cases heq
      exact hmem
  · intro hmem
    exact ⟨_, hmem, rfl⟩

theorem mem_decidedLines :
    index ∈ decidedLines verdicts ↔ (index, .ok ()) ∈ verdicts ∨ (index, .error .skip) ∈ verdicts := by
  rw [decidedLines, mem_filterMap]
  constructor
  · rintro ⟨⟨line, (error | _ | _) | ⟨⟩⟩, hmem, heq⟩
    · cases heq
    · cases heq
      exact Or.inr hmem
    · cases heq
    · cases heq
      exact Or.inl hmem
  · rintro (hmem | hmem)
    · exact ⟨_, hmem, rfl⟩
    · exact ⟨_, hmem, rfl⟩

theorem skipFinal_of_nodup (h : (decidedLines verdicts).Nodup) : SkipFinal verdicts := by
  induction verdicts with
  | nil => exact List.Pairwise.nil
  | cons v verdicts ih =>
    obtain ⟨line, verdict⟩ := v
    have hrest : (decidedLines verdicts).Nodup :=
      List.Nodup.sublist ((sublist_cons_self _ _).filterMap _) h
    refine List.Pairwise.cons ?_ (ih hrest)
    rintro ⟨line', verdict'⟩ hmem hline hskip hok
    dsimp only at hline hskip hok
    subst hline hskip hok
    have hnot : line ∉ decidedLines verdicts := (List.nodup_cons.1 h).1
    exact hnot (mem_decidedLines.2 (Or.inl hmem))

end Decided

/-! ## Lines in turn -/

def Task.Readable (config : Config) (format : LineFormat) (task : Task) (index : Nat) : Prop :=
  ∃ sourceline linecaptures cmdvals filevals object, task.lines[index]? = some sourceline ∧
    config.taskContentRegex sourceline = some linecaptures ∧
    populate config.taskContentValues task.taskdef.commandValues linecaptures
      (pathTable task.pathvals task.taskdef.commandValues) = some cmdvals ∧
    populate config.taskContentValues format.fileFormatValues linecaptures
      (pathTable task.pathvals format.fileFormatValues) = some filevals ∧
    task.lineObject config linecaptures = some object

structure InTurn (config : Config) (format : LineFormat) (task : Task) (line : Nat) (p : Progress) :
    Prop where
  decided : decidedLines p.verdicts = List.range line
  offset : p.task.parsedoffset ≤ line
  line : line ≤ task.lines.length
  readable : ∀ index verdict, (index, verdict) ∈ p.verdicts → task.Readable config format index

section InTurn

variable {config : Config} {format : LineFormat} {event : FilesEvent} {task : Task} {p p' : Progress}
  {index line : Nat} {sourceline : String} {s s' : Filtering} {how : LineEnd}

def LineEnd.KeepsTurn (config : Config) (format : LineFormat) (task : Task) (index offset : Nat) :
    LineEnd → Prop
  | .next s => InTurn config format task (max (index + 1) s.task.parsedoffset) s.toProgress
  | .wait s => InTurn config format task (max index offset) s.toProgress
  | .failed s _ => (decidedLines s.verdicts).Nodup

def LineEnd.EndsTurn (config : Config) (format : LineFormat) (task : Task) : LineEnd → Prop
  | .next s => InTurn config format task task.lines.length s.toProgress
  | .wait s => ∃ line, InTurn config format task line s.toProgress
  | .failed s _ => (decidedLines s.verdicts).Nodup

theorem writeLine_keeps (h : s.writeLine format event index sourceline = some how) :
    how.state.verdicts = s.verdicts ∧ how.state.task.parsedoffset = s.task.parsedoffset ∧
      ∀ s', how ≠ .wait s' := by
  rcases writeLine_cases h with ⟨s', e, rfl, hverd, hoff, -⟩ |
    ⟨outputline, mid, pos, writer, -, hfind, -, rfl⟩
  · exact ⟨hverd, hoff, fun _ h => nomatch h⟩
  · rcases findSubtask_ok hfind with ⟨rfl, -⟩ | ⟨-, -, rfl⟩
    · exact ⟨rfl, rfl, fun _ h => nomatch h⟩
    · exact ⟨rfl, rfl, fun _ h => nomatch h⟩

theorem InTurn.nodup (h : InTurn config format task line p) : (decidedLines p.verdicts).Nodup := by
  rw [h.decided]
  exact nodup_range

theorem InTurn.decide (h : InTurn config format task index p) {verdict : Except LookupError Unit}
    (hidx : index < task.lines.length) (hread : task.Readable config format index)
    (hverd : p'.verdicts = p.verdicts ++ [(index, verdict)])
    (hdecided : decidedLines p'.verdicts = decidedLines p.verdicts ++ [index])
    (hoff : p'.task.parsedoffset ≤ index + 1) : InTurn config format task (index + 1) p' where
  decided := by
    rw [hdecided, h.decided, range_succ]
  offset := hoff
  line := hidx
  readable := by
    intro index' verdict' hmem
    rw [hverd, mem_append, mem_singleton] at hmem
    rcases hmem with hmem | heq
    · exact h.readable index' verdict' hmem
    · obtain ⟨rfl, -⟩ := Prod.mk.inj heq
      exact hread

theorem InTurn.keeps (h : InTurn config format task (max index s.task.parsedoffset) s.toProgress)
    (hwork : Working config format task s) (hline : task.lines[index]? = some sourceline)
    (hpass : s.filterLine config format event index sourceline = some how) :
    how.KeepsTurn config format task index s.task.parsedoffset := by
  rcases filterLine_cases hpass with ⟨e, rfl⟩ | ⟨hlt, rfl⟩ |
    ⟨linecaptures, cmdvals, filevals, object, verdict, objtable, hoff, hregex, hvals, hfvals,
      hobj, -, hverdict⟩
  · exact h.nodup
  · have hmax : max (index + 1) s.task.parsedoffset = max index s.task.parsedoffset := by omega
    rw [LineEnd.KeepsTurn, hmax]
    exact h
  have htaskdef : s.task.taskdef = task.taskdef := by
    rw [hwork.settled.frame]
  have hobj' : task.lineObject config linecaptures = some object := by
    rw [← hobj, hwork.settled.frame]
    rfl
  rw [htaskdef] at hvals
  have hread : task.Readable config format index :=
    ⟨sourceline, linecaptures, cmdvals, filevals, object, hline, hregex,
      hwork.cmdvals.populate (nodup_pathTable _ _) hvals,
      hwork.filevals.populate (nodup_pathTable _ _) hfvals, hobj'⟩
  have hidx : index < task.lines.length := (List.getElem?_eq_some_iff.1 hline).1
  rw [Nat.max_eq_left hoff] at h
  have hbef := h.decided
  rcases hverdict with ⟨rfl, rfl⟩ | ⟨rfl, rfl⟩ | ⟨error, e, rfl, rfl⟩ | ⟨rfl, hwrite⟩
  · rw [LineEnd.KeepsTurn, Nat.max_eq_left hoff]
    exact
      { decided := (decidedLines_wait _ _).trans hbef
        offset := hoff
        line := h.line
        readable := by
          intro index' verdict' hmem
          rcases List.mem_append.1 hmem with hmem | hmem
          · exact h.readable index' verdict' hmem
          · obtain ⟨rfl, -⟩ := Prod.mk.inj (List.mem_singleton.1 hmem)
            exact hread }
  · have hmax : max (index + 1) s.task.parsedoffset = index + 1 := Nat.max_eq_left (Nat.le_succ_of_le hoff)
    rw [LineEnd.KeepsTurn, Filtering.looked, hmax]
    exact h.decide hidx hread rfl (decidedLines_skip _ _) (Nat.le_succ_of_le hoff)
  · have heq := decidedLines_conflict s.verdicts index error
    rw [LineEnd.KeepsTurn, Filtering.looked, heq]
    exact h.nodup
  · obtain ⟨hverd, hoff', hwait⟩ := writeLine_keeps hwrite
    have hafter : InTurn config format task (index + 1) how.state.toProgress :=
      h.decide hidx hread hverd ((congrArg decidedLines hverd).trans (decidedLines_ok _ _))
        (Nat.le_of_eq hoff')
    cases how with
    | next s' =>
      rw [LineEnd.KeepsTurn, show s'.task.parsedoffset = index + 1 from hoff', Nat.max_self]
      exact hafter
    | wait s' => exact absurd rfl (hwait s')
    | failed s' e => exact hafter.nodup

theorem InTurn.loop {lines : List String}
    (h : InTurn config format task (max index s.task.parsedoffset) s.toProgress)
    (hwork : Working config format task s) (hlines : task.lines.drop index = lines)
    (hloop : s.filterLoop config format event index lines = some how) : how.EndsTurn config format task := by
  induction lines generalizing s index with
  | nil =>
    obtain rfl := Option.some.inj hloop
    have hend : max index s.task.parsedoffset = task.lines.length := by
      have hlen := List.drop_eq_nil_iff.1 hlines
      have hbound := h.line
      omega
    rw [hend] at h
    exact h
  | cons sourceline lines ih =>
    obtain ⟨hline, hrest⟩ := drop_eq_cons hlines
    rw [Filtering.filterLoop] at hloop
    cases hpass : s.filterLine config format event index sourceline with
    | none =>
      rw [hpass] at hloop
      cases hloop
    | some how' =>
      have hkeeps := h.keeps hwork hline hpass
      have hleav := hwork.line hline hpass
      rw [hpass] at hloop
      cases how' with
      | next s' => exact ih hkeeps hleav hrest hloop
      | wait s' =>
        obtain rfl := Option.some.inj hloop
        exact ⟨_, hkeeps⟩
      | failed s' e =>
        obtain rfl := Option.some.inj hloop
        exact hkeeps

/-! ## Invocations -/

theorem InTurn.start (config : Config) (format : LineFormat) (task : Task) (hoff : task.parsedoffset = 0) :
    InTurn config format task 0 (Progress.start task) where
  decided := rfl
  offset := Nat.le_of_eq hoff
  line := Nat.zero_le _
  readable := fun _ _ hmem => absurd hmem not_mem_nil

/-- The offset is behind all skips exactly when it is behind all lines that were decided. -/
theorem InTurn.caughtUp_iff (h : InTurn config format task line p) (hset : Settled config format task p) :
    p.CaughtUp ↔ line = p.task.parsedoffset := by
  constructor
  · intro hcaught
    by_contra hne
    have hlt : p.task.parsedoffset < line := by
      have hle := h.offset
      omega
    have hdecided : p.task.parsedoffset ∈ decidedLines p.verdicts := by
      rw [h.decided]
      exact List.mem_range.2 hlt
    rcases mem_decidedLines.1 hdecided with hacc | hskipped
    · exact absurd (hset.bounded _ (mem_acceptedLines.2 hacc)) (Nat.lt_irrefl _)
    · exact absurd (hcaught _ hskipped) (Nat.lt_irrefl _)
  · rintro rfl index hskipped
    have hdecided := mem_decidedLines.2 (Or.inr hskipped)
    rw [h.decided] at hdecided
    exact List.mem_range.1 hdecided

/-- An invocation that begins behind all skips leaves every line decided once. -/
theorem InTurn.ends (h : InTurn config format task line p) (hset : Settled config format task p)
    (hcaught : p.CaughtUp) {objtable : ObjTable} (hends : p.ends config format event objtable = some how) :
    how.EndsTurn config format task := by
  have hlines : task.lines.drop 0 = p.task.lines := by
    rw [hset.frame]
    rfl
  rw [(h.caughtUp_iff hset).1 hcaught] at h
  unfold Progress.ends at hends
  split at hends
  · next writers files _ _ hopen =>
    refine InTurn.loop ?_ (hset.working hopen objtable) hlines hends
    dsimp only
    rw [Nat.zero_max]
    exact ⟨h.decided, h.offset, h.line, h.readable⟩
  · cases hends

theorem ends_of_filter {objtable objtable' : ObjTable} {result : FilterResult}
    (hfilt : p.filter config format event objtable = some (result, objtable')) :
    (∃ e, result = .err e) ∨
      (∃ s, p.ends config format event objtable = some (.wait s) ∧ result = .unchanged s.toProgress) ∨
      ∃ s, p.ends config format event objtable = some (.next s) ∧ result = .transformed s.toProgress := by
  unfold Progress.filter at hfilt
  unfold Progress.ends
  cases hsource : event.source with
  | error e =>
    rw [hsource] at hfilt
    exact Or.inl ⟨_, (Prod.mk.inj (Option.some.inj hfilt)).1.symm⟩
  | ok =>
    rw [hsource] at hfilt
    cases hfile : event.filterfile with
    | error e =>
      rw [hfile] at hfilt
      exact Or.inl ⟨_, (Prod.mk.inj (Option.some.inj hfilt)).1.symm⟩
    | ok =>
      rw [hfile] at hfilt
      rcases hopen : openWriters event (p.files.appendFiltered "") p.task.subtasks with e | ⟨writers, files⟩
      · rw [hopen] at hfilt
        exact Or.inl ⟨_, (Prod.mk.inj (Option.some.inj hfilt)).1.symm⟩
      · rw [hopen] at hfilt
        dsimp only at hfilt ⊢
        split at hfilt
        · cases hfilt
        · next s hloop =>
          exact Or.inr (Or.inr ⟨s, hloop, (Prod.mk.inj (Option.some.inj hfilt)).1.symm⟩)
        · next s hloop =>
          exact Or.inr (Or.inl ⟨s, hloop, (Prod.mk.inj (Option.some.inj hfilt)).1.symm⟩)
        · exact Or.inl ⟨_, (Prod.mk.inj (Option.some.inj hfilt)).1.symm⟩

theorem InTurn.waits (h : InTurn config format task line p) (hset : Settled config format task p)
    (hcaught : p.CaughtUp) (hwaits : p.Waits config format p') :
    ∃ line', InTurn config format task line' p' := by
  obtain ⟨event, objtable, objtable', hfilt⟩ := hwaits
  rcases ends_of_filter hfilt with ⟨e, heq⟩ | ⟨s, hends, heq⟩ | ⟨s, -, heq⟩
  · cases heq
  · rw [FilterResult.unchanged.inj heq]
    exact h.ends hset hcaught hends
  · cases heq

/-- So do any number of invocations that begin behind all skips. -/
theorem InTurn.retries (hoff : task.parsedoffset = 0) (hsubs : task.subtasks = [])
    (hretries : Relation.ReflTransGen (fun p p' => p.CaughtUp ∧ p.Waits config format p')
      (Progress.start task) p) : Settled config format task p ∧ ∃ line, InTurn config format task line p := by
  induction hretries with
  | refl => exact ⟨Settled.start task hsubs, 0, InTurn.start config format task hoff⟩
  | tail _ hstep ih =>
    obtain ⟨hcaught, hwaits⟩ := hstep
    obtain ⟨hset, line, hturn⟩ := ih
    exact ⟨hset.retries (.single hwaits), hturn.waits hset hcaught hwaits⟩

end InTurn

/-! ## A line that is looked up again -/

section Again

variable {config : Config} {format : LineFormat} {event : FilesEvent} {task : Task} {p : Progress}
  {index line : Nat} {s : Filtering}

def fullDisk : FilesEvent where
  source := .ok ()
  filterfile := .ok ()
  writer _ := .ok ()
  read _ := .ok ()
  filterWritten _ := .error "No space left on device"
  inputWritten _ := .error "No space left on device"

theorem filterLoop_before (hread : ∀ index, event.read index = .ok ()) (lines : List String) (n : Nat)
    (hoff : index + n ≤ s.task.parsedoffset) (hn : n ≤ lines.length) :
    s.filterLoop config format event index lines =
      s.filterLoop config format event (index + n) (lines.drop n) := by
  induction n generalizing index lines with
  | zero => rfl
  | succ n ih =>
    cases lines with
    | nil => exact absurd hn (Nat.not_succ_le_zero n)
    | cons sourceline lines =>
      have hlt : index < s.task.parsedoffset := by omega
      have hpass : s.filterLine config format event index sourceline = some (.next s) := by
        rw [Filtering.filterLine, hread index]
        exact if_pos hlt
      rw [Filtering.filterLoop, hpass]
      have hnext : index + 1 + n = index + (n + 1) := by omega
      rw [← hnext]
      exact ih lines (by omega) (Nat.le_of_succ_le_succ hn)

theorem openWriters_new (event : FilesEvent) (hwr : ∀ n, event.writer n = .ok ()) (subtasks : List SubTask)
    (files : Files) (hnew : ∀ st ∈ subtasks, st.child = .none) :
    ∃ opened, openWriters event files subtasks = .ok opened := by
  induction subtasks generalizing files with
  | nil => exact ⟨_, rfl⟩
  | cons st subtasks ih =>
    obtain ⟨hst, hsubs⟩ := List.forall_mem_cons.1 hnew
    obtain ⟨⟨writers, files'⟩, hopen⟩ := ih (files.appendInput st.count "") hsubs
    refine ⟨(st.count :: writers, files'), ?_⟩
    rw [openWriters, SubTask.getWriter, hst]
    dsimp only
    rw [hwr]
    dsimp only
    rw [hopen]

theorem filterLine_accepts {sourceline : String} {linecaptures : String → Option String}
    {cmdvals filevals : List (String × String)} {object : Object} (hoff : s.task.parsedoffset ≤ index)
    (htable : s.objtable = ObjTable.new) (hregex : config.taskContentRegex sourceline = some linecaptures)
    (hvals : populate config.taskContentValues s.task.taskdef.commandValues linecaptures s.cmdvals =
        some cmdvals)
    (hfvals : populate config.taskContentValues format.fileFormatValues linecaptures s.filevals =
        some filevals) (hobj : s.task.lineObject config linecaptures = some object) :
    ∃ s' e, s.filterLine config format fullDisk index sourceline = some (.failed s' e) ∧
      s'.verdicts = s.verdicts ++ [(index, .ok ())] := by
  have hverdict : ∃ objtable, s.objtable.insert object s.task.taskdef s.task.timestamp =
      (.ok (), objtable) := by
    rw [htable]
    exact ⟨_, rfl⟩
  obtain ⟨objtable, hinsert⟩ := hverdict
  refine ⟨{ s.looked index cmdvals filevals (.ok ()) objtable with
    task := { s.task with parsedoffset := index + 1 } },
    "ERROR: Failed to write to filtered taskfile: " ++ "No space left on device", ?_, rfl⟩
  rw [Filtering.filterLine, show fullDisk.read index = .ok () from rfl]
  dsimp only
  rw [if_neg (Nat.not_lt.2 hoff), hregex]
  dsimp only
  rw [hvals, hfvals, hobj]
  dsimp only
  rw [hinsert]
  rfl

theorem InTurn.again (h : InTurn config format task line p) (hset : Settled config format task p)
    (hbeh : p.task.parsedoffset < line) :
    ∃ how, p.ends config format fullDisk ObjTable.new = some how ∧ ¬SkipFinal how.state.verdicts := by
  have hdecided : p.task.parsedoffset ∈ decidedLines p.verdicts := by
    rw [h.decided]
    exact List.mem_range.2 hbeh
  have hskipped : (p.task.parsedoffset, .error .skip) ∈ p.verdicts := by
    rcases mem_decidedLines.1 hdecided with hacc | hskipped
    · exact absurd (hset.bounded _ (mem_acceptedLines.2 hacc)) (Nat.lt_irrefl _)
    · exact hskipped
  obtain ⟨sourceline, linecaptures, cmdvals, filevals, object, hline, hregex, hvals, hfvals, hobj⟩ :=
    h.readable _ _ hskipped
  have hchildren : ∀ st ∈ p.task.subtasks, st.child = .none := by
    intro st hst
    obtain ⟨n, hn⟩ := List.mem_iff_getElem?.1 hst
    rw [hset.subtasks n] at hn
    obtain ⟨group, -, rfl⟩ := Option.map_eq_some_iff.1 hn
    rfl
  obtain ⟨⟨writers, files⟩, hopen⟩ := openWriters_new fullDisk (fun _ => rfl) p.task.subtasks
    (p.files.appendFiltered "") hchildren
  have hlines : p.task.lines = task.lines := by
    rw [hset.frame]
  obtain ⟨hlt, hget⟩ := List.getElem?_eq_some_iff.1 hline
  have hdrop : task.lines.drop p.task.parsedoffset =
      sourceline :: task.lines.drop (p.task.parsedoffset + 1) := by
    rw [← hget]
    exact drop_eq_getElem_cons hlt
  have hpathvals : p.task.pathvals = task.pathvals := by
    rw [hset.frame]
  have htaskdef : p.task.taskdef = task.taskdef := by
    rw [hset.frame]
  let s : Filtering :=
    { task := p.task, files, verdicts := p.verdicts, objtable := ObjTable.new
      cmdvals := pathTable p.task.pathvals p.task.taskdef.commandValues
      filevals := pathTable p.task.pathvals format.fileFormatValues, writers }
  have hobj' : p.task.lineObject config linecaptures = some object := by
    rw [← hobj, hset.frame]
    rfl
  have haccepts : ∃ s' e, s.filterLine config format fullDisk p.task.parsedoffset sourceline =
        some (.failed s' e) ∧
      s'.verdicts = s.verdicts ++ [(p.task.parsedoffset, .ok ())] :=
    filterLine_accepts (Nat.le_refl p.task.parsedoffset) rfl hregex
      (by rw [← hvals, ← htaskdef, ← hpathvals]) (by rw [← hfvals, ← hpathvals]) hobj'
  obtain ⟨s', e, hpass, hverd⟩ := haccepts
  refine ⟨.failed s' e, ?_, ?_⟩
  · rw [Progress.ends, hopen]
    have hbef : s.filterLoop config format fullDisk 0 task.lines =
        s.filterLoop config format fullDisk (0 + p.task.parsedoffset) (task.lines.drop p.task.parsedoffset) :=
      filterLoop_before (fun _ => rfl) task.lines p.task.parsedoffset (Nat.le_of_eq (Nat.zero_add _))
        (Nat.le_of_lt hlt)
    rw [Nat.zero_add, hdrop, Filtering.filterLoop, hpass] at hbef
    rw [hlines]
    exact hbef
  · intro hfinal
    rw [LineEnd.state, hverd] at hfinal
    exact (List.pairwise_append.1 hfinal).2.2 _ hskipped _ (List.mem_singleton.2 rfl) rfl rfl rfl

end Again

/-- When every invocation begins with the offset behind all skips, every line is decided once, and skips are
final; behind another offset there is an invocation that accepts a line which was skipped. -/
theorem skips_final {config : Config} {format : LineFormat} {file : Taskfile} {task : Task} {p : Progress}
    (hnew : Task.new config file = some task)
    (hretries : Relation.ReflTransGen (fun p p' => p.CaughtUp ∧ p.Waits config format p')
      (Progress.start task) p) :
    SkipFinal p.verdicts ∧ (decidedLines p.verdicts).Nodup ∧
      (p.CaughtUp ↔ ∀ event objtable how, p.ends config format event objtable = some how →
        SkipFinal how.state.verdicts) ∧
      ∀ event objtable p' objtable', p.CaughtUp →
        p.filter config format event objtable = some (.transformed p', objtable') →
        SkipFinal p'.verdicts ∧ decidedLines p'.verdicts = List.range task.lines.length := by
  obtain ⟨hoffset, hsubtasks⟩ : task.parsedoffset = 0 ∧ task.subtasks = [] := by
    obtain ⟨taskdef, -, rfl⟩ := Option.map_eq_some_iff.1 hnew
    exact ⟨rfl, rfl⟩
  obtain ⟨hsettled, line, hturn⟩ := InTurn.retries hoffset hsubtasks hretries
  refine ⟨skipFinal_of_nodup hturn.nodup, hturn.nodup, ⟨?_, ?_⟩, ?_⟩
  · intro hcaught event objtable how hends
    have hturns := hturn.ends hsettled hcaught hends
    cases how with
    | next s => exact skipFinal_of_nodup (InTurn.nodup hturns)
    | wait s =>
      obtain ⟨line', hturns⟩ := hturns
      exact skipFinal_of_nodup hturns.nodup
    | failed s e => exact skipFinal_of_nodup hturns
  · intro hfinal
    rw [hturn.caughtUp_iff hsettled]
    by_contra hne
    have hbehind : p.task.parsedoffset < line := by
      have hle := hturn.offset
      omega
    obtain ⟨how, hends, hnot⟩ := hturn.again hsettled hbehind
    exact hnot (hfinal fullDisk ObjTable.new how hends)
  · intro event objtable p' objtable' hcaught hfilter
    rcases ends_of_filter hfilter with ⟨e, heq⟩ | ⟨s, -, heq⟩ | ⟨s, hends, heq⟩
    · cases heq
    · cases heq
    · obtain rfl := FilterResult.transformed.inj heq
      have hturns : InTurn config format task task.lines.length s.toProgress :=
        hturn.ends hsettled hcaught hends
      exact ⟨skipFinal_of_nodup hturns.nodup, hturns.decided⟩

/-! ### An overridden object -/

def purgeTask : ConfigTask where
  name := "purge"
  commandValues := []
  overrides := ["erase"]
  conflicts := []

def purgingTable (object : String) : ObjTable :=
  ((ObjTable.new.insert ⟨"a", 0, 0, 0, 0⟩ purgeTask 1).2.insert ⟨object, 0, 0, 0, 0⟩ readTask 2).2

def resumed : Progress where
  task := { grabbed with parsedoffset := 2, subtasks := [SubTask.new [("volume", "2")] 0 0] }
  files := ((Files.empty.appendFiltered "b 2\n").appendInput 0 "").appendInput 0 "b\n"
  verdicts := [(0, .error .skip), (1, .ok ()), (2, .error .wait)]

theorem eraseFile_skips : ∃ p' : Progress, p'.verdicts = resumed.verdicts ++ [(2, .ok ())] ∧
    SkipFinal p'.verdicts ∧ decidedLines p'.verdicts = List.range 3 := by
  have hnew : Task.new lineConfig eraseFile = some grabbed := rfl
  have hstart : (Progress.start grabbed).CaughtUp := fun _ h => absurd h not_mem_nil
  have hwaits : (Progress.start grabbed).Waits lineConfig objectFormat resumed :=
    ⟨noErrors, purgingTable "c", _, rfl⟩
  have hcaught : resumed.CaughtUp := by
    intro index hmem
    simp [resumed] at hmem
    subst hmem
    exact Nat.zero_lt_two
  have hlast : resumed.filter lineConfig objectFormat noErrors ObjTable.new = some (.transformed _, _) := rfl
  exact ⟨_, rfl, (skips_final hnew (.single ⟨hstart, hwaits⟩)).2.2.2 _ _ _ _ hcaught hlast⟩

def skipping : Progress where
  task := grabbed
  files := Files.empty.appendFiltered ""
  verdicts := [(0, .error .skip), (1, .error .wait)]

theorem skip_undone : ¬∀ (config : Config) (format : LineFormat) (file : Taskfile) (task : Task)
    (p p' : Progress) (event : FilesEvent) (objtable objtable' : ObjTable), Task.new config file = some task →
    Relation.ReflTransGen (Progress.Waits config format) (Progress.start task) p →
    p.filter config format event objtable = some (.transformed p', objtable') → SkipFinal p'.verdicts := by
  intro h
  have hnew : Task.new lineConfig eraseFile = some grabbed := rfl
  have hwaits : (Progress.start grabbed).Waits lineConfig objectFormat skipping :=
    ⟨noErrors, purgingTable "b", _, rfl⟩
  have hlast : skipping.filter lineConfig objectFormat noErrors ObjTable.new = some (.transformed _, _) := rfl
  have hfinal := h lineConfig objectFormat eraseFile grabbed skipping _ noErrors ObjTable.new _ hnew
    (.single hwaits) hlast
  have hpair := (List.pairwise_cons.1 hfinal).1 (0, .ok ()) (mem_cons_of_mem _ (mem_cons_self ..))
  exact hpair rfl rfl rfl

end Marfs.Tape
