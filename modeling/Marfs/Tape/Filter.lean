import Marfs.Search.Dispatch
import Marfs.Tape.Task
import Mathlib.Logic.Relation

/-!
# The files of a task

`filter` copies every accepted line to the filtered taskfile and its reformatted form to the input file of
a subtask.  When a line must wait, all of it is left as it is, and a later invocation opens the files
again, behind what they hold, and skips the lines up to the last one that was accepted.

The value tables are carried from line to line, but each line sets the same keys again, so nothing of an
earlier line is left (`Carried.populate`).
-/

namespace Marfs.Tape

open Marfs.Search List

/-! ## Reformatted lines -/

/-- The rest of a `ConfigTask`, which its lines are reformatted with. -/
structure LineFormat where
  fileFormat : String
  fileFormatValues : List String
  /-- The characters that `\w` matches. -/
  word : Char → Bool

/-- A part of a format: a character that stands for itself, or a match of `BRACED_NAME_REGEX`. -/
inductive Piece where
  | literal (c : Char)
  | braced (name : String)
  deriving DecidableEq, Repr

def bracedName (word : Char → Bool) : List Char → Option (List Char)
  | '\x7b' :: text =>
    if text.takeWhile word ≠ [] ∧ (text.dropWhile word).head? = some '\x7d' then
      some (text.takeWhile word)
    else none
  | _ => none

def pieces (word : Char → Bool) : Nat → List Char → List Piece
  | _, [] => []
  | skip + 1, _ :: text => pieces word skip text
  | 0, c :: text =>
    match bracedName word (c :: text) with
    | some name => .braced (String.ofList name) :: pieces word (name.length + 1) text
    | none => .literal c :: pieces word 0 text

def formatLine (word : Char → Bool) (format : String) (values : List (String × String)) :
    Except String String :=
  let parts := pieces word 0 format.toList
  let missing := parts.find? fun
    | .braced name => (values.lookup name).isNone
    | .literal _ => false
  match missing with
  | some (.braced name) => .error ("no value associated with " ++ name ++ " could be found")
  | _ => .ok (String.join (parts.map fun
    | .braced name => (values.lookup name).getD ""
    | .literal c => c.toString))

/-! ## Value tables -/

/-- `==` of two maps. -/
def sameVals (vals vals' : List (String × String)) : Bool :=
  vals.length == vals'.length && vals.all fun val => vals'.lookup val.1 == some val.2

def pathTable (pathvals : List (String × String)) (keys : List String) : List (String × String) :=
  keys.foldl (fun vals key =>
    match pathvals.lookup key with
    | none => vals
    | some pval => setVal vals key pval) []

/-- A table after the values of a line are set; the capture of a name that is missing is a panic. -/
def populate (contentValues keys : List String) (linecaptures : String → Option String)
    (vals : List (String × String)) : Option (List (String × String)) :=
  contentValues.foldlM (fun vals key =>
    if keys.contains key then (linecaptures key).map (setVal vals key) else some vals) vals

/-! ## Files -/

structure Files where
  filtered : Option String
  input : Nat → Option String

def append (file : Option String) (text : String) : Option String := some (file.getD "" ++ text)

namespace Files

/-- No file was created. -/
def empty : Files := ⟨none, fun _ => none⟩

def appendFiltered (files : Files) (text : String) : Files :=
  { files with filtered := append files.filtered text }

def appendInput (files : Files) (count : Nat) (text : String) : Files :=
  { files with input := Function.update files.input count (append (files.input count) text) }

end Files

/-- What the file system answers to `filter`: to opening the taskfile and the filtered one, to the writer
of each subtask, and for each line to its reading and to the two writes. -/
structure FilesEvent where
  source : Except String Unit
  filterfile : Except String Unit
  writer : Nat → Except String Unit
  read : Nat → Except String Unit
  filterWritten : Nat → Except String Unit
  inputWritten : Nat → Except String Unit

def SubTask.getWriter (event : FilesEvent) (files : Files) (st : SubTask) : Except String (Nat × Files) :=
  match st.child with
  | .none =>
    match event.writer st.count with
    | .ok () => .ok (st.count, files.appendInput st.count "")
    | .error e => .error e
  | _ => .error "should not be written to after child proc launch"

def openWriters (event : FilesEvent) (files : Files) : List SubTask → Except String (List Nat × Files)
  | [] => .ok ([], files)
  | st :: rest =>
    match st.getWriter event files with
    | .error e => .error e
    | .ok (writer, files) =>
      match openWriters event files rest with
      | .error e => .error e
      | .ok (writers, files) => .ok (writer :: writers, files)

/-! ## The loop -/

/-- A task between two invocations, with its files.  The verdicts are no part of the program: they note
what the table answered to the lines that were looked up. -/
structure Progress where
  task : Task
  files : Files
  verdicts : List (Nat × Except LookupError Unit)

/-- The state of the loop. -/
structure Filtering extends Progress where
  objtable : ObjTable
  cmdvals : List (String × String)
  filevals : List (String × String)
  writers : List Nat

inductive LineEnd where
  | next (s : Filtering)
  | wait (s : Filtering)
  | failed (s : Filtering) (error : String)

namespace Filtering

/-- The subtask of the command values, which is created when there is none; `none` is a panic. -/
def findSubtask (event : FilesEvent) (s : Filtering) : Except String (Filtering × Nat) :=
  match s.task.subtasks.findIdx? fun st => sameVals st.cmdvals s.cmdvals with
  | some pos => .ok (s, pos)
  | none =>
    let stcount := s.task.subtasks.length
    let st := SubTask.new s.cmdvals s.task.timestamp stcount
    match st.getWriter event s.files with
    | .error e => .error e
    | .ok (writer, files) =>
      .ok ({ s with
        task := { s.task with subtasks := s.task.subtasks ++ [st] }
        files
        writers := s.writers ++ [writer] }, stcount)

def writeLine (format : LineFormat) (event : FilesEvent) (index : Nat) (sourceline : String)
    (s : Filtering) : Option LineEnd :=
  match event.filterWritten index with
  | .error e => some (.failed s ("ERROR: Failed to write to filtered taskfile: " ++ e))
  | .ok () =>
    let s := { s with files := s.files.appendFiltered (sourceline ++ "\n") }
    match formatLine format.word format.fileFormat s.filevals with
    | .error e => some (.failed s ("ERROR: Failed to filter taskfile " ++ s.task.taskdef.name ++ " line " ++
        sourceline ++ ": " ++ e))
    | .ok outputline =>
      match s.findSubtask event with
      | .error e => some (.failed s ("ERROR: " ++ e))
      | .ok (s, pos) =>
        match s.writers[pos]? with
        | none => none
        | some writer =>
          match event.inputWritten index with
          | .error e => some (.failed s ("ERROR: Failed to write reformatted line from taskfile: " ++ e))
          | .ok () => some (.next { s with files := s.files.appendInput writer (outputline ++ "\n") })

def filterLine (config : Config) (format : LineFormat) (event : FilesEvent) (index : Nat)
    (sourceline : String) (s : Filtering) : Option LineEnd :=
  match event.read index with
  | .error e => some (.failed s ("ERROR: Failed to read line from task file: " ++ e))
  | .ok () =>
    if index < s.task.parsedoffset then some (.next s)
    else
      match config.taskContentRegex sourceline with
      | none => some (.failed s ("ERROR: Task file does not match expected content formatting!\nOffending line: "
          ++ sourceline))
      | some linecaptures =>
        match populate config.taskContentValues s.task.taskdef.commandValues linecaptures s.cmdvals,
          populate config.taskContentValues format.fileFormatValues linecaptures s.filevals,
          s.task.lineObject config linecaptures with
        | some cmdvals, some filevals, some object =>
          let (verdict, objtable) := s.objtable.insert object s.task.taskdef s.task.timestamp
          let s := { s with cmdvals, filevals, objtable, verdicts := s.verdicts ++ [(index, verdict)] }
          match verdict with
          | .error .wait => some (.wait s)
          | .error .skip => some (.next s)
          | .error (.conflict e) => some (.failed s
              ("ERROR: Task conflict detected with new " ++ s.task.taskdef.name ++ " ops: " ++ e))
          | .ok () => writeLine format event index sourceline
              { s with task := { s.task with parsedoffset := index + 1 } }
        | _, _, _ => none

def filterLoop (config : Config) (format : LineFormat) (event : FilesEvent) (s : Filtering) (index : Nat) :
    List String → Option LineEnd
  | [] => some (.next s)
  | sourceline :: rest =>
    match filterLine config format event index sourceline s with
    | some (.next s) => filterLoop config format event s (index + 1) rest
    | other => other

end Filtering

def acceptedLines (verdicts : List (Nat × Except LookupError Unit)) : List Nat :=
  verdicts.filterMap fun
    | (index, .ok ()) => some index
    | (_, .error _) => none

/-- `TaskResult`, with the files of the task. -/
inductive FilterResult where
  | unchanged (p : Progress)
  | transformed (p : Progress)
  | err (error : String)

namespace Progress

/-- A task that was grabbed: its directory is new. -/
def start (task : Task) : Progress := { task, files := .empty, verdicts := [] }

def filter (config : Config) (format : LineFormat) (event : FilesEvent) (p : Progress) (objtable : ObjTable) :
    Option (FilterResult × ObjTable) :=
  match event.source with
  | .error e => some (.err ("ERROR: Failed to open taskfile: " ++ e), p.task.drop objtable)
  | .ok () =>
    match event.filterfile with
    | .error e => some (.err ("failed to open filtered taskfile output: " ++ e), p.task.drop objtable)
    | .ok () =>
      match openWriters event (p.files.appendFiltered "") p.task.subtasks with
      | .error e => some (.err ("ERROR: " ++ e), p.task.drop objtable)
      | .ok (writers, files) =>
        let cmdvals := pathTable p.task.pathvals p.task.taskdef.commandValues
        let filevals := pathTable p.task.pathvals format.fileFormatValues
        match Filtering.filterLoop config format event
          { task := p.task, files, verdicts := p.verdicts, objtable, cmdvals, filevals, writers } 0
          p.task.lines with
        | none => none
        | some (.next s) => some (.transformed s.toProgress, s.objtable)
        | some (.wait s) => some (.unchanged s.toProgress, s.objtable)
        | some (.failed s e) => some (.err e, s.task.drop s.objtable)

def Waits (config : Config) (format : LineFormat) (p p' : Progress) : Prop :=
  ∃ event objtable objtable', p.filter config format event objtable = some (.unchanged p', objtable')

end Progress

/-! ## Tables of one kind -/

section Tables

variable {vals vals' base : List (String × String)} {key value : String}
  {contentValues keys : List String} {linecaptures linecaptures' : String → Option String}

def withKey (tableKeys : List String) (key : String) : List String :=
  if key ∈ tableKeys then tableKeys else tableKeys ++ [key]

variable {tableKeys newKeys : List String} {key' : String}

theorem withKey_of_mem (h : key ∈ tableKeys) : withKey tableKeys key = tableKeys :=
  if_pos h

theorem mem_withKey : key' ∈ withKey tableKeys key ↔ key' ∈ tableKeys ∨ key' = key := by
  unfold withKey
  by_cases hmem : key ∈ tableKeys
  · rw [if_pos hmem]
    constructor
    · exact Or.inl
    · rintro (h | rfl)
      · exact h
      · exact hmem
  · rw [if_neg hmem, mem_append, mem_singleton]

theorem nodup_withKey (h : tableKeys.Nodup) : (withKey tableKeys key).Nodup := by
  unfold withKey
  by_cases hmem : key ∈ tableKeys
  · rwa [if_pos hmem]
  · rw [if_neg hmem, ← concat_eq_append]
    exact h.concat hmem

theorem keys_setVal (vals : List (String × String)) (key value : String) :
    (setVal vals key value).map Prod.fst = withKey (vals.map Prod.fst) key := by
  have hany : (vals.any (·.1 == key)) = true ↔ key ∈ vals.map Prod.fst := by
    rw [any_eq_true, mem_map]
    constructor
    · rintro ⟨val, hmem, heq⟩
      exact ⟨val, hmem, eq_of_beq heq⟩
    · rintro ⟨val, hmem, heq⟩
      exact ⟨val, hmem, beq_iff_eq.2 heq⟩
  unfold setVal withKey
  by_cases hmem : key ∈ vals.map Prod.fst
  · rw [if_pos (hany.2 hmem), if_pos hmem, map_map]
    apply map_congr_left
    intro val _
    by_cases heq : val.1 = key
    · simp [heq]
    · simp [heq]
  · rw [if_neg (fun h => hmem (hany.1 h)), if_neg hmem, map_append]
    rfl

theorem lookup_map_of_ne (hne : key' ≠ key) (vals : List (String × String)) :
    (vals.map fun val => if val.1 == key then (key, value) else val).lookup key' = vals.lookup key' := by
  induction vals with
  | nil => rfl
  | cons val vals ih =>
    obtain ⟨front, old⟩ := val
    rw [map_cons, lookup_cons, lookup_cons, ih]
    by_cases hfront : front = key
    · subst hfront
      rw [if_pos (beq_self_eq_true front), beq_eq_false_iff_ne.2 hne]
    · rw [if_neg (fun h => hfront (eq_of_beq h))]

theorem lookup_setVal (vals : List (String × String)) (key value key' : String) :
    (setVal vals key value).lookup key' = if key' = key then some value else vals.lookup key' := by
  unfold setVal
  by_cases hany : vals.any (·.1 == key)
  · rw [if_pos hany]
    induction vals with
    | nil => cases hany
    | cons val vals ih =>
      obtain ⟨front, old⟩ := val
      rw [map_cons]
      by_cases hfront : front = key
      · subst hfront
        rw [if_pos (beq_self_eq_true front), lookup_cons, lookup_cons]
        by_cases heq : key' = front
        · rw [if_pos heq, beq_iff_eq.2 heq]
        · rw [if_neg heq, beq_eq_false_iff_ne.2 heq]
          exact lookup_map_of_ne heq vals
      · have hrest : vals.any (·.1 == key) = true := by
          rw [any_cons, beq_eq_false_iff_ne.2 hfront, Bool.false_or] at hany
          exact hany
        rw [if_neg (fun h => hfront (eq_of_beq h)), lookup_cons, lookup_cons, ih hrest]
        by_cases heq : key' = front
        · have hne : ¬ key' = key := fun h => hfront (heq.symm.trans h)
          rw [beq_iff_eq.2 heq]
          exact (if_neg hne).symm
        · rw [beq_eq_false_iff_ne.2 heq]
  · rw [if_neg hany, lookup_append, lookup_singleton]
    by_cases heq : key' = key
    · have hnone : vals.lookup key' = none := by
        rw [lookup_eq_none_iff]
        intro val hmem
        have h : ¬ val.1 = key := fun h => hany (List.any_eq_true.2 ⟨val, hmem, beq_iff_eq.2 h⟩)
        rw [heq]
        exact bne_iff_ne.2 fun hkey => h hkey.symm
      rw [hnone, if_pos (beq_iff_eq.2 heq), if_pos heq]
      rfl
    · rw [if_neg (fun h => heq (eq_of_beq h)), if_neg heq, Option.or_none]

theorem lookup_of_mem {val : String × String} (hnodup : (vals.map Prod.fst).Nodup) (hmem : val ∈ vals) :
    vals.lookup val.1 = some val.2 := by
  induction vals with
  | nil => cases hmem
  | cons front vals ih =>
    rw [map_cons, nodup_cons] at hnodup
    obtain ⟨key, value⟩ := front
    rcases List.mem_cons.1 hmem with rfl | hmem
    · exact lookup_cons_self
    · have hne : ¬ val.1 = key := fun heq => hnodup.1 (List.mem_map.2 ⟨val, hmem, heq⟩)
      rw [lookup_cons, beq_eq_false_iff_ne.2 hne]
      exact ih hnodup.2 hmem

theorem table_ext (hkeys : vals.map Prod.fst = vals'.map Prod.fst) (hnodup : (vals.map Prod.fst).Nodup)
    (hlook : ∀ val ∈ vals, vals'.lookup val.1 = some val.2) : vals = vals' := by
  induction vals generalizing vals' with
  | nil => exact (List.map_eq_nil_iff.1 hkeys.symm).symm
  | cons val vals ih =>
    cases vals' with
    | nil => cases hkeys
    | cons val' vals' =>
      obtain ⟨key, value⟩ := val
      obtain ⟨key', value'⟩ := val'
      rw [map_cons, map_cons] at hkeys
      obtain ⟨hkey, hrest⟩ := List.cons.inj hkeys
      dsimp only at hkey
      subst hkey
      rw [map_cons, nodup_cons] at hnodup
      have hval := hlook _ mem_cons_self
      rw [lookup_cons_self] at hval
      obtain rfl := Option.some.inj hval
      congr 1
      apply ih hrest hnodup.2
      intro val hmem
      have hne : ¬ val.1 = key := fun heq => hnodup.1 (List.mem_map.2 ⟨val, hmem, heq⟩)
      have h := hlook val (mem_cons_of_mem _ hmem)
      rwa [lookup_cons, beq_eq_false_iff_ne.2 hne] at h

theorem sameVals_iff (hkeys : vals.map Prod.fst = vals'.map Prod.fst) (hnodup : (vals.map Prod.fst).Nodup) :
    sameVals vals vals' = true ↔ vals = vals' := by
  have hlen : vals.length = vals'.length := by
    rw [← length_map Prod.fst, hkeys, length_map]
  unfold sameVals
  rw [Bool.and_eq_true, beq_iff_eq, all_eq_true]
  constructor
  · rintro ⟨-, hall⟩
    exact table_ext hkeys hnodup fun val hmem => eq_of_beq (hall val hmem)
  · rintro rfl
    exact ⟨rfl, fun val hmem => beq_iff_eq.2 (lookup_of_mem hnodup hmem)⟩

theorem nodup_pathTable (pathvals : List (String × String)) (keys : List String) :
    ((pathTable pathvals keys).map Prod.fst).Nodup := by
  suffices h : ∀ vals : List (String × String), (vals.map Prod.fst).Nodup →
      ((keys.foldl (fun vals key =>
        match pathvals.lookup key with
        | none => vals
        | some pval => setVal vals key pval) vals).map Prod.fst).Nodup from h [] nodup_nil
  induction keys with
  | nil => exact fun _ hvals => hvals
  | cons key keys ih =>
    intro vals hvals
    rw [foldl_cons]
    apply ih
    cases pathvals.lookup key with
    | none => exact hvals
    | some pval =>
      dsimp only
      rw [keys_setVal]
      exact nodup_withKey hvals

theorem populate_keys (h : populate contentValues keys linecaptures vals = some vals') :
    vals'.map Prod.fst =
      (contentValues.filter keys.contains).foldl withKey (vals.map Prod.fst) := by
  induction contentValues generalizing vals with
  | nil =>
    cases h
    rfl
  | cons key contentValues ih =>
    unfold populate at h ih
    rw [foldlM_cons] at h
    obtain ⟨mid, hmid, hrest⟩ := Option.bind_eq_some_iff.1 h
    by_cases hkey : keys.contains key
    · rw [if_pos hkey] at hmid
      obtain ⟨value, -, rfl⟩ := Option.map_eq_some_iff.1 hmid
      rw [filter_cons_of_pos hkey, foldl_cons, ih hrest, keys_setVal]
    · rw [if_neg hkey] at hmid
      cases hmid
      rw [filter_cons_of_neg hkey, ih hrest]

theorem populate_lookup (h : populate contentValues keys linecaptures vals = some vals') (key' : String) :
    vals'.lookup key' =
      if key' ∈ contentValues.filter keys.contains then linecaptures key' else vals.lookup key' := by
  induction contentValues generalizing vals with
  | nil =>
    cases h
    rw [filter_nil, if_neg not_mem_nil]
  | cons key contentValues ih =>
    unfold populate at h ih
    rw [foldlM_cons] at h
    obtain ⟨mid, hmid, hrest⟩ := Option.bind_eq_some_iff.1 h
    by_cases hkey : keys.contains key
    · rw [if_pos hkey] at hmid
      obtain ⟨value, hval, rfl⟩ := Option.map_eq_some_iff.1 hmid
      rw [filter_cons_of_pos hkey, ih hrest, lookup_setVal]
      simp only [mem_cons]
      by_cases heq : key' = key
      · subst heq
        rw [if_pos rfl, if_pos (Or.inl rfl), hval, ite_self]
      · simp only [heq, if_false, false_or]
    · rw [if_neg hkey] at hmid
      cases hmid
      rw [filter_cons_of_neg hkey, ih hrest]

theorem populate_isSome (h : populate contentValues keys linecaptures vals = some vals')
    (base : List (String × String)) :
    ∃ base', populate contentValues keys linecaptures base = some base' := by
  induction contentValues generalizing vals base with
  | nil => exact ⟨base, rfl⟩
  | cons key contentValues ih =>
    unfold populate at h ih ⊢
    rw [foldlM_cons] at h ⊢
    obtain ⟨mid, hmid, hrest⟩ := Option.bind_eq_some_iff.1 h
    by_cases hkey : keys.contains key
    · rw [if_pos hkey] at hmid ⊢
      obtain ⟨value, hval, rfl⟩ := Option.map_eq_some_iff.1 hmid
      rw [hval]
      exact ih hrest _
    · rw [if_neg hkey] at hmid ⊢
      cases hmid
      exact ih hrest base

theorem mem_foldl_withKey : key ∈ newKeys.foldl withKey tableKeys ↔ key ∈ tableKeys ∨ key ∈ newKeys := by
  induction newKeys generalizing tableKeys with
  | nil => simp
  | cons newKey newKeys ih => rw [foldl_cons, ih, mem_withKey, mem_cons, or_assoc]

theorem nodup_foldl_withKey (h : tableKeys.Nodup) : (newKeys.foldl withKey tableKeys).Nodup := by
  induction newKeys generalizing tableKeys with
  | nil => exact h
  | cons newKey newKeys ih => exact ih (nodup_withKey h)

theorem foldl_withKey_of_subset (h : ∀ key ∈ newKeys, key ∈ tableKeys) :
    newKeys.foldl withKey tableKeys = tableKeys := by
  induction newKeys with
  | nil => rfl
  | cons newKey newKeys ih =>
    rw [foldl_cons, withKey_of_mem (h newKey mem_cons_self)]
    exact ih fun key hmem => h key (mem_cons_of_mem _ hmem)

/-- A table as the loop carries it: nothing is set but the values of the path, or those of a line too. -/
def Carried (contentValues keys : List String) (base vals : List (String × String)) : Prop :=
  vals = base ∨ ∃ linecaptures, populate contentValues keys linecaptures base = some vals

theorem Carried.populate (h : Carried contentValues keys base vals) (hnodup : (base.map Prod.fst).Nodup)
    (hline : populate contentValues keys linecaptures vals = some vals') :
    Tape.populate contentValues keys linecaptures base = some vals' := by
  rcases h with rfl | ⟨linecaptures', hearlier⟩
  · exact hline
  obtain ⟨base', hbase⟩ := populate_isSome hline base
  rw [hbase]
  have hkeys : base'.map Prod.fst = vals'.map Prod.fst := by
    rw [populate_keys hbase, populate_keys hline, populate_keys hearlier]
    symm
    apply foldl_withKey_of_subset
    intro key hmem
    exact mem_foldl_withKey.2 (Or.inr hmem)
  have hnodup' : (base'.map Prod.fst).Nodup := by
    rw [populate_keys hbase]
    exact nodup_foldl_withKey hnodup
  congr 1
  apply table_ext hkeys hnodup'
  intro val hmem
  have hval := lookup_of_mem hnodup' hmem
  rw [populate_lookup hbase] at hval
  rw [populate_lookup hline, populate_lookup hearlier]
  by_cases hset : val.1 ∈ contentValues.filter keys.contains
  · rwa [if_pos hset] at hval ⊢
  · rw [if_neg hset] at hval ⊢
    rwa [if_neg hset]

end Tables

end Marfs.Tape
