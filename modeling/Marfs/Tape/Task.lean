import Marfs.Tape.Format

/-!
# Tasks

A task is read from its file line by line: every accepted line goes to the subtask with its command
values.  The processes of the subtasks are started while slots are free, and polled until all have ended.
What the file system and the processes answer is an input of each function; a `none` is a panic.
-/

namespace Marfs.Tape

/-- The parts of `Config` that tasks are worked on with; a regular expression is the function that gives
the captures of a line. -/
structure Config where
  tasks : List ConfigTask
  taskParallelism : Nat
  taskContentValues : List String
  taskContentRegex : String → Option (String → Option String)

/-! ## Subtasks -/

inductive TaskChild where
  | none
  | child
  | complete (retval : Int)
  deriving DecidableEq, Repr

/-- `SubTask`; the command values stand in the order they are set in. -/
structure SubTask where
  timestamp : SystemTime
  count : Nat
  cmdvals : List (String × String)
  child : TaskChild
  deriving DecidableEq, Repr

/-- What `try_wait` answers; a process that a signal ended has no code. -/
inductive TryWait where
  | exited (code : Option Int)
  | running
  | failed
  deriving DecidableEq, Repr

/-- What the system answers for one subtask: to the steps of its launch (its command line, its output
file, its process), to `try_wait`, and to the comparison with the timeouts. -/
structure ProcEvent where
  spawned : Except String Unit
  tryWait : TryWait
  expired : Bool
  deriving DecidableEq

namespace SubTask

def new (cmdvals : List (String × String)) (timestamp : SystemTime) (count : Nat) : SubTask :=
  { timestamp, count, cmdvals, child := .none }

def launch (event : ProcEvent) (st : SubTask) : Except String SubTask :=
  match st.child with
  | .none =>
    match event.spawned with
    | .ok () => .ok { st with child := .child }
    | .error e => .error e
  | _ => .error "already launched previously"

def poll (event : ProcEvent) (st : SubTask) : SubTask :=
  match st.child with
  | .child =>
    match event.tryWait with
    | .exited code => { st with child := .complete (code.getD (-1)) }
    | _ => if event.expired then { st with child := .complete (-1) } else st
  | _ => st

end SubTask

/-! ## Tasks -/

/-- `InnerTask`, with the lines of its file; paths, permissions and times are left out. -/
structure Task where
  lines : List String
  timestamp : SystemTime
  taskdef : ConfigTask
  parsedoffset : Nat
  pathvals : List (String × String)
  subtasks : List SubTask

inductive TaskResult where
  | unchanged (task : Task)
  | transformed (task : Task)
  | err (error : String)

/-- What `Task::new` finds in a file and its path. -/
structure Taskfile where
  lines : List String
  taskname : String
  pathvals : List (String × String)
  timestamp : SystemTime

def setVal (vals : List (String × String)) (key value : String) : List (String × String) :=
  if vals.any (·.1 == key) then vals.map fun val => if val.1 == key then (key, value) else val
  else vals ++ [(key, value)]

def parseU32 (text : String) : Option Nat := (parseUnsigned 32 text).toOption

namespace Task

/-- `Task::new`, for a file of this instance whose directories could be made. -/
def new (config : Config) (file : Taskfile) : Option Task :=
  (Tape.taskdef config.tasks file.taskname).map fun def' =>
    { lines := file.lines, timestamp := file.timestamp, taskdef := def', parsedoffset := 0
      pathvals := file.pathvals, subtasks := [] }

def drop (task : Task) (objtable : ObjTable) : ObjTable :=
  if 0 < task.parsedoffset then objtable.remove task.taskdef task.timestamp else objtable

/-! ### Reading the file -/

def pathCmdvals (task : Task) : List (String × String) :=
  task.taskdef.commandValues.foldl (fun cmdvals key =>
    match task.pathvals.lookup key with
    | none => cmdvals
    | some pval => setVal cmdvals key pval) []

def lineCmdvals (config : Config) (task : Task) (linecaptures : String → Option String) :
    Option (List (String × String)) :=
  config.taskContentValues.foldlM (fun cmdvals key =>
    if task.taskdef.commandValues.contains key then (linecaptures key).map (setVal cmdvals key)
    else some cmdvals) task.pathCmdvals

def locationValue (config : Config) (task : Task) (linecaptures : String → Option String)
    (key : String) : Option Nat :=
  if config.taskContentValues.contains key then (linecaptures key).bind parseU32
  else
    match task.pathvals.lookup key with
    | some value => parseU32 value
    | none => some 0

def lineObject (config : Config) (task : Task) (linecaptures : String → Option String) :
    Option Object := do
  let pod ← task.locationValue config linecaptures "pod"
  let block ← task.locationValue config linecaptures "block"
  let cap ← task.locationValue config linecaptures "cap"
  let scatter ← task.locationValue config linecaptures "scatter"
  let name ← linecaptures "object"
  return { name, location := { pod, block, cap, scatter } }

/-- The subtask of an accepted line: the one with its command values, or a new one. -/
def assign (task : Task) (cmdvals : List (String × String)) : Task :=
  if task.subtasks.any fun st => st.cmdvals == cmdvals then task
  else { task with
    subtasks := task.subtasks ++ [SubTask.new cmdvals task.timestamp task.subtasks.length] }

inductive FilterEnd where
  | through
  | wait (object : Object)
  | failed (error : String)
  deriving DecidableEq, Repr

/-- What the file system answers to `filter`: to the files it opens, and for each line to its reading
and, once it is accepted, to the writes that follow. -/
structure FilterEvent where
  opened : Except String Unit
  read : Nat → Except String Unit
  written : Nat → Except String Unit

def filterLoop (config : Config) (event : FilterEvent) (task : Task) (objtable : ObjTable) (index : Nat) :
    List String → Option (Task × ObjTable × FilterEnd)
  | [] => some (task, objtable, .through)
  | sourceline :: rest =>
    match event.read index with
    | .error e => some (task, objtable, .failed ("ERROR: Failed to read line from task file: " ++ e))
    | .ok () =>
      if index < task.parsedoffset then filterLoop config event task objtable (index + 1) rest
      else
        match config.taskContentRegex sourceline with
        | none => some (task, objtable, .failed
            ("ERROR: Task file does not match expected content formatting!\nOffending line: " ++ sourceline))
        | some linecaptures =>
          match task.lineCmdvals config linecaptures, task.lineObject config linecaptures with
          | some cmdvals, some object =>
            match objtable.insert object task.taskdef task.timestamp with
            | (.error .wait, objtable) => some (task, objtable, .wait object)
            | (.error .skip, objtable) => filterLoop config event task objtable (index + 1) rest
            | (.error (.conflict e), objtable) => some (task, objtable, .failed
                ("ERROR: Task conflict detected with new " ++ task.taskdef.name ++ " ops: " ++ e))
            | (.ok (), objtable) =>
              match event.written index with
              | .error e => some ({ task with parsedoffset := index + 1 }, objtable, .failed e)
              | .ok () =>
                filterLoop config event (assign { task with parsedoffset := index + 1 } cmdvals) objtable
                  (index + 1) rest
          | _, _ => none

def filter (config : Config) (event : FilterEvent) (task : Task) (objtable : ObjTable) :
    Option (TaskResult × ObjTable) :=
  match event.opened with
  | .error e => some (.err e, task.drop objtable)
  | .ok () =>
    match task.filterLoop config event objtable 0 task.lines with
    | none => none
    | some (task, objtable, .through) => some (.transformed task, objtable)
    | some (task, objtable, .wait _) => some (.unchanged task, objtable)
    | some (task, objtable, .failed e) => some (.err e, task.drop objtable)

/-! ### Running the subtasks -/

inductive LaunchEnd where
  | through
  | exhausted
  | failed (error : String)
  deriving DecidableEq, Repr

def launchLoop (events : Nat → ProcEvent) (procLimit : Nat) : List SubTask → List SubTask × Nat × LaunchEnd
  | [] => ([], procLimit, .through)
  | st :: rest =>
    if procLimit = 0 then (st :: rest, 0, .exhausted)
    else
      match st.child with
      | .complete _ =>
        let (rest, procLimit, how) := launchLoop (fun i => events (i + 1)) procLimit rest
        (st :: rest, procLimit, how)
      | .child =>
        let st := st.poll (events 0)
        let freed := if st.child = .child then 0 else 1
        let (rest, procLimit, how) := launchLoop (fun i => events (i + 1)) (procLimit + freed) rest
        (st :: rest, procLimit, how)
      | .none =>
        match st.launch (events 0) with
        | .ok st =>
          let (rest, procLimit, how) := launchLoop (fun i => events (i + 1)) (procLimit - 1) rest
          (st :: rest, procLimit, how)
        | .error e => (st :: rest, procLimit, .failed e)

def launch (events : Nat → ProcEvent) (task : Task) (procLimit : Nat) : TaskResult × Nat :=
  match launchLoop events procLimit task.subtasks with
  | (subtasks, procLimit, .through) => (.transformed { task with subtasks }, procLimit)
  | (subtasks, procLimit, .exhausted) => (.unchanged { task with subtasks }, procLimit)
  | (_, procLimit, .failed e) => (.err ("ERROR: Failed to launch SubTask process: " ++ e), procLimit)

def pollLoop (events : Nat → ProcEvent) (procLimit : Nat) : List SubTask → Option (List SubTask × Nat × Bool)
  | [] => some ([], procLimit, false)
  | st :: rest =>
    match st.child with
    | .none => none
    | .child =>
      let st := st.poll (events 0)
      let freed := if st.child = .child then 0 else 1
      match pollLoop (fun i => events (i + 1)) (procLimit + freed) rest with
      | none => none
      | some (rest, procLimit, anyrunning) =>
        some (st :: rest, procLimit, anyrunning || st.child = .child)
    | .complete _ =>
      match pollLoop (fun i => events (i + 1)) procLimit rest with
      | none => none
      | some (rest, procLimit, anyrunning) => some (st :: rest, procLimit, anyrunning)

def poll (events : Nat → ProcEvent) (renamed : Except String Unit) (task : Task) (procLimit : Nat) :
    Option (TaskResult × Nat) :=
  match pollLoop events procLimit task.subtasks with
  | none => none
  | some (subtasks, procLimit, anyrunning) =>
    if anyrunning then some (.unchanged { task with subtasks }, procLimit)
    else if subtasks.any fun st => st.child ≠ .complete 0 then
      some (.err ("ERROR: Detected failed child proc(s) for " ++ task.taskdef.name ++ " task"), procLimit)
    else
      match renamed with
      | .error e => some (.err ("ERROR: Failed to rename filtered taskfile: " ++ e), procLimit)
      | .ok () => some (.transformed { task with subtasks }, procLimit)

/-- What the file system answers on the output file: the client removed it, it is there, or an error. -/
inductive CheckEvent where
  | cleaned
  | present
  | failed (error : String)
  deriving DecidableEq, Repr

end Task

end Marfs.Tape
