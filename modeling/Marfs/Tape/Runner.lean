import Marfs.Tape.Task

/-!
# The runner

The runner holds the tasks by how far they are: new, filtered, running, resting.  Each of its functions
takes all tasks of one kind in order and puts each where its result says.  The main loop calls these
functions again and again, with the count of free process slots in hand; which of them it calls depends
on clocks, so a run is any sequence of calls.
-/

namespace Marfs.Tape

def taskCount : Nat := 4096

/-- `Runner`, without its times and its status for reports. -/
structure Runner where
  objtable : ObjTable
  newTasks : List Task
  filteredTasks : List Task
  runningTasks : List Task
  restingTasks : List Task

/-- The main loop's state. -/
structure Main where
  runner : Runner
  procLimit : Nat

namespace Runner

def new : Runner := ⟨ObjTable.new, [], [], [], []⟩

def allTasks (r : Runner) : List Task :=
  r.newTasks ++ (r.filteredTasks ++ (r.runningTasks ++ r.restingTasks))

def hasActiveTasks (r : Runner) : Bool :=
  !r.newTasks.isEmpty || !r.filteredTasks.isEmpty || !r.runningTasks.isEmpty || !r.restingTasks.isEmpty

def scanForInputs (config : Config) (found : List Taskfile) (r : Runner) : Runner :=
  { r with newTasks :=
    r.newTasks ++ (found.filterMap (Task.new config)).take (taskCount - r.allTasks.length) }

def filterTask (config : Config) (event : Task.FilterEvent) (r : Runner) (task : Task) : Option Runner :=
  match task.filter config event r.objtable with
  | none => none
  | some (.unchanged t, objtable) => some { r with objtable, newTasks := r.newTasks ++ [t] }
  | some (.transformed t, objtable) => some { r with objtable, filteredTasks := r.filteredTasks ++ [t] }
  | some (.err _, objtable) => some { r with objtable }

def filterAll (config : Config) (events : Nat → Task.FilterEvent) (r : Runner) : List Task → Option Runner
  | [] => some r
  | task :: rest =>
    match r.filterTask config (events 0) task with
    | none => none
    | some r => filterAll config (fun i => events (i + 1)) r rest

def filterTasks (config : Config) (events : Nat → Task.FilterEvent) (r : Runner) : Option Runner :=
  filterAll config events { r with newTasks := [] } r.newTasks

def checkTask (event : Task.CheckEvent) (r : Runner) (task : Task) : Runner :=
  match event with
  | .present => { r with restingTasks := r.restingTasks ++ [task] }
  | .cleaned | .failed _ => { r with objtable := task.drop r.objtable }

def checkAll (events : Nat → Task.CheckEvent) (r : Runner) : List Task → Runner
  | [] => r
  | task :: rest => checkAll (fun i => events (i + 1)) (r.checkTask (events 0) task) rest

def checkTasks (events : Nat → Task.CheckEvent) (r : Runner) : Runner :=
  checkAll events { r with restingTasks := [] } r.restingTasks

end Runner

namespace Main

/-- The state before the loop. -/
def new (config : Config) : Main := ⟨Runner.new, config.taskParallelism⟩

def launchTask (events : Nat → ProcEvent) (s : Main) (task : Task) : Main :=
  match task.launch events s.procLimit with
  | (.unchanged t, procLimit) =>
    ⟨{ s.runner with filteredTasks := s.runner.filteredTasks ++ [t] }, procLimit⟩
  | (.transformed t, procLimit) =>
    ⟨{ s.runner with runningTasks := s.runner.runningTasks ++ [t] }, procLimit⟩
  | (.err _, procLimit) => ⟨{ s.runner with objtable := task.drop s.runner.objtable }, procLimit⟩

def launchAll (events : Nat → Nat → ProcEvent) (s : Main) : List Task → Main
  | [] => s
  | task :: rest => launchAll (fun i => events (i + 1)) (s.launchTask (events 0) task) rest

def launchTasks (events : Nat → Nat → ProcEvent) (s : Main) : Main :=
  launchAll events { s with runner := { s.runner with filteredTasks := [] } } s.runner.filteredTasks

/-- What the system answers while one task is polled. -/
structure PollEvent where
  procs : Nat → ProcEvent
  renamed : Except String Unit

def pollTask (event : PollEvent) (s : Main) (task : Task) : Option Main :=
  match task.poll event.procs event.renamed s.procLimit with
  | none => none
  | some (.unchanged t, procLimit) =>
    some ⟨{ s.runner with runningTasks := s.runner.runningTasks ++ [t] }, procLimit⟩
  | some (.transformed t, procLimit) =>
    some ⟨{ s.runner with restingTasks := s.runner.restingTasks ++ [t] }, procLimit⟩
  | some (.err _, procLimit) =>
    some ⟨{ s.runner with objtable := task.drop s.runner.objtable }, procLimit⟩

def pollAll (events : Nat → PollEvent) (s : Main) : List Task → Option Main
  | [] => some s
  | task :: rest =>
    match s.pollTask (events 0) task with
    | none => none
    | some s => pollAll (fun i => events (i + 1)) s rest

def pollTasks (events : Nat → PollEvent) (s : Main) : Option Main :=
  pollAll events { s with runner := { s.runner with runningTasks := [] } } s.runner.runningTasks

/-- A call of the main loop, with what the system answers during it. -/
inductive Call where
  | scan (found : List Taskfile)
  | filter (events : Nat → Task.FilterEvent)
  | launch (events : Nat → Nat → ProcEvent)
  | poll (events : Nat → PollEvent)
  | check (events : Nat → Task.CheckEvent)

def apply (config : Config) (s : Main) : Call → Option Main
  | .scan found => some { s with runner := s.runner.scanForInputs config found }
  | .filter events => (s.runner.filterTasks config events).map fun runner => { s with runner }
  | .launch events => some (s.launchTasks events)
  | .poll events => s.pollTasks events
  | .check events => some { s with runner := s.runner.checkTasks events }

def run (config : Config) (s : Main) : List Call → Option Main
  | [] => some s
  | call :: calls =>
    match s.apply config call with
    | none => none
    | some s => run config s calls

def Along (config : Config) (P : Main → Call → Prop) (s : Main) : List Call → Prop
  | [] => True
  | call :: calls => P s call ∧ ∀ s', s.apply config call = some s' → Along config P s' calls

end Main

end Marfs.Tape
