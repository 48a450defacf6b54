import Mathlib.Data.List.Basic

/-!
# Task types

The configuration lists the task types.  Each names the types it overrides and those it conflicts with;
what is checked of these lists is that the names of the types differ and that every target is one of them.
-/

namespace Marfs.Tape

/-- `ConfigTask`, without the texts that only commands and their input files are formatted from. -/
structure ConfigTask where
  name : String
  commandValues : List String
  overrides : List String
  conflicts : List String
  deriving DecidableEq, Repr

namespace ConfigTask

def Dominates (a b : ConfigTask) : Prop := b.name ∈ a.overrides ∨ b.name ∈ a.conflicts

def Clashes (a b : ConfigTask) : Prop := a.Dominates b ∨ b.Dominates a

instance (a b : ConfigTask) : Decidable (a.Dominates b) :=
  inferInstanceAs (Decidable (_ ∨ _))

instance (a b : ConfigTask) : Decidable (a.Clashes b) :=
  inferInstanceAs (Decidable (_ ∨ _))

theorem Clashes.symm {a b : ConfigTask} (h : a.Clashes b) : b.Clashes a := Or.symm h

end ConfigTask

structure ParsedTask where
  name : String
  commandValues : List String
  overrides : Option (List String)
  conflicts : Option (List String)
  deriving DecidableEq, Repr

/-- A check of `ParsedConfig::new` on one task definition fails. -/
def ParsedTask.invalid (tasks : List ParsedTask) (task : ParsedTask) : Bool :=
  (tasks.filter fun t => t.name == task.name).length > 1 ||
    [task.overrides, task.conflicts].any fun tgtlist =>
      match tgtlist with
      | none => false
      | some tgts => tgts.any fun tgt => (tasks.find? fun t => t.name == tgt).isNone

def ParsedTask.toConfig (task : ParsedTask) : ConfigTask where
  name := task.name
  commandValues := task.commandValues
  overrides := task.overrides.getD []
  conflicts := task.conflicts.getD []

def parsedTasks (tasks : List ParsedTask) : Option (List ConfigTask) :=
  if tasks.any (ParsedTask.invalid tasks) then none else some (tasks.map ParsedTask.toConfig)

def taskdef (tasks : List ConfigTask) (taskname : String) : Option ConfigTask :=
  tasks.find? fun t => t.name == taskname

theorem taskdef_name {tasks : List ConfigTask} {taskname : String} {def' : ConfigTask}
    (h : taskdef tasks taskname = some def') : def'.name = taskname := by
  simpa using List.find?_some h

theorem taskdef_mem {tasks : List ConfigTask} {taskname : String} {def' : ConfigTask}
    (h : taskdef tasks taskname = some def') : def' ∈ tasks :=
  List.mem_of_find?_eq_some h

end Marfs.Tape
