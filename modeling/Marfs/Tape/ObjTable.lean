import Mathlib.Logic.Function.Basic
import Marfs.Tape.Config

/-!
# The object table

The tape manager keeps, for every object some task works on, the types of these tasks with their
timestamps.  A new operation is compared with every entry of its object, and the comparisons add up to
one verdict: the operation is accepted, must wait, is skipped, or aborts its task.  The table is a map
from objects to lists; the order of a hash map plays no part.
-/

namespace Marfs.Tape

open List

structure ObjLocation where
  pod : Nat
  block : Nat
  cap : Nat
  scatter : Nat
  deriving DecidableEq, Repr

structure Object where
  name : String
  location : ObjLocation
  deriving DecidableEq, Repr

def Object.display (object : Object) : String :=
  "Obj\x7b \"" ++ object.name ++ "\"@\x7bPod" ++ toString object.location.pod ++ ",Block" ++
    toString object.location.block ++ ",Cap" ++ toString object.location.cap ++ ",Scat" ++
    toString object.location.scatter ++ "\x7d \x7d"

abbrev SystemTime := Nat

inductive LookupError where
  | conflict (error : String)
  | skip
  | wait
  deriving DecidableEq, Repr

/-- What the table holds for one object: task types with the timestamps of their operations. -/
abbrev TaskList := List (ConfigTask × List SystemTime)

/-! ## One object -/

/-- One round of the loop of `insert`: the verdict so far and the next entry. -/
def scanElem (objstr : String) (taskDef : ConfigTask) (lookupres : Except LookupError Unit)
    (elemtask : ConfigTask) : Except LookupError Unit :=
  let lookupres :=
    if taskDef.overrides.contains elemtask.name || taskDef.conflicts.contains elemtask.name then
      match lookupres with
      | .ok () => .error .wait
      | oldres => oldres
    else lookupres
  let lookupres :=
    if elemtask.overrides.contains taskDef.name then
      match lookupres with
      | .ok () | .error .wait => .error .skip
      | oldres => oldres
    else lookupres
  if elemtask.conflicts.contains taskDef.name then
    .error (.conflict ("conflicting " ++ elemtask.name ++ " task on " ++ objstr))
  else lookupres

/-- The verdict over the entries of an object. -/
def lookup (objstr : String) (taskDef : ConfigTask) (tasklist : TaskList) : Except LookupError Unit :=
  tasklist.foldl (fun lookupres elem => scanElem objstr taskDef lookupres elem.1) (.ok ())

def pushMatch (taskDef : ConfigTask) (stamp : SystemTime) : TaskList → Option TaskList
  | [] => none
  | (elemtask, timestamps) :: rest =>
    match pushMatch taskDef stamp rest with
    | some rest => some ((elemtask, timestamps) :: rest)
    | none =>
      if elemtask.name = taskDef.name then some ((elemtask, timestamps ++ [stamp]) :: rest) else none

/-- An accepted operation joins the entry of its type, or begins one. -/
def push (taskDef : ConfigTask) (stamp : SystemTime) (tasklist : TaskList) : TaskList :=
  (pushMatch taskDef stamp tasklist).getD (tasklist ++ [(taskDef, [stamp])])

/-- What `remove` keeps of an object's entries. -/
def retain (taskDef : ConfigTask) (stamp : SystemTime) (tasklist : TaskList) : TaskList :=
  tasklist.filterMap fun elem =>
    if elem.1.name ≠ taskDef.name then some elem
    else
      match elem.2.filter (· ≠ stamp) with
      | [] => none
      | tstamps => some (elem.1, tstamps)

/-- The operations on an object, each with its type. -/
def entries (tasklist : TaskList) : List (ConfigTask × SystemTime) :=
  tasklist.flatMap fun elem => elem.2.map fun stamp => (elem.1, stamp)

/-- The operations on an object as the names of their types with their timestamps. -/
def stamps (tasklist : TaskList) : List (String × SystemTime) :=
  (entries tasklist).map fun entry => (entry.1.name, entry.2)

/-! ### The verdict -/

section Verdict

variable {objstr : String} {taskDef : ConfigTask}

variable {res : Except LookupError Unit} {elem : ConfigTask} {tasklist : TaskList}

theorem scanElem_eq_ok :
    scanElem objstr taskDef res elem = .ok () ↔ res = .ok () ∧ ¬taskDef.Clashes elem := by
  simp only [scanElem, ConfigTask.Clashes, ConfigTask.Dominates, contains_eq_mem]
  by_cases h1 : elem.name ∈ taskDef.overrides <;> by_cases h2 : elem.name ∈ taskDef.conflicts <;>
    by_cases h3 : taskDef.name ∈ elem.overrides <;> by_cases h4 : taskDef.name ∈ elem.conflicts <;>
    rcases res with (_ | _ | _) | _ <;> simp [h1, h2, h3, h4]

theorem scanElem_eq_wait :
    scanElem objstr taskDef res elem = .error .wait ↔
      ¬elem.Dominates taskDef ∧
        (res = .error .wait ∨ res = .ok () ∧ taskDef.Dominates elem) := by
  simp only [scanElem, ConfigTask.Dominates, contains_eq_mem]
  by_cases h1 : elem.name ∈ taskDef.overrides <;> by_cases h2 : elem.name ∈ taskDef.conflicts <;>
    by_cases h3 : taskDef.name ∈ elem.overrides <;> by_cases h4 : taskDef.name ∈ elem.conflicts <;>
    rcases res with (_ | _ | _) | _ <;> simp [h1, h2, h3, h4]

theorem lookup_eq_ok :
    lookup objstr taskDef tasklist = .ok () ↔ ∀ elem ∈ tasklist, ¬taskDef.Clashes elem.1 := by
  suffices h : ∀ res, tasklist.foldl (fun lookupres elem => scanElem objstr taskDef lookupres elem.1) res
      = .ok () ↔ res = .ok () ∧ ∀ elem ∈ tasklist, ¬taskDef.Clashes elem.1 by
    simpa [lookup] using h (.ok ())
  induction tasklist with
  | nil => simp
  | cons elem rest ih =>
    intro res
    rw [foldl_cons, ih, scanElem_eq_ok, forall_mem_cons, and_assoc]

theorem lookup_eq_wait :
    lookup objstr taskDef tasklist = .error .wait ↔
      (∀ elem ∈ tasklist, ¬elem.1.Dominates taskDef) ∧ ∃ elem ∈ tasklist, taskDef.Dominates elem.1 := by
  suffices h : ∀ res, tasklist.foldl (fun lookupres elem => scanElem objstr taskDef lookupres elem.1) res
      = .error .wait ↔ (∀ elem ∈ tasklist, ¬elem.1.Dominates taskDef) ∧
        (res = .error .wait ∨ res = .ok () ∧ ∃ elem ∈ tasklist, taskDef.Dominates elem.1) by
    simpa [lookup] using h (.ok ())
  induction tasklist with
  | nil => simp
  | cons elem rest ih =>
    intro res
    rw [foldl_cons, ih, scanElem_eq_wait, scanElem_eq_ok, forall_mem_cons,
      exists_mem_cons_iff]
    simp only [ConfigTask.Clashes]
    tauto

end Verdict

/-! ### Entries under the updates -/

section Entries

variable {taskDef : ConfigTask} {stamp : SystemTime}

@[simp] theorem entries_nil : entries [] = [] := rfl

@[simp] theorem entries_cons (elem : ConfigTask × List SystemTime) (rest : TaskList) :
    entries (elem :: rest) = elem.2.map (fun stamp => (elem.1, stamp)) ++ entries rest := rfl

@[simp] theorem entries_append (front rest : TaskList) :
    entries (front ++ rest) = entries front ++ entries rest := by
  simp [entries]

variable {tasklist : TaskList}

theorem mem_entries {entry : ConfigTask × SystemTime} :
    entry ∈ entries tasklist ↔ ∃ timestamps, (entry.1, timestamps) ∈ tasklist ∧ entry.2 ∈ timestamps := by
  obtain ⟨task, time⟩ := entry
  constructor
  · intro h
    obtain ⟨elem, helem, hmem⟩ := List.mem_flatMap.mp h
    obtain ⟨time', htime, heq⟩ := List.mem_map.mp hmem
    obtain ⟨rfl, rfl⟩ := Prod.mk.injEq .. ▸ heq
    exact ⟨elem.2, helem, htime⟩
  · rintro ⟨timestamps, helem, htime⟩
    exact List.mem_flatMap.mpr ⟨_, helem, List.mem_map.mpr ⟨time, htime, rfl⟩⟩

theorem pushMatch_eq_some {tasklist' : TaskList} (h : pushMatch taskDef stamp tasklist = some tasklist') :
    ∃ front elemtask timestamps rest, elemtask.name = taskDef.name ∧
      tasklist = front ++ (elemtask, timestamps) :: rest ∧
      tasklist' = front ++ (elemtask, timestamps ++ [stamp]) :: rest := by
  induction tasklist generalizing tasklist' with
  | nil => simp [pushMatch] at h
  | cons elem rest ih =>
    obtain ⟨elemtask, timestamps⟩ := elem
    rw [pushMatch] at h
    cases hrest : pushMatch taskDef stamp rest with
    | some rest' =>
      obtain ⟨front, task, times, back, hname, rfl, rfl⟩ := ih hrest
      simp only [hrest, Option.some.injEq] at h
      exact ⟨(elemtask, timestamps) :: front, task, times, back, hname, rfl, h.symm⟩
    | none =>
      by_cases hname : elemtask.name = taskDef.name
      · simp only [hrest, hname, if_true, Option.some.injEq] at h
        exact ⟨[], elemtask, timestamps, rest, hname, rfl, h.symm⟩
      · simp [hrest, hname] at h

theorem entries_push (h : ∀ elem ∈ tasklist, elem.1.name = taskDef.name → elem.1 = taskDef) :
    (entries (push taskDef stamp tasklist)).Perm ((taskDef, stamp) :: entries tasklist) := by
  unfold push
  cases hpush : pushMatch taskDef stamp tasklist with
  | none =>
    simp only [Option.getD_none, entries_append]
    exact perm_append_singleton _ _
  | some tasklist' =>
    obtain ⟨front, elemtask, timestamps, rest, hname, rfl, rfl⟩ := pushMatch_eq_some hpush
    obtain rfl : elemtask = taskDef := h (elemtask, timestamps) (by simp) hname
    simp only [Option.getD_some, entries_append, entries_cons, map_append, map_cons,
      map_nil]
    rw [append_assoc _ [_], singleton_append, ← append_assoc, ← append_assoc]
    exact perm_middle

variable {elem : ConfigTask × List SystemTime}

theorem mem_push (h : elem ∈ push taskDef stamp tasklist) :
    elem.1 = taskDef ∨ ∃ timestamps, (elem.1, timestamps) ∈ tasklist := by
  unfold push at h
  cases hpush : pushMatch taskDef stamp tasklist with
  | none =>
    rw [hpush, Option.getD_none, mem_append, mem_singleton] at h
    rcases h with h | rfl
    · exact .inr ⟨elem.2, h⟩
    · exact .inl rfl
  | some tasklist' =>
    obtain ⟨front, elemtask, timestamps, rest, hname, rfl, rfl⟩ := pushMatch_eq_some hpush
    simp only [hpush, Option.getD_some, mem_append, mem_cons] at h
    rcases h with h | rfl | h
    · exact .inr ⟨elem.2, by simp [h]⟩
    · exact .inr ⟨timestamps, by simp⟩
    · exact .inr ⟨elem.2, by simp [h]⟩

theorem entries_retain (tasklist : TaskList) :
    entries (retain taskDef stamp tasklist) =
      (entries tasklist).filter fun entry => ¬(entry.1.name = taskDef.name ∧ entry.2 = stamp) := by
  induction tasklist with
  | nil => rfl
  | cons elem rest ih =>
    obtain ⟨elemtask, timestamps⟩ := elem
    rw [entries_cons, filter_append, ← ih, filter_map]
    unfold retain
    rw [filterMap_cons]
    by_cases hname : elemtask.name = taskDef.name
    · have hfilt : timestamps.filter ((fun entry : ConfigTask × SystemTime =>
          decide ¬(entry.1.name = taskDef.name ∧ entry.2 = stamp)) ∘ fun stamp => (elemtask, stamp)) =
          timestamps.filter (· ≠ stamp) := by
        apply filter_congr
        intro time _
        simp [hname]
      rw [hfilt]
      cases timestamps.filter (· ≠ stamp) with
      | nil => simp [hname]
      | cons time times => simp [hname]
    · have hfilt : timestamps.filter ((fun entry : ConfigTask × SystemTime =>
          decide ¬(entry.1.name = taskDef.name ∧ entry.2 = stamp)) ∘ fun stamp => (elemtask, stamp)) =
          timestamps := by
        apply List.filter_eq_self.mpr
        intro time _
        simp [hname]
      rw [hfilt]
      simp [hname]

/-- Removal brings in no type. -/
theorem mem_retain (h : elem ∈ retain taskDef stamp tasklist) :
    ∃ timestamps, (elem.1, timestamps) ∈ tasklist := by
  obtain ⟨old, hold, hkeep⟩ := List.mem_filterMap.mp h
  by_cases hname : old.1.name = taskDef.name
  · rw [if_neg (by simpa using hname)] at hkeep
    split at hkeep
    · cases hkeep
    · cases hkeep
      exact ⟨old.2, hold⟩
  · rw [if_pos hname] at hkeep
    cases hkeep
    exact ⟨_, hold⟩

end Entries

/-! ## The table -/

structure ObjTable where
  map : Object → Option TaskList

namespace ObjTable

def new : ObjTable := ⟨fun _ => none⟩

def tasks (table : ObjTable) (object : Object) : TaskList := (table.map object).getD []

/-- `insert`: the verdict, and the table after it. -/
def insert (table : ObjTable) (object : Object) (taskDef : ConfigTask) (stamp : SystemTime) :
    Except LookupError Unit × ObjTable :=
  let tasklist := (table.map object).getD []
  match lookup object.display taskDef tasklist with
  | .error error => (.error error, ⟨Function.update table.map object (some tasklist)⟩)
  | .ok () => (.ok (), ⟨Function.update table.map object (some (push taskDef stamp tasklist))⟩)

def remove (table : ObjTable) (taskDef : ConfigTask) (stamp : SystemTime) : ObjTable :=
  ⟨fun object => (table.map object).bind fun tasklist =>
    match retain taskDef stamp tasklist with
    | [] => none
    | kept => some kept⟩

def count (table : ObjTable) (object : Object) (name : String) (stamp : SystemTime) : Nat :=
  (stamps (table.tasks object)).count (name, stamp)

@[simp] theorem tasks_new (object : Object) : new.tasks object = [] := rfl

theorem tasks_remove (table : ObjTable) (taskDef : ConfigTask) (stamp : SystemTime) (object : Object) :
    (table.remove taskDef stamp).tasks object = retain taskDef stamp (table.tasks object) := by
  simp only [tasks, remove]
  cases table.map object with
  | none => rfl
  | some tasklist =>
    simp only [Option.bind_some, Option.getD_some]
    cases retain taskDef stamp tasklist <;> rfl

variable {table : ObjTable} {object : Object} {taskDef : ConfigTask} {stamp : SystemTime}

theorem insert_ok (h : (table.insert object taskDef stamp).1 = .ok ()) :
    (∀ elem ∈ table.tasks object, ¬taskDef.Clashes elem.1) ∧
      ∀ object', (table.insert object taskDef stamp).2.tasks object' =
        if object' = object then push taskDef stamp (table.tasks object) else table.tasks object' := by
  simp only [insert] at h ⊢
  cases hlook : lookup object.display taskDef ((table.map object).getD []) with
  | error error => simp [hlook] at h
  | ok u =>
    refine ⟨lookup_eq_ok.mp hlook, ?_⟩
    intro object'
    by_cases hobj : object' = object
    · subst hobj
      simp [tasks]
    · simp [tasks, hobj]

theorem insert_error {error : LookupError} (h : (table.insert object taskDef stamp).1 = .error error) :
    (table.insert object taskDef stamp).2 = table := by
  obtain ⟨map⟩ := table
  simp only [insert] at h ⊢
  cases hlook : lookup object.display taskDef ((map object).getD []) with
  | ok u => simp [hlook] at h
  | error error =>
    cases hmap : map object with
    | none => simp [hmap, lookup] at hlook
    | some tasklist =>
      simp only [Option.getD_some, ObjTable.mk.injEq]
      rw [← hmap, Function.update_eq_self]

theorem insert_wait (h : (table.insert object taskDef stamp).1 = .error .wait) :
    (∀ elem ∈ table.tasks object, ¬elem.1.Dominates taskDef) ∧
      ∃ elem ∈ table.tasks object, taskDef.Dominates elem.1 := by
  apply lookup_eq_wait.mp
  simp only [insert] at h
  unfold tasks
  split at h
  · rename_i hlook
    rw [hlook]
    exact h
  · simp at h

end ObjTable

end Marfs.Tape
