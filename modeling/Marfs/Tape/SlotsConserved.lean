import Mathlib.Algebra.GroupWithZero.Nat
import Marfs.Tape.Slots

/-!
# Slots over a run

Free slots and processes of tasks add up to the configured parallelism after every call, for as long as no
launch strands a process; once one has, the sum stays below it for good.
-/

namespace Marfs.Tape

def childrenOf (tasks : List Task) : Nat := (tasks.map fun t => children t.subtasks).sum

@[simp] theorem childrenOf_nil : childrenOf [] = 0 := rfl

@[simp] theorem childrenOf_cons (t : Task) (rest : List Task) :
    childrenOf (t :: rest) = children t.subtasks + childrenOf rest := by
  simp [childrenOf]

@[simp] theorem childrenOf_append (front rest : List Task) :
    childrenOf (front ++ rest) = childrenOf front + childrenOf rest := by
  simp [childrenOf]

theorem childrenOf_eq_zero {tasks : List Task} :
    childrenOf tasks = 0 ↔ ∀ t ∈ tasks, children t.subtasks = 0 := by
  induction tasks with
  | nil => simp
  | cons t rest ih => simp [ih]

namespace Main

def slots (s : Main) : Nat := s.procLimit + childrenOf s.runner.allTasks

structure Settled (s : Main) : Prop where
  newTasks : childrenOf s.runner.newTasks = 0
  restingTasks : childrenOf s.runner.restingTasks = 0

/-! ## Scanning and filtering -/

end Main

namespace Task

theorem children_assign (task : Task) (cmdvals : List (String × String)) :
    children (task.assign cmdvals).subtasks = children task.subtasks := by
  unfold assign
  split
  · rfl
  · simp [SubTask.new, children]

variable {config : Config} {task : Task}

variable {event : FilterEvent} {objtable objtable' : ObjTable} {task' : Task} {index : Nat}
  {lines : List String} {how : FilterEnd}

theorem filterLoop_keeps {γ : Type} {f : Task → γ}
    (hassign : ∀ task cmdvals, f (assign task cmdvals) = f task)
    (hoff : ∀ task offset, f { task with parsedoffset := offset } = f task)
    (h : task.filterLoop config event objtable index lines = some (task', objtable', how)) :
    f task' = f task := by
  induction lines generalizing task objtable index with
  | nil =>
    cases h
    rfl
  | cons line rest ih =>
    unfold filterLoop at h
    split at h
    · cases h
      rfl
    · split at h
      · exact ih h
      · split at h
        · cases h
          rfl
        · split at h
          · split at h
            · cases h
              exact hoff _ _
            · exact (ih h).trans (hoff _ _)
            · cases h
              exact hoff _ _
            · split at h
              · cases h
                exact hoff _ _
              · exact (ih h).trans ((hassign _ _).trans (hoff _ _))
          · cases h

theorem children_filterLoop
    (h : task.filterLoop config event objtable index lines = some (task', objtable', how)) :
    children task'.subtasks = children task.subtasks :=
  filterLoop_keeps (f := fun task => children task.subtasks) children_assign
    (fun _ _ => rfl) h

theorem children_filter {t : Task} (h : task.filter config event objtable = some (.unchanged t, objtable') ∨
      task.filter config event objtable = some (.transformed t, objtable')) :
    children t.subtasks = children task.subtasks := by
  unfold filter at h
  split at h
  · simp at h
  · split at h
    · simp at h
    · rename_i t' table hloop
      simp only [Option.some.injEq, Prod.mk.injEq, reduceCtorEq, false_and, TaskResult.transformed.injEq,
        false_or] at h
      rw [← h.1, children_filterLoop hloop]
    · rename_i t' table hloop
      simp only [Option.some.injEq, Prod.mk.injEq, reduceCtorEq, false_and, TaskResult.unchanged.injEq,
        or_false] at h
      rw [← h.1, children_filterLoop hloop]
    · simp at h

theorem children_new {file : Taskfile} (h : new config file = some task) : children task.subtasks = 0 := by
  unfold new at h
  obtain ⟨def', -, rfl⟩ := Option.map_eq_some_iff.mp h
  rfl

end Task

namespace Runner

variable {config : Config} {r r' : Runner}

theorem filterTask_children {event : Task.FilterEvent} {task : Task} (hzero : children task.subtasks = 0)
    (h : r.filterTask config event task = some r') :
    childrenOf r'.newTasks = childrenOf r.newTasks ∧
      childrenOf r'.filteredTasks = childrenOf r.filteredTasks ∧ r'.runningTasks = r.runningTasks ∧
      r'.restingTasks = r.restingTasks := by
  unfold filterTask at h
  split at h
  · cases h
  · rename_i t table hfilt
    cases h
    simp [Task.children_filter (.inl hfilt), hzero]
  · rename_i t table hfilt
    cases h
    simp [Task.children_filter (.inr hfilt), hzero]
  · cases h
    simp

variable {events : Nat → Task.FilterEvent} {tasks : List Task}

theorem filterAll_children (hzero : childrenOf tasks = 0) (h : r.filterAll config events tasks = some r') :
    childrenOf r'.newTasks = childrenOf r.newTasks ∧
      childrenOf r'.filteredTasks = childrenOf r.filteredTasks ∧ r'.runningTasks = r.runningTasks ∧
      r'.restingTasks = r.restingTasks := by
  induction tasks generalizing events r with
  | nil =>
    cases h
    simp
  | cons task rest ih =>
    rw [childrenOf_cons, Nat.add_eq_zero_iff] at hzero
    unfold filterAll at h
    split at h
    · cases h
    · rename_i r1 hstep
      obtain ⟨h1, h2, h3, h4⟩ := filterTask_children hzero.1 hstep
      obtain ⟨i1, i2, i3, i4⟩ := ih hzero.2 h
      exact ⟨i1.trans h1, i2.trans h2, i3.trans h3, i4.trans h4⟩

theorem filterAll_running (h : r.filterAll config events tasks = some r') :
    r'.runningTasks = r.runningTasks := by
  induction tasks generalizing events r with
  | nil =>
    cases h
    rfl
  | cons task rest ih =>
    unfold filterAll at h
    split at h
    · cases h
    · rename_i r1 hstep
      rw [ih h]
      unfold filterTask at hstep
      split at hstep <;> cases hstep <;> rfl

theorem checkAll_frame (events : Nat → Task.CheckEvent) (r : Runner) (tasks : List Task) :
    (r.checkAll events tasks).newTasks = r.newTasks ∧
      (r.checkAll events tasks).filteredTasks = r.filteredTasks ∧
      (r.checkAll events tasks).runningTasks = r.runningTasks := by
  induction tasks generalizing events r with
  | nil => exact ⟨rfl, rfl, rfl⟩
  | cons task rest ih =>
    have hstep : (r.checkTask (events 0) task).newTasks = r.newTasks ∧
        (r.checkTask (events 0) task).filteredTasks = r.filteredTasks ∧
        (r.checkTask (events 0) task).runningTasks = r.runningTasks := by
      unfold checkTask
      split <;> exact ⟨rfl, rfl, rfl⟩
    obtain ⟨h1, h2, h3⟩ := ih (fun i => events (i + 1)) (r.checkTask (events 0) task)
    exact ⟨h1.trans hstep.1, h2.trans hstep.2.1, h3.trans hstep.2.2⟩

theorem scan_children (config : Config) (found : List Taskfile) (r : Runner) :
    childrenOf (r.scanForInputs config found).newTasks = childrenOf r.newTasks := by
  simp only [scanForInputs, childrenOf_append, Nat.add_eq_left, childrenOf_eq_zero]
  intro task htask
  obtain ⟨file, -, hnew⟩ := List.mem_filterMap.mp (List.mem_of_mem_take htask)
  exact Task.children_new hnew

theorem checkAll_children (events : Nat → Task.CheckEvent) (r : Runner) (tasks : List Task)
    (hzero : childrenOf tasks = 0) :
    childrenOf (r.checkAll events tasks).restingTasks = childrenOf r.restingTasks := by
  induction tasks generalizing events r with
  | nil => rfl
  | cons task rest ih =>
    rw [childrenOf_cons, Nat.add_eq_zero_iff] at hzero
    rw [checkAll, ih _ _ hzero.2]
    unfold checkTask
    split <;> simp [hzero.1]

end Runner

namespace Main

/-! ## Launching -/

theorem launchTask_slots (events : Nat → ProcEvent) (s : Main) (task : Task) :
    (s.launchTask events task).slots ≤ s.slots + children task.subtasks ∧
      ((s.launchTask events task).slots = s.slots + children task.subtasks ↔
        ¬Strands events s.procLimit task.subtasks) := by
  have hbal := launchLoop_balance events s.procLimit task.subtasks
  rw [strands_iff]
  unfold launchTask Task.launch
  generalize Task.launchLoop events s.procLimit task.subtasks = res at hbal ⊢
  obtain ⟨subtasks, limit, how⟩ := res
  simp only at hbal ⊢
  cases how with
  | through =>
    simp only [slots, Runner.allTasks, childrenOf_append, childrenOf_cons, childrenOf_nil]
    refine ⟨by omega, ?_⟩
    simp only [reduceCtorEq, exists_false, false_and, not_false_eq_true, iff_true]
    omega
  | exhausted =>
    simp only [slots, Runner.allTasks, childrenOf_append, childrenOf_cons, childrenOf_nil]
    refine ⟨by omega, ?_⟩
    simp only [reduceCtorEq, exists_false, false_and, not_false_eq_true, iff_true]
    omega
  | failed e =>
    simp only [slots, Runner.allTasks, childrenOf_append]
    refine ⟨by omega, ?_⟩
    simp only [Task.LaunchEnd.failed.injEq, exists_eq', true_and]
    omega

def LaunchesClean (events : Nat → Nat → ProcEvent) (s : Main) : List Task → Prop
  | [] => True
  | task :: rest => ¬Strands (events 0) s.procLimit task.subtasks ∧
      LaunchesClean (fun i => events (i + 1)) (s.launchTask (events 0) task) rest

theorem launchAll_slots (events : Nat → Nat → ProcEvent) (s : Main) (tasks : List Task) :
    (s.launchAll events tasks).slots ≤ s.slots + childrenOf tasks ∧
      ((s.launchAll events tasks).slots = s.slots + childrenOf tasks ↔ s.LaunchesClean events tasks) := by
  induction tasks generalizing events s with
  | nil => simp [launchAll, LaunchesClean]
  | cons task rest ih =>
    obtain ⟨hle, heq⟩ := launchTask_slots (events 0) s task
    obtain ⟨hle', heq'⟩ := ih (fun i => events (i + 1)) (s.launchTask (events 0) task)
    rw [launchAll, LaunchesClean, childrenOf_cons, ← heq, ← heq']
    refine ⟨by omega, by omega⟩

theorem launchTask_settled (events : Nat → ProcEvent) (s : Main) (task : Task) :
    (s.launchTask events task).runner.newTasks = s.runner.newTasks ∧
      (s.launchTask events task).runner.restingTasks = s.runner.restingTasks := by
  unfold launchTask
  split <;> exact ⟨rfl, rfl⟩

theorem launchAll_settled (events : Nat → Nat → ProcEvent) (s : Main) (tasks : List Task) :
    (s.launchAll events tasks).runner.newTasks = s.runner.newTasks ∧
      (s.launchAll events tasks).runner.restingTasks = s.runner.restingTasks := by
  induction tasks generalizing events s with
  | nil => exact ⟨rfl, rfl⟩
  | cons task rest ih =>
    obtain ⟨h1, h2⟩ := launchTask_settled (events 0) s task
    obtain ⟨i1, i2⟩ := ih (fun i => events (i + 1)) (s.launchTask (events 0) task)
    exact ⟨i1.trans h1, i2.trans h2⟩

/-! ## Polling -/

variable {s s' : Main} {config : Config}

theorem pollTask_slots {event : PollEvent} {task : Task} (h : s.pollTask event task = some s') :
    s'.slots = s.slots + children task.subtasks ∧ s'.runner.newTasks = s.runner.newTasks ∧
      childrenOf s'.runner.restingTasks = childrenOf s.runner.restingTasks := by
  unfold pollTask Task.poll at h
  cases hloop : Task.pollLoop event.procs s.procLimit task.subtasks with
  | none => simp [hloop] at h
  | some res =>
    obtain ⟨subtasks, limit, anyrunning⟩ := res
    obtain ⟨hbal, hzero⟩ := pollLoop_balance hloop
    simp only [hloop] at h
    cases anyrunning with
    | true =>
      simp only [if_true, Option.some.injEq] at h
      subst h
      simp only [slots, Runner.allTasks, childrenOf_append, childrenOf_cons, childrenOf_nil,
        and_true]
      omega
    | false =>
      have hzero := hzero rfl
      simp only [Bool.false_eq_true, if_false] at h
      split at h
      · rename_i heq
        split at heq
        · cases heq
        · split at heq <;> cases heq
      · rename_i t p heq
        split at heq
        · cases heq
        · split at heq <;> cases heq
      · rename_i t p heq
        split at heq
        · cases heq
        · split at heq
          · cases heq
          · cases heq
            cases h
            simp only [slots, Runner.allTasks, childrenOf_append, childrenOf_cons, childrenOf_nil, hzero,
              true_and]
            omega
      · rename_i e p heq
        have hp : p = limit := by
          split at heq
          · cases heq
            rfl
          · split at heq
            · cases heq
              rfl
            · cases heq
        cases h
        simp only [slots, Runner.allTasks, childrenOf_append, and_true, hp]
        omega

theorem pollAll_slots {events : Nat → PollEvent} {tasks : List Task} (h : s.pollAll events tasks = some s') :
    s'.slots = s.slots + childrenOf tasks ∧ s'.runner.newTasks = s.runner.newTasks ∧
      childrenOf s'.runner.restingTasks = childrenOf s.runner.restingTasks := by
  induction tasks generalizing events s with
  | nil =>
    cases h
    simp
  | cons task rest ih =>
    unfold pollAll at h
    split at h
    · cases h
    · rename_i s1 hstep
      obtain ⟨h1, h2, h3⟩ := pollTask_slots hstep
      obtain ⟨i1, i2, i3⟩ := ih h
      rw [childrenOf_cons]
      exact ⟨by omega, i2.trans h2, i3.trans h3⟩

/-! ## Calls and runs -/

def Clean (s : Main) : Call → Prop
  | .launch events =>
    LaunchesClean events { s with runner := { s.runner with filteredTasks := [] } } s.runner.filteredTasks
  | _ => True

theorem apply_slots {call : Call} (hs : s.Settled) (h : s.apply config call = some s') :
    s'.Settled ∧ s'.slots ≤ s.slots ∧ (s'.slots = s.slots ↔ s.Clean call) := by
  cases call with
  | scan found =>
    simp only [apply, Option.some.injEq] at h
    subst h
    have hscan := Runner.scan_children config found s.runner
    refine ⟨⟨hscan.trans hs.newTasks, hs.restingTasks⟩, ?_⟩
    simp only [slots, Runner.allTasks, childrenOf_append, hscan, Clean, iff_true]
    exact ⟨Nat.le_refl _, rfl⟩
  | filter events =>
    obtain ⟨r, hr, rfl⟩ := Option.map_eq_some_iff.mp h
    obtain ⟨h1, h2, h3, h4⟩ := Runner.filterAll_children hs.newTasks hr
    refine ⟨⟨h1, by rw [h4]; exact hs.restingTasks⟩, ?_⟩
    simp only [slots, Runner.allTasks, childrenOf_append, h1, h2, h3, h4, hs.newTasks, Clean,
      childrenOf_nil]
    exact ⟨Nat.le_refl _, trivial⟩
  | launch events =>
    simp only [apply, Option.some.injEq] at h
    subst h
    obtain ⟨h1, h2⟩ := launchAll_settled events
      { s with runner := { s.runner with filteredTasks := [] } } s.runner.filteredTasks
    obtain ⟨hle, heq⟩ := launchAll_slots events
      { s with runner := { s.runner with filteredTasks := [] } } s.runner.filteredTasks
    refine ⟨⟨?_, ?_⟩, ?_⟩
    · unfold launchTasks
      rw [h1]
      exact hs.newTasks
    · unfold launchTasks
      rw [h2]
      exact hs.restingTasks
    · have hsum : slots { s with runner := { s.runner with filteredTasks := [] } } +
          childrenOf s.runner.filteredTasks = s.slots := by
        simp only [slots, Runner.allTasks, childrenOf_append, childrenOf_nil]
        omega
      rw [hsum] at hle heq
      exact ⟨hle, heq⟩
  | poll events =>
    obtain ⟨h1, h2, h3⟩ := pollAll_slots h
    refine ⟨⟨by rw [h2]; exact hs.newTasks, by rw [h3]; exact hs.restingTasks⟩, ?_⟩
    simp only [slots, Runner.allTasks, childrenOf_append, childrenOf_nil, Clean, iff_true] at h1 ⊢
    omega
  | check events =>
    simp only [apply, Option.some.injEq] at h
    subst h
    have h1 := Runner.checkAll_children events { s.runner with restingTasks := [] }
      s.runner.restingTasks hs.restingTasks
    obtain ⟨h2, h3, h4⟩ := Runner.checkAll_frame events { s.runner with restingTasks := [] }
      s.runner.restingTasks
    refine ⟨⟨by simp only [Runner.checkTasks, h2, hs.newTasks], by simp only [Runner.checkTasks, h1]; rfl⟩, ?_⟩
    simp only [slots, Runner.allTasks, Runner.checkTasks, childrenOf_append, h1, h2, h3, h4,
      hs.restingTasks, childrenOf_nil, Clean]
    exact ⟨Nat.le_refl _, trivial⟩

/-- What the main loop relies on after a call: free slots and processes add up to the parallelism, the
limit is not above it, and it is all there when no task is active. -/
structure SlotsConserved (config : Config) (s : Main) : Prop where
  sum : s.procLimit + childrenOf s.runner.allTasks = config.taskParallelism
  bounded : s.procLimit ≤ config.taskParallelism
  drained : s.runner.hasActiveTasks = false → s.procLimit = config.taskParallelism

theorem slotsConserved_iff : s.SlotsConserved config ↔ s.slots = config.taskParallelism := by
  constructor
  · intro h
    exact h.sum
  · intro h
    refine ⟨h, by unfold slots at h; omega, ?_⟩
    intro hidle
    have hemp : s.runner.allTasks = [] := by
      simpa [Runner.hasActiveTasks, Runner.allTasks, and_assoc] using hidle
    simpa [slots, hemp] using h

/-- From a state with the right sum: it stays right up to every point of a run exactly when no call of the
run strands a process. -/
theorem slots_run_iff (hs : s.Settled) (calls : List Call) :
    (∀ front, front <+: calls → ∀ s', s.run config front = some s' → s'.slots = s.slots) ↔
      s.Along config Clean calls := by
  induction calls generalizing s with
  | nil =>
    simp only [List.prefix_nil, Along, iff_true]
    rintro front rfl s' h
    cases h
    rfl
  | cons call calls ih =>
    cases hstep : s.apply config call with
    | none =>
      have hclean : s.Clean call := by
        cases call with
        | launch events => simp [apply] at hstep
        | _ => trivial
      simp only [Along, hstep, hclean, reduceCtorEq, false_implies, implies_true, and_self, iff_true]
      intro front hfront s' hrun
      cases front with
      | nil =>
        cases hrun
        rfl
      | cons c front =>
        obtain ⟨rfl, -⟩ := List.cons_prefix_cons.mp hfront
        simp [run, hstep] at hrun
    | some s1 =>
      obtain ⟨hs1, -, heq⟩ := apply_slots hs hstep
      rw [Along, ← heq, hstep]
      constructor
      · intro h
        have h1 : s1.slots = s.slots := h [call] (by simp) s1 (by simp [run, hstep])
        refine ⟨h1, ?_⟩
        rintro s2 ⟨⟩
        apply (ih hs1).mp
        intro front hfront s' hrun
        rw [h1]
        apply h (call :: front) (List.cons_prefix_cons.mpr ⟨rfl, hfront⟩)
        simp [run, hstep, hrun]
      · rintro ⟨h1, halong⟩ front hfront s' hrun
        cases front with
        | nil =>
          cases hrun
          rfl
        | cons c front =>
          obtain ⟨rfl, hrest⟩ := List.cons_prefix_cons.mp hfront
          rw [run, hstep] at hrun
          rw [← h1]
          exact (ih hs1).mpr (halong s1 rfl) front hrest s' hrun

theorem settled_new (config : Config) : (new config).Settled := ⟨rfl, rfl⟩

/-- The slots are conserved up to every point of a run exactly when no launch of the run fails while
another subtask of its task has a process. -/
theorem slotsConserved_run_iff (config : Config) (calls : List Call) :
    (∀ front, front <+: calls → ∀ s, (new config).run config front = some s → s.SlotsConserved config) ↔
      (new config).Along config Clean calls := by
  rw [← slots_run_iff (settled_new config)]
  have hnew : (new config).slots = config.taskParallelism := rfl
  simp only [slotsConserved_iff, hnew]

/-! ### A run that loses a slot -/

def fragmented (taskParallelism : Nat) : Config where
  tasks := [⟨"read", ["object"], [], []⟩]
  taskParallelism := taskParallelism
  taskContentValues := ["object"]
  taskContentRegex := fun line => some fun key => if key = "object" then some line else none

/-- Files open, lines are read and written. -/
def calm : Nat → Task.FilterEvent := fun _ => ⟨.ok (), fun _ => .ok (), fun _ => .ok ()⟩

/-- A file of two lines is filtered; the first subtask starts, the second can not. -/
def strandingRun : List Call :=
  [.scan [⟨["x", "y"], "read", [], 1⟩], .filter calm,
    .launch fun _ i => ⟨if i = 0 then .ok () else .error "spawn", .running, false⟩]

theorem not_slotsConserved : ¬∀ (config : Config) (calls : List Call) (s : Main),
    (new config).run config calls = some s → s.SlotsConserved config := by
  intro h
  have hrun : ((new (fragmented 2)).run (fragmented 2) strandingRun).map
      (fun s => (s.procLimit, s.runner.hasActiveTasks)) = some (1, false) := by decide +kernel
  obtain ⟨s, hs, heq⟩ := Option.map_eq_some_iff.mp hrun
  obtain ⟨hlimit, hidle⟩ := Prod.mk.injEq .. ▸ heq
  have hall := (h (fragmented 2) strandingRun s hs).drained hidle
  rw [hlimit] at hall
  cases hall

end Main

end Marfs.Tape
