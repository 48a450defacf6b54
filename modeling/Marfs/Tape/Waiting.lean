import Mathlib.Data.Set.Finite.List
import Mathlib.Logic.Relation
import Mathlib.Data.Fintype.Order
import Marfs.Tape.SlotsConserved

/-!
# Who waits for whom

A task keeps what it has acquired while it waits for an object.  It waits only for a type that its own type
dominates and that does not dominate it back, so a circle of waiting tasks runs along a circle of such
types.  The configuration is free to have one.
-/

namespace Marfs.Tape

/-- Of the configured types, the first waits for the second: it dominates it and is not dominated by it. -/
def WaitsFor (tasks : List ConfigTask) (a b : ConfigTask) : Prop :=
  a ∈ tasks ∧ b ∈ tasks ∧ a.Dominates b ∧ ¬b.Dominates a

def Uncircular (tasks : List ConfigTask) : Prop := ∀ a, ¬Relation.TransGen (WaitsFor tasks) a a

theorem uncircular_of_rank {tasks : List ConfigTask} (rank : ConfigTask → Nat)
    (h : ∀ a ∈ tasks, ∀ b ∈ tasks, a.Dominates b → ¬b.Dominates a → rank b < rank a) : Uncircular tasks := by
  have hdesc : ∀ {a b}, Relation.TransGen (WaitsFor tasks) a b → rank b < rank a := by
    intro a b hwait
    induction hwait with
    | single hab => exact h _ hab.1 _ hab.2.1 hab.2.2.1 hab.2.2.2
    | tail _ hbc ih => exact (h _ hbc.1 _ hbc.2.1 hbc.2.2.1 hbc.2.2.2).trans ih
  intro a hcircle
  exact Nat.lt_irrefl _ (hdesc hcircle)

theorem exists_unrelated {α : Type} {r : α → α → Prop} (hr : ∀ a, ¬Relation.TransGen r a a) {l : List α}
    (hne : l ≠ []) : ∃ a ∈ l, ∀ b ∈ l, ¬r a b := by
  let below : {a // a ∈ l} → {a // a ∈ l} → Prop := fun a b => Relation.TransGen r b.1 a.1
  have htrans : IsTrans _ below := ⟨fun a b c hab hbc => hbc.trans hab⟩
  have hirrefl : Std.Irrefl below := ⟨fun a => hr a.1⟩
  have hfinite : Finite {a // a ∈ l} := (List.finite_toSet l).to_subtype
  have hwf : WellFounded below := Finite.wellFounded_of_trans_of_irrefl below
  obtain ⟨x, hx⟩ := List.exists_mem_of_ne_nil l hne
  obtain ⟨a, -, hmin⟩ := hwf.has_min Set.univ ⟨⟨x, hx⟩, trivial⟩
  refine ⟨a.1, a.2, ?_⟩
  intro b hb hab
  exact hmin ⟨b, hb⟩ trivial (.single hab)

namespace Task

def blockedBy (config : Config) (event : FilterEvent) (objtable : ObjTable) (others : List Task)
    (task : Task) : Bool :=
  match task.filterLoop config event objtable 0 task.lines with
  | some (_, objtable, .wait object) =>
    others.any fun u => decide (task.taskdef.Dominates u.taskdef) &&
      (entries (objtable.tasks object)).contains (u.taskdef, u.timestamp)
  | _ => false

theorem assign_taskdef (task : Task) (cmdvals : List (String × String)) :
    (task.assign cmdvals).taskdef = task.taskdef := by
  unfold assign
  split <;> rfl

variable {config : Config} {event : FilterEvent} {task task' : Task} {objtable objtable' : ObjTable}
  {index : Nat} {lines : List String}

theorem filterLoop_taskdef {how : FilterEnd}
    (h : task.filterLoop config event objtable index lines = some (task', objtable', how)) :
    task'.taskdef = task.taskdef :=
  filterLoop_keeps assign_taskdef (fun _ _ => rfl) h

theorem filterLoop_wait {object : Object}
    (h : task.filterLoop config event objtable index lines = some (task', objtable', .wait object)) :
    ∀ elem ∈ objtable'.tasks object, ¬elem.1.Dominates task.taskdef := by
  induction lines generalizing task objtable index with
  | nil => cases h
  | cons line rest ih =>
    unfold filterLoop at h
    split at h
    · cases h
    · split at h
      · exact ih h
      · split at h
        · cases h
        · split at h
          · split at h
            · rename_i table hinsert
              cases h
              have hwait := congrArg Prod.fst hinsert
              have htable : objtable' = objtable := by
                have := ObjTable.insert_error hwait
                rwa [hinsert] at this
              rw [htable]
              exact (ObjTable.insert_wait hwait).1
            · exact ih h
            · cases h
            · split at h
              · cases h
              · have hwait := ih h
                rwa [assign_taskdef] at hwait
          · cases h

theorem dominates_of_blockedBy {others : List Task} (h : task.blockedBy config event objtable others = true) :
    ∃ u ∈ others, task.taskdef.Dominates u.taskdef ∧ ¬u.taskdef.Dominates task.taskdef := by
  unfold blockedBy at h
  split at h
  · rename_i task' table object hloop
    obtain ⟨u, hu, hdom⟩ := List.any_eq_true.mp h
    simp only [Bool.and_eq_true, decide_eq_true_eq, List.contains_iff_mem] at hdom
    obtain ⟨timestamps, hmem, -⟩ := mem_entries.mp hdom.2
    exact ⟨u, hu, hdom.1, filterLoop_wait hloop _ hmem⟩
  · cases h

end Task

namespace Main

/-- Unfinished tasks are there, none of them runs or is about to, and each one's filter waits for an
operation that one of them holds. -/
def CircularWait (config : Config) (s : Main) : Prop :=
  s.runner.newTasks ≠ [] ∧ s.runner.filteredTasks = [] ∧ s.runner.runningTasks = [] ∧
    ∀ task ∈ s.runner.newTasks, ∃ event,
      task.blockedBy config event s.runner.objtable s.runner.newTasks = true

def Configured (config : Config) (s : Main) : Prop := ∀ t ∈ s.runner.newTasks, t.taskdef ∈ config.tasks

end Main

namespace Runner

variable {config : Config} {r r' : Runner}

theorem filterTask_configured {event : Task.FilterEvent} {task : Task}
    (hnew : ∀ t ∈ r.newTasks, t.taskdef ∈ config.tasks) (htask : task.taskdef ∈ config.tasks)
    (h : r.filterTask config event task = some r') : ∀ t ∈ r'.newTasks, t.taskdef ∈ config.tasks := by
  unfold filterTask at h
  split at h
  · cases h
  · rename_i t table hfilt
    cases h
    intro t' ht'
    rcases List.mem_append.mp ht' with ht' | ht'
    · exact hnew t' ht'
    · obtain rfl := List.mem_singleton.mp ht'
      unfold Task.filter at hfilt
      split at hfilt
      · cases hfilt
      · split at hfilt <;> cases hfilt
        rename_i hloop
        rw [Task.filterLoop_taskdef hloop]
        exact htask
  · cases h
    exact hnew
  · cases h
    exact hnew

theorem filterAll_configured {events : Nat → Task.FilterEvent} {tasks : List Task}
    (hnew : ∀ t ∈ r.newTasks, t.taskdef ∈ config.tasks) (htasks : ∀ t ∈ tasks, t.taskdef ∈ config.tasks)
    (h : r.filterAll config events tasks = some r') : ∀ t ∈ r'.newTasks, t.taskdef ∈ config.tasks := by
  induction tasks generalizing events r with
  | nil =>
    cases h
    exact hnew
  | cons task rest ih =>
    obtain ⟨htask, hrest⟩ := List.forall_mem_cons.mp htasks
    unfold filterAll at h
    split at h
    · cases h
    · rename_i r1 hstep
      exact ih (filterTask_configured hnew htask hstep) hrest h

end Runner

namespace Main

variable {config : Config} {s s' : Main} {calls : List Call}

theorem Configured.apply {call : Call} (hs : s.Configured config) (h : s.apply config call = some s') :
    s'.Configured config := by
  cases call with
  | scan found =>
    cases h
    intro t ht
    rcases List.mem_append.mp ht with ht | ht
    · exact hs t ht
    · obtain ⟨file, -, hnew⟩ := List.mem_filterMap.mp (List.mem_of_mem_take ht)
      obtain ⟨def', hdef, rfl⟩ := Option.map_eq_some_iff.mp hnew
      exact taskdef_mem hdef
  | filter events =>
    obtain ⟨r, hr, rfl⟩ := Option.map_eq_some_iff.mp h
    exact Runner.filterAll_configured (by simp) hs hr
  | launch events =>
    cases h
    unfold Configured launchTasks
    rw [(launchAll_settled _ _ _).1]
    exact hs
  | poll events =>
    unfold Configured
    rw [(pollAll_slots h).2.1]
    exact hs
  | check events =>
    cases h
    unfold Configured Runner.checkTasks
    rw [(Runner.checkAll_frame _ _ _).1]
    exact hs

theorem Configured.run (hs : s.Configured config) (h : s.run config calls = some s') :
    s'.Configured config := by
  induction calls generalizing s with
  | nil =>
    cases h
    exact hs
  | cons call calls ih =>
    unfold Main.run at h
    split at h
    · cases h
    · rename_i s1 hstep
      exact ih (hs.apply hstep) h

/-- Where the waiting of the configured types has no circle, no run leads into a circle of waiting tasks. -/
theorem not_circularWait_run (hacyclic : Uncircular config.tasks)
    (h : (new config).run config calls = some s) : ¬s.CircularWait config := by
  rintro ⟨hne, -, -, hblocked⟩
  have hconf : s.Configured config := by
    apply Configured.run _ h
    simp [Configured, new, Runner.new]
  let waits : Task → Task → Prop := fun t u => WaitsFor config.tasks t.taskdef u.taskdef
  have hloop : ∀ t, ¬Relation.TransGen waits t t := by
    intro t hcircle
    exact hacyclic t.taskdef (hcircle.lift Task.taskdef fun _ _ hwait => hwait)
  obtain ⟨t, ht, hlast⟩ := exists_unrelated hloop hne
  obtain ⟨event, hevent⟩ := hblocked t ht
  obtain ⟨u, hu, hdom, hnot⟩ := Task.dominates_of_blockedBy hevent
  exact hlast u hu ⟨hconf t ht, hconf u hu, hdom, hnot⟩

def layered : Config where
  tasks := [⟨"read", [], ["flush"], []⟩, ⟨"delete", [], ["push", "flush"], ["read"]⟩,
    ⟨"flush", [], ["push"], []⟩, ⟨"push", [], [], []⟩]
  taskParallelism := 1
  taskContentValues := ["object"]
  taskContentRegex := fun line => some fun key => if key = "object" then some line else none

theorem layered_uncircular : Uncircular layered.tasks :=
  uncircular_of_rank (fun def' => ["push", "flush", "read", "delete"].idxOf def'.name) (by decide +kernel)

/-- A read waits for a flush that is about to run. -/
theorem layered_not_circularWait : ∃ s, (new layered).run layered
      [.scan [⟨["p"], "flush", [], 1⟩, ⟨["x", "p"], "read", [], 2⟩], .filter calm] = some s ∧
    s.runner.newTasks.length = 1 ∧ ¬s.CircularWait layered := by
  have hrun : ((new layered).run layered [.scan [⟨["p"], "flush", [], 1⟩, ⟨["x", "p"], "read", [], 2⟩],
      .filter calm]).map (fun s => s.runner.newTasks.length) = some 1 := by decide +kernel
  obtain ⟨s, hs, hlen⟩ := Option.map_eq_some_iff.mp hrun
  exact ⟨s, hs, hlen, not_circularWait_run layered_uncircular hs⟩

/-! ### A circle of three types -/

/-- Three types, each overriding the next. -/
def circular : Config where
  tasks := [⟨"read", [], ["flush"], []⟩, ⟨"flush", [], ["push"], []⟩, ⟨"push", [], ["read"], []⟩]
  taskParallelism := 1
  taskContentValues := ["object"]
  taskContentRegex := fun line => some fun key => if key = "object" then some line else none

/-- A flush of `p` holds up a read after its first object; by the time it is done, a push waits for the
read and another flush for the push. -/
def circularRun : List Call :=
  [.scan [⟨["p"], "flush", [], 1⟩, ⟨["x", "p", "y"], "read", [], 2⟩, ⟨["z", "x"], "push", [], 3⟩,
      ⟨["y", "z"], "flush", [], 4⟩],
    .filter calm, .launch fun _ _ => ⟨.ok (), .running, false⟩,
    .poll fun _ => ⟨fun _ => ⟨.ok (), .exited (some 0), false⟩, .ok ()⟩, .check fun _ => .cleaned,
    .filter calm]

theorem circular_accepted : parsedTasks [⟨"read", [], some ["flush"], none⟩,
    ⟨"flush", [], some ["push"], none⟩, ⟨"push", [], some ["read"], none⟩] = some circular.tasks := by
  decide +kernel

theorem circularWait_reached : ¬∀ (config : Config) (parsed : List ParsedTask),
    parsedTasks parsed = some config.tasks → 0 < config.taskParallelism →
    ∀ (calls : List Call) (s : Main), (new config).run config calls = some s →
      ¬s.CircularWait config := by
  intro h
  have hrun : ((new circular).run circular circularRun).map (fun s => (s.runner.newTasks.length,
      s.runner.filteredTasks.length, s.runner.runningTasks.length,
      s.runner.newTasks.all fun t =>
        t.blockedBy circular (calm 0) s.runner.objtable s.runner.newTasks)) =
      some (3, 0, 0, true) := by decide +kernel
  obtain ⟨s, hs, heq⟩ := Option.map_eq_some_iff.mp hrun
  simp only [Prod.mk.injEq, List.length_eq_zero_iff, List.all_eq_true] at heq
  obtain ⟨hnew, hfiltered, hrunning, hblocked⟩ := heq
  refine h circular _ circular_accepted Nat.one_pos circularRun s hs ⟨?_, hfiltered, hrunning, ?_⟩
  · intro hnil
    simp [hnil] at hnew
  · intro t ht
    exact ⟨calm 0, hblocked t ht⟩

end Main

end Marfs.Tape
