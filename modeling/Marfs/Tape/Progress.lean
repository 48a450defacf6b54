import Marfs.Tape.SlotsConserved

/-!
# The runner goes on

A task that launches only some of its subtasks keeps their slots, and is not polled before the others are
launched.  So the last slot must not go to such a task while no running task has a process: as long as a
free slot or a process of a running task is left, a round in which all processes have ended changes the
state.
-/

namespace Marfs.Tape

open List

def RunsOut (events : Nat → ProcEvent) (procLimit : Nat) (subtasks : List SubTask) : Prop :=
  ∃ done last st rest, subtasks = done ++ last :: st :: rest ∧ Passes events procLimit done ∧
    last.child = .none ∧ (events done.length).spawned = .ok () ∧
    procLimit + children done = children (advanceAll events done) + 1

theorem launchLoop_zero (events : Nat → ProcEvent) (st : SubTask) (rest : List SubTask) :
    Task.launchLoop events 0 (st :: rest) = (st :: rest, 0, .exhausted) := by
  simp [Task.launchLoop]

variable {events : Nat → ProcEvent} {procLimit : Nat} {subtasks : List SubTask}

theorem runsOut_of_exhausted (hslot : 0 < procLimit)
    (h : (Task.launchLoop events procLimit subtasks).2.2 = .exhausted) :
    RunsOut events procLimit subtasks := by
  induction subtasks generalizing events procLimit with
  | nil => simp [Task.launchLoop] at h
  | cons st rest ih =>
    by_cases hspawn : st.child = .none → (events 0).spawned = .ok ()
    · rw [launchLoop_cons hslot hspawn] at h
      by_cases hleft : 0 < procLimit + children [st] - children [advance (events 0) st]
      · obtain ⟨done, last, st', rest', hrest, hpass, hchild, hev, hsum⟩ := ih hleft h
        refine ⟨st :: done, last, st', rest', by rw [hrest, cons_append], ⟨hslot, hspawn, hpass⟩,
          hchild, hev, ?_⟩
        rw [children_cons_eq st done, advanceAll_cons, children_cons_eq _ (advanceAll _ done)]
        have hone : children [advance (events 0) st] ≤ 1 := countP_le_length
        omega
      · have hone : children [advance (events 0) st] ≤ 1 := countP_le_length
        have hzero : procLimit + children [st] - children [advance (events 0) st] = 0 := by omega
        rw [hzero] at h
        cases rest with
        | nil => simp [Task.launchLoop] at h
        | cons st' rest' =>
          have hchild : st.child = .none := by
            cases hst : st.child with
            | none => rfl
            | child =>
              have hst1 : children [st] = 1 := by simp [children, hst]
              omega
            | complete retval =>
              have hadv : advance (events 0) st = st := by simp [advance, hst]
              rw [hadv] at hzero
              omega
          have hst0 : children [st] = 0 := by simp [children, hchild]
          exact ⟨[], st, st', rest', rfl, hslot, hchild, hspawn hchild, by simp; omega⟩
    · obtain ⟨e, -, -, hloop⟩ := launchLoop_stops rest hslot hspawn
      rw [hloop] at h
      cases h

theorem launchLoop_exhausted (h : (Task.launchLoop events procLimit subtasks).2.2 = .exhausted) :
    (Task.launchLoop events procLimit subtasks).2.1 = 0 := by
  induction subtasks generalizing events procLimit with
  | nil => simp [Task.launchLoop] at h
  | cons st rest ih =>
    by_cases hslot : 0 < procLimit
    · by_cases hspawn : st.child = .none → (events 0).spawned = .ok ()
      · rw [launchLoop_cons hslot hspawn] at h ⊢
        exact ih h
      · obtain ⟨e, -, -, hloop⟩ := launchLoop_stops rest hslot hspawn
        rw [hloop] at h
        cases h
    · rw [Nat.eq_zero_of_not_pos hslot, launchLoop_zero]

theorem launchLoop_failed_pos {e : String} (h : (Task.launchLoop events procLimit subtasks).2.2 = .failed e) :
    0 < (Task.launchLoop events procLimit subtasks).2.1 := by
  induction subtasks generalizing events procLimit with
  | nil => simp [Task.launchLoop] at h
  | cons st rest ih =>
    by_cases hslot : 0 < procLimit
    · by_cases hspawn : st.child = .none → (events 0).spawned = .ok ()
      · rw [launchLoop_cons hslot hspawn] at h ⊢
        exact ih h
      · obtain ⟨e', -, -, hloop⟩ := launchLoop_stops rest hslot hspawn
        rw [hloop]
        exact hslot
    · simp [Task.launchLoop, Nat.eq_zero_of_not_pos hslot] at h

theorem pollLoop_exited (hexit : ∀ i, ∃ code, (events i).tryWait = .exited code) {procLimit' : Nat}
    {subtasks' : List SubTask} {anyrunning : Bool}
    (h : Task.pollLoop events procLimit subtasks = some (subtasks', procLimit', anyrunning)) :
    anyrunning = false := by
  induction subtasks generalizing events procLimit procLimit' subtasks' anyrunning with
  | nil =>
    simp only [Task.pollLoop, Option.some.injEq, Prod.mk.injEq] at h
    exact h.2.2.symm
  | cons st rest ih =>
    unfold Task.pollLoop at h
    cases hchild : st.child with
    | none => simp [hchild] at h
    | child =>
      obtain ⟨code, hcode⟩ := hexit 0
      simp only [hchild] at h
      split at h
      · cases h
      · rename_i rest' limit running hrest
        have hrun := ih (fun i => hexit (i + 1)) hrest
        simp only [Option.some.injEq, Prod.mk.injEq] at h
        rw [← h.2.2, hrun]
        simp [SubTask.poll, hchild, hcode]
    | complete retval =>
      simp only [hchild] at h
      split at h
      · cases h
      · rename_i rest' limit running hrest
        simp only [Option.some.injEq, Prod.mk.injEq] at h
        rw [← h.2.2]
        exact ih (fun i => hexit (i + 1)) hrest

namespace Main

def round (launches : Nat → Nat → ProcEvent) (polls : Nat → PollEvent) (s : Main) : Option Main :=
  (s.launchTasks launches).pollTasks polls

def StuckIn (launches : Nat → Nat → ProcEvent) (polls : Nat → PollEvent) (s : Main) : Prop :=
  (s.runner.filteredTasks ≠ [] ∨ s.runner.runningTasks ≠ []) ∧
    (∀ i k, ∃ code, (launches i k).tryWait = .exited code) ∧
    (∀ i k, ∃ code, ((polls i).procs k).tryWait = .exited code) ∧ s.round launches polls = some s

/-! ## The reserve -/

def Reserve (s : Main) : Prop := 0 < s.procLimit + childrenOf s.runner.runningTasks

def LaunchesReserve (events : Nat → Nat → ProcEvent) (s : Main) : List Task → Prop
  | [] => True
  | task :: rest => (RunsOut (events 0) s.procLimit task.subtasks →
        ∃ t ∈ s.runner.runningTasks, ∃ st ∈ t.subtasks, st.child = .child) ∧
      LaunchesReserve (fun i => events (i + 1)) (s.launchTask (events 0) task) rest

/-- A call in which the last slot does not go to a task that must wait for more while no running task has
a process. -/
def KeepsReserve (s : Main) : Call → Prop
  | .launch events =>
    LaunchesReserve events { s with runner := { s.runner with filteredTasks := [] } } s.runner.filteredTasks
  | _ => True

variable {tasks : List Task} {s s' : Main}

theorem childrenOf_pos {t : Task} {st : SubTask} (ht : t ∈ tasks) (hst : st ∈ t.subtasks)
    (hchild : st.child = .child) : 0 < childrenOf tasks := by
  apply Nat.pos_of_ne_zero
  intro hzero
  exact children_eq_zero.mp (childrenOf_eq_zero.mp hzero t ht) st hst hchild

variable {task : Task} {config : Config} {launches : Nat → Nat → ProcEvent} {polls : Nat → PollEvent}
  {calls : List Call}

theorem launchTask_reserve {events : Nat → ProcEvent} (hs : s.Reserve)
    (hkeep : RunsOut events s.procLimit task.subtasks →
      ∃ t ∈ s.runner.runningTasks, ∃ st ∈ t.subtasks, st.child = .child) :
    (s.launchTask events task).Reserve := by
  have hbal := launchLoop_balance events s.procLimit task.subtasks
  have hout : 0 < s.procLimit →
      (Task.launchLoop events s.procLimit task.subtasks).2.2 = .exhausted →
      RunsOut events s.procLimit task.subtasks := runsOut_of_exhausted
  have hpos : ∀ e, (Task.launchLoop events s.procLimit task.subtasks).2.2 = .failed e →
      0 < (Task.launchLoop events s.procLimit task.subtasks).2.1 := fun e => launchLoop_failed_pos
  unfold Reserve at hs ⊢
  unfold launchTask Task.launch
  generalize Task.launchLoop events s.procLimit task.subtasks = res at hbal hout hpos ⊢
  obtain ⟨subtasks, limit, how⟩ := res
  simp only at hbal hout hpos ⊢
  cases how with
  | through =>
    simp only [childrenOf_append, childrenOf_cons, childrenOf_nil]
    omega
  | exhausted =>
    by_cases hslot : 0 < s.procLimit
    · obtain ⟨t, ht, st, hst, hchild⟩ := hkeep (hout hslot rfl)
      have := childrenOf_pos ht hst hchild
      simp only
      omega
    · simp only
      omega
  | failed e =>
    have := hpos e rfl
    simp only
    omega

theorem launchAll_reserve {events : Nat → Nat → ProcEvent} (hs : s.Reserve)
    (hkeep : s.LaunchesReserve events tasks) : (s.launchAll events tasks).Reserve := by
  induction tasks generalizing events s with
  | nil => exact hs
  | cons task rest ih => exact ih (launchTask_reserve hs hkeep.1) hkeep.2

theorem pollTask_reserve {event : PollEvent} (h : s.pollTask event task = some s') :
    s'.procLimit + childrenOf s'.runner.runningTasks =
        s.procLimit + childrenOf s.runner.runningTasks + children task.subtasks ∧
      s'.runner.filteredTasks = s.runner.filteredTasks ∧
      ((∀ k, ∃ code, (event.procs k).tryWait = .exited code) →
        s'.runner.runningTasks = s.runner.runningTasks) := by
  unfold pollTask at h
  cases hpoll : task.poll event.procs event.renamed s.procLimit with
  | none => simp [hpoll] at h
  | some res =>
    obtain ⟨result, limit⟩ := res
    rw [hpoll] at h
    unfold Task.poll at hpoll
    cases hloop : Task.pollLoop event.procs s.procLimit task.subtasks with
    | none => simp [hloop] at hpoll
    | some res =>
      obtain ⟨subtasks, limit', anyrunning⟩ := res
      obtain ⟨hbal, hzero⟩ := pollLoop_balance hloop
      have hexited := fun hexit => pollLoop_exited hexit hloop
      simp only [hloop] at hpoll
      split at hpoll
      · rename_i hrun
        cases hpoll
        cases h
        simp only [childrenOf_append, childrenOf_cons, childrenOf_nil, true_and]
        refine ⟨by omega, ?_⟩
        intro hexit
        rw [hexited hexit] at hrun
        cases hrun
      · rename_i hrun
        have hzero := hzero (by simpa using hrun)
        split at hpoll
        · cases hpoll
          cases h
          exact ⟨by simp only; omega, rfl, fun _ => rfl⟩
        · split at hpoll
          · cases hpoll
            cases h
            exact ⟨by simp only; omega, rfl, fun _ => rfl⟩
          · cases hpoll
            cases h
            exact ⟨by simp only; omega, rfl, fun _ => rfl⟩

theorem pollAll_reserve {events : Nat → PollEvent} (h : s.pollAll events tasks = some s') :
    s'.procLimit + childrenOf s'.runner.runningTasks =
        s.procLimit + childrenOf s.runner.runningTasks + childrenOf tasks ∧
      s'.runner.filteredTasks = s.runner.filteredTasks ∧
      ((∀ i k, ∃ code, ((events i).procs k).tryWait = .exited code) →
        s'.runner.runningTasks = s.runner.runningTasks) := by
  induction tasks generalizing events s with
  | nil =>
    cases h
    simp
  | cons task rest ih =>
    unfold pollAll at h
    split at h
    · cases h
    · rename_i s1 hstep
      obtain ⟨h1, h2, h3⟩ := pollTask_reserve hstep
      obtain ⟨i1, i2, i3⟩ := ih h
      rw [childrenOf_cons]
      refine ⟨by omega, i2.trans h2, ?_⟩
      intro hexit
      exact (i3 fun i => hexit (i + 1)).trans (h3 (hexit 0))

theorem Reserve.apply {call : Call} (hs : s.Reserve) (hkeep : s.KeepsReserve call)
    (h : s.apply config call = some s') : s'.Reserve := by
  cases call with
  | scan found =>
    cases h
    exact hs
  | filter events =>
    obtain ⟨r, hr, rfl⟩ := Option.map_eq_some_iff.mp h
    unfold Runner.filterTasks at hr
    unfold Reserve
    rw [Runner.filterAll_running hr]
    exact hs
  | launch events =>
    cases h
    exact launchAll_reserve hs hkeep
  | poll events =>
    obtain ⟨h1, -, -⟩ := pollAll_reserve h
    unfold Reserve at hs ⊢
    simp only [childrenOf_nil] at h1
    omega
  | check events =>
    cases h
    have hframe := Runner.checkAll_frame events { s.runner with restingTasks := [] } s.runner.restingTasks
    unfold Reserve Runner.checkTasks
    rw [hframe.2.2]
    exact hs

/-! ## A round -/

theorem launchAll_filtered (events : Nat → Nat → ProcEvent) (s : Main) (tasks : List Task) :
    ∃ kept, (s.launchAll events tasks).runner.filteredTasks = s.runner.filteredTasks ++ kept ∧
      kept.length ≤ tasks.length := by
  induction tasks generalizing events s with
  | nil => exact ⟨[], by simp [launchAll], Nat.le_refl _⟩
  | cons task rest ih =>
    obtain ⟨kept, hkept, hlen⟩ := ih (fun i => events (i + 1)) (s.launchTask (events 0) task)
    rw [launchAll, hkept, length_cons]
    unfold launchTask
    split
    · rename_i t limit hlaunch
      exact ⟨t :: kept, by simp, by simpa using hlen⟩
    · exact ⟨kept, rfl, by omega⟩
    · exact ⟨kept, rfl, by omega⟩

theorem launchTasks_filtered_ne (hslot : 0 < s.procLimit) (htask : s.runner.filteredTasks ≠ []) :
    (s.launchTasks launches).runner.filteredTasks ≠ s.runner.filteredTasks := by
  unfold launchTasks
  cases hfilt : s.runner.filteredTasks with
  | nil => exact absurd hfilt htask
  | cons task rest =>
    rw [launchAll]
    obtain ⟨kept, hkept, hlen⟩ := launchAll_filtered (fun i => launches (i + 1))
      (launchTask (launches 0) { s with runner := { s.runner with filteredTasks := [] } } task) rest
    rw [hkept]
    have hbal := launchLoop_balance (launches 0) s.procLimit task.subtasks
    have hnone : (Task.launchLoop (launches 0) s.procLimit task.subtasks).2.2 = .exhausted →
        (Task.launchLoop (launches 0) s.procLimit task.subtasks).2.1 = 0 := launchLoop_exhausted
    unfold launchTask Task.launch
    generalize Task.launchLoop (launches 0) s.procLimit task.subtasks = res at hbal hnone ⊢
    obtain ⟨subtasks, limit, how⟩ := res
    simp only at hbal hnone ⊢
    cases how with
    | exhausted =>
      simp only [nil_append, cons_append, ne_eq, List.cons.injEq, not_and]
      intro hsame
      have hsub : subtasks = task.subtasks := congrArg Task.subtasks hsame
      rw [hsub, hnone rfl] at hbal
      omega
    | through =>
      simp only [nil_append]
      intro hsame
      rw [hsame, length_cons] at hlen
      omega
    | failed e =>
      simp only [nil_append]
      intro hsame
      rw [hsame, length_cons] at hlen
      omega

/-- While a slot is free or a running task has a process, no round leaves the state as it is. -/
theorem not_stuckIn_of_reserve (hs : s.Reserve) : ¬s.StuckIn launches polls := by
  rintro ⟨htask, -, hexit, hround⟩
  obtain ⟨-, hfilt, hrun⟩ := pollAll_reserve hround
  have hemp : s.runner.runningTasks = [] := hrun hexit
  have hslot : 0 < s.procLimit := by
    unfold Reserve at hs
    rw [hemp] at hs
    exact hs
  exact launchTasks_filtered_ne hslot (htask.resolve_right (not_not_intro hemp)) hfilt.symm

/-! ## Runs -/

theorem Reserve.run (hs : s.Reserve) (hkeep : s.Along config KeepsReserve calls)
    (h : s.run config calls = some s') : s'.Reserve := by
  induction calls generalizing s with
  | nil =>
    cases h
    exact hs
  | cons call calls ih =>
    obtain ⟨hcall, hrest⟩ := hkeep
    unfold Main.run at h
    split at h
    · cases h
    · rename_i s1 hstep
      exact ih (hs.apply hcall hstep) (hrest s1 hstep) h

/-- A run with at least one slot, in which the last slot never goes to a task that must wait for more
while no running task has a process, reaches no state where the runner is stuck. -/
theorem not_stuckIn_run (hpar : 0 < config.taskParallelism)
    (hkeep : (new config).Along config KeepsReserve calls) (h : (new config).run config calls = some s)
    (launches : Nat → Nat → ProcEvent) (polls : Nat → PollEvent) : ¬s.StuckIn launches polls := by
  apply not_stuckIn_of_reserve
  apply Reserve.run _ hkeep h
  exact hpar

theorem two_le_of_runsOut {events : Nat → ProcEvent} {procLimit : Nat} {subtasks : List SubTask}
    (h : RunsOut events procLimit subtasks) : 2 ≤ subtasks.length := by
  obtain ⟨done, last, st, rest, rfl, -⟩ := h
  simp only [length_append, length_cons]
  omega

/-- A task with one subtask, on one slot. -/
theorem single_not_stuckIn : ∃ s, (new (fragmented 1)).run (fragmented 1)
      [.scan [⟨["x"], "read", [], 1⟩], .filter calm, .launch fun _ _ => ⟨.ok (), .running, false⟩] = some s ∧
    s.procLimit = 0 ∧ ∀ launches polls, ¬s.StuckIn launches polls := by
  have hlimit : ((new (fragmented 1)).run (fragmented 1) [.scan [⟨["x"], "read", [], 1⟩], .filter calm,
      .launch fun _ _ => ⟨.ok (), .running, false⟩]).map (fun s => s.procLimit) = some 0 := by
    decide +kernel
  obtain ⟨s, hs, hzero⟩ := Option.map_eq_some_iff.mp hlimit
  refine ⟨s, hs, hzero, ?_⟩
  apply not_stuckIn_run Nat.one_pos _ hs
  refine ⟨trivial, fun s1 h1 => ⟨trivial, fun s2 h2 => ⟨?_, fun _ _ => trivial⟩⟩⟩
  have hfiltered : ((new (fragmented 1)).run (fragmented 1) [.scan [⟨["x"], "read", [], 1⟩], .filter calm]).map
      (fun s => s.runner.filteredTasks.map fun t => t.subtasks.length) = some [1] := by
    decide +kernel
  simp only [run, h1, h2, Option.map_some, Option.some.injEq] at hfiltered
  unfold KeepsReserve
  cases htasks : s2.runner.filteredTasks with
  | nil => trivial
  | cons t rest =>
    simp only [htasks, map_cons, List.cons.injEq, map_eq_nil_iff] at hfiltered
    obtain ⟨hlen, rfl⟩ := hfiltered
    refine ⟨?_, trivial⟩
    intro hout
    have := two_le_of_runsOut hout
    omega

/-! ### A run that gets stuck -/

theorem launchAll_of_zero (events : Nat → Nat → ProcEvent) (r : Runner)
    (hsub : ∀ t ∈ tasks, t.subtasks ≠ []) :
    launchAll events ⟨r, 0⟩ tasks = ⟨{ r with filteredTasks := r.filteredTasks ++ tasks }, 0⟩ := by
  induction tasks generalizing events r with
  | nil => simp [launchAll]
  | cons task rest ih =>
    obtain ⟨htask, hrest⟩ := List.forall_mem_cons.mp hsub
    cases hsubs : task.subtasks with
    | nil => exact absurd hsubs htask
    | cons st sts =>
      have hsame : { task with subtasks := st :: sts } = task := by rw [← hsubs]
      have hlaunch : launchTask (events 0) ⟨r, 0⟩ task =
          ⟨{ r with filteredTasks := r.filteredTasks ++ [task] }, 0⟩ := by
        simp only [launchTask, Task.launch, hsubs, launchLoop_zero, hsame]
      rw [launchAll, hlaunch, ih _ _ hrest]
      simp

theorem round_of_zero (hzero : s.procLimit = 0) (hrun : s.runner.runningTasks = [])
    (hsub : ∀ t ∈ s.runner.filteredTasks, t.subtasks ≠ []) : s.round launches polls = some s := by
  obtain ⟨r, limit⟩ := s
  subst hzero
  have hlaunch : launchTasks launches ⟨r, 0⟩ = ⟨r, 0⟩ := by
    unfold launchTasks
    rw [launchAll_of_zero _ _ hsub]
    rfl
  unfold round pollTasks
  rw [hlaunch]
  simp only at hrun ⊢
  rw [hrun, pollAll, ← hrun]

/-- One slot, and a task with two subtasks: the first is launched. -/
def blockingRun : List Call :=
  [.scan [⟨["x", "y"], "read", [], 1⟩], .filter calm, .launch fun _ _ => ⟨.ok (), .running, false⟩]

theorem stuckIn_reached : ¬∀ config : Config, 0 < config.taskParallelism → ∀ (calls : List Call) (s : Main),
    (new config).run config calls = some s → ∀ launches polls, ¬s.StuckIn launches polls := by
  intro h
  have hrun : ((new (fragmented 1)).run (fragmented 1) blockingRun).map
      (fun s => (s.procLimit, s.runner.runningTasks.isEmpty,
        s.runner.filteredTasks.map fun t => t.subtasks.length)) = some (0, true, [2]) := by
    decide +kernel
  obtain ⟨s, hs, heq⟩ := Option.map_eq_some_iff.mp hrun
  simp only [Prod.mk.injEq, List.isEmpty_iff] at heq
  obtain ⟨hzero, hrunning, hfiltered⟩ := heq
  have hsub : ∀ t ∈ s.runner.filteredTasks, t.subtasks.length = 2 := by
    intro t ht
    have hmem : t.subtasks.length ∈ s.runner.filteredTasks.map fun t => t.subtasks.length :=
      mem_map_of_mem ht
    simpa [hfiltered] using hmem
  let ended : Nat → ProcEvent := fun _ => ⟨.ok (), .exited (some 0), false⟩
  refine h (fragmented 1) Nat.one_pos blockingRun s hs (fun _ => ended) (fun _ => ⟨ended, .ok ()⟩)
    ⟨.inl ?_, fun _ _ => ⟨_, rfl⟩, fun _ _ => ⟨_, rfl⟩, round_of_zero hzero hrunning ?_⟩
  · intro hnil
    simp [hnil] at hfiltered
  · intro t ht hnil
    simpa [hnil] using hsub t ht

end Main

end Marfs.Tape
