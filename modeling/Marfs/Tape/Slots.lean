import Mathlib.Algebra.Order.BigOperators.Group.List
import Marfs.Tape.Runner

/-!
# Process slots

A slot is taken when a process starts and given back when its end is noticed.  The loops of `launch` and
`poll` keep the free slots and the processes of a task in balance at every subtask.  What breaks the
balance is a launch that fails: its task is dropped with the processes it has, and their slots are not
given back.
-/

namespace Marfs.Tape

open List

def children (subtasks : List SubTask) : Nat := subtasks.countP fun st => st.child = .child

@[simp] theorem children_nil : children [] = 0 := rfl

theorem children_cons (st : SubTask) (rest : List SubTask) :
    children (st :: rest) = children rest + if st.child = .child then 1 else 0 := by
  simp [children, countP_cons]

theorem children_cons_eq (st : SubTask) (rest : List SubTask) :
    children (st :: rest) = children [st] + children rest := by
  rw [children_cons, children_cons, children_nil]
  omega

@[simp] theorem children_append (front rest : List SubTask) :
    children (front ++ rest) = children front + children rest := countP_append

variable {subtasks : List SubTask} {events : Nat → ProcEvent} {procLimit : Nat}

theorem children_eq_zero : children subtasks = 0 ↔ ∀ st ∈ subtasks, st.child ≠ .child := by
  simp [children, countP_eq_zero]

/-! ## The loop of `launch` -/

/-- What the loop of `launch` makes of a subtask it gets past. -/
def advance (event : ProcEvent) (st : SubTask) : SubTask :=
  match st.child with
  | .none => { st with child := .child }
  | .child => st.poll event
  | .complete _ => st

/-- What the loop of `launch` makes of the subtasks it gets past. -/
def advanceAll (events : Nat → ProcEvent) (subtasks : List SubTask) : List SubTask :=
  subtasks.mapIdx fun i st => advance (events i) st

@[simp] theorem advanceAll_nil (events : Nat → ProcEvent) : advanceAll events [] = [] := rfl

@[simp] theorem advanceAll_cons (events : Nat → ProcEvent) (st : SubTask) (rest : List SubTask) :
    advanceAll events (st :: rest) =
      advance (events 0) st :: advanceAll (fun i => events (i + 1)) rest := by
  simp [advanceAll, mapIdx_cons]

/-- With these free slots the loop of `launch` gets past the subtasks and has a slot left. -/
def Passes (events : Nat → ProcEvent) (procLimit : Nat) : List SubTask → Prop
  | [] => 0 < procLimit
  | st :: rest =>
    0 < procLimit ∧ (st.child = .none → (events 0).spawned = .ok ()) ∧
      Passes (fun i => events (i + 1))
        (procLimit + children [st] - children [advance (events 0) st]) rest

def Strands (events : Nat → ProcEvent) (procLimit : Nat) (subtasks : List SubTask) : Prop :=
  ∃ done st rest e, subtasks = done ++ st :: rest ∧ Passes events procLimit done ∧ st.child = .none ∧
    (events done.length).spawned = .error e ∧
    ∃ other ∈ advanceAll events done ++ rest, other.child = .child

theorem launchLoop_cons {st : SubTask} {rest : List SubTask} (hslot : 0 < procLimit)
    (hspawn : st.child = .none → (events 0).spawned = .ok ()) :
    Task.launchLoop events procLimit (st :: rest) =
      let next := Task.launchLoop (fun i => events (i + 1))
        (procLimit + children [st] - children [advance (events 0) st]) rest
      (advance (events 0) st :: next.1, next.2.1, next.2.2) := by
  rw [Task.launchLoop, if_neg hslot.ne']
  cases hchild : st.child with
  | none =>
    have hlaunch : st.launch (events 0) = .ok { st with child := .child } := by
      simp [SubTask.launch, hchild, hspawn hchild]
    simp [hlaunch, advance, hchild, children]
  | child =>
    simp only [advance, hchild, children_cons, children_nil]
    split <;> simp
  | complete retval => simp [advance, hchild, children]

theorem launchLoop_stops {st : SubTask} (rest : List SubTask) (hslot : 0 < procLimit)
    (hspawn : ¬(st.child = .none → (events 0).spawned = .ok ())) :
    ∃ e, st.child = .none ∧ (events 0).spawned = .error e ∧
      Task.launchLoop events procLimit (st :: rest) = (st :: rest, procLimit, .failed e) := by
  push Not at hspawn
  obtain ⟨hchild, hspawn⟩ := hspawn
  cases hev : (events 0).spawned with
  | ok u => exact absurd hev hspawn
  | error e =>
    have hlaunch : st.launch (events 0) = .error e := by simp [SubTask.launch, hchild, hev]
    refine ⟨e, hchild, rfl, ?_⟩
    simp [Task.launchLoop, hslot.ne', hchild, hlaunch]

theorem launchLoop_balance (events : Nat → ProcEvent) (procLimit : Nat) (subtasks : List SubTask) :
    (Task.launchLoop events procLimit subtasks).2.1 +
        children (Task.launchLoop events procLimit subtasks).1 =
      procLimit + children subtasks := by
  induction subtasks generalizing events procLimit with
  | nil => simp [Task.launchLoop]
  | cons st rest ih =>
    by_cases hslot : 0 < procLimit
    · by_cases hspawn : st.child = .none → (events 0).spawned = .ok ()
      · rw [launchLoop_cons hslot hspawn]
        have h := ih (fun i => events (i + 1))
          (procLimit + children [st] - children [advance (events 0) st])
        have hone : children [advance (events 0) st] ≤ 1 := countP_le_length
        dsimp only
        generalize Task.launchLoop (fun i => events (i + 1)) _ rest = next at h ⊢
        rw [children_cons_eq st rest, children_cons_eq _ next.1]
        omega
      · obtain ⟨e, -, -, hloop⟩ := launchLoop_stops rest hslot hspawn
        rw [hloop]
    · simp [Task.launchLoop, Nat.eq_zero_of_not_pos hslot]

theorem launchLoop_failed {e : String} (h : (Task.launchLoop events procLimit subtasks).2.2 = .failed e) :
    ∃ done st rest, subtasks = done ++ st :: rest ∧ Passes events procLimit done ∧ st.child = .none ∧
      (events done.length).spawned = .error e ∧
      (Task.launchLoop events procLimit subtasks).1 = advanceAll events done ++ st :: rest := by
  induction subtasks generalizing events procLimit with
  | nil => simp [Task.launchLoop] at h
  | cons st rest ih =>
    by_cases hslot : 0 < procLimit
    · by_cases hspawn : st.child = .none → (events 0).spawned = .ok ()
      · rw [launchLoop_cons hslot hspawn] at h ⊢
        obtain ⟨done, st', rest', hrest, hpass, hchild, hev, hres⟩ := ih h
        refine ⟨st :: done, st', rest', by rw [hrest, cons_append], ⟨hslot, hspawn, hpass⟩, hchild,
          hev, ?_⟩
        simp only [advanceAll_cons, cons_append, List.cons.injEq, true_and]
        exact hres
      · obtain ⟨e', hchild, hev, hloop⟩ := launchLoop_stops rest hslot hspawn
        rw [hloop] at h ⊢
        cases h
        exact ⟨[], st, rest, rfl, hslot, hchild, hev, rfl⟩
    · simp [Task.launchLoop, Nat.eq_zero_of_not_pos hslot] at h

theorem launchLoop_of_passes {done : List SubTask} {st : SubTask} {rest : List SubTask} {e : String}
    (hpass : Passes events procLimit done) (hchild : st.child = .none)
    (hev : (events done.length).spawned = .error e) :
    (Task.launchLoop events procLimit (done ++ st :: rest)).2.2 = .failed e ∧
      (Task.launchLoop events procLimit (done ++ st :: rest)).1 = advanceAll events done ++ st :: rest := by
  induction done generalizing events procLimit with
  | nil =>
    have hlaunch : st.launch (events 0) = .error e := by
      have hev0 : (events 0).spawned = .error e := hev
      simp [SubTask.launch, hchild, hev0]
    have hslot : procLimit ≠ 0 := Nat.pos_iff_ne_zero.mp hpass
    simp [Task.launchLoop, hslot, hchild, hlaunch]
  | cons first done ih =>
    obtain ⟨hslot, hspawn, hpass⟩ := hpass
    obtain ⟨hhow, hres⟩ := ih hpass hev
    rw [cons_append, launchLoop_cons hslot hspawn]
    refine ⟨hhow, ?_⟩
    simp only [advanceAll_cons, cons_append, List.cons.injEq, true_and]
    exact hres

theorem strands_iff :
    Strands events procLimit subtasks ↔
      (∃ e, (Task.launchLoop events procLimit subtasks).2.2 = .failed e) ∧
        0 < children (Task.launchLoop events procLimit subtasks).1 := by
  have hpos : ∀ sts : List SubTask, 0 < children sts ↔ ∃ other ∈ sts, other.child = .child := by
    intro sts
    simp [children, countP_pos_iff]
  constructor
  · rintro ⟨done, st, rest, e, rfl, hpass, hchild, hev, other, hoth, hrun⟩
    obtain ⟨hhow, hres⟩ := launchLoop_of_passes hpass hchild hev
    refine ⟨⟨e, hhow⟩, ?_⟩
    rw [hres, hpos]
    refine ⟨other, ?_, hrun⟩
    rcases List.mem_append.mp hoth with h | h
    · exact mem_append_left _ h
    · exact mem_append_right _ (mem_cons_of_mem _ h)
  · rintro ⟨⟨e, hfail⟩, hheld⟩
    obtain ⟨done, st, rest, hspl, hpass, hchild, hev, hres⟩ := launchLoop_failed hfail
    rw [hres, hpos] at hheld
    obtain ⟨other, hoth, hrun⟩ := hheld
    refine ⟨done, st, rest, e, hspl, hpass, hchild, hev, other, ?_, hrun⟩
    rcases List.mem_append.mp hoth with h | h
    · exact mem_append_left _ h
    · rcases List.mem_cons.mp h with rfl | h
      · rw [hchild] at hrun
        cases hrun
      · exact mem_append_right _ h

/-! ## The loop of `poll` -/

theorem pollLoop_balance {procLimit' : Nat} {subtasks' : List SubTask} {anyrunning : Bool}
    (h : Task.pollLoop events procLimit subtasks = some (subtasks', procLimit', anyrunning)) :
    procLimit' + children subtasks' = procLimit + children subtasks ∧
      (anyrunning = false → children subtasks' = 0) := by
  induction subtasks generalizing events procLimit procLimit' subtasks' anyrunning with
  | nil =>
    simp only [Task.pollLoop, Option.some.injEq, Prod.mk.injEq] at h
    obtain ⟨rfl, rfl, rfl⟩ := h
    simp
  | cons st rest ih =>
    unfold Task.pollLoop at h
    cases hchild : st.child with
    | none => simp [hchild] at h
    | child =>
      simp only [hchild] at h
      split at h
      · cases h
      · rename_i rest' limit running hrest
        obtain ⟨hbal, hzero⟩ := ih hrest
        simp only [Option.some.injEq, Prod.mk.injEq] at h
        obtain ⟨rfl, rfl, rfl⟩ := h
        simp only [children_cons, hchild, if_true]
        by_cases hpoll : (st.poll (events 0)).child = .child
        · simp only [hpoll, if_true] at hbal ⊢
          refine ⟨by omega, by simp⟩
        · simp only [hpoll, if_false] at hbal ⊢
          refine ⟨by omega, ?_⟩
          intro hrun
          simp only [decide_false, Bool.or_false] at hrun
          simp [hzero hrun]
    | complete retval =>
      simp only [hchild] at h
      split at h
      · cases h
      · rename_i rest' limit running hrest
        obtain ⟨hbal, hzero⟩ := ih hrest
        simp only [Option.some.injEq, Prod.mk.injEq] at h
        obtain ⟨rfl, rfl, rfl⟩ := h
        simp only [children_cons, hchild]
        exact ⟨by simpa using hbal, by simpa using hzero⟩

end Marfs.Tape
