import Marfs.Tape.ObjTable

/-!
# What the object table holds

An operation is accepted only when its type clashes with no type on its object, so no two operations on
one object ever clash.  Beside the table runs a ledger of the operations that were accepted and whose
task was not removed since; the table holds exactly these.
-/

namespace Marfs.Tape

/-- A call of the table; tasks name their type, which the configuration then gives. -/
inductive TableOp where
  | insert (object : Object) (taskname : String) (stamp : SystemTime)
  | remove (taskname : String) (stamp : SystemTime)
  deriving DecidableEq, Repr

structure Ledgered where
  table : ObjTable
  ledger : List (Object × String × SystemTime)

namespace Ledgered

/-- One call. -/
def apply (tasks : List ConfigTask) (s : Ledgered) : TableOp → Ledgered
  | .insert object taskname stamp =>
    match taskdef tasks taskname with
    | none => s
    | some def' =>
      match s.table.insert object def' stamp with
      | (.ok (), table) => ⟨table, (object, taskname, stamp) :: s.ledger⟩
      | (.error _, table) => ⟨table, s.ledger⟩
  | .remove taskname stamp =>
    match taskdef tasks taskname with
    | none => s
    | some def' => ⟨s.table.remove def' stamp, s.ledger.filter fun held => held.2 ≠ (taskname, stamp)⟩

def run (tasks : List ConfigTask) (ops : List TableOp) : Ledgered :=
  ops.foldl (apply tasks) ⟨ObjTable.new, []⟩

end Ledgered

namespace ObjTable

def Excluded (table : ObjTable) : Prop :=
  ∀ object, (entries (table.tasks object)).Pairwise fun a b => ¬a.1.Clashes b.1

def Known (tasks : List ConfigTask) (table : ObjTable) : Prop :=
  ∀ object, ∀ elem ∈ table.tasks object, taskdef tasks elem.1.name = some elem.1

section Updates

variable {tasks : List ConfigTask} {table : ObjTable} {object : Object} {taskDef : ConfigTask}
  {stamp : SystemTime}

theorem Known.eq (hknown : table.Known tasks) (hdef : taskdef tasks taskDef.name = some taskDef) :
    ∀ elem ∈ table.tasks object, elem.1.name = taskDef.name → elem.1 = taskDef := by
  intro elem helem hname
  have h := hknown object elem helem
  rw [hname, hdef] at h
  exact (Option.some.inj h).symm

theorem Known.insert (hknown : table.Known tasks) (hdef : taskdef tasks taskDef.name = some taskDef) :
    (table.insert object taskDef stamp).2.Known tasks := by
  cases hres : (table.insert object taskDef stamp).1 with
  | error error =>
    rw [insert_error hres]
    exact hknown
  | ok u =>
    intro object' elem helem
    rw [(insert_ok hres).2] at helem
    split at helem
    · rcases mem_push helem with heq | ⟨timestamps, hmem⟩
      · rw [heq]
        exact hdef
      · exact hknown object (elem.1, timestamps) hmem
    · exact hknown object' elem helem

theorem Known.remove (hknown : table.Known tasks) : (table.remove taskDef stamp).Known tasks := by
  intro object elem helem
  rw [tasks_remove] at helem
  obtain ⟨timestamps, hmem⟩ := mem_retain helem
  exact hknown object (elem.1, timestamps) hmem

theorem Excluded.insert (hexcl : table.Excluded) (hknown : table.Known tasks)
    (hdef : taskdef tasks taskDef.name = some taskDef) : (table.insert object taskDef stamp).2.Excluded := by
  cases hres : (table.insert object taskDef stamp).1 with
  | error error =>
    rw [insert_error hres]
    exact hexcl
  | ok u =>
    obtain ⟨hfree, htasks⟩ := insert_ok hres
    intro object'
    rw [htasks]
    split
    · have hperm : (entries (push taskDef stamp (table.tasks object))).Perm
          ((taskDef, stamp) :: entries (table.tasks object)) :=
        entries_push (hknown.eq hdef)
      rw [hperm.pairwise_iff fun {a b} h => fun hclash => h hclash.symm]
      refine List.pairwise_cons.mpr ⟨?_, hexcl object⟩
      intro entry hent
      obtain ⟨timestamps, hmem, -⟩ := mem_entries.mp hent
      exact hfree _ hmem
    · exact hexcl object'

theorem Excluded.remove (hexcl : table.Excluded) : (table.remove taskDef stamp).Excluded := by
  intro object
  rw [tasks_remove, entries_retain]
  exact (hexcl object).filter _

theorem count_insert (hknown : table.Known tasks) (hdef : taskdef tasks taskDef.name = some taskDef)
    (hres : (table.insert object taskDef stamp).1 = .ok ()) (object' : Object) (name : String)
    (stamp' : SystemTime) :
    (table.insert object taskDef stamp).2.count object' name stamp' =
      table.count object' name stamp' +
        if (object', name, stamp') = (object, taskDef.name, stamp) then 1 else 0 := by
  unfold count
  rw [(insert_ok hres).2]
  by_cases hobj : object' = object
  · subst hobj
    have hperm : (entries (push taskDef stamp (table.tasks object'))).Perm
        ((taskDef, stamp) :: entries (table.tasks object')) :=
      entries_push (hknown.eq hdef)
    have hnames := hperm.map fun entry => (entry.1.name, entry.2)
    rw [if_pos rfl, stamps, hnames.count_eq, List.map_cons, List.count_cons]
    simp only [stamps, beq_iff_eq, Prod.mk.injEq, true_and]
    congr 1
    simp only [eq_comm]
  · simp [hobj]

theorem count_remove (table : ObjTable) (taskDef : ConfigTask) (stamp : SystemTime) (object : Object)
    (name : String) (stamp' : SystemTime) :
    (table.remove taskDef stamp).count object name stamp' =
      if name = taskDef.name ∧ stamp' = stamp then 0 else table.count object name stamp' := by
  unfold count stamps
  rw [tasks_remove, entries_retain, List.count_eq_countP, List.countP_map, List.countP_filter,
    List.count_eq_countP, List.countP_map]
  split
  · rename_i h
    obtain ⟨rfl, rfl⟩ := h
    rw [List.countP_eq_zero]
    rintro ⟨task, time⟩ -
    simp
  · rename_i h
    apply List.countP_congr
    rintro ⟨task, time⟩ -
    suffices hkeep : task.name = name → time = stamp' →
        ¬task.name = taskDef.name ∨ ¬time = stamp by
      simpa using hkeep
    rintro rfl rfl
    exact not_and_or.mp h

end Updates

end ObjTable

/-! ## Runs -/

namespace Ledgered

/-- What holds of the table and its ledger after every call. -/
structure Sound (tasks : List ConfigTask) (s : Ledgered) : Prop where
  known : s.table.Known tasks
  excluded : s.table.Excluded
  counts : ∀ object name stamp, s.table.count object name stamp = s.ledger.count (object, name, stamp)

theorem apply_cases (tasks : List ConfigTask) (s : Ledgered) (op : TableOp) :
    s.apply tasks op = s ∨
      (∃ object def' stamp, taskdef tasks def'.name = some def' ∧
        (s.table.insert object def' stamp).1 = .ok () ∧
        s.apply tasks op =
          ⟨(s.table.insert object def' stamp).2, (object, def'.name, stamp) :: s.ledger⟩) ∨
      ∃ def' stamp, s.apply tasks op =
        ⟨s.table.remove def' stamp, s.ledger.filter fun held => held.2 ≠ (def'.name, stamp)⟩ := by
  cases op with
  | insert object taskname stamp =>
    cases hdef : taskdef tasks taskname with
    | none => exact .inl (by simp [apply, hdef])
    | some def' =>
      obtain rfl := taskdef_name hdef
      cases hres : (s.table.insert object def' stamp).1 with
      | error error =>
        have hsame := ObjTable.insert_error hres
        have hpair : s.table.insert object def' stamp = (.error error, s.table) := Prod.ext hres hsame
        exact .inl (by simp [apply, hdef, hpair])
      | ok u =>
        have hpair : s.table.insert object def' stamp =
            (.ok (), (s.table.insert object def' stamp).2) := Prod.ext hres rfl
        refine .inr (.inl ⟨object, def', stamp, hdef, hres, ?_⟩)
        simp only [apply, hdef]
        rw [hpair]
  | remove taskname stamp =>
    cases hdef : taskdef tasks taskname with
    | none => exact .inl (by simp [apply, hdef])
    | some def' =>
      obtain rfl := taskdef_name hdef
      exact .inr (.inr ⟨def', stamp, by simp [apply, hdef]⟩)

theorem Sound.apply {tasks : List ConfigTask} {s : Ledgered} (h : s.Sound tasks) (op : TableOp) :
    (s.apply tasks op).Sound tasks := by
  rcases apply_cases tasks s op with heq | ⟨object, def', stamp, hdef, hres, heq⟩ | ⟨def', stamp, heq⟩
  · rw [heq]
    exact h
  · rw [heq]
    refine ⟨h.known.insert hdef, h.excluded.insert h.known hdef, ?_⟩
    intro object' name stamp'
    rw [ObjTable.count_insert h.known hdef hres, h.counts, List.count_cons]
    simp only [beq_iff_eq]
    congr 1
    simp only [eq_comm]
  · rw [heq]
    refine ⟨h.known.remove, h.excluded.remove, ?_⟩
    intro object name stamp'
    rw [ObjTable.count_remove, h.counts]
    split
    · rename_i htask
      obtain ⟨rfl, rfl⟩ := htask
      symm
      apply List.count_eq_zero.mpr
      simp
    · rename_i htask
      symm
      apply List.count_filter
      simpa using not_and_or.mp htask

theorem sound_run (tasks : List ConfigTask) (ops : List TableOp) : (run tasks ops).Sound tasks := by
  suffices h : ∀ s : Ledgered, s.Sound tasks → (ops.foldl (apply tasks) s).Sound tasks by
    apply h
    exact ⟨by simp [ObjTable.Known], by simp [ObjTable.Excluded], by simp [ObjTable.count, stamps]⟩
  induction ops with
  | nil => exact fun s hs => hs
  | cons op ops ih =>
    intro s hs
    exact ih _ (hs.apply op)

end Ledgered

/-- After any calls no two operations on an object clash, the table holds what was accepted and not
removed since, a rejected operation changes nothing, and a removal takes exactly the operations of the
task. -/
theorem objtable_exclusion (tasks : List ConfigTask) (ops : List TableOp) :
    let s := Ledgered.run tasks ops
    s.table.Excluded ∧
      (∀ object name stamp, s.table.count object name stamp = s.ledger.count (object, name, stamp)) ∧
      (∀ object taskDef stamp error, (s.table.insert object taskDef stamp).1 = .error error →
        (s.table.insert object taskDef stamp).2 = s.table) ∧
      ∀ taskDef stamp object name stamp', (s.table.remove taskDef stamp).count object name stamp' =
        if name = taskDef.name ∧ stamp' = stamp then 0 else s.table.count object name stamp' := by
  intro s
  have hs := Ledgered.sound_run tasks ops
  refine ⟨hs.excluded, hs.counts, ?_, ?_⟩
  · intro object taskDef stamp error hres
    exact ObjTable.insert_error hres
  · intro taskDef stamp object name stamp'
    exact ObjTable.count_remove ..

end Marfs.Tape
