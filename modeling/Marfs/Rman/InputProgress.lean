import Marfs.Rman.InputBarrier

/-!
# The end of the resource input

A master in `resourceinput_term` never waits in vain: as long as it waits, some producer that is not
where it waits for it can take a turn, and whatever the producers still hold runs out.
-/

namespace Marfs.Rman

open Relation (ReflTransGen)

/-! ## What is left to do -/

def Queues.weight (queues : Queues) : Nat :=
  queues.rebuildops.length + queues.repackops.length +
    (queues.gcops.map fun op => op.count + 1).sum

theorem produceGc_weight {op : Opinfo} {ops : List Opinfo} :
    (((produceGc (op :: ops)).2).map fun op => op.count + 1).sum <
      ((op :: ops).map fun op => op.count + 1).sum := by
  unfold produceGc
  dsimp only
  rw [List.map_cons, List.sum_cons]
  split
  · split
    · rw [List.map_cons, List.sum_cons]
      simp only [Opinfo.skipObject]
      omega
    · split
      · dsimp only
        omega
      · simp
  · simp

variable {queues : Queues}

theorem produceOps_weight {queues' : Queues} {newop : List Opinfo}
    (h : produceOps queues = some (newop, queues')) : queues'.weight < queues.weight := by
  unfold produceOps at h
  unfold Queues.weight
  split at h
  next op rebuildops hreb =>
    cases h
    simp [hreb]
  next hreb =>
    split at h
    next hrep =>
      cases h
      have := List.length_pos_of_ne_nil hrep
      dsimp only [List.length_nil]
      omega
    next hrep =>
      split at h
      next hgc =>
        obtain ⟨op, ops, hops⟩ := List.exists_cons_of_ne_nil hgc
        obtain ⟨-, rfl⟩ := Prod.mk.inj (Option.some.inj h)
        have hless := @produceGc_weight op ops
        rw [← hops] at hless
        exact Nat.add_lt_add_left hless _
      next => cases h

theorem produceOps_none (h : produceOps queues = none) : queues = {} := by
  unfold produceOps at h
  split at h
  next => cases h
  next hreb =>
    split at h
    next => cases h
    next hrep =>
      split at h
      next => cases h
      next hgc =>
        obtain ⟨rebuildops, repackops, gcops⟩ := queues
        simp_all

def Place.weight : Place → Nat
  | .updating => 4
  | .producing => 3
  | .terminating false => 2
  | .terminating true => 1
  | .finished => 0

/-- The turns that are left to a producer once there is no more input. -/
def Producer.weight (producer : Producer) : Nat :=
  producer.place.weight + producer.queues.weight + producer.walker.toNat +
    producer.scanner.isSome.toNat

theorem Producer.useOwn_weight {producer : Producer} (h : ¬ producer.Empty) :
    ∃ sighting producer', producer.useOwn sighting = some producer' ∧
      producer'.place = producer.place ∧ producer'.weight < producer.weight := by
  cases hops : produceOps producer.queues with
  | some found =>
    obtain ⟨newop, queues⟩ := found
    refine ⟨.entry, { producer with queues := queues }, ?_, rfl, ?_⟩
    · unfold Producer.useOwn
      rw [hops]
    · have := produceOps_weight hops
      unfold Producer.weight
      dsimp only
      omega
  | none =>
    have hqs := produceOps_none hops
    cases hwalker : producer.walker with
    | true =>
      refine ⟨.streamEnd, { producer with walker := false }, ?_, rfl, ?_⟩
      · unfold Producer.useOwn
        rw [hops, hwalker]
        rfl
      · unfold Producer.weight
        simp [hwalker]
    | false =>
      cases hscanner : producer.scanner with
      | some refindex =>
        refine ⟨.dirEnd, { producer with scanner := none }, ?_, rfl, ?_⟩
        · unfold Producer.useOwn
          rw [hops, hwalker, hscanner]
          rfl
        · unfold Producer.weight
          simp [hscanner]
      | none => exact absurd ⟨hqs, hwalker, hscanner⟩ h

namespace Inputs

def weight (s : Inputs) : Nat :=
  (s.producers.map Producer.weight).sum + if s.rin.prepterm < 2 then 1 else 0

variable {i : Nat} {producer : Producer}

variable {producers : List Producer} {producer' : Producer} {origclientcount : Nat}

theorem weight_set_lt (hi : producers[i]? = some producer) (hlt : producer'.weight < producer.weight) :
    ((producers.set i producer').map Producer.weight).sum < (producers.map Producer.weight).sum := by
  induction producers generalizing i with
  | nil => cases hi
  | cons head tail ih =>
    cases i with
    | zero =>
      obtain rfl : head = producer := Option.some.inj hi
      simpa using hlt
    | succ i =>
      have := ih (i := i) hi
      simpa using this

def Ending (s : Inputs) : Prop := ∃ origclientcount,
  s.master = .synchronizing origclientcount ∨ s.master = .exiting origclientcount

def Ends (s : Inputs) : Prop :=
  ∃ s', ReflTransGen (fun s s' => ∃ action, s.step action = some s') s s' ∧ s'.master = .terminated

variable {clients : Nat} {s : Inputs}

def Advances (s : Inputs) : Prop :=
  ∃ action s', s.step action = some s' ∧
    (s'.master = .terminated ∨ s'.Ending ∧ s'.weight < s.weight)

theorem Ending.of_turn {s' : Inputs} {action : Action} (h : s.Ending) (hi : s.producers[i]? = some producer)
    (hstep : s.step action = some s') (hmaster : s'.master = s.master)
    (hprep : s'.rin.prepterm = s.rin.prepterm) (hset : s'.producers = s.producers.set i producer')
    (hlt : producer'.weight < producer.weight) : s.Advances := by
  refine ⟨action, s', hstep, .inr ⟨?_, ?_⟩⟩
  · unfold Ending
    rw [hmaster]
    exact h
  · have := weight_set_lt hi hlt
    unfold weight
    rw [hset, hprep]
    omega

theorem step_turn (hi : s.producers[i]? = some producer) (hplc : producer.place = .producing)
    (opens : Nat → Bool) (sighting : Sighting) :
    s.step (.turn i opens sighting) =
      if producer.Empty then some (s.getnext i producer opens)
      else (producer.useOwn sighting).map fun producer =>
        { s with producers := s.producers.set i producer } := by
  simp only [step, hi, Option.bind_eq_bind, Option.bind_some, hplc, ne_eq, not_true_eq_false,
    if_false]

theorem step_resume_updating (hi : s.producers[i]? = some producer) (hplc : producer.place = .updating) :
    s.step (.resume i) =
      if s.rin.Exhausted ∧ s.rin.prepterm = 0 then some s
      else some { s with producers := s.producers.set i { producer with place := .producing } } := by
  simp only [step, hi, Option.bind_eq_bind, Option.bind_some, hplc]

theorem step_resume_terminating {diddec : Bool} (hi : s.producers[i]? = some producer)
    (hplc : producer.place = .terminating diddec) :
    s.step (.resume i) = some { s with
      rin := (waitforterm s.rin diddec).1
      producers := s.producers.set i { producer with place := (waitforterm s.rin diddec).2 } } := by
  simp only [step, hi, Option.bind_eq_bind, Option.bind_some, hplc]

theorem Ending.of_not_waiting (h : s.Ending) (hs : s.Good clients) (hprep : s.rin.prepterm = 1)
    (hi : s.producers[i]? = some producer) (hplc : producer.place ≠ .terminating true) : s.Advances := by
  have hallow := hs.synced.places producer (List.mem_of_getElem? hi)
  have hex := hs.synced.exhausted (.inl (by omega))
  cases hp : producer.place with
  | producing =>
    have hstep := step_turn hi hp fun _ => true
    by_cases hemp : producer.Empty
    · have hnext : (s.rin.getnext fun _ => true).2 = .prepare := by
        rw [(hex.getnext _).2, if_pos (by omega)]
      have hlt : (producer.take .prepare).weight < producer.weight := by
        simp [Producer.take, Producer.weight, hp, Place.weight]
      have hstep := (hstep .entry).trans (if_pos hemp)
      refine h.of_turn hi hstep rfl (Resourceinput.getnext_prepterm _ _) ?_ hlt
      rw [← hnext]
      rfl
    · obtain ⟨sighting, producer', hown, -, hlt⟩ := Producer.useOwn_weight hemp
      have hstep := (hstep sighting).trans (if_neg hemp)
      rw [hown] at hstep
      exact h.of_turn hi hstep rfl rfl rfl hlt
  | updating =>
    have hlt : Producer.weight { producer with place := .producing } < producer.weight := by
      simp [Producer.weight, hp, Place.weight]
    have hstep := (step_resume_updating hi hp).trans (if_neg (by omega))
    exact h.of_turn hi hstep rfl rfl rfl hlt
  | terminating diddec =>
    obtain rfl : diddec = false := by
      cases diddec with
      | false => rfl
      | true => exact absurd hp hplc
    have hcnt : s.rin.clientcount ≠ 0 := by
      -- this client is not among those that show that they are waiting
      intro hzero
      have hwaiting := hs.synced.waiting (by omega)
      rw [hzero, Nat.zero_add, ← hs.synced.length] at hwaiting
      exact hplc (placed_eq_length.1 hwaiting producer (List.mem_of_getElem? hi))
    have hwait : waitforterm s.rin false =
        ({ s.rin with clientcount := s.rin.clientcount - 1 }, .terminating true) := by
      simp [waitforterm, hprep, hcnt]
    have hlt : Producer.weight { producer with place := .terminating true } < producer.weight := by
      simp [Producer.weight, hp, Place.weight]
    have hstep := step_resume_terminating hi hp
    rw [hwait] at hstep
    exact h.of_turn hi hstep rfl rfl rfl hlt
  | finished =>
    rw [hp, hprep] at hallow
    exact absurd hallow (by show ¬ 2 ≤ 1; omega)

theorem Ending.of_not_finished (h : s.Ending) (hs : s.Good clients) (hprep : s.rin.prepterm = 2)
    (hi : s.producers[i]? = some producer) (hplc : producer.place ≠ .finished) : s.Advances := by
  have hallow := hs.synced.places producer (List.mem_of_getElem? hi)
  obtain ⟨diddec, hp⟩ : ∃ diddec, producer.place = .terminating diddec :=
    ((hs.all_over (by omega)).drained producer (List.mem_of_getElem? hi)).2.resolve_left hplc
  have hwait : waitforterm s.rin diddec =
      ({ s.rin with clientcount := s.rin.clientcount + 1 }, .finished) := by
    simp [waitforterm, hprep]
  have hlt : Producer.weight { producer with place := .finished } < producer.weight := by
    cases diddec <;> simp [Producer.weight, hp, Place.weight]
  have hstep := step_resume_terminating hi hp
  rw [hwait] at hstep
  exact h.of_turn hi hstep rfl rfl rfl hlt

theorem Good.wake_waiting (hs : s.Good clients) (hmaster : s.master = .synchronizing origclientcount)
    (hall : ∀ producer ∈ s.producers, producer.place = .terminating true) : s.Advances := by
  have hprep : s.rin.prepterm = 1 := by
    have hphase := hs.synced.phase
    rw [hmaster] at hphase
    exact hphase.1
  have hcnt : s.rin.clientcount = 0 := by
    have := hs.synced.waiting (by omega)
    rw [placed_eq_length.2 hall, hs.synced.length] at this
    omega
  have hawait : awaitClients s.rin origclientcount =
      awaitExit { s.rin with prepterm := max s.rin.prepterm 2 } origclientcount :=
    if_neg fun h => h.2 hcnt
  have hstep : s.step .wake = some { s with
      rin := (awaitClients s.rin origclientcount).1
      master := (awaitClients s.rin origclientcount).2 } := by
    simp only [Inputs.step, hmaster]
  refine ⟨.wake, _, hstep, ?_⟩
  rw [hawait]
  unfold awaitExit
  split
  · refine .inr ⟨⟨origclientcount, .inr rfl⟩, ?_⟩
    simp [weight, hprep]
  · exact .inl rfl

theorem Good.wake_finished (hs : s.Good clients) (hmaster : s.master = .exiting origclientcount)
    (hall : ∀ producer ∈ s.producers, producer.place = .finished) : s.Advances := by
  obtain ⟨hprep, rfl⟩ : s.rin.prepterm = 2 ∧ origclientcount = clients := by
    have hphase := hs.synced.phase
    rw [hmaster] at hphase
    exact hphase
  have hcnt : s.rin.clientcount = origclientcount := by
    rw [hs.synced.exited (by omega), placed_eq_length.2 hall, hs.synced.length]
  have hawait : awaitExit s.rin origclientcount = ({ s.rin with prepterm := 3 }, .terminated) :=
    if_neg (by omega)
  have hstep : s.step .wake = some { s with
      rin := (awaitExit s.rin origclientcount).1, master := (awaitExit s.rin origclientcount).2 } := by
    simp only [Inputs.step, hmaster]
  rw [hawait] at hstep
  exact ⟨.wake, _, hstep, .inl rfl⟩

theorem exists_elsewhere {place : Place} (h : ¬ ∀ producer ∈ producers, producer.place = place) :
    ∃ (i : Nat) (producer : Producer), producers[i]? = some producer ∧ producer.place ≠ place := by
  obtain ⟨producer, hne⟩ := not_forall.1 h
  obtain ⟨hmem, hne⟩ := Classical.not_imp.1 hne
  obtain ⟨i, hi⟩ := List.mem_iff_getElem?.1 hmem
  exact ⟨i, producer, hi, hne⟩

/-- As long as the master waits in `resourceinput_term`, somebody can bring its end closer. -/
theorem Ending.advances (h : s.Ending) (hs : s.Good clients) : s.Advances := by
  have hphase := hs.synced.phase
  obtain ⟨origclientcount, hmaster | hmaster⟩ := id h
  · rw [hmaster] at hphase
    by_cases hall : ∀ producer ∈ s.producers, producer.place = .terminating true
    · exact hs.wake_waiting hmaster hall
    · obtain ⟨i, producer, hi, hplc⟩ := exists_elsewhere hall
      exact h.of_not_waiting hs hphase.1 hi hplc
  · rw [hmaster] at hphase
    by_cases hall : ∀ producer ∈ s.producers, producer.place = .finished
    · exact hs.wake_finished hmaster hall
    · obtain ⟨i, producer, hi, hplc⟩ := exists_elsewhere hall
      exact h.of_not_finished hs hphase.1 hi hplc

theorem Ending.ends (h : s.Ending) (hs : s.Good clients) : s.Ends := by
  induction hn : s.weight using Nat.strong_induction_on generalizing s with
  | _ n ih =>
    obtain ⟨action, s', hstep, hterm | ⟨hending, hlt⟩⟩ := h.advances hs
    · exact ⟨s', .single ⟨action, hstep⟩, hterm⟩
    · obtain ⟨s'', hrun, hterm⟩ := ih s'.weight (by omega) hending (hs.step hstep) rfl
      exact ⟨s'', .head ⟨action, hstep⟩ hrun, hterm⟩

/-! ## The resource input -/

/-- In every interleaving, each input is passed out exactly once, the end of the input is a barrier for
the producers, and the master can always get past it. -/
theorem reaches_barrier {refnodecount clients : Nat} (h : Reaches refnodecount clients s) :
    s.Consumed ∧ s.Barrier ∧ (s.Ending → s.Ends) :=
  ⟨h.good.consumed, h.good.barrier, fun hending => hending.ends h.good⟩

/-- Two producers share a range of three directories, one of which is missing.  One of them waits for
the termination, and wakes for no reason, while the other still scans. -/
def sampleActions : List Action :=
  let opens : Nat → Bool := fun index => index ≠ 1
  [.setrange 0 3, .turn 0 opens .entry, .turn 1 opens .entry, .turn 0 opens .stream,
    .turn 0 opens .streamEnd, .turn 0 opens .dirEnd, .waitforcomp, .term, .turn 0 opens .entry,
    .resume 0, .resume 0, .turn 1 opens .dirEnd, .wake, .turn 1 opens .entry, .resume 1, .wake,
    .resume 0, .resume 1, .wake]

theorem sampleActions_barrier : ∃ s, (init 3 2).run sampleActions = some s ∧
    (s.master, s.passed) =
      (.terminated, [⟨0, true, some 0⟩, ⟨1, false, none⟩, ⟨2, true, some 1⟩]) ∧
    s.Consumed ∧ s.Barrier ∧ (s.Ending → s.Ends) := by
  have hrun : ((init 3 2).run sampleActions).map (fun s => (s.master, s.passed)) =
      some (.terminated, [⟨0, true, some 0⟩, ⟨1, false, none⟩, ⟨2, true, some 1⟩]) := by decide
  obtain ⟨s, hrun, hend⟩ := Option.map_eq_some_iff.1 hrun
  have hreaches : Reaches 3 2 s := Reaches.init.run hrun
  exact ⟨s, hrun, hend, reaches_barrier hreaches⟩

end Inputs

end Marfs.Rman
