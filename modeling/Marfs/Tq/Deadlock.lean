import Marfs.Tq.Delivery
import Marfs.Tq.Pause

/-!
# Deadlock

A finished queue is to drain: its producers put what they have on the queue and exit, then its consumers
empty it and exit.  A producer that has to wait for space waits even when the queue is finished, so it
needs a consumer that takes work.  A halted consumer of a finished queue waits for the producers, and a
consumer that has exited does not come back: a full queue with a ready producer and no consumer of either
kind never drains (`deadlock_free_iff`).
-/

namespace Marfs.Tq

variable {α : Type}

/-! ## Waiting -/

def System.ProducerWaits (s : System α) (tID : Nat) : Prop :=
  match (s.threads tID).point with
  | .entering => s.tq.conFlags.halt = true ∧ ¬(s.tq.conFlags.abort = true ∨ s.tq.conFlags.finished = true)
  | .waiting =>
    (s.tq.qdepth = s.tq.maxQdepth ∨ (s.tq.conFlags.halt = true ∧ s.tq.conFlags.finished = false)) ∧
      s.tq.conFlags.abort = false
  | _ => False

def System.ConsumerWaits (s : System α) (tID : Nat) : Prop :=
  match (s.threads tID).point with
  | .waiting =>
    (s.tq.qdepth = 0 ∨ s.tq.conFlags.halt = true) ∧ s.tq.conFlags.abort = false ∧
      ¬(s.tq.conFlags.finished = true ∧ tqThreadsTerminated s.tq s.tq.prodPool = true)
  | _ => False

structure System.Deadlocked (s : System α) : Prop where
  finished : s.tq.conFlags.finished = true
  remains : ∃ t, s.tq.Worker t ∧ (s.threads t).point ≠ .exited
  producers : ∀ t, s.tq.Producer t → (s.threads t).point ≠ .exited → s.ProducerWaits t
  consumers : ∀ t, s.tq.Consumer t → (s.threads t).point ≠ .exited → s.ConsumerWaits t

structure System.Stuck (s : System α) : Prop where
  finished : s.tq.conFlags.finished = true
  full : s.tq.qdepth = s.tq.maxQdepth
  ready : ∃ t, s.tq.Producer t ∧ (s.tq.stateFlags t).ready = true
  blocked : s.tq.conFlags.halt = true ∨ ∀ t, s.tq.Consumer t → (s.threads t).point = .exited

/-! ## The threads of a run -/

/-- What holds in every state of a run: the threads that are ready are those that have initialized and
not exited. -/
structure Staffed (s : System α) : Prop where
  balanced : Balanced s.tq s.events
  idle : ∀ t, s.tq.Producer t → (s.threads t).point ≠ .waiting → (s.threads t).curWork = none
  ready : ∀ t, (s.tq.stateFlags t).ready = true ↔
    (s.threads t).point ≠ .starting ∧ (s.threads t).point ≠ .exited
  disjoint : ∀ t, s.tq.Producer t → ¬s.tq.Consumer t
  consumer : ∀ t, s.tq.Consumer t → (s.threads t).point ≠ .entering

namespace Staffed

variable {s : System α} {tID : Nat}

variable {result : Section α × Point}

theorem unlock (h : Staffed s) {produces : Prop} {goes : Section α → Point → Prop} {exits : Section α → Prop}
    (hpt : (s.threads tID).point ≠ .exited)
    (hends : Section.Ends produces tID goes exits (s.entry tID) result)
    (hidle : s.tq.Producer tID → result.2 ≠ .waiting → result.1.curWork = none)
    (hconsumer : s.tq.Consumer tID → result.2 ≠ .entering) : Staffed (s.unlock tID result) := by
  have hring : SameRing s.tq (s.entry tID).tq := entry_sameRing
  have hbalanced : Balanced (s.entry tID).tq (s.entry tID).events := by
    rw [entry_events]
    exact h.balanced.congr hring rfl rfl
  have hself : ((s.entry tID).tq.stateFlags tID).ready = true := by
    unfold System.entry
    split
    · dsimp only [Section.ready, ThreadQueue.mark, System.lock]
      rw [if_pos rfl]
    · next hstarted => exact (h.ready tID).2 ⟨hstarted, hpt⟩
  -- what does not depend on how the section ends
  have hrest : ∀ {s' : Section α} {point : Point}, Moves produces tID (s.entry tID) s' →
      result = (s', point) ∨ result = (s'.generalThreadTermBehavior tID, point) →
      (∀ t, (result.1.tq.stateFlags t).ready = true ↔
        ((s.unlock tID result).threads t).point ≠ .starting ∧
          ((s.unlock tID result).threads t).point ≠ .exited) →
      Balanced result.1.tq result.1.events → Staffed (s.unlock tID result) := by
    intro s' point hmoves hres hrdy hbalanced'
    have hprod : result.1.tq.prodPool = s.tq.prodPool := by
      rcases hres with rfl | rfl
      · exact hmoves.prodPool.trans hring.prodPool
      · exact hmoves.prodPool.trans hring.prodPool
    have hcons : result.1.tq.consPool = s.tq.consPool := by
      rcases hres with rfl | rfl
      · exact hmoves.consPool.trans hring.consPool
      · exact hmoves.consPool.trans hring.consPool
    have hproducer (t : Nat) : (s.unlock tID result).tq.Producer t ↔ s.tq.Producer t := by
      dsimp only [System.unlock, ThreadQueue.Producer]
      rw [hprod]
    have hcons' (t : Nat) : (s.unlock tID result).tq.Consumer t ↔ s.tq.Consumer t := by
      dsimp only [System.unlock, ThreadQueue.Consumer]
      rw [hcons]
    refine ⟨hbalanced', ?_, hrdy, fun t ht hc => ?_, ?_⟩
    · apply unlock_threads fun t thread => (s.unlock tID result).tq.Producer t →
        thread.point ≠ .waiting → thread.curWork = none
      · exact fun ht => hidle ((hproducer tID).1 ht)
      · exact fun t _ ht => h.idle t ((hproducer t).1 ht)
    · exact h.disjoint t ((hproducer t).1 ht) ((hcons' t).1 hc)
    · apply unlock_threads fun t thread => (s.unlock tID result).tq.Consumer t → thread.point ≠ .entering
      · exact fun ht => hconsumer ((hcons' tID).1 ht)
      · exact fun t _ ht => h.consumer t ((hcons' t).1 ht)
  cases hends with
  | @goes s' point moves held starting exited =>
    refine hrest moves (Or.inl rfl) ?_ (moves.balanced hbalanced)
    apply unlock_threads fun t thread => (s'.tq.stateFlags t).ready = true ↔
      thread.point ≠ .starting ∧ thread.point ≠ .exited
    · rw [moves.ready]
      exact iff_of_true hself ⟨starting, exited⟩
    · intro t hne
      rw [moves.ready, entry_ready_of_ne hne]
      exact h.ready t
  | @exits s' moves ended =>
    refine hrest moves (Or.inr rfl) ?_
      ((moves.balanced hbalanced).congr ⟨rfl, rfl, rfl, rfl, rfl, rfl, rfl⟩ rfl rfl)
    apply unlock_threads fun t thread => ((s'.generalThreadTermBehavior tID).tq.stateFlags t).ready = true ↔
      thread.point ≠ .starting ∧ thread.point ≠ .exited
    all_goals dsimp only [Section.generalThreadTermBehavior, ThreadQueue.mark]
    · rw [if_pos rfl]
      exact iff_of_false nofun fun hboth => hboth.2 rfl
    · intro t hne
      rw [if_neg hne, moves.ready, entry_ready_of_ne hne]
      exact h.ready t

theorem consumer_point {input : Input α} {s : Section α} {point : Point}
    (hrun : s.consumerThread tID input point = some result) : result.2 ≠ .entering := by
  have hhold : ∀ pause (s : Section α), (s.holdConsumer tID pause).2 ≠ .entering := by
    intro pause s
    obtain ⟨-, ⟨hpt, -⟩ | ⟨-, hpt | ⟨hpt, -⟩⟩⟩ := Section.holdConsumer_cases tID pause s
    all_goals
      rw [hpt]
      exact nofun
  have hconsume : ∀ s : Section α, (s.consume tID).2 ≠ .entering := by
    intro s
    obtain ⟨-, -, hpt | ⟨hpt, -⟩⟩ := Section.consume_cases tID s
    all_goals
      rw [hpt]
      exact nofun
  cases point with
  | starting =>
    unfold Section.consumerThread at hrun
    dsimp only at hrun
    split at hrun
    · obtain rfl := Option.some.inj hrun
      exact nofun
    · obtain rfl := Option.some.inj hrun
      exact hhold _ _
  | working =>
    obtain rfl := Option.some.inj hrun
    exact hhold _ _
  | waiting =>
    unfold Section.consumerThread at hrun
    dsimp only at hrun
    split at hrun
    · obtain rfl := Option.some.inj hrun
      exact hhold _ _
    · obtain rfl := Option.some.inj hrun
      exact hconsume _
  | entering => cases hrun
  | exited => cases hrun

theorem step (h : Staffed s) {action : Action α} {s' : System α} (hstep : s.step action = some s')
    (hno : s'.tq.conFlags.abort = false) : Staffed s' := by
  cases action with
  | producer tID input =>
    rw [System.step] at hstep
    split at hstep
    · next hmem =>
      obtain ⟨result, hrun, rfl⟩ := Option.map_eq_some_iff.1 hstep
      have hends : Section.Ends True tID Section.Packed Section.Emptied (s.entry tID) result :=
        Section.producerThread_ends hrun hno h.balanced (h.idle tID hmem)
      refine h.unlock (Steady.point_of_producer hrun) hends (fun _ => ?_)
        fun hcons => absurd hcons (h.disjoint tID hmem)
      cases hends with
      | goes moves held starting exited => exact held
      | exits moves ended => exact fun _ => ended.1
    · cases hstep
  | consumer tID input =>
    rw [System.step] at hstep
    split at hstep
    · next hmem =>
      obtain ⟨result, hrun, rfl⟩ := Option.map_eq_some_iff.1 hstep
      have hends : Section.Ends False tID (fun _ _ => True) _ (s.entry tID) result :=
        Section.consumerThread_ends hrun hno
      exact h.unlock (Steady.point_of_consumer hrun) hends
        (fun hprod => absurd hmem (h.disjoint tID hprod)) fun _ => consumer_point hrun
    · cases hstep
  | enqueue ignoreFlags workbuff =>
    obtain ⟨result, hres, rfl⟩ := Option.map_eq_some_iff.1 hstep
    cases result with
    | none => exact h
    | some tq =>
      obtain ⟨hlt, rfl⟩ := tqEnqueue_accepted hres h.balanced.layout.depth_le
      exact ⟨h.balanced.store hlt none workbuff, h.idle, h.ready, h.disjoint, h.consumer⟩
  | dequeue ignoreFlags =>
    obtain ⟨result, hres, rfl⟩ := Option.map_eq_some_iff.1 hstep
    cases result with
    | none => exact h
    | some result =>
      obtain ⟨work, tq⟩ := result
      obtain ⟨hpos, rfl, rfl⟩ := tqDequeue_removed hres
      exact ⟨h.balanced.advance hpos none, h.idle, h.ready, h.disjoint, h.consumer⟩
  | setFlags flags =>
    obtain rfl := Option.some.inj hstep
    exact ⟨h.balanced.congr ⟨rfl, rfl, rfl, rfl, rfl, rfl, rfl⟩ rfl rfl, h.idle, h.ready, h.disjoint,
      h.consumer⟩
  | unsetFlags flags =>
    obtain rfl := Option.some.inj hstep
    exact ⟨h.balanced.congr ⟨rfl, rfl, rfl, rfl, rfl, rfl, rfl⟩ rfl rfl, h.idle, h.ready, h.disjoint,
      h.consumer⟩

end Staffed

variable {tq : ThreadQueue α} {initFlags : ControlFlags} {maxQdepth numThreads numProdThreads : Nat}
  {s : System α}

theorem Staffed.start (hinit : tqInit α initFlags maxQdepth numThreads numProdThreads = some tq) :
    Staffed (System.start tq) := by
  have h := Steady.start hinit
  exact ⟨h.balanced, h.idle, h.ready, h.disjoint, fun _ _ => nofun⟩

theorem Staffed.runs {s' : System α} {allowed : System α → Action α → Prop} (h : Staffed s)
    (hruns : System.Runs allowed s s') : Staffed s' := by
  induction hruns with
  | refl => exact h
  | tail _ hlast ih =>
    obtain ⟨action, -, hstep, hno⟩ := hlast
    exact ih.step hstep hno

theorem Staffed.stuck (h : Staffed s) (hdead : s.Deadlocked) : s.Stuck := by
  have hmax : 0 < s.tq.maxQdepth := h.balanced.layout.pos
  -- a producer that has not exited waits for space
  have hprod : ∀ t, s.tq.Producer t → (s.threads t).point ≠ .exited →
      (s.threads t).point = .waiting ∧ s.tq.qdepth = s.tq.maxQdepth := by
    intro t ht hpt
    have hwaits := hdead.producers t ht hpt
    unfold System.ProducerWaits at hwaits
    split at hwaits
    · exact absurd (Or.inr hdead.finished) hwaits.2
    · next heq =>
      refine ⟨heq, hwaits.1.resolve_right ?_⟩
      rintro ⟨-, hno⟩
      rw [hdead.finished] at hno
      cases hno
    · exact hwaits.elim
  -- a consumer that has not exited waits, and some producer is ready
  have hcons : ∀ t, s.tq.Consumer t → (s.threads t).point ≠ .exited →
      (s.tq.qdepth = 0 ∨ s.tq.conFlags.halt = true) ∧
        ∃ p, s.tq.Producer p ∧ (s.tq.stateFlags p).ready = true := by
    intro t ht hpt
    have hwaits := hdead.consumers t ht hpt
    unfold System.ConsumerWaits at hwaits
    split at hwaits
    · refine ⟨hwaits.1, ?_⟩
      by_contra hno
      refine hwaits.2.2 ⟨hdead.finished, (tqThreadsTerminated_iff s.tq).2 fun p hp => ?_⟩
      by_contra hrdy
      exact hno ⟨p, hp, by simpa using hrdy⟩
    · exact hwaits.elim
  have hrdy : ∃ p, s.tq.Producer p ∧ (s.tq.stateFlags p).ready = true := by
    obtain ⟨t, ht | ht, hpt⟩ := hdead.remains
    · refine ⟨t, ht, (h.ready t).2 ⟨?_, hpt⟩⟩
      rw [(hprod t ht hpt).1]
      exact nofun
    · exact (hcons t ht hpt).2
  obtain ⟨p, hp, hflag⟩ := hrdy
  have hfull := (hprod p hp ((h.ready p).1 hflag).2).2
  refine ⟨hdead.finished, hfull, ⟨p, hp, hflag⟩, ?_⟩
  by_contra hno
  obtain ⟨hhalt, hexit⟩ := not_or.1 hno
  refine hexit fun t ht => ?_
  by_contra hpt
  rcases (hcons t ht hpt).1 with hzero | hhalt'
  · rw [hzero] at hfull
    exact hmax.ne hfull
  · exact hhalt hhalt'

/-! ## How a stuck queue ends -/

/-- A function that does nothing. -/
def quietCallback : Callback := { ok := true, leaves := true }

/-- A thread that does nothing. -/
def quietInput (α : Type) : Input α :=
  { init := 0, work := none, res := 0, pause := quietCallback, resume := quietCallback }

structure Still (tq tq' : ThreadQueue α) : Prop where
  conFlags : tq'.conFlags = tq.conFlags
  qdepth : tq'.qdepth = tq.qdepth
  maxQdepth : tq'.maxQdepth = tq.maxQdepth
  prodPool : tq'.prodPool = tq.prodPool
  consPool : tq'.consPool = tq.consPool
  ready : ∀ t, (tq.stateFlags t).ready = true → (tq'.stateFlags t).ready = true

namespace Still

variable {tq tq' tq'' : ThreadQueue α}

theorem refl (tq : ThreadQueue α) : Still tq tq := ⟨rfl, rfl, rfl, rfl, rfl, fun _ => id⟩

theorem trans (h : Still tq tq') (h' : Still tq' tq'') : Still tq tq'' :=
  ⟨h'.conFlags.trans h.conFlags, h'.qdepth.trans h.qdepth, h'.maxQdepth.trans h.maxQdepth,
    h'.prodPool.trans h.prodPool, h'.consPool.trans h.consPool, fun t ht => h'.ready t (h.ready t ht)⟩

theorem mark (tq : ThreadQueue α) (tID : Nat) (f : StateFlags → StateFlags)
    (hf : ∀ flags : StateFlags, flags.ready = true → (f flags).ready = true) : Still tq (tq.mark tID f) := by
  refine ⟨rfl, rfl, rfl, rfl, rfl, fun t ht => ?_⟩
  dsimp only [ThreadQueue.mark]
  split
  · exact hf _ ht
  · exact ht

end Still

namespace Section

variable (tID : Nat)

theorem ready_still (s : Section α) : Still s.tq (s.ready tID).tq :=
  Still.mark s.tq tID (fun flags => { flags with ready := true }) fun _ _ => rfl

theorem call_quiet (s : Section α) : s.call tID quietCallback = s := by
  unfold call
  split
  · rfl
  · exact if_pos rfl

theorem pause_quiet (s : Section α) : ∃ s', Still s.tq s'.tq ∧
    s.generalThreadPauseBehavior tID quietCallback = (s', true) := by
  unfold generalThreadPauseBehavior
  rw [call_quiet]
  split
  · exact ⟨_, Still.mark s.tq tID (fun flags => { flags with halted := true }) fun _ => id, rfl⟩
  · exact ⟨s, Still.refl _, rfl⟩

theorem resume_quiet (s : Section α) : ∃ s', Still s.tq s'.tq ∧
    s.generalThreadResumeBehavior tID quietCallback = (s', true) := by
  unfold generalThreadResumeBehavior
  dsimp only
  rw [call_quiet]
  split
  · exact ⟨_, Still.mark s.tq tID (fun flags => { flags with halted := false }) fun _ => id, rfl⟩
  · exact ⟨s, Still.refl _, rfl⟩

variable {s : Section α}

theorem holdProducer_full (hfull : s.tq.qdepth = s.tq.maxQdepth) (habt : s.tq.conFlags.abort = false) :
    ∃ s', Still s.tq s'.tq ∧ s.holdProducer tID quietCallback = (s', .waiting) := by
  obtain ⟨s', hstill, heq⟩ := pause_quiet tID s
  refine ⟨s', hstill, ?_⟩
  unfold holdProducer
  dsimp only
  rw [if_pos ⟨Or.inl hfull, habt⟩, heq]

theorem holdConsumer_halted (hhalt : s.tq.conFlags.halt = true) (habt : s.tq.conFlags.abort = false)
    (hdone : s.done = false) :
    ∃ s', Still s.tq s'.tq ∧ s.holdConsumer tID quietCallback = (s', .waiting) := by
  obtain ⟨s', hstill, heq⟩ := pause_quiet tID s
  refine ⟨s', hstill, ?_⟩
  unfold holdConsumer
  dsimp only
  rw [if_pos ⟨Or.inr hhalt, habt, hdone⟩, heq]

theorem enterProducer_finished (hfin : s.tq.conFlags.finished = true) :
    s.enterProducer tID quietCallback = (s, .working) := by
  unfold enterProducer
  dsimp only
  rw [if_neg fun h => h.2 (Or.inr hfin)]

end Section

namespace System

variable {s s' s'' : System α} {tID : Nat}

def ThreadRuns : System α → System α → Prop := Runs fun _ action => action.OfThread

/-- Sections of one thread that leave the queue and the other threads. -/
structure Calm (tID : Nat) (s s' : System α) : Prop where
  runs : ThreadRuns s s'
  still : Still s.tq s'.tq
  others : ∀ t, t ≠ tID → s'.threads t = s.threads t

theorem Calm.refl (s : System α) : Calm tID s s := ⟨.refl, Still.refl _, fun _ _ => rfl⟩

theorem Calm.trans (h : Calm tID s s') (h' : Calm tID s' s'') : Calm tID s s'' :=
  ⟨h.runs.trans h'.runs, h.still.trans h'.still, fun t ht => (h'.others t ht).trans (h.others t ht)⟩

theorem unlock_point (result : Section α × Point) : ((s.unlock tID result).threads tID).point = result.2 := by
  dsimp only [unlock]
  rw [if_pos rfl]

variable {result : Section α × Point} {allowed : System α → Action α → Prop}

theorem Calm.producer (hmem : s.tq.Producer tID) (habt : s.tq.conFlags.abort = false)
    (hstill : Still s.tq result.1.tq)
    (hrun : (s.lock tID).producerThread tID (quietInput α) (s.threads tID).point = some result) :
    Calm tID s (s.unlock tID result) := by
  refine ⟨.single ⟨.producer tID (quietInput α), trivial, ?_, ?_⟩, hstill, fun t ht => if_neg ht⟩
  · rw [step, if_pos hmem, hrun]
    rfl
  · exact (congrArg ControlFlags.abort hstill.conFlags).trans habt

theorem Calm.consumer (hmem : s.tq.Consumer tID) (habt : s.tq.conFlags.abort = false)
    (hstill : Still s.tq result.1.tq)
    (hrun : (s.lock tID).consumerThread tID (quietInput α) (s.threads tID).point = some result) :
    Calm tID s (s.unlock tID result) := by
  refine ⟨.single ⟨.consumer tID (quietInput α), trivial, ?_, ?_⟩, hstill, fun t ht => if_neg ht⟩
  · rw [step, if_pos hmem, hrun]
    rfl
  · exact (congrArg ControlFlags.abort hstill.conFlags).trans habt

theorem settle_working (hmem : s.tq.Producer tID) (habt : s.tq.conFlags.abort = false)
    (hfull : s.tq.qdepth = s.tq.maxQdepth) (hpt : (s.threads tID).point = .working) :
    ∃ s', Calm tID s s' ∧ (s'.threads tID).point = .waiting := by
  have hgenerated : ({ s.lock tID with curWork := none } : Section α) =
      ((s.lock tID).generated tID none).generalThreadPostWorkBehavior tID 0 := rfl
  obtain ⟨s', hstill, heq⟩ := @Section.holdProducer_full α tID { s.lock tID with curWork := none }
    hfull habt
  refine ⟨s.unlock tID (s', .waiting), Calm.producer hmem habt hstill ?_, unlock_point _⟩
  rw [hpt, Section.producerThread, ← heq, hgenerated]
  rfl

theorem settle_producer (hmem : s.tq.Producer tID) (habt : s.tq.conFlags.abort = false)
    (hfin : s.tq.conFlags.finished = true) (hfull : s.tq.qdepth = s.tq.maxQdepth)
    (hpt : (s.threads tID).point ≠ .exited) : ∃ s', Calm tID s s' ∧ (s'.threads tID).point = .waiting := by
  -- what remains after it has come to its work function
  have hrest : ∀ s' : Section α, Still s.tq s'.tq →
      (s.lock tID).producerThread tID (quietInput α) (s.threads tID).point = some (s', .working) →
      ∃ s', Calm tID s s' ∧ (s'.threads tID).point = .waiting := by
    intro s' hstill hrun
    have hcalm := Calm.producer hmem habt hstill hrun
    have hmem' : (s.unlock tID (s', .working)).tq.Producer tID := by
      unfold ThreadQueue.Producer
      rw [hcalm.still.prodPool]
      exact hmem
    obtain ⟨s'', hcalm', hpt'⟩ := settle_working hmem'
      ((congrArg ControlFlags.abort hcalm.still.conFlags).trans habt)
      (hcalm.still.qdepth.trans (hfull.trans hcalm.still.maxQdepth.symm)) (unlock_point _)
    exact ⟨s'', hcalm.trans hcalm', hpt'⟩
  cases hp : (s.threads tID).point with
  | starting =>
    rw [hp] at hrest
    refine hrest ((s.lock tID).ready tID) (Section.ready_still tID (s.lock tID)) ?_
    rw [Section.producerThread, if_neg (by exact fun h => h rfl)]
    exact congrArg some (Section.enterProducer_finished tID hfin)
  | entering =>
    rw [hp] at hrest
    obtain ⟨s', hstill, heq⟩ := Section.resume_quiet tID (s.lock tID)
    refine hrest s' hstill ?_
    have hfin' : s'.tq.conFlags.finished = true :=
      (congrArg ControlFlags.finished hstill.conFlags).trans hfin
    rw [Section.producerThread, show (quietInput α).resume = quietCallback from rfl, heq]
    exact congrArg some (Section.enterProducer_finished tID hfin')
  | working => exact settle_working hmem habt hfull hp
  | waiting => exact ⟨s, Calm.refl s, hp⟩
  | exited => exact absurd hp hpt

theorem settle_consumer (hmem : s.tq.Consumer tID) (habt : s.tq.conFlags.abort = false)
    (hhalt : s.tq.conFlags.halt = true) (hrdy : ∃ t, s.tq.Producer t ∧ (s.tq.stateFlags t).ready = true)
    (hentering : (s.threads tID).point ≠ .entering) (hpoint : (s.threads tID).point ≠ .exited) :
    ∃ s', Calm tID s s' ∧ (s'.threads tID).point = .waiting := by
  obtain ⟨p, hp, hflag⟩ := hrdy
  -- what remains when it comes to its holding pattern
  have hhold : ∀ held : Section α, Still s.tq held.tq →
      (s.lock tID).consumerThread tID (quietInput α) (s.threads tID).point =
        some (held.holdConsumer tID quietCallback) →
      ∃ s', Calm tID s s' ∧ (s'.threads tID).point = .waiting := by
    intro held hstill hrun
    have hdone : held.done = false := by
      by_contra hno
      have hterm : tqThreadsTerminated held.tq held.tq.prodPool = true := by
        have hdone : held.done = true := by simpa using hno
        exact (Bool.and_eq_true_iff.1 hdone).2
      have hp' : held.tq.Producer p := by
        unfold ThreadQueue.Producer
        rw [hstill.prodPool]
        exact hp
      have hunready := (tqThreadsTerminated_iff held.tq).1 hterm p hp'
      rw [hstill.ready p hflag] at hunready
      cases hunready
    obtain ⟨s', hstill', heq⟩ := Section.holdConsumer_halted tID
      ((congrArg ControlFlags.halt hstill.conFlags).trans hhalt)
      ((congrArg ControlFlags.abort hstill.conFlags).trans habt) hdone
    rw [heq] at hrun
    exact ⟨_, Calm.consumer hmem habt (hstill.trans hstill') hrun, unlock_point _⟩
  cases hpt : (s.threads tID).point with
  | starting =>
    rw [hpt] at hhold
    refine hhold ((s.lock tID).ready tID) (Section.ready_still tID (s.lock tID)) ?_
    rw [Section.consumerThread, if_neg (by exact fun h => h rfl)]
    rfl
  | entering => exact absurd hpt hentering
  | working =>
    rw [hpt] at hhold
    exact hhold { s.lock tID with curWork := none } (Still.refl _) rfl
  | waiting => exact ⟨s, Calm.refl s, hpt⟩
  | exited => exact absurd hpt hpoint

structure Settling (s : System α) : Prop where
  stuck : s.Stuck
  abort : s.tq.conFlags.abort = false
  consumer : ∀ t, s.tq.Consumer t → (s.threads t).point ≠ .entering

theorem Calm.settling (h : Calm tID s s') (hs : Settling s) (hself : (s.threads tID).point ≠ .exited)
    (hpt : (s'.threads tID).point = .waiting) : Settling s' := by
  have hcons (t : Nat) : s'.tq.Consumer t ↔ s.tq.Consumer t := by
    unfold ThreadQueue.Consumer
    rw [h.still.consPool]
  obtain ⟨p, hp, hflag⟩ := hs.stuck.ready
  refine ⟨⟨?_, ?_, ⟨p, ?_, h.still.ready p hflag⟩, ?_⟩, ?_, fun t ht => ?_⟩
  · rw [h.still.conFlags]
    exact hs.stuck.finished
  · rw [h.still.qdepth, h.still.maxQdepth]
    exact hs.stuck.full
  · unfold ThreadQueue.Producer
    rw [h.still.prodPool]
    exact hp
  · refine hs.stuck.blocked.imp (fun hhalt => ?_) fun hexit t ht => ?_
    · rw [h.still.conFlags]
      exact hhalt
    · -- the thread that has settled is no consumer
      rw [hcons] at ht
      have hoth : t ≠ tID := by
        rintro rfl
        exact hself (hexit t ht)
      rw [h.others t hoth]
      exact hexit t ht
  · rw [h.still.conFlags]
    exact hs.abort
  · rw [hcons] at ht
    by_cases hoth : t = tID
    · rw [hoth, hpt]
      exact nofun
    · rw [h.others t hoth]
      exact hs.consumer t ht

theorem Settling.settle (hs : Settling s) (hworker : s.tq.Worker tID) :
    ∃ s', Calm tID s s' ∧ Settling s' ∧
      ((s'.threads tID).point = .waiting ∨ (s'.threads tID).point = .exited) := by
  by_cases hpt : (s.threads tID).point = .exited
  · exact ⟨s, Calm.refl s, hs, Or.inr hpt⟩
  · have hsettles : ∃ s', Calm tID s s' ∧ (s'.threads tID).point = .waiting := by
      rcases hworker with hprod | hcons
      · exact settle_producer hprod hs.abort hs.stuck.finished hs.stuck.full hpt
      · refine settle_consumer hcons hs.abort ?_ hs.stuck.ready (hs.consumer tID hcons) hpt
        exact hs.stuck.blocked.resolve_right fun hexit => hpt (hexit tID hcons)
    obtain ⟨s', hcalm, hwaits⟩ := hsettles
    exact ⟨s', hcalm, hcalm.settling hs hpt hwaits, Or.inl hwaits⟩

theorem Settling.settle_all (hs : Settling s) (n : Nat) :
    ∃ s', ThreadRuns s s' ∧ Settling s' ∧ Still s.tq s'.tq ∧
      ∀ t < n, s.tq.Worker t →
        (s'.threads t).point = .waiting ∨ (s'.threads t).point = .exited := by
  induction n with
  | zero => exact ⟨s, .refl, hs, Still.refl _, fun t ht => absurd ht t.not_lt_zero⟩
  | succ n ih =>
    obtain ⟨s₁, hruns, hs₁, hstill, hset⟩ := ih
    by_cases hworker : s.tq.Worker n
    · have hworker₁ : s₁.tq.Worker n := by
        unfold ThreadQueue.Worker ThreadQueue.Producer ThreadQueue.Consumer
        rw [hstill.prodPool, hstill.consPool]
        exact hworker
      obtain ⟨s₂, hcalm, hs₂, hpt⟩ := hs₁.settle hworker₁
      refine ⟨s₂, hruns.trans hcalm.runs, hs₂, hstill.trans hcalm.still, fun t ht hwt => ?_⟩
      rcases Nat.lt_succ_iff_lt_or_eq.1 ht with hlt | rfl
      · rw [hcalm.others t hlt.ne]
        exact hset t hlt hwt
      · exact hpt
    · refine ⟨s₁, hruns, hs₁, hstill, fun t ht hwt => ?_⟩
      rcases Nat.lt_succ_iff_lt_or_eq.1 ht with hlt | rfl
      · exact hset t hlt hwt
      · exact absurd hwt hworker

theorem Stuck.deadlocks (h : s.Stuck) (hstaffed : Staffed s) (habt : s.tq.conFlags.abort = false) {n : Nat}
    (hn : ∀ t, s.tq.Worker t → t < n) : ∃ s', ThreadRuns s s' ∧ s'.Deadlocked := by
  obtain ⟨s', hruns, hs', hstill, hset⟩ := Settling.settle_all ⟨h, habt, hstaffed.consumer⟩ n
  have hstaffed' := hstaffed.runs hruns
  have hworker (t : Nat) : s'.tq.Worker t ↔ s.tq.Worker t := by
    unfold ThreadQueue.Worker ThreadQueue.Producer ThreadQueue.Consumer
    rw [hstill.prodPool, hstill.consPool]
  have hwaiting : ∀ t, s'.tq.Worker t → (s'.threads t).point ≠ .exited →
      (s'.threads t).point = .waiting := by
    intro t ht hpt
    have ht' := (hworker t).1 ht
    exact (hset t (hn t ht') ht').resolve_right hpt
  obtain ⟨p, hp, hflag⟩ := hs'.stuck.ready
  have hrun := ((hstaffed'.ready p).1 hflag).2
  refine ⟨s', hruns, hs'.stuck.finished, ⟨p, Or.inl hp, hrun⟩, fun t ht hpt => ?_,
    fun t ht hpt => ?_⟩
  · unfold ProducerWaits
    rw [hwaiting t (Or.inl ht) hpt]
    exact ⟨Or.inl hs'.stuck.full, hs'.abort⟩
  · unfold ConsumerWaits
    rw [hwaiting t (Or.inr ht) hpt]
    refine ⟨Or.inr ?_, hs'.abort, ?_⟩
    · exact hs'.stuck.blocked.resolve_right fun hexit => hpt (hexit t ht)
    · rintro ⟨-, hterm⟩
      rw [(tqThreadsTerminated_iff s'.tq).1 hterm p hp] at hflag
      cases hflag

theorem Runs.mono {allowed' : System α → Action α → Prop}
    (h : ∀ s action, allowed s action → allowed' s action) (hruns : Runs allowed s s') :
    Runs allowed' s s' := by
  induction hruns with
  | refl => exact .refl
  | @tail s s' _ hlast ih =>
    obtain ⟨action, hallow, hstep⟩ := hlast
    exact ih.tail ⟨action, h s action hallow, hstep⟩

theorem Runs.abort (h : s.tq.conFlags.abort = false) (hruns : Runs allowed s s') :
    s'.tq.conFlags.abort = false := by
  cases hruns with
  | refl => exact h
  | tail _ hlast =>
    obtain ⟨action, -, -, hno⟩ := hlast
    exact hno

theorem Runs.pools (hruns : Runs allowed s s') :
    s'.tq.prodPool = s.tq.prodPool ∧ s'.tq.consPool = s.tq.consPool := by
  induction hruns with
  | refl => exact ⟨rfl, rfl⟩
  | tail _ hlast ih =>
    obtain ⟨action, -, hstep, -⟩ := hlast
    have hflagged := step_flagged hstep
    exact ⟨hflagged.prodPool.trans ih.1, hflagged.consPool.trans ih.2⟩

end System

/-! ## The result -/

/-- Whatever a master may do, no deadlock can be reached if and only if the queue cannot get stuck. -/
theorem deadlock_free_iff (hinit : tqInit α initFlags maxQdepth numThreads numProdThreads = some tq)
    (habort : initFlags.abort = false) (master : System α → Action α → Prop) :
    (∀ s, System.Runs (fun s action => action.OfThread ∨ master s action) (System.start tq) s →
        ¬s.Deadlocked) ↔
      ∀ s, System.Runs (fun s action => action.OfThread ∨ master s action) (System.start tq) s →
        ¬s.Stuck := by
  constructor
  · intro hfree s hruns hstuck
    have hstart : (System.start tq).tq.conFlags.abort = false := by
      unfold tqInit at hinit
      split at hinit
      · cases hinit
      · obtain rfl := Option.some.inj hinit
        exact habort
    have hworker : ∀ t, s.tq.Worker t → t < tq.numThreads := by
      intro t ht
      refine worker_lt hinit ?_
      unfold ThreadQueue.Worker ThreadQueue.Producer ThreadQueue.Consumer at ht ⊢
      rwa [hruns.pools.1, hruns.pools.2] at ht
    obtain ⟨s', hruns', hdead⟩ :=
      hstuck.deadlocks ((Staffed.start hinit).runs hruns) (hruns.abort hstart) hworker
    exact hfree s' (hruns.trans (hruns'.mono fun _ _ => Or.inl)) hdead
  · intro hfree s hruns hdead
    exact hfree s hruns (((Staffed.start hinit).runs hruns).stuck hdead)

def pairQueue : ThreadQueue Unit :=
  { conFlags := { halt := false, finished := false, abort := false }
    stateFlags := fun _ => { ready := false, error := false, halted := false }
    workpkg := [none], qdepth := 0, maxQdepth := 1, head := 0, tail := 0
    prodPool := some { startTID := 0, numThrds := 1 }
    consPool := some { startTID := 1, numThrds := 1 } }

theorem pairQueue_init :
    tqInit Unit { halt := false, finished := false, abort := false } 1 2 1 = some pairQueue := rfl

/-- The result for a master that does nothing but finish the queue. -/
theorem pairQueue_iff :
    (∀ s, System.Runs (fun _ action => action.OfThread ∨ action = .setFlags onlyFinished)
        (System.start pairQueue) s → ¬s.Deadlocked) ↔
      ∀ s, System.Runs (fun _ action => action.OfThread ∨ action = .setFlags onlyFinished)
        (System.start pairQueue) s → ¬s.Stuck :=
  deadlock_free_iff pairQueue_init rfl fun _ action => action = .setFlags onlyFinished

/-- The producer of a full queue waits, with the consumer halted; then the queue is finished. -/
theorem pairQueue_deadlocked : ∃ s : System Unit,
    System.Runs (fun _ action => action.OfThread ∨ ∃ flags, action = .setFlags flags)
      (System.start pairQueue) s ∧ s.Deadlocked := by
  have h0 : System.Runs (fun _ action => action.OfThread ∨ ∃ flags, action = .setFlags flags)
      (System.start pairQueue) (System.start pairQueue) := .refl
  have h1 := h0.tail ⟨.producer 0 packageInput, Or.inl trivial, rfl, rfl⟩
  have h2 := h1.tail ⟨.producer 0 packageInput, Or.inl trivial, rfl, rfl⟩
  have h3 := h2.tail ⟨.setFlags onlyHalt, Or.inr ⟨_, rfl⟩, rfl, rfl⟩
  have h4 := h3.tail ⟨.producer 0 packageInput, Or.inl trivial, rfl, rfl⟩
  have h5 := h4.tail ⟨.consumer 1 packageInput, Or.inl trivial, rfl, rfl⟩
  have h6 := h5.tail ⟨.setFlags onlyFinished, Or.inr ⟨_, rfl⟩, rfl, rfl⟩
  refine ⟨_, h6, rfl, ⟨0, Or.inl rfl, nofun⟩, fun t ht _ => ?_, fun t ht _ => ?_⟩
  · obtain rfl : t = 0 := by
      have ht' : (0 ≤ t && t < 0 + 1) = true := ht
      simp at ht'
      exact ht'
    exact ⟨Or.inl rfl, rfl⟩
  · obtain rfl : t = 1 := by
      have ht' : (1 ≤ t && t < 1 + 1) = true := ht
      simp at ht'
      omega
    exact ⟨Or.inr rfl, rfl, fun h => Bool.false_ne_true h.2⟩

end Marfs.Tq
