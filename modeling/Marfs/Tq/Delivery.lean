import Marfs.Tq.QueueSpec

/-!
# Work is delivered once

In every run the queue hands on what was put on it, in order and once, and a producer loses no package.
A consumer terminates when no producer is ready: as long as none is still to initialize then, all of them
have terminated and nothing remains on the queue.  A producer that initializes later is not waited for.
-/

namespace Marfs.Tq

open List

variable {α : Type}

/-! ## Terminations -/

def HasTerminated (tID : Nat) (events : List (Event α)) : Prop :=
  ∃ flags, Event.terminated tID flags ∈ events

/-- What holds when a thread terminates: a consumer does so when the queue is finished and empty, with
no producer left, and where there are consumers the last thread leaves an empty queue. -/
structure Terminates (tq : ThreadQueue α) (tID : Nat) (flags : ControlFlags)
    (past : List (Event α)) : Prop where
  consumer : tq.Consumer tID → flags.finished = true ∧ enqueuedWorks past = dequeuedWorks past ∧
    ∀ t, tq.Producer t → HasTerminated t past
  last : (∃ t, tq.Consumer t) →
    (∀ t, t ≠ tID → tq.Producer t ∨ tq.Consumer t → HasTerminated t past) →
    enqueuedWorks past = dequeuedWorks past

def Terminations (tq : ThreadQueue α) (events : List (Event α)) : Prop :=
  ∀ tID flags past, .terminated tID flags :: past <:+ events → Terminates tq tID flags past

variable {tq tq' : ThreadQueue α}

theorem Terminates.congr {tID : Nat} {flags : ControlFlags} {past : List (Event α)}
    (h : Terminates tq tID flags past) (hprod : tq'.prodPool = tq.prodPool)
    (hcons : tq'.consPool = tq.consPool) : Terminates tq' tID flags past := by
  have hproducer (t : Nat) : tq'.Producer t ↔ tq.Producer t := by
    rw [ThreadQueue.Producer, ThreadQueue.Producer, hprod]
  have hconsumer (t : Nat) : tq'.Consumer t ↔ tq.Consumer t := by
    rw [ThreadQueue.Consumer, ThreadQueue.Consumer, hcons]
  constructor
  · simp only [hconsumer, hproducer]
    exact h.consumer
  · simp only [hconsumer, hproducer]
    exact h.last

theorem Terminations.congr {events : List (Event α)} (h : Terminations tq events)
    (hprod : tq'.prodPool = tq.prodPool) (hcons : tq'.consPool = tq.consPool) : Terminations tq' events :=
  fun tID flags past hsuf => (h tID flags past hsuf).congr hprod hcons

theorem Terminations.cons {events : List (Event α)} {event : Event α} (h : Terminations tq events)
    (hevent : ∀ tID flags, event = .terminated tID flags → Terminates tq tID flags events) :
    Terminations tq (event :: events) := by
  intro tID flags past hsuf
  rcases List.suffix_cons_iff.1 hsuf with heq | hsuf
  · obtain ⟨rfl, rfl⟩ := List.cons.inj heq
    exact hevent tID flags rfl
  · exact h tID flags past hsuf

section Extend

variable {tID : Nat} {new events : List (Event α)}

theorem Terminations.extend {tq : ThreadQueue α} (h : Terminations tq events)
    (hnew : ∀ event ∈ new, event.Of tID) : Terminations tq (new ++ events) := by
  induction new with
  | nil => exact h
  | cons event new ih =>
    refine (ih fun e he => hnew e (mem_cons_of_mem _ he)).cons fun t flags heq => ?_
    have hof := hnew event mem_cons_self
    rw [heq] at hof
    exact hof.elim

theorem hasTerminated_extend (hnew : ∀ event ∈ new, event.Of tID) (t : Nat) :
    HasTerminated t (new ++ events) ↔ HasTerminated t events := by
  constructor
  · rintro ⟨flags, hmem⟩
    rcases List.mem_append.1 hmem with hmem | hmem
    · exact (hnew _ hmem).elim
    · exact ⟨flags, hmem⟩
  · rintro ⟨flags, hmem⟩
    exact ⟨flags, mem_append_right _ hmem⟩

theorem Kept.extend {t : Nat} {curWork : Option α} (h : Kept t curWork events)
    (hnew : ∀ event ∈ new, event.Of tID) (hne : t ≠ tID) : Kept t curWork (new ++ events) := by
  have hprod : new.filterMap (Event.producedBy t) = [] := by
    refine List.filterMap_eq_nil_iff.2 fun event hmem => ?_
    have hof := hnew event hmem
    cases event with
    | produced i work =>
      have hi : i = tID := hof
      exact if_neg fun h => hne (h.symm.trans hi)
    | released i work => rfl
    | enqueued i work => rfl
    | dequeued i work => rfl
    | terminated i flags => rfl
  have hparted : new.filterMap (Event.partedBy t) = [] := by
    refine List.filterMap_eq_nil_iff.2 fun event hmem => ?_
    have hof := hnew event hmem
    cases event with
    | produced i work => rfl
    | released i work =>
      have hi : i = tID := hof
      exact if_neg fun h => hne (h.symm.trans hi)
    | enqueued i work =>
      obtain rfl : i = some tID := hof
      exact if_neg fun h => hne h.symm
    | dequeued i work => rfl
    | terminated i flags => rfl
  rw [Kept, produced, parted, filterMap_append, filterMap_append, hprod, hparted]
  exact h

end Extend

theorem tqThreadsTerminated_iff (tq : ThreadQueue α) : tqThreadsTerminated tq tq.prodPool = true ↔
    ∀ t, tq.Producer t → (tq.stateFlags t).ready = false := by
  unfold tqThreadsTerminated ThreadQueue.Producer WorkerPool.has
  cases tq.prodPool with
  | none => exact iff_of_true rfl nofun
  | some pool =>
    simp only [all_eq_true, mem_range, Bool.not_eq_true', Bool.and_eq_true,
      decide_eq_true_eq]
    constructor
    · rintro h t ⟨hle, hlt⟩
      have hrdy := h (t - pool.startTID) (by omega)
      rwa [show pool.startTID + (t - pool.startTID) = t by omega] at hrdy
    · intro h k hk
      exact h _ ⟨by omega, by omega⟩

/-! ## The invariant -/

/-- What holds in every state of a run. -/
structure Steady (s : System α) : Prop where
  balanced : Balanced s.tq s.events
  kept : ∀ t, s.tq.Producer t → Kept t (s.threads t).curWork s.events
  idle : ∀ t, s.tq.Producer t → (s.threads t).point ≠ .waiting → (s.threads t).curWork = none
  ready : ∀ t, (s.tq.stateFlags t).ready = true ↔
    (s.threads t).point ≠ .starting ∧ (s.threads t).point ≠ .exited
  exited : ∀ t, (s.threads t).point = .exited ↔ HasTerminated t s.events
  terminations : Terminations s.tq s.events
  disjoint : ∀ t, s.tq.Producer t → ¬s.tq.Consumer t

def System.entry (s : System α) (tID : Nat) : Section α :=
  if (s.threads tID).point = .starting then (s.lock tID).ready tID else s.lock tID

section Entry

variable {s : System α} {tID : Nat}

theorem entry_curWork : (s.entry tID).curWork = (s.threads tID).curWork := by
  unfold System.entry
  split <;> rfl

theorem entry_events : (s.entry tID).events = s.events := by
  unfold System.entry
  split <;> rfl

theorem entry_sameRing : SameRing s.tq (s.entry tID).tq := by
  unfold System.entry
  split <;> exact ⟨rfl, rfl, rfl, rfl, rfl, rfl, rfl⟩

theorem entry_ready_of_ne {t : Nat} (h : t ≠ tID) :
    ((s.entry tID).tq.stateFlags t).ready = (s.tq.stateFlags t).ready := by
  unfold System.entry
  split
  · dsimp only [Section.ready, ThreadQueue.mark, System.lock]
    rw [if_neg h]
  · rfl

theorem entry_ready (h : Steady s) (hpt : (s.threads tID).point ≠ .exited) :
    ((s.entry tID).tq.stateFlags tID).ready = true := by
  unfold System.entry
  split
  · dsimp only [Section.ready, ThreadQueue.mark, System.lock]
    rw [if_pos rfl]
  · next hstarted => exact (h.ready tID).2 ⟨hstarted, hpt⟩

theorem unlock_threads {result : Section α × Point} (holds : Nat → Thread α → Prop)
    (hself : holds tID ⟨result.2, result.1.curWork⟩) (hoths : ∀ t, t ≠ tID → holds t (s.threads t))
    (t : Nat) : holds t ((s.unlock tID result).threads t) := by
  dsimp only [System.unlock]
  by_cases hoth : t = tID
  · subst hoth
    rw [if_pos rfl]
    exact hself
  · rw [if_neg hoth]
    exact hoths t hoth

end Entry

namespace Steady

variable {s : System α} {tID : Nat} {s' : Section α} {produces : Prop}

structure Moved (s : System α) (tID : Nat) (s' : Section α) : Prop where
  balanced : Balanced s'.tq s'.events
  kept : ∀ t, s.tq.Producer t → t ≠ tID → Kept t (s.threads t).curWork s'.events
  own : s.tq.Producer tID → Kept tID s'.curWork s'.events
  hasTerminated : ∀ t, HasTerminated t s'.events ↔ HasTerminated t s.events
  terminations : Terminations s'.tq s'.events
  prodPool : s'.tq.prodPool = s.tq.prodPool
  consPool : s'.tq.consPool = s.tq.consPool
  ready : ∀ t, t ≠ tID → (s'.tq.stateFlags t).ready = (s.tq.stateFlags t).ready
  ready_self : (s'.tq.stateFlags tID).ready = true

theorem moved (h : Steady s) (hpt : (s.threads tID).point ≠ .exited)
    (hmoves : Moves produces tID (s.entry tID) s') (hproduces : s.tq.Producer tID → produces) :
    Moved s tID s' := by
  have hring : SameRing s.tq (s.entry tID).tq := entry_sameRing
  have hprod : s'.tq.prodPool = s.tq.prodPool := hmoves.prodPool.trans hring.prodPool
  have hcons : s'.tq.consPool = s.tq.consPool := hmoves.consPool.trans hring.consPool
  have hbalanced : Balanced (s.entry tID).tq (s.entry tID).events := by
    rw [entry_events]
    exact h.balanced.congr hring rfl rfl
  obtain ⟨new, heq, hnew⟩ := hmoves.extend
  rw [entry_events] at heq
  refine ⟨hmoves.balanced hbalanced, fun t ht hne => ?_, fun hp => ?_, fun t => ?_, ?_, hprod, hcons,
    fun t hne => ?_, ?_⟩
  · rw [heq]
    exact (h.kept t ht).extend hnew hne
  · refine hmoves.kept (hproduces hp) ?_
    rw [entry_curWork, entry_events]
    exact h.kept tID hp
  · rw [heq]
    exact hasTerminated_extend hnew t
  · rw [heq]
    exact (h.terminations.extend hnew).congr hprod hcons
  · rw [hmoves.ready, entry_ready_of_ne hne]
  · rw [hmoves.ready, entry_ready h hpt]

theorem goes (h : Steady s) (hpt : (s.threads tID).point ≠ .exited) (hmov : Moved s tID s') {point : Point}
    (hidle : s.tq.Producer tID → point ≠ .waiting → s'.curWork = none) (hst : point ≠ .starting)
    (hexit : point ≠ .exited) : Steady (s.unlock tID (s', point)) := by
  have hprod (t : Nat) : s'.tq.Producer t ↔ s.tq.Producer t := by
    rw [ThreadQueue.Producer, ThreadQueue.Producer, hmov.prodPool]
  have hcons (t : Nat) : s'.tq.Consumer t ↔ s.tq.Consumer t := by
    rw [ThreadQueue.Consumer, ThreadQueue.Consumer, hmov.consPool]
  refine ⟨hmov.balanced, ?_, ?_, ?_, ?_, hmov.terminations, fun t ht hc => ?_⟩
  · apply unlock_threads fun t thread => s'.tq.Producer t → Kept t thread.curWork s'.events
    · exact fun hp => hmov.own ((hprod tID).1 hp)
    · exact fun t hne hp => hmov.kept t ((hprod t).1 hp) hne
  · apply unlock_threads fun t thread => s'.tq.Producer t → thread.point ≠ .waiting → thread.curWork = none
    · exact fun hp => hidle ((hprod tID).1 hp)
    · exact fun t _ hp => h.idle t ((hprod t).1 hp)
  · apply unlock_threads fun t thread => (s'.tq.stateFlags t).ready = true ↔
      thread.point ≠ .starting ∧ thread.point ≠ .exited
    · exact iff_of_true hmov.ready_self ⟨hst, hexit⟩
    · intro t hne
      rw [hmov.ready t hne]
      exact h.ready t
  · apply unlock_threads fun t thread => thread.point = .exited ↔ HasTerminated t s'.events
    · rw [hmov.hasTerminated]
      exact iff_of_false hexit fun hterm => hpt ((h.exited tID).2 hterm)
    · intro t _
      rw [hmov.hasTerminated]
      exact h.exited t
  · exact h.disjoint t ((hprod t).1 ht) ((hcons t).1 hc)

theorem exits (h : Steady s) (hmov : Moved s tID s') (hidle : s.tq.Producer tID → s'.curWork = none)
    (hterminates : Terminates s.tq tID s'.tq.conFlags s'.events) :
    Steady (s.unlock tID (s'.generalThreadTermBehavior tID, .exited)) := by
  have hprod (t : Nat) : s'.tq.Producer t ↔ s.tq.Producer t := by
    rw [ThreadQueue.Producer, ThreadQueue.Producer, hmov.prodPool]
  have hcons (t : Nat) : s'.tq.Consumer t ↔ s.tq.Consumer t := by
    rw [ThreadQueue.Consumer, ThreadQueue.Consumer, hmov.consPool]
  have hterm (t : Nat) :
      HasTerminated t (.terminated tID s'.tq.conFlags :: s'.events) ↔
        t = tID ∨ HasTerminated t s.events := by
    rw [← hmov.hasTerminated]
    simp [HasTerminated, exists_or]
  refine ⟨hmov.balanced.congr ⟨rfl, rfl, rfl, rfl, rfl, rfl, rfl⟩ rfl rfl, ?_, ?_, ?_, ?_, ?_,
    fun t ht hc => ?_⟩
  · apply unlock_threads fun t thread => s'.tq.Producer t →
      Kept t thread.curWork (.terminated tID s'.tq.conFlags :: s'.events)
    · exact fun hp => hmov.own ((hprod tID).1 hp)
    · exact fun t hne hp => hmov.kept t ((hprod t).1 hp) hne
  · apply unlock_threads fun t thread => s'.tq.Producer t → thread.point ≠ .waiting → thread.curWork = none
    · exact fun hp _ => hidle ((hprod tID).1 hp)
    · exact fun t _ hp => h.idle t ((hprod t).1 hp)
  · apply unlock_threads fun t thread => ((s'.generalThreadTermBehavior tID).tq.stateFlags t).ready = true ↔
      thread.point ≠ .starting ∧ thread.point ≠ .exited
    all_goals dsimp only [Section.generalThreadTermBehavior, ThreadQueue.mark]
    · rw [if_pos rfl]
      exact iff_of_false nofun fun hpt => hpt.2 rfl
    · intro t hne
      rw [if_neg hne, hmov.ready t hne]
      exact h.ready t
  · apply unlock_threads fun t thread => thread.point = .exited ↔
      HasTerminated t (.terminated tID s'.tq.conFlags :: s'.events)
    · rw [hterm]
      exact iff_of_true rfl (.inl rfl)
    · intro t hne
      rw [hterm, or_iff_right hne]
      exact h.exited t
  · refine Terminations.cons (hmov.terminations.congr rfl rfl) fun t flags heq => ?_
    obtain ⟨rfl, rfl⟩ := Event.terminated.inj heq
    exact hterminates.congr hmov.prodPool hmov.consPool
  · exact h.disjoint t ((hprod t).1 ht) ((hcons t).1 hc)

variable {input : Input α} {result : Section α × Point}

theorem point_of_producer (hrun : (s.lock tID).producerThread tID input (s.threads tID).point = some result) :
    (s.threads tID).point ≠ .exited := by
  intro hexit
  rw [hexit] at hrun
  cases hrun

theorem point_of_consumer (hrun : (s.lock tID).consumerThread tID input (s.threads tID).point = some result) :
    (s.threads tID).point ≠ .exited := by
  intro hexit
  rw [hexit] at hrun
  cases hrun

theorem producer (h : Steady s) (hmember : s.tq.Producer tID)
    (hrun : (s.lock tID).producerThread tID input (s.threads tID).point = some result)
    (hno : result.1.tq.conFlags.abort = false) : Steady (s.unlock tID result) := by
  have hpt := point_of_producer hrun
  have hends : Section.Ends True tID Section.Packed Section.Emptied (s.entry tID) result :=
    Section.producerThread_ends hrun hno h.balanced (h.idle tID hmember)
  cases hends with
  | goes moves held starting exited =>
    have hmov := h.moved hpt moves fun _ => trivial
    exact h.goes hpt hmov (fun _ => held) starting exited
  | @exits s' moves ended =>
    have hmov := h.moved hpt moves fun _ => trivial
    refine h.exits hmov (fun _ => ended.1) ⟨fun hcons => absurd hcons (h.disjoint tID hmember), ?_⟩
    -- a consumer that has terminated would have waited for this producer
    rintro ⟨c, hc⟩ hoths
    exfalso
    have hne : c ≠ tID := by
      rintro rfl
      exact h.disjoint c hmember hc
    obtain ⟨flags, hmem⟩ := hoths c hne (.inr hc)
    obtain ⟨later, past, heq⟩ := append_of_mem hmem
    have hsuf : .terminated c flags :: past <:+ s'.events := ⟨later, heq.symm⟩
    have hc' : s'.tq.Consumer c := by
      rw [ThreadQueue.Consumer, hmov.consPool]
      exact hc
    have hp' : s'.tq.Producer tID := by
      rw [ThreadQueue.Producer, hmov.prodPool]
      exact hmember
    obtain ⟨-, -, hall⟩ := (hmov.terminations c flags past hsuf).consumer hc'
    obtain ⟨flags', hmem'⟩ := hall tID hp'
    refine hpt ((h.exited tID).2 ((hmov.hasTerminated tID).1 ⟨flags', ?_⟩))
    exact hsuf.subset (mem_cons_of_mem _ hmem')


end Steady

/-- A package is put on a queue that has space. -/
theorem tqEnqueue_accepted {ignoreFlags : ControlFlags} {workbuff : Option α}
    (hacc : tqEnqueue tq ignoreFlags workbuff = some (some tq')) (hle : tq.qdepth ≤ tq.maxQdepth) :
    tq.qdepth < tq.maxQdepth ∧ tq' = tq.store workbuff := by
  unfold tqEnqueue at hacc
  split at hacc
  · cases hacc
  · next hwait =>
    split at hacc
    · cases hacc
    · next hflags =>
      have hfull : tq.qdepth ≠ tq.maxQdepth := fun hfull => hwait ⟨hfull, by simpa using hflags⟩
      exact ⟨lt_of_le_of_ne hle hfull, (Option.some.inj (Option.some.inj hacc)).symm⟩

/-- A package is taken off a queue that is not empty. -/
theorem tqDequeue_removed {ignoreFlags : ControlFlags} {work : Option α}
    (hremoved : tqDequeue tq ignoreFlags = some (some (work, tq'))) :
    tq.qdepth ≠ 0 ∧ tq.first = work ∧ tq.advance = tq' := by
  unfold tqDequeue at hremoved
  split at hremoved
  · cases hremoved
  · split at hremoved
    · cases hremoved
    · split at hremoved
      · cases hremoved
      · next hpos => exact ⟨hpos, Prod.mk.inj (Option.some.inj (Option.some.inj hremoved))⟩

/-- A consumer gets to its test while the queue is finished and empty, and no producer is ready though
one has yet to initialize. -/
def System.Premature (s : System α) : Action α → Prop
  | .consumer tID input =>
    (s.tq.conFlags.finished = true ∨ ((s.threads tID).point = .working ∧ input.res = 1)) ∧
      s.tq.qdepth = 0 ∧ tqThreadsTerminated s.tq s.tq.prodPool = true ∧
      ∃ t, s.tq.Producer t ∧ (s.threads t).point = .starting
  | _ => False

namespace Steady

variable {s : System α} {tID : Nat}

theorem consumer (h : Steady s) {input : Input α} {result : Section α × Point} (hmem : s.tq.Consumer tID)
    (hwaits : ¬s.Premature (.consumer tID input))
    (hrun : (s.lock tID).consumerThread tID input (s.threads tID).point = some result)
    (hno : result.1.tq.conFlags.abort = false) : Steady (s.unlock tID result) := by
  have hpt := point_of_consumer hrun
  have hnot : ¬s.tq.Producer tID := fun hp => h.disjoint tID hp hmem
  have hends : Section.Ends False tID (fun _ _ => True) _ (s.entry tID) result :=
    Section.consumerThread_ends hrun hno
  cases hends with
  | goes moves held starting exited =>
    have hmov := h.moved hpt moves fun hp => hnot hp
    exact h.goes hpt hmov (fun hp => absurd hp hnot) starting exited
  | @exits s' moves ended =>
    obtain ⟨hdrained, hrests⟩ := ended
    have hmov := h.moved hpt moves fun hp => hnot hp
    have hunready : ∀ t, s.tq.Producer t → (s.tq.stateFlags t).ready = false := by
      intro t ht
      have hne : t ≠ tID := by
        rintro rfl
        exact hnot ht
      have ht' : s'.tq.Producer t := by
        rw [ThreadQueue.Producer, hmov.prodPool]
        exact ht
      rw [← hmov.ready t hne]
      exact (tqThreadsTerminated_iff s'.tq).1 hdrained.terminated t ht'
    -- all producers that are not ready have terminated
    have hall : ∀ t, s.tq.Producer t → HasTerminated t s'.events := by
      intro t ht
      refine (hmov.hasTerminated t).2 ((h.exited t).1 ?_)
      by_contra hrunning
      have hst : (s.threads t).point = .starting := by
        by_contra hstarted
        have hrdy := (h.ready t).2 ⟨hstarted, hrunning⟩
        rw [hunready t ht] at hrdy
        cases hrdy
      exact hwaits ⟨hrests.finished hdrained.finished, hrests.qdepth.symm.trans hdrained.empty,
        (tqThreadsTerminated_iff s.tq).2 hunready, t, ht, hst⟩
    have hemp : enqueuedWorks s'.events = dequeuedWorks s'.events := by
      have hcont : s'.tq.contents = [] :=
        eq_nil_of_length_eq_zero (Balanced.contents_length.trans hdrained.empty)
      rw [hmov.balanced.order, hcont, List.append_nil]
    exact h.exits hmov (fun hp => absurd hp hnot)
      ⟨fun _ => ⟨hdrained.finished, hemp, hall⟩, fun _ _ => hemp⟩

theorem enqueue (h : Steady s) {ignoreFlags : ControlFlags} {workbuff : Option α} {tq : ThreadQueue α}
    (hacc : tqEnqueue s.tq ignoreFlags workbuff = some (some tq)) :
    Steady { s with tq := tq, events := .enqueued none workbuff :: s.events } := by
  obtain ⟨hlt, rfl⟩ := tqEnqueue_accepted hacc h.balanced.layout.depth_le
  refine ⟨h.balanced.store hlt none workbuff, fun t ht => ?_, h.idle, h.ready, fun t => ?_, ?_,
    h.disjoint⟩
  · exact h.kept t ht
  · rw [h.exited]
    simp [HasTerminated]
  · have hterminations : Terminations s.tq (.enqueued none workbuff :: s.events) :=
      h.terminations.cons fun _ _ heq => by cases heq
    exact hterminations.congr rfl rfl

theorem dequeue (h : Steady s) {ignoreFlags : ControlFlags} {work : Option α} {tq : ThreadQueue α}
    (hremoved : tqDequeue s.tq ignoreFlags = some (some (work, tq))) :
    Steady { s with tq := tq, events := .dequeued none work :: s.events } := by
  obtain ⟨hpos, rfl, rfl⟩ := tqDequeue_removed hremoved
  refine ⟨h.balanced.advance hpos none, fun t ht => ?_, h.idle, h.ready, fun t => ?_, ?_,
    h.disjoint⟩
  · exact h.kept t ht
  · rw [h.exited]
    simp [HasTerminated]
  · have hterminations : Terminations s.tq (.dequeued none s.tq.first :: s.events) :=
      h.terminations.cons fun _ _ heq => by cases heq
    exact hterminations.congr rfl rfl

theorem flags (h : Steady s) (flags : ControlFlags) :
    Steady { s with tq := { s.tq with conFlags := flags } } :=
  ⟨h.balanced.congr ⟨rfl, rfl, rfl, rfl, rfl, rfl, rfl⟩ rfl rfl, h.kept, h.idle, h.ready, h.exited,
    h.terminations.congr rfl rfl, h.disjoint⟩

theorem step (h : Steady s) {action : Action α} {s' : System α} (hwaits : ¬s.Premature action)
    (hstep : s.step action = some s') (hno : s'.tq.conFlags.abort = false) : Steady s' := by
  cases action with
  | producer tID input =>
    rw [System.step] at hstep
    split at hstep
    · next hmem =>
      obtain ⟨result, hrun, rfl⟩ := Option.map_eq_some_iff.1 hstep
      exact h.producer hmem hrun hno
    · cases hstep
  | consumer tID input =>
    rw [System.step] at hstep
    split at hstep
    · next hmem =>
      obtain ⟨result, hrun, rfl⟩ := Option.map_eq_some_iff.1 hstep
      exact h.consumer hmem hwaits hrun hno
    · cases hstep
  | enqueue ignoreFlags workbuff =>
    obtain ⟨result, hres, rfl⟩ := Option.map_eq_some_iff.1 hstep
    cases result with
    | none => exact h
    | some tq => exact h.enqueue hres
  | dequeue ignoreFlags =>
    obtain ⟨result, hres, rfl⟩ := Option.map_eq_some_iff.1 hstep
    cases result with
    | none => exact h
    | some result => exact h.dequeue hres
  | setFlags flags =>
    obtain rfl := Option.some.inj hstep
    exact h.flags _
  | unsetFlags flags =>
    obtain rfl := Option.some.inj hstep
    exact h.flags _

theorem start {initFlags : ControlFlags} {maxQdepth numThreads numProdThreads : Nat}
    {tq : ThreadQueue α} (hinit : tqInit α initFlags maxQdepth numThreads numProdThreads = some tq) :
    Steady (System.start tq) := by
  unfold tqInit at hinit
  split at hinit
  · cases hinit
  · next hargs =>
    obtain rfl := Option.some.inj hinit
    have hmax : 0 < maxQdepth := Nat.pos_of_ne_zero fun h => hargs (.inl h)
    refine ⟨⟨⟨hmax, Nat.zero_le _, (Nat.zero_mod _).symm⟩, length_replicate, rfl⟩,
      fun _ _ => .refl [], fun _ _ _ => rfl, fun t => ?_, fun t => ?_, fun tID flags past h => ?_,
      fun t hp hc => ?_⟩
    · exact iff_of_false nofun fun h => h.1 rfl
    · exact iff_of_false nofun nofun
    · cases List.suffix_nil.1 h
    · dsimp only [System.start, ThreadQueue.Producer, ThreadQueue.Consumer] at hp hc
      split at hp
      · split at hc
        · simp only [WorkerPool.has, Bool.and_eq_true, decide_eq_true_eq] at hp hc
          omega
        · cases hc
      · cases hp

end Steady

/-! ## The result -/

/-- The queue neither loses nor duplicates work. -/
structure Delivers (s : System α) : Prop where
  depth_le : s.tq.qdepth ≤ s.tq.maxQdepth
  tail_eq : s.tq.tail = (s.tq.head + s.tq.qdepth) % s.tq.maxQdepth
  /-- what was put on the queue was taken off, in order, but for what the queue contains -/
  order : enqueuedWorks s.events = dequeuedWorks s.events ++ s.tq.contents
  /-- what a producer has produced it has put on the queue, unless it was taken back or is with it -/
  kept : ∀ t, s.tq.Producer t →
    (produced t s.events).Perm ((s.threads t).curWork.toList ++ parted t s.events)
  /-- nothing is with a thread that has exited -/
  emptied : ∀ t, s.tq.Producer t → (s.threads t).point = .exited → (s.threads t).curWork = none
  exited : ∀ t, (s.threads t).point = .exited ↔ HasTerminated t s.events
  terminations : Terminations s.tq s.events

/-- In a run in which no consumer gets to its test prematurely, the queue neither loses nor duplicates
work. -/
theorem runs_delivers {initFlags : ControlFlags} {maxQdepth numThreads numProdThreads : Nat}
    (hinit : tqInit α initFlags maxQdepth numThreads numProdThreads = some tq) {s : System α}
    (hs : System.Runs (fun s action => ¬s.Premature action) (System.start tq) s) : Delivers s := by
  have hsteady : Steady s := by
    induction hs with
    | refl => exact Steady.start hinit
    | tail _ hlast ih =>
      obtain ⟨action, hwaits, hstep, hno⟩ := hlast
      exact ih.step hwaits hstep hno
  exact ⟨hsteady.balanced.layout.depth_le, hsteady.balanced.layout.tail_eq, hsteady.balanced.order,
    hsteady.kept, fun t ht hexited => hsteady.idle t ht (by rw [hexited]; exact nofun),
    hsteady.exited, hsteady.terminations⟩

def sampleInput (work : Option Nat) (res : Int) : Input Nat :=
  { init := 0, work := work, res := res, pause := { ok := true, leaves := true }
    resume := { ok := true, leaves := true } }

def sampleQueue : ThreadQueue Nat :=
  { conFlags := { halt := false, finished := false, abort := false }
    stateFlags := fun _ => { ready := false, error := false, halted := false }
    workpkg := [none], qdepth := 0, maxQdepth := 1, head := 0, tail := 0
    prodPool := some { startTID := 0, numThrds := 2 }
    consPool := some { startTID := 2, numThrds := 1 } }

theorem sampleQueue_init :
    tqInit Nat { halt := false, finished := false, abort := false } 1 3 2 = some sampleQueue := rfl

/-- The result for a package that a producer puts on the queue and a master takes off. -/
theorem sampleQueue_delivers : ∃ s : System Nat, s.events.length = 3 ∧ Delivers s := by
  have h0 : System.Runs (fun s action => ¬s.Premature action) (System.start sampleQueue)
      (System.start sampleQueue) := .refl
  have h1 := h0.tail ⟨.producer 0 (sampleInput none 0), id, rfl, rfl⟩
  have h2 := h1.tail ⟨.producer 0 (sampleInput (some 7) 0), id, rfl, rfl⟩
  have h3 := h2.tail ⟨.dequeue { halt := false, finished := false, abort := false }, id, rfl, rfl⟩
  exact ⟨_, rfl, runs_delivers sampleQueue_init h3⟩

/-- The first producer finishes the queue before the second has initialized; the consumer terminates,
and the package of the second stays on the queue. -/
theorem sampleQueue_late : ∃ s : System Nat,
    System.Runs (fun _ _ => True) (System.start sampleQueue) s ∧
      (∀ t < 3, (s.threads t).point = .exited) ∧ s.tq.contents = [some 8] ∧ ¬Delivers s := by
  have h0 : System.Runs (fun _ _ => True) (System.start sampleQueue)
      (System.start sampleQueue) := .refl
  have h1 := h0.tail ⟨.producer 0 (sampleInput none 0), trivial, rfl, rfl⟩
  have h2 := h1.tail ⟨.producer 0 (sampleInput (some 7) 1), trivial, rfl, rfl⟩
  have h3 := h2.tail ⟨.consumer 2 (sampleInput none 0), trivial, rfl, rfl⟩
  have h4 := h3.tail ⟨.consumer 2 (sampleInput none 0), trivial, rfl, rfl⟩
  have h5 := h4.tail ⟨.producer 1 (sampleInput none 0), trivial, rfl, rfl⟩
  have h6 := h5.tail ⟨.producer 1 (sampleInput (some 8) 0), trivial, rfl, rfl⟩
  refine ⟨_, h6, ?_, rfl, fun h => ?_⟩
  · intro t ht
    match t, ht with
    | 0, _ => rfl
    | 1, _ => rfl
    | 2, _ => rfl
  · have hsuffix := h.terminations 2 { halt := false, finished := true, abort := false }
      [.dequeued (some 2) (some 7),
        .terminated 0 { halt := false, finished := true, abort := false },
        .enqueued (some 0) (some 7), .produced 0 7]
      ⟨[.terminated 1 { halt := false, finished := true, abort := false },
        .enqueued (some 1) (some 8), .produced 1 8], rfl⟩
    obtain ⟨-, -, hall⟩ := hsuffix.consumer rfl
    obtain ⟨flags, hmem⟩ := hall 1 rfl
    simp at hmem

end Marfs.Tq
