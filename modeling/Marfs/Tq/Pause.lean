import Marfs.Tq.Queue

/-!
# Pausing

A master halts the queue and waits until each thread has its `HALTED` flag.  The flag is cleared by the
thread itself, and only when it wakes and the queue is no longer halted: a thread that starts to work
while the queue is halted, because the queue is finished or aborted, still has it.  As long as this does
not happen, a thread with the flag does not work, and its resume function is called before it works
again (`waited_paused`).
-/

namespace Marfs.Tq

variable {α : Type}

/-! ## Waiting for a pause -/

inductive PauseWait where
  | blocked (thread : Nat)
  | returned (res : Int)
  deriving DecidableEq, Repr

def ThreadQueue.numThreads (tq : ThreadQueue α) : Nat :=
  (tq.prodPool.elim 0 (·.numThrds)) + (tq.consPool.elim 0 (·.numThrds))

def waitForThreads (tq : ThreadQueue α) : (remaining thread : Nat) → PauseWait
  | 0, _ => .returned 0
  | remaining + 1, thread =>
    let flags := tq.conFlags
    if (tq.stateFlags thread).halted = false ∧ ¬(flags.finished ∨ flags.abort) ∧ flags.halt then
      .blocked thread
    else if flags.halt = false then .returned (-1)
    else if flags.finished ∨ flags.abort then .returned (-1)
    else waitForThreads tq remaining (thread + 1)

def tqWaitForPause (tq : ThreadQueue α) : PauseWait :=
  let flags := tq.conFlags
  if flags.halt = false then .returned (-1)
  else if flags.finished ∨ flags.abort then .returned (-1)
  else waitForThreads tq tq.numThreads 0

/-- A queue with one master, and the thread the master waits for. -/
structure Controlled (α : Type) where
  sys : System α
  waiting : Option Nat

/-- A worker, or the master with another call, goes on; the master calls `tq_wait_for_pause`; it wakes. -/
inductive Move (α : Type) where
  | act (action : Action α)
  | wait
  | wake

def Action.OfThread : Action α → Prop
  | .producer _ _ => True
  | .consumer _ _ => True
  | _ => False

instance : DecidablePred (@Action.OfThread α)
  | .producer _ _ | .consumer _ _ => inferInstanceAs (Decidable True)
  | .enqueue _ _ | .dequeue _ | .setFlags _ | .unsetFlags _ => inferInstanceAs (Decidable False)

namespace Controlled

def master (c : Controlled α) : PauseWait → Controlled α × Option Int
  | .blocked thread => ({ c with waiting := some thread }, none)
  | .returned res => ({ c with waiting := none }, some res)

/-- One section, with what `tq_wait_for_pause` returns if it does.  While the master waits, only threads
act. -/
def step (c : Controlled α) : Move α → Option (Controlled α × Option Int)
  | .act action =>
    if c.waiting = none ∨ action.OfThread then
      (c.sys.step action).map fun sys => ({ c with sys := sys }, none)
    else none
  | .wait => if c.waiting = none then some (c.master (tqWaitForPause c.sys.tq)) else none
  | .wake => c.waiting.map fun thread =>
    c.master (waitForThreads c.sys.tq (c.sys.tq.numThreads - thread) thread)

def Runs (allowed : Controlled α → Move α → Controlled α → Prop) (init c : Controlled α) : Prop :=
  Relation.ReflTransGen (fun c c' => ∃ move res, c.step move = some (c', res) ∧ allowed c move c') init c

end Controlled

/-! ## What a section does to flags -/

def Section.halted (tID : Nat) (s : Section α) : Bool := (s.tq.stateFlags tID).halted

/-- What a part of a section leaves: the flags of other threads, the pools, and control flags that are
set. -/
structure Frame (tID : Nat) (s s' : Section α) : Prop where
  others : ∀ t, t ≠ tID → s'.tq.stateFlags t = s.tq.stateFlags t
  prodPool : s'.tq.prodPool = s.tq.prodPool
  consPool : s'.tq.consPool = s.tq.consPool
  halt : s.tq.conFlags.halt = true → s'.tq.conFlags.halt = true
  finished : s.tq.conFlags.finished = true → s'.tq.conFlags.finished = true
  abort : s.tq.conFlags.abort = true → s'.tq.conFlags.abort = true

namespace Frame

variable {tID : Nat} {s s' s'' : Section α}

theorem refl (s : Section α) : Frame tID s s := ⟨fun _ _ => rfl, rfl, rfl, id, id, id⟩

theorem trans (h : Frame tID s s') (h' : Frame tID s' s'') : Frame tID s s'' :=
  ⟨fun t ht => (h'.others t ht).trans (h.others t ht), h'.prodPool.trans h.prodPool,
    h'.consPool.trans h.consPool, fun hs => h'.halt (h.halt hs),
    fun hs => h'.finished (h.finished hs), fun hs => h'.abort (h.abort hs)⟩

/-- Only packages move. -/
theorem of_flags (hstate : s'.tq.stateFlags = s.tq.stateFlags) (hprod : s'.tq.prodPool = s.tq.prodPool)
    (hcons : s'.tq.consPool = s.tq.consPool) (hflags : s'.tq.conFlags = s.tq.conFlags) : Frame tID s s' := by
  refine ⟨fun t _ => by rw [hstate], hprod, hcons, ?_, ?_, ?_⟩ <;> rw [hflags] <;> exact id

theorem mark (s : Section α) (f : StateFlags → StateFlags) : Frame tID s { s with tq := s.tq.mark tID f } :=
  ⟨fun _ ht => if_neg ht, rfl, rfl, id, id, id⟩

end Frame

namespace Section

variable (tID : Nat)

theorem call_flags (callback : Callback) (s : Section α) : (s.call tID callback).tq = s.tq := by
  unfold call
  split
  · rfl
  · split <;> rfl

theorem call_frame (callback : Callback) (s : Section α) : Frame tID s (s.call tID callback) := by
  have h := call_flags tID callback s
  exact .of_flags (by rw [h]) (by rw [h]) (by rw [h]) (by rw [h])

theorem fail_frame (s : Section α) : Frame tID s (s.fail tID) :=
  ⟨fun _ ht => if_neg ht, rfl, rfl, id, id, fun _ => rfl⟩

theorem fail_halted (s : Section α) : (s.fail tID).halted tID = s.halted tID := by
  unfold halted fail ThreadQueue.mark
  dsimp only
  rw [if_pos rfl]

theorem pause_cases (pause : Callback) (s : Section α) :
    ∃ s', Frame tID s s' ∧
      ((s.generalThreadPauseBehavior tID pause = (s', true) ∧
          s'.halted tID = (s.halted tID || s.tq.conFlags.halt) ∧ s'.tq.conFlags = s.tq.conFlags) ∨
        (s.generalThreadPauseBehavior tID pause = (s', false) ∧ pause.ok = false ∧
          s'.halted tID = s.halted tID ∧ s'.tq.conFlags.abort = true)) := by
  have hcall := call_flags tID pause s
  unfold generalThreadPauseBehavior
  by_cases hhalt : s.tq.conFlags.halt = true
  · rw [if_pos hhalt]
    cases hok : pause.ok with
    | true =>
      refine ⟨_, (call_frame tID pause s).trans (Frame.mark _ _), Or.inl ⟨rfl, ?_, ?_⟩⟩
      · unfold halted ThreadQueue.mark
        simp [hhalt]
      · dsimp only [ThreadQueue.mark]
        rw [hcall]
    | false =>
      refine ⟨_, (call_frame tID pause s).trans (fail_frame tID _), Or.inr ⟨rfl, rfl, ?_, rfl⟩⟩
      rw [fail_halted tID, halted, hcall, halted]
  · rw [if_neg hhalt]
    refine ⟨s, Frame.refl s, Or.inl ⟨rfl, ?_, rfl⟩⟩
    simp [hhalt]

theorem resume_cases (resume : Callback) (s : Section α) :
    ∃ s', Frame tID s s' ∧ s'.halted tID = (s.halted tID && s.tq.conFlags.halt) ∧
      ((s.generalThreadResumeBehavior tID resume = (s', true) ∧ s'.tq.conFlags = s.tq.conFlags) ∨
        (s.generalThreadResumeBehavior tID resume = (s', false) ∧ s.tq.conFlags.halt = false ∧
          s'.tq.conFlags.abort = true)) := by
  unfold generalThreadResumeBehavior
  by_cases hhalted : (s.tq.stateFlags tID).halted = true ∧ s.tq.conFlags.halt = false
  · rw [if_pos hhalted]
    have hcall := call_flags tID resume
      { s with tq := s.tq.mark tID fun flags => { flags with halted := false } }
    have hmark : halted tID { s with tq := s.tq.mark tID fun flags => { flags with halted := false } } =
        false := by
      unfold halted ThreadQueue.mark
      simp
    have hframe := (Frame.mark s fun flags => { flags with halted := false }).trans
      (call_frame tID resume _)
    obtain ⟨-, hhalt⟩ := hhalted
    rw [hhalt, Bool.and_false]
    cases hok : resume.ok with
    | true =>
      refine ⟨_, hframe, ?_, Or.inl ⟨rfl, ?_⟩⟩
      · rw [halted, hcall]
        exact hmark
      · rw [hcall]
        rfl
    | false =>
      refine ⟨_, hframe.trans (fail_frame tID _), ?_, Or.inr ⟨rfl, rfl, rfl⟩⟩
      rw [fail_halted tID, halted, hcall]
      exact hmark
  · rw [if_neg hhalted]
    refine ⟨s, Frame.refl s, ?_, Or.inl ⟨rfl, rfl⟩⟩
    cases hflag : s.halted tID with
    | false => rfl
    | true =>
      have hhalt : s.tq.conFlags.halt = true := by
        by_contra hno
        exact hhalted ⟨hflag, by simpa using hno⟩
      rw [hhalt]
      rfl

theorem postWork_frame (workRes : Int) (s : Section α) :
    Frame tID s (s.generalThreadPostWorkBehavior tID workRes) ∧
      (s.generalThreadPostWorkBehavior tID workRes).halted tID = s.halted tID := by
  unfold generalThreadPostWorkBehavior
  dsimp only
  split_ifs
  · exact ⟨fail_frame tID s, fail_halted tID s⟩
  · exact ⟨Frame.refl s, rfl⟩
  · exact ⟨⟨fun _ _ => rfl, rfl, rfl, id, fun _ => rfl, id⟩, rfl⟩
  · exact ⟨Frame.refl s, rfl⟩
  · exact ⟨⟨fun _ _ => rfl, rfl, rfl, fun _ => rfl, id, id⟩, rfl⟩
  · exact ⟨Frame.refl s, rfl⟩

theorem term_frame (s : Section α) :
    Frame tID s (s.generalThreadTermBehavior tID) ∧
      (s.generalThreadTermBehavior tID).halted tID = s.halted tID := by
  refine ⟨(Frame.mark s _).trans (.of_flags rfl rfl rfl rfl), ?_⟩
  unfold halted generalThreadTermBehavior ThreadQueue.mark
  dsimp only
  rw [if_pos rfl]

theorem ready_frame (s : Section α) :
    Frame tID s (s.ready tID) ∧ (s.ready tID).halted tID = s.halted tID := by
  refine ⟨Frame.mark s _, ?_⟩
  unfold halted ready ThreadQueue.mark
  dsimp only
  rw [if_pos rfl]

theorem generated_frame (work : Option α) (s : Section α) :
    Frame tID s (s.generated tID work) ∧ (s.generated tID work).halted tID = s.halted tID := by
  cases work with
  | none => exact ⟨.of_flags rfl rfl rfl rfl, rfl⟩
  | some work => exact ⟨.of_flags rfl rfl rfl rfl, rfl⟩

/-! ### How a section ends -/

theorem produce_cases (s : Section α) :
    Frame tID s (s.produce tID).1 ∧ (s.produce tID).1.halted tID = s.halted tID ∧
      ((s.produce tID).2 = .exited ∨
        (s.produce tID).2 = .working ∧ s.tq.conFlags.abort = false ∧
          s.tq.conFlags.finished = false) := by
  have hstore : ∀ work, Frame tID s
      { tq := s.tq.store (some work), curWork := none, events := .enqueued (some tID) (some work) :: s.events } :=
    fun work => .of_flags rfl rfl rfl rfl
  unfold produce
  cases habt : s.tq.conFlags.abort with
  | true =>
    rw [if_pos rfl]
    obtain ⟨hframe, hhalt⟩ := term_frame tID s
    exact ⟨hframe, hhalt, Or.inl rfl⟩
  | false =>
    rw [if_neg Bool.false_ne_true]
    cases hwork : s.curWork with
    | none =>
      dsimp only
      cases hfin : s.tq.conFlags.finished with
      | true =>
        rw [if_pos rfl]
        obtain ⟨hframe, hhalt⟩ := term_frame tID s
        exact ⟨hframe, hhalt, Or.inl rfl⟩
      | false =>
        rw [if_neg Bool.false_ne_true]
        exact ⟨Frame.refl s, rfl, Or.inr ⟨rfl, rfl, rfl⟩⟩
    | some work =>
      dsimp only
      have hflags : (s.tq.store (some work)).conFlags.finished = s.tq.conFlags.finished := rfl
      rw [hflags]
      cases hfin : s.tq.conFlags.finished with
      | true =>
        rw [if_pos rfl]
        obtain ⟨hframe, hhalt⟩ := term_frame tID
          { tq := s.tq.store (some work), curWork := none,
            events := .enqueued (some tID) (some work) :: s.events }
        exact ⟨(hstore work).trans hframe, hhalt, Or.inl rfl⟩
      | false =>
        rw [if_neg Bool.false_ne_true]
        exact ⟨hstore work, rfl, Or.inr ⟨rfl, rfl, rfl⟩⟩

variable {s : Section α} {point : Point}

theorem produce_of_abort (h : s.tq.conFlags.abort = true) : (s.produce tID).2 = .exited := by
  rcases (produce_cases tID s).2.2 with hexit | ⟨-, hno, -⟩
  · exact hexit
  · rw [h] at hno
    cases hno

theorem consume_cases (s : Section α) :
    Frame tID s (s.consume tID).1 ∧ (s.consume tID).1.halted tID = s.halted tID ∧
      ((s.consume tID).2 = .exited ∨
        (s.consume tID).2 = .working ∧ s.tq.conFlags.abort = false ∧
          ¬(s.tq.qdepth = 0 ∧ s.done = true)) := by
  unfold consume
  split
  · obtain ⟨hframe, hhalt⟩ := term_frame tID s
    exact ⟨hframe, hhalt, Or.inl rfl⟩
  · next hgo =>
    refine ⟨.of_flags rfl rfl rfl rfl, rfl, Or.inr ⟨rfl, ?_, fun h => hgo (Or.inr h)⟩⟩
    simpa using fun h => hgo (Or.inl h)

theorem holdProducer_cases (pause : Callback) (s : Section α) :
    Frame tID s (s.holdProducer tID pause).1 ∧
      (((s.holdProducer tID pause).2 = .waiting ∧
          (s.holdProducer tID pause).1.halted tID = (s.halted tID || s.tq.conFlags.halt)) ∨
        (s.holdProducer tID pause).1.halted tID = s.halted tID ∧
          ((s.holdProducer tID pause).2 = .exited ∨
            (s.holdProducer tID pause).2 = .working ∧ s.tq.conFlags.halt = false)) := by
  unfold holdProducer
  dsimp only
  split
  · obtain ⟨s', hframe, ⟨heq, hhalted, -⟩ | ⟨heq, -, hhalted, habt⟩⟩ := pause_cases tID pause s
    · rw [heq]
      exact ⟨hframe, Or.inl ⟨rfl, hhalted⟩⟩
    · rw [heq]
      obtain ⟨hframe', hhalt', -⟩ := produce_cases tID s'
      exact ⟨hframe.trans hframe', Or.inr ⟨hhalt'.trans hhalted, Or.inl (produce_of_abort tID habt)⟩⟩
  · next hgo =>
    obtain ⟨hframe, hhalted, hpt⟩ := produce_cases tID s
    refine ⟨hframe, Or.inr ⟨hhalted, hpt.imp_right ?_⟩⟩
    rintro ⟨hwork, habt, hfin⟩
    refine ⟨hwork, ?_⟩
    by_contra hhalt
    exact hgo ⟨Or.inr ⟨by simpa using hhalt, hfin⟩, habt⟩

theorem holdConsumer_cases (pause : Callback) (s : Section α) :
    Frame tID s (s.holdConsumer tID pause).1 ∧
      (((s.holdConsumer tID pause).2 = .waiting ∧
          (s.holdConsumer tID pause).1.halted tID = (s.halted tID || s.tq.conFlags.halt)) ∨
        (s.holdConsumer tID pause).1.halted tID = s.halted tID ∧
          ((s.holdConsumer tID pause).2 = .exited ∨
            (s.holdConsumer tID pause).2 = .working ∧ (s.tq.conFlags.halt = true →
              s.tq.conFlags.abort = false ∧ s.done = true ∧ s.tq.qdepth ≠ 0))) := by
  unfold holdConsumer
  dsimp only
  split
  · obtain ⟨s', hframe, ⟨heq, hhalted, -⟩ | ⟨heq, -, hhalted, habt⟩⟩ := pause_cases tID pause s
    · rw [heq]
      exact ⟨hframe, Or.inl ⟨rfl, hhalted⟩⟩
    · rw [heq]
      obtain ⟨hframe', hhalt', hpt⟩ := consume_cases tID s'
      refine ⟨hframe.trans hframe', Or.inr ⟨hhalt'.trans hhalted, Or.inl ?_⟩⟩
      rcases hpt with hexit | ⟨-, hno, -⟩
      · exact hexit
      · rw [habt] at hno
        cases hno
  · next hgo =>
    obtain ⟨hframe, hhalted, hpt⟩ := consume_cases tID s
    refine ⟨hframe, Or.inr ⟨hhalted, hpt.imp_right ?_⟩⟩
    rintro ⟨hworking, habt, hwork⟩
    refine ⟨hworking, fun hhalt => ?_⟩
    have hdone : s.done = true := by
      by_contra hno
      exact hgo ⟨Or.inr hhalt, habt, by simpa using hno⟩
    exact ⟨habt, hdone, fun hzero => hwork ⟨hzero, hdone⟩⟩

/-- The check before the first package. -/
theorem enterProducer_cases (pause : Callback) (s : Section α) :
    Frame tID s (s.enterProducer tID pause).1 ∧
      (((s.enterProducer tID pause).2 = .entering ∧
          (s.enterProducer tID pause).1.halted tID = (s.halted tID || s.tq.conFlags.halt)) ∨
        (s.enterProducer tID pause).2 = .working ∧
          (s.enterProducer tID pause).1.halted tID = s.halted tID ∧
          (s.tq.conFlags.halt = true → s.tq.conFlags.finished = true ∨ s.tq.conFlags.abort = true ∨
            (pause.ok = false ∧ (s.enterProducer tID pause).1.tq.conFlags.abort = true))) := by
  unfold enterProducer
  dsimp only
  split
  · obtain ⟨s', hframe, ⟨heq, hhalted, -⟩ | ⟨heq, hok, hhalted, habt⟩⟩ :=
      pause_cases tID pause s
    · rw [heq]
      exact ⟨hframe, Or.inl ⟨rfl, hhalted⟩⟩
    · rw [heq]
      exact ⟨hframe, Or.inr ⟨rfl, hhalted, fun _ => Or.inr (Or.inr ⟨hok, habt⟩)⟩⟩
  · next hgo =>
    refine ⟨Frame.refl s, Or.inr ⟨rfl, rfl, fun hhalt => ?_⟩⟩
    by_contra hno
    refine hgo ⟨hhalt, ?_⟩
    rintro (habt | hfin)
    · exact hno (Or.inr (Or.inl habt))
    · exact hno (Or.inl hfin)

/-! ### A section of a thread -/

variable {tID}

/-- What a section of a thread does to its flag: it keeps it, unless it wakes and the queue is not halted;
if it goes on to work with the flag, then it had it before, and `worked` tells how. -/
structure Flagged (tID : Nat) (s : Section α) (point : Point) (result : Section α × Point)
    (worked : Prop) : Prop where
  frame : Frame tID s result.1
  started : result.2 ≠ .starting
  kept : s.halted tID = true → result.1.halted tID = true ∨
    ((point = .entering ∨ point = .waiting) ∧ s.tq.conFlags.halt = false)
  worked : result.2 = .working → result.1.halted tID = true →
    s.halted tID = true ∧ (point = .starting ∨ point = .working ∨ worked)

variable {s' : Section α} {input : Input α} {result : Section α × Point}

theorem kept_or_resumed (h : s.halted tID = true)
    (hwake : s'.halted tID = (s.halted tID && s.tq.conFlags.halt)) :
    s'.halted tID = true ∨ s.tq.conFlags.halt = false := by
  rw [hwake, h, Bool.true_and]
  cases s.tq.conFlags.halt with
  | true => exact Or.inl rfl
  | false => exact Or.inr rfl

theorem producerThread_flagged (hrun : s.producerThread tID input point = some result) :
    Flagged tID s point result (point = .entering ∧ s.tq.conFlags.halt = true ∧
      (s.tq.conFlags.finished = true ∨ s.tq.conFlags.abort = true ∨
        (input.pause.ok = false ∧ result.1.tq.conFlags.abort = true))) := by
  cases point with
  | starting =>
    unfold producerThread at hrun
    dsimp only at hrun
    split at hrun
    · obtain rfl := Option.some.inj hrun
      exact ⟨fail_frame tID s, nofun, fun h => Or.inl ((fail_halted tID s).trans h), nofun⟩
    · obtain rfl := Option.some.inj hrun
      obtain ⟨hrdy, hsame⟩ := ready_frame tID s
      obtain ⟨hframe, ⟨hpt, hhalted⟩ | ⟨hpt, hhalted, -⟩⟩ :=
        enterProducer_cases tID input.pause (s.ready tID)
      · refine ⟨hrdy.trans hframe, by rw [hpt]; exact nofun, fun h => Or.inl ?_, ?_⟩
        · rw [hhalted, hsame, h, Bool.true_or]
        · rw [hpt]
          exact nofun
      · refine ⟨hrdy.trans hframe, by rw [hpt]; exact nofun, fun h => Or.inl ?_, fun _ h => ?_⟩
        · rw [hhalted, hsame, h]
        · exact ⟨hsame.symm.trans (hhalted.symm.trans h), Or.inl rfl⟩
  | entering =>
    unfold producerThread at hrun
    obtain ⟨s', hframe, hwake, ⟨heq, hflags⟩ | ⟨heq, hresumed, habt⟩⟩ :=
      resume_cases tID input.resume s
    · rw [heq] at hrun
      obtain rfl := Option.some.inj hrun
      obtain ⟨hframe', ⟨hpt, hhalted⟩ | ⟨hpt, hhalted, hhalt⟩⟩ :=
        enterProducer_cases tID input.pause s'
      · refine ⟨hframe.trans hframe', by rw [hpt]; exact nofun, fun h => ?_, ?_⟩
        · refine (kept_or_resumed h hwake).imp (fun hkept => ?_) fun hno => ⟨Or.inl rfl, hno⟩
          rw [hhalted, hkept, Bool.true_or]
        · rw [hpt]
          exact nofun
      · refine ⟨hframe.trans hframe', by rw [hpt]; exact nofun, fun h => ?_, fun _ h => ?_⟩
        · exact (kept_or_resumed h hwake).imp hhalted.trans fun hno => ⟨Or.inl rfl, hno⟩
        · rw [hhalted, hwake, Bool.and_eq_true] at h
          rw [hflags] at hhalt
          exact ⟨h.1, Or.inr (Or.inr ⟨rfl, h.2, hhalt h.2⟩)⟩
    · rw [heq] at hrun
      obtain rfl := Option.some.inj hrun
      refine ⟨hframe, nofun, fun h => ?_, fun _ h => ?_⟩
      · exact (kept_or_resumed h hwake).imp_right fun hno => ⟨Or.inl rfl, hno⟩
      · rw [hwake, hresumed, Bool.and_false] at h
        cases h
  | working =>
    obtain rfl := Option.some.inj hrun
    obtain ⟨hgenerated, hsame⟩ := generated_frame tID input.work s
    obtain ⟨hpost, hsame'⟩ := postWork_frame tID input.res (s.generated tID input.work)
    obtain ⟨hframe, ⟨hpt, hhalted⟩ | ⟨hhalted, hpt⟩⟩ := holdProducer_cases tID input.pause
      ((s.generated tID input.work).generalThreadPostWorkBehavior tID input.res)
    · refine ⟨(hgenerated.trans hpost).trans hframe, by rw [hpt]; exact nofun, fun h => Or.inl ?_, ?_⟩
      · rw [hhalted, hsame', hsame, h, Bool.true_or]
      · rw [hpt]
        exact nofun
    · refine ⟨(hgenerated.trans hpost).trans hframe, ?_, fun h => Or.inl ?_, fun _ h => ?_⟩
      · rcases hpt with hexit | ⟨hwork, -⟩
        · rw [hexit]
          exact nofun
        · rw [hwork]
          exact nofun
      · rw [hhalted, hsame', hsame, h]
      · rw [hhalted, hsame', hsame] at h
        exact ⟨h, Or.inr (Or.inl rfl)⟩
  | waiting =>
    unfold producerThread at hrun
    obtain ⟨s', hframe, hwake, ⟨heq, hflags⟩ | ⟨heq, hresumed, habt⟩⟩ :=
      resume_cases tID input.resume s
    · rw [heq] at hrun
      obtain rfl := Option.some.inj hrun
      obtain ⟨hframe', ⟨hpt, hhalted⟩ | ⟨hhalted, hpt⟩⟩ :=
        holdProducer_cases tID input.pause s'
      · refine ⟨hframe.trans hframe', by rw [hpt]; exact nofun, fun h => ?_, ?_⟩
        · refine (kept_or_resumed h hwake).imp (fun hkept => ?_) fun hno => ⟨Or.inr rfl, hno⟩
          rw [hhalted, hkept, Bool.true_or]
        · rw [hpt]
          exact nofun
      · refine ⟨hframe.trans hframe', ?_, fun h => ?_, fun hwork h => ?_⟩
        · rcases hpt with hexit | ⟨hwork, -⟩
          · rw [hexit]
            exact nofun
          · rw [hwork]
            exact nofun
        · exact (kept_or_resumed h hwake).imp hhalted.trans fun hno => ⟨Or.inr rfl, hno⟩
        · -- the queue is not halted, so the flag is gone
          rcases hpt with hexit | ⟨-, hhalt⟩
          · rw [hexit] at hwork
            cases hwork
          · rw [hflags] at hhalt
            rw [hhalted, hwake, hhalt, Bool.and_false] at h
            cases h
    · rw [heq] at hrun
      obtain rfl := Option.some.inj hrun
      obtain ⟨hframe', hhalted, -⟩ := produce_cases tID s'
      have hexit := produce_of_abort tID habt
      refine ⟨hframe.trans hframe', by rw [hexit]; exact nofun, fun h => ?_, ?_⟩
      · exact (kept_or_resumed h hwake).imp hhalted.trans fun hno => ⟨Or.inr rfl, hno⟩
      · rw [hexit]
        exact nofun
  | exited => cases hrun

theorem holdConsumer_flagged {pause : Callback} {worked : Prop} (hframe : Frame tID s s')
    (hkept : s.halted tID = true → s'.halted tID = true ∨
      ((point = .entering ∨ point = .waiting) ∧ s.tq.conFlags.halt = false))
    (hworked : s'.halted tID = true → (s'.tq.conFlags.halt = true →
      s'.tq.conFlags.abort = false ∧ s'.done = true ∧ s'.tq.qdepth ≠ 0) →
        s.halted tID = true ∧ (point = .starting ∨ point = .working ∨ worked)) :
    Flagged tID s point (s'.holdConsumer tID pause) worked := by
  obtain ⟨hframe', ⟨hpt, hhalt⟩ | ⟨hhalt, hpt⟩⟩ := holdConsumer_cases tID pause s'
  · refine ⟨hframe.trans hframe', by rw [hpt]; exact nofun, fun h => ?_, ?_⟩
    · refine (hkept h).imp_left fun h' => ?_
      rw [hhalt, h', Bool.true_or]
    · rw [hpt]
      exact nofun
  · refine ⟨hframe.trans hframe', ?_, fun h => ?_, fun hworking h => ?_⟩
    · rcases hpt with hexit | ⟨hworking, -⟩
      · rw [hexit]
        exact nofun
      · rw [hworking]
        exact nofun
    · exact (hkept h).imp_left hhalt.trans
    · rw [hhalt] at h
      rcases hpt with hexit | ⟨-, hwork⟩
      · rw [hexit] at hworking
        cases hworking
      · exact hworked h hwork

theorem consumerThread_flagged (hrun : s.consumerThread tID input point = some result) :
    Flagged tID s point result (point = .waiting ∧ s.tq.conFlags.halt = true ∧
      s.tq.conFlags.abort = false ∧ s.done = true ∧ s.tq.qdepth ≠ 0) := by
  cases point with
  | starting =>
    unfold consumerThread at hrun
    dsimp only at hrun
    split at hrun
    · obtain rfl := Option.some.inj hrun
      exact ⟨fail_frame tID s, nofun, fun h => Or.inl ((fail_halted tID s).trans h), nofun⟩
    · obtain rfl := Option.some.inj hrun
      obtain ⟨hrdy, hsame⟩ := ready_frame tID s
      exact holdConsumer_flagged hrdy (fun h => Or.inl (hsame.trans h))
        fun h _ => ⟨hsame.symm.trans h, Or.inl rfl⟩
  | working =>
    obtain rfl := Option.some.inj hrun
    obtain ⟨hpost, hsame⟩ :=
      postWork_frame tID input.res ({ s with curWork := none } : Section α)
    have hclear : Frame tID s ({ s with curWork := none } : Section α) := .of_flags rfl rfl rfl rfl
    exact holdConsumer_flagged (hclear.trans hpost) (fun h => Or.inl (hsame.trans h))
      fun h _ => ⟨hsame.symm.trans h, Or.inr (Or.inl rfl)⟩
  | waiting =>
    unfold consumerThread at hrun
    by_cases hresume : s.halted tID = true ∧ s.tq.conFlags.halt = false
    · -- the flag is gone
      obtain ⟨s', hframe, hwake, ⟨heq, -⟩ | ⟨heq, -, habt⟩⟩ :=
        resume_cases tID input.resume s
      · rw [heq] at hrun
        obtain rfl := Option.some.inj hrun
        rw [hresume.2, Bool.and_false] at hwake
        refine holdConsumer_flagged hframe (fun _ => Or.inr ⟨Or.inr rfl, hresume.2⟩) fun h _ => ?_
        rw [hwake] at h
        cases h
      · rw [heq] at hrun
        obtain rfl := Option.some.inj hrun
        obtain ⟨hframe', -, hpt⟩ := consume_cases tID s'
        have hexit : (s'.consume tID).2 = .exited := by
          rcases hpt with hexit | ⟨-, hno, -⟩
          · exact hexit
          · rw [habt] at hno
            cases hno
        refine ⟨hframe.trans hframe', by rw [hexit]; exact nofun,
          fun _ => Or.inr ⟨Or.inr rfl, hresume.2⟩, ?_⟩
        rw [hexit]
        exact nofun
    · have heq : s.generalThreadResumeBehavior tID input.resume = (s, true) := if_neg hresume
      rw [heq] at hrun
      obtain rfl := Option.some.inj hrun
      refine holdConsumer_flagged (Frame.refl s) Or.inl fun h hwork => ?_
      have hhalt : s.tq.conFlags.halt = true := by
        by_contra hno
        exact hresume ⟨h, by simpa using hno⟩
      exact ⟨h, Or.inr (Or.inr ⟨rfl, hhalt, hwork hhalt⟩)⟩
  | entering => cases hrun
  | exited => cases hrun

end Section

/-! ## Steps -/

/-- A thread with its `HALTED` flag goes on to work while the queue is halted: a producer before its first
package, when the queue is finished or aborted or its pause function fails, or a consumer of a queue that
is finished and not empty, when no producer is ready. -/
def System.LeavesHalted (s : System α) : Action α → Prop
  | .producer tID input =>
    (s.tq.stateFlags tID).halted = true ∧ s.tq.conFlags.halt = true ∧
      (s.threads tID).point = .entering ∧
      (s.tq.conFlags.finished = true ∨ s.tq.conFlags.abort = true ∨ input.pause.ok = false)
  | .consumer tID _ =>
    (s.tq.stateFlags tID).halted = true ∧ s.tq.conFlags.halt = true ∧
      (s.threads tID).point = .waiting ∧ s.tq.conFlags.abort = false ∧
      s.tq.conFlags.finished = true ∧ tqThreadsTerminated s.tq s.tq.prodPool = true ∧
      s.tq.qdepth ≠ 0
  | _ => False

def System.Resumes (s : System α) (t : Nat) : Action α → Prop
  | .producer tID _ | .consumer tID _ =>
    tID = t ∧ (s.tq.stateFlags tID).halted = true ∧ s.tq.conFlags.halt = false ∧
      ((s.threads tID).point = .entering ∨ (s.threads tID).point = .waiting)
  | _ => False

structure StepFlagged (s : System α) (action : Action α) (s' : System α) : Prop where
  prodPool : s'.tq.prodPool = s.tq.prodPool
  consPool : s'.tq.consPool = s.tq.consPool
  halt : action.OfThread → s.tq.conFlags.halt = true → s'.tq.conFlags.halt = true
  kept : ∀ t, (s.tq.stateFlags t).halted = true →
    (s'.tq.stateFlags t).halted = true ∨ s.Resumes t action
  worked : ∀ t, (s'.threads t).point = .working → (s'.tq.stateFlags t).halted = true →
    (s.tq.stateFlags t).halted = true ∧
      ((s.threads t).point = .starting ∨ (s.threads t).point = .working ∨
        (s.LeavesHalted action ∧ (s.tq.conFlags.finished = true ∨ s.tq.conFlags.abort = true ∨
          s'.tq.conFlags.abort = true)))
  started : ∀ t, (s'.threads t).point = .starting →
    (s'.tq.stateFlags t).halted = (s.tq.stateFlags t).halted ∧ (s.threads t).point = .starting

section Step

variable {s s' : System α} {tID : Nat}

variable {action : Action α}

theorem StepFlagged.unlock {result : Section α × Point} {worked : Prop}
    (h : Section.Flagged tID (s.lock tID) (s.threads tID).point result worked)
    (hresume : (s.tq.stateFlags tID).halted = true →
      ((s.threads tID).point = .entering ∨ (s.threads tID).point = .waiting) →
        s.tq.conFlags.halt = false → s.Resumes tID action)
    (hworked : (s.tq.stateFlags tID).halted = true → worked → s.LeavesHalted action ∧
      (s.tq.conFlags.finished = true ∨ s.tq.conFlags.abort = true ∨
        result.1.tq.conFlags.abort = true)) : StepFlagged s action (s.unlock tID result) := by
  have hoth : ∀ t, t ≠ tID → (s.unlock tID result).threads t = s.threads t ∧
      (s.unlock tID result).tq.stateFlags t = s.tq.stateFlags t :=
    fun t ht => ⟨if_neg ht, h.frame.others t ht⟩
  have hpt : ((s.unlock tID result).threads tID).point = result.2 := by
    dsimp only [System.unlock]
    rw [if_pos rfl]
  refine ⟨h.frame.prodPool, h.frame.consPool, fun _ => h.frame.halt, fun t ht => ?_,
    fun t hwork ht => ?_, fun t hst => ?_⟩
  · by_cases hself : t = tID
    · subst hself
      rcases h.kept ht with hkept | ⟨hpt', hhalt⟩
      · exact Or.inl hkept
      · exact Or.inr (hresume ht hpt' hhalt)
    · rw [(hoth t hself).2]
      exact Or.inl ht
  · by_cases hself : t = tID
    · subst hself
      rw [hpt] at hwork
      obtain ⟨hhalted, hcase⟩ := h.worked hwork ht
      exact ⟨hhalted, hcase.imp_right fun hcase => hcase.imp_right (hworked hhalted)⟩
    · obtain ⟨hthread, hflags⟩ := hoth t hself
      rw [hthread] at hwork
      rw [hflags] at ht
      exact ⟨ht, Or.inr (Or.inl hwork)⟩
  · by_cases hself : t = tID
    · subst hself
      rw [hpt] at hst
      exact absurd hst h.started
    · obtain ⟨hthread, hflags⟩ := hoth t hself
      rw [hthread] at hst
      rw [hflags]
      exact ⟨rfl, hst⟩

theorem StepFlagged.of_master (haction : ¬action.OfThread) (hprod : s'.tq.prodPool = s.tq.prodPool)
    (hcons : s'.tq.consPool = s.tq.consPool) (hstate : s'.tq.stateFlags = s.tq.stateFlags)
    (hthrs : s'.threads = s.threads) : StepFlagged s action s' := by
  refine ⟨hprod, hcons, fun h => absurd h haction, fun t ht => Or.inl ?_, fun t hwork ht => ?_,
    fun t hst => ?_⟩
  · rw [hstate]
    exact ht
  · rw [hthrs] at hwork
    rw [hstate] at ht
    exact ⟨ht, Or.inr (Or.inl hwork)⟩
  · rw [hthrs] at hst
    rw [hstate]
    exact ⟨rfl, hst⟩

theorem step_flagged (hstep : s.step action = some s') : StepFlagged s action s' := by
  cases action with
  | producer tID input =>
    rw [System.step] at hstep
    split at hstep
    · obtain ⟨result, hrun, rfl⟩ := Option.map_eq_some_iff.1 hstep
      refine StepFlagged.unlock (Section.producerThread_flagged hrun)
        (fun hhalted hpt hhalt => ⟨rfl, hhalted, hhalt, hpt⟩) ?_
      rintro hhalted ⟨hpt, hhalt, hcase⟩
      exact ⟨⟨hhalted, hhalt, hpt, hcase.imp_right fun hcase => hcase.imp_right And.left⟩,
        hcase.imp_right fun hcase => hcase.imp_right And.right⟩
    · cases hstep
  | consumer tID input =>
    rw [System.step] at hstep
    split at hstep
    · obtain ⟨result, hrun, rfl⟩ := Option.map_eq_some_iff.1 hstep
      refine StepFlagged.unlock (Section.consumerThread_flagged hrun)
        (fun hhalted hpt hhalt => ⟨rfl, hhalted, hhalt, hpt⟩) ?_
      rintro hhalted ⟨hpt, hhalt, habt, hdone, hdep⟩
      obtain ⟨hfin, hterm⟩ := Bool.and_eq_true_iff.1 hdone
      exact ⟨⟨hhalted, hhalt, hpt, habt, hfin, hterm, hdep⟩, Or.inl hfin⟩
    · cases hstep
  | enqueue ignoreFlags workbuff =>
    obtain ⟨result, hres, rfl⟩ := Option.map_eq_some_iff.1 hstep
    cases result with
    | none => exact .of_master id rfl rfl rfl rfl
    | some tq =>
      obtain rfl : s.tq.store workbuff = tq := by
        unfold tqEnqueue at hres
        split_ifs at hres
        · cases hres
        · exact Option.some.inj (Option.some.inj hres)
      exact .of_master id rfl rfl rfl rfl
  | dequeue ignoreFlags =>
    obtain ⟨result, hres, rfl⟩ := Option.map_eq_some_iff.1 hstep
    cases result with
    | none => exact .of_master id rfl rfl rfl rfl
    | some result =>
      obtain rfl : (s.tq.first, s.tq.advance) = result := by
        unfold tqDequeue at hres
        split_ifs at hres
        · cases hres
        · cases hres
        · exact Option.some.inj (Option.some.inj hres)
      exact .of_master id rfl rfl rfl rfl
  | setFlags flags =>
    obtain rfl := Option.some.inj hstep
    exact .of_master id rfl rfl rfl rfl
  | unsetFlags flags =>
    obtain rfl := Option.some.inj hstep
    exact .of_master id rfl rfl rfl rfl

end Step

/-! ## The wait -/

/-- A step of the master, or of a thread, that takes no `HALTED` thread to work while the queue is
halted. -/
def Controlled.Orderly (c : Controlled α) : Move α → Prop
  | .act action => ¬c.sys.LeavesHalted action
  | _ => True

def Controlled.Resumes (c : Controlled α) (t : Nat) : Move α → Prop
  | .act action => c.sys.Resumes t action
  | _ => False

/-- What holds in every state of an orderly run: a thread that works has no `HALTED` flag, and as long as
the master waits, the queue is halted and the threads it has seen have their flags. -/
structure Orderly (tq : ThreadQueue α) (c : Controlled α) : Prop where
  prodPool : c.sys.tq.prodPool = tq.prodPool
  consPool : c.sys.tq.consPool = tq.consPool
  working : ∀ t, (c.sys.threads t).point = .working → (c.sys.tq.stateFlags t).halted = false
  starting : ∀ t, (c.sys.threads t).point = .starting → (c.sys.tq.stateFlags t).halted = false
  waits : ∀ thread, c.waiting = some thread → c.sys.tq.conFlags.halt = true ∧
    ∀ t, t < thread → (c.sys.tq.stateFlags t).halted = true

theorem waitForThreads_cases (tq : ThreadQueue α) (remaining : Nat) {thread : Nat}
    (hhalt : tq.conFlags.halt = true) (hseen : ∀ t, t < thread → (tq.stateFlags t).halted = true) :
    (∃ thread', waitForThreads tq remaining thread = .blocked thread' ∧
        ∀ t, t < thread' → (tq.stateFlags t).halted = true) ∨
      waitForThreads tq remaining thread = .returned (-1) ∨
      waitForThreads tq remaining thread = .returned 0 ∧
        ∀ t, t < thread + remaining → (tq.stateFlags t).halted = true := by
  induction remaining generalizing thread with
  | zero => exact Or.inr (Or.inr ⟨rfl, hseen⟩)
  | succ remaining ih =>
    unfold waitForThreads
    dsimp only
    split_ifs with hwait hoff hflags
    · exact Or.inl ⟨thread, rfl, hseen⟩
    · exact Or.inr (Or.inl rfl)
    · exact Or.inr (Or.inl rfl)
    · have hself : (tq.stateFlags thread).halted = true := by
        by_contra hno
        exact hwait ⟨by simpa using hno, hflags, hhalt⟩
      have hnext : ∀ t, t < thread + 1 → (tq.stateFlags t).halted = true := fun t ht => by
        rcases Nat.lt_succ_iff_lt_or_eq.1 ht with hlt | rfl
        · exact hseen t hlt
        · exact hself
      replace hnext := ih hnext
      rwa [Nat.add_right_comm, Nat.add_assoc] at hnext

section Wait

variable {tq : ThreadQueue α} {c c' : Controlled α} {move : Move α} {res : Option Int}

theorem step_act {action : Action α} (hstep : c.step (.act action) = some (c', res)) :
    (c.waiting = none ∨ action.OfThread) ∧ c'.waiting = c.waiting ∧
      c.sys.step action = some c'.sys := by
  rw [Controlled.step] at hstep
  split at hstep
  · next hallow =>
    obtain ⟨sys, hsys, heq⟩ := Option.map_eq_some_iff.1 hstep
    obtain ⟨rfl, -⟩ := Prod.mk.inj heq
    exact ⟨hallow, rfl, hsys⟩
  · cases hstep

theorem master_sys {w : PauseWait} (h : c.master w = (c', res)) : c'.sys = c.sys := by
  obtain rfl : (c.master w).1 = c' := congrArg Prod.fst h
  cases w with
  | blocked thread => rfl
  | returned n => rfl

theorem Orderly.master (h : Orderly tq c) (hhalt : c.sys.tq.conFlags.halt = true)
    {remaining thread : Nat} (hseen : ∀ t, t < thread → (c.sys.tq.stateFlags t).halted = true) :
    Orderly tq (c.master (waitForThreads c.sys.tq remaining thread)).1 := by
  rcases waitForThreads_cases c.sys.tq remaining hhalt hseen with
    ⟨thread', heq, hseen'⟩ | heq | ⟨heq, -⟩
  · rw [heq]
    refine ⟨h.prodPool, h.consPool, h.working, h.starting, fun t ht => ?_⟩
    obtain rfl : thread' = t := Option.some.inj ht
    exact ⟨hhalt, hseen'⟩
  · rw [heq]
    exact ⟨h.prodPool, h.consPool, h.working, h.starting, nofun⟩
  · rw [heq]
    exact ⟨h.prodPool, h.consPool, h.working, h.starting, nofun⟩

theorem Orderly.step (h : Orderly tq c) (hmove : c.Orderly move) (hstep : c.step move = some (c', res)) :
    Orderly tq c' := by
  cases move with
  | act action =>
    obtain ⟨hallow, hwaiting, hsys⟩ := step_act hstep
    have hflagged := step_flagged hsys
    refine ⟨hflagged.prodPool.trans h.prodPool, hflagged.consPool.trans h.consPool,
      fun t hwork => ?_, fun t hst => ?_, fun thread hthread => ?_⟩
    · by_contra hhalted
      obtain ⟨hbef, hst | hwork' | ⟨hleav, -⟩⟩ :=
        hflagged.worked t hwork (by simpa using hhalted)
      · rw [h.starting t hst] at hbef
        cases hbef
      · rw [h.working t hwork'] at hbef
        cases hbef
      · exact hmove hleav
    · obtain ⟨hsame, hst'⟩ := hflagged.started t hst
      rw [hsame]
      exact h.starting t hst'
    · -- only threads act while the master waits, and none clears its flag
      rw [hwaiting] at hthread
      obtain ⟨hhalt, hseen⟩ := h.waits thread hthread
      have hof : action.OfThread := hallow.resolve_left (by rw [hthread]; exact nofun)
      refine ⟨hflagged.halt hof hhalt, fun t ht => (hflagged.kept t (hseen t ht)).resolve_right ?_⟩
      intro hresume
      cases action with
      | producer tID input => exact Bool.false_ne_true (hresume.2.2.1.symm.trans hhalt)
      | consumer tID input => exact Bool.false_ne_true (hresume.2.2.1.symm.trans hhalt)
      | _ => exact hresume
  | wait =>
    rw [Controlled.step] at hstep
    split at hstep
    · obtain rfl : (c.master (tqWaitForPause c.sys.tq)).1 = c' :=
        congrArg Prod.fst (Option.some.inj hstep)
      unfold tqWaitForPause
      dsimp only
      split_ifs with hoff hflags
      · exact ⟨h.prodPool, h.consPool, h.working, h.starting, nofun⟩
      · exact ⟨h.prodPool, h.consPool, h.working, h.starting, nofun⟩
      · exact h.master (by simpa using hoff) fun t ht => absurd ht t.not_lt_zero
    · cases hstep
  | wake =>
    obtain ⟨thread, hthread, heq⟩ := Option.map_eq_some_iff.1 hstep
    obtain ⟨hhalt, hseen⟩ := h.waits thread hthread
    obtain rfl := congrArg Prod.fst heq
    exact h.master hhalt hseen

theorem returned_zero (h : Orderly tq c) (hstep : c.step move = some (c', some 0)) :
    c'.sys = c.sys ∧ ∀ t, t < tq.numThreads → (c.sys.tq.stateFlags t).halted = true := by
  have hnum : c.sys.tq.numThreads = tq.numThreads := by
    unfold ThreadQueue.numThreads
    rw [h.prodPool, h.consPool]
  have hscan : ∀ remaining thread, c.sys.tq.conFlags.halt = true →
      (∀ t, t < thread → (c.sys.tq.stateFlags t).halted = true) →
      c.master (waitForThreads c.sys.tq remaining thread) = (c', some 0) →
      c'.sys = c.sys ∧ ∀ t, t < thread + remaining → (c.sys.tq.stateFlags t).halted = true := by
    intro remaining thread hhalt hseen heq
    have hsys : c'.sys = c.sys := master_sys heq
    rcases waitForThreads_cases c.sys.tq remaining hhalt hseen with ⟨thread', hw, -⟩ | hw | ⟨-, hall⟩
    · rw [hw] at heq
      cases congrArg Prod.snd heq
    · rw [hw] at heq
      cases congrArg Prod.snd heq
    · exact ⟨hsys, hall⟩
  cases move with
  | act action =>
    rw [Controlled.step] at hstep
    split at hstep
    · obtain ⟨sys, -, heq⟩ := Option.map_eq_some_iff.1 hstep
      cases congrArg Prod.snd heq
    · cases hstep
  | wait =>
    rw [Controlled.step] at hstep
    split at hstep
    · have heq := Option.some.inj hstep
      unfold tqWaitForPause at heq
      dsimp only at heq
      split_ifs at heq with hoff hflags
      · cases congrArg Prod.snd heq
      · cases congrArg Prod.snd heq
      · rw [hnum] at heq
        have := hscan _ _ (by simpa using hoff) (fun t ht => absurd ht t.not_lt_zero) heq
        rwa [Nat.zero_add] at this
    · cases hstep
  | wake =>
    obtain ⟨thread, hthread, heq⟩ := Option.map_eq_some_iff.1 hstep
    obtain ⟨hhalt, hseen⟩ := h.waits thread hthread
    rw [hnum] at heq
    obtain ⟨hsys, hall⟩ := hscan _ _ hhalt hseen heq
    exact ⟨hsys, fun t ht => hall t (by omega)⟩

theorem Orderly.start (tq : ThreadQueue α) {initFlags : ControlFlags}
    {maxQdepth numThreads numProdThreads : Nat}
    (hinit : tqInit α initFlags maxQdepth numThreads numProdThreads = some tq) :
    Orderly tq { sys := System.start tq, waiting := none } := by
  unfold tqInit at hinit
  split at hinit
  · cases hinit
  · obtain rfl := Option.some.inj hinit
    exact ⟨rfl, rfl, nofun, fun _ _ => rfl, nofun⟩

def Controlled.OrderlyRuns : Controlled α → Controlled α → Prop :=
  Controlled.Runs fun c move _ => c.Orderly move

theorem Orderly.runs (h : Orderly tq c) (hruns : c.OrderlyRuns c') : Orderly tq c' := by
  induction hruns with
  | refl => exact h
  | tail _ hlast ih =>
    obtain ⟨move, res, hstep, hmove⟩ := hlast
    exact ih.step hmove hstep

theorem step_other (hmove : ¬∃ action, move = .act action) (hstep : c.step move = some (c', res)) :
    c'.sys = c.sys := by
  cases move with
  | act action => exact absurd ⟨action, rfl⟩ hmove
  | wait =>
    rw [Controlled.step] at hstep
    split at hstep
    · exact master_sys (Option.some.inj hstep)
    · cases hstep
  | wake =>
    obtain ⟨thread, -, heq⟩ := Option.map_eq_some_iff.1 hstep
    exact master_sys heq

theorem halted_or_resumes {t : Nat} (h : (c.sys.tq.stateFlags t).halted = true)
    (hstep : c.step move = some (c', res)) : (c'.sys.tq.stateFlags t).halted = true ∨ c.Resumes t move := by
  cases move with
  | act action => exact (step_flagged (step_act hstep).2.2).kept t h
  | wait =>
    rw [step_other (by rintro ⟨_, ⟨⟩⟩) hstep]
    exact Or.inl h
  | wake =>
    rw [step_other (by rintro ⟨_, ⟨⟩⟩) hstep]
    exact Or.inl h

end Wait

/-! ## A pause -/

def ThreadQueue.Worker (tq : ThreadQueue α) (tID : Nat) : Prop := tq.Producer tID ∨ tq.Consumer tID

variable {t : Nat} {tq : ThreadQueue α} {c c' : Controlled α}

variable {initFlags : ControlFlags} {maxQdepth numThreads numProdThreads : Nat} {move : Move α}

theorem worker_lt (hinit : tqInit α initFlags maxQdepth numThreads numProdThreads = some tq)
    (h : tq.Worker t) : t < tq.numThreads := by
  unfold tqInit at hinit
  split at hinit
  · cases hinit
  · next hcnts =>
    obtain rfl := Option.some.inj hinit
    unfold ThreadQueue.Worker ThreadQueue.Producer ThreadQueue.Consumer WorkerPool.has at h
    unfold ThreadQueue.numThreads
    dsimp only at h ⊢
    by_cases hprod : numProdThreads > 0 <;> by_cases hcons : numThreads > numProdThreads <;>
      simp [hprod, hcons] at h ⊢ <;> omega

def System.Held (s : System α) : Prop :=
  s.tq.conFlags.halt = true ∧ s.tq.conFlags.finished = false ∧ s.tq.conFlags.abort = false

/-- No worker works, none starts to as long as the queue is only halted, and none works again before its
resume function is called. -/
structure Paused (tq : ThreadQueue α) (allowed : Controlled α → Move α → Controlled α → Prop)
    (c : Controlled α) : Prop where
  idle : ∀ t, tq.Worker t → (c.sys.threads t).point ≠ .working
  stays : ∀ c', Controlled.Runs (fun _ _ c' => c'.sys.Held) c c' →
    ∀ t, tq.Worker t → (c'.sys.threads t).point ≠ .working
  resumes : ∀ t, tq.Worker t → ∀ c',
    Controlled.Runs (fun c move c' => allowed c move c' ∧ ¬c.Resumes t move) c c' →
      (c'.sys.threads t).point ≠ .working

structure Controlled.Rests (t : Nat) (c : Controlled α) : Prop where
  halted : (c.sys.tq.stateFlags t).halted = true
  working : (c.sys.threads t).point ≠ .working
  starting : (c.sys.threads t).point ≠ .starting

theorem Controlled.Rests.step {res : Option Int} (h : c.Rests t) (hheld : c.sys.Held) (hheld' : c'.sys.Held)
    (hstep : c.step move = some (c', res)) : c'.Rests t := by
  cases move with
  | act action =>
    have hflagged := step_flagged (step_act hstep).2.2
    have hhalt : (c'.sys.tq.stateFlags t).halted = true := by
      refine (hflagged.kept t h.halted).resolve_right fun hresume => ?_
      cases action with
      | producer tID input => exact Bool.false_ne_true (hresume.2.2.1.symm.trans hheld.1)
      | consumer tID input => exact Bool.false_ne_true (hresume.2.2.1.symm.trans hheld.1)
      | _ => exact hresume
    refine ⟨hhalt, fun hwork => ?_, fun hst => h.starting (hflagged.started t hst).2⟩
    obtain ⟨-, hst | hwork' | ⟨-, hfin | habt | habt⟩⟩ :=
      hflagged.worked t hwork hhalt
    · exact h.starting hst
    · exact h.working hwork'
    · exact Bool.false_ne_true (hheld.2.1.symm.trans hfin)
    · exact Bool.false_ne_true (hheld.2.2.symm.trans habt)
    · exact Bool.false_ne_true (hheld'.2.2.symm.trans habt)
  | wait =>
    obtain ⟨hhalt, hwork, hst⟩ := h
    rw [← step_other (by rintro ⟨_, ⟨⟩⟩) hstep] at hhalt hwork hst
    exact ⟨hhalt, hwork, hst⟩
  | wake =>
    obtain ⟨hhalt, hwork, hst⟩ := h
    rw [← step_other (by rintro ⟨_, ⟨⟩⟩) hstep] at hhalt hwork hst
    exact ⟨hhalt, hwork, hst⟩

theorem Controlled.Rests.runs (h : c.Rests t) (hheld : c.sys.Held)
    (hruns : Controlled.Runs (fun _ _ c' => c'.sys.Held) c c') : c'.Rests t ∧ c'.sys.Held := by
  induction hruns with
  | refl => exact ⟨h, hheld⟩
  | tail _ hlast ih =>
    obtain ⟨move, res, hstep, hheld'⟩ := hlast
    exact ⟨ih.1.step ih.2 hheld' hstep, hheld'⟩

theorem Orderly.not_working (h : Orderly tq c) (hhalt : (c.sys.tq.stateFlags t).halted = true)
    (hruns : Controlled.Runs (fun c move _ => c.Orderly move ∧ ¬c.Resumes t move) c c') :
    (c'.sys.threads t).point ≠ .working := by
  have hinv : Orderly tq c' ∧ (c'.sys.tq.stateFlags t).halted = true := by
    induction hruns with
    | refl => exact ⟨h, hhalt⟩
    | tail _ hlast ih =>
      obtain ⟨move, res, hstep, hmove, hresume⟩ := hlast
      exact ⟨ih.1.step hmove hstep, (halted_or_resumes ih.2 hstep).resolve_right hresume⟩
  intro hwork
  exact Bool.false_ne_true ((hinv.1.working t hwork).symm.trans hinv.2)

/-- In a run that takes no `HALTED` thread to work while the queue is halted, a successful
`tq_wait_for_pause` finds the queue paused. -/
theorem waited_paused
    (hinit : tqInit α initFlags maxQdepth numThreads numProdThreads = some tq)
    (hruns : Controlled.OrderlyRuns { sys := System.start tq, waiting := none } c)
    (hwait : c.step move = some (c', some 0)) (hheld : c'.sys.Held) :
    Paused tq (fun c move _ => c.Orderly move) c' := by
  have horderly := (Orderly.start tq hinit).runs hruns
  obtain ⟨hsys, hall⟩ := returned_zero horderly hwait
  have hhalted : ∀ t, tq.Worker t → (c'.sys.tq.stateFlags t).halted = true := by
    intro t ht
    rw [hsys]
    exact hall t (worker_lt hinit ht)
  have hmove : c.Orderly move := by
    cases move with
    | act action =>
      rw [Controlled.step] at hwait
      split at hwait
      · obtain ⟨sys, -, heq⟩ := Option.map_eq_some_iff.1 hwait
        cases congrArg Prod.snd heq
      · cases hwait
    | wait => trivial
    | wake => trivial
  have horderly' : Orderly tq c' := horderly.step hmove hwait
  have hrests : ∀ t, tq.Worker t → c'.Rests t := by
    intro t ht
    have h := hhalted t ht
    refine ⟨h, fun hworking => ?_, fun hstarting => ?_⟩
    · exact Bool.false_ne_true ((horderly'.working t hworking).symm.trans h)
    · exact Bool.false_ne_true ((horderly'.starting t hstarting).symm.trans h)
  exact
    { idle := fun t ht => (hrests t ht).working
      stays := fun d hd t ht => ((hrests t ht).runs hheld hd).1.working
      resumes := fun t ht d hd => horderly'.not_working (hhalted t ht) hd }

def packageInput : Input Unit :=
  { init := 0, work := some (), res := 0, pause := { ok := true, leaves := true }
    resume := { ok := true, leaves := true } }

def producerQueue : ThreadQueue Unit :=
  { conFlags := { halt := false, finished := false, abort := false }
    stateFlags := fun _ => { ready := false, error := false, halted := false }
    workpkg := [none], qdepth := 0, maxQdepth := 1, head := 0, tail := 0
    prodPool := some { startTID := 0, numThrds := 1 }
    consPool := none }

theorem producerQueue_init :
    tqInit Unit { halt := false, finished := false, abort := false } 1 1 1 = some producerQueue := rfl

def onlyHalt : ControlFlags := { halt := true, finished := false, abort := false }

def onlyFinished : ControlFlags := { halt := false, finished := true, abort := false }

/-- A producer that comes to a halted queue is paused. -/
theorem producerQueue_paused : ∃ c : Controlled Unit,
    Paused producerQueue (fun c move _ => c.Orderly move) c ∧ c.step .wait = some (c, some 0) := by
  have h0 : Controlled.OrderlyRuns { sys := System.start producerQueue, waiting := none }
      { sys := System.start producerQueue, waiting := none } := .refl
  have h1 := h0.tail ⟨.act (.setFlags onlyHalt), none, rfl, id⟩
  have h2 := h1.tail ⟨.act (.producer 0 packageInput), none, rfl, fun h => Bool.false_ne_true h.1⟩
  have h3 := fun c' (hwait : Controlled.step _ .wait = some (c', some 0)) (hheld : c'.sys.Held) =>
    waited_paused producerQueue_init h2 hwait hheld
  exact ⟨_, h3 _ rfl ⟨rfl, rfl, rfl⟩, rfl⟩

/-- A halted producer starts to work when the queue is finished; when the queue no longer is, it still has
its flag, and the master does not wait for it. -/
theorem producerQueue_working : ∃ c c' : Controlled Unit,
    Controlled.Runs (fun _ _ _ => True) { sys := System.start producerQueue, waiting := none } c ∧
      c.step .wait = some (c', some 0) ∧ c'.sys.Held ∧ producerQueue.Worker 0 ∧
      (c'.sys.threads 0).point = .working := by
  have h0 : Controlled.Runs (fun _ _ _ => True) { sys := System.start producerQueue, waiting := none }
      { sys := System.start producerQueue, waiting := none } := .refl
  have h1 := h0.tail ⟨.act (.setFlags onlyHalt), none, rfl, trivial⟩
  have h2 := h1.tail ⟨.act (.producer 0 packageInput), none, rfl, trivial⟩
  have h3 := h2.tail ⟨.act (.setFlags onlyFinished), none, rfl, trivial⟩
  have h4 := h3.tail ⟨.act (.producer 0 packageInput), none, rfl, trivial⟩
  have h5 := h4.tail ⟨.act (.unsetFlags onlyFinished), none, rfl, trivial⟩
  exact ⟨_, _, h5, rfl, ⟨rfl, rfl, rfl⟩, Or.inl rfl, rfl⟩

end Marfs.Tq
