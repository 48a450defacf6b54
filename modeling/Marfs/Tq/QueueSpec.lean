import Marfs.Tq.Queue
import Marfs.Ring.Ring

/-!
# What a section does to the queue

The queue is a ring buffer; what was put on it and not taken off is what it contains, in order.  Of each
thread a balance is kept: a package that it has produced is on the queue, was taken back, or is still
with it.  Each part of a section moves packages so that both hold.
-/

namespace Marfs.Tq

open List

variable {α : Type}

/-! ## What has happened to packages -/

namespace Event

/-- A package was put on the queue. -/
def enqueuedWork : Event α → Option (Option α)
  | .enqueued _ work => some work
  | _ => none

/-- A package was taken off the queue. -/
def dequeuedWork : Event α → Option (Option α)
  | .dequeued _ work => some work
  | _ => none

def producedBy (tID : Nat) : Event α → Option α
  | .produced t work => if t = tID then some work else none
  | _ => none

/-- A thread has put its package on the queue, or lost it to a function of the user. -/
def partedBy (tID : Nat) : Event α → Option α
  | .enqueued (some t) work => if t = tID then work else none
  | .released t work => if t = tID then some work else none
  | _ => none

def Of (tID : Nat) : Event α → Prop
  | .produced t _ => t = tID
  | .released t _ => t = tID
  | .enqueued t _ => t = some tID
  | .dequeued t _ => t = some tID
  | .terminated _ _ => False

end Event

/-- The packages put on the queue, in order. -/
def enqueuedWorks (events : List (Event α)) : List (Option α) :=
  (events.filterMap Event.enqueuedWork).reverse

/-- The packages taken off the queue, in order. -/
def dequeuedWorks (events : List (Event α)) : List (Option α) :=
  (events.filterMap Event.dequeuedWork).reverse

def produced (tID : Nat) (events : List (Event α)) : List α :=
  events.filterMap (Event.producedBy tID)

/-- The packages of a thread that are on the queue or were taken back. -/
def parted (tID : Nat) (events : List (Event α)) : List α :=
  events.filterMap (Event.partedBy tID)

/-! ## Balance -/

def ThreadQueue.contents (tq : ThreadQueue α) : List (Option α) :=
  Ring.contents tq.workpkg tq.head tq.qdepth

/-- The queue contains what was put on it and not taken off. -/
structure Balanced (tq : ThreadQueue α) (events : List (Event α)) : Prop where
  layout : Ring.Layout tq.maxQdepth tq.head tq.tail tq.qdepth
  length_eq : tq.workpkg.length = tq.maxQdepth
  order : enqueuedWorks events = dequeuedWorks events ++ tq.contents

def Kept (tID : Nat) (curWork : Option α) (events : List (Event α)) : Prop :=
  (produced tID events).Perm (curWork.toList ++ parted tID events)

structure SameRing (tq tq' : ThreadQueue α) : Prop where
  workpkg : tq'.workpkg = tq.workpkg
  qdepth : tq'.qdepth = tq.qdepth
  maxQdepth : tq'.maxQdepth = tq.maxQdepth
  head : tq'.head = tq.head
  tail : tq'.tail = tq.tail
  prodPool : tq'.prodPool = tq.prodPool
  consPool : tq'.consPool = tq.consPool

namespace Balanced

variable {tq tq' : ThreadQueue α} {events events' : List (Event α)}

theorem congr (h : Balanced tq events) (hring : SameRing tq tq')
    (henqueued : enqueuedWorks events' = enqueuedWorks events)
    (hdequeued : dequeuedWorks events' = dequeuedWorks events) : Balanced tq' events' := by
  constructor
  · rw [hring.maxQdepth, hring.head, hring.tail, hring.qdepth]
    exact h.layout
  · rw [hring.workpkg, hring.maxQdepth]
    exact h.length_eq
  · rw [henqueued, hdequeued, ThreadQueue.contents, hring.workpkg, hring.head, hring.qdepth]
    exact h.order

theorem contents_length : tq.contents.length = tq.qdepth := Ring.contents_length

/-- A package is put on a queue that is not full. -/
theorem store (h : Balanced tq events) (hlt : tq.qdepth < tq.maxQdepth) (tID : Option Nat)
    (work : Option α) : Balanced (tq.store work) (.enqueued tID work :: events) := by
  have hpush : (tq.store work).contents = tq.contents ++ [work] := by
    dsimp only [ThreadQueue.store, ThreadQueue.contents]
    rw [h.layout.tail_eq, ← h.length_eq]
    exact Ring.contents_push work (by rw [h.length_eq]; exact hlt)
  refine ⟨h.layout.push hlt, ?_, ?_⟩
  · dsimp only [ThreadQueue.store]
    rw [length_set]
    exact h.length_eq
  · have henqueued : enqueuedWorks (.enqueued tID work :: events) =
        enqueuedWorks events ++ [work] := reverse_cons
    have hdequeued : dequeuedWorks (.enqueued tID work :: events) = dequeuedWorks events := rfl
    rw [henqueued, hdequeued, hpush, h.order, append_assoc]

theorem first_cons (h : Balanced tq events) (hpos : tq.qdepth ≠ 0) :
    tq.contents = tq.first :: tq.advance.contents := by
  obtain ⟨depth, hdep⟩ : ∃ depth, tq.qdepth = depth + 1 := Nat.exists_eq_succ_of_ne_zero hpos
  have hhead : tq.head % tq.workpkg.length = tq.head := by
    rw [h.length_eq]
    exact Nat.mod_eq_of_lt h.layout.head_lt
  dsimp only [ThreadQueue.contents, ThreadQueue.advance, ThreadQueue.first]
  rw [hdep, Nat.add_sub_cancel, Ring.contents_pop, hhead, h.length_eq]
  rfl

theorem advance (h : Balanced tq events) (hpos : tq.qdepth ≠ 0) (tID : Option Nat) :
    Balanced tq.advance (.dequeued tID tq.first :: events) := by
  obtain ⟨depth, hdep⟩ : ∃ depth, tq.qdepth = depth + 1 := Nat.exists_eq_succ_of_ne_zero hpos
  refine ⟨?_, h.length_eq, ?_⟩
  · have hlay := h.layout
    rw [hdep] at hlay
    dsimp only [ThreadQueue.advance]
    rw [hdep, Nat.add_sub_cancel]
    exact hlay.pop
  · have henqueued : enqueuedWorks (.dequeued tID tq.first :: events) = enqueuedWorks events := rfl
    have hdequeued : dequeuedWorks (.dequeued tID tq.first :: events) =
        dequeuedWorks events ++ [tq.first] := reverse_cons
    rw [henqueued, hdequeued, h.order, h.first_cons hpos, append_assoc]
    rfl

theorem clear (h : Balanced tq events) (hpos : tq.qdepth ≠ 0) (tID : Option Nat) :
    Balanced ({ tq with workpkg := tq.workpkg.set tq.head none } : ThreadQueue α).advance
      (.dequeued tID tq.first :: events) := by
  have hadvance := h.advance hpos tID
  have hhead : tq.head % tq.workpkg.length = tq.head := by
    rw [h.length_eq]
    exact Nat.mod_eq_of_lt h.layout.head_lt
  have hcont :
      ({ tq with workpkg := tq.workpkg.set tq.head none } : ThreadQueue α).advance.contents =
        tq.advance.contents := by
    have hlt : tq.qdepth - 1 < tq.workpkg.length := by
      have hle := h.layout.depth_le
      rw [h.length_eq]
      omega
    have hset := Ring.contents_set_head tq.workpkg tq.head none hlt
    rw [hhead, h.length_eq] at hset
    exact hset
  refine ⟨hadvance.layout, ?_, ?_⟩
  · dsimp only [ThreadQueue.advance]
    rw [length_set]
    exact h.length_eq
  · rw [hcont]
    exact hadvance.order

end Balanced

/-! ## Moves -/

/-- What a part of a section of a thread may do: events of its own, and both balances hold, that of the
thread if it produces. -/
structure Moves (produces : Prop) (tID : Nat) (s s' : Section α) : Prop where
  extend : ∃ new, s'.events = new ++ s.events ∧ ∀ event ∈ new, event.Of tID
  balanced : Balanced s.tq s.events → Balanced s'.tq s'.events
  kept : produces → Kept tID s.curWork s.events → Kept tID s'.curWork s'.events
  prodPool : s'.tq.prodPool = s.tq.prodPool
  consPool : s'.tq.consPool = s.tq.consPool
  ready : ∀ t, (s'.tq.stateFlags t).ready = (s.tq.stateFlags t).ready

namespace Moves

variable {produces : Prop} {tID : Nat} {s s' s'' : Section α}

theorem trans (h : Moves produces tID s s') (h' : Moves produces tID s' s'') : Moves produces tID s s'' := by
  obtain ⟨new, heq, hof⟩ := h.extend
  obtain ⟨new', heq', hof'⟩ := h'.extend
  refine ⟨⟨new' ++ new, ?_, fun event hmem => ?_⟩, fun hb => h'.balanced (h.balanced hb),
    fun hp hk => h'.kept hp (h.kept hp hk), h'.prodPool.trans h.prodPool, h'.consPool.trans h.consPool,
    fun t => (h'.ready t).trans (h.ready t)⟩
  · rw [heq', heq, append_assoc]
  · rcases List.mem_append.1 hmem with hmem | hmem
    · exact hof' event hmem
    · exact hof event hmem

/-- Nothing happens to packages. -/
theorem still (hring : SameRing s.tq s'.tq) (hwork : s'.curWork = s.curWork) (hevents : s'.events = s.events)
    (hrdy : ∀ t, (s'.tq.stateFlags t).ready = (s.tq.stateFlags t).ready) : Moves produces tID s s' := by
  refine ⟨⟨[], hevents, nofun⟩, fun hb => ?_, fun _ hk => ?_, hring.prodPool, hring.consPool, hrdy⟩
  · rw [hevents]
    exact hb.congr hring rfl rfl
  · rw [hwork, hevents]
    exact hk

end Moves

namespace Section

variable {produces : Prop} {tID : Nat}

theorem mark_ready (tq : ThreadQueue α) {f : StateFlags → StateFlags}
    (hf : ∀ flags, (f flags).ready = flags.ready) (t : Nat) :
    ((tq.mark tID f).stateFlags t).ready = (tq.stateFlags t).ready := by
  dsimp only [ThreadQueue.mark]
  split
  · exact hf _
  · rfl

theorem sameRing_refl (tq : ThreadQueue α) : SameRing tq tq := ⟨rfl, rfl, rfl, rfl, rfl, rfl, rfl⟩

theorem call_tq (callback : Callback) (s : Section α) : (s.call tID callback).tq = s.tq := by
  unfold call
  split
  · rfl
  · split <;> rfl

theorem call_moves (callback : Callback) (s : Section α) : Moves produces tID s (s.call tID callback) := by
  cases hwork : s.curWork with
  | none =>
    have hcall : s.call tID callback = s := by
      rw [call, hwork]
    rw [hcall]
    exact .still (sameRing_refl _) rfl rfl fun _ => rfl
  | some work =>
    by_cases hleav : callback.leaves = true
    · have hcall : s.call tID callback = s := by
        rw [call, hwork]
        exact if_pos hleav
      rw [hcall]
      exact .still (sameRing_refl _) rfl rfl fun _ => rfl
    · have hcall : s.call tID callback =
          { s with curWork := none, events := .released tID work :: s.events } := by
        rw [call, hwork]
        exact if_neg hleav
      rw [hcall]
      refine ⟨⟨[.released tID work], rfl, fun event hmem => ?_⟩, fun hb => ?_, fun _ hk => ?_, rfl,
        rfl, fun _ => rfl⟩
      · obtain rfl := List.mem_singleton.1 hmem
        exact rfl
      · exact hb.congr (sameRing_refl _) rfl rfl
      · rw [hwork] at hk
        have hparted : parted tID (.released tID work :: s.events) = work :: parted tID s.events :=
          filterMap_cons_some (if_pos rfl)
        have hprod : produced tID (.released tID work :: s.events) = produced tID s.events := rfl
        rw [Kept, hparted, hprod]
        exact hk

theorem fail_moves (s : Section α) : Moves produces tID s (s.fail tID) :=
  .still ⟨rfl, rfl, rfl, rfl, rfl, rfl, rfl⟩ rfl rfl
    (mark_ready _ (f := fun flags => { flags with error := true }) fun _ => rfl)

theorem pause_moves (pause : Callback) (s : Section α) :
    Moves produces tID s (s.generalThreadPauseBehavior tID pause).1 := by
  unfold generalThreadPauseBehavior
  split
  · dsimp only
    split
    · exact (call_moves pause s).trans
        (.still ⟨rfl, rfl, rfl, rfl, rfl, rfl, rfl⟩ rfl rfl
          (mark_ready _ (f := fun flags => { flags with halted := true }) fun _ => rfl))
    · exact (call_moves pause s).trans (fail_moves _)
  · exact .still (sameRing_refl _) rfl rfl fun _ => rfl

theorem resume_moves (resume : Callback) (s : Section α) :
    Moves produces tID s (s.generalThreadResumeBehavior tID resume).1 := by
  unfold generalThreadResumeBehavior
  split
  · dsimp only
    have hmark : Moves produces tID s
        { s with tq := s.tq.mark tID fun flags => { flags with halted := false } } :=
      .still ⟨rfl, rfl, rfl, rfl, rfl, rfl, rfl⟩ rfl rfl
        (mark_ready _ (f := fun flags => { flags with halted := false }) fun _ => rfl)
    split
    · exact hmark.trans (call_moves resume _)
    · exact (hmark.trans (call_moves resume _)).trans (fail_moves _)
  · exact .still (sameRing_refl _) rfl rfl fun _ => rfl

theorem postWork_moves (workRes : Int) (s : Section α) :
    Moves produces tID s (s.generalThreadPostWorkBehavior tID workRes) := by
  unfold generalThreadPostWorkBehavior
  dsimp only
  split_ifs
  · exact fail_moves s
  all_goals exact .still ⟨rfl, rfl, rfl, rfl, rfl, rfl, rfl⟩ rfl rfl fun _ => rfl

theorem generated_moves (work : Option α) (s : Section α) (hwork : s.curWork = none) :
    Moves produces tID s (s.generated tID work) := by
  cases work with
  | none => exact .still (sameRing_refl _) hwork.symm rfl fun _ => rfl
  | some work =>
    refine ⟨⟨[.produced tID work], rfl, fun event hmem => ?_⟩, fun hb => ?_, fun _ hk => ?_, rfl, rfl,
      fun _ => rfl⟩
    · obtain rfl := List.mem_singleton.1 hmem
      exact rfl
    · exact hb.congr (sameRing_refl _) rfl rfl
    · rw [hwork] at hk
      have hprod : produced tID (.produced tID work :: s.events) =
          work :: produced tID s.events := filterMap_cons_some (if_pos rfl)
      have hparted : parted tID (.produced tID work :: s.events) = parted tID s.events := rfl
      dsimp only [generated]
      rw [Kept, hprod, hparted]
      exact hk.cons work

theorem store_moves {work : α} (s : Section α) (hwork : s.curWork = some work)
    (hlt : s.tq.qdepth < s.tq.maxQdepth) :
    Moves produces tID s
      { tq := s.tq.store (some work), curWork := none
        events := .enqueued (some tID) (some work) :: s.events } := by
  refine ⟨⟨[.enqueued (some tID) (some work)], rfl, fun event hmem => ?_⟩,
    fun hb => hb.store hlt (some tID) (some work), fun _ hk => ?_, rfl, rfl, fun _ => rfl⟩
  · obtain rfl := List.mem_singleton.1 hmem
    exact rfl
  · rw [hwork] at hk
    have hparted : parted tID (.enqueued (some tID) (some work) :: s.events) =
        work :: parted tID s.events := filterMap_cons_some (if_pos rfl)
    have hprod : produced tID (.enqueued (some tID) (some work) :: s.events) =
        produced tID s.events := rfl
    rw [Kept, hparted, hprod]
    exact hk

/-! ## Aborts -/

theorem pause_fails (tID : Nat) (pause : Callback) (s : Section α)
    (h : (s.generalThreadPauseBehavior tID pause).2 = false) :
    (s.generalThreadPauseBehavior tID pause).1.tq.conFlags.abort = true := by
  unfold generalThreadPauseBehavior at h ⊢
  split at h
  · dsimp only at h ⊢
    split at h
    · cases h
    · next hhalt hok =>
      rw [if_pos hhalt, if_neg hok]
      rfl
  · cases h

theorem resume_fails (tID : Nat) (resume : Callback) (s : Section α)
    (h : (s.generalThreadResumeBehavior tID resume).2 = false) :
    (s.generalThreadResumeBehavior tID resume).1.tq.conFlags.abort = true := by
  unfold generalThreadResumeBehavior at h ⊢
  split at h
  · dsimp only at h ⊢
    split at h
    · cases h
    · next hhalt hok =>
      rw [if_pos hhalt, if_neg hok]
      rfl
  · cases h

variable {s : Section α} {pause : Callback}

theorem produce_aborted (h : s.tq.conFlags.abort = true) : (s.produce tID).1.tq.conFlags.abort = true := by
  rw [produce, if_pos h]
  exact h

theorem consume_aborted (h : s.tq.conFlags.abort = true) : (s.consume tID).1.tq.conFlags.abort = true := by
  rw [consume, if_pos (.inl h)]
  exact h

/-! ## Packages that are not there -/

theorem call_none {callback : Callback} (h : s.curWork = none) : s.call tID callback = s := by
  rw [call, h]

theorem pause_none (h : s.curWork = none) : (s.generalThreadPauseBehavior tID pause).1.curWork = none := by
  unfold generalThreadPauseBehavior
  rw [call_none h]
  split
  · dsimp only
    split <;> exact h
  · exact h

theorem resume_none {resume : Callback} (h : s.curWork = none) :
    (s.generalThreadResumeBehavior tID resume).1.curWork = none := by
  unfold generalThreadResumeBehavior
  split
  · dsimp only
    have hmarked : ({ s with
        tq := s.tq.mark tID fun flags => { flags with halted := false } } : Section α).curWork =
        none := h
    rw [call_none hmarked]
    split <;> exact h
  · exact h

/-! ## The end of a section -/

inductive Ends (produces : Prop) (tID : Nat) (goes : Section α → Point → Prop)
    (exits : Section α → Prop) (s : Section α) : Section α × Point → Prop
  | goes {s' : Section α} {point : Point} (moves : Moves produces tID s s') (held : goes s' point)
    (starting : point ≠ .starting) (exited : point ≠ .exited) :
    Ends produces tID goes exits s (s', point)
  | exits {s' : Section α} (moves : Moves produces tID s s') (ended : exits s') :
    Ends produces tID goes exits s (s'.generalThreadTermBehavior tID, .exited)

theorem Ends.after {goes : Section α → Point → Prop} {exits : Section α → Prop} {s' : Section α}
    {result : Section α × Point} (hmoves : Moves produces tID s s')
    (h : Ends produces tID goes exits s' result) : Ends produces tID goes exits s result := by
  cases h with
  | goes moves hgoes starting exited => exact .goes (hmoves.trans moves) hgoes starting exited
  | exits moves hexits => exact .exits (hmoves.trans moves) hexits

/-! ### Producers -/

def Packed (s : Section α) (point : Point) : Prop := point ≠ .waiting → s.curWork = none

/-- A producer terminates without a package, when the queue is finished. -/
def Emptied (s : Section α) : Prop := s.curWork = none ∧ s.tq.conFlags.finished = true

theorem produce_ends (hlt : s.tq.qdepth < s.tq.maxQdepth)
    (hno : (s.produce tID).1.tq.conFlags.abort = false) :
    Ends produces tID Packed Emptied s (s.produce tID) := by
  have hruns : s.tq.conFlags.abort ≠ true := fun habt => by
    rw [produce_aborted habt] at hno
    cases hno
  unfold produce
  rw [if_neg hruns]
  cases hwork : s.curWork with
  | none =>
    dsimp only
    split
    · next hfin => exact .exits (.still (sameRing_refl _) rfl rfl fun _ => rfl) ⟨hwork, hfin⟩
    · exact .goes (.still (sameRing_refl _) rfl rfl fun _ => rfl) (fun _ => hwork) nofun nofun
  | some work =>
    dsimp only
    split
    · next hfin => exact .exits (store_moves s hwork hlt) ⟨rfl, hfin⟩
    · exact .goes (store_moves s hwork hlt) (fun _ => rfl) nofun nofun

theorem holdProducer_ends (hle : s.tq.qdepth ≤ s.tq.maxQdepth)
    (hno : (s.holdProducer tID pause).1.tq.conFlags.abort = false) :
    Ends produces tID Packed Emptied s (s.holdProducer tID pause) := by
  unfold holdProducer at hno ⊢
  dsimp only at hno ⊢
  split
  · next hwait =>
    rw [if_pos hwait] at hno
    cases hpause : s.generalThreadPauseBehavior tID pause with
    | mk s' ok =>
      have hmoves : Moves produces tID s (s.generalThreadPauseBehavior tID pause).1 :=
        pause_moves pause s
      rw [hpause] at hno hmoves
      cases ok with
      | true => exact .goes hmoves (fun h => absurd rfl h) nofun nofun
      | false =>
        have habt := pause_fails tID pause s (by rw [hpause])
        rw [hpause] at habt
        dsimp only at hno
        rw [produce_aborted habt] at hno
        cases hno
  · next hgo =>
    rw [if_neg hgo] at hno
    have hruns : s.tq.conFlags.abort = false := by
      by_contra habt
      rw [produce_aborted (by simpa using habt)] at hno
      cases hno
    refine produce_ends (lt_of_le_of_ne hle fun hfull => hgo ⟨.inl hfull, hruns⟩) hno

theorem enterProducer_ends (hwork : s.curWork = none)
    (hno : (s.enterProducer tID pause).1.tq.conFlags.abort = false) :
    Ends produces tID Packed Emptied s (s.enterProducer tID pause) := by
  unfold enterProducer at hno ⊢
  dsimp only at hno ⊢
  split
  · next hwait =>
    rw [if_pos hwait] at hno
    have hnone : (s.generalThreadPauseBehavior tID pause).1.curWork = none := pause_none hwork
    have hmoves : Moves produces tID s (s.generalThreadPauseBehavior tID pause).1 :=
      pause_moves pause s
    cases hpause : s.generalThreadPauseBehavior tID pause with
    | mk s' ok =>
      rw [hpause] at hno hmoves hnone
      cases ok with
      | true => exact .goes hmoves (fun _ => hnone) nofun nofun
      | false => exact .goes hmoves (fun _ => hnone) nofun nofun
  · exact .goes (.still (sameRing_refl _) rfl rfl fun _ => rfl) (fun _ => hwork) nofun nofun

theorem producerThread_ends {input : Input α} {point : Point} {result : Section α × Point}
    (hrun : s.producerThread tID input point = some result) (hno : result.1.tq.conFlags.abort = false)
    (hb : Balanced s.tq s.events) (hidle : point ≠ .waiting → s.curWork = none) :
    Ends produces tID Packed Emptied (if point = .starting then s.ready tID else s) result := by
  have hresume : Moves produces tID s (s.generalThreadResumeBehavior tID input.resume).1 :=
    resume_moves input.resume s
  cases point with
  | starting =>
    rw [producerThread] at hrun
    split at hrun
    · obtain rfl := Option.some.inj hrun
      cases hno
    · obtain rfl := Option.some.inj hrun
      exact enterProducer_ends (hidle nofun) hno
  | entering =>
    have hnone : (s.generalThreadResumeBehavior tID input.resume).1.curWork = none :=
      resume_none (hidle nofun)
    rw [producerThread] at hrun
    cases heq : s.generalThreadResumeBehavior tID input.resume with
    | mk s' ok =>
      rw [heq] at hrun hresume hnone
      cases ok with
      | true =>
        obtain rfl := Option.some.inj hrun
        exact (enterProducer_ends hnone hno).after hresume
      | false =>
        obtain rfl := Option.some.inj hrun
        exact .goes hresume (fun _ => hnone) nofun nofun
  | working =>
    obtain rfl := Option.some.inj hrun
    have hmoves : Moves produces tID s
        ((s.generated tID input.work).generalThreadPostWorkBehavior tID input.res) :=
      (generated_moves input.work s (hidle nofun)).trans (postWork_moves input.res _)
    exact (holdProducer_ends (hmoves.balanced hb).layout.depth_le hno).after hmoves
  | waiting =>
    rw [producerThread] at hrun
    cases heq : s.generalThreadResumeBehavior tID input.resume with
    | mk s' ok =>
      rw [heq] at hrun hresume
      cases ok with
      | true =>
        obtain rfl := Option.some.inj hrun
        exact (holdProducer_ends (hresume.balanced hb).layout.depth_le hno).after hresume
      | false =>
        have habt := resume_fails tID input.resume s (by rw [heq])
        rw [heq] at habt
        obtain rfl := Option.some.inj hrun
        rw [produce_aborted habt] at hno
        cases hno
  | exited => cases hrun

/-! ### Consumers -/

/-- A section before the test that lets a consumer terminate: the depth of the queue is the same, and
only a result of `1` finishes the queue. -/
structure Rests (finishes : Prop) (s s' : Section α) : Prop where
  qdepth : s'.tq.qdepth = s.tq.qdepth
  finished : s'.tq.conFlags.finished = true → s.tq.conFlags.finished = true ∨ finishes

structure Drained (s : Section α) : Prop where
  finished : s.tq.conFlags.finished = true
  empty : s.tq.qdepth = 0
  terminated : tqThreadsTerminated s.tq s.tq.prodPool = true

section Consumer

variable {finishes : Prop} {s₀ s : Section α}

theorem resume_rests (resume : Callback) (s : Section α) :
    Rests finishes s (s.generalThreadResumeBehavior tID resume).1 := by
  unfold generalThreadResumeBehavior
  split
  · dsimp only
    split
    · constructor
      · rw [call_tq]
        rfl
      · rw [call_tq]
        exact .inl
    · constructor
      · dsimp only [fail, ThreadQueue.mark]
        rw [call_tq]
      · dsimp only [fail, ThreadQueue.mark]
        rw [call_tq]
        exact .inl
  · exact ⟨rfl, .inl⟩

theorem postWork_rests (workRes : Int) (s : Section α) (h : workRes = 1 → finishes) :
    Rests finishes s (s.generalThreadPostWorkBehavior tID workRes) := by
  unfold generalThreadPostWorkBehavior
  dsimp only
  split_ifs with hneg hone
  · exact ⟨rfl, .inl⟩
  · exact ⟨rfl, .inl⟩
  · exact ⟨rfl, fun _ => .inr (h hone)⟩
  all_goals exact ⟨rfl, .inl⟩

theorem consume_ends (hrests : Rests finishes s₀ s)
    (hgo : s.tq.conFlags.abort = false → s.tq.qdepth = 0 → s.done = true)
    (hno : (s.consume tID).1.tq.conFlags.abort = false) :
    Ends False tID (fun _ _ => True) (fun s' => s'.Drained ∧ Rests finishes s₀ s') s
      (s.consume tID) := by
  have hruns : s.tq.conFlags.abort ≠ true := fun habt => by
    rw [consume_aborted habt] at hno
    cases hno
  unfold consume
  by_cases hdone : s.tq.qdepth = 0 ∧ s.done = true
  · rw [if_pos (.inr hdone)]
    obtain ⟨hemp, hdone⟩ := hdone
    obtain ⟨hfin, hterm⟩ := Bool.and_eq_true_iff.1 hdone
    exact .exits (.still (sameRing_refl _) rfl rfl fun _ => rfl)
      ⟨⟨hfin, hemp, hterm⟩, hrests⟩
  · have hpos : s.tq.qdepth ≠ 0 := fun hemp =>
      hdone ⟨hemp, hgo (by simpa using hruns) hemp⟩
    rw [if_neg (not_or.2 ⟨hruns, hdone⟩)]
    refine .goes ⟨⟨[.dequeued (some tID) s.tq.first], rfl, fun event hmem => ?_⟩,
      fun hb => hb.clear hpos (some tID), False.elim, rfl, rfl, fun _ => rfl⟩ trivial nofun nofun
    obtain rfl := List.mem_singleton.1 hmem
    exact rfl

theorem holdConsumer_ends {pause : Callback} (hrests : Rests finishes s₀ s)
    (hno : (s.holdConsumer tID pause).1.tq.conFlags.abort = false) :
    Ends False tID (fun _ _ => True) (fun s' => s'.Drained ∧ Rests finishes s₀ s') s
      (s.holdConsumer tID pause) := by
  unfold holdConsumer at hno ⊢
  dsimp only at hno ⊢
  split
  · next hwait =>
    rw [if_pos hwait] at hno
    have hmoves : Moves False tID s (s.generalThreadPauseBehavior tID pause).1 :=
      pause_moves pause s
    cases hpause : s.generalThreadPauseBehavior tID pause with
    | mk s' ok =>
      rw [hpause] at hno hmoves
      cases ok with
      | true => exact .goes hmoves trivial nofun nofun
      | false =>
        have habt := pause_fails tID pause s (by rw [hpause])
        rw [hpause] at habt
        dsimp only at hno
        rw [consume_aborted habt] at hno
        cases hno
  · next hgo =>
    rw [if_neg hgo] at hno
    refine consume_ends hrests (fun hruns hemp => ?_) hno
    by_contra hdone
    exact hgo ⟨.inl hemp, hruns, by simpa using hdone⟩

theorem consumerThread_ends {input : Input α} {point : Point} {result : Section α × Point}
    (hrun : s.consumerThread tID input point = some result) (hno : result.1.tq.conFlags.abort = false) :
    Ends False tID (fun _ _ => True)
      (fun s' => s'.Drained ∧ Rests (point = .working ∧ input.res = 1) s s')
      (if point = .starting then s.ready tID else s) result := by
  cases point with
  | starting =>
    rw [consumerThread] at hrun
    split at hrun
    · obtain rfl := Option.some.inj hrun
      cases hno
    · obtain rfl := Option.some.inj hrun
      exact holdConsumer_ends ⟨rfl, .inl⟩ hno
  | entering => cases hrun
  | working =>
    obtain rfl := Option.some.inj hrun
    have hclear : Moves False tID s { s with curWork := none } :=
      ⟨⟨[], rfl, nofun⟩, fun hb => hb, False.elim, rfl, rfl, fun _ => rfl⟩
    have hpost : Rests (Point.working = .working ∧ input.res = 1) { s with curWork := none }
        (({ s with curWork := none } : Section α).generalThreadPostWorkBehavior tID input.res) :=
      postWork_rests input.res _ fun h => ⟨rfl, h⟩
    have hrests : Rests (Point.working = .working ∧ input.res = 1) s
        (({ s with curWork := none } : Section α).generalThreadPostWorkBehavior tID input.res) :=
      ⟨hpost.qdepth, hpost.finished⟩
    exact (holdConsumer_ends hrests hno).after (hclear.trans (postWork_moves input.res _))
  | waiting =>
    have hresume : Moves False tID s (s.generalThreadResumeBehavior tID input.resume).1 :=
      resume_moves input.resume s
    have hrests : Rests (Point.waiting = .working ∧ input.res = 1) s
        (s.generalThreadResumeBehavior tID input.resume).1 := resume_rests input.resume s
    rw [consumerThread] at hrun
    cases heq : s.generalThreadResumeBehavior tID input.resume with
    | mk s' ok =>
      rw [heq] at hrun hresume hrests
      cases ok with
      | true =>
        obtain rfl := Option.some.inj hrun
        exact (holdConsumer_ends hrests hno).after hresume
      | false =>
        have habt := resume_fails tID input.resume s (by rw [heq])
        rw [heq] at habt
        obtain rfl := Option.some.inj hrun
        rw [consume_aborted habt] at hno
        cases hno
  | exited => cases hrun

end Consumer

end Section

end Marfs.Tq
