import Mathlib.Data.List.Range
import Mathlib.Logic.Relation

/-!
# Thread queues

Producer threads put work packages on a queue, consumer threads take them off, and a master may do both
and set flags.  What a thread does while it holds the queue lock is one step.  A thread that waits may
wake at any time, so signals and the counts that decide who gets one are left out.  The functions a user
supplies are inputs: a pause or a resume function may take back the package a thread holds.
-/

namespace Marfs.Tq

/-! ## The queue -/

structure ControlFlags where
  halt : Bool
  finished : Bool
  abort : Bool
  deriving DecidableEq, Repr

namespace ControlFlags

def set (flags sig : ControlFlags) : ControlFlags :=
  { halt := flags.halt || sig.halt, finished := flags.finished || sig.finished
    abort := flags.abort || sig.abort }

def unset (flags sig : ControlFlags) : ControlFlags :=
  { halt := flags.halt && !sig.halt, finished := flags.finished && !sig.finished
    abort := flags.abort && !sig.abort }

def any (flags : ControlFlags) : Bool := flags.halt || flags.finished || flags.abort

end ControlFlags

structure StateFlags where
  ready : Bool
  error : Bool
  halted : Bool
  deriving DecidableEq, Repr

/-- `thread_queue_worker_pool_struct`: the IDs of its threads. -/
structure WorkerPool where
  startTID : Nat
  numThrds : Nat
  deriving DecidableEq, Repr

/-- `thread_queue_struct`; a package is a pointer, `none` for NULL. -/
structure ThreadQueue (α : Type) where
  conFlags : ControlFlags
  stateFlags : Nat → StateFlags
  workpkg : List (Option α)
  qdepth : Nat
  maxQdepth : Nat
  head : Nat
  tail : Nat
  prodPool : Option WorkerPool
  consPool : Option WorkerPool

def WorkerPool.has (pool : Option WorkerPool) (tID : Nat) : Bool :=
  match pool with
  | none => false
  | some pool => pool.startTID ≤ tID && tID < pool.startTID + pool.numThrds

variable {α : Type}

namespace ThreadQueue

def Producer (tq : ThreadQueue α) (tID : Nat) : Prop := WorkerPool.has tq.prodPool tID = true

def Consumer (tq : ThreadQueue α) (tID : Nat) : Prop := WorkerPool.has tq.consPool tID = true

instance (tq : ThreadQueue α) (tID : Nat) : Decidable (tq.Producer tID) :=
  inferInstanceAs (Decidable (_ = true))

instance (tq : ThreadQueue α) (tID : Nat) : Decidable (tq.Consumer tID) :=
  inferInstanceAs (Decidable (_ = true))

def mark (tq : ThreadQueue α) (tID : Nat) (f : StateFlags → StateFlags) : ThreadQueue α :=
  { tq with stateFlags := fun t => if t = tID then f (tq.stateFlags t) else tq.stateFlags t }

def store (tq : ThreadQueue α) (work : Option α) : ThreadQueue α :=
  { tq with
    workpkg := tq.workpkg.set tq.tail work
    tail := (tq.tail + 1) % tq.maxQdepth
    qdepth := tq.qdepth + 1 }

def first (tq : ThreadQueue α) : Option α := tq.workpkg.getD tq.head none

def advance (tq : ThreadQueue α) : ThreadQueue α :=
  { tq with head := (tq.head + 1) % tq.maxQdepth, qdepth := tq.qdepth - 1 }

end ThreadQueue

def tqThreadsTerminated (tq : ThreadQueue α) (pool : Option WorkerPool) : Bool :=
  match pool with
  | none => true
  | some pool =>
    (List.range pool.numThrds).all fun k => !(tq.stateFlags (pool.startTID + k)).ready

def tqInit (α : Type) (initFlags : ControlFlags) (maxQdepth numThreads numProdThreads : Nat) :
    Option (ThreadQueue α) :=
  if maxQdepth = 0 ∨ numThreads < numProdThreads ∨ numThreads = 0 then none
  else
    some
      { conFlags := initFlags
        stateFlags := fun _ => { ready := false, error := false, halted := false }
        workpkg := List.replicate maxQdepth none
        qdepth := 0, maxQdepth := maxQdepth, head := 0, tail := 0
        prodPool :=
          if numProdThreads > 0 then some { startTID := 0, numThrds := numProdThreads } else none
        consPool :=
          if numThreads > numProdThreads then
            some { startTID := numProdThreads, numThrds := numThreads - numProdThreads }
          else none }

/-! ## What threads do with the lock held -/

/-- What happens to packages and threads.  A master has no thread ID. -/
inductive Event (α : Type) where
  | produced (tID : Nat) (work : α)
  | released (tID : Nat) (work : α)
  | enqueued (tID : Option Nat) (work : Option α)
  | dequeued (tID : Option Nat) (work : Option α)
  | terminated (tID : Nat) (flags : ControlFlags)
  deriving DecidableEq, Repr

/-- What a pause or resume function does: it succeeds or not, and leaves the package or takes it. -/
structure Callback where
  ok : Bool
  leaves : Bool
  deriving DecidableEq, Repr

/-- What the functions of a thread return in one step. -/
structure Input (α : Type) where
  init : Int
  work : Option α
  res : Int
  pause : Callback
  resume : Callback

/-- Where a thread is when it does not hold the lock: it has yet to initialize, waits for a halt to end
before its first package, works, waits in its main loop, or has exited. -/
inductive Point where
  | starting
  | entering
  | working
  | waiting
  | exited
  deriving DecidableEq, Repr

/-- The queue and the package of the thread that holds the lock, with what has happened, the last event
first. -/
structure Section (α : Type) where
  tq : ThreadQueue α
  curWork : Option α
  events : List (Event α)

namespace Section

variable (tID : Nat)

/-- A pause or resume function gets the package of the thread. -/
def call (callback : Callback) (s : Section α) : Section α :=
  match s.curWork with
  | none => s
  | some work =>
    if callback.leaves then s
    else { s with curWork := none, events := .released tID work :: s.events }

def fail (s : Section α) : Section α :=
  { s with
    tq := ({ s.tq with conFlags := { s.tq.conFlags with abort := true } } : ThreadQueue α).mark tID
      fun flags => { flags with error := true } }

def generalThreadPauseBehavior (pause : Callback) (s : Section α) : Section α × Bool :=
  if s.tq.conFlags.halt then
    let s := s.call tID pause
    if pause.ok then
      ({ s with tq := s.tq.mark tID fun flags => { flags with halted := true } }, true)
    else (s.fail tID, false)
  else (s, true)

def generalThreadResumeBehavior (resume : Callback) (s : Section α) : Section α × Bool :=
  if (s.tq.stateFlags tID).halted ∧ s.tq.conFlags.halt = false then
    let s := { s with tq := s.tq.mark tID fun flags => { flags with halted := false } }
    let s := s.call tID resume
    if resume.ok then (s, true) else (s.fail tID, false)
  else (s, true)

def generalThreadPostWorkBehavior (workRes : Int) (s : Section α) : Section α :=
  let flags := s.tq.conFlags
  if workRes < 0 then s.fail tID
  else if workRes = 1 then
    if flags.abort then s else { s with tq := { s.tq with conFlags := { flags with finished := true } } }
  else if workRes > 1 then
    if flags.abort ∨ flags.finished then s
    else { s with tq := { s.tq with conFlags := { flags with halt := true } } }
  else s

def generalThreadTermBehavior (s : Section α) : Section α :=
  { s with
    tq := s.tq.mark tID fun flags => { flags with ready := false }
    events := .terminated tID s.tq.conFlags :: s.events }

/-- A thread has initialized. -/
def ready (s : Section α) : Section α :=
  { s with tq := s.tq.mark tID fun flags => { flags with ready := true } }

/-! ### Producers -/

/-- The action of a producer behind its holding pattern. -/
def produce (s : Section α) : Section α × Point :=
  if s.tq.conFlags.abort then (s.generalThreadTermBehavior tID, .exited)
  else
    let s : Section α :=
      match s.curWork with
      | none => s
      | some work =>
        { tq := s.tq.store (some work), curWork := none
          events := .enqueued (some tID) (some work) :: s.events }
    if s.tq.conFlags.finished then (s.generalThreadTermBehavior tID, .exited) else (s, .working)

/-- The holding pattern of a producer: wait while there is no space, or while the queue is halted and
not finished. -/
def holdProducer (pause : Callback) (s : Section α) : Section α × Point :=
  let flags := s.tq.conFlags
  if (s.tq.qdepth = s.tq.maxQdepth ∨ (flags.halt = true ∧ flags.finished = false)) ∧
      flags.abort = false then
    match s.generalThreadPauseBehavior tID pause with
    | (s, true) => (s, .waiting)
    | (s, false) => s.produce tID
  else s.produce tID

def enterProducer (pause : Callback) (s : Section α) : Section α × Point :=
  let flags := s.tq.conFlags
  if flags.halt ∧ ¬(flags.abort ∨ flags.finished) then
    match s.generalThreadPauseBehavior tID pause with
    | (s, true) => (s, .entering)
    | (s, false) => (s, .working)
  else (s, .working)

def generated (work : Option α) (s : Section α) : Section α :=
  match work with
  | none => { s with curWork := none }
  | some work => { s with curWork := some work, events := .produced tID work :: s.events }

def producerThread (input : Input α) (s : Section α) : Point → Option (Section α × Point)
  | .starting =>
    if input.init ≠ 0 then some (s.fail tID, .exited)
    else some ((s.ready tID).enterProducer tID input.pause)
  | .entering =>
    match s.generalThreadResumeBehavior tID input.resume with
    | (s, true) => some (s.enterProducer tID input.pause)
    | (s, false) => some (s, .working)
  | .working =>
    some (((s.generated tID input.work).generalThreadPostWorkBehavior tID input.res).holdProducer tID
      input.pause)
  | .waiting =>
    match s.generalThreadResumeBehavior tID input.resume with
    | (s, true) => some (s.holdProducer tID input.pause)
    | (s, false) => some (s.produce tID)
  | .exited => none

/-! ### Consumers -/

def done (s : Section α) : Bool :=
  s.tq.conFlags.finished && tqThreadsTerminated s.tq s.tq.prodPool

/-- The action of a consumer behind its holding pattern. -/
def consume (s : Section α) : Section α × Point :=
  if s.tq.conFlags.abort ∨ (s.tq.qdepth = 0 ∧ s.done) then
    (s.generalThreadTermBehavior tID, .exited)
  else
    ({ tq := ({ s.tq with workpkg := s.tq.workpkg.set s.tq.head none } : ThreadQueue α).advance
       curWork := s.tq.first, events := .dequeued (some tID) s.tq.first :: s.events }, .working)

/-- The holding pattern of a consumer: wait while there is no work or the queue is halted, but not when
it is finished with no producers remaining. -/
def holdConsumer (pause : Callback) (s : Section α) : Section α × Point :=
  let flags := s.tq.conFlags
  if (s.tq.qdepth = 0 ∨ flags.halt) ∧ flags.abort = false ∧ s.done = false then
    match s.generalThreadPauseBehavior tID pause with
    | (s, true) => (s, .waiting)
    | (s, false) => s.consume tID
  else s.consume tID

def consumerThread (input : Input α) (s : Section α) : Point → Option (Section α × Point)
  | .starting =>
    if input.init ≠ 0 then some (s.fail tID, .exited)
    else some ((s.ready tID).holdConsumer tID input.pause)
  | .working =>
    some ((({ s with curWork := none } : Section α).generalThreadPostWorkBehavior tID
      input.res).holdConsumer tID input.pause)
  | .waiting =>
    match s.generalThreadResumeBehavior tID input.resume with
    | (s, true) => some (s.holdConsumer tID input.pause)
    | (s, false) => some (s.consume tID)
  | .entering => none
  | .exited => none

end Section

/-! ## What a master does -/

def tqEnqueue (tq : ThreadQueue α) (ignoreFlags : ControlFlags) (workbuff : Option α) :
    Option (Option (ThreadQueue α)) :=
  if tq.qdepth = tq.maxQdepth ∧ (tq.conFlags.unset ignoreFlags).any = false then none
  else if (tq.conFlags.unset ignoreFlags).any then some none
  else some (some (tq.store workbuff))

/-- `tq_dequeue`: a failure or an empty queue, or the package with the queue that is left; it waits
while it is `none`. -/
def tqDequeue (tq : ThreadQueue α) (ignoreFlags : ControlFlags) :
    Option (Option (Option α × ThreadQueue α)) :=
  if tq.qdepth = 0 ∧ tq.conFlags.any = false then none
  else if (tq.conFlags.unset { ignoreFlags with finished := true }).any then some none
  else if tq.qdepth = 0 then some none
  else some (some (tq.first, tq.advance))

def tqSetFlags (tq : ThreadQueue α) (flags : ControlFlags) : ThreadQueue α :=
  { tq with conFlags := tq.conFlags.set flags }

def tqUnsetFlags (tq : ThreadQueue α) (flags : ControlFlags) : ThreadQueue α :=
  { tq with conFlags := tq.conFlags.unset flags }

/-! ## Runs -/

/-- A thread that does not hold the lock. -/
structure Thread (α : Type) where
  point : Point
  curWork : Option α
  deriving DecidableEq, Repr

/-- Who does what next. -/
inductive Action (α : Type) where
  | producer (tID : Nat) (input : Input α)
  | consumer (tID : Nat) (input : Input α)
  | enqueue (ignoreFlags : ControlFlags) (workbuff : Option α)
  | dequeue (ignoreFlags : ControlFlags)
  | setFlags (flags : ControlFlags)
  | unsetFlags (flags : ControlFlags)

structure System (α : Type) where
  tq : ThreadQueue α
  threads : Nat → Thread α
  events : List (Event α)

namespace System

def start (tq : ThreadQueue α) : System α :=
  { tq := tq, threads := fun _ => { point := .starting, curWork := none }, events := [] }

def lock (s : System α) (tID : Nat) : Section α :=
  { tq := s.tq, curWork := (s.threads tID).curWork, events := s.events }

def unlock (s : System α) (tID : Nat) (result : Section α × Point) : System α :=
  { tq := result.1.tq
    threads := fun t => if t = tID then { point := result.2, curWork := result.1.curWork }
      else s.threads t
    events := result.1.events }

def step (s : System α) : Action α → Option (System α)
  | .producer tID input =>
    if s.tq.Producer tID then
      ((s.lock tID).producerThread tID input (s.threads tID).point).map (s.unlock tID)
    else none
  | .consumer tID input =>
    if s.tq.Consumer tID then
      ((s.lock tID).consumerThread tID input (s.threads tID).point).map (s.unlock tID)
    else none
  | .enqueue ignoreFlags workbuff =>
    (tqEnqueue s.tq ignoreFlags workbuff).map fun result =>
      match result with
      | none => s
      | some tq => { s with tq := tq, events := .enqueued none workbuff :: s.events }
  | .dequeue ignoreFlags =>
    (tqDequeue s.tq ignoreFlags).map fun result =>
      match result with
      | none => s
      | some (work, tq) => { s with tq := tq, events := .dequeued none work :: s.events }
  | .setFlags flags => some { s with tq := tqSetFlags s.tq flags }
  | .unsetFlags flags => some { s with tq := tqUnsetFlags s.tq flags }

def Runs (allowed : System α → Action α → Prop) (init s : System α) : Prop :=
  Relation.ReflTransGen
    (fun s s' => ∃ action, allowed s action ∧ s.step action = some s' ∧
      s'.tq.conFlags.abort = false) init s

end System

end Marfs.Tq
