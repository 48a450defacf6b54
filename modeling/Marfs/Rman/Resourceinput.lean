import Marfs.Rman.Packages

/-!
# Resource input

The producer threads of a rank share one `resourceinput`: a range of reference directories to scan, or
a log whose ops are to be executed.  A thread that has nothing left of its own takes the next input,
waits for one, or, once the master ends the input, waits for the termination of all.

Every section that holds the lock of the input is one step here (`Inputs.step`), and a wait on a
condition may end at any time, as it may for a thread that wakes spuriously.  No call fails, and
nothing purges the input.
-/

namespace Marfs.Rman

/-! ## The input -/

/-- `resourceinput_struct`.  The ops of the input log are those `resourcelog_readop` is yet to parse. -/
structure Resourceinput where
  rlog : Option (List (List Opinfo))
  refindex : Nat
  refmax : Nat
  prepterm : Nat
  clientcount : Nat
  refnodecount : Nat
  refindex_le : refindex ≤ refmax

namespace Resourceinput

def init (refnodecount clientcount : Nat) : Resourceinput :=
  { rlog := none, refindex := 0, refmax := 0, prepterm := 0, clientcount := clientcount
    refnodecount := refnodecount, refindex_le := Nat.le_refl 0 }

/-- All inputs have been passed out. -/
def Exhausted (rin : Resourceinput) : Prop := rin.rlog = none ∧ rin.refindex = rin.refmax

instance (rin : Resourceinput) : Decidable rin.Exhausted :=
  inferInstanceAs (Decidable (rin.rlog = none ∧ rin.refindex = rin.refmax))

def setlogpath (rin : Resourceinput) (ops : List (List Opinfo)) : Option Resourceinput :=
  if rin.rlog.isSome ∨ rin.prepterm ≠ 0 then none else some { rin with rlog := some ops }

def setrange (rin : Resourceinput) (start stop : Nat) : Option Resourceinput :=
  if h : rin.refindex ≠ rin.refmax ∨ rin.prepterm ≠ 0 ∨ start ≥ stop ∨ stop > rin.refnodecount then
    none
  else
    some { rin with refindex := start, refmax := stop, refindex_le := by omega }

/-- The loop of `resourceinput_getnext` over the rest of the range: the directory that could be
opened, and the index behind it. -/
def nextdir (opens : Nat → Bool) : Nat → Nat → Option Nat × Nat
  | 0, refindex => (none, refindex)
  | n + 1, refindex =>
    if opens refindex then (some refindex, refindex + 1) else nextdir opens n (refindex + 1)

theorem nextdir_le (opens : Nat → Bool) (n refindex : Nat) :
    refindex ≤ (nextdir opens n refindex).2 ∧ (nextdir opens n refindex).2 ≤ refindex + n := by
  induction n generalizing refindex with
  | zero => exact ⟨Nat.le_refl _, Nat.le_refl _⟩
  | succ n ih =>
    have := ih (refindex + 1)
    unfold nextdir
    split
    · omega
    · omega

/-- What `resourceinput_getnext` returns: `0`; `1` with an op, or with a scanner; or `10`. -/
inductive Next where
  | empty
  | op (nextop : List Opinfo)
  | dir (refindex : Nat)
  | prepare

/-- `resourceinput_getnext`; `opens` says which reference directories are there. -/
def getnext (opens : Nat → Bool) (rin : Resourceinput) : Resourceinput × Next :=
  match rin.rlog with
  | some (nextop :: ops) => ({ rin with rlog := some ops }, .op nextop)
  | _ =>
    -- the log, if any, has been completely read
    ({ rin with
        rlog := none
        refindex := (nextdir opens (rin.refmax - rin.refindex) rin.refindex).2
        refindex_le := by
          have := nextdir_le opens (rin.refmax - rin.refindex) rin.refindex
          have := rin.refindex_le
          omega },
      match (nextdir opens (rin.refmax - rin.refindex) rin.refindex).1 with
      | some refindex => .dir refindex
      | none => if rin.prepterm ≠ 0 then .prepare else .empty)

end Resourceinput

/-! ## The producers -/

/-- Where a producer is: in `rthread_producer_func`; waiting in `resourceinput_waitforupdate`; waiting
in `resourceinput_waitforterm`, with its `diddec` flag; or it has signaled `FINISHED`. -/
inductive Place where
  | producing
  | updating
  | terminating (diddec : Bool)
  | finished
  deriving DecidableEq, Repr

/-- `rthread_state`, of a producer, and where it is. -/
structure Producer where
  queues : Queues := {}
  walker : Bool := false
  scanner : Option Nat := none
  place : Place := .producing
  deriving DecidableEq, Repr

def Producer.Empty (producer : Producer) : Prop :=
  producer.queues = {} ∧ producer.walker = false ∧ producer.scanner = none

instance (producer : Producer) : Decidable producer.Empty :=
  inferInstanceAs (Decidable
    (producer.queues = {} ∧ producer.walker = false ∧ producer.scanner = none))

/-- What a producer comes upon with its walker or its scanner: the ops of an iteration, or the end of
the stream; the end of the directory, the start of a stream, or an entry that leaves its state alone. -/
inductive Sighting where
  | ops (queues : Queues)
  | streamEnd
  | dirEnd
  | stream
  | entry

/-- A turn of the loop of `rthread_producer_func` that does not reach for the input; `none` where the
producer cannot come upon this. -/
def Producer.useOwn (producer : Producer) (sighting : Sighting) : Option Producer :=
  match produceOps producer.queues with
  | some (_, queues) => some { producer with queues := queues }
  | none =>
    if producer.walker then
      match sighting with
      | .ops queues => some { producer with queues := queues }
      | .streamEnd => some { producer with walker := false }
      | _ => none
    else if producer.scanner.isSome then
      match sighting with
      | .dirEnd => some { producer with scanner := none }
      | .stream => some { producer with walker := true }
      | .entry => some producer
      | _ => none
    else none

def Producer.take (producer : Producer) : Resourceinput.Next → Producer
  | .empty => { producer with place := .updating }
  | .op nextop => { producer with queues := .of nextop }
  | .dir refindex => { producer with scanner := some refindex }
  | .prepare => { producer with place := .terminating false }

def waitforterm (rin : Resourceinput) (diddec : Bool) : Resourceinput × Place :=
  if rin.prepterm < 2 then
    if !diddec && rin.prepterm = 1 && rin.clientcount ≠ 0 then
      ({ rin with clientcount := rin.clientcount - 1 }, .terminating true)
    else (rin, .terminating diddec)
  else if rin.prepterm = 2 then ({ rin with clientcount := rin.clientcount + 1 }, .finished)
  else (rin, .finished)

/-! ## The master -/

/-- Where the master is: in none of the calls; waiting in `resourceinput_waitforcomp`, or back from it;
in the first or the second wait of `resourceinput_term`, which remembers the number of its clients;
or back from it. -/
inductive Master where
  | idle
  | completing
  | completed
  | synchronizing (origclientcount : Nat)
  | exiting (origclientcount : Nat)
  | terminated
  deriving DecidableEq, Repr

def waitforcomp (rin : Resourceinput) : Master :=
  if rin.Exhausted then .completed else .completing

def awaitExit (rin : Resourceinput) (origclientcount : Nat) : Resourceinput × Master :=
  if rin.prepterm < 3 ∧ rin.clientcount < origclientcount then (rin, .exiting origclientcount)
  else ({ rin with prepterm := 3 }, .terminated)

def awaitClients (rin : Resourceinput) (origclientcount : Nat) : Resourceinput × Master :=
  if rin.prepterm < 2 ∧ rin.clientcount ≠ 0 then (rin, .synchronizing origclientcount)
  else awaitExit { rin with prepterm := max rin.prepterm 2 } origclientcount

/-- `resourceinput_term` up to its first wait; `none` where it refuses. -/
def resourceinputTerm (rin : Resourceinput) : Option (Resourceinput × Master) :=
  if ¬ rin.Exhausted ∨ rin.prepterm > 2 then none
  else some (awaitClients { rin with prepterm := max rin.prepterm 1 } rin.clientcount)

/-! ## The system -/

/-- An index that was passed out: whether its directory was there, and the producer that got it. -/
structure Passed where
  index : Nat
  opened : Bool
  receiver : Option Nat
  deriving DecidableEq, Repr

/-- The input, its master and its producers.  The last four fields keep the history: the indices of all
ranges and the ops of all logs that were set, the indices that were passed out, and the ops that were
returned with the producer that got each. -/
structure Inputs where
  rin : Resourceinput
  master : Master
  producers : List Producer
  setdirs : List Nat
  setops : List (List Opinfo)
  passed : List Passed
  returned : List (List Opinfo × Nat)

namespace Inputs

/-- What happens next: a call or a wait of the master; a turn of a producer; or the end of its wait. -/
inductive Action where
  | setrange (start stop : Nat)
  | setlogpath (ops : List (List Opinfo))
  | waitforcomp
  | term
  | wake
  | turn (i : Nat) (opens : Nat → Bool) (sighting : Sighting)
  | resume (i : Nat)

def Free (s : Inputs) : Prop := s.master = .idle ∨ s.master = .completed

instance (s : Inputs) : Decidable s.Free :=
  inferInstanceAs (Decidable (s.master = .idle ∨ s.master = .completed))

def skipped (opens : Nat → Bool) (refindex stop : Nat) : List Passed :=
  (List.range' refindex (stop - refindex)).map fun index => ⟨index, opens index, none⟩

def dirsPassed (opens : Nat → Bool) (i refindex : Nat) (rin : Resourceinput) :
    Resourceinput.Next → List Passed
  | .dir found => skipped opens refindex found ++ [⟨found, opens found, some i⟩]
  | _ => skipped opens refindex rin.refindex

def opsReturned (i : Nat) : Resourceinput.Next → List (List Opinfo × Nat)
  | .op nextop => [(nextop, i)]
  | _ => []

def getnext (s : Inputs) (i : Nat) (producer : Producer) (opens : Nat → Bool) : Inputs :=
  let (rin, next) := s.rin.getnext opens
  { s with
    rin := rin
    producers := s.producers.set i (producer.take next)
    passed := s.passed ++ dirsPassed opens i s.rin.refindex rin next
    returned := s.returned ++ opsReturned i next }

def step (s : Inputs) : Action → Option Inputs
  | .setrange start stop =>
    if s.Free then
      match s.rin.setrange start stop with
      | none => some s
      | some rin =>
        some { s with
          rin := rin, master := .idle, setdirs := s.setdirs ++ List.range' start (stop - start) }
    else none
  | .setlogpath ops =>
    if s.Free then
      match s.rin.setlogpath ops with
      | none => some s
      | some rin => some { s with rin := rin, master := .idle, setops := s.setops ++ ops }
    else none
  | .waitforcomp => if s.Free then some { s with master := Rman.waitforcomp s.rin } else none
  | .term =>
    if s.Free then
      match resourceinputTerm s.rin with
      | none => some s
      | some (rin, master) => some { s with rin := rin, master := master }
    else none
  | .wake =>
    match s.master with
    | .completing => some { s with master := Rman.waitforcomp s.rin }
    | .synchronizing origclientcount =>
      let (rin, master) := awaitClients s.rin origclientcount
      some { s with rin := rin, master := master }
    | .exiting origclientcount =>
      let (rin, master) := awaitExit s.rin origclientcount
      some { s with rin := rin, master := master }
    | _ => none
  | .turn i opens sighting => do
    let producer ← s.producers[i]?
    if producer.place ≠ .producing then none
    else if producer.Empty then some (s.getnext i producer opens)
    else (producer.useOwn sighting).map fun producer =>
      { s with producers := s.producers.set i producer }
  | .resume i => do
    let producer ← s.producers[i]?
    match producer.place with
    | .updating =>
      if s.rin.Exhausted ∧ s.rin.prepterm = 0 then some s
      else some { s with producers := s.producers.set i { producer with place := .producing } }
    | .terminating diddec =>
      let (rin, place) := waitforterm s.rin diddec
      some { s with rin := rin, producers := s.producers.set i { producer with place := place } }
    | _ => none

def init (refnodecount clients : Nat) : Inputs :=
  { rin := .init refnodecount clients, master := .idle, producers := List.replicate clients {}
    setdirs := [], setops := [], passed := [], returned := [] }

/-- The states that some interleaving of the calls leads to. -/
inductive Reaches (refnodecount clients : Nat) : Inputs → Prop
  | init : Reaches refnodecount clients (init refnodecount clients)
  | step {s s'} (h : Reaches refnodecount clients s) (action : Action)
      (hstep : s.step action = some s') : Reaches refnodecount clients s'

def run : Inputs → List Action → Option Inputs
  | s, [] => some s
  | s, action :: actions => (s.step action).bind fun s => s.run actions

theorem Reaches.run {refnodecount clients : Nat} {s s' : Inputs} {actions : List Action}
    (h : Reaches refnodecount clients s) (hrun : s.run actions = some s') :
    Reaches refnodecount clients s' := by
  induction actions generalizing s with
  | nil =>
    obtain rfl : s = s' := Option.some.inj hrun
    exact h
  | cons action actions ih =>
    obtain ⟨s₁, hstep, hrun⟩ := Option.bind_eq_some_iff.1 hrun
    exact ih (h.step action hstep) hrun

end Inputs

end Marfs.Rman
