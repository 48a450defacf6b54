import Marfs.Rman.Progress
import Marfs.Rman.Deleteref

/-!
# Distributing the work of a GC chain

A producer thread takes the chain of its stream walker apart: the objects of the `DEL-OBJ` ops go
out one by one, each in a package that ends in a copy of the `DEL-REF` segment.  Worker threads run
the packages in any order.  A worker executes the head of its package, logs the completion, and goes
on to the next segment as the progress flag allows, which is how one of the copies is meant to run
once all objects are gone.

`Work` is the state of the whole: what the producer still holds, the packages that wait and those
whose completion is yet to be logged, and the log they share with all other chains.  Copying an op
does not fail here: `malloc` and `strdup` have memory.
-/

namespace Marfs.Rman

open Tagging

/-! ## The producer -/

def refSegment (opchain : List Opinfo) : List Opinfo :=
  opchain.dropWhile fun op => op.type ≠ .deleteRef

namespace Opinfo

/-- The leading objects that an object deletion skips. -/
def offset (op : Opinfo) : Nat :=
  match op.extendedinfo with
  | .delobj info => info.offset
  | _ => 0

/-- Leave the first object to somebody else. -/
def skipObject (op : Opinfo) : Opinfo :=
  { op with
    count := op.count - 1
    extendedinfo := .delobj { offset := op.offset + 1 } }

def objects (op : Opinfo) : List (Ftag × Nat) :=
  if op.type = .deleteObj then (List.range' op.offset op.count).map fun i => (op.ftag, i) else []

end Opinfo

/-- The GC branch of `rthread_producer_func`: the next package, and the ops the producer keeps. -/
def produceGc (gcops : List Opinfo) : List Opinfo × List Opinfo :=
  match gcops with
  | [] => ([], [])
  | op :: next =>
    let refdel := refSegment (op :: next)
    if op.type = .deleteObj then
      if op.count > 1 then ({ op with count := 1 } :: refdel, op.skipObject :: next)
      -- suffixes of one chain are the same iff they are of one length; an empty segment has no copy
      else if next.length ≠ refdel.length ∧ refdel ≠ [] then (op :: refdel, next)
      else (op :: next, [])
    else (op :: next, [])

/-! ## The workers -/

/-- The loop of `process_deleteobj` over `count` objects from an index on: the error it stops at.
`remove` deletes an object; that it was gone already is no error. -/
def removeObjects (remove : Ftag → Int) (ftag : Ftag) : Nat → Nat → Int
  | _, 0 => 0
  | i, count + 1 =>
    let errval := remove { ftag with objno := ftag.objno + i }
    if errval ≠ 0 then errval else removeObjects remove ftag (i + 1) count

def deleteobj (remove : Ftag → Int) (op : Opinfo) : Opinfo :=
  let errval := removeObjects remove op.ftag op.offset op.count
  { op with start := false, errval := if errval ≠ 0 then errval else op.errval }

def processDeleteobj (remove : Ftag → Int) (op : List Opinfo) : List Opinfo :=
  op.map (deleteobj remove)

def executeGc (remove : Ftag → Int) (refs : Refs) : List Opinfo → List Opinfo
  | [] => []
  | op :: ops =>
    match op.type with
    | .deleteObj => processDeleteobj remove (op :: ops)
    | _ => (processDeleteref refs (op :: ops)).2

/-- A package that waits for a worker, or for the next turn of its worker. -/
structure Package where
  ops : List Opinfo
  abortops : Bool
  deriving DecidableEq, Repr

/-- A turn between execution and log: what is to be logged, and the ops that follow. -/
structure Executed where
  message : List Opinfo
  nextop : List Opinfo
  abortops : Bool
  deriving DecidableEq, Repr

/-- The state of the producer, its packages and the log.  The last four fields keep the history:
the objects that `process_deleteobj` was handed, the object deletions whose completion was sent to
the log, how often a copy of the `DEL-REF` segment was executed, and whether every line of the log
was written. -/
structure Work where
  log : Resourcelog
  gcops : List Opinfo
  ready : List Package
  running : List Executed
  handed : List (Ftag × Nat)
  completed : List Opinfo
  refruns : Nat
  written : Bool

/-- What happens next: the producer fills a package; a worker executes a package that is ready; a
worker logs what it executed; or somebody logs a message about another chain. -/
inductive Action where
  | produce
  | execute (i : Nat) (remove : Ftag → Int) (refs : Refs)
  | complete (i : Nat) (printed : Bool)
  | other (message : List Opinfo)

def Package.runs (package : Package) (type : OperationType) : Bool :=
  !package.abortops && package.ops.head?.any fun op => op.type = type

def Package.leading (package : Package) : List (Ftag × Nat) :=
  (package.ops.head?.map Opinfo.objects).getD []

def Executed.turn (lookup : List Char → Nat) (printed : Bool) (log : Resourcelog)
    (executed : Executed) : Resourcelog × Option Package :=
  let processed := resourcelogProcessop lookup printed log executed.message
  let progress := processed.progress.getD 0
  if processed.result ≠ .ok ∨ progress = 0 ∨ executed.nextop = [] then (processed.log, none)
  else
    (processed.log,
      some { ops := executed.nextop, abortops := executed.abortops || progress < 0 })

namespace Work

def step (lookup : List Char → Nat) (s : Work) : Action → Option Work
  | .produce =>
    if s.gcops = [] then none
    else
      let (newop, gcops) := produceGc s.gcops
      some { s with gcops := gcops, ready := s.ready ++ [{ ops := newop, abortops := false }] }
  | .execute i remove refs => do
    let package ← s.ready[i]?
    let (message, nextop) ← turnMessage (executeGc remove refs) package.abortops package.ops
    some { s with
      ready := s.ready.eraseIdx i
      running := s.running ++
        [{ message := message, nextop := nextop, abortops := package.abortops }]
      handed := if package.runs .deleteObj then s.handed ++ package.leading else s.handed
      refruns := if package.runs .deleteRef then s.refruns + 1 else s.refruns }
  | .complete i printed => do
    let executed ← s.running[i]?
    let (log, next) := executed.turn lookup printed s.log
    some { s with
      log := log
      ready := s.ready ++ next.toList
      running := s.running.eraseIdx i
      completed := s.completed ++ executed.message.filter fun op => op.type = .deleteObj
      written := s.written && printed }
  | .other message => some { s with log := (processopinfo lookup s.log message).log }

/-- The producer has just logged a chain, and holds all of it. -/
def init (lookup : List Char → Nat) (log : Resourcelog) (gcops : List Opinfo) : Work :=
  { log := (processopinfo lookup log gcops).log, gcops := gcops, ready := [], running := []
    handed := [], completed := [], refruns := 0, written := true }

/-- Nothing is left to do. -/
def Done (s : Work) : Prop := s.gcops = [] ∧ s.ready = [] ∧ s.running = []

end Work

theorem executeTurn_eq_turn (lookup : List Char → Nat) (printed : Bool)
    (execute : List Opinfo → List Opinfo) (log : Resourcelog) {ops message nextop : List Opinfo}
    {abortops : Bool} (h : turnMessage execute abortops ops = some (message, nextop))
    (hnext : nextop ≠ []) :
    let turn := Executed.turn lookup printed log
      { message := message, nextop := nextop, abortops := abortops }
    let executed := executeTurn lookup printed execute log ops abortops
    executed.1 = turn.1 ∧
      ∀ ops abortops, executed.2 = .next ops abortops ↔
        turn.2 = some { ops := ops, abortops := abortops } := by
  intro turn executed
  simp only [turn, executed, executeTurn, h, Executed.turn, hnext, or_false]
  by_cases hok : (resourcelogProcessop lookup printed log message).result = .ok
  · by_cases hzero : (resourcelogProcessop lookup printed log message).progress.getD 0 = 0
    · simp [hok, hzero]
    · simp [hok, hzero]
  · simp [hok]

/-! ## Chains that are handed to a producer -/

/-- A chain of object deletions with the reference deletions they make way for, as a stream walker
builds it: no op is empty of objects, and the log can tell the ops apart. -/
structure GcChain where
  delobjs : List Opinfo
  delrefs : List Opinfo
  delobj_type : ∀ op ∈ delobjs, op.type = .deleteObj
  delref_type : ∀ op ∈ delrefs, op.type = .deleteRef
  delrefs_ne : delrefs ≠ []
  start : ∀ op ∈ delobjs ++ delrefs, op.start = true
  errval : ∀ op ∈ delobjs, op.errval = 0
  count_pos : ∀ op ∈ delobjs, 0 < op.count
  distinct : delobjs.Pairwise fun op op' => op.matches op' = false
  ctag : List Char
  streamid : List Char
  stream : ∀ op ∈ delobjs ++ delrefs, op.ftag.ctag = ctag ∧ op.ftag.streamid = streamid

namespace GcChain

def ops (chain : GcChain) : List Opinfo := chain.delobjs ++ chain.delrefs

def objects (chain : GcChain) : List (Ftag × Nat) := chain.delobjs.flatMap Opinfo.objects

def Fresh (chain : GcChain) (lookup : List Char → Nat) (log : Resourcelog) : Prop :=
  log.type = .modify ∧
    ∀ op ∈ chain.delobjs, searchNode op (log.inprogress (lookup chain.streamid)) = none

end GcChain

/-- A message about another chain: on another stream, or with another op. -/
def Foreign (chain : GcChain) (message : List Opinfo) : Prop :=
  ∀ newop ∈ message.head?,
    newop.ftag.ctag = chain.ctag → newop.ftag.streamid = chain.streamid →
      ∀ op ∈ chain.ops, op.matches newop = false

/-- The message settles the last outstanding object deletion of the chain, and its op is free of
errors, but another object deletion of the chain is not. -/
def Found.Masks (found : Found) (op : Opinfo) : Prop :=
  ∃ old rest, found.tail = old :: rest ∧ op.count = old.count ∧ (old.complete op).errval = 0 ∧
    (∀ other ∈ found.pre ++ rest, other.type = .deleteObj → other.count = 0) ∧
    ∃ other ∈ found.pre ++ rest, other.type = .deleteObj ∧ other.errval ≠ 0

instance (found : Found) (op : Opinfo) : Decidable (found.Masks op) :=
  match htail : found.tail with
  | [] => .isFalse fun ⟨_, _, h, _⟩ => by simp [htail] at h
  | old :: rest =>
    decidable_of_iff (op.count = old.count ∧ (old.complete op).errval = 0 ∧
        (∀ other ∈ found.pre ++ rest, other.type = .deleteObj → other.count = 0) ∧
        ∃ other ∈ found.pre ++ rest, other.type = .deleteObj ∧ other.errval ≠ 0)
      ⟨fun h => ⟨old, rest, htail, h⟩, fun ⟨_, _, h, hmasks⟩ => by
        rw [htail] at h
        obtain ⟨rfl, rfl⟩ := List.cons.inj h
        exact hmasks⟩

def Work.Unmasked (lookup : List Char → Nat) (s : Work) : Action → Prop
  | .complete i _ =>
    ∀ executed ∈ s.running[i]?, ∀ op, executed.message = [op] → op.type = .deleteObj →
      ∀ found, searchNode op (s.log.inprogress (lookup op.ftag.streamid)) = some found →
        ¬ found.Masks op
  | _ => True

/-- The runs of a chain from the moment it is logged, where every step meets a condition.  Messages
about other chains come in between. -/
inductive Work.Reaches (lookup : List Char → Nat) (chain : GcChain)
    (condition : Work → Action → Prop) (log : Resourcelog) : Work → Prop
  | init : Reaches lookup chain condition log (Work.init lookup log chain.ops)
  | step {s s'} (h : Reaches lookup chain condition log s) (action : Action)
      (hforeign : ∀ message, action = .other message → Foreign chain message)
      (hcondition : condition s action) (hstep : s.step lookup action = some s') :
      Reaches lookup chain condition log s'

/-- What the distribution of a chain is meant to keep: the objects that were handed to
`process_deleteobj` and those in packages or still with the producer are the objects of the chain,
each once; the `DEL-REF` segment is executed at most once, and only after every object deletion was
completed without an error; and once nothing is left to do, all went well and the log was written,
it was executed. -/
structure Work.Distributed (chain : GcChain) (s : Work) : Prop where
  partition : (s.gcops.flatMap Opinfo.objects ++
    (s.ready.flatMap fun package => package.ops.flatMap Opinfo.objects) ++ s.handed).Perm
      chain.objects
  once : s.refruns ≤ 1
  after : s.refruns = 1 → (s.completed.flatMap Opinfo.objects).Perm chain.objects ∧
    ∀ op ∈ s.completed, op.errval = 0
  executed : s.Done → s.written = true → (∀ op ∈ s.completed, op.errval = 0) → s.refruns = 1

end Marfs.Rman
