import Marfs.Config.Traverse
import Marfs.Datastream.Stream

/-!
# Permissions

A namespace has permissions for interactive and for batch use.  What the entry points of MarFS do to
files they do by calls of an MDAL or of a datastream, on one or two positions; `Op.needs` says which
permissions a call needs there.
-/

namespace Marfs.Api

open Marfs.Config
open Marfs.Datastream (StreamType)

/-! ## Namespaces -/

inductive Interface where
  | interactive
  | batch
  deriving DecidableEq, Repr

def nsReadmeta : Nat := 1

def nsWritemeta : Nat := 2

def nsRwmeta : Nat := 3

def nsReaddata : Nat := 4

def nsWritedata : Nat := 8

def Grants (itype : Interface) (ns : MarfsNs) (perm : Nat) : Prop :=
  match itype with
  | .interactive => ns.iperms &&& perm ≠ 0
  | .batch => ns.bperms &&& perm ≠ 0

instance (itype : Interface) (ns : MarfsNs) (perm : Nat) : Decidable (Grants itype ns perm) :=
  match itype with
  | .interactive => inferInstanceAs (Decidable (ns.iperms &&& perm ≠ 0))
  | .batch => inferInstanceAs (Decidable (ns.bperms &&& perm ≠ 0))

/-- The check of the entry points. -/
def denies (itype : Interface) (ns : MarfsNs) (perm : Nat) : Bool :=
  (itype ≠ .interactive && ns.bperms &&& perm = 0) || (itype ≠ .batch && ns.iperms &&& perm = 0)

theorem denies_eq_false {itype : Interface} {ns : MarfsNs} {perm : Nat} :
    denies itype ns perm = false ↔ Grants itype ns perm := by
  cases itype <;> simp [denies, Grants]

/-! ## Calls -/

def oAccmode : Nat := 3

def oRdonly : Nat := 0

def oWronly : Nat := 1

def oRdwr : Nat := 2

def oCreat : Nat := 64

def oTrunc : Nat := 512

def oAsync : Nat := 8192

/-- A function of the MDAL or the datastream module. -/
inductive Op where
  | access
  | accessnamespace
  | stat
  | statnamespace
  | chmod
  | chmodnamespace
  | chown
  | chownnamespace
  | rename
  | symlink
  | readlink
  | unlink
  | link
  | utimens
  | mkdir
  | rmdir
  | destroynamespace
  | statvfs
  | fstat
  | futimens
  | fsetxattr
  | fgetxattr
  | fremovexattr
  | flistxattr
  | opendir
  | opendirnamespace
  | closedir
  | chdir
  | dsetxattr
  | dgetxattr
  | dremovexattr
  | dlistxattr
  | open (flags : Nat)
  | close
  | read
  | lseek
  | ftruncate
  | datastreamCreate
  | datastreamOpen
  | datastreamClose
  | datastreamRelease
  | datastreamSetrecoverypath
  | datastreamRead
  | datastreamWrite
  | datastreamSeek
  | datastreamChunkbounds
  | datastreamTruncate
  | datastreamExtend (type : StreamType)
  | datastreamUtimens
  deriving DecidableEq, Repr

/-- The permissions a call needs at its positions.  Only a stream that creates a file extends it: any
other is refused by `datastream_extend`. -/
def Op.needs : Op → List Nat
  | .chmod | .chmodnamespace | .chown | .chownnamespace => [nsWritemeta]
  | .rename | .symlink | .unlink | .link | .utimens => [nsWritemeta]
  | .mkdir | .rmdir | .destroynamespace => [nsWritemeta]
  | .futimens | .datastreamUtimens => [nsWritemeta]
  | .fsetxattr | .fremovexattr | .dsetxattr | .dremovexattr => [nsWritemeta]
  | .datastreamCreate => [nsWritemeta]
  | .open flags =>
    (if flags &&& oCreat ≠ 0 then [nsWritemeta] else []) ++
      if flags &&& oTrunc ≠ 0 then [nsWritedata] else []
  | .datastreamWrite | .datastreamTruncate | .ftruncate => [nsWritedata]
  | .datastreamExtend type => if type = .create then [nsWritedata] else []
  | _ => []

structure Call where
  op : Op
  itype : Interface
  positions : List NsRef
  deriving DecidableEq, Repr

def Call.Permitted (config : MarfsConfig) (call : Call) : Prop :=
  ∀ ref ∈ call.positions, ∀ perm ∈ call.op.needs, Grants call.itype (config.deref ref) perm

instance (config : MarfsConfig) (call : Call) : Decidable (call.Permitted config) :=
  inferInstanceAs (Decidable (∀ ref ∈ call.positions, ∀ perm ∈ call.op.needs,
    Grants call.itype (config.deref ref) perm))

theorem Call.permitted_of_needs {config : MarfsConfig} {call : Call} (h : call.op.needs = []) :
    call.Permitted config := by
  intro ref _ perm hperm
  rw [h] at hperm
  cases hperm

/-! ## Replies -/

inductive Errno where
  | eperm
  | eexist
  | einval
  | eisdir
  | edquot
  | ebadfd
  | left
  deriving DecidableEq, Repr

/-- What an entry point returns: a failure of its own, or what the last call returned. -/
inductive Reply where
  | refused (errno : Errno)
  | returned
  deriving DecidableEq, Repr

/-- The reply of an entry point, and the calls it issued. -/
structure Outcome where
  reply : Reply
  calls : List Call
  deriving DecidableEq, Repr

/-- A failure without a call. -/
def Outcome.refuse (errno : Errno) : Outcome := ⟨.refused errno, []⟩

def Outcome.issue (op : Op) (itype : Interface) (positions : List NsRef) : Outcome :=
  ⟨.returned, [⟨op, itype, positions⟩]⟩

def Outcome.Permitted (config : MarfsConfig) (outcome : Outcome) : Prop :=
  ∀ call ∈ outcome.calls, call.Permitted config

theorem Outcome.permitted_refuse (config : MarfsConfig) (errno : Errno) :
    (Outcome.refuse errno).Permitted config := fun _ h => nomatch h

theorem Outcome.permitted_issue {config : MarfsConfig} {op : Op} {itype : Interface}
    {positions : List NsRef} (h : Call.Permitted config ⟨op, itype, positions⟩) :
    (Outcome.issue op itype positions).Permitted config := by
  intro call hcall
  rw [List.mem_singleton.1 hcall]
  exact h

end Marfs.Api
