import Mathlib.Data.Nat.Basic

/-!
# MarFS file tags

`Ftag` and `Gctag` are the tag structures `tagging.h` attaches to reference files: the position of
a file within its datastream, and the gap of deleted references that follows it.
-/

namespace Marfs.Tagging

/-- The data state held in the low bits of `FTAG_STATE`. -/
inductive DataState where
  | init
  | cached
  | sized
  | fin
  | comp
  deriving DecidableEq, Repr

def DataState.toNat : DataState → Nat
  | .init => 0
  | .cached => 1
  | .sized => 2
  | .fin => 3
  | .comp => 4

structure FtagState where
  data : DataState
  writeable : Bool
  readable : Bool
  deriving DecidableEq, Repr

/-- `ne_erasure`: the erasure layout of a file's data objects. -/
structure NeErasure where
  N : Int
  E : Int
  O : Int
  partsz : Nat
  deriving DecidableEq, Repr

structure Ftag where
  majorversion : Nat
  minorversion : Nat
  ctag : List Char
  streamid : List Char
  objfiles : Nat
  objsize : Nat
  refbreadth : Int
  refdepth : Int
  refdigits : Int
  fileno : Nat
  objno : Nat
  offset : Nat
  endofstream : Bool
  protection : NeErasure
  bytes : Nat
  availbytes : Nat
  recoverybytes : Nat
  state : FtagState
  deriving DecidableEq, Repr

/-- `ftag_cmp` finds a difference; it compares every field. -/
def ftagCmp (ftag₁ ftag₂ : Ftag) : Bool := ftag₁ ≠ ftag₂

/-- The tag renamed to another file of its stream. -/
def Ftag.atFile (ftag : Ftag) (fileno : Nat) : Ftag := { ftag with fileno := fileno }

/-- The tag moved to another object of its stream. -/
def Ftag.atObj (ftag : Ftag) (objno : Nat) : Ftag := { ftag with objno := objno }

@[simp] theorem Ftag.fileno_atFile (ftag : Ftag) (fileno : Nat) : (ftag.atFile fileno).fileno = fileno := rfl

@[simp] theorem Ftag.objno_atFile (ftag : Ftag) (fileno : Nat) :
    (ftag.atFile fileno).objno = ftag.objno := rfl

@[simp] theorem Ftag.objno_atObj (ftag : Ftag) (objno : Nat) : (ftag.atObj objno).objno = objno := rfl

@[simp] theorem Ftag.fileno_atObj (ftag : Ftag) (objno : Nat) : (ftag.atObj objno).fileno = ftag.fileno := rfl

def Ftag.unfinalized (ftag : Ftag) : Bool := decide (ftag.state.data.toNat < DataState.fin.toNat)

/-- `GCTAG`: how many references directly after a file were deleted, whether the stream ends
there, whether object zero is gone, and whether the deletion is still in progress. -/
structure Gctag where
  refcnt : Nat
  eos : Bool
  delzero : Bool
  inprog : Bool
  deriving DecidableEq, Repr

/-- The value a walker stores for a reference file that carries no GCTAG. -/
def Gctag.none : Gctag := { refcnt := 0, eos := false, delzero := false, inprog := false }

def sampleFtag (fileno objno : Nat) (endofstream : Bool) : Ftag :=
  { majorversion := 0, minorversion := 1, ctag := ['c'], streamid := ['s'], objfiles := 0
    objsize := 0, refbreadth := 1, refdepth := 1, refdigits := 1, fileno := fileno, objno := objno
    offset := 42, endofstream := endofstream
    protection := { N := 1, E := 0, O := 0, partsz := 1024 }
    bytes := 10, availbytes := 10, recoverybytes := 64
    state := { data := .comp, writeable := false, readable := true } }

end Marfs.Tagging
