import Mathlib.Data.Nat.Basic

/-!
# Rebuild tags

`Rtag` records what a client learned about a damaged object: the stripe sizes and, for each block
of the stripe, whether its metadata and its data are in error.
-/

namespace Marfs.Tagging

structure NeState where
  versz : Nat
  blocksz : Nat
  totsz : Nat
  metaStatus : List Bool
  dataStatus : List Bool
  deriving DecidableEq, Repr

structure Rtag where
  majorversion : Nat
  minorversion : Nat
  createtime : Int
  stripewidth : Nat
  stripestate : NeState
  deriving DecidableEq, Repr

end Marfs.Tagging
