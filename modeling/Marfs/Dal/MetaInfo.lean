import Mathlib.Init

/-!
# The metadata of a block

Every block of an object carries the same description of the object, and the checksum of its own data.
-/

namespace Marfs.Dal

structure MetaInfo where
  N : Int
  E : Int
  O : Int
  partsz : Int
  versz : Int
  blocksz : Int
  crcsum : Int
  totsz : Int
  deriving DecidableEq, Repr

/-- `cmp_minfo`: zero if they match, apart from the checksum. -/
def cmpMinfo (minfo1 minfo2 : MetaInfo) : Int :=
  if minfo1.N ≠ minfo2.N then -1
  else if minfo1.E ≠ minfo2.E then -1
  else if minfo1.O ≠ minfo2.O then -1
  else if minfo1.partsz ≠ minfo2.partsz then -1
  else if minfo1.versz ≠ minfo2.versz then -1
  else if minfo1.blocksz ≠ minfo2.blocksz then -1
  else if minfo1.totsz ≠ minfo2.totsz then -1
  else 0

end Marfs.Dal
