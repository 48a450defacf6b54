import Marfs.Cstring.Decimal

/-!
# The recovery header of a data object

Every object of a datastream starts with the string of `recovery_headertostr`; its length decides
how much room an object leaves for file data.
-/

namespace Marfs.Recovery

open Cstring

structure RecoveryHeader where
  majorversion : Nat
  minorversion : Nat
  ctag : List Char
  streamid : List Char
  deriving DecidableEq, Repr

def msgHead : List Char := "\nRECOV(".toList

/-- `RECOVERY_MSGTAIL`. -/
def msgTail : List Char := ")\n".toList

def headerType : List Char := "HEADER||".toList

/-- `UINT_DIGITS`: the width both version numbers are padded to. -/
def uintDigits : Nat := 10

def recoveryHeadertostr (header : RecoveryHeader) : List Char :=
  msgHead ++ headerType ++ padded uintDigits header.majorversion ++ ['.'] ++
    padded uintDigits header.minorversion ++ ['|'] ++ header.ctag ++ ['|'] ++ header.streamid ++
    msgTail

end Marfs.Recovery
