import Marfs.Cstring.Decimal
import Marfs.Recovery.Header

/-!
# The recovery info of a file

Every object that holds data of a file also holds, behind that data, a string of
`recovery_finfotostr`.  Its length does not depend on the size of the file or its times, so that the
room for it can be set aside when the file is created.
-/

namespace Marfs.Recovery

open Cstring

structure RecoveryFinfo where
  inode : Nat
  mode : Nat
  owner : Nat
  group : Nat
  size : Nat
  mtimeSec : Nat
  mtimeNsec : Nat
  eof : Bool
  path : List Char
  deriving DecidableEq, Repr

def finfoType : List Char := "FINFO||".toList

/-- `SIZE_DIGITS`: the width sizes and times are padded to. -/
def sizeDigits : Nat := 20

def octal (n : Nat) : List Char := Nat.toDigits 8 n

def recoveryFinfotostr (finfo : RecoveryFinfo) : List Char :=
  msgHead ++ finfoType ++ 'i' :: decimal finfo.inode ++ "|m0".toList ++ octal finfo.mode ++
    "|o".toList ++ decimal finfo.owner ++ "|g".toList ++ decimal finfo.group ++
    "|s".toList ++ padded sizeDigits finfo.size ++
    "|t".toList ++ padded sizeDigits finfo.mtimeSec ++ '.' :: padded sizeDigits finfo.mtimeNsec ++
    "|e".toList ++ decimal finfo.eof.toNat ++ "|p".toList ++ decimal finfo.path.length ++
    ':' :: finfo.path ++ msgTail

/-- The length of the string, where it is asked for without a buffer. -/
def finfoLength (finfo : RecoveryFinfo) : Nat := (recoveryFinfotostr finfo).length

theorem finfoLength_pos (finfo : RecoveryFinfo) : 0 < finfoLength finfo := by
  have hhead : msgHead.length = 7 := rfl
  unfold finfoLength recoveryFinfotostr
  simp only [List.length_append, hhead]
  omega

-- the string of recovery info is long, and not to be spelled out in a goal
attribute [irreducible] recoveryFinfotostr finfoLength

end Marfs.Recovery
