import Mathlib.Data.List.Basic

/-!
# Printing into a buffer piece by piece

A string is put together by several `snprintf` calls on what is left of one buffer; the length of
the whole is counted even where the buffer is too small for it.
-/

namespace Marfs.Cstring

/-- What the calls wrote so far, the space that is left for the next one, its terminator included,
and the length of all that was printed. -/
structure Outbuf where
  content : List Char
  len : Nat
  totsz : Nat
  deriving DecidableEq, Repr

namespace Outbuf

def init (len : Nat) : Outbuf := { content := [], len := len, totsz := 0 }

/-- One `snprintf` of the string `s`, with the bookkeeping after it. -/
def print (out : Outbuf) (s : List Char) : Outbuf :=
  { content := out.content ++ s.take (out.len - 1)
    len := if out.len > s.length then out.len - s.length else 0
    totsz := out.totsz + s.length }

/-- What a buffer of `size` bytes is after the string `full` was printed into it. -/
structure Holds (out : Outbuf) (size : Nat) (full : List Char) : Prop where
  content : out.content = full.take (size - 1)
  len : out.len = size - full.length
  totsz : out.totsz = full.length

theorem init_holds (size : Nat) : (init size).Holds size [] where
  content := List.take_nil.symm
  len := rfl
  totsz := rfl

theorem Holds.print {out : Outbuf} {size : Nat} {full : List Char} (h : out.Holds size full)
    (s : List Char) : (out.print s).Holds size (full ++ s) where
  content := by
    have hroom : size - full.length - 1 = size - 1 - full.length := by omega
    rw [Outbuf.print, h.content, h.len, List.take_append, hroom]
  len := by
    rw [Outbuf.print, h.len, List.length_append]
    dsimp only
    split
    · omega
    · omega
  totsz := by rw [Outbuf.print, h.totsz, List.length_append]

end Outbuf

end Marfs.Cstring
