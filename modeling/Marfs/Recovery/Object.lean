import Marfs.Recovery.FinfoParse
import Marfs.Recovery.Locate

/-!
# The recovery of an object

`recovery_init` parses the header at the beginning of an object and goes through the rest of it from the
end: every record tells how many bytes of data stand in front of it.  `recovery_nextfile` hands the files
out from the first to the last.
-/

namespace Marfs.Recovery

open Cstring Machine

/-! ## The header -/

def headerWord (word : List Char) (parse : List Char) (bufsize : Nat) :
    Walk (List Char × Nat) := do
  Walk.check (word.length ≤ bufsize)
  let found ← strncmpIn parse word
  Walk.check found
  pure (parse.drop word.length, SizeT.sub bufsize word.length)

def headerVersion (stop : Char) (parse : List Char) (bufsize : Nat) :
    Walk (Nat × List Char × Nat) := do
  Walk.check (uintDigits + 1 ≤ bufsize)
  let (parseval, endptr) ← strtoullIn 10 parse
  let c ← byteAt endptr
  Walk.check (c = stop && parseval ≤ 2 ^ 32 - 1)
  pure (parseval, endptr.tail, SizeT.sub bufsize (parse.length - endptr.length + 1))

/-- The loop over the client tag. -/
def ctagEnd : (parse : List Char) → (bufsize : Nat) → Walk (List Char × Nat)
  | [], _ => .fault
  | c :: parse, bufsize =>
    if c = '\x00' || c = '|' || bufsize = 0 then .done (c :: parse, bufsize)
    else ctagEnd parse (bufsize - 1)

def streamidEnd : (parse : List Char) → (bufsize : Nat) → Walk (List Char × Nat)
  | [], _ => .fault
  | c :: parse, bufsize =>
    if c = '\x00' || bufsize = 0 then .done (c :: parse, bufsize)
    else if some c = msgTail.head? then
      if bufsize < msgTail.length then .error
      else do
        if ← strncmpIn (c :: parse) msgTail then pure (c :: parse, bufsize)
        else streamidEnd parse (bufsize - 1)
    else streamidEnd parse (bufsize - 1)

def headerString (start parse : List Char) (bufsize : Nat) : Walk (List Char) := do
  let c ← byteAt parse
  Walk.check (bufsize ≠ 0 && c ≠ '\x00')
  let len := start.length - parse.length
  Walk.check (len ≤ intMax)
  let length ← printedLength len start
  Walk.check (length = len)
  pure (start.take len)

/-- `parse_recov_header`, of the whole buffer: the header, and what stands behind the reference that is
returned. -/
def parseRecovHeader (headerbuf : List Char) : Walk (RecoveryHeader × List Char) := do
  let (parse, bufsize) ← headerWord msgHead headerbuf headerbuf.length
  let (parse, bufsize) ← headerWord headerType parse bufsize
  let (majorversion, parse, bufsize) ← headerVersion '.' parse bufsize
  let (minorversion, ctagstart, bufsize) ← headerVersion '|' parse bufsize
  let (parse, bufsize) ← ctagEnd ctagstart bufsize
  let ctag ← headerString ctagstart parse bufsize
  let stidstart := parse.tail
  let (parse, bufsize) ← streamidEnd stidstart (SizeT.sub bufsize 1)
  let streamid ← headerString stidstart parse bufsize
  pure ({ majorversion := majorversion, minorversion := minorversion, ctag := ctag,
          streamid := streamid }, parse.drop msgTail.length)

/-! ## The files -/

def parseFinfoAt (fuel : Nat) (finfobuf : List Char) (bufsize : Nat) (finfo : RecoveryFinfo) :
    Walk FinfoState := do
  let st ← skipWord msgHead
    { parse := finfobuf, bufsize := bufsize, finfo := finfo, found := fun _ => false }
  let st ← skipWord finfoType st
  let st ← finfoLoop true fuel st
  checkFinfo st

def finfofromBuffer (finfobuf : List Char) (finfo : RecoveryFinfo) : Walk RecoveryFinfo := do
  Walk.check (1 ≤ finfobuf.length)
  let st ← parseFinfoAt (finfobuf.length + 9) (finfobuf ++ ['\x00']) finfobuf.length finfo
  Walk.check (finfobuf.length ≤ finfobuf.length + 1 - st.parse.length + msgTail.length)
  pure st.finfo

/-- A file of an object: its info, and the part of its data the object has. -/
structure RecoveryFile where
  finfo : RecoveryFinfo
  data : List Char
  deriving DecidableEq, Repr

/-- The loop of `populate_recovery`.  `before` holds the `objsize` bytes up to `curpos`, backwards, and
`after` those behind it; `uninit` is what the allocator leaves in the list.  Every turn takes a byte at
least, so that the length of the object bounds the loop. -/
def populateLoop (uninit : Nat → RecoveryFinfo) : (fuel : Nat) → (before after : List Char) →
    List RecoveryFile → Walk (List RecoveryFile)
  | 0, _, _, _ => .running
  | fuel + 1, before, after, files =>
    if before = [] then .done files
    else do
      let parsed ← Walk.ofOption (locateFinfoStart before)
      let finfostrlen := parsed + 1
      let finfobuf := (before.take finfostrlen).reverse ++ after
      let st ← parseFinfoAt (finfobuf.length + 1) finfobuf finfostrlen (uninit fuel)
      -- the reference that is returned is `curpos`
      Walk.check (st.parse.length = after.length + msgTail.length)
      let left := before.drop finfostrlen
      let datainobj := if st.finfo.size > left.length then left.length else st.finfo.size
      let data := (left.take datainobj).reverse
      populateLoop uninit fuel (left.drop datainobj) (data ++ finfobuf)
        ({ finfo := st.finfo, data := data } :: files)

/-- `RECOVERY`: the header, and the files that are left, the one that is handed out next first. -/
structure RecoveryStruct where
  header : RecoveryHeader
  files : List RecoveryFile
  deriving DecidableEq, Repr

def recoveryInit (uninit : Nat → RecoveryFinfo) (objbuffer : List Char) : Walk RecoveryStruct := do
  let (header, content) ← parseRecovHeader objbuffer
  let files ← populateLoop uninit (content.length + 1) content.reverse [] []
  pure { header := header, files := files }

def recoveryNextfile (recovery : RecoveryStruct) : Option (RecoveryFile × RecoveryStruct) :=
  match recovery.files with
  | [] => none
  | file :: files => some (file, { recovery with files := files })

def nextfiles : (calls : Nat) → RecoveryStruct → List RecoveryFile
  | 0, _ => []
  | calls + 1, recovery =>
    match recoveryNextfile recovery with
    | none => []
    | some (file, recovery) => file :: nextfiles calls recovery

theorem nextfiles_eq_take (calls : Nat) (header : RecoveryHeader) (files : List RecoveryFile) :
    nextfiles calls { header := header, files := files } = files.take calls := by
  induction calls generalizing files with
  | zero => rfl
  | succ calls ih =>
    rw [nextfiles]
    cases files with
    | nil => rfl
    | cons file files => simp only [recoveryNextfile, ih, List.take_succ_cons]

def recoverObject (uninit : Nat → RecoveryFinfo) (calls : Nat) (objbuffer : List Char) :
    Walk (RecoveryHeader × List RecoveryFile) := do
  let recovery ← recoveryInit uninit objbuffer
  pure (recovery.header, nextfiles calls recovery)

/-! ## An object -/

def RecoveryFile.text (file : RecoveryFile) : List Char := file.data ++ recoveryFinfotostr file.finfo

def objectText (header : RecoveryHeader) (files : List RecoveryFile) : List Char :=
  recoveryHeadertostr header ++ files.flatMap RecoveryFile.text

structure Laid (files : List RecoveryFile) : Prop where
  first : ∀ file ∈ files.head?, file.data.length ≤ file.finfo.size
  later : ∀ file ∈ files.tail, file.data.length = file.finfo.size

end Marfs.Recovery
