import Marfs.Rman.Opinfo
import Marfs.Tagging.RtagString

/-!
# The lines of a resource log

`printlogline` writes one line for each op of a chain, and `parselogline` reads a chain back from
the position of the log file.  The parser takes the first newline for the end of a line and the
first blank for the end of a marker path, and both functions work in a buffer of `MAX_BUFFER` bytes.
Nothing else gets in the way: a chain comes back unchanged, and the position is right behind it,
exactly if its strings keep to that (`roundTrips_iff`).
-/

namespace Marfs.Rman

open Cstring Tagging

def maxBuffer : Nat := 8192

/-! ## Printing -/

/-- The extended info of a rebuild, from its opening brace on; nothing is printed of an empty marker
path, which counts as a failure. -/
def RebuildInfo.print (info : RebuildInfo) : Option (List Char) :=
  if info.markerpath.isEmpty then none
  else
    match info.rtag with
    | none => some ("\x7b ".toList ++ (info.markerpath ++ " \x7d ".toList))
    | some rtag => (rtagTostr rtag).map fun rtagstr =>
      "\x7b ".toList ++ (info.markerpath ++ ' ' :: (rtagstr ++ " \x7d ".toList))

def Extinfo.print : Extinfo → Option (List Char)
  | .delobj info => some ("DEL-OBJ ".toList ++ ("\x7b ".toList ++ (decimal info.offset ++ " \x7d ".toList)))
  | .delref info =>
    some ("DEL-REF ".toList ++ ("\x7b ".toList ++ (decimal info.prevActiveIndex ++ ' ' ::
      ((if info.delzero then "DZ ".toList else "-- ".toList) ++
        ((if info.eos then "EOS".toList else "CNT".toList) ++ " \x7d ".toList)))))
  | .rebuild none => some "REBUILD ".toList
  | .rebuild (some info) => info.print.map ("REBUILD ".toList ++ ·)
  | .repack info => some ("REPACK ".toList ++ ("\x7b ".toList ++ (decimal info.totalbytes ++ " \x7d ".toList)))

def Opinfo.printValues (op : Opinfo) : List Char :=
  (if op.start then "S ".toList else "E ".toList) ++
    (decimal op.count ++ ' ' :: (decimalInt op.errval ++ [' ']))

def nextFlag (next : Bool) : List Char := if next then " -".toList else []

/-- The line of an op; `none` if a part of it cannot be printed, or if it is too long. -/
def Opinfo.line (op : Opinfo) (next : Bool) : Option (List Char) := do
  let extinfo ← op.extendedinfo.print
  let head := extinfo ++ op.printValues
  let (ftagstr, ftaglen) ← ftagTostr op.ftag (maxBuffer - head.length)
  if head.length + ftaglen + (nextFlag next).length + 1 ≥ maxBuffer then none
  else some (head ++ (ftagstr ++ (nextFlag next ++ ['\n'])))

def printlogline : List Opinfo → List Char × Bool
  | [] => ([], true)
  | op :: next =>
    match op.line (!next.isEmpty) with
    | none => ([], false)
    | some line =>
      let (written, ok) := printlogline next
      (line ++ written, ok)

/-! ## Parsing -/

def spacedNumber (s : List Char) : Option (Nat × List Char) :=
  match strtoull s with
  | (val, ' ' :: rest) => some (val, rest)
  | _ => none

/-- The extended info of an object deletion. -/
def parseDelobj (s : List Char) : Option (Extinfo × List Char) := do
  let s ← skipHeader "\x7b ".toList s
  let (offset, s) ← spacedNumber s
  let s ← skipHeader "\x7d ".toList s
  some (.delobj { offset := offset }, s)

/-- One of two words: whether it is the first. -/
def eitherWord (yes no s : List Char) : Option (Bool × List Char) :=
  match skipHeader yes s with
  | some s => some (true, s)
  | none => (skipHeader no s).map (false, ·)

/-- The extended info of a reference deletion. -/
def parseDelref (s : List Char) : Option (Extinfo × List Char) := do
  let s ← skipHeader "\x7b ".toList s
  let (prevActiveIndex, s) ← spacedNumber s
  let (delzero, s) ← eitherWord "DZ ".toList "-- ".toList s
  let (eos, s) ← eitherWord "EOS".toList "CNT".toList s
  let s ← skipHeader " \x7d ".toList s
  some (.delref { prevActiveIndex := prevActiveIndex, delzero := delzero, eos := eos }, s)

def wordChar (c : Char) : Bool := c ≠ ' ' && c ≠ '\n'

def spacedWord (s : List Char) : Option (List Char × List Char) :=
  match s.dropWhile wordChar with
  | ' ' :: rest => some (s.takeWhile wordChar, rest)
  | _ => none

def parseRebuild (s : List Char) : Option (Extinfo × List Char) :=
  match skipHeader "\x7b ".toList s with
  | none => some (.rebuild none, s)
  | some s => do
    let (markerpath, s) ← spacedWord s
    if s.head? = some '}' || s = [] then do
      let s ← skipHeader "\x7d ".toList s
      some (.rebuild (some { markerpath := markerpath, rtag := none }), s)
    else do
      let (rtagstr, s) ← spacedWord s
      let rtag ← rtagInitstr .zeroed rtagstr
      let s ← skipHeader "\x7d ".toList s
      some (.rebuild (some { markerpath := markerpath, rtag := some rtag }), s)

def parseRepack (s : List Char) : Option (Extinfo × List Char) := do
  let s ← skipHeader "\x7b ".toList s
  let (totalbytes, s) ← spacedNumber s
  let s ← skipHeader "\x7d ".toList s
  some (.repack { totalbytes := totalbytes }, s)

/-- The type string and the extended info. -/
def parseExtinfo (s : List Char) : Option (Extinfo × List Char) :=
  match skipHeader "DEL-OBJ ".toList s with
  | some s => parseDelobj s
  | none =>
    match skipHeader "DEL-REF ".toList s with
    | some s => parseDelref s
    | none =>
      match skipHeader "REBUILD ".toList s with
      | some s => parseRebuild s
      | none => (skipHeader "REPACK ".toList s).bind parseRepack

def parseStart : List Char → Option (Bool × List Char)
  | 'S' :: ' ' :: s => some (true, s)
  | 'E' :: ' ' :: s => some (false, s)
  | _ => none

/-- The error and the blank behind it; the value is converted to `int`. -/
def parseErrval (s : List Char) : Option (Int × List Char) :=
  match strtol s with
  | (val, ' ' :: rest) => some (Int.bmod val (2 ^ 32), rest)
  | _ => none

def parseNext (line : List Char) : Option Bool :=
  match line.reverse with
  | '-' :: c :: _ => if c = ' ' then some true else none
  | ['-'] => none
  | _ => some false

/-- Parse a line, which the buffer holds with its newline.  `uninit` is what `malloc` left in the
FTAG of the op. -/
def parseOp (uninit : Ftag) (line : List Char) : Option (Opinfo × Bool) := do
  let (extinfo, s) ← parseExtinfo (line ++ ['\n'])
  let (start, s) ← parseStart s
  let (count, s) ← spacedNumber s
  let (errval, s) ← parseErrval s
  let next ← parseNext line
  let ftag ← ftagInitstr uninit (s.take (s.length - ((nextFlag next).length + 1)))
  some ({ extendedinfo := extinfo, start := start, count := count, errval := errval, ftag := ftag },
    next)

/-- What is read from the position of the log file up to the next newline. -/
inductive LineRead where
  | line (line rest : List Char)
  | eof
  | midline
  | excessive
  deriving DecidableEq, Repr

def readLine (input : List Char) : LineRead :=
  let line := input.takeWhile (· ≠ '\n')
  if line.length ≥ maxBuffer then .excessive
  else
    match input.dropWhile (· ≠ '\n') with
    | _ :: rest => .line line rest
    | [] => if line.isEmpty then .eof else .midline

/-- The chain `parselogline` returns, its exit flag, and what lies behind the position it leaves. -/
structure Parsed where
  chain : Option (List Opinfo)
  eof : Int
  rest : List Char
  deriving DecidableEq

/-- The recursion of `parselogline`.  Every line goes forward, so that the length of the input
bounds it. -/
def parseLines (uninit : Nat → Ftag) : Nat → List Char → Parsed
  | 0, input => { chain := none, eof := 0, rest := input }
  | fuel + 1, input =>
    match readLine input with
    | .excessive => { chain := none, eof := 0, rest := input }
    | .eof => { chain := none, eof := 1, rest := [] }
    | .midline => { chain := none, eof := -1, rest := [] }
    | .line line rest =>
      match parseOp (uninit fuel) line with
      | none => { chain := none, eof := 0, rest := input }
      | some (op, false) => { chain := some [op], eof := 0, rest := rest }
      | some (op, true) =>
        let parsed := parseLines uninit fuel rest
        match parsed.chain with
        | some next => { parsed with chain := some (op :: next) }
        | none => { parsed with rest := if parsed.eof = 0 then input else parsed.rest }

def parselogline (uninit : Nat → Ftag) (input : List Char) : Parsed :=
  parseLines uninit (input.length + 1) input

end Marfs.Rman
