import Mathlib.Algebra.Group.Nat.Defs
import Marfs.Path.OsPath
import Marfs.Tape.ObjTable

/-!
# Processing paths

Every file and directory that the tape manager makes while it works on a task has a place in the
processing tree: below the host and the process, in the directory of the task's timestamp.  A place is
turned into a path when it is used, and after a crash the paths that are left over are turned back.
-/

namespace Marfs.Tape

/-! ## Texts -/

/-- A unit of an `OsStr`: a character, or a byte that belongs to none. -/
inductive OsChar where
  | char (c : Char)
  | byte (value : UInt8)
  deriving DecidableEq, Repr

abbrev OsStr := List OsChar

def osStr (text : String) : OsStr := text.toList.map OsChar.char

def OsChar.char? : OsChar → Option Char
  | .char c => some c
  | .byte _ => none

def toStr (text : OsStr) : Option String := (text.mapM OsChar.char?).map String.ofList

def stripStr (text front : String) : Option String :=
  if front.toList <+: text.toList then some (String.ofList (text.toList.drop front.toList.length)) else none

def parseDigit (bits result : Nat) (c : Char) : Except String Nat :=
  if c.isDigit then
    if result * 10 + (c.toNat - '0'.toNat) < 2 ^ bits then .ok (result * 10 + (c.toNat - '0'.toNat))
    else .error "number too large to fit in target type"
  else .error "invalid digit found in string"

def parseDigits (bits : Nat) (digits : List Char) : Except String Nat := digits.foldlM (parseDigit bits) 0

def parseUnsigned (bits : Nat) (text : String) : Except String Nat :=
  match text.toList with
  | [] => .error "cannot parse integer from empty string"
  | ['+'] => .error "invalid digit found in string"
  | '+' :: digits => parseDigits bits digits
  | digits => parseDigits bits digits

/-! ## Paths -/

/-- The separator of a path. -/
abbrev sep : OsChar := .char '/'

abbrev dot : OsChar := .char '.'

abbrev Component := OsPath.Component OsChar

abbrev elements (path : OsStr) : List Component := OsPath.elements sep dot path

abbrev stripPrefix (path base : OsStr) : Option OsStr := OsPath.stripPrefix sep dot path base

abbrev pushPath (path more : OsStr) : OsStr := OsPath.push sep path more

def asOsStr : Component → OsStr
  | .rootDir => [sep]
  | .curDir => [dot]
  | .parentDir => [dot, dot]
  | .normal name => name

def nextNormal (path : OsStr) : Option (OsStr × OsPath.Components OsChar) :=
  match (OsPath.components sep dot path).next dot with
  | some (.normal name, pathcomps) => some (name, pathcomps)
  | _ => none

/-! ## Processing paths -/

/-- The parts of `Config` that processing paths are made with. -/
structure Subdirs where
  processingSubdir : String
  outputFailureSubdir : String
  host : String

structure DateTime where
  debug : SystemTime → String
  parse : String → Option SystemTime

inductive ProcessingPathElement where
  | intermediateDir
  | originalTaskfile (path : OsStr)
  | filteredTaskfile
  | subTaskDir (num : UInt64)
  | subTaskInput (num : UInt64)
  | subTaskOutput (num : UInt64)
  deriving DecidableEq, Repr

structure ProcessingPath where
  process : Option UInt32
  timestamp : Option SystemTime
  element : ProcessingPathElement
  deriving DecidableEq, Repr

namespace ProcessingPath

def new (process : Option UInt32) (timestamp : Option SystemTime) (element : ProcessingPathElement) :
    Option ProcessingPath :=
  match process, timestamp, element with
  | none, none, .intermediateDir => some { process, timestamp, element }
  | some _, none, .intermediateDir => some { process, timestamp, element }
  | some _, some _, _ => some { process, timestamp, element }
  | none, some _, _ => none
  | _, none, _ => none

def toPathBuf (config : Subdirs) (datetime : DateTime) (ppath : ProcessingPath) : Option OsStr :=
  match ppath.process, ppath.timestamp, ppath.element with
  | none, none, .intermediateDir => some (osStr (config.processingSubdir ++ "/" ++ config.host))
  | some pid, none, .intermediateDir =>
    some (osStr (config.processingSubdir ++ "/" ++ config.host ++ "/PID" ++ toString pid.toNat))
  | some pid, some time, element =>
    let pbuf := osStr (config.processingSubdir ++ "/" ++ config.host ++ "/PID" ++ toString pid.toNat ++ "/" ++
      datetime.debug time)
    some (match element with
      | .intermediateDir => pbuf
      | .originalTaskfile path => pushPath (pushPath pbuf (osStr "original")) path
      | .filteredTaskfile => pushPath pbuf (osStr "filtered")
      | .subTaskDir num => pushPath pbuf (osStr ("subtask." ++ toString num.toNat))
      | .subTaskInput num => pushPath pbuf (osStr ("subtask." ++ toString num.toNat ++ "/input"))
      | .subTaskOutput num => pushPath pbuf (osStr ("subtask." ++ toString num.toNat ++ "/output")))
  | none, some _, _ => none
  | _, none, _ => none

def tryFromSubtask (process : Option UInt32) (timestamp : Option SystemTime) (path : OsStr) (comp : OsStr)
    (pathcomps : OsPath.Components OsChar) : Option (Except String ProcessingPath) :=
  match toStr comp with
  | none => some (.error "invalid UTF-8 encoding")
  | some comp =>
    match stripStr comp "subtask." with
    | none =>
      some (.error ("unrecognized path element in place of 'original'/'filtered'/'subtask.*': " ++ comp))
    | some comp =>
      match parseUnsigned 64 comp with
      | .error _ => some (.error ("unparsable subtask number: " ++ comp))
      | .ok stnum =>
        match pathcomps.next dot with
        | none => some (.ok { process, timestamp, element := .subTaskDir (UInt64.ofNat stnum) })
        | some (comp, pathcomps) =>
          if (pathcomps.next dot).isSome then
            (toStr path).map fun text => .error ("unexpectedly deep subtask subpath: \"" ++ text ++ "\"")
          else
            match toStr (asOsStr comp) with
            | none => some (.error "invalid UTF-8 encoding")
            | some comp =>
              if comp = "input" then
                some (.ok { process, timestamp, element := .subTaskInput (UInt64.ofNat stnum) })
              else if comp = "output" then
                some (.ok { process, timestamp, element := .subTaskOutput (UInt64.ofNat stnum) })
              else some (.error ("unrecognized subtask element: \"" ++ comp ++ "\""))

def tryFromElement (process : Option UInt32) (timestamp : Option SystemTime) (path : OsStr) :
    Option (Except String ProcessingPath) :=
  if OsPath.startsWith sep dot path (osStr "original") then
    (stripPrefix path (osStr "original")).map fun path =>
      .ok { process, timestamp, element := .originalTaskfile path }
  else if OsPath.startsWith sep dot path (osStr "filtered") ∧ (elements path).length = 1 then
    some (.ok { process, timestamp, element := .filteredTaskfile })
  else
    match nextNormal path with
    | none => some (.ok { process, timestamp, element := .intermediateDir })
    | some (comp, pathcomps) => tryFromSubtask process timestamp path comp pathcomps

def tryFromTimestamp (datetime : DateTime) (process : Option UInt32) (path : OsStr) :
    Option (Except String ProcessingPath) :=
  match nextNormal path with
  | none => some (.ok { process, timestamp := none, element := .intermediateDir })
  | some (timestampstr, _) =>
    match toStr timestampstr with
    | none => some (.error "invalid UTF-8 encoding")
    | some timestampstr =>
      match datetime.parse timestampstr with
      | none => some (.error ("failed to parse timestamp value \"" ++ timestampstr ++ "\""))
      | some timestamp =>
        (stripPrefix path (osStr timestampstr)).bind fun path => tryFromElement process (some timestamp) path

def tryFromProcess (datetime : DateTime) (path : OsStr) : Option (Except String ProcessingPath) :=
  match nextNormal path with
  | none => some (.ok { process := none, timestamp := none, element := .intermediateDir })
  | some (piddir, _) =>
    match toStr piddir with
    | none => some (.error "invalid UTF-8 encoding")
    | some piddir =>
      match stripStr piddir "PID" with
      | none => some (.error "'PID' subdir prefix not found")
      | some pidstr =>
        match parseUnsigned 32 pidstr with
        | .error e => some (.error ("process ID could not be parsed: " ++ e))
        | .ok pid =>
          (stripPrefix path (osStr piddir)).bind fun path =>
            tryFromTimestamp datetime (some (UInt32.ofNat pid)) path

def tryFrom (config : Subdirs) (datetime : DateTime) (path : OsStr) : Option (Except String ProcessingPath) :=
  match stripPrefix path (osStr config.processingSubdir) with
  | none => some (.error "not within processing subdir")
  | some path =>
    match stripPrefix path (osStr config.host) with
    | none => some (.error "not within per-host subdir")
    | some path => tryFromProcess datetime path

end ProcessingPath

/-! ## Cleanup -/

/-- What cleanup does with an entry below the directory of the host. -/
inductive CleanupStep where
  | removeDir (path : OsStr)
  | removeFile (path : OsStr)
  | rename (path target : OsStr)
  | report (error : String)
  deriving DecidableEq, Repr

def unrecognized (e : String) : String :=
  "ERROR: Encountered unrecognized path in processing tree during cleanup: " ++ e

/-- An entry of the second loop of `processing_tree_cleanup`; `none` is a panic. -/
def cleanupEntry (config : Subdirs) (datetime : DateTime) (entpath : OsStr) (isFile : Bool) :
    Option CleanupStep :=
  match ProcessingPath.tryFrom config datetime entpath with
  | none => none
  | some (.error e) => some (.report (unrecognized e))
  | some (.ok ppath) =>
    some (match ppath.element with
      | .intermediateDir => .removeDir entpath
      | .originalTaskfile subpath =>
        if isFile then .rename entpath (pushPath (osStr config.outputFailureSubdir) subpath)
        else .removeDir entpath
      | .filteredTaskfile => .removeFile entpath
      | .subTaskDir _ => .removeDir entpath
      | .subTaskInput _ => .removeFile entpath
      | .subTaskOutput _ => .removeFile entpath)

end Marfs.Tape
