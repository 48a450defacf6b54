import Marfs.Cstring.Buffer
import Marfs.Machine.SizeT
import Marfs.Recovery.Finfo
import Mathlib.Logic.Function.Basic
import Mathlib.Logic.Relation

/-!
# The parser of recovery info

`parse_recov_finfo` walks a buffer that is not terminated.  It moves a pointer on, and beside it it
keeps the number of bytes that are left; every value subtracts what the pointer was moved by.  The
timestamp moves the pointer twice and subtracts once, so behind a timestamp more bytes are thought to be
left than there are.
-/

namespace Marfs.Recovery

open Cstring Machine List

/-! ## The parser -/

inductive FinfoValue where
  | inode
  | mode
  | owner
  | group
  | size
  | mtime
  | eof
  | path
  deriving DecidableEq, Repr

namespace FinfoValue

def ofTag : Char → Option FinfoValue
  | 'i' => some .inode
  | 'm' => some .mode
  | 'o' => some .owner
  | 'g' => some .group
  | 's' => some .size
  | 't' => some .mtime
  | 'e' => some .eof
  | 'p' => some .path
  | _ => none

def all : List FinfoValue := [.inode, .mode, .owner, .group, .size, .mtime, .eof, .path]

def max : FinfoValue → Nat
  | .inode => ullongMax
  | .mode => 2 ^ 32 - 1
  | .owner => 2 ^ 32 - 1
  | .group => 2 ^ 32 - 1
  | .size => ullongMax
  | .mtime => ullongMax
  | .eof => 1
  | .path => ullongMax

def store (value : FinfoValue) (parseval : Nat) (finfo : RecoveryFinfo) : RecoveryFinfo :=
  match value with
  | .inode => { finfo with inode := parseval }
  | .mode => { finfo with mode := parseval }
  | .owner => { finfo with owner := parseval }
  | .group => { finfo with group := parseval }
  | .size => { finfo with size := parseval }
  | .mtime => { finfo with mtimeSec := parseval }
  | .eof => { finfo with eof := parseval = 1 }
  | .path => finfo

end FinfoValue

/-- What the loop works on: the pointer, the number of bytes left, the struct, and the values that were
found. -/
structure FinfoState where
  parse : List Char
  bufsize : Nat
  finfo : RecoveryFinfo
  found : FinfoValue → Bool

def parsemode (tag : Char) : Nat := if tag = 'm' then 8 else 10

def parseNumber (base : Nat) (terminators s : List Char) : Walk (Nat × List Char) := do
  let (parseval, endptr) ← strtoullIn base s
  let c ← byteAt endptr
  if c = '|' then pure (parseval, endptr.tail)
  else if c ∈ terminators then pure (parseval, endptr)
  else .error

def valueTerminators : List Char := [')', ':', '.']

def readLength (precision : Int) (s : List Char) : Walk Nat :=
  if precision < 0 then strlenIn s else strnlenIn precision.toNat s

def toInt (n : Nat) : Int := Int.bmod n (2 ^ 32)

def intMax : Nat := 2 ^ 31 - 1

def snprintfPath (precision : Int) (s : List Char) : Walk Nat := do
  let length ← readLength precision s
  pure (if length ≤ intMax then length else ullongMax)

def printedLength (parseval : Nat) (s : List Char) : Walk Nat := snprintfPath (toInt parseval) s

/-- A path is stored, from the pointer behind its colon; `printed` is what `snprintf` makes of it, and
`alloc` whether there is memory for it. -/
def storePath (alloc : Bool) (st : FinfoState) (parse : List Char) (bufsize parseval : Nat)
    (printed : Walk Nat) : Walk FinfoState := do
  Walk.check (parseval ≤ SizeT.sub bufsize msgTail.length)
  Walk.check alloc
  let length ← printed
  Walk.check (length = parseval)
  let c ← byteAt (parse.drop parseval)
  let skipped := if c = '|' then 1 else 0
  pure
    { parse := (parse.drop parseval).drop skipped
      bufsize := SizeT.sub (SizeT.sub bufsize parseval) skipped
      finfo := { st.finfo with path := parse.take parseval }
      found := Function.update st.found .path true }

/-- The largest number of nanoseconds: `LONG_MAX`. -/
def nsecMax : Nat := 2 ^ 63 - 1

/-- A timestamp is stored, from the point behind its seconds. -/
def storeMtime (st : FinfoState) (parse : List Char) (parseval : Nat) : Walk FinfoState := do
  let (parsensec, endptr) ← parseNumber 10 [')'] parse.tail
  Walk.check (parsensec ≤ nsecMax)
  pure
    { parse := endptr
      bufsize := SizeT.sub st.bufsize (parse.length - endptr.length)
      finfo := { st.finfo with mtimeSec := parseval, mtimeNsec := parsensec }
      found := Function.update st.found .mtime true }

def interpretValue (alloc : Bool) (st : FinfoState) (value : FinfoValue) (parseval : Nat)
    (endptr : List Char) : Walk FinfoState := do
  Walk.check (!st.found value)
  match value with
  | .mtime => do
    let c ← byteAt endptr
    Walk.check (c = '.')
    storeMtime st endptr parseval
  | .path => do
    let c ← byteAt endptr
    Walk.check (c = ':')
    let bufsize := SizeT.sub st.bufsize (st.parse.length - endptr.tail.length)
    storePath alloc st endptr.tail bufsize parseval (printedLength parseval endptr.tail)
  | value => do
    Walk.check (parseval ≤ value.max)
    pure
      { parse := endptr
        bufsize := SizeT.sub st.bufsize (st.parse.length - endptr.length)
        finfo := value.store parseval st.finfo
        found := Function.update st.found value true }

/-- One turn of the loop. -/
def parseValue (alloc : Bool) (st : FinfoState) : Walk FinfoState := do
  let tag ← byteAt st.parse
  let (parseval, endptr) ← parseNumber (parsemode tag) valueTerminators st.parse.tail
  Walk.check (st.parse.length - endptr.length ≤ SizeT.sub st.bufsize msgTail.length)
  let value ← Walk.ofOption (FinfoValue.ofTag tag)
  interpretValue alloc st value parseval endptr

def loopCondition (st : FinfoState) : Walk Bool := do
  if st.bufsize < msgTail.length then pure false
  else do
    let tail ← strncmpIn st.parse msgTail
    if tail then pure false
    else do
      let c ← byteAt st.parse
      pure (c ≠ '\x00')

def finfoLoop (alloc : Bool) : (fuel : Nat) → FinfoState → Walk FinfoState
  | 0, _ => .running
  | fuel + 1, st => do
    if ← loopCondition st then do
      let st ← parseValue alloc st
      finfoLoop alloc fuel st
    else pure st

def skipWord (word : List Char) (st : FinfoState) : Walk FinfoState := do
  Walk.check (word.length ≤ st.bufsize)
  let found ← strncmpIn st.parse word
  Walk.check found
  pure { st with
    parse := st.parse.drop word.length, bufsize := SizeT.sub st.bufsize word.length }

def parseFinfoHeader (finfobuf : List Char) (finfo : RecoveryFinfo) : Walk FinfoState := do
  let st ← skipWord msgHead
    { parse := finfobuf, bufsize := finfobuf.length, finfo := finfo, found := fun _ => false }
  skipWord finfoType st

def checkFinfo (st : FinfoState) : Walk FinfoState := do
  Walk.check (msgTail.length ≤ st.bufsize)
  Walk.check (FinfoValue.all.all st.found)
  pure st

/-- `parse_recov_finfo`, of the whole buffer; it returns a reference to the byte behind the pointer. -/
def parseRecovFinfo (alloc : Bool) (fuel : Nat) (finfobuf : List Char) (finfo : RecoveryFinfo) :
    Walk FinfoState := do
  let st ← parseFinfoHeader finfobuf finfo
  let st ← finfoLoop alloc fuel st
  checkFinfo st

/-- `recovery_finfofromstr`: bytes may be left behind the two that the pointer is taken to be at. -/
def recoveryFinfofromstr (alloc : Bool) (fuel : Nat) (finfo : RecoveryFinfo) (srcstr : List Char) :
    Walk RecoveryFinfo := do
  Walk.check (1 ≤ srcstr.length)
  let st ← parseRecovFinfo alloc fuel srcstr finfo
  Walk.check (srcstr.length ≤ srcstr.length - st.parse.length + msgTail.length)
  pure st.finfo

/-! ## Exact parsing -/

def Turn (alloc : Bool) (st st' : FinfoState) : Prop :=
  loopCondition st = .done true ∧ parseValue alloc st = .done st'

def LoopHead (alloc : Bool) (finfo : RecoveryFinfo) (srcstr : List Char) (st : FinfoState) : Prop :=
  ∃ st₀, parseFinfoHeader srcstr finfo = .done st₀ ∧ Relation.ReflTransGen (Turn alloc) st₀ st

/-- A buffer is parsed exactly: the number of bytes left is what the parser takes it to be whenever it
looks at it, the parser returns without a read behind the end, and it succeeds only if the buffer is a
record. -/
structure ParsedExactly (alloc : Bool) (fuel : Nat) (finfo : RecoveryFinfo) (srcstr : List Char) :
    Prop where
  counter : ∀ st, LoopHead alloc finfo srcstr st → st.bufsize = st.parse.length
  returns : (recoveryFinfofromstr alloc fuel finfo srcstr).Returns
  record : ∀ parsed, recoveryFinfofromstr alloc fuel finfo srcstr = .done parsed →
    ∃ record, srcstr = recoveryFinfotostr record

/-! ## The buffers that are parsed exactly -/

/-- A value is expected: this is neither the end of the buffer nor that of the record. -/
structure ValueExpected (rest : List Char) : Prop where
  length : msgTail.length ≤ rest.length
  tail : ¬ msgTail <+: rest
  nul : rest.head? ≠ some '\x00'

structure NumberAt (rest : List Char) (tag : Char) (parseval : Nat) (endptr : List Char) : Prop where
  expected : ValueExpected rest
  head : rest.head? = some tag
  number : parseNumber (parsemode tag) valueTerminators rest.tail = .done (parseval, endptr)
  length : msgTail.length ≤ endptr.length

inductive ValuesRead (alloc : Bool) (values : List Char) : (FinfoValue → Bool) → List Char → Prop
  | start : ValuesRead alloc values (fun _ => false) values
  | number {found : FinfoValue → Bool} {rest endptr : List Char} {tag : Char} {parseval : Nat}
      {value : FinfoValue} : ValuesRead alloc values found rest → NumberAt rest tag parseval endptr →
      FinfoValue.ofTag tag = some value → value ≠ .mtime → value ≠ .path → found value = false →
      parseval ≤ value.max → ValuesRead alloc values (Function.update found value true) endptr
  | path {found : FinfoValue → Bool} {rest path : List Char} {parseval : Nat} :
      ValuesRead alloc values found rest → NumberAt rest 'p' parseval (':' :: path) →
      found .path = false → parseval ≤ SizeT.sub path.length msgTail.length → alloc = true →
      printedLength parseval path = .done parseval → parseval < path.length →
      ValuesRead alloc values (Function.update found .path true)
        ((path.drop parseval).drop (if (path.drop parseval).head? = some '|' then 1 else 0))

/-- What may not follow: a number that is not ended in the buffer, a timestamp, or a path that is not.
The room for a path is compared as a `size_t`; if a single byte follows the colon there seems to be
plenty. -/
inductive Overrun (alloc : Bool) (found : FinfoValue → Bool) (rest : List Char) : Prop
  | number (tag : Char) (h : ValueExpected rest) (htag : rest.head? = some tag)
      (hopen : afterNumber (parsemode tag) rest.tail = [])
  | timestamp {parseval : Nat} {sec : List Char} (h : NumberAt rest 't' parseval ('.' :: sec))
      (hfound : found .mtime = false) {parsensec : Nat} {endptr : List Char}
      (hnsec : parseNumber 10 [')'] sec = .done (parsensec, endptr)) (hle : parsensec ≤ nsecMax)
  | nanoseconds {parseval : Nat} {sec : List Char} (h : NumberAt rest 't' parseval ('.' :: sec))
      (hfound : found .mtime = false) (hopen : afterNumber 10 sec = [])
  | path {parseval : Nat} {path : List Char} (h : NumberAt rest 'p' parseval (':' :: path))
      (hfound : found .path = false) (hroom : parseval ≤ SizeT.sub path.length msgTail.length)
      (halloc : alloc = true)
      (hopen : printedLength parseval path = .fault ∨
        printedLength parseval path = .done parseval ∧ path.length ≤ parseval)

def Bounded (alloc : Bool) (srcstr : List Char) : Prop :=
  ∀ values found rest, srcstr = msgHead ++ (finfoType ++ values) →
    ValuesRead alloc values found rest → ¬ Overrun alloc found rest

/-! ## Reading a value -/

theorem parseNumber_cases (base : Nat) (terminators s : List Char) :
    afterNumber base s = [] ∧ parseNumber base terminators s = .fault ∨
      afterNumber base s ≠ [] ∧ (parseNumber base terminators s = .error ∨ ∃ n endptr,
        parseNumber base terminators s = .done (n, endptr) ∧ endptr.length ≤ s.length) := by
  unfold parseNumber
  rcases strtoullIn_cases base s with ⟨hopen, hfault⟩ | ⟨hopen, n, endptr, hdone, hsuf, hne⟩
  · rw [hfault]
    exact .inl ⟨hopen, rfl⟩
  · refine .inr ⟨hopen, ?_⟩
    obtain ⟨c, hc, -⟩ := byteAt_of_ne_nil hne
    have hle := hsuf.length_le
    rw [hdone, Walk.done_bind]
    dsimp only
    rw [hc, Walk.done_bind]
    split
    · refine .inr ⟨n, endptr.tail, rfl, ?_⟩
      rw [length_tail]
      omega
    · split
      · exact .inr ⟨n, endptr, rfl, hle⟩
      · exact .inl rfl

theorem parseNumber_length {base : Nat} {terminators s endptr : List Char} {n : Nat}
    (h : parseNumber base terminators s = .done (n, endptr)) : endptr.length ≤ s.length := by
  rcases parseNumber_cases base terminators s with ⟨-, hfault⟩ | ⟨-, herror | ⟨n', endptr', hdone, hle⟩⟩
  · rw [hfault] at h
    cases h
  · rw [herror] at h
    cases h
  · rw [hdone] at h
    cases h
    exact hle

theorem parseNumber_eq_fault {base : Nat} {terminators s : List Char} (h : afterNumber base s = []) :
    parseNumber base terminators s = .fault := by
  rcases parseNumber_cases base terminators s with ⟨-, hfault⟩ | ⟨hopen, -⟩
  · exact hfault
  · exact absurd h hopen

theorem loopCondition_eq {st : FinfoState} (h : st.bufsize = st.parse.length) :
    (ValueExpected st.parse ∧ loopCondition st = .done true) ∨
      (¬ ValueExpected st.parse ∧ loopCondition st = .done false) := by
  unfold loopCondition
  rw [h]
  by_cases hlen : st.parse.length < msgTail.length
  · rw [if_pos hlen]
    refine .inr ⟨fun hval => ?_, rfl⟩
    exact absurd hval.length (Nat.not_le.2 hlen)
  have hle : msgTail.length ≤ st.parse.length := Nat.le_of_not_lt hlen
  rw [if_neg hlen, strncmpIn_eq _ hle, Walk.done_bind]
  by_cases htail : msgTail <+: st.parse
  · rw [List.isPrefixOf_iff_prefix.2 htail, if_pos rfl]
    exact .inr ⟨fun hval => hval.tail htail, rfl⟩
  rw [Bool.eq_false_iff.2 (fun h => htail (List.isPrefixOf_iff_prefix.1 h)), if_neg Bool.false_ne_true]
  have hne : st.parse ≠ [] := by
    intro hnil
    rw [hnil] at hle
    exact absurd hle (by decide)
  obtain ⟨c, hc, hcons⟩ := byteAt_of_ne_nil hne
  rw [hc, Walk.done_bind]
  by_cases hnul : c = '\x00'
  · refine .inr ⟨fun hval => hval.nul ?_, ?_⟩
    · rw [hcons, hnul]
      rfl
    · rw [hnul]
      rfl
  · refine .inl ⟨⟨hle, htail, ?_⟩, ?_⟩
    · rw [hcons]
      intro heq
      exact hnul (Option.some.inj heq)
    · rw [decide_eq_true hnul]
      rfl

theorem NumberAt.length_lt {rest endptr : List Char} {tag : Char} {parseval : Nat}
    (h : NumberAt rest tag parseval endptr) : endptr.length < rest.length := by
  have hle := parseNumber_length h.number
  have hlen := h.expected.length
  have htail : msgTail.length = 2 := rfl
  rw [length_tail] at hle
  omega

theorem readLength_cases (precision : Int) (s : List Char) :
    readLength precision s = .fault ∨ ∃ length, readLength precision s = .done length := by
  unfold readLength
  split
  · exact strlenIn_cases s
  · exact strnlenIn_cases s _

theorem snprintfPath_cases (precision : Int) (s : List Char) :
    snprintfPath precision s = .fault ∨ ∃ length, snprintfPath precision s = .done length := by
  unfold snprintfPath
  rcases readLength_cases precision s with hfault | ⟨length, hdone⟩
  · rw [hfault]
    exact .inl rfl
  · rw [hdone]
    exact .inr ⟨_, rfl⟩

theorem printedLength_cases (parseval : Nat) (s : List Char) :
    printedLength parseval s = .fault ∨ ∃ length, printedLength parseval s = .done length :=
  snprintfPath_cases _ s

theorem FinfoValue.ofTag_eq_mtime {tag : Char} (h : ofTag tag = some .mtime) : tag = 't' := by
  unfold ofTag at h
  split at h <;> first | rfl | cases h

theorem FinfoValue.ofTag_eq_path {tag : Char} (h : ofTag tag = some .path) : tag = 'p' := by
  unfold ofTag at h
  split at h <;> first | rfl | cases h

section Step

variable {alloc : Bool} {st st' : FinfoState} {tag : Char} {parseval : Nat} {endptr : List Char}

theorem parseValue_eq (h : NumberAt st.parse tag parseval endptr) (hctr : st.bufsize = st.parse.length)
    (hlt : st.parse.length < SizeT.modulus) {value : FinfoValue} (hval : FinfoValue.ofTag tag = some value) :
    parseValue alloc st = interpretValue alloc st value parseval endptr := by
  have hin : decide (st.parse.length - endptr.length ≤
      SizeT.sub st.parse.length msgTail.length) = true := by
    rw [SizeT.sub_of_le h.expected.length hlt, decide_eq_true_eq]
    have hlen := h.length
    omega
  rw [parseValue, byteAt_eq_done_iff.2 h.head, Walk.done_bind, h.number, Walk.done_bind]
  dsimp only
  rw [hctr, hin, hval]
  rfl

theorem parseValue_cases (hval : ValueExpected st.parse) (hctr : st.bufsize = st.parse.length)
    (hlt : st.parse.length < SizeT.modulus) :
    (∃ tag, st.parse.head? = some tag ∧ afterNumber (parsemode tag) st.parse.tail = [] ∧
        parseValue alloc st = .fault) ∨
      parseValue alloc st = .error ∨
      ∃ tag parseval endptr value, NumberAt st.parse tag parseval endptr ∧
        FinfoValue.ofTag tag = some value ∧
        parseValue alloc st = interpretValue alloc st value parseval endptr := by
  have htaillen : msgTail.length = 2 := rfl
  have hlen := hval.length
  have hne : st.parse ≠ [] := by
    intro hnil
    rw [hnil] at hlen
    exact absurd hlen (by decide)
  obtain ⟨tag, htag, hcons⟩ := byteAt_of_ne_nil hne
  have hhead := byteAt_eq_done_iff.1 htag
  rcases parseNumber_cases (parsemode tag) valueTerminators st.parse.tail with
    ⟨hopen, hfault⟩ | ⟨-, herror | ⟨parseval, endptr, hdone, hle⟩⟩
  · refine .inl ⟨tag, hhead, hopen, ?_⟩
    rw [parseValue, htag, Walk.done_bind, hfault]
    rfl
  · right; left
    rw [parseValue, htag, Walk.done_bind, herror]
    rfl
  right
  rw [length_tail] at hle
  by_cases hend : msgTail.length ≤ endptr.length
  · have hnum : NumberAt st.parse tag parseval endptr := ⟨hval, hhead, hdone, hend⟩
    cases hofTag : FinfoValue.ofTag tag with
    | none =>
      left
      rw [parseValue, htag, Walk.done_bind, hdone, Walk.done_bind]
      dsimp only
      rw [hofTag]
      obtain hin | hin := Bool.eq_false_or_eq_true (decide (st.parse.length - endptr.length ≤
        SizeT.sub st.bufsize msgTail.length))
      · rw [hin]
        rfl
      · rw [hin]
        rfl
    | some value =>
      exact .inr ⟨tag, parseval, endptr, value, hnum, hofTag,
        parseValue_eq hnum hctr hlt hofTag⟩
  · left
    have hout : decide (st.parse.length - endptr.length ≤
        SizeT.sub st.parse.length msgTail.length) = false := by
      rw [SizeT.sub_of_le hlen hlt, decide_eq_false_iff_not]
      omega
    rw [parseValue, htag, Walk.done_bind, hdone, Walk.done_bind]
    dsimp only
    rw [hctr, hout]
    rfl

theorem interpretValue_found {value : FinfoValue} (h : st.found value = true) :
    interpretValue alloc st value parseval endptr = .error := by
  unfold interpretValue
  rw [h]
  rfl

theorem interpretValue_number {value : FinfoValue} (h : st.found value = false)
    (hmtime : value ≠ .mtime) (hpath : value ≠ .path) :
    interpretValue alloc st value parseval endptr =
      if parseval ≤ value.max then
        .done
          { parse := endptr
            bufsize := SizeT.sub st.bufsize (st.parse.length - endptr.length)
            finfo := value.store parseval st.finfo
            found := Function.update st.found value true }
      else .error := by
  by_cases hle : parseval ≤ value.max
  · rw [if_pos hle]
    cases value with
    | mtime => exact absurd rfl hmtime
    | path => exact absurd rfl hpath
    | inode | mode | owner | group | size | eof =>
      simp only [interpretValue, h, hle, Walk.check, Bool.not_false, decide_true, if_true,
        Walk.done_bind]
      rfl
  · rw [if_neg hle]
    cases value with
    | mtime => exact absurd rfl hmtime
    | path => exact absurd rfl hpath
    | inode | mode | owner | group | size | eof =>
      simp only [interpretValue, h, hle, Walk.check, Bool.not_false, decide_false, if_true,
        Walk.done_bind, Bool.false_eq_true, if_false, Walk.error_bind]

/-- A timestamp, up to its nanoseconds. -/
theorem interpretValue_mtime {sec : List Char} (h : st.found .mtime = false) :
    interpretValue alloc st .mtime parseval ('.' :: sec) = storeMtime st ('.' :: sec) parseval := by
  unfold interpretValue
  rw [h]
  rfl

theorem interpretValue_path {path : List Char} (h : st.found .path = false)
    (hctr : st.bufsize = st.parse.length) (hlt : st.parse.length < SizeT.modulus)
    (hle : path.length ≤ st.parse.length) :
    interpretValue alloc st .path parseval (':' :: path) =
      storePath alloc st path path.length parseval (printedLength parseval path) := by
  have hsize : SizeT.sub st.bufsize (st.parse.length - path.length) = path.length := by
    rw [hctr, SizeT.sub_of_le (Nat.sub_le _ _) hlt]
    omega
  unfold interpretValue
  rw [h]
  simp only [tail_cons, hsize, Bool.not_false, Walk.check_true, Walk.done_bind, byteAt, decide_true]

theorem interpretValue_mtime_of_ne {c : Char} {rest : List Char} (hc : c ≠ '.')
    (h : st.found .mtime = false) :
    interpretValue alloc st .mtime parseval (c :: rest) = .error := by
  rw [interpretValue, h, Bool.not_false, Walk.check_true, Walk.done_bind, byteAt, Walk.done_bind,
    decide_eq_false hc]
  rfl

theorem interpretValue_path_of_ne {c : Char} {rest : List Char} (hc : c ≠ ':')
    (h : st.found .path = false) :
    interpretValue alloc st .path parseval (c :: rest) = .error := by
  rw [interpretValue, h, Bool.not_false, Walk.check_true, Walk.done_bind, byteAt, Walk.done_bind,
    decide_eq_false hc]
  rfl

theorem storePath_done {path : List Char} {printed : Walk Nat}
    (hroom : parseval ≤ SizeT.sub path.length msgTail.length) (hprint : printed = .done parseval)
    (hin : parseval < path.length) (hlt : path.length < SizeT.modulus) :
    ∃ st', storePath true st path path.length parseval printed = .done st' ∧
      st'.parse = (path.drop parseval).drop
        (if (path.drop parseval).head? = some '|' then 1 else 0) ∧
      st'.bufsize = st'.parse.length ∧ st'.found = Function.update st.found .path true := by
  have hne : path.drop parseval ≠ [] := by
    intro hnil
    have hle := List.drop_eq_nil_iff.1 hnil
    omega
  obtain ⟨c, hc, hcons⟩ := byteAt_of_ne_nil hne
  have hskipped : (if (path.drop parseval).head? = some '|' then 1 else 0) =
      if c = '|' then 1 else 0 := by
    rw [byteAt_eq_done_iff.1 hc]
    simp
  have hle : (if c = '|' then 1 else 0) ≤ path.length - parseval := by
    split <;> omega
  rw [storePath, decide_eq_true hroom, Walk.check_true, Walk.done_bind, Walk.done_bind, hprint,
    Walk.done_bind, decide_eq_true rfl, Walk.check_true, Walk.done_bind, hc, Walk.done_bind]
  refine ⟨_, rfl, by rw [hskipped], ?_, rfl⟩
  dsimp only
  rw [SizeT.sub_of_le hin.le hlt, SizeT.sub_of_le hle (by omega), length_drop, length_drop]

theorem storePath_cases {path : List Char} {printed : Walk Nat}
    (hprint : printed = .fault ∨ ∃ length, printed = .done length)
    (hsafe : ∀ (_ : parseval ≤ SizeT.sub path.length msgTail.length) (_ : alloc = true),
      ¬ (printed = .fault ∨ printed = .done parseval ∧ path.length ≤ parseval)) :
    storePath alloc st path path.length parseval printed = .error ∨
      parseval ≤ SizeT.sub path.length msgTail.length ∧ alloc = true ∧ printed = .done parseval ∧
        parseval < path.length := by
  by_cases hroom : parseval ≤ SizeT.sub path.length msgTail.length
  swap
  · left
    rw [storePath, decide_eq_false hroom]
    rfl
  cases alloc with
  | false =>
    left
    rw [storePath, decide_eq_true hroom]
    rfl
  | true =>
    have hopen := hsafe hroom rfl
    rcases hprint with hfault | ⟨length, hdone⟩
    · exact absurd (.inl hfault) hopen
    by_cases heq : length = parseval
    · subst heq
      refine .inr ⟨hroom, rfl, hdone, ?_⟩
      by_contra hle
      exact hopen (.inr ⟨hdone, Nat.le_of_not_lt hle⟩)
    · left
      rw [storePath, decide_eq_true hroom, Walk.check_true, Walk.done_bind, Walk.done_bind, hdone,
        Walk.done_bind, decide_eq_false heq]
      rfl

theorem storePath_fault {path : List Char} {printed : Walk Nat}
    (hroom : parseval ≤ SizeT.sub path.length msgTail.length) (hall : alloc = true)
    (hopen : printed = .fault ∨ printed = .done parseval ∧ path.length ≤ parseval) :
    storePath alloc st path path.length parseval printed = .fault := by
  rw [storePath, decide_eq_true hroom, Walk.check_true, Walk.done_bind, hall, Walk.check_true, Walk.done_bind]
  rcases hopen with hfault | ⟨hdone, hle⟩
  · rw [hfault]
    rfl
  · rw [hdone, Walk.done_bind, decide_eq_true rfl, Walk.check_true, Walk.done_bind,
      drop_eq_nil_of_le hle]
    rfl

theorem storeMtime_done {sec : List Char} {parsensec : Nat}
    (hnsec : parseNumber 10 [')'] sec = .done (parsensec, endptr)) (hle : parsensec ≤ nsecMax) :
    storeMtime st ('.' :: sec) parseval = .done
      { parse := endptr
        bufsize := SizeT.sub st.bufsize (sec.length + 1 - endptr.length)
        finfo := { st.finfo with mtimeSec := parseval, mtimeNsec := parsensec }
        found := Function.update st.found .mtime true } := by
  rw [storeMtime, tail_cons, hnsec, Walk.done_bind]
  dsimp only
  rw [decide_eq_true hle]
  rfl

theorem parseValue_next (hval : ValueExpected st.parse) (hctr : st.bufsize = st.parse.length)
    (hlt : st.parse.length < SizeT.modulus) (hsafe : ¬ Overrun alloc st.found st.parse) :
    parseValue alloc st = .error ∨ ∃ st', parseValue alloc st = .done st' ∧
      st'.bufsize = st'.parse.length ∧ st'.parse.length < st.parse.length ∧
      ∀ values, ValuesRead alloc values st.found st.parse →
        ValuesRead alloc values st'.found st'.parse := by
  rcases parseValue_cases hval hctr hlt with
    ⟨tag, htag, hopen, -⟩ | herror | ⟨tag, parseval, endptr, value, hnum, hofTag, heq⟩
  · exact absurd (.number tag hval htag hopen) hsafe
  · exact .inl herror
  rw [heq]
  have hless := hnum.length_lt
  cases hfound : st.found value with
  | true => exact .inl (interpretValue_found hfound)
  | false =>
    have hne : endptr ≠ [] := by
      intro hnil
      have hlen := hnum.length
      rw [hnil] at hlen
      exact absurd hlen (by decide)
    obtain ⟨c, rest, rfl⟩ := exists_cons_of_ne_nil hne
    by_cases hmtime : value = .mtime
    · subst hmtime
      obtain rfl := FinfoValue.ofTag_eq_mtime hofTag
      left
      by_cases hc : c = '.'
      · subst hc
        rw [interpretValue_mtime hfound]
        rcases parseNumber_cases 10 [')'] rest with
          ⟨hopen, -⟩ | ⟨-, herror | ⟨parsensec, endptr, hdone, -⟩⟩
        · exact absurd (.nanoseconds hnum hfound hopen) hsafe
        · rw [storeMtime, tail_cons, herror]
          rfl
        · by_cases hle : parsensec ≤ nsecMax
          · exact absurd (.timestamp hnum hfound hdone hle) hsafe
          · rw [storeMtime, tail_cons, hdone, Walk.done_bind]
            dsimp only
            rw [decide_eq_false hle]
            rfl
      · exact interpretValue_mtime_of_ne hc hfound
    by_cases hpath : value = .path
    · subst hpath
      obtain rfl := FinfoValue.ofTag_eq_path hofTag
      by_cases hc : c = ':'
      · subst hc
        rw [length_cons] at hless
        rw [interpretValue_path hfound hctr hlt (by omega)]
        have hopen : ∀ (_ : parseval ≤ SizeT.sub rest.length msgTail.length) (_ : alloc = true),
            ¬ (printedLength parseval rest = .fault ∨
              printedLength parseval rest = .done parseval ∧ rest.length ≤ parseval) :=
          fun hroom hall hopen => hsafe (.path hnum hfound hroom hall hopen)
        rcases storePath_cases (printedLength_cases parseval rest) hopen with
          herror | ⟨hroom, rfl, hprint, hin⟩
        · exact .inl herror
        obtain ⟨st', hdone, hprs, hbufsize, hfound'⟩ :=
          @storePath_done st parseval rest (printedLength parseval rest) hroom hprint hin (by omega)
        refine .inr ⟨st', hdone, hbufsize, ?_, fun values hread => ?_⟩
        · rw [hprs, length_drop, length_drop]
          omega
        · rw [hprs, hfound']
          exact .path hread hnum hfound hroom rfl hprint hin
      · exact .inl (interpretValue_path_of_ne hc hfound)
    rw [interpretValue_number hfound hmtime hpath]
    split
    · next hle =>
      refine .inr ⟨_, rfl, ?_, hless, fun values hread => ?_⟩
      · dsimp only
        rw [hctr, SizeT.sub_of_le (Nat.sub_le _ _) hlt]
        omega
      · exact .number hread hnum hofTag hmtime hpath hfound hle
    · exact .inl rfl

end Step

/-! ## Runs -/

section Run

variable {alloc : Bool} {finfo : RecoveryFinfo} {srcstr values : List Char} {st st' : FinfoState}

def FinfoState.start (finfo : RecoveryFinfo) (values : List Char) : FinfoState :=
  { parse := values, bufsize := values.length, finfo := finfo, found := fun _ => false }

theorem skipWord_eq {word parse : List Char} (hlt : parse.length < SizeT.modulus) :
    skipWord word (.start finfo parse) =
      if word.isPrefixOf parse then .done (.start finfo (parse.drop word.length)) else .error := by
  unfold skipWord FinfoState.start
  dsimp only
  by_cases hle : word.length ≤ parse.length
  · rw [decide_eq_true hle, Walk.check_true, Walk.done_bind, strncmpIn_eq word hle, Walk.done_bind,
      SizeT.sub_of_le hle hlt, ← length_drop]
    cases word.isPrefixOf parse <;> rfl
  · have hnot : word.isPrefixOf parse = false := by
      rw [Bool.eq_false_iff]
      intro h
      exact hle (List.isPrefixOf_iff_prefix.1 h).length_le
    rw [decide_eq_false hle, hnot]
    rfl

theorem parseFinfoHeader_cases (hlt : srcstr.length < SizeT.modulus) :
    (parseFinfoHeader srcstr finfo = .error ∧ ∀ values, srcstr ≠ msgHead ++ (finfoType ++ values)) ∨
      ∃ values, srcstr = msgHead ++ (finfoType ++ values) ∧
        parseFinfoHeader srcstr finfo = .done (.start finfo values) := by
  have hhdr : parseFinfoHeader srcstr finfo =
      skipWord msgHead (.start finfo srcstr) >>= skipWord finfoType := rfl
  rw [hhdr, skipWord_eq hlt]
  by_cases hhead : msgHead.isPrefixOf srcstr = true
  swap
  · left
    rw [if_neg hhead]
    refine ⟨rfl, ?_⟩
    rintro values rfl
    exact hhead (List.isPrefixOf_iff_prefix.2 (prefix_append _ _))
  obtain ⟨rest, rfl⟩ := List.isPrefixOf_iff_prefix.1 hhead
  rw [length_append] at hlt
  rw [if_pos hhead, drop_left, Walk.done_bind, skipWord_eq (by omega)]
  by_cases htype : finfoType.isPrefixOf rest = true
  · right
    obtain ⟨values, rfl⟩ := List.isPrefixOf_iff_prefix.1 htype
    rw [if_pos htype, drop_left]
    exact ⟨values, rfl, rfl⟩
  · left
    rw [if_neg htype]
    refine ⟨rfl, ?_⟩
    intro values heq
    rw [append_cancel_left heq] at htype
    exact htype (List.isPrefixOf_iff_prefix.2 (prefix_append _ _))

theorem finfoLoop_turn (h : Turn alloc st st') (fuel : Nat) :
    finfoLoop alloc (fuel + 1) st = finfoLoop alloc fuel st' := by
  rw [finfoLoop, h.1, Walk.done_bind, if_pos rfl, h.2, Walk.done_bind]

theorem loopCondition_of_expected (h : ValueExpected st.parse) (hctr : st.bufsize = st.parse.length) :
    loopCondition st = .done true := by
  rcases loopCondition_eq hctr with ⟨-, htrue⟩ | ⟨hnot, -⟩
  · exact htrue
  · exact absurd h hnot

/-- The parser gets to the place behind the values: there is such a state, with the right number of bytes
left, and a loop with enough fuel goes on from there. -/
structure ReachedAt (alloc : Bool) (finfo : RecoveryFinfo) (values : List Char)
    (found : FinfoValue → Bool) (rest : List Char) (st : FinfoState) : Prop where
  parse : st.parse = rest
  found : st.found = found
  counter : st.bufsize = st.parse.length
  length : rest.length ≤ values.length
  turns : Relation.ReflTransGen (Turn alloc) (.start finfo values) st
  loop : ∀ fuel, values.length < fuel → ∃ fuel', rest.length < fuel' ∧
    finfoLoop alloc fuel (.start finfo values) = finfoLoop alloc fuel' st

theorem ReachedAt.next {found found' : FinfoValue → Bool} {rest rest' : List Char}
    (h : ReachedAt alloc finfo values found rest st) (hturn : Turn alloc st st') (hprs : st'.parse = rest')
    (hfound : st'.found = found') (hctr : st'.bufsize = st'.parse.length)
    (hless : rest'.length < rest.length) : ReachedAt alloc finfo values found' rest' st' := by
  have hle := h.length
  refine ⟨hprs, hfound, hctr, by omega, h.turns.tail hturn, ?_⟩
  intro fuel hfuel
  obtain ⟨fuel', hfuel', heq⟩ := h.loop fuel hfuel
  obtain ⟨fuel'', rfl⟩ : ∃ n, fuel' = n + 1 := ⟨fuel' - 1, by omega⟩
  exact ⟨fuel'', by omega, heq.trans (finfoLoop_turn hturn fuel'')⟩

theorem ValuesRead.reached {found : FinfoValue → Bool} {rest : List Char}
    (h : ValuesRead alloc values found rest) (hlt : values.length < SizeT.modulus) :
    ∃ st, ReachedAt alloc finfo values found rest st := by
  induction h with
  | start => exact ⟨_, rfl, rfl, rfl, Nat.le_refl _, .refl, fun fuel hfuel => ⟨fuel, hfuel, rfl⟩⟩
  | @number found rest endptr tag parseval value _ hnum hofTag hmtime hpath hfound hmax ih =>
    obtain ⟨st, hst⟩ := ih
    have hctr := hst.counter
    have hle := hst.length
    obtain rfl := hst.parse
    obtain rfl := hst.found
    have hlt' : st.parse.length < SizeT.modulus := by omega
    have hless := hnum.length_lt
    have hval := (@parseValue_eq alloc _ _ _ _ hnum hctr hlt' _ hofTag).trans
      ((interpretValue_number hfound hmtime hpath).trans (if_pos hmax))
    refine ⟨_, hst.next ⟨loopCondition_of_expected hnum.expected hctr, hval⟩ rfl rfl ?_ hless⟩
    dsimp only
    rw [hctr, SizeT.sub_of_le (Nat.sub_le _ _) hlt']
    omega
  | @path found rest path parseval _ hnum hfound hroom hall hprint hin ih =>
    obtain ⟨st, hst⟩ := ih
    have hctr := hst.counter
    have hle := hst.length
    obtain rfl := hst.parse
    obtain rfl := hst.found
    subst hall
    have hlt' : st.parse.length < SizeT.modulus := by omega
    have hless := hnum.length_lt
    rw [length_cons] at hless
    obtain ⟨st', hdone, hprs, hbufsize, hfound'⟩ :=
      @storePath_done st parseval path _ hroom hprint hin (by omega)
    have hval : parseValue true st = .done st' := by
      rw [parseValue_eq hnum hctr hlt' rfl,
        interpretValue_path hfound hctr hlt' (by omega), hdone]
    refine ⟨st', hst.next ⟨loopCondition_of_expected hnum.expected hctr, hval⟩ hprs hfound'
      hbufsize ?_⟩
    rw [length_drop, length_drop]
    omega

theorem turns_bounded (hlt : values.length < SizeT.modulus)
    (hsafe : ∀ found rest, ValuesRead alloc values found rest → ¬ Overrun alloc found rest)
    (h : Relation.ReflTransGen (Turn alloc) (.start finfo values) st) :
    st.bufsize = st.parse.length ∧ st.parse.length ≤ values.length ∧
      ValuesRead alloc values st.found st.parse := by
  induction h with
  | refl => exact ⟨rfl, Nat.le_refl _, .start⟩
  | tail _ hturn ih =>
    obtain ⟨hctr, hle, hread⟩ := ih
    rcases loopCondition_eq hctr with ⟨hval, -⟩ | ⟨-, hfalse⟩
    · rcases parseValue_next hval hctr (by omega) (hsafe _ _ hread) with
        herror | ⟨st', hdone, hctr', hless, hread'⟩
      · have heq := herror.symm.trans hturn.2
        cases heq
      · have heq := hdone.symm.trans hturn.2
        cases heq
        exact ⟨hctr', by omega, hread' values hread⟩
    · have heq := hfalse.symm.trans hturn.1
      cases heq

theorem finfoLoop_cases (hlt : values.length < SizeT.modulus)
    (hsafe : ∀ found rest, ValuesRead alloc values found rest → ¬ Overrun alloc found rest) :
    ∀ (fuel : Nat) (st : FinfoState), Relation.ReflTransGen (Turn alloc) (.start finfo values) st →
      st.parse.length < fuel → finfoLoop alloc fuel st = .error ∨
        ∃ st', finfoLoop alloc fuel st = .done st' ∧
          Relation.ReflTransGen (Turn alloc) (.start finfo values) st' := by
  intro fuel
  induction fuel with
  | zero =>
    intro st _ hfuel
    cases hfuel
  | succ fuel ih =>
    intro st hturns hfuel
    obtain ⟨hctr, hle, hread⟩ := turns_bounded hlt hsafe hturns
    rcases loopCondition_eq hctr with ⟨hval, htrue⟩ | ⟨-, hfalse⟩
    · rcases parseValue_next hval hctr (by omega) (hsafe _ _ hread) with
        herror | ⟨st', hdone, -, hless, -⟩
      · left
        rw [finfoLoop, htrue, Walk.done_bind, if_pos rfl, herror]
        rfl
      · have hturn : Turn alloc st st' := ⟨htrue, hdone⟩
        rw [finfoLoop_turn hturn]
        exact ih st' (hturns.tail hturn) (by omega)
    · right
      rw [finfoLoop, hfalse, Walk.done_bind, if_neg Bool.false_ne_true]
      exact ⟨st, rfl, hturns⟩

theorem ValuesRead.found_mtime {found : FinfoValue → Bool} {rest : List Char}
    (h : ValuesRead alloc values found rest) : found .mtime = false := by
  induction h with
  | start => rfl
  | number _ _ _ hmtime _ _ _ ih => rw [Function.update_of_ne (Ne.symm hmtime), ih]
  | path _ _ _ _ _ _ _ ih => rw [Function.update_of_ne (by decide), ih]

/-- Where something overruns, a loop with enough fuel reads behind the end, or a turn leaves the wrong
number of bytes. -/
theorem ReachedAt.overruns {found : FinfoValue → Bool} {rest : List Char}
    (h : ReachedAt alloc finfo values found rest st) (hlt : values.length < SizeT.modulus)
    (hover : Overrun alloc found rest) :
    (∀ fuel, values.length < fuel → finfoLoop alloc fuel (.start finfo values) = .fault) ∨
      ∃ st', Relation.ReflTransGen (Turn alloc) (.start finfo values) st' ∧
        st'.bufsize ≠ st'.parse.length := by
  have hctr := h.counter
  have hle := h.length
  obtain rfl := h.parse
  obtain rfl := h.found
  have hlt' : st.parse.length < SizeT.modulus := by omega
  have hfault : ValueExpected st.parse → parseValue alloc st = .fault →
      ∀ fuel, values.length < fuel → finfoLoop alloc fuel (.start finfo values) = .fault := by
    intro hval hfault fuel hfuel
    obtain ⟨fuel', hfuel', heq⟩ := h.loop fuel hfuel
    obtain ⟨fuel'', rfl⟩ : ∃ n, fuel' = n + 1 := ⟨fuel' - 1, by omega⟩
    rw [heq, finfoLoop, loopCondition_of_expected hval hctr, Walk.done_bind, if_pos rfl, hfault]
    rfl
  cases hover with
  | number tag hval htag hopen =>
    left
    apply hfault hval
    rw [parseValue, byteAt_eq_done_iff.2 htag, Walk.done_bind, parseNumber_eq_fault hopen]
    rfl
  | timestamp hnum hfound hnsec hmax =>
    right
    have hturn := (@parseValue_eq alloc _ _ _ _ hnum hctr hlt' _ rfl).trans
      ((interpretValue_mtime hfound).trans (storeMtime_done hnsec hmax))
    refine ⟨_, h.turns.tail ⟨loopCondition_of_expected hnum.expected hctr, hturn⟩, ?_⟩
    have hless := hnum.length_lt
    have hend := parseNumber_length hnsec
    dsimp only
    rw [length_cons] at hless
    rw [hctr, SizeT.sub_of_le (by omega) hlt']
    omega
  | nanoseconds hnum hfound hopen =>
    left
    apply hfault hnum.expected
    rw [parseValue_eq hnum hctr hlt' rfl, interpretValue_mtime hfound, storeMtime,
      tail_cons, parseNumber_eq_fault hopen]
    rfl
  | path hnum hfound hroom hall hopen =>
    left
    apply hfault hnum.expected
    have hless := hnum.length_lt
    rw [length_cons] at hless
    rw [parseValue_eq hnum hctr hlt' rfl, interpretValue_path hfound hctr hlt' (by omega)]
    exact storePath_fault hroom hall hopen

end Run

section Whole

variable {alloc : Bool} {fuel : Nat} {finfo : RecoveryFinfo} {srcstr : List Char} {st : FinfoState}

theorem recoveryFinfofromstr_of_error (h : parseFinfoHeader srcstr finfo = .error) :
    recoveryFinfofromstr alloc fuel finfo srcstr = .error := by
  rw [recoveryFinfofromstr, parseRecovFinfo, h, Walk.error_bind, Walk.error_bind]
  cases decide (1 ≤ srcstr.length) <;> rfl

theorem recoveryFinfofromstr_eq (h : parseFinfoHeader srcstr finfo = .done st)
    (hne : 1 ≤ srcstr.length) :
    recoveryFinfofromstr alloc fuel finfo srcstr = (do
      let st ← finfoLoop alloc fuel st >>= checkFinfo
      Walk.check (srcstr.length ≤ srcstr.length - st.parse.length + msgTail.length)
      pure st.finfo) := by
  rw [recoveryFinfofromstr, decide_eq_true hne, Walk.check_true, Walk.done_bind, parseRecovFinfo, h,
    Walk.done_bind]

theorem recoveryFinfofromstr_cases {st' : FinfoState} (h : parseFinfoHeader srcstr finfo = .done st)
    (hne : 1 ≤ srcstr.length) (hloop : finfoLoop alloc fuel st = .done st') :
    recoveryFinfofromstr alloc fuel finfo srcstr = .error ∨
      recoveryFinfofromstr alloc fuel finfo srcstr = .done st'.finfo ∧
        ∀ value, st'.found value = true := by
  rw [recoveryFinfofromstr_eq h hne, hloop, Walk.done_bind, checkFinfo]
  obtain hlen | hlen := Bool.eq_false_or_eq_true (decide (msgTail.length ≤ st'.bufsize))
  swap
  · left
    rw [hlen]
    rfl
  obtain hall | hall := Bool.eq_false_or_eq_true (FinfoValue.all.all st'.found)
  swap
  · left
    rw [hlen, Walk.check_true, Walk.done_bind, hall]
    rfl
  rw [hlen, Walk.check_true, Walk.done_bind, hall, Walk.check_true, Walk.done_bind]
  obtain htrailing | htrailing := Bool.eq_false_or_eq_true
    (decide (srcstr.length ≤ srcstr.length - st'.parse.length + msgTail.length))
  · right
    refine ⟨?_, fun value => List.all_eq_true.1 hall value ?_⟩
    · change (do Walk.check _; pure st'.finfo) = _
      rw [htrailing]
      rfl
    · cases value <;> decide
  · left
    change (do Walk.check _; pure st'.finfo) = _
    rw [htrailing]
    rfl

/-- A buffer is parsed exactly if and only if none of the values in it is a timestamp or runs to its
end.  In particular no record is: it has a timestamp. -/
theorem parsedExactly_iff (hlt : srcstr.length < SizeT.modulus) (hfuel : srcstr.length < fuel) :
    ParsedExactly alloc fuel finfo srcstr ↔ Bounded alloc srcstr := by
  rcases parseFinfoHeader_cases hlt with ⟨herror, hnone⟩ | ⟨values, hsrc, hdone⟩
  · have hresult := @recoveryFinfofromstr_of_error alloc fuel finfo srcstr herror
    refine iff_of_true ⟨?_, ?_, ?_⟩ ?_
    · rintro st ⟨st₀, hst₀, -⟩
      rw [herror] at hst₀
      cases hst₀
    · rw [hresult]
      exact Walk.returns_error
    · intro parsed hparsed
      rw [hresult] at hparsed
      cases hparsed
    · intro values found rest hsrc
      exact absurd hsrc (hnone values)
  have hvalues : values.length < srcstr.length := by
    have hhead : msgHead.length = 7 := rfl
    rw [hsrc, length_append, length_append]
    omega
  constructor
  · intro h values' found rest hsrc' hread hover
    rw [hsrc] at hsrc'
    obtain rfl := append_cancel_left (append_cancel_left hsrc')
    obtain ⟨st, hst⟩ := hread.reached (by omega)
    rcases hst.overruns (by omega) hover with hfault | ⟨st', hturns, hcounter⟩
    · have hreturns := h.returns
      rw [recoveryFinfofromstr_eq hdone (by omega), hfault fuel (by omega)] at hreturns
      exact hreturns
    · exact hcounter (h.counter st' ⟨_, hdone, hturns⟩)
  · intro h
    have hsafe := fun found rest => h values found rest hsrc
    have hend := finfoLoop_cases (by omega) hsafe fuel (.start finfo values) .refl
      (show values.length < fuel by omega)
    have hresult : recoveryFinfofromstr alloc fuel finfo srcstr = .error := by
      rcases hend with herror | ⟨st', hloop, hturns⟩
      · rw [recoveryFinfofromstr_eq hdone (by omega), herror]
        rfl
      · rcases recoveryFinfofromstr_cases hdone (by omega) hloop with herror | ⟨-, hall⟩
        · exact herror
        · obtain ⟨-, -, hread⟩ := turns_bounded (by omega) hsafe hturns
          have hmtime := hread.found_mtime
          rw [hall] at hmtime
          cases hmtime
    refine ⟨?_, ?_, ?_⟩
    · rintro st ⟨st₀, hst₀, hturns⟩
      rw [hdone] at hst₀
      cases hst₀
      exact (turns_bounded (by omega) hsafe hturns).1
    · rw [hresult]
      exact Walk.returns_error
    · intro parsed hparsed
      rw [hresult] at hparsed
      cases hparsed

end Whole

def emptyFinfo : RecoveryFinfo :=
  { inode := 0, mode := 0, owner := 0, group := 0, size := 0, mtimeSec := 0, mtimeNsec := 0
    eof := false, path := [] }

def sampleBuffer (values : String) : List Char := msgHead ++ (finfoType ++ values.toList)

/-- A buffer with one value and the tail of a record. -/
theorem inodeBuffer_exactly :
    ParsedExactly true 100 emptyFinfo (sampleBuffer "i5|)\n") ↔ Bounded true (sampleBuffer "i5|)\n") :=
  parsedExactly_iff (by decide) (by decide)

theorem recoveryFinfotostr_getLast (record : RecoveryFinfo) :
    (recoveryFinfotostr record).getLast? = some '\n' := by
  unfold recoveryFinfotostr
  rw [List.getLast?_append]
  rfl

/-- Behind a timestamp the number of bytes left is wrong; a number is read behind the end of the buffer;
and a terminator is taken for the end of the record, whatever follows it. -/
theorem sampleBuffers_misread :
    (∃ st, LoopHead true emptyFinfo (sampleBuffer "t1.2|)\n") st ∧ st.bufsize ≠ st.parse.length) ∧
      recoveryFinfofromstr true 100 emptyFinfo (sampleBuffer "i5") = .fault ∧
      ∃ parsed, recoveryFinfofromstr true 100 emptyFinfo
          (sampleBuffer "i5|m0644|o1|g2|s3|t4.6|e1|p3:abc\x00x") = .done parsed ∧
        ∀ record, sampleBuffer "i5|m0644|o1|g2|s3|t4.6|e1|p3:abc\x00x" ≠
          recoveryFinfotostr record := by
  refine ⟨?_, by decide +kernel, ?_⟩
  · have hturn : Turn true (.start emptyFinfo "t1.2|)\n".toList)
        { parse := ")\n".toList, bufsize := 4
          finfo := { emptyFinfo with mtimeSec := 1, mtimeNsec := 2 }
          found := Function.update (fun _ => false) .mtime true } :=
      ⟨by decide +kernel, rfl⟩
    exact ⟨_, ⟨_, rfl, .single hturn⟩, by decide⟩
  · refine ⟨{ inode := 5, mode := 0o644, owner := 1, group := 2, size := 3, mtimeSec := 4
              mtimeNsec := 6, eof := true, path := "abc".toList }, by decide +kernel, ?_⟩
    intro record heq
    have hlast := recoveryFinfotostr_getLast record
    rw [← heq] at hlast
    revert hlast
    decide

end Marfs.Recovery
