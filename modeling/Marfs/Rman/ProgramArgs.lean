import Marfs.Cstring.Strto
import Mathlib.Data.List.TakeWhile

/-!
# The arguments of a run in its summary log

A run writes the version of its config and its arguments to the head of its summary log, one line for
each, and an empty line behind them.  A later run reads them back, to find out whether the logs of the
earlier one are for it.

The arguments come back unless one of the numbers is `-1`: it is read as `ULLONG_MAX`, which counts as
a failure.  The version is compared up to the end of the line that was read, so a version is taken for
every version it is a prefix of (`programArgs_survive_iff`).
-/

namespace Marfs.Rman

open Cstring List

/-! ## Arguments -/

structure RebuildLocation where
  pod : Int32
  cap : Int32
  scatter : Int32
  deriving DecidableEq

/-- What of the state of a run is written to its summary log. -/
structure ProgramArgs where
  dryrun : Bool
  quotas : Bool
  gcthreshold : Int64
  repackthreshold : Int64
  rebuildthreshold : Int64
  lbrebuild : Bool
  rebuildloc : RebuildLocation
  deriving DecidableEq

/-- The state a log is read into, before it is read. -/
def ProgramArgs.cleared : ProgramArgs where
  dryrun := false
  quotas := false
  gcthreshold := 0
  repackthreshold := 0
  rebuildthreshold := 0
  lbrebuild := false
  rebuildloc := { pod := 0, cap := 0, scatter := 0 }

/-! ## Writing -/

def printThreshold (threshold : Int64) : List Char := decimal (toUll threshold.toInt)

def outputProgramArgs (version : List Char) (rman : ProgramArgs) : List Char :=
  version ++ ['\n'] ++
    ((if rman.dryrun then "DRY-RUN\n".toList else []) ++
    (if rman.quotas then "QUOTAS\n".toList else []) ++
    (if rman.gcthreshold ≠ 0 then
      "GC=".toList ++ printThreshold rman.gcthreshold ++ ['\n'] else []) ++
    (if rman.repackthreshold ≠ 0 then
      "REPACK=".toList ++ printThreshold rman.repackthreshold ++ ['\n'] else []) ++
    (if rman.rebuildthreshold ≠ 0 then
      "REBUILD=".toList ++ printThreshold rman.rebuildthreshold ++ ['\n'] else []) ++
    (if rman.lbrebuild then
      "REBUILD-LOCATION-POD=".toList ++ decimalInt rman.rebuildloc.pod.toInt ++ ['\n'] ++
      ("REBUILD-LOCATION-CAP=".toList ++ decimalInt rman.rebuildloc.cap.toInt ++ ['\n']) ++
      ("REBUILD-LOCATION-SCATTER=".toList ++ decimalInt rman.rebuildloc.scatter.toInt ++ ['\n'])
    else [])) ++
    ['\n']

/-! ## Reading -/

/-- The lines of a file, as `getline` gives them: each with its newline, the last one perhaps
without. -/
def splitLines : List Char → List (List Char)
  | [] => []
  | c :: s =>
    if c = '\n' then ['\n'] :: splitLines s
    else
      match splitLines s with
      | [] => [[c]]
      | line :: lines => (c :: line) :: lines

/-- `strncmp` finds no difference in the first `n` characters; the string that is compared has at
least as many. -/
def strncmpEq (readline word : List Char) (n : Nat) : Bool := readline.take n == word.take n

/-- What a line sets. -/
inductive ProgramArg where
  | quotas
  | dryrun
  | gc (threshold : Int64)
  | repack (threshold : Int64)
  | rebuild (threshold : Int64)
  | pod (n : Int32)
  | cap (n : Int32)
  | scatter (n : Int32)
  deriving DecidableEq

/-- The values that a line populates. -/
def ProgramArg.set : ProgramArg → ProgramArgs → ProgramArgs
  | .quotas, rman => { rman with quotas := true }
  | .dryrun, rman => { rman with dryrun := true }
  | .gc threshold, rman => { rman with gcthreshold := threshold }
  | .repack threshold, rman => { rman with repackthreshold := threshold }
  | .rebuild threshold, rman => { rman with rebuildthreshold := threshold }
  | .pod n, rman =>
    { rman with rebuildloc := { rman.rebuildloc with pod := n }, lbrebuild := true }
  | .cap n, rman =>
    { rman with rebuildloc := { rman.rebuildloc with cap := n }, lbrebuild := true }
  | .scatter n, rman =>
    { rman with rebuildloc := { rman.rebuildloc with scatter := n }, lbrebuild := true }

/-- The value of a line, by the string before its `=`. -/
def parseHeader (header : List Char) (parseval : Nat) : Option ProgramArg :=
  if header = "GC".toList then some (.gc (Int64.ofNat parseval))
  else if header = "REPACK".toList then some (.repack (Int64.ofNat parseval))
  else if header = "REBUILD".toList then some (.rebuild (Int64.ofNat parseval))
  else if header = "REBUILD-LOCATION-POD".toList then some (.pod (Int32.ofNat parseval))
  else if header = "REBUILD-LOCATION-CAP".toList then some (.cap (Int32.ofNat parseval))
  else if header = "REBUILD-LOCATION-SCATTER".toList then some (.scatter (Int32.ofNat parseval))
  else none

/-- One line behind the version; `none` if it cannot be parsed. -/
def parseLine (readline : List Char) : Option ProgramArg :=
  let linelen := readline.length - 1
  if strncmpEq readline "QUOTAS".toList linelen then some .quotas
  else if strncmpEq readline "DRY-RUN".toList linelen then some .dryrun
  else
    match readline.dropWhile (· != '=') with
    | [] => none
    | _ :: parse =>
      let parsed := strtoull parse
      if parsed.2.head? ≠ some '\n' ∨ parsed.1 = ullongMax then none
      else parseHeader (readline.takeWhile (· != '=')) parsed.1

def readArgs : List (List Char) → ProgramArgs → Int × ProgramArgs
  | [], rman => (-1, rman)
  | readline :: lines, rman =>
    if readline.length > 1 then
      match parseLine readline with
      | none => (-1, rman)
      | some arg => readArgs lines (arg.set rman)
    else (0, rman)

/-- `parse_program_args`: zero on success, one for another version, minus one on failure. -/
def parseProgramArgs (version : List Char) (rman : ProgramArgs) (inputsummary : List Char) :
    Int × ProgramArgs :=
  match splitLines inputsummary with
  | [] => (1, rman)
  | readline :: lines =>
    if readline.length < 2 then (1, rman)
    else if !strncmpEq readline version (readline.length - 1) then (1, rman)
    else readArgs lines rman

/-! ## Lines -/

theorem splitLines_cons_newline (s : List Char) : splitLines ('\n' :: s) = ['\n'] :: splitLines s :=
  if_pos rfl

theorem splitLines_append (s t : List Char) :
    splitLines (s ++ '\n' :: t) = splitLines (s ++ ['\n']) ++ splitLines t := by
  induction s with
  | nil => exact splitLines_cons_newline t
  | cons c s ih =>
    rw [cons_append, cons_append, splitLines, splitLines, ih]
    split
    · rfl
    · have hne : splitLines (s ++ ['\n']) ≠ [] := by
        cases s with
        | nil => simp [splitLines]
        | cons d s =>
          rw [cons_append, splitLines]
          split
          · exact cons_ne_nil _ _
          · split <;> exact cons_ne_nil _ _
      cases hlines : splitLines (s ++ ['\n']) with
      | nil => exact absurd hlines hne
      | cons line lines => rfl

theorem splitLines_line {line : List Char} (h : '\n' ∉ line) :
    splitLines (line ++ ['\n']) = [line ++ ['\n']] := by
  induction line with
  | nil => rfl
  | cons c line ih =>
    have hc : c ≠ '\n' := fun heq => h (heq ▸ mem_cons_self ..)
    rw [cons_append, splitLines, if_neg hc, ih fun hmem => h (mem_cons_of_mem _ hmem)]

def firstLine (s : List Char) : List Char := s.takeWhile (· != '\n')

/-- The lines behind the first newline; the last one ends with the string. -/
def furtherLines (s : List Char) : List (List Char) := (splitLines (s ++ ['\n'])).tail

theorem splitLines_first (s : List Char) :
    splitLines (s ++ ['\n']) = (firstLine s ++ ['\n']) :: furtherLines s := by
  unfold furtherLines
  induction s with
  | nil => rfl
  | cons c s ih =>
    by_cases hc : c = '\n'
    · subst hc
      rfl
    · rw [cons_append, splitLines, if_neg hc, ih]
      simp [firstLine, hc]

/-! ## One line -/

/-- The line that sets a value, without its newline. -/
def ProgramArg.line : ProgramArg → List Char
  | .quotas => "QUOTAS".toList
  | .dryrun => "DRY-RUN".toList
  | .gc threshold => "GC=".toList ++ printThreshold threshold
  | .repack threshold => "REPACK=".toList ++ printThreshold threshold
  | .rebuild threshold => "REBUILD=".toList ++ printThreshold threshold
  | .pod n => "REBUILD-LOCATION-POD=".toList ++ decimalInt n.toInt
  | .cap n => "REBUILD-LOCATION-CAP=".toList ++ decimalInt n.toInt
  | .scatter n => "REBUILD-LOCATION-SCATTER=".toList ++ decimalInt n.toInt

/-- The value is not taken for a failure of `strtoull`. -/
def ProgramArg.Readable : ProgramArg → Prop
  | .quotas => True
  | .dryrun => True
  | .gc threshold => threshold ≠ -1
  | .repack threshold => threshold ≠ -1
  | .rebuild threshold => threshold ≠ -1
  | .pod n => n ≠ -1
  | .cap n => n ≠ -1
  | .scatter n => n ≠ -1

instance : DecidablePred ProgramArg.Readable
  | .quotas | .dryrun => inferInstanceAs (Decidable True)
  | .gc threshold | .repack threshold | .rebuild threshold =>
    inferInstanceAs (Decidable (threshold ≠ -1))
  | .pod n | .cap n | .scatter n => inferInstanceAs (Decidable (n ≠ -1))

theorem strncmpEq_of_head_ne {c d : Char} (h : c ≠ d) (line word : List Char) {n : Nat} (hn : 0 < n) :
    strncmpEq (c :: line) (d :: word) n = false := by
  obtain ⟨m, rfl⟩ := Nat.exists_eq_succ_of_ne_zero (Nat.ne_of_gt hn)
  simp [strncmpEq, h]

theorem parseLine_value {c : Char} {header digits : List Char} {n : Nat} (hquotas : c ≠ 'Q')
    (hdryrun : c ≠ 'D') (heq : '=' ∉ c :: header) (h : Prints digits n) :
    parseLine (c :: header ++ '=' :: (digits ++ ['\n'])) =
      if n = ullongMax then none else parseHeader (c :: header) n := by
  have hall : ∀ d ∈ c :: header, (d != '=') = true := by
    intro d hd
    rw [bne_iff_ne]
    rintro rfl
    exact heq hd
  have hlen : 0 < (c :: header ++ '=' :: (digits ++ ['\n'])).length - 1 := by simp
  have hq : strncmpEq (c :: header ++ '=' :: (digits ++ ['\n'])) "QUOTAS".toList
      ((c :: header ++ '=' :: (digits ++ ['\n'])).length - 1) = false :=
    strncmpEq_of_head_ne hquotas _ _ hlen
  have hd : strncmpEq (c :: header ++ '=' :: (digits ++ ['\n'])) "DRY-RUN".toList
      ((c :: header ++ '=' :: (digits ++ ['\n'])).length - 1) = false :=
    strncmpEq_of_head_ne hdryrun _ _ hlen
  have hdrop : (c :: header ++ '=' :: (digits ++ ['\n'])).dropWhile (· != '=') =
      '=' :: (digits ++ ['\n']) := by
    rw [dropWhile_append_of_pos hall]
    exact dropWhile_cons_of_neg (by decide)
  have htake : (c :: header ++ '=' :: (digits ++ ['\n'])).takeWhile (· != '=') = c :: header := by
    rw [takeWhile_append_of_pos hall, takeWhile_cons_of_neg (by decide), List.append_nil]
  unfold parseLine
  simp only [hq, hd, hdrop, htake, h ['\n'] (stops_cons.2 rfl)]
  simp

theorem printThreshold_prints (threshold : Int64) :
    Prints (printThreshold threshold) (toUll threshold.toInt) := by
  apply prints_decimal
  unfold toUll ullongMax
  omega

theorem decimalInt_prints (n : Int32) : Prints (decimalInt n.toInt) (toUll n.toInt) := by
  apply prints_decimalInt
  have hlt := n.toInt_lt
  have hle := n.le_toInt
  unfold ullongMax
  omega

theorem toUll_eq_max {n : Int} (hle : -(2 ^ 63) ≤ n) (hlt : n < 2 ^ 63) : toUll n = ullongMax ↔ n = -1 := by
  unfold toUll ullongMax
  omega

theorem toUll_threshold_eq_max {threshold : Int64} : toUll threshold.toInt = ullongMax ↔ threshold = -1 := by
  rw [toUll_eq_max threshold.le_toInt threshold.toInt_lt, ← Int64.toInt_inj]
  rfl

theorem toUll_int_eq_max {n : Int32} : toUll n.toInt = ullongMax ↔ n = -1 := by
  have hlt := n.toInt_lt
  have hle := n.le_toInt
  rw [toUll_eq_max (by omega) (by omega), ← Int32.toInt_inj]
  rfl

theorem ofNat_toUll (threshold : Int64) : Int64.ofNat (toUll threshold.toInt) = threshold := by
  have hlt := threshold.toInt_lt
  have hle := threshold.le_toInt
  apply Int64.toInt.inj
  rw [Int64.toInt_ofNat']
  unfold toUll
  rw [Int.toNat_of_nonneg (by omega)]
  simp only [Int.bmod_def, Int64.size]
  split <;> omega

/-- An `int` comes back from the lower half of its unsigned value. -/
theorem ofNat_toUll_int (n : Int32) : Int32.ofNat (toUll n.toInt) = n := by
  have hlt := n.toInt_lt
  have hle := n.le_toInt
  apply Int32.toInt.inj
  rw [Int32.toInt_ofNat']
  unfold toUll
  rw [Int.toNat_of_nonneg (by omega)]
  simp only [Int.bmod_def, Int32.size]
  split <;> omega

theorem parseLine_threshold (c : Char) (header : List Char) (hquotas : c ≠ 'Q') (hdryrun : c ≠ 'D')
    (heq : '=' ∉ c :: header) {arg : Int64 → ProgramArg}
    (harg : ∀ n, parseHeader (c :: header) n = some (arg (Int64.ofNat n))) (threshold : Int64) :
    parseLine (c :: header ++ '=' :: (printThreshold threshold ++ ['\n'])) =
      if threshold ≠ -1 then some (arg threshold) else none := by
  rw [parseLine_value hquotas hdryrun heq (printThreshold_prints threshold), harg, ofNat_toUll]
  simp only [toUll_threshold_eq_max, ite_not]

theorem parseLine_int (c : Char) (header : List Char) (hquotas : c ≠ 'Q') (hdryrun : c ≠ 'D')
    (heq : '=' ∉ c :: header) {arg : Int32 → ProgramArg}
    (harg : ∀ n, parseHeader (c :: header) n = some (arg (Int32.ofNat n))) (n : Int32) :
    parseLine (c :: header ++ '=' :: (decimalInt n.toInt ++ ['\n'])) =
      if n ≠ -1 then some (arg n) else none := by
  rw [parseLine_value hquotas hdryrun heq (decimalInt_prints n), harg, ofNat_toUll_int]
  simp only [toUll_int_eq_max, ite_not]

theorem parseLine_line (arg : ProgramArg) :
    parseLine (arg.line ++ ['\n']) = if arg.Readable then some arg else none := by
  cases arg with
  | quotas => decide +kernel
  | dryrun => decide +kernel
  | gc threshold =>
    exact parseLine_threshold 'G' "C".toList (by decide) (by decide) (by decide +kernel) (fun _ => rfl) threshold
  | repack threshold =>
    exact parseLine_threshold 'R' "EPACK".toList (by decide) (by decide) (by decide +kernel) (fun _ => rfl) threshold
  | rebuild threshold =>
    exact parseLine_threshold 'R' "EBUILD".toList (by decide) (by decide) (by decide +kernel) (fun _ => rfl) threshold
  | pod n =>
    exact parseLine_int 'R' "EBUILD-LOCATION-POD".toList (by decide) (by decide) (by decide +kernel) (fun _ => rfl) n
  | cap n =>
    exact parseLine_int 'R' "EBUILD-LOCATION-CAP".toList (by decide) (by decide) (by decide +kernel) (fun _ => rfl) n
  | scatter n =>
    exact parseLine_int 'R' "EBUILD-LOCATION-SCATTER".toList (by decide) (by decide) (by decide +kernel) (fun _ => rfl) n

/-! ## The lines of a header -/

def ProgramArgs.written (rman : ProgramArgs) : List ProgramArg :=
  (if rman.dryrun then [.dryrun] else []) ++
    (if rman.quotas then [.quotas] else []) ++
    (if rman.gcthreshold ≠ 0 then [.gc rman.gcthreshold] else []) ++
    (if rman.repackthreshold ≠ 0 then [.repack rman.repackthreshold] else []) ++
    (if rman.rebuildthreshold ≠ 0 then [.rebuild rman.rebuildthreshold] else []) ++
    (if rman.lbrebuild then
      [.pod rman.rebuildloc.pod, .cap rman.rebuildloc.cap, .scatter rman.rebuildloc.scatter]
    else [])

/-- The values that lines populate, one after the other. -/
def setAll (args : List ProgramArg) (rman : ProgramArgs) : ProgramArgs :=
  args.foldl (fun rman arg => arg.set rman) rman

/-- The arguments of a run over a state: flags that are set, thresholds that are not zero, and the
location of a rebuild if there is one. -/
def ProgramArgs.over (args rman : ProgramArgs) : ProgramArgs where
  dryrun := args.dryrun || rman.dryrun
  quotas := args.quotas || rman.quotas
  gcthreshold := if args.gcthreshold ≠ 0 then args.gcthreshold else rman.gcthreshold
  repackthreshold := if args.repackthreshold ≠ 0 then args.repackthreshold else rman.repackthreshold
  rebuildthreshold := if args.rebuildthreshold ≠ 0 then args.rebuildthreshold else rman.rebuildthreshold
  lbrebuild := args.lbrebuild || rman.lbrebuild
  rebuildloc := if args.lbrebuild then args.rebuildloc else rman.rebuildloc

/-- No number of the arguments is `-1`. -/
structure ProgramArgs.Readable (args : ProgramArgs) : Prop where
  gc : args.gcthreshold ≠ -1
  repack : args.repackthreshold ≠ -1
  rebuild : args.rebuildthreshold ≠ -1
  location : args.lbrebuild = true →
    args.rebuildloc.pod ≠ -1 ∧ args.rebuildloc.cap ≠ -1 ∧ args.rebuildloc.scatter ≠ -1

theorem setAll_append (a b : List ProgramArg) (rman : ProgramArgs) :
    setAll (a ++ b) rman = setAll b (setAll a rman) := foldl_append

theorem setAll_written (args rman : ProgramArgs) : setAll args.written rman = args.over rman := by
  have hdryrun : ∀ b (r : ProgramArgs), setAll (if b = true then [.dryrun] else []) r =
      { r with dryrun := b || r.dryrun } := fun b r => by cases b <;> rfl
  have hquotas : ∀ b (r : ProgramArgs), setAll (if b = true then [.quotas] else []) r =
      { r with quotas := b || r.quotas } := fun b r => by cases b <;> rfl
  have hgc : ∀ t (r : ProgramArgs), setAll (if t ≠ 0 then [.gc t] else []) r =
      { r with gcthreshold := if t ≠ 0 then t else r.gcthreshold } := fun t r => by split <;> rfl
  have hrep : ∀ t (r : ProgramArgs), setAll (if t ≠ 0 then [.repack t] else []) r =
      { r with repackthreshold := if t ≠ 0 then t else r.repackthreshold } :=
    fun t r => by split <;> rfl
  have hreb : ∀ t (r : ProgramArgs), setAll (if t ≠ 0 then [.rebuild t] else []) r =
      { r with rebuildthreshold := if t ≠ 0 then t else r.rebuildthreshold } :=
    fun t r => by split <;> rfl
  have hloc : ∀ b (loc : RebuildLocation) (r : ProgramArgs),
      setAll (if b = true then [.pod loc.pod, .cap loc.cap, .scatter loc.scatter] else []) r =
        { r with lbrebuild := b || r.lbrebuild, rebuildloc := if b then loc else r.rebuildloc } :=
    fun b loc r => by cases b <;> rfl
  rw [ProgramArgs.written, setAll_append, setAll_append, setAll_append, setAll_append,
    setAll_append, hdryrun, hquotas, hgc, hrep, hreb, hloc]
  rfl

theorem ProgramArgs.readable_iff (args : ProgramArgs) :
    args.Readable ↔ ∀ arg ∈ args.written, arg.Readable := by
  have hflag : ∀ (b : Bool) {arg : ProgramArg}, arg.Readable →
      ∀ arg' ∈ (if b = true then [arg] else []), arg'.Readable := by
    intro b arg harg arg' hmem
    cases b with
    | false => cases hmem
    | true =>
      obtain rfl := List.mem_singleton.1 hmem
      exact harg
  have hthr : ∀ (t : Int64) (arg : Int64 → ProgramArg),
      (∀ t, (arg t).Readable ↔ t ≠ -1) →
      ((∀ arg' ∈ (if t ≠ 0 then [arg t] else []), arg'.Readable) ↔ t ≠ -1) := by
    intro t arg harg
    by_cases ht : t = 0
    · subst ht
      simp
    · simp [ht, harg]
  have hloc : ∀ (b : Bool) (loc : RebuildLocation),
      (∀ arg ∈ (if b = true then [ProgramArg.pod loc.pod, .cap loc.cap, .scatter loc.scatter] else []),
        arg.Readable) ↔ (b = true → loc.pod ≠ -1 ∧ loc.cap ≠ -1 ∧ loc.scatter ≠ -1) := by
    intro b loc
    cases b <;> simp [ProgramArg.Readable]
  unfold ProgramArgs.written
  simp only [forall_mem_append, hthr _ .gc fun _ => Iff.rfl,
    hthr _ .repack fun _ => Iff.rfl, hthr _ .rebuild fun _ => Iff.rfl, hloc]
  constructor
  · rintro ⟨hgc, hrep, hreb, hlocation⟩
    exact ⟨⟨⟨⟨⟨hflag _ trivial, hflag _ trivial⟩, hgc⟩, hrep⟩, hreb⟩, hlocation⟩
  · rintro ⟨⟨⟨⟨-, hgc⟩, hrep⟩, hreb⟩, hlocation⟩
    exact ⟨hgc, hrep, hreb, hlocation⟩

theorem outputProgramArgs_eq (version : List Char) (args : ProgramArgs) :
    outputProgramArgs version args =
      version ++ '\n' :: (args.written.flatMap (fun arg => arg.line ++ ['\n']) ++ ['\n']) := by
  have hnil : ∀ (p : Prop) [Decidable p] (a : List ProgramArg),
      (if p then a else []).flatMap (fun arg => arg.line ++ ['\n']) =
        if p then a.flatMap (fun arg => arg.line ++ ['\n']) else [] := fun p _ a => by
    split <;> rfl
  have hdryrun : "DRY-RUN\n".toList = ProgramArg.dryrun.line ++ ['\n'] := by decide +kernel
  have hquotas : "QUOTAS\n".toList = ProgramArg.quotas.line ++ ['\n'] := by decide +kernel
  have hgc : ∀ t, (ProgramArg.gc t).line = "GC=".toList ++ printThreshold t := fun _ => rfl
  have hrep : ∀ t, (ProgramArg.repack t).line = "REPACK=".toList ++ printThreshold t :=
    fun _ => rfl
  have hreb : ∀ t, (ProgramArg.rebuild t).line = "REBUILD=".toList ++ printThreshold t :=
    fun _ => rfl
  have hpod : ∀ n, (ProgramArg.pod n).line = "REBUILD-LOCATION-POD=".toList ++ decimalInt n.toInt :=
    fun _ => rfl
  have hcap : ∀ n, (ProgramArg.cap n).line = "REBUILD-LOCATION-CAP=".toList ++ decimalInt n.toInt :=
    fun _ => rfl
  have hscatter : ∀ n, (ProgramArg.scatter n).line =
      "REBUILD-LOCATION-SCATTER=".toList ++ decimalInt n.toInt := fun _ => rfl
  unfold outputProgramArgs ProgramArgs.written
  -- the words stay closed
  generalize "DRY-RUN\n".toList = w₀, "QUOTAS\n".toList = w₁, "GC=".toList = w₂,
    "REPACK=".toList = w₃, "REBUILD=".toList = w₄, "REBUILD-LOCATION-POD=".toList = w₅,
    "REBUILD-LOCATION-CAP=".toList = w₆, "REBUILD-LOCATION-SCATTER=".toList = w₇ at *
  simp only [flatMap_append, hnil, flatMap_cons, flatMap_nil, List.append_nil,
    hdryrun, hquotas, hgc, hrep, hreb, hpod, hcap, hscatter, append_assoc,
    cons_append, nil_append]

theorem newline_not_mem_decimalInt (n : Int) : '\n' ∉ decimalInt n := by
  have hdec : '\n' ∉ decimal n.natAbs := fun hmem =>
    absurd (isDigit_of_mem_decimal hmem) (by decide)
  unfold decimalInt
  split
  · simp [hdec]
  · exact hdec

theorem newline_not_mem_line (arg : ProgramArg) : '\n' ∉ arg.line := by
  have hvalue : ∀ {word value : List Char}, '\n' ∉ word → '\n' ∉ value → '\n' ∉ word ++ value :=
    fun hword hval hmem => (List.mem_append.1 hmem).elim hword hval
  have hthr : ∀ t, '\n' ∉ printThreshold t := fun t hmem =>
    absurd (isDigit_of_mem_decimal hmem) (by decide)
  cases arg with
  | quotas => decide +kernel
  | dryrun => decide +kernel
  | gc t => exact hvalue (by decide +kernel) (hthr t)
  | repack t => exact hvalue (by decide +kernel) (hthr t)
  | rebuild t => exact hvalue (by decide +kernel) (hthr t)
  | pod n => exact hvalue (by decide +kernel) (newline_not_mem_decimalInt _)
  | cap n => exact hvalue (by decide +kernel) (newline_not_mem_decimalInt _)
  | scatter n => exact hvalue (by decide +kernel) (newline_not_mem_decimalInt _)

theorem splitLines_written (args : List ProgramArg) (rest : List Char) :
    splitLines (args.flatMap (fun arg => arg.line ++ ['\n']) ++ '\n' :: rest) =
      args.map (fun arg => arg.line ++ ['\n']) ++ ['\n'] :: splitLines rest := by
  induction args with
  | nil => exact splitLines_cons_newline rest
  | cons arg args ih =>
    rw [flatMap_cons, append_assoc, append_assoc, singleton_append,
      splitLines_append, splitLines_line (newline_not_mem_line arg), ih]
    rfl

/-! ## Reading a header -/

theorem readArgs_cons {readline : List Char} (h : 1 < readline.length) (lines : List (List Char))
    (rman : ProgramArgs) :
    readArgs (readline :: lines) rman =
      match parseLine readline with
      | none => (-1, rman)
      | some arg => readArgs lines (arg.set rman) := if_pos h

theorem line_length (arg : ProgramArg) : 1 < (arg.line ++ ['\n']).length := by
  have hne : arg.line ≠ [] := by
    cases arg with
    | quotas => decide +kernel
    | dryrun => decide +kernel
    | _ => exact append_ne_nil_of_left_ne_nil (by decide +kernel) _
  have hpos := List.length_pos_iff.2 hne
  simp only [length_append, length_singleton]
  omega

theorem readArgs_written {args : List ProgramArg} (h : ∀ arg ∈ args, arg.Readable)
    (lines : List (List Char)) (rman : ProgramArgs) :
    readArgs (args.map (fun arg => arg.line ++ ['\n']) ++ ['\n'] :: lines) rman =
      (0, setAll args rman) := by
  induction args generalizing rman with
  | nil => rfl
  | cons arg args ih =>
    obtain ⟨harg, hargs⟩ := List.forall_mem_cons.1 h
    rw [map_cons, cons_append, readArgs_cons (line_length arg), parseLine_line,
      if_pos harg]
    exact ih hargs _

/-- One number that is `-1` fails the whole header. -/
theorem readArgs_unreadable {args : List ProgramArg} (h : ¬ ∀ arg ∈ args, arg.Readable)
    (lines : List (List Char)) (rman : ProgramArgs) :
    (readArgs (args.map (fun arg => arg.line ++ ['\n']) ++ ['\n'] :: lines) rman).1 = -1 := by
  induction args generalizing rman with
  | nil => exact absurd (forall_mem_nil _) h
  | cons arg args ih =>
    rw [map_cons, cons_append, readArgs_cons (line_length arg), parseLine_line]
    by_cases harg : arg.Readable
    · rw [if_pos harg]
      exact ih (fun hargs => h (List.forall_mem_cons.2 ⟨harg, hargs⟩)) _
    · rw [if_neg harg]

def versionArgs : List (List Char) → Option (List ProgramArg × Bool)
  | [] => some ([], false)
  | readline :: lines =>
    if readline.length > 1 then do
      let arg ← parseLine readline
      let (args, stopped) ← versionArgs lines
      some (arg :: args, stopped)
    else some ([], true)

theorem readArgs_append (front lines : List (List Char)) (rman : ProgramArgs) :
    match versionArgs front with
    | none => (readArgs (front ++ lines) rman).1 = -1
    | some (args, true) => readArgs (front ++ lines) rman = (0, setAll args rman)
    | some (args, false) => readArgs (front ++ lines) rman = readArgs lines (setAll args rman) := by
  induction front generalizing rman with
  | nil => rfl
  | cons readline front ih =>
    unfold versionArgs
    by_cases hlen : readline.length > 1
    · rw [if_pos hlen, cons_append, readArgs_cons hlen]
      cases hprs : parseLine readline with
      | none => rfl
      | some arg =>
        have hnext := ih (arg.set rman)
        cases hfront : versionArgs front with
        | none =>
          rw [hfront] at hnext
          exact hnext
        | some result =>
          obtain ⟨args, stopped⟩ := result
          rw [hfront] at hnext
          cases stopped with
          | true => exact hnext
          | false => exact hnext
    · rw [if_neg hlen, cons_append]
      exact if_neg hlen

theorem strncmpEq_line (line version : List Char) :
    strncmpEq (line ++ ['\n']) version ((line ++ ['\n']).length - 1) = true ↔ line <+: version := by
  rw [length_append, length_singleton, Nat.add_sub_cancel, strncmpEq,
    take_left, beq_iff_eq, prefix_iff_eq_take]

theorem parseProgramArgs_output (version written : List Char) (args rman : ProgramArgs) (rest : List Char) :
    parseProgramArgs version rman (outputProgramArgs written args ++ rest) =
      if firstLine written = [] ∨ ¬ firstLine written <+: version then (1, rman)
      else readArgs (furtherLines written ++ (args.written.map (fun arg => arg.line ++ ['\n']) ++
        ['\n'] :: splitLines rest)) rman := by
  have hlines : splitLines (outputProgramArgs written args ++ rest) =
      (firstLine written ++ ['\n']) :: (furtherLines written ++
        (args.written.map (fun arg => arg.line ++ ['\n']) ++ ['\n'] :: splitLines rest)) := by
    rw [outputProgramArgs_eq, append_assoc, cons_append, splitLines_append,
      splitLines_first, append_assoc, singleton_append, splitLines_written,
      cons_append]
  unfold parseProgramArgs
  rw [hlines]
  dsimp only
  by_cases hemp : firstLine written = []
  · have hlen : (firstLine written ++ ['\n']).length < 2 := by
      rw [hemp]
      decide
    rw [if_pos hlen, if_pos (Or.inl hemp)]
  · have hpos := List.length_pos_iff.2 hemp
    have hlen : ¬ (firstLine written ++ ['\n']).length < 2 := by
      simp only [length_append, length_singleton]
      omega
    rw [if_neg hlen]
    by_cases hpre : firstLine written <+: version
    · rw [(strncmpEq_line _ _).2 hpre, if_neg (not_or.2 ⟨hemp, not_not.2 hpre⟩)]
      rfl
    · have hne : strncmpEq (firstLine written ++ ['\n']) version
          ((firstLine written ++ ['\n']).length - 1) = false := by
        rw [Bool.eq_false_iff, ne_eq, strncmpEq_line]
        exact hpre
      rw [hne, if_pos (Or.inr hpre)]
      rfl

/-! ## When the arguments survive -/

/-- The header of a run of one version is read by a run of another: the arguments come back, over
whatever the state was, if it is the same version, and the config is incompatible if it is not. -/
def Survives (version written : List Char) (args : ProgramArgs) : Prop :=
  ∀ (rman : ProgramArgs) (rest : List Char),
    if written = version then
      parseProgramArgs version rman (outputProgramArgs written args ++ rest) = (0, args.over rman)
    else (parseProgramArgs version rman (outputProgramArgs written args ++ rest)).1 = 1

/-- The same version is not empty and no number is `-1`; if the version has more than one line, the
further ones are read as arguments, and change nothing.  Another version does not begin with a line
that this version begins with. -/
def Distinguished (version written : List Char) (args : ProgramArgs) : Prop :=
  if written = version then
    firstLine version ≠ [] ∧ ∃ own stopped, versionArgs (furtherLines version) = some (own, stopped) ∧
      if stopped = true then ∀ rman, setAll own rman = args.over rman
      else args.Readable ∧ ∀ rman, args.over (setAll own rman) = args.over rman
  else firstLine written = [] ∨ ¬ firstLine written <+: version

theorem readArgs_ne_one (lines : List (List Char)) (rman : ProgramArgs) : (readArgs lines rman).1 ≠ 1 := by
  induction lines generalizing rman with
  | nil => exact (show (-1 : Int) ≠ 1 by decide)
  | cons readline lines ih =>
    unfold readArgs
    split
    · split
      · exact (show (-1 : Int) ≠ 1 by decide)
      · exact ih _
    · exact Int.zero_ne_one

theorem reads_back_iff (version : List Char) (args : ProgramArgs) :
    (∀ (rman : ProgramArgs) (rest : List Char),
      parseProgramArgs version rman (outputProgramArgs version args ++ rest) = (0, args.over rman)) ↔
    firstLine version ≠ [] ∧ ∃ own stopped, versionArgs (furtherLines version) = some (own, stopped) ∧
      if stopped = true then ∀ rman, setAll own rman = args.over rman
      else args.Readable ∧ ∀ rman, args.over (setAll own rman) = args.over rman := by
  have hpre : firstLine version <+: version := List.takeWhile_prefix _
  simp only [parseProgramArgs_output, hpre, not_true, or_false]
  constructor
  · intro h
    have hne : firstLine version ≠ [] := by
      intro hemp
      have hone := congrArg Prod.fst (h args [])
      rw [if_pos hemp] at hone
      exact absurd hone Int.one_ne_zero
    refine ⟨hne, ?_⟩
    have hread := fun rman => readArgs_append (furtherLines version)
      (args.written.map (fun arg => arg.line ++ ['\n']) ++ ['\n'] :: splitLines []) rman
    have hback : ∀ rman, readArgs (furtherLines version ++
        (args.written.map (fun arg => arg.line ++ ['\n']) ++ ['\n'] :: splitLines [])) rman =
          (0, args.over rman) := fun rman => (if_neg hne).symm.trans (h rman [])
    simp only [hback] at hread
    cases hown : versionArgs (furtherLines version) with
    | none =>
      rw [hown] at hread
      exact absurd (hread args) (show (0 : Int) ≠ -1 by decide)
    | some result =>
      obtain ⟨own, stopped⟩ := result
      rw [hown] at hread
      refine ⟨own, stopped, rfl, ?_⟩
      cases stopped with
      | true => exact fun rman => (congrArg Prod.snd (hread rman)).symm
      | false =>
        have hargs : args.Readable := by
          rw [args.readable_iff]
          by_contra hunread
          have hfail := readArgs_unreadable hunread (splitLines []) (setAll own args)
          rw [← hread args] at hfail
          exact absurd hfail (show (0 : Int) ≠ -1 by decide)
        refine ⟨hargs, fun rman => ?_⟩
        have hset := hread rman
        dsimp only at hset
        rw [readArgs_written (args.readable_iff.1 hargs), setAll_written] at hset
        exact (congrArg Prod.snd hset).symm
  · rintro ⟨hne, own, stopped, hown, hset⟩ rman rest
    rw [if_neg hne]
    have hread := readArgs_append (furtherLines version)
      (args.written.map (fun arg => arg.line ++ ['\n']) ++ ['\n'] :: splitLines rest) rman
    rw [hown] at hread
    cases stopped with
    | true => exact hread.trans (congrArg (Prod.mk 0) (hset rman))
    | false =>
      obtain ⟨hargs, hsame⟩ := hset
      dsimp only at hread
      rw [hread, readArgs_written (args.readable_iff.1 hargs), setAll_written, hsame]

/-- The arguments of a run survive its summary log exactly if they are distinguished. -/
theorem programArgs_survive_iff (version written : List Char) (args : ProgramArgs) :
    Survives version written args ↔ Distinguished version written args := by
  unfold Survives Distinguished
  by_cases hsame : written = version
  · subst hsame
    simp only [if_true]
    exact reads_back_iff written args
  · simp only [if_neg hsame, parseProgramArgs_output]
    constructor
    · intro h
      by_contra hprefix
      have hone := h args []
      rw [if_neg hprefix] at hone
      exact readArgs_ne_one _ _ hone
    · intro h rman rest
      rw [if_pos h]

def wildcardRebuild : ProgramArgs :=
  { ProgramArgs.cleared with lbrebuild := true, rebuildloc := { pod := 1, cap := -1, scatter := -1 } }

/-- A location with a wildcard is not read back, and the logs of version `1.1` are taken for those of
version `1.10`. -/
theorem wildcard_not_distinguished :
    (parseProgramArgs "1.10".toList .cleared (outputProgramArgs "1.10".toList wildcardRebuild)).1 = -1 ∧
      parseProgramArgs "1.10".toList .cleared (outputProgramArgs "1.1".toList .cleared) =
        (0, .cleared) ∧
      ¬ (∀ version written args, Survives version written args) := by
  have hfail : (parseProgramArgs "1.10".toList .cleared
      (outputProgramArgs "1.10".toList wildcardRebuild)).1 = -1 := by decide +kernel
  refine ⟨hfail, by decide +kernel, fun h => ?_⟩
  have hback := h "1.10".toList "1.10".toList wildcardRebuild .cleared []
  rw [if_pos rfl, List.append_nil] at hback
  rw [hback] at hfail
  exact absurd hfail (show (0 : Int) ≠ -1 by decide)

end Marfs.Rman
