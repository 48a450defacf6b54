import Marfs.Rman.Replay

/-!
# A log after a failed write

`printlogline` keeps the position it starts from but never goes back to it, and it writes the ops of
a chain one by one.  What it wrote before it failed stays in the log, in front of the next chain, and
is read as its beginning.  A failed call leaves the log readable exactly if it wrote nothing, so that
it failed at the first op of its chain (`leftReadable_iff`).
-/

namespace Marfs.Rman

open Cstring Tagging List

/-! ## Calls that fail -/

/-- What the calls on the log file do while an op is printed: whether `lseek` tells the position, and
how many characters `write` takes of the line, if it does not fail. -/
structure FileCalls where
  seeks : Bool
  writes : Option Nat

def FileCalls.write (calls : FileCalls) (line : List Char) : List Char × Bool :=
  match calls.writes with
  | none => ([], false)
  | some n => (line.take n, line.length ≤ n)

/-- `printlogline` on a file whose calls may fail, those for the first op first: what is written, and
whether it returns zero. -/
def printloglineTo : (Nat → FileCalls) → List Opinfo → List Char × Bool
  | _, [] => ([], true)
  | calls, op :: next =>
    if !(calls 0).seeks then ([], false)
    else
      match op.line (!next.isEmpty) with
      | none => ([], false)
      | some line =>
        let (written, complete) := (calls 0).write line
        if !complete then (written, false)
        else
          let (trailing, ok) := printloglineTo (fun i => calls (i + 1)) next
          (written ++ trailing, ok)

structure Attempt where
  chain : List Opinfo
  calls : Nat → FileCalls

namespace Attempt

def written (a : Attempt) : List Char := (printloglineTo a.calls a.chain).1

def succeeds (a : Attempt) : Bool := (printloglineTo a.calls a.chain).2

/-- The first op keeps the call from writing anything: the position is not known, there is no line
for the op, or `write` takes nothing of it. -/
def Barred (a : Attempt) : Prop :=
  ∃ op next, a.chain = op :: next ∧
    ((a.calls 0).seeks = false ∨ op.line (!next.isEmpty) = none ∨ (a.calls 0).writes = none ∨
      (a.calls 0).writes = some 0)

/-- What the call leaves in the log is a chain that the log can hold, or nothing. -/
def Clean (a : Attempt) : Prop := if a.succeeds then Loggable a.chain else a.Barred

structure Produced (a : Attempt) : Prop where
  chain_ne_nil : a.chain ≠ []
  ops : ∀ op ∈ a.chain, op.Produced

def unhindered (chain : List Opinfo) : Attempt :=
  { chain := chain, calls := fun _ => { seeks := true, writes := some maxBuffer } }

end Attempt

def logText (run : List Attempt) : List Char := run.flatMap Attempt.written

def loggedChains (run : List Attempt) : List (List Opinfo) :=
  (run.filter Attempt.succeeds).map Attempt.chain

def readChains (uninit : Nat → Nat → Ftag) : Nat → List Char → List (List Opinfo)
  | 0, _ => []
  | fuel + 1, input =>
    match parselogline (uninit fuel) input with
    | { chain := none, eof := _, rest := _ } => []
    | { chain := some chain, eof := _, rest } => chain :: readChains uninit fuel rest

/-- The text is read as the chains, from its beginning.  Every chain takes a character at least, so
that the length of the text bounds the loop. -/
def Reads (text : List Char) (chains : List (List Opinfo)) : Prop :=
  ∀ uninit, (∀ i j, (uninit i j).Representable) → readChains uninit (text.length + 1) text = chains

/-- Once a call of the run has failed, the log is read as the chains that were logged, and a chain
that is logged next is read as that chain alone.  The chain is one that comes back from a log. -/
def LeftReadable (run : List Attempt) : Prop :=
  ∀ done, done <+: run → (∃ a ∈ done, a.succeeds = false) →
    Reads (logText done) (loggedChains done) ∧
      ∀ later : Attempt, later.Produced → RoundTrips later.chain → later.succeeds = true →
        Reads (logText (done ++ [later])) (loggedChains done ++ [later.chain])

/-! ## The first character of a chain -/

def Extinfo.initial : Extinfo → Char
  | .delobj _ | .delref _ => 'D'
  | .rebuild _ | .repack _ => 'R'

theorem Extinfo.print_head {extinfo : Extinfo} {text : List Char}
    (h : extinfo.print = some text) : text.head? = some extinfo.initial := by
  unfold Extinfo.print at h
  split at h
  · cases h
    rfl
  · cases h
    rfl
  · cases h
    rfl
  · obtain ⟨info, -, rfl⟩ := Option.map_eq_some_iff.1 h
    rfl
  · cases h
    rfl

variable {op : Opinfo} {line : List Char} {next : List Opinfo} {calls : Nat → FileCalls}

theorem Opinfo.line_head {next : Bool} (h : op.line next = some line) :
    line.head? = some op.extendedinfo.initial := by
  unfold Opinfo.line at h
  simp only [Option.bind_eq_bind, Option.bind_eq_some_iff] at h
  obtain ⟨extinfo, hprint, ⟨ftagstr, ftaglen⟩, -, h⟩ := h
  dsimp only at h
  split at h
  · cases h
  · cases h
    rw [append_assoc, List.head?_append, Extinfo.print_head hprint]
    rfl

theorem parseRebuild_initial {s rest : List Char} {extinfo : Extinfo}
    (h : parseRebuild s = some (extinfo, rest)) : extinfo.initial = 'R' := by
  unfold parseRebuild at h
  split at h
  · cases h
    rfl
  · simp only [Option.bind_eq_bind, Option.bind_eq_some_iff] at h
    obtain ⟨_, _, h⟩ := h
    split at h
    · obtain ⟨_, _, h⟩ := Option.bind_eq_some_iff.1 h
      cases h
      rfl
    · simp only [Option.bind_eq_some_iff] at h
      obtain ⟨_, _, _, _, _, _, h⟩ := h
      cases h
      rfl

theorem parseExtinfo_head {s rest : List Char} {extinfo : Extinfo}
    (h : parseExtinfo s = some (extinfo, rest)) : s.head? = some extinfo.initial := by
  unfold parseExtinfo at h
  split at h
  · rename_i hskip
    simp only [parseDelobj, Option.bind_eq_bind, Option.bind_eq_some_iff] at h
    obtain ⟨_, _, _, _, _, _, h⟩ := h
    cases h
    rw [skipHeader_eq_some hskip]
    rfl
  · split at h
    · rename_i hskip
      simp only [parseDelref, Option.bind_eq_bind, Option.bind_eq_some_iff] at h
      obtain ⟨_, _, _, _, _, _, _, _, _, _, h⟩ := h
      cases h
      rw [skipHeader_eq_some hskip]
      rfl
    · split at h
      · rename_i hskip
        have hreb : extinfo.initial = 'R' := parseRebuild_initial h
        rw [skipHeader_eq_some hskip, hreb]
        rfl
      · obtain ⟨s, hskip, h⟩ := Option.bind_eq_some_iff.1 h
        simp only [parseRepack, Option.bind_eq_bind, Option.bind_eq_some_iff] at h
        obtain ⟨_, _, _, _, _, _, h⟩ := h
        cases h
        rw [skipHeader_eq_some hskip]
        rfl

theorem parselogline_head {uninit : Nat → Ftag} {input : List Char}
    (h : (parselogline uninit input).chain = some (op :: next)) :
    input.head? = some op.extendedinfo.initial := by
  obtain ⟨n, line, after, flag, hread, hop, -⟩ := parseLines_cons h
  simp only [parseOp, Option.bind_eq_bind, Option.bind_eq_some_iff] at hop
  obtain ⟨⟨extinfo, s⟩, hextinfo, _, _, _, _, _, _, _, _, _, _, hop⟩ := hop
  cases hop
  rw [readLine_eq_append hread, ← parseExtinfo_head hextinfo]
  cases line <;> rfl

/-! ## What a call writes -/

theorem FileCalls.write_whole (h : line.length ≤ maxBuffer) :
    (FileCalls.write { seeks := true, writes := some maxBuffer } line).2 = true := by
  simpa [FileCalls.write] using h

theorem printloglineTo_unseekable (h : (calls 0).seeks = false) (op : Opinfo) (next : List Opinfo) :
    printloglineTo calls (op :: next) = ([], false) := by
  simp [printloglineTo, h]

theorem printloglineTo_unprintable (h : op.line (!next.isEmpty) = none) :
    printloglineTo calls (op :: next) = ([], false) := by
  simp [printloglineTo, h]

theorem printloglineTo_incomplete (hseeks : (calls 0).seeks = true)
    (hline : op.line (!next.isEmpty) = some line) (hwrite : ((calls 0).write line).2 = false) :
    printloglineTo calls (op :: next) = (((calls 0).write line).1, false) := by
  simp [printloglineTo, hseeks, hline, hwrite]

theorem printloglineTo_complete (hseeks : (calls 0).seeks = true)
    (hline : op.line (!next.isEmpty) = some line) (hwrite : ((calls 0).write line).2 = true) :
    printloglineTo calls (op :: next) =
      (line ++ (printloglineTo (fun i => calls (i + 1)) next).1,
        (printloglineTo (fun i => calls (i + 1)) next).2) := by
  have hwhl : ((calls 0).write line).1 = line := by
    unfold FileCalls.write at hwrite ⊢
    split at hwrite
    · cases hwrite
    · exact take_of_length_le (by simpa using hwrite)
  simp [printloglineTo, hseeks, hline, hwrite, hwhl]

theorem printloglineTo_succeeds {chain : List Opinfo} :
    ∀ {calls : Nat → FileCalls}, (printloglineTo calls chain).2 = true →
      printlogline chain = printloglineTo calls chain := by
  induction chain with
  | nil => exact fun _ => rfl
  | cons op next ih =>
    intro calls h
    cases hseeks : (calls 0).seeks with
    | false =>
      rw [printloglineTo_unseekable hseeks] at h
      cases h
    | true =>
      cases hline : op.line (!next.isEmpty) with
      | none =>
        rw [printloglineTo_unprintable hline] at h
        cases h
      | some line =>
        cases hwrite : ((calls 0).write line).2 with
        | false =>
          rw [printloglineTo_incomplete hseeks hline hwrite] at h
          cases h
        | true =>
          have hcomp := printloglineTo_complete hseeks hline hwrite
          rw [hcomp] at h
          rw [hcomp, ← ih h]
          simp only [printlogline, hline]

namespace Attempt

variable {a : Attempt}

theorem printlogline_eq (h : a.succeeds = true) : printlogline a.chain = (a.written, true) := by
  rw [printloglineTo_succeeds h]
  exact Prod.ext rfl h

theorem Barred.writes_nothing (h : a.Barred) : a.written = [] ∧ a.succeeds = false := by
  obtain ⟨op, next, hchain, hbar⟩ := h
  have hnone : printloglineTo a.calls (op :: next) = ([], false) := by
    rcases hbar with hseeks | hline | hwrites
    · exact printloglineTo_unseekable hseeks op next
    · exact printloglineTo_unprintable hline
    cases hseeks : (a.calls 0).seeks with
    | false => exact printloglineTo_unseekable hseeks op next
    | true =>
      cases hline : op.line (!next.isEmpty) with
      | none => exact printloglineTo_unprintable hline
      | some line =>
        have hpos : line.length ≠ 0 := by
          intro hemp
          have hhead := Opinfo.line_head hline
          rw [List.length_eq_zero_iff.1 hemp] at hhead
          cases hhead
        have hwrite : (a.calls 0).write line = ([], false) := by
          unfold FileCalls.write
          rcases hwrites with hwrites | hwrites <;> simp [hwrites, hpos]
        rw [printloglineTo_incomplete hseeks hline (by rw [hwrite]), hwrite]
  unfold written succeeds
  rw [hchain, hnone]
  exact ⟨rfl, rfl⟩

theorem written_head {op : Opinfo} {next : List Opinfo} (hchain : a.chain = op :: next)
    (h : ¬ a.Barred) : a.written.head? = some op.extendedinfo.initial := by
  have hfree : ¬ ((a.calls 0).seeks = false ∨ op.line (!next.isEmpty) = none ∨
      (a.calls 0).writes = none ∨ (a.calls 0).writes = some 0) :=
    fun hbar => h ⟨op, next, hchain, hbar⟩
  simp only [not_or, Bool.not_eq_false] at hfree
  obtain ⟨hseeks, hline, hwrites, hsome⟩ := hfree
  obtain ⟨line, hline⟩ := Option.ne_none_iff_exists'.1 hline
  obtain ⟨n, hwrites⟩ := Option.ne_none_iff_exists'.1 hwrites
  have hn : n ≠ 0 := by
    rintro rfl
    exact hsome hwrites
  obtain ⟨n, rfl⟩ := Nat.exists_eq_succ_of_ne_zero hn
  have hhead := Opinfo.line_head hline
  unfold written
  rw [hchain]
  cases hwrite : ((a.calls 0).write line).2 with
  | false =>
    rw [printloglineTo_incomplete hseeks hline hwrite]
    simp [FileCalls.write, hwrites, List.head?_take, hhead]
  | true =>
    rw [printloglineTo_complete hseeks hline hwrite, List.head?_append, hhead]
    rfl

theorem unhindered_succeeds {chain : List Opinfo} (hprod : ∀ op ∈ chain, op.Produced)
    (h : Loggable chain) : (unhindered chain).succeeds = true := by
  unfold succeeds unhindered
  dsimp only
  induction chain with
  | nil => rfl
  | cons op next ih =>
    have hline := Opinfo.line_eq (hprod op (mem_cons_self ..)) h.1
    have hlen := h.1.length
    have hnext := ih (fun op hop => hprod op (mem_cons_of_mem _ hop)) h.2
    have hwrite : (FileCalls.write { seeks := true, writes := some maxBuffer }
        (op.text (!next.isEmpty) ++ ['\n'])).2 = true := by
      apply FileCalls.write_whole
      simpa using Nat.le_of_lt hlen
    rw [printloglineTo_complete rfl hline hwrite, hnext]

end Attempt

/-! ## Reading a log -/

structure Printed (chain : List Opinfo) : Prop where
  ne_nil : chain ≠ []
  ops : ∀ op ∈ chain, op.Produced
  printed : (printlogline chain).2 = true

def printedText (chains : List (List Opinfo)) : List Char :=
  chains.flatMap fun chain => (printlogline chain).1

section Reading

variable {chains : List (List Opinfo)}

theorem length_le_printedText (hprint : ∀ chain ∈ chains, Printed chain)
    (hlog : ∀ chain ∈ chains, Loggable chain) : chains.length ≤ (printedText chains).length := by
  induction chains with
  | nil => exact Nat.le_refl _
  | cons chain chains ih =>
    obtain ⟨hchain, hnext⟩ := List.forall_mem_cons.1 hprint
    obtain ⟨hlog, hlogs⟩ := List.forall_mem_cons.1 hlog
    have hlen := ih hnext hlogs
    have hpos := List.length_pos_iff.2 (chainText_ne_nil hchain.ne_nil)
    simp only [printedText, flatMap_cons, length_append, length_cons,
      printlogline_eq hchain.ops hlog] at hlen ⊢
    omega

theorem readChains_printed (uninit : Nat → Nat → Ftag) (rest : List Char)
    (hprint : ∀ chain ∈ chains, Printed chain) (hlog : ∀ chain ∈ chains, Loggable chain) (fuel : Nat) :
    readChains uninit (fuel + chains.length) (printedText chains ++ rest) =
      chains ++ readChains uninit fuel rest := by
  induction chains with
  | nil => rfl
  | cons chain chains ih =>
    obtain ⟨hchain, hnext⟩ := List.forall_mem_cons.1 hprint
    obtain ⟨hlog, hlogs⟩ := List.forall_mem_cons.1 hlog
    have hread := parselogline_message (uninit (fuel + chains.length)) hchain.ne_nil hchain.ops hlog
      (printedText chains ++ rest)
    have htext : printedText (chain :: chains) ++ rest =
        chainText chain ++ (printedText chains ++ rest) := by
      simp [printedText, printlogline_eq hchain.ops hlog]
    rw [htext, length_cons, ← Nat.add_assoc, readChains, hread]
    dsimp only
    rw [ih hnext hlogs, cons_append]

theorem readChains_nil (uninit : Nat → Nat → Ftag) (fuel : Nat) : readChains uninit fuel [] = [] := by
  cases fuel <;> rfl

theorem loggable_of_readChains {dest : Ftag} (hdest : dest.ReftreeNonneg) (rest : List Char)
    {behind : List (List Opinfo)} (hprinted : ∀ chain ∈ chains, Printed chain) :
    ∀ {fuel : Nat},
      readChains (fun _ _ => dest) fuel (printedText chains ++ rest) = chains ++ behind →
        (∀ chain ∈ chains, Loggable chain) ∧
          ∃ left, readChains (fun _ _ => dest) left rest = behind := by
  induction chains with
  | nil =>
    intro fuel hread
    exact ⟨nofun, fuel, hread⟩
  | cons chain chains ih =>
    intro fuel hread
    obtain ⟨hchain, hnext⟩ := List.forall_mem_cons.1 hprinted
    have hprint : printlogline chain = ((printlogline chain).1, true) := Prod.ext rfl hchain.printed
    cases fuel with
    | zero => cases hread
    | succ fuel =>
      rw [readChains, printedText, flatMap_cons, append_assoc] at hread
      split at hread
      · cases hread
      · rename_i read eof after hprs
        obtain ⟨rfl, hafter⟩ := List.cons.inj hread
        have hlog : Loggable read :=
          loggable_of_parseLines hdest hchain.ops hprint (by rw [← parselogline, hprs])
        rw [printlogline_eq hchain.ops hlog,
          parselogline_message (fun _ => dest) hchain.ne_nil hchain.ops hlog] at hprs
        obtain ⟨-, -, rfl⟩ := Parsed.mk.inj hprs
        obtain ⟨hlogs, hleft⟩ := ih hnext hafter
        exact ⟨List.forall_mem_cons.2 ⟨hlog, hlogs⟩, hleft⟩

end Reading

/-! ## Runs -/

section Runs

variable {run : List Attempt}

theorem logText_append (run more : List Attempt) : logText (run ++ more) = logText run ++ logText more :=
  flatMap_append

theorem loggedChains_append (run more : List Attempt) :
    loggedChains (run ++ more) = loggedChains run ++ loggedChains more := by
  simp [loggedChains]

theorem logText_singleton (a : Attempt) : logText [a] = a.written := by
  simp [logText]

theorem loggedChains_failed {a : Attempt} (h : a.succeeds = false) : loggedChains [a] = [] := by
  simp [loggedChains, h]

theorem loggedChains_succeeded {a : Attempt} (h : a.succeeds = true) : loggedChains [a] = [a.chain] := by
  simp [loggedChains, h]

theorem mem_loggedChains {chain : List Opinfo} :
    chain ∈ loggedChains run ↔ ∃ a ∈ run, a.succeeds = true ∧ a.chain = chain := by
  simp [loggedChains, and_assoc]

theorem logText_eq (h : ∀ a ∈ run, a.succeeds = false → a.Barred) :
    logText run = printedText (loggedChains run) := by
  induction run with
  | nil => rfl
  | cons a rest ih =>
    have hrest := ih fun b hb => h b (mem_cons_of_mem _ hb)
    rw [← singleton_append, logText_append, loggedChains_append, printedText,
      flatMap_append, ← printedText, ← printedText, ← hrest, logText_singleton]
    cases hsucc : a.succeeds with
    | false =>
      have hnothing := (h a (mem_cons_self ..) hsucc).writes_nothing
      rw [hnothing.1, loggedChains_failed hsucc]
      rfl
    | true =>
      rw [loggedChains_succeeded hsucc, printedText, flatMap_singleton,
        Attempt.printlogline_eq hsucc]

end Runs

/-! ## Runs whose calls fail -/

def otherOp (extinfo : Extinfo) : Opinfo :=
  { clientDelobj ['c'] true with
    extendedinfo :=
      match extinfo with
      | .delobj _ | .delref _ => .repack { totalbytes := 0 }
      | .rebuild _ | .repack _ => .delobj { offset := 0 } }

theorem otherOp_produced (extinfo : Extinfo) : (otherOp extinfo).Produced := by
  have hctag : '|' ∉ ['c'] := by decide
  have hdelobj := clientDelobj_produced hctag true
  cases extinfo <;> exact { hdelobj with extendedinfo := Nat.zero_le _ }

theorem otherOp_loggable (extinfo : Extinfo) : (otherOp extinfo).Loggable false := by
  have hdelobj := clientDelobj_loggable true false
  cases extinfo with
  | delobj info | delref info =>
    have hlen : ((otherOp (.delobj { offset := 0 })).text false).length + 1 < maxBuffer := by
      decide +kernel
    exact { hdelobj with extendedinfo := trivial, length := hlen }
  | rebuild info | repack info => exact hdelobj

theorem otherOp_initial (extinfo : Extinfo) : (otherOp extinfo).extendedinfo.initial ≠ extinfo.initial := by
  cases extinfo <;> simp [otherOp, Extinfo.initial]

section Clean

variable {run : List Attempt}

theorem printed_of_logged (hprod : ∀ a ∈ run, a.Produced) : ∀ chain ∈ loggedChains run, Printed chain := by
  intro chain hchain
  obtain ⟨a, ha, hsucc, rfl⟩ := mem_loggedChains.1 hchain
  exact ⟨(hprod a ha).chain_ne_nil, (hprod a ha).ops, by rw [Attempt.printlogline_eq hsucc]⟩

theorem reads_of_clean (hprod : ∀ a ∈ run, a.Produced) (hclean : ∀ a ∈ run, a.Clean) :
    Reads (logText run) (loggedChains run) := by
  have hprint := printed_of_logged hprod
  have hbarred : ∀ a ∈ run, a.succeeds = false → a.Barred := by
    intro a ha hfails
    simpa [Attempt.Clean, hfails] using hclean a ha
  have hlog : ∀ chain ∈ loggedChains run, Loggable chain := by
    intro chain hchain
    obtain ⟨a, ha, hsucc, rfl⟩ := mem_loggedChains.1 hchain
    simpa [Attempt.Clean, hsucc] using hclean a ha
  intro uninit _
  have hlen := length_le_printedText hprint hlog
  have hread := readChains_printed uninit [] hprint hlog
    ((printedText (loggedChains run)).length + 1 - (loggedChains run).length)
  rw [Nat.sub_add_cancel (by omega), List.append_nil, readChains_nil, List.append_nil] at hread
  rw [logText_eq hbarred]
  exact hread

theorem clean_of_readChains {dest : Ftag} (hdest : dest.ReftreeNonneg) {rest : List Char}
    {behind : List (List Opinfo)} {fuel : Nat} (hprod : ∀ a ∈ run, a.Produced)
    (hbarred : ∀ a ∈ run, a.succeeds = false → a.Barred)
    (hread : readChains (fun _ _ => dest) fuel (logText run ++ rest) = loggedChains run ++ behind) :
    (∀ a ∈ run, a.Clean) ∧ ∃ left, readChains (fun _ _ => dest) left rest = behind := by
  rw [logText_eq hbarred] at hread
  obtain ⟨hlog, hleft⟩ := loggable_of_readChains hdest rest (printed_of_logged hprod) hread
  refine ⟨fun a ha => ?_, hleft⟩
  unfold Attempt.Clean
  cases hsucc : a.succeeds with
  | false => exact hbarred a ha hsucc
  | true => exact hlog _ (mem_loggedChains.2 ⟨a, ha, hsucc, rfl⟩)

theorem barred_of_reads {a : Attempt} (hprod : ∀ b ∈ run ++ [a], b.Produced)
    (hbarred : ∀ b ∈ run, b.succeeds = false → b.Barred) (hfails : a.succeeds = false)
    (h : ∀ later : Attempt, later.Produced → RoundTrips later.chain → later.succeeds = true →
      Reads (logText (run ++ [a] ++ [later])) (loggedChains (run ++ [a]) ++ [later.chain])) : a.Barred := by
  by_contra hfree
  have ha := hprod a (by simp)
  have hrun : ∀ b ∈ run, b.Produced := fun b hb => hprod b (mem_append_left _ hb)
  obtain ⟨op, next, hchain⟩ := exists_cons_of_ne_nil ha.chain_ne_nil
  have hhead := Attempt.written_head hchain hfree
  -- the chain that is logged next starts with the other character
  have hops : ∀ o ∈ [otherOp op.extendedinfo], o.Produced :=
    List.forall_mem_singleton.2 (otherOp_produced _)
  have hlog : Loggable [otherOp op.extendedinfo] := ⟨otherOp_loggable _, trivial⟩
  have hreads := h (.unhindered [otherOp op.extendedinfo]) ⟨cons_ne_nil _ _, hops⟩
    (roundTrips_of_loggable (cons_ne_nil _ _) hops hlog)
    (Attempt.unhindered_succeeds hops hlog)
  have hrep := sampleFtag_nonNegative
  have hread := hreads (fun _ _ => sampleFtag 1 2 true) fun _ _ => hrep.toRepresentable
  rw [loggedChains_append, loggedChains_failed hfails, List.append_nil, append_assoc,
    logText_append] at hread
  obtain ⟨-, left, hleft⟩ := clean_of_readChains hrep.toReftreeNonneg hrun hbarred hread
  rw [logText_append, logText_singleton] at hleft
  cases left with
  | zero => cases hleft
  | succ left =>
    rw [readChains] at hleft
    split at hleft
    · cases hleft
    · rename_i read eof after hprs
      obtain ⟨rfl, -⟩ := List.cons.inj hleft
      have hoth := parselogline_head (by rw [hprs]; rfl)
      rw [List.head?_append, hhead] at hoth
      exact otherOp_initial op.extendedinfo (Option.some.inj hoth).symm

end Clean

/-- The log is left readable exactly if no call that fails writes anything, and if the log can hold
every chain that is logged. -/
theorem leftReadable_iff {run : List Attempt} (hprod : ∀ a ∈ run, a.Produced) :
    LeftReadable run ↔ ((∃ a ∈ run, a.succeeds = false) → ∀ a ∈ run, a.Clean) := by
  constructor
  · intro h hfailed
    have hbarred : ∀ done, done <+: run → ∀ a ∈ done, a.succeeds = false → a.Barred := by
      intro done
      induction done using reverseRecOn with
      | nil => exact fun _ => nofun
      | append_singleton done a ih =>
        intro hdone
        have hbefore := ih ((prefix_append _ _).trans hdone)
        refine List.forall_mem_append.2 ⟨hbefore, List.forall_mem_singleton.2 fun hfails => ?_⟩
        exact barred_of_reads (fun b hb => hprod b (hdone.subset hb)) hbefore hfails
          (h _ hdone ⟨a, by simp, hfails⟩).2
    have hrep := sampleFtag_nonNegative
    have hread := (h run prefix_rfl hfailed).1 (fun _ _ => sampleFtag 1 2 true)
      fun _ _ => hrep.toRepresentable
    rw [← List.append_nil (logText run), ← List.append_nil (loggedChains run)] at hread
    exact clean_of_readChains hrep.toReftreeNonneg hprod (hbarred run prefix_rfl) hread |>.1
  · intro hclean done hdone hfails
    have hsubset := hdone.subset
    have hclean : ∀ a ∈ done, a.Clean := by
      obtain ⟨a, ha, hfailed⟩ := hfails
      intro b hb
      exact hclean ⟨a, hsubset ha, hfailed⟩ b (hsubset hb)
    have hprod : ∀ a ∈ done, a.Produced := fun a ha => hprod a (hsubset ha)
    refine ⟨reads_of_clean hprod hclean, ?_⟩
    intro later hlater hround hsucceeds
    have hlog : later.Clean := by
      unfold Attempt.Clean
      rw [if_pos hsucceeds]
      exact loggable_of_roundTrips hlater.ops hround
    have hreads := reads_of_clean
      (List.forall_mem_append.2 ⟨hprod, List.forall_mem_singleton.2 hlater⟩)
      (List.forall_mem_append.2 ⟨hclean, List.forall_mem_singleton.2 hlog⟩)
    rwa [loggedChains_append, loggedChains_succeeded hsucceeds] at hreads

def brokenOff (failing : Nat) : Attempt where
  chain := [clientDelobj ['c'] true, clientDelobj ['c'] true]
  calls := fun i => { seeks := true, writes := if i = failing then none else some maxBuffer }

theorem brokenOff_produced (failing : Nat) : (brokenOff failing).Produced := by
  have hctag : '|' ∉ ['c'] := by decide
  have hop := clientDelobj_produced hctag true
  refine ⟨cons_ne_nil _ _, ?_⟩
  exact List.forall_mem_cons.2 ⟨hop, List.forall_mem_singleton.2 hop⟩

theorem brokenOff_loggable (failing : Nat) : Loggable (brokenOff failing).chain :=
  ⟨clientDelobj_loggable _ _, clientDelobj_loggable _ _, trivial⟩

/-- A call that fails on its first op leaves nothing behind. -/
theorem brokenOff_leftReadable : LeftReadable [.unhindered (brokenOff 0).chain, brokenOff 0] := by
  have hprod := brokenOff_produced 0
  have hlog := brokenOff_loggable 0
  have hlogged : (Attempt.unhindered (brokenOff 0).chain).Clean := by
    unfold Attempt.Clean
    rw [if_pos (Attempt.unhindered_succeeds hprod.ops hlog)]
    exact hlog
  have hbarred : (brokenOff 0).Barred := ⟨_, _, rfl, .inr (.inr (.inl rfl))⟩
  have hfailed : (brokenOff 0).Clean := by
    unfold Attempt.Clean
    rw [if_neg (by simp [hbarred.writes_nothing.2])]
    exact hbarred
  refine (leftReadable_iff ?_).2 fun _ => ?_
  · exact List.forall_mem_cons.2 ⟨⟨hprod.chain_ne_nil, hprod.ops⟩, List.forall_mem_singleton.2 hprod⟩
  · exact List.forall_mem_cons.2 ⟨hlogged, List.forall_mem_singleton.2 hfailed⟩

/-- The first line of a call that fails on its second op says that another op follows, which the
parser takes from the next chain. -/
theorem brokenOff_unreadable : ¬ LeftReadable [brokenOff 1] := by
  intro h
  have hprod := brokenOff_produced 1
  have hop := hprod.ops (clientDelobj ['c'] true) (mem_cons_self ..)
  have hlog := brokenOff_loggable 1
  have hline := Opinfo.line_eq hop hlog.1
  have hfails : (brokenOff 1).succeeds = false := by
    have hlen := hlog.1.length
    have hwrite : (((brokenOff 1).calls 0).write
        ((clientDelobj ['c'] true).text true ++ ['\n'])).2 = true := by
      apply FileCalls.write_whole
      simpa using Nat.le_of_lt hlen
    unfold Attempt.succeeds
    rw [show (brokenOff 1).chain = [clientDelobj ['c'] true, clientDelobj ['c'] true] from rfl,
      printloglineTo_complete rfl hline hwrite,
      printloglineTo_incomplete rfl (Opinfo.line_eq hop hlog.2.1) rfl]
  have hsole : ∀ b ∈ [] ++ [brokenOff 1], b.Produced := List.forall_mem_singleton.2 hprod
  obtain ⟨op, next, hchain, hbar⟩ := barred_of_reads hsole nofun hfails
    (h _ prefix_rfl ⟨_, mem_singleton_self _, hfails⟩).2
  obtain ⟨rfl, rfl⟩ := List.cons.inj hchain
  rw [hline] at hbar
  simp [brokenOff, maxBuffer] at hbar

end Marfs.Rman
