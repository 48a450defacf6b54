import Marfs.Rman.LoglineSpec
import Marfs.Rman.Outstanding

/-!
# Replaying a resource log

A rank that picks up the work of an aborted run replays the log file of that run into its own log.
Every message went through `processopinfo` before it was written, and goes through it again when it
is read, so that the logs agree as long as the messages come back from the file
(`replay_writeMessages`).
-/

namespace Marfs.Rman

open Cstring Tagging

/-- A log and the content of its file behind the header. -/
structure Logfile where
  log : Resourcelog
  content : List Char

def Logfile.init : Logfile := { log := .init .modify, content := [] }

/-- `resourcelog_processop` with the log file: a line is written for every op of a message that the
log took in.  `none` where the call fails. -/
def writeMessage (lookup : List Char → Nat) (file : Logfile) (op : List Opinfo) : Option Logfile :=
  let processed := resourcelogProcessop lookup (printlogline op).2 file.log op
  if processed.result = .ok then
    some { log := processed.log, content := file.content ++ (printlogline op).1 }
  else none

/-- A sequence of calls that succeed. -/
def writeMessages (lookup : List Char → Nat) (file : Logfile) (msgs : List (List Opinfo)) :
    Option Logfile :=
  msgs.foldlM (writeMessage lookup) file

/-- What `resourcelog_replay` leaves of the output log, and whether it succeeded. -/
structure Replayed where
  file : Logfile
  ok : Bool

/-- The loop of `resourcelog_replay`.  `filter` is nonzero for chains to leave out, and every call of
the parser finds other values in the memory it allocates.  Every turn goes forward, so that the
length of the input bounds the loop. -/
def replayOps (lookup : List Char → Nat) (filter : List Opinfo → Bool)
    (uninit : Nat → Nat → Ftag) : Nat → List Char → Logfile → Replayed
  | 0, _, file => { file := file, ok := false }
  | fuel + 1, input, file =>
    match parselogline (uninit fuel) input with
    | { chain := none, eof, rest := _ } => { file := file, ok := eof == 1 }
    | { chain := some parsedop, eof := _, rest } =>
      if filter parsedop then replayOps lookup filter uninit fuel rest file
      else
        let processed :=
          match file.log.type with
          | .modify => processopinfo lookup file.log parsedop
          | .record => { log := file.log, progress := none, result := .ok }
        let (line, printed) := printlogline parsedop
        if processed.result ≠ .ok then { file := { file with log := processed.log }, ok := false }
        else
          let file := { log := processed.log, content := file.content ++ line }
          if printed then replayOps lookup filter uninit fuel rest file
          else { file := file, ok := false }

/-- `resourcelog_replay` of a log file with `input` behind its header.  `closes` and `unlinks` say
whether that file can be closed, and deleted. -/
def resourcelogReplay (lookup : List Char → Nat) (filter : List Opinfo → Bool)
    (uninit : Nat → Nat → Ftag) (closes unlinks : Bool) (input : List Char) (file : Logfile) :
    Replayed :=
  let replayed := replayOps lookup filter uninit (input.length + 1) input file
  if replayed.ok then
    { replayed with
      ok := resourcelogTerm closes unlinks (.init .modify) true = .done {} false }
  else replayed

/-! ## A message -/

variable {lookup : List Char → Nat} {op : List Opinfo} {file : Logfile}

theorem writeMessage_eq_some {file' : Logfile} (h : writeMessage lookup file op = some file') :
    (processopinfo lookup file.log op).result = .ok ∧ (printlogline op).2 = true ∧
      file' = { log := (processopinfo lookup file.log op).log
                content := file.content ++ (printlogline op).1 } := by
  unfold writeMessage resourcelogProcessop at h
  dsimp only at h
  split at h
  · cases h
  · rename_i hprint
    split at h
    · rename_i hok
      obtain rfl := Option.some.inj h
      exact ⟨hok, by simpa [hok] using hprint, rfl⟩
    · cases h

/-- A message is not empty. -/
theorem processopinfo_ne_nil {log : Resourcelog} (h : (processopinfo lookup log op).result = .ok) :
    op ≠ [] := by
  rintro rfl
  cases h

theorem parselogline_message (uninit : Nat → Ftag) (hne : op ≠ []) (hprod : ∀ o ∈ op, o.Produced)
    (hlog : Loggable op) (rest : List Char) :
    parselogline uninit (chainText op ++ rest) = { chain := some op, eof := 0, rest := rest } := by
  have hlen := length_le_chainText op
  apply parseLines_chainText uninit rest hne hprod hlog
  rw [List.length_append]
  omega

theorem chainText_ne_nil (hne : op ≠ []) : chainText op ≠ [] := by
  intro h
  have hlen := length_le_chainText op
  rw [h] at hlen
  exact hne (List.eq_nil_of_length_eq_zero (Nat.le_zero.1 hlen))

/-! ## The whole file -/

def messagesText (msgs : List (List Opinfo)) : List Char := msgs.flatMap chainText

/-- The induction is on the messages: each turn of the loop reads the one that was written, does to
the output log what it did to the log that wrote it, and copies its lines. -/
theorem replayOps_messages (uninit : Nat → Nat → Ftag) (msgs : List (List Opinfo)) :
    ∀ {file file' : Logfile} {fuel : Nat}, file.log.type = .modify →
      writeMessages lookup file msgs = some file' →
      (∀ op ∈ msgs, ∀ o ∈ op, o.Produced) → (∀ op ∈ msgs, Loggable op) →
      (messagesText msgs).length < fuel →
      replayOps lookup (fun _ => false) uninit fuel (messagesText msgs) file =
          { file := file', ok := true } ∧
        file'.content = file.content ++ messagesText msgs := by
  induction msgs with
  | nil =>
    intro file file' fuel _ hwrite _ _ hfuel
    obtain rfl := Option.some.inj hwrite
    obtain ⟨fuel, rfl⟩ := Nat.exists_eq_succ_of_ne_zero (Nat.ne_of_gt hfuel)
    exact ⟨rfl, by simp [messagesText]⟩
  | cons op msgs ih =>
    intro file file' fuel hmodify hwrite hprod hlog hfuel
    obtain ⟨next, hmsg, hwrite⟩ := Option.bind_eq_some_iff.1 hwrite
    obtain ⟨hok, hprinted, rfl⟩ := writeMessage_eq_some hmsg
    have hprod' := hprod op (List.mem_cons_self ..)
    have hlog' := hlog op (List.mem_cons_self ..)
    have hne := processopinfo_ne_nil hok
    have hprint := printlogline_eq hprod' hlog'
    have hpos := List.length_pos_iff.2 (chainText_ne_nil hne)
    have htext : messagesText (op :: msgs) = chainText op ++ messagesText msgs := by
      simp [messagesText]
    rw [htext, List.length_append] at hfuel
    obtain ⟨fuel, rfl⟩ := Nat.exists_eq_succ_of_ne_zero (Nat.ne_of_gt (Nat.zero_lt_of_lt hfuel))
    have hread := parselogline_message (uninit fuel) hne hprod' hlog' (messagesText msgs)
    have htype : (processopinfo lookup file.log op).log.type = .modify := by
      rw [processopinfo_type, hmodify]
    have hfuel : (messagesText msgs).length < fuel := by omega
    obtain ⟨hreplay, hcont⟩ := ih htype hwrite
      (fun op hop => hprod op (List.mem_cons_of_mem _ hop))
      (fun op hop => hlog op (List.mem_cons_of_mem _ hop)) hfuel
    rw [hprint] at hcont hreplay
    refine ⟨?_, ?_⟩
    · rw [htext, replayOps, hread]
      simp only [hmodify, hprint, hok, hreplay]
      simp
    · rw [hcont, htext, List.append_assoc]

/-- What is held of a log comes back from its file: the table of the ops in progress, the
outstanding count and the summary.  The output log gets a copy of the file, and the call succeeds if
the old file can be closed and deleted. -/
theorem replay_writeMessages {msgs : List (List Opinfo)}
    (hwrite : writeMessages lookup .init msgs = some file) (hprod : ∀ op ∈ msgs, ∀ o ∈ op, o.Produced)
    (hlog : ∀ op ∈ msgs, Loggable op) (uninit : Nat → Nat → Ftag) (closes unlinks : Bool) :
    resourcelogReplay lookup (fun _ => false) uninit closes unlinks file.content .init =
      { file := file, ok := closes && unlinks } := by
  obtain ⟨hreplay, hcontent⟩ :=
    replayOps_messages uninit msgs rfl hwrite hprod hlog (Nat.lt_succ_self _)
  rw [show file.content = messagesText msgs from hcontent]
  unfold resourcelogReplay
  rw [hreplay]
  cases closes <;> cases unlinks <;> rfl

/-- The start of an object deletion, and its completion. -/
def sampleMessages (ctag : List Char) : List (List Opinfo) :=
  [[clientDelobj ctag true], [clientDelobj ctag false]]

theorem sampleMessages_written :
    (writeMessages (fun _ => 0) .init (sampleMessages ['c'])).isSome = true := by
  decide +kernel

theorem sampleMessages_replayed :
    ∃ file, writeMessages (fun _ => 0) .init (sampleMessages ['c']) = some file ∧
      ∀ uninit closes unlinks,
        resourcelogReplay (fun _ => 0) (fun _ => false) uninit closes unlinks file.content .init =
          { file := file, ok := closes && unlinks } := by
  obtain ⟨file, hwrite⟩ := Option.isSome_iff_exists.1 sampleMessages_written
  refine ⟨file, hwrite, replay_writeMessages hwrite ?_ ?_⟩
  · simp only [sampleMessages, List.forall_mem_cons, List.not_mem_nil, false_implies, implies_true,
      and_true]
    exact ⟨clientDelobj_produced (by decide) true, clientDelobj_produced (by decide) false⟩
  · simp only [sampleMessages, List.forall_mem_cons, List.not_mem_nil, false_implies, implies_true,
      and_true]
    exact ⟨⟨clientDelobj_loggable _ _, trivial⟩, clientDelobj_loggable _ _, trivial⟩

theorem parselogline_refused (uninit : Nat → Ftag) {line : List Char} (hline : '\n' ∉ line)
    (hlen : line.length < maxBuffer) (hbar : '|' ∉ line) (rest : List Char) :
    parselogline uninit (line ++ '\n' :: rest) =
      { chain := none, eof := 0, rest := line ++ '\n' :: rest } := by
  have hop : ∀ dest, parseOp dest line = none := by
    intro dest
    cases hprs : parseOp dest line with
    | none => rfl
    | some parsed =>
      obtain ⟨-, ftagstr, hsub, hftag⟩ := parseOp_ftag hprs
      exact absurd (hsub _ (bar_mem_of_ftagInitstr hftag)) hbar
  unfold parselogline
  rw [parseLines, readLine_append hline hlen]
  dsimp only
  rw [hop]

/-- A deletion on a file that a repack wrote is in progress, and awaited, in the log that is
written, but not in the one its file is replayed into. -/
theorem repacked_forgotten :
    ∃ file, writeMessages (fun _ => 0) .init [[clientDelobj "RMAN-Repack\n".toList true]] = some file ∧
      ∀ uninit closes unlinks,
        (resourcelogReplay (fun _ => 0) (fun _ => false) uninit closes unlinks file.content
          .init).file.log.outstandingcnt ≠ file.log.outstandingcnt := by
  -- the line is cut at the newline of the client tag
  have hcut : (printlogline [clientDelobj "RMAN-Repack\n".toList true]).1 =
      "DEL-OBJ \x7b 0 \x7d S 1 0 VER(0.001)STM(RMAN-Repack".toList ++ '\n' ::
        (printlogline [clientDelobj "RMAN-Repack\n".toList true]).1.drop 46 := by decide +kernel
  refine ⟨{ log := _, content := (printlogline [clientDelobj "RMAN-Repack\n".toList true]).1 },
    rfl, ?_⟩
  intro uninit closes unlinks
  rw [hcut]
  generalize (printlogline [clientDelobj "RMAN-Repack\n".toList true]).1.drop 46 = rest
  unfold resourcelogReplay replayOps
  rw [parselogline_refused _ (by decide) (by decide) (by decide)]
  exact Int.zero_ne_one

end Marfs.Rman
