import Marfs.Rman.NamespaceWork

/-!
# Old logs are dropped

A rank that needs any work is to get a request for an old log while there is one.  The loop that looks
for one begins with no node and never runs, so the first such rank makes the manager drop the table.
Every worker begins as such a rank: no request for an old log is ever handed out.
-/

namespace Marfs.Rman

open Hash

/-! ## What is recorded and what is issued -/

def recordedLogs (table : HashTable Loginfo) : List WorkRequest :=
  table.nodes.flatMap fun node => node.content.requests.take node.content.logcount

def Event.log : Event → Option WorkRequest
  | .issued _ request => if request.type = .rlog then some request else none
  | .answered _ _ => none

def issuedLogs (events : List Event) : List WorkRequest := events.filterMap Event.log

/-- The old logs are processed: each request is issued once, the table goes away and ranks terminate
only when all have been issued. -/
structure OldlogsProcessed (logs : List WorkRequest) (execprevroot : Bool) (workers : List Nat)
    (s : System) : Prop where
  once : (issuedLogs s.events).Subperm logs
  freed : s.rman.oldlogs = none → (issuedLogs s.events).Perm logs
  terminated : execprevroot = true → ∀ i request past, .issued i request :: past <:+ s.events →
    request.type = .terminate → (issuedLogs past).Perm logs
  finished : s.Finished workers → (issuedLogs s.events).Perm logs

theorem issuedLogs_issued {i : Nat} {request : WorkRequest} {events : List Event}
    (h : request.type ≠ .rlog) : issuedLogs (.issued i request :: events) = issuedLogs events :=
  List.filterMap_cons_none (if_neg h)

theorem issuedLogs_answered {i : Nat} {response : WorkResponse} {events : List Event} :
    issuedLogs (.answered i response :: events) = issuedLogs events := rfl

/-! ## No log is issued without records -/

theorem unrecorded_of_recordedLogs {table : HashTable Loginfo} (h : recordedLogs table = []) :
    Unrecorded (some table) := by
  intro table' htable' node hnode
  obtain rfl := Option.some.inj htable'
  exact List.flatMap_eq_nil_iff.1 h node hnode

/-- A state of the manager and what it sends are without old logs. -/
def Handled.Logless (result : Rmanstate × Handled) : Prop :=
  Unrecorded result.1.oldlogs ∧ ∀ request, result.2 = .send request → request.type ≠ .rlog

section Logless

variable {identifier : List Char → Id} {rman : Rmanstate} {i : Nat} {response : WorkResponse}
  {request : WorkRequest}

theorem handOut_logless (h : Unrecorded rman.oldlogs) (nsindex : Nat) :
    Handled.Logless (handOut rman i nsindex) := by
  refine ⟨h, fun request hsend => ?_⟩
  obtain rfl := Handled.send.inj hsend
  exact nofun

theorem send_logless (h : Unrecorded rman.oldlogs) {type : WorkType} (htype : type ≠ .rlog) :
    Handled.Logless (rman, .send { request with type := type }) := by
  refine ⟨h, fun request' hsend => ?_⟩
  obtain rfl := Handled.send.inj hsend
  exact htype

theorem needRange_logless (h : Unrecorded rman.oldlogs) : Handled.Logless (needRange rman i request) := by
  unfold needRange
  split
  · exact send_logless h nofun
  · split
    · exact handOut_logless h _
    · split
      · exact handOut_logless h _
      · exact send_logless h nofun

theorem needWork_logless (h : Unrecorded rman.oldlogs) : Handled.Logless (needWork rman i request) := by
  rw [needWork_of_unrecorded rman i request h]
  exact needRange_logless nofun

theorem continueRange_logless (h : Unrecorded rman.oldlogs) :
    Handled.Logless (continueRange rman i response) := by
  unfold continueRange
  split
  · exact send_logless h nofun
  · split
    · exact handOut_logless h _
    · exact send_logless h nofun

theorem continueWork_logless (h : Unrecorded rman.oldlogs) :
    Handled.Logless (continueWork identifier rman i response) := by
  unfold continueWork
  split
  · exact continueRange_logless h
  · next table htable =>
    split
    · rw [takeRequest_of_unrecorded (htable ▸ h)]
      exact continueRange_logless h
    · exact ⟨h, nofun⟩

theorem completed_logless (h : Unrecorded rman.oldlogs) (logs : Bool) :
    Handled.Logless (completed logs rman i response request) := by
  have hkeep : (incorporate rman response).oldlogs = rman.oldlogs := by
    unfold incorporate
    split <;> rfl
  rw [← hkeep] at h
  unfold completed
  split
  · dsimp only
    split
    · exact needWork_logless h
    · exact ⟨h, nofun⟩
  · exact needWork_logless (hkeep ▸ h)

theorem handleresponse_logless (h : Unrecorded rman.oldlogs) (logs : Bool) :
    Handled.Logless (handleresponse identifier logs rman i response request) := by
  unfold handleresponse
  split
  · exact ⟨h, nofun⟩
  · split
    · refine ⟨h, fun request hsend => ?_⟩
      obtain rfl := Handled.send.inj hsend
      exact nofun
    · split
      · exact ⟨h, nofun⟩
      · exact ⟨h, nofun⟩
      · exact completed_logless h logs
      · exact continueWork_logless h
      · exact continueWork_logless h

end Logless

def System.Logless (s : System) : Prop := Unrecorded s.rman.oldlogs ∧ issuedLogs s.events = []

theorem System.Logless.step {identifier : List Char → Id} {s s' : System} (h : s.Logless)
    (hstep : Step identifier s s') : s'.Logless := by
  obtain ⟨hold, hissued⟩ := h
  cases hstep with
  | work _ _ _ => exact ⟨hold, hissued⟩
  | @sent i response request hmail hhand =>
    have hlogless : Handled.Logless (s.handled identifier i response) :=
      handleresponse_logless hold true
    refine ⟨hlogless.1, ?_⟩
    dsimp only [System.sent]
    rw [issuedLogs_issued (hlogless.2 request hhand), issuedLogs_answered]
    exact hissued
  | @closed i response hmail hhand =>
    have hlogless : Handled.Logless (s.handled identifier i response) :=
      handleresponse_logless hold true
    exact ⟨hlogless.1, hissued⟩

theorem System.Logless.processed {s : System} (h : s.Logless) (execprevroot : Bool)
    (workers : List Nat) : OldlogsProcessed [] execprevroot workers s := by
  obtain ⟨-, hissued⟩ := h
  have hperm : (issuedLogs s.events).Perm [] := by rw [hissued]
  refine ⟨hperm.subperm, fun _ => hperm, fun _ i request past hsuf _ => ?_, fun _ => hperm⟩
  -- what was issued before is part of what has been issued
  have hbef : past <:+ s.events := (List.suffix_cons _ past).trans hsuf
  have hsublist : (issuedLogs past).Sublist (issuedLogs s.events) :=
    hbef.sublist.filterMap Event.log
  rw [hissued] at hsublist
  rw [List.sublist_nil.1 hsublist]

/-! ## The first response -/

theorem searchOldlogs_none (fuel : Nat) (table : HashTable Loginfo) :
    searchOldlogs fuel table none = none := by
  cases fuel <;> rfl

theorem needWork_drops (rman : Rmanstate) (i : Nat) (request : WorkRequest) :
    needWork rman i request = needRange { rman with oldlogs := none } i request := by
  unfold needWork
  cases htable : rman.oldlogs with
  | none =>
    dsimp only
    rw [← htable]
  | some table => simp only [searchOldlogs_none]

theorem needRange_oldlogs (rman : Rmanstate) (i : Nat) (request : WorkRequest) :
    (needRange rman i request).1.oldlogs = rman.oldlogs ∧
      ∃ request', (needRange rman i request).2 = .send request' ∧ request'.type ≠ .rlog := by
  unfold needRange handOut
  split
  · exact ⟨rfl, _, rfl, nofun⟩
  · split
    · exact ⟨rfl, _, rfl, nofun⟩
    · split
      · exact ⟨rfl, _, rfl, nofun⟩
      · exact ⟨rfl, _, rfl, nofun⟩

/-- A rank that starts makes the manager drop the table, and gets no old log. -/
theorem handleresponse_startup (identifier : List Char → Id) (rman : Rmanstate) (i : Nat)
    (request : WorkRequest) (hfatal : rman.fatalerror = false) :
    (handleresponse identifier true rman i (startup rman.nscount) request).1.oldlogs = none ∧
      ∃ request',
        (handleresponse identifier true rman i (startup rman.nscount) request).2 = .send request' ∧
          request'.type ≠ .rlog := by
  have hneed : handleresponse identifier true rman i (startup rman.nscount) request =
      needRange { rman with oldlogs := none } i request := by
    rw [← needWork_drops]
    simp [handleresponse, startup, hfatal, completed]
  rw [hneed]
  exact needRange_oldlogs _ i request

/-! ## The result -/

/-- The old logs are processed in every run just if none are recorded. -/
theorem oldlogs_processed_iff (identifier : List Char → Id) (nslist : List ManagedNs) (workingranks : Nat)
    (table : HashTable Loginfo) (execprevroot : Bool) {workers : List Nat} (hworkers : workers ≠ []) :
    (∀ s, System.Reached identifier
        (System.start (Rmanstate.start workingranks nslist (some table) execprevroot) workers) s →
        OldlogsProcessed (recordedLogs table) execprevroot workers s) ↔
      recordedLogs table = [] := by
  constructor
  · intro h
    obtain ⟨i, hi⟩ := List.exists_mem_of_ne_nil workers hworkers
    have hmail : (System.start (Rmanstate.start workingranks nslist (some table) execprevroot)
        workers).mail i = .response (startup nslist.length) := if_pos hi
    obtain ⟨hnone, request, hsend, htype⟩ := handleresponse_startup identifier
      (Rmanstate.start workingranks nslist (some table) execprevroot) i
      { type := .rlog, nsindex := 0, refdist := 0, iteration := [], ranknum := 0 } rfl
    -- the state after one response
    have hprocessed := h _ (.single (.sent hmail hsend))
    have hperm := hprocessed.freed hnone
    dsimp only [System.sent, System.start] at hperm
    rw [issuedLogs_issued htype, issuedLogs_answered] at hperm
    exact hperm.nil_eq.symm
  · intro hnone s hs
    have hlogless : s.Logless := hs.invariant ⟨unrecorded_of_recordedLogs hnone, rfl⟩
      fun _ _ h hstep => h.step hstep
    rw [hnone]
    exact hlogless.processed execprevroot workers

def sampleLogs : HashTable Loginfo :=
  { nodecount := 1
    nodes := [
      { name := ['a'], weight := 0
        content :=
          { nsindex := 0, logcount := 1
            requests := [
              { type := .rlog, nsindex := 0, refdist := 0, iteration := ['i'], ranknum := 0 }] } }]
    vnodecount := 1, vnodes := [{ id := ⟨0, 0⟩, nodenum := 0 }], curnode := 0, iterated := 0 }

theorem sampleLogs_processed_iff :
    (∀ s, System.Reached (fun _ => ⟨0, 0⟩)
        (System.start
          (Rmanstate.start 1 [{ idstr := ['a'], refnodecount := 1 }] (some sampleLogs) true) [1]) s →
        OldlogsProcessed (recordedLogs sampleLogs) true [1] s) ↔
      recordedLogs sampleLogs = [] :=
  oldlogs_processed_iff (fun _ => ⟨0, 0⟩) [{ idstr := ['a'], refnodecount := 1 }] 1 sampleLogs true
    (List.cons_ne_nil 1 [])

/-- The rank is made to terminate while its log is still to be processed. -/
theorem sampleLogs_dropped : ∃ s, System.Reached (fun _ => ⟨0, 0⟩)
    (System.start
      (Rmanstate.start 1 [{ idstr := ['a'], refnodecount := 1 }] (some sampleLogs) true) [1]) s ∧
    s.rman.oldlogs.isNone = true ∧ issuedLogs s.events = [] ∧ recordedLogs sampleLogs ≠ [] ∧
    ¬OldlogsProcessed (recordedLogs sampleLogs) true [1] s := by
  have hrecorded : recordedLogs sampleLogs ≠ [] := List.cons_ne_nil _ _
  refine ⟨_, .single (.sent (i := 1) rfl rfl), rfl, rfl, hrecorded, fun h => hrecorded ?_⟩
  exact (h.freed rfl).nil_eq.symm

end Marfs.Rman
