import Marfs.Rman.ManagerSpec

/-!
# Every reference range is worked on once

The invariants of a run without fatal errors, old logs or a previous root.  Each is a fact about what
has happened and the counters of the manager, preserved by each event; what the ranks and their mail
stand for ties them together.
-/

namespace Marfs.Rman

open Hash List

/-! ## What an event changes -/

section Events

variable {i j nsindex : Nat} {request : WorkRequest} {response : WorkResponse} {events : List Event}

def Event.rank : Event → Nat
  | .issued i _ => i
  | .answered i _ => i

theorem currentNs_of_rank_ne {event : Event} (h : event.rank ≠ i) :
    currentNs i (event :: events) = currentNs i events := by
  cases event with
  | issued j request => exact if_neg fun ⟨hj, _⟩ => h hj
  | answered j response => exact if_neg fun ⟨hj, _⟩ => h hj

theorem currentNs_issued (h : request.type = .ns) :
    currentNs i (.issued i request :: events) = some request.nsindex :=
  if_pos ⟨rfl, h⟩

theorem currentNs_issued_of_ne (h : request.type ≠ .ns) :
    currentNs i (.issued j request :: events) = currentNs i events :=
  if_neg fun ⟨_, htype⟩ => h htype

theorem currentNs_answered (h : response.request.type = .complete)
    (hcurr : currentNs i events = some response.request.nsindex) :
    currentNs i (.answered i response :: events) = none :=
  if_pos ⟨rfl, h, hcurr⟩

theorem currentNs_answered_of_ne
    (h : response.request.type = .complete → currentNs i events ≠ some response.request.nsindex) :
    currentNs i (.answered j response :: events) = currentNs i events :=
  if_neg fun ⟨_, htype, hcurr⟩ => h htype hcurr

theorem worked_answered : Worked i nsindex (.answered j response :: events) ↔ Worked i nsindex events := by
  simp [Worked, Event.IsWork]

theorem worked_issued : Worked i nsindex (.issued j request :: events) ↔
    (j = i ∧ request.type = .ns ∧ request.nsindex = nsindex) ∨ Worked i nsindex events := by
  simp [Worked, Event.IsWork]

theorem completions_issued :
    completions i nsindex (.issued j request :: events) = completions i nsindex events := by
  simp [completions, Event.isCompletion]

theorem completions_answered (h : j = i → response.request.type = .complete →
    response.request.nsindex ≠ nsindex) :
    completions i nsindex (.answered j response :: events) = completions i nsindex events := by
  refine countP_cons_of_neg ?_
  rw [Event.isCompletion, decide_eq_true_eq]
  rintro ⟨hj, htype, hns⟩
  exact h hj htype hns

theorem completions_completed (h : response.request.type = .complete) :
    completions i response.request.nsindex (.answered i response :: events) =
      completions i response.request.nsindex events + 1 :=
  countP_cons_of_pos (decide_eq_true ⟨rfl, h, rfl⟩)

theorem handedOut_issued (h : request.type = .ns) : handedOut (.issued i request :: events) =
    (request.nsindex, request.refdist) :: handedOut events := by
  simp [handedOut, Event.range, h]

theorem handedOut_issued_of_ne (h : request.type ≠ .ns) :
    handedOut (.issued i request :: events) = handedOut events := by
  simp [handedOut, Event.range, h]

end Events

/-! ## Ranges -/

structure Counted (nscount : Nat) (distributed : Nat → Nat) (events : List Event) : Prop where
  mem : ∀ range, range ∈ handedOut events ↔
    range.1 < nscount ∧ range.2 < distributed range.1
  nodup : (handedOut events).Nodup

namespace Counted

variable {nscount i : Nat} {distributed : Nat → Nat} {request : WorkRequest} {events : List Event}

theorem issued_of_ne (h : Counted nscount distributed events) (htype : request.type ≠ .ns) :
    Counted nscount distributed (.issued i request :: events) := by
  constructor <;> rw [handedOut_issued_of_ne htype]
  · exact h.mem
  · exact h.nodup

theorem issued (h : Counted nscount distributed events) (htype : request.type = .ns)
    (hlt : request.nsindex < nscount) (hdist : request.refdist = distributed request.nsindex) :
    Counted nscount
      (fun n => if n = request.nsindex then distributed n + 1 else distributed n)
      (.issued i request :: events) := by
  constructor <;> rw [handedOut_issued htype]
  · intro range
    obtain ⟨nsindex, refdist⟩ := range
    rw [mem_cons, h.mem, Prod.mk.injEq, hdist]
    by_cases hns : nsindex = request.nsindex
    · subst hns
      simp only [true_and, if_true, hlt]
      omega
    · simp only [hns, false_and, false_or, if_false]
  · refine List.nodup_cons.2 ⟨fun hmem => ?_, h.nodup⟩
    have hlt' := ((h.mem _).1 hmem).2
    dsimp only at hlt'
    omega

end Counted

/-! ## Completions -/

/-- A rank has completed the namespaces it was given work of, up to the one it works on now; and
what one rank has completed is handed out as a whole. -/
def Tallied (nscount : Nat) (full : Nat → Prop) (events : List Event) : Prop :=
  ∀ i, ∀ nsindex < nscount,
    (completions i nsindex events = 0 ∧
        (Worked i nsindex events → currentNs i events = some nsindex)) ∨
      (completions i nsindex events = 1 ∧ Worked i nsindex events ∧
        currentNs i events ≠ some nsindex ∧ full nsindex)

namespace Tallied

variable {nscount i : Nat} {full full' : Nat → Prop} {request : WorkRequest}
  {response : WorkResponse} {events : List Event}

theorem mono (h : Tallied nscount full events) (hfull : ∀ n, full n → full' n) :
    Tallied nscount full' events := by
  intro i nsindex hns
  rcases h i nsindex hns with hnot | ⟨hone, hwork, hcurr, hall⟩
  · exact .inl hnot
  · exact .inr ⟨hone, hwork, hcurr, hfull nsindex hall⟩

theorem issued_of_ne (h : Tallied nscount full events) (htype : request.type ≠ .ns) :
    Tallied nscount full (.issued i request :: events) := by
  intro j nsindex hns
  rw [completions_issued, worked_issued, currentNs_issued_of_ne htype]
  have hno : ¬(i = j ∧ request.type = .ns ∧ request.nsindex = nsindex) :=
    fun ⟨_, h, _⟩ => htype h
  rw [or_iff_right hno]
  exact h j nsindex hns

/-- A rank gets work of a namespace that has some left, when it has completed all others. -/
theorem issued (h : Tallied nscount full events) (htype : request.type = .ns) (hfull : ¬full request.nsindex)
    (hcurr : currentNs i events = none ∨ currentNs i events = some request.nsindex) :
    Tallied nscount full (.issued i request :: events) := by
  intro j nsindex hns
  rw [completions_issued, worked_issued]
  by_cases hj : i = j
  · subst hj
    rw [currentNs_issued htype]
    rcases h i nsindex hns with ⟨hzero, hworks⟩ | ⟨hone, hwork, hnot, hall⟩
    · refine .inl ⟨hzero, fun hwork => ?_⟩
      rcases hwork with ⟨-, -, hsame⟩ | hwork
      · rw [hsame]
      · rcases hcurr with hnone | hsome
        · exact absurd (hnone.symm.trans (hworks hwork)) (by simp)
        · rw [← hsome, hworks hwork]
    · refine .inr ⟨hone, .inr hwork, fun hsame => hfull ?_, hall⟩
      rw [Option.some.inj hsame]
      exact hall
  · have hoth : (Event.issued i request).rank ≠ j := hj
    have hno : ¬(i = j ∧ request.type = .ns ∧ request.nsindex = nsindex) := fun ⟨h, _⟩ => hj h
    rw [currentNs_of_rank_ne hoth, or_iff_right hno]
    exact h j nsindex hns

theorem answered_of_ne (h : Tallied nscount full events) (htype : response.request.type = .complete →
      currentNs i events = none ∧ nscount ≤ response.request.nsindex) :
    Tallied nscount full (.answered i response :: events) := by
  intro j nsindex hns
  have hcnt : i = j → response.request.type = .complete →
      response.request.nsindex ≠ nsindex := fun _ hcomp hsame => by
    have := (htype hcomp).2
    omega
  have hcurr : currentNs j (.answered i response :: events) = currentNs j events := by
    by_cases hj : i = j
    · subst hj
      refine currentNs_answered_of_ne fun hcomp => ?_
      rw [(htype hcomp).1]
      exact nofun
    · exact currentNs_of_rank_ne hj
  rw [completions_answered hcnt, worked_answered, hcurr]
  exact h j nsindex hns

theorem answered (h : Tallied nscount full events) (htype : response.request.type = .complete)
    (hcurr : currentNs i events = some response.request.nsindex) (hfull : full response.request.nsindex) :
    Tallied nscount full (.answered i response :: events) := by
  intro j nsindex hns
  rw [worked_answered]
  by_cases hj : i = j
  · subst hj
    rw [currentNs_answered htype hcurr]
    by_cases hsame : nsindex = response.request.nsindex
    · subst hsame
      rcases h i _ hns with ⟨hzero, -⟩ | ⟨-, -, hnot, -⟩
      · refine .inr ⟨?_, worked_of_current hcurr, fun h => (by cases h), hfull⟩
        rw [completions_completed htype, hzero]
      · exact absurd hcurr hnot
    · rw [completions_answered fun _ _ h => hsame h.symm]
      rcases h i nsindex hns with ⟨hzero, hworks⟩ | ⟨hone, hwork, -, hall⟩
      · refine .inl ⟨hzero, fun hwork => ?_⟩
        have := hcurr.symm.trans (hworks hwork)
        exact absurd (Option.some.inj this).symm hsame
      · exact .inr ⟨hone, hwork, fun h => (by cases h), hall⟩
  · have hoth : (Event.answered i response).rank ≠ j := hj
    rw [currentNs_of_rank_ne hoth, completions_answered fun h => absurd h hj]
    exact h j nsindex hns

end Tallied

/-! ## Totals -/

/-- The totals of the namespaces are the sums of what the ranks that have completed them reported. -/
structure Summed (nscount : Nat) (rman : Rmanstate) (events : List Event) : Prop where
  walkreport : ∀ nsindex < nscount, rman.walkreport nsindex =
    (reports nsindex events).foldr (fun entry total => total.add entry.2.report) {}
  logsummary : ∀ nsindex < nscount, rman.logsummary nsindex =
    (reports nsindex events).foldr (fun entry total => total.add entry.2.summary) {}

namespace Summed

variable {nscount i : Nat} {rman : Rmanstate} {request : WorkRequest} {response : WorkResponse}
  {events : List Event}

theorem issued (h : Summed nscount rman events) : Summed nscount rman (.issued i request :: events) :=
  ⟨h.walkreport, h.logsummary⟩

theorem reports_of_ne {nsindex : Nat} (h : response.request.type = .complete →
    response.request.nsindex ≠ nsindex) :
    reports nsindex (.answered i response :: events) = reports nsindex events := by
  refine filterMap_cons_none (if_neg ?_)
  rintro ⟨htype, hns⟩
  exact h htype hns

theorem answered_of_ne (h : Summed nscount rman events)
    (htype : response.request.type = .complete → nscount ≤ response.request.nsindex) :
    Summed nscount rman (.answered i response :: events) := by
  have hreports (nsindex : Nat) (hns : nsindex < nscount) :
      reports nsindex (.answered i response :: events) = reports nsindex events :=
    reports_of_ne fun hcomp hsame => by
      have := htype hcomp
      omega
  constructor <;> intro nsindex hns <;> rw [hreports nsindex hns]
  · exact h.walkreport nsindex hns
  · exact h.logsummary nsindex hns

theorem incorporate (h : Summed nscount rman events) (htype : response.request.type = .complete)
    (hinfo : response.haveinfo = true) :
    Summed nscount (incorporate rman response) (.answered i response :: events) := by
  have hreports : reports response.request.nsindex (.answered i response :: events) =
      (i, response) :: reports response.request.nsindex events :=
    filterMap_cons_some (if_pos ⟨htype, rfl⟩)
  unfold Rman.incorporate
  rw [if_pos hinfo]
  constructor <;> intro nsindex hns <;> dsimp only
  · by_cases hsame : nsindex = response.request.nsindex
    · subst hsame
      rw [if_pos rfl, hreports, foldr_cons, h.walkreport _ hns]
    · rw [if_neg hsame, reports_of_ne fun _ h => hsame h.symm]
      exact h.walkreport nsindex hns
  · by_cases hsame : nsindex = response.request.nsindex
    · subst hsame
      rw [if_pos rfl, hreports, foldr_cons, h.logsummary _ hns]
    · rw [if_neg hsame, reports_of_ne fun _ h => hsame h.symm]
      exact h.logsummary nsindex hns

end Summed

/-! ## The order of events -/

/-- A request was allowed when it was issued: work of another namespace only after the rank has
completed its current one, and an end only when all ranges have been handed out. -/
def Event.Allowed (nscount workingranks : Nat) (past : List Event) : Event → Prop
  | .issued i request =>
    (request.type = .ns → ∀ nsindex, currentNs i past = some nsindex → nsindex = request.nsindex) ∧
      (request.type = .terminate →
        ∀ nsindex < nscount, ∀ refdist < workingranks, (nsindex, refdist) ∈ handedOut past)
  | .answered _ _ => True

def Ordered (nscount workingranks : Nat) (events : List Event) : Prop :=
  ∀ event past, event :: past <:+ events → event.Allowed nscount workingranks past

variable {workingranks : Nat}

theorem Ordered.cons {nscount : Nat} {events : List Event} {event : Event}
    (h : Ordered nscount workingranks events) (hallow : event.Allowed nscount workingranks events) :
    Ordered nscount workingranks (event :: events) := by
  intro event' past hsuf
  rcases List.suffix_cons_iff.1 hsuf with heq | hsuf
  · obtain ⟨rfl, rfl⟩ := List.cons.inj heq
    exact hallow
  · exact h event' past hsuf

/-! ## Where a rank stands -/

inductive Stands (nscount : Nat) (full : Nat → Prop) (current : Option Nat) (rank : Rank) :
    Mail → Prop
  | begun (running : rank.running = true) (idle : current = none) (target : rank.target = none) :
    Stands nscount full current rank (.response (startup nscount))
  | given {request : WorkRequest} (running : rank.running = true)
    (type : request.type = .ns) (lt : request.nsindex < nscount)
    (held : current = some request.nsindex)
    (target : rank.target = none ∨ rank.target = some request.nsindex) :
    Stands nscount full current rank (.request request)
  | worked {response : WorkResponse} (running : rank.running = true)
    (type : response.request.type = .ns)
    (lt : response.request.nsindex < nscount) (held : current = some response.request.nsindex)
    (target : rank.target = some response.request.nsindex) (ok : response.fatalerror = false) :
    Stands nscount full current rank (.response response)
  | completing {request : WorkRequest} (running : rank.running = true)
    (type : request.type = .complete)
    (lt : request.nsindex < nscount) (held : current = some request.nsindex)
    (target : rank.target = some request.nsindex) (all : full request.nsindex) :
    Stands nscount full current rank (.request request)
  | completed {response : WorkResponse} (running : rank.running = true)
    (type : response.request.type = .complete)
    (lt : response.request.nsindex < nscount) (held : current = some response.request.nsindex)
    (target : rank.target = none) (all : full response.request.nsindex)
    (info : response.haveinfo = true) (ok : response.fatalerror = false) :
    Stands nscount full current rank (.response response)
  | ending {request : WorkRequest} (running : rank.running = true)
    (type : request.type = .terminate) (idle : current = none)
    (all : ∀ nsindex < nscount, full nsindex) :
    Stands nscount full current rank (.request request)
  | ended {response : WorkResponse} (type : response.request.type = .terminate)
    (idle : current = none) (all : ∀ nsindex < nscount, full nsindex)
    (ok : response.fatalerror = false) :
    Stands nscount full current rank (.response response)
  | gone (idle : current = none) : Stands nscount full current rank .none

namespace Stands

variable {nscount : Nat} {full full' : Nat → Prop} {current : Option Nat} {rank : Rank}

theorem mono {mail : Mail} (h : Stands nscount full current rank mail)
    (hfull : ∀ n, full n → full' n) : Stands nscount full' current rank mail := by
  cases h with
  | begun running idle target => exact .begun running idle target
  | given running type lt held target => exact .given running type lt held target
  | worked running type lt held target ok => exact .worked running type lt held target ok
  | completing running type lt held target all =>
    exact .completing running type lt held target (hfull _ all)
  | completed running type lt held target all info ok =>
    exact .completed running type lt held target (hfull _ all) info ok
  | ending running type idle all =>
    exact .ending running type idle fun nsindex hlt => hfull _ (all nsindex hlt)
  | ended type idle all ok =>
    exact .ended type idle (fun nsindex hlt => hfull _ (all nsindex hlt)) ok
  | gone idle => exact .gone idle

theorem work {request : WorkRequest} {work : WorkResult}
    (h : Stands nscount full current rank (.request request)) (hok : work.ok = true) :
    Stands nscount full current (handlerequest rank request work).1
      (.response (handlerequest rank request work).2) := by
  cases h with
  | given running type lt held target =>
    simp only [handlerequest, type, hok, if_true]
    refine .worked running type lt held ?_ rfl
    rcases target with hnone | hsome
    · rw [hnone]
      rfl
    · rw [hsome]
      rfl
  | completing running type lt held target all =>
    simp only [handlerequest, type, hok, target, Option.isSome_some, and_self, if_true]
    exact .completed running type lt held rfl all rfl rfl
  | ending running type idle all =>
    simp only [handlerequest, type]
    exact .ended type idle all rfl

theorem answer {i : Nat} {events : List Event} {response : WorkResponse}
    (h : Stands nscount full (currentNs i events) rank (.response response)) :
    response.fatalerror = false ∧
      ((response.request.type = .complete ∧ rank.running = true ∧ rank.target = none ∧
          currentNs i (.answered i response :: events) = none) ∨
        (response.request.type = .ns ∧ response.request.nsindex < nscount ∧ rank.running = true ∧
          rank.target = some response.request.nsindex ∧
          currentNs i events = some response.request.nsindex ∧
          currentNs i (.answered i response :: events) = some response.request.nsindex) ∨
        (response.request.type = .terminate ∧ (∀ nsindex < nscount, full nsindex) ∧
          currentNs i (.answered i response :: events) = none)) := by
  cases h with
  | begun running idle target =>
    refine ⟨rfl, .inl ⟨rfl, running, target, ?_⟩⟩
    rw [currentNs_answered_of_ne fun _ => by rw [idle]; exact nofun]
    exact idle
  | worked running type lt held target ok =>
    refine ⟨ok, .inr (.inl ⟨type, lt, running, target, held, ?_⟩)⟩
    rw [currentNs_answered_of_ne fun hcomp => by rw [type] at hcomp; cases hcomp]
    exact held
  | completed running type lt held target all info ok =>
    exact ⟨ok, .inl ⟨type, running, target, currentNs_answered type held⟩⟩
  | ended type idle all ok =>
    refine ⟨ok, .inr (.inr ⟨type, all, ?_⟩)⟩
    rw [currentNs_answered_of_ne fun hcomp => by rw [type] at hcomp; cases hcomp]
    exact idle

end Stands

/-! ## What a run records -/

/-- All ranges of a namespace have been handed out. -/
def Rmanstate.Full (rman : Rmanstate) (nsindex : Nat) : Prop :=
  rman.workingranks ≤ rman.distributed nsindex

/-- The counters and totals of the manager agree with what has happened. -/
structure Recorded (rman : Rmanstate) (events : List Event) : Prop where
  le : ∀ nsindex, rman.distributed nsindex ≤ rman.workingranks
  counted : Counted rman.nscount rman.distributed events
  tallied : Tallied rman.nscount rman.Full events
  summed : Summed rman.nscount rman events
  ordered : Ordered rman.nscount rman.workingranks events

namespace Recorded

variable {rman : Rmanstate} {events : List Event} {i : Nat} {request : WorkRequest}
  {response : WorkResponse} {rank : Rank}

/-- Of the manager's state the counters and totals matter. -/
theorem congr {rman' : Rmanstate} (h : Recorded rman events) (hranks : rman'.workingranks = rman.workingranks)
    (hnslist : rman'.nslist = rman.nslist) (hdist : rman'.distributed = rman.distributed)
    (hreport : rman'.walkreport = rman.walkreport) (hsummary : rman'.logsummary = rman.logsummary) :
    Recorded rman' events := by
  have hns : rman'.nscount = rman.nscount := congrArg List.length hnslist
  have hfull : rman'.Full = rman.Full := by
    funext nsindex
    rw [Rmanstate.Full, Rmanstate.Full, hranks, hdist]
  constructor
  · rw [hranks, hdist]
    exact h.le
  · rw [hns, hdist]
    exact h.counted
  · rw [hns, hfull]
    exact h.tallied
  · rw [hns]
    constructor
    · rw [hreport]
      exact h.summed.walkreport
    · rw [hsummary]
      exact h.summed.logsummary
  · rw [hns, hranks]
    exact h.ordered

theorem issued_of_ne (h : Recorded rman events) (i : Nat) (request : WorkRequest) (htype : request.type ≠ .ns)
    (hend : request.type = .terminate → ∀ nsindex < rman.nscount, rman.Full nsindex) :
    Recorded rman (.issued i request :: events) := by
  refine ⟨h.le, h.counted.issued_of_ne htype, h.tallied.issued_of_ne htype, h.summed.issued,
    h.ordered.cons ⟨fun hns => absurd hns htype, fun hterm nsindex hlt refdist hdist => ?_⟩⟩
  exact (h.counted.mem _).2 ⟨hlt, hdist.trans_le (hend hterm nsindex hlt)⟩

/-- A range is handed out. -/
theorem issued (h : Recorded rman events) (i : Nat) (request : WorkRequest) (htype : request.type = .ns)
    (hlt : request.nsindex < rman.nscount) (hdist : request.refdist = rman.distributed request.nsindex)
    (hundist : rman.distributed request.nsindex < rman.workingranks)
    (hcurr : currentNs i events = none ∨ currentNs i events = some request.nsindex) :
    Recorded (rman.distribute request.nsindex) (.issued i request :: events) := by
  have hfull (nsindex : Nat) (hfull : rman.Full nsindex) :
      (rman.distribute request.nsindex).Full nsindex := by
    refine le_trans hfull ?_
    dsimp only [Rmanstate.distribute]
    split <;> omega
  refine ⟨fun nsindex => ?_, h.counted.issued htype hlt hdist, ?_,
    ⟨h.summed.walkreport, h.summed.logsummary⟩, h.ordered.cons ⟨fun _ nsindex hns => ?_, ?_⟩⟩
  · have hle := h.le nsindex
    dsimp only [Rmanstate.distribute]
    split
    · next hsame =>
      subst hsame
      exact hundist
    · exact hle
  · exact (h.tallied.issued htype (Nat.not_le_of_lt hundist) hcurr).mono hfull
  · rcases hcurr with hnone | hsome
    · exact absurd (hnone.symm.trans hns) (by simp)
    · exact Option.some.inj (hns.symm.trans hsome)
  · intro hterm
    rw [htype] at hterm
    cases hterm

theorem answered (h : Recorded rman events)
    (hstand : Stands rman.nscount rman.Full (currentNs i events) rank (.response response)) :
    Recorded (rman.noted response) (.answered i response :: events) := by
  have hkeep (htype : response.request.type = .complete →
      currentNs i events = none ∧ rman.nscount ≤ response.request.nsindex)
      (hnoted : rman.noted response = rman) :
      Recorded (rman.noted response) (.answered i response :: events) := by
    rw [hnoted]
    exact ⟨h.le, ⟨h.counted.mem, h.counted.nodup⟩, h.tallied.answered_of_ne htype,
      h.summed.answered_of_ne fun hcomp => (htype hcomp).2, h.ordered.cons trivial⟩
  have hoth {type : WorkType} (htype : response.request.type = type) (hne : type ≠ .complete) :
      Recorded (rman.noted response) (.answered i response :: events) := by
    refine hkeep (fun hcomp => ?_) (if_neg fun ⟨hcomp, _⟩ => ?_)
    · exact absurd (htype.symm.trans hcomp) hne
    · exact hne (htype.symm.trans hcomp)
  cases hstand with
  | begun running idle target =>
    exact hkeep (fun _ => ⟨idle, le_rfl⟩) (if_neg fun ⟨_, hne⟩ => hne rfl)
  | worked running type => exact hoth type nofun
  | ended type => exact hoth type nofun
  | completed running type lt held target all info ok =>
    have hnoted : rman.noted response = { incorporate rman response with
        nonfatalerror := rman.nonfatalerror || response.errorlog } := if_pos ⟨type, lt.ne⟩
    have hincorporate := h.summed.incorporate (i := i) type info
    have hfields : (incorporate rman response).workingranks = rman.workingranks ∧
        (incorporate rman response).nslist = rman.nslist ∧
        (incorporate rman response).distributed = rman.distributed := by
      rw [incorporate, if_pos info]
      exact ⟨rfl, rfl, rfl⟩
    have hafter : Recorded { rman with
        walkreport := (incorporate rman response).walkreport
        logsummary := (incorporate rman response).logsummary }
        (.answered i response :: events) :=
      ⟨h.le, ⟨h.counted.mem, h.counted.nodup⟩, h.tallied.answered type held all,
        ⟨hincorporate.walkreport, hincorporate.logsummary⟩, h.ordered.cons trivial⟩
    rw [hnoted]
    exact hafter.congr hfields.1 hfields.2.1 hfields.2.2 rfl rfl

end Recorded

theorem noted_frame (rman : Rmanstate) (response : WorkResponse) :
    (rman.noted response).nslist = rman.nslist ∧
      (rman.noted response).fatalerror = rman.fatalerror ∧
      (rman.noted response).terminatedworkers = rman.terminatedworkers := by
  unfold Rmanstate.noted incorporate
  split
  · split <;> exact ⟨rfl, rfl, rfl⟩
  · exact ⟨rfl, rfl, rfl⟩

/-! ## The invariant -/

/-- What holds in every state of a run. -/
structure Distributing (nslist : List ManagedNs) (workingranks : Nat) (workers : List Nat)
    (s : System) : Prop where
  nslist_eq : s.rman.nslist = nslist
  workingranks_eq : s.rman.workingranks = workingranks
  execprevroot : s.rman.execprevroot = false
  fatalerror : s.rman.fatalerror = false
  unrecorded : Unrecorded s.rman.oldlogs
  dropped : ∀ i, currentNs i s.events ≠ none → s.rman.oldlogs = none
  recorded : Recorded s.rman s.events
  stands : ∀ i, Stands s.rman.nscount s.rman.Full (currentNs i s.events) (s.ranks i) (s.mail i)
  terminated : ∀ i, s.rman.terminatedworkers i = true →
    s.mail i = .none ∧ ∀ nsindex < s.rman.nscount, s.rman.Full nsindex
  gone : ∀ i ∈ workers, s.mail i = .none → s.rman.terminatedworkers i = true

namespace Distributing

variable {nslist : List ManagedNs} {workingranks : Nat} {workers : List Nat} {s : System}

theorem start (nslist : List ManagedNs) (workingranks : Nat) (workers : List Nat)
    {oldlogs : Option (HashTable Loginfo)} (hold : Unrecorded oldlogs) :
    Distributing nslist workingranks workers
      (System.start (Rmanstate.start workingranks nslist oldlogs false) workers) := by
  refine ⟨rfl, rfl, rfl, rfl, hold, fun i hi => absurd rfl hi, ?_, fun i => ?_, nofun,
    fun i hi hmail => ?_⟩
  · refine ⟨fun _ => Nat.zero_le _, ⟨fun range => ?_, nodup_nil⟩, fun i nsindex _ => ?_,
      ⟨fun _ _ => rfl, fun _ _ => rfl⟩, fun event past hsuf => ?_⟩
    · constructor
      · exact nofun
      · exact fun ⟨_, hlt⟩ => absurd hlt (Nat.not_lt_zero _)
    · refine .inl ⟨rfl, ?_⟩
      rintro ⟨event, hmem, -⟩
      cases hmem
    · cases List.suffix_nil.1 hsuf
  · dsimp only [System.start]
    split
    · exact .begun rfl rfl rfl
    · exact .gone rfl
  · dsimp only [System.start] at hmail
    rw [if_pos hi] at hmail
    cases hmail

variable {i : Nat} {request : WorkRequest} {response : WorkResponse} {rman : Rmanstate}

theorem work (h : Distributing nslist workingranks workers s) {work : WorkResult}
    (hmail : s.mail i = .request request) (hok : work.ok = true) :
    Distributing nslist workingranks workers (s.work i request work) := by
  refine ⟨h.nslist_eq, h.workingranks_eq, h.execprevroot, h.fatalerror, h.unrecorded, h.dropped,
    h.recorded, fun j => ?_, fun j hj => ?_, fun j hj hnone => ?_⟩
  · dsimp only [System.work]
    by_cases hj : j = i
    · subst hj
      rw [if_pos rfl, if_pos rfl]
      have hstand := h.stands j
      rw [hmail] at hstand
      exact hstand.work hok
    · rw [if_neg hj, if_neg hj]
      exact h.stands j
  · obtain ⟨hnone, hall⟩ := h.terminated j hj
    refine ⟨?_, hall⟩
    have hne : j ≠ i := by
      rintro rfl
      rw [hmail] at hnone
      cases hnone
    dsimp only [System.work]
    rw [if_neg hne]
    exact hnone
  · dsimp only [System.work] at hnone
    by_cases hji : j = i
    · rw [if_pos hji] at hnone
      cases hnone
    · rw [if_neg hji] at hnone
      exact h.gone j hj hnone

theorem decision (h : Distributing nslist workingranks workers s) (identifier : List Char → Id)
    (hranks : 0 < workingranks) (hmail : s.mail i = .response response) :
    Decision s.rman i response s.request (s.handled identifier i response) := by
  have hstand := h.stands i
  rw [hmail] at hstand
  obtain ⟨hok, hanswer⟩ := hstand.answer
  refine handleresponse_decision (h.workingranks_eq ▸ hranks) h.fatalerror h.execprevroot hok ?_
  rcases hanswer with ⟨hcomp, -⟩ | ⟨hns, hlt, -, -, hcurr, -⟩ | ⟨hend, -⟩
  · exact .inl ⟨hcomp, h.unrecorded⟩
  · refine .inr (.inl ⟨hns, hlt, h.dropped i ?_⟩)
    rw [hcurr]
    exact nofun
  · exact .inr (.inr hend)

theorem next (h : Distributing nslist workingranks workers s) (hmail : s.mail i = .response response)
    (hnslist : rman.nslist = s.rman.nslist) (hranks : rman.workingranks = s.rman.workingranks)
    (hprev : rman.execprevroot = s.rman.execprevroot) (hfatal : rman.fatalerror = s.rman.fatalerror)
    (hterm : rman.terminatedworkers = s.rman.terminatedworkers) (hold : rman.oldlogs = none)
    (hfull : ∀ nsindex, s.rman.Full nsindex → rman.Full nsindex)
    (hrec : Recorded rman (.issued i request :: .answered i response :: s.events))
    (hstand : Stands s.rman.nscount rman.Full
      (currentNs i (.issued i request :: .answered i response :: s.events)) (s.ranks i)
      (.request request)) : Distributing nslist workingranks workers (s.sent rman i response request) := by
  have hns : rman.nscount = s.rman.nscount := congrArg List.length hnslist
  have hunrecorded : Unrecorded rman.oldlogs := by
    rw [hold]
    exact nofun
  refine ⟨hnslist.trans h.nslist_eq, hranks.trans h.workingranks_eq, hprev.trans h.execprevroot,
    hfatal.trans h.fatalerror, hunrecorded, fun _ _ => hold, hrec, fun j => ?_,
    fun j hj => ?_, fun j hj hnone => ?_⟩
  · dsimp only [System.sent]
    rw [hns]
    by_cases hj : j = i
    · subst hj
      rw [if_pos rfl]
      exact hstand
    · have hissued : (Event.issued i request).rank ≠ j := fun heq => hj heq.symm
      have hanswered : (Event.answered i response).rank ≠ j := fun heq => hj heq.symm
      rw [if_neg hj, currentNs_of_rank_ne hissued, currentNs_of_rank_ne hanswered]
      exact (h.stands j).mono hfull
  · dsimp only [System.sent] at hj ⊢
    rw [hterm] at hj
    obtain ⟨hnone, hall⟩ := h.terminated j hj
    have hne : j ≠ i := by
      rintro rfl
      rw [hmail] at hnone
      cases hnone
    rw [if_neg hne, hns]
    exact ⟨hnone, fun nsindex hlt => hfull _ (hall nsindex hlt)⟩
  · dsimp only [System.sent] at hnone ⊢
    rw [hterm]
    by_cases hji : j = i
    · rw [if_pos hji] at hnone
      cases hnone
    · rw [if_neg hji] at hnone
      exact h.gone j hj hnone

theorem sent (h : Distributing nslist workingranks workers s) (hmail : s.mail i = .response response)
    (hdec : Decision s.rman i response s.request (rman, .send request)) :
    Distributing nslist workingranks workers (s.sent rman i response request) := by
  have hstand := h.stands i
  rw [hmail] at hstand
  have hrec := h.recorded.answered hstand
  obtain ⟨-, hanswer⟩ := hstand.answer
  obtain ⟨hwork, hexec, -⟩ := noted_constants s.rman response
  have hdist := noted_distributed s.rman response
  have hnscount := noted_nscount s.rman response
  obtain ⟨hnslist, hfatal, hterm⟩ := noted_frame s.rman response
  have hfull : (s.rman.noted response).Full = s.rman.Full := by
    funext nsindex
    rw [Rmanstate.Full, Rmanstate.Full, hwork, hdist]
  cases hdec with
  | @range nsindex hlt hundist fits =>
    obtain ⟨hrun, htgt, hcurr⟩ : (s.ranks i).running = true ∧
        ((s.ranks i).target = none ∨ (s.ranks i).target = some nsindex) ∧
        (currentNs i (.answered i response :: s.events) = none ∨
          currentNs i (.answered i response :: s.events) = some nsindex) := by
      rcases hanswer with ⟨-, hrun, htgt, hnone⟩ |
        ⟨htype, -, hrun, htgt, -, hsome⟩ | ⟨htype, -⟩
      · exact ⟨hrun, .inl htgt, .inl hnone⟩
      · rcases fits with hcomp | ⟨-, rfl⟩
        · rw [htype] at hcomp
          cases hcomp
        · exact ⟨hrun, .inr htgt, .inr hsome⟩
      · rw [htype] at fits
        rcases fits with hcomp | ⟨hns, -⟩
        · cases hcomp
        · cases hns
    have hissued := hrec.issued i
      { type := .ns, nsindex := nsindex, refdist := s.rman.distributed nsindex, iteration := []
        ranknum := i } rfl (hnscount.symm ▸ hlt) (by rw [hdist])
      (by rw [hdist, hwork]; exact hundist) hcurr
    refine h.next hmail hnslist hwork hexec hfatal hterm rfl (fun n hn => ?_)
      (hissued.congr rfl rfl rfl rfl rfl)
      (.given hrun rfl hlt (currentNs_issued rfl) htgt)
    rw [← hfull] at hn
    refine le_trans hn ?_
    dsimp only [Rmanstate.distribute]
    split <;> omega
  | complete htype hall =>
    obtain ⟨hlt, hrun, htgt, hbef, hcurr⟩ :
        response.request.nsindex < s.rman.nscount ∧ (s.ranks i).running = true ∧
        (s.ranks i).target = some response.request.nsindex ∧
        currentNs i s.events = some response.request.nsindex ∧
        currentNs i (.answered i response :: s.events) = some response.request.nsindex := by
      rcases hanswer with ⟨hcomp, -⟩ | ⟨-, hns⟩ | ⟨hend, -⟩
      · rw [htype] at hcomp
        cases hcomp
      · exact hns
      · rw [htype] at hend
        cases hend
    have hnoted : s.rman.noted response = s.rman :=
      if_neg fun ⟨hcomp, _⟩ => by rw [htype] at hcomp; cases hcomp
    have hne : ({ response.request with type := .complete } : WorkRequest).type ≠ .ns := nofun
    have hold : s.rman.oldlogs = none := h.dropped i (by rw [hbef]; exact nofun)
    rw [hnoted] at hrec
    refine h.next hmail rfl rfl rfl rfl rfl hold (fun n hn => hn)
      (hrec.issued_of_ne i _ hne nofun) (.completing hrun rfl hlt ?_ htgt hall)
    rw [currentNs_issued_of_ne hne]
    exact hcurr
  | terminate htype hall =>
    obtain ⟨hrun, hidle⟩ : (s.ranks i).running = true ∧
        currentNs i (.answered i response :: s.events) = none := by
      rcases hanswer with ⟨-, hrun, -, hnone⟩ | ⟨hns, -⟩ | ⟨hend, -⟩
      · exact ⟨hrun, hnone⟩
      · rw [htype] at hns
        cases hns
      · rw [htype] at hend
        cases hend
    have hne : ({ s.request with type := .terminate } : WorkRequest).type ≠ .ns := nofun
    have hissued := hrec.issued_of_ne i { s.request with type := .terminate } hne
      fun _ n hn => by rw [hfull]; exact hall n (hnscount ▸ hn)
    refine h.next hmail hnslist hwork hexec hfatal hterm rfl (fun n hn => ?_)
      (hissued.congr rfl rfl rfl rfl rfl) (.ending hrun rfl ?_ fun n hn => ?_)
    · rw [← hfull] at hn
      exact hn
    · rw [currentNs_issued_of_ne hne]
      exact hidle
    · have := hall n hn
      rw [← Rmanstate.Full, ← hfull] at this
      exact this

/-- The manager lets a rank go. -/
theorem closed (h : Distributing nslist workingranks workers s) (hmail : s.mail i = .response response)
    (hdec : Decision s.rman i response s.request (rman, .quiet)) :
    Distributing nslist workingranks workers (s.closed rman i response) := by
  have hstand := h.stands i
  rw [hmail] at hstand
  have hrec := h.recorded.answered hstand
  obtain ⟨-, hanswer⟩ := hstand.answer
  cases hdec with
  | exit hend =>
    obtain ⟨hall, hidle⟩ : (∀ nsindex < s.rman.nscount, s.rman.Full nsindex) ∧
        currentNs i (.answered i response :: s.events) = none := by
      rcases hanswer with ⟨hcomp, -⟩ | ⟨hns, -⟩ | ⟨-, hall⟩
      · rw [hend] at hcomp
        cases hcomp
      · rw [hend] at hns
        cases hns
      · exact hall
    have hnoted : s.rman.noted response = s.rman :=
      if_neg fun ⟨hcomp, _⟩ => by rw [hend] at hcomp; cases hcomp
    have hkeep (j : Nat) : currentNs j (.answered i response :: s.events) = currentNs j s.events :=
      currentNs_answered_of_ne fun hcomp => by rw [hend] at hcomp; cases hcomp
    rw [hnoted] at hrec
    refine ⟨h.nslist_eq, h.workingranks_eq, h.execprevroot, h.fatalerror, h.unrecorded,
      fun j hj => h.dropped j ?_, hrec.congr rfl rfl rfl rfl rfl, fun j => ?_,
      fun j hj => ?_, fun j hj hnone => ?_⟩
    · rw [← hkeep j]
      exact hj
    · dsimp only [System.closed]
      by_cases hj : j = i
      · subst hj
        rw [if_pos rfl]
        exact .gone hidle
      · rw [if_neg hj, hkeep j]
        exact h.stands j
    · dsimp only [System.closed] at hj ⊢
      refine ⟨?_, hall⟩
      by_cases hji : j = i
      · rw [if_pos hji]
      · rw [if_neg hji]
        dsimp only [Rmanstate.exited] at hj
        rw [if_neg hji] at hj
        exact (h.terminated j hj).1
    · dsimp only [System.closed, Rmanstate.exited] at hnone ⊢
      by_cases hji : j = i
      · rw [if_pos hji]
      · rw [if_neg hji] at hnone ⊢
        exact h.gone j hj hnone

theorem step (h : Distributing nslist workingranks workers s) {identifier : List Char → Id}
    (hranks : 0 < workingranks) {s' : System} (hstep : System.Step identifier s s') :
    Distributing nslist workingranks workers s' := by
  cases hstep with
  | work hmail _ hok => exact h.work hmail hok
  | @sent i response request hmail hhand =>
    have hdec := h.decision identifier hranks hmail
    rw [show s.handled identifier i response = ((s.handled identifier i response).1, .send request)
      from Prod.ext rfl hhand] at hdec
    exact h.sent hmail hdec
  | @closed i response hmail hhand =>
    have hdec := h.decision identifier hranks hmail
    rw [show s.handled identifier i response = ((s.handled identifier i response).1, .quiet)
      from Prod.ext rfl hhand] at hdec
    exact h.closed hmail hdec

theorem progress (h : Distributing nslist workingranks workers s) (identifier : List Char → Id)
    (hranks : 0 < workingranks) (hi : i ∈ workers) (hnot : s.rman.terminatedworkers i ≠ true) :
    ∃ s', System.Step identifier s s' := by
  cases hmail : s.mail i with
  | none => exact absurd (h.gone i hi hmail) hnot
  | request request =>
    have hstand := h.stands i
    rw [hmail] at hstand
    have hrun : (s.ranks i).running = true := by
      cases hstand <;> assumption
    have hok : ({ ok := true, report := {}, summary := {}, errorlog := false } : WorkResult).ok = true := rfl
    exact ⟨_, .work hmail hrun hok⟩
  | response response =>
    have hdec := h.decision identifier hranks hmail
    cases hhand : (s.handled identifier i response).2 with
    | send request => exact ⟨_, .sent hmail hhand⟩
    | quiet => exact ⟨_, .closed hmail hhand⟩
    | failed =>
      generalize s.handled identifier i response = result at hdec hhand
      cases hdec <;> cases hhand

end Distributing

/-! ## The result -/

theorem count_reports (i nsindex : Nat) (events : List Event) :
    ((reports nsindex events).map Prod.fst).count i = completions i nsindex events := by
  induction events with
  | nil => rfl
  | cons event past ih =>
    cases event with
    | issued j request =>
      rw [completions_issued, ← ih]
      rfl
    | answered j response =>
      by_cases hcomp : response.request.type = .complete ∧
          response.request.nsindex = nsindex
      · have hreports : reports nsindex (.answered j response :: past) =
            (j, response) :: reports nsindex past :=
          filterMap_cons_some (if_pos hcomp)
        obtain ⟨htype, rfl⟩ := hcomp
        rw [hreports, map_cons, count_cons, ih]
        by_cases hj : j = i
        · subst hj
          rw [completions_completed htype, if_pos (beq_self_eq_true j)]
        · rw [completions_answered fun h => absurd h hj, if_neg (by simpa using hj), Nat.add_zero]
      · rw [Summed.reports_of_ne fun htype hns => hcomp ⟨htype, hns⟩, ih,
          completions_answered fun _ htype hns => hcomp ⟨htype, hns⟩]

def System.Finished (workers : List Nat) (s : System) : Prop :=
  ∀ i ∈ workers, s.rman.terminatedworkers i = true

/-- What a run makes of the namespaces. -/
structure NamespaceWork (nslist : List ManagedNs) (workingranks : Nat) (workers : List Nat)
    (s : System) : Prop where
  /-- no range is handed out twice -/
  nodup : (handedOut s.events).Nodup
  mem : ∀ range ∈ handedOut s.events, range.1 < nslist.length ∧ range.2 < workingranks
  /-- all are, at the end -/
  finished : workers ≠ [] → s.Finished workers → ∀ nsindex < nslist.length,
    ∀ refdist < workingranks, (nsindex, refdist) ∈ handedOut s.events
  ordered : Ordered nslist.length workingranks s.events
  /-- the totals are the sums of the reports -/
  walkreport : ∀ nsindex < nslist.length, s.rman.walkreport nsindex =
    (reports nsindex s.events).foldr (fun entry total => total.add entry.2.report) {}
  logsummary : ∀ nsindex < nslist.length, s.rman.logsummary nsindex =
    (reports nsindex s.events).foldr (fun entry total => total.add entry.2.summary) {}
  /-- each rank that worked on a namespace reports once -/
  reporters : ∀ nsindex < nslist.length, ((reports nsindex s.events).map Prod.fst).Nodup ∧
    ∀ i ∈ (reports nsindex s.events).map Prod.fst, Worked i nsindex s.events
  reported : s.Finished workers → ∀ nsindex < nslist.length, ∀ i ∈ workers,
    Worked i nsindex s.events → i ∈ (reports nsindex s.events).map Prod.fst

theorem Distributing.namespaceWork {nslist : List ManagedNs} {workers : List Nat} {s : System}
    (h : Distributing nslist workingranks workers s) : NamespaceWork nslist workingranks workers s := by
  have hns : s.rman.nscount = nslist.length := congrArg List.length h.nslist_eq
  have hcnt := h.recorded.counted
  have htallied := h.recorded.tallied
  rw [hns] at hcnt htallied
  refine ⟨hcnt.nodup, fun range hmem => ?_, fun hworkers hfin nsindex hlt refdist hdist => ?_,
    ?_, ?_, ?_, fun nsindex hlt => ⟨?_, fun i hmem => ?_⟩, fun hfin nsindex hlt i hi hwork => ?_⟩
  · obtain ⟨hlt, hdist⟩ := (hcnt.mem range).1 hmem
    exact ⟨hlt, hdist.trans_le (h.workingranks_eq ▸ h.recorded.le range.1)⟩
  · obtain ⟨i, hi⟩ := exists_mem_of_ne_nil workers hworkers
    have hall := (h.terminated i (hfin i hi)).2 nsindex (hns ▸ hlt)
    rw [Rmanstate.Full, h.workingranks_eq] at hall
    exact (hcnt.mem _).2 ⟨hlt, hdist.trans_le hall⟩
  · have hordered := h.recorded.ordered
    rw [hns, h.workingranks_eq] at hordered
    exact hordered
  · have hsummed := h.recorded.summed.walkreport
    rw [hns] at hsummed
    exact hsummed
  · have hsummed := h.recorded.summed.logsummary
    rw [hns] at hsummed
    exact hsummed
  · refine List.nodup_iff_count_le_one.2 fun i => ?_
    rw [count_reports]
    rcases htallied i nsindex hlt with ⟨hzero, -⟩ | ⟨hone, -⟩ <;> omega
  · have hpos := List.count_pos_iff.2 hmem
    rw [count_reports] at hpos
    rcases htallied i nsindex hlt with ⟨hzero, -⟩ | ⟨-, hwork, -⟩
    · omega
    · exact hwork
  · refine List.count_pos_iff.1 ?_
    rw [count_reports]
    rcases htallied i nsindex hlt with ⟨-, hworks⟩ | ⟨hone, -⟩
    · -- a rank that is gone works on nothing
      have hstand := h.stands i
      rw [(h.terminated i (hfin i hi)).1] at hstand
      cases hstand with
      | gone idle => exact absurd (idle.symm.trans (hworks hwork)) (by simp)
    · omega

/-- Namespace work is handed out once, in every run without fatal errors, old logs or a previous
root, and the ranges of a namespace partition its reference directories. -/
theorem namespaceWork_once (identifier : List Char → Id) (nslist : List ManagedNs) (hranks : 0 < workingranks)
    (workers : List Nat) {oldlogs : Option (HashTable Loginfo)} (hold : Unrecorded oldlogs) {s : System}
    (hs : System.Reached identifier
      (System.start (Rmanstate.start workingranks nslist oldlogs false) workers) s) :
    NamespaceWork nslist workingranks workers s ∧
      (¬s.Finished workers → ∃ s', System.Step identifier s s') ∧
      ∀ ns ∈ nslist,
        (∀ x < ns.refnodecount, ∃! refdist, refdist < workingranks ∧
          (getNSrange ns.refnodecount workingranks refdist).1 ≤ x ∧
          x < (getNSrange ns.refnodecount workingranks refdist).2) ∧
        ∀ refdist < workingranks,
          (getNSrange ns.refnodecount workingranks refdist).2 ≤ ns.refnodecount := by
  have hinv : Distributing nslist workingranks workers s :=
    hs.invariant (Distributing.start nslist workingranks workers hold)
      fun _ _ h hstep => h.step hranks hstep
  refine ⟨hinv.namespaceWork, fun hnot => ?_, fun ns _ => ⟨fun x hx => ?_, fun refdist hdist => ?_⟩⟩
  · obtain ⟨i, hi⟩ := not_forall.1 hnot
    obtain ⟨hmem, hrunning⟩ := Classical.not_imp.1 hi
    exact hinv.progress identifier hranks hmem hrunning
  · exact getNSrange_partition hranks hx
  · exact getNSrange_refmax hdist

def sampleRanks : System :=
  System.start (Rmanstate.start 1 [{ idstr := ['a'], refnodecount := 2 }] none false) [1]

def sampleWorkResult : WorkResult :=
  { ok := true, report := { rpckfiles := 3 }, summary := {}, errorlog := false }

theorem sampleRanks_finish : ∃ s, System.Reached (fun _ => ⟨0, 0⟩) sampleRanks s ∧ s.Finished [1] ∧
    (s.rman.walkreport 0).rpckfiles = 3 := by
  have h0 : System.Reached (fun _ => ⟨0, 0⟩) sampleRanks sampleRanks := .refl
  have h1 := h0.tail (.sent (i := 1) rfl rfl)
  have h2 := h1.tail (.work (i := 1) rfl rfl (rfl : sampleWorkResult.ok = true))
  have h3 := h2.tail (.sent (i := 1) rfl rfl)
  have h4 := h3.tail (.work (i := 1) rfl rfl (rfl : sampleWorkResult.ok = true))
  have h5 := h4.tail (.sent (i := 1) rfl rfl)
  have h6 := h5.tail (.work (i := 1) rfl rfl (rfl : sampleWorkResult.ok = true))
  have h7 := h6.tail (.closed (i := 1) rfl rfl)
  refine ⟨_, h7, ?_, rfl⟩
  intro i hi
  obtain rfl := List.mem_singleton.1 hi
  rfl

theorem sampleRanks_once : ∃ s, s.Finished [1] ∧
    NamespaceWork [{ idstr := ['a'], refnodecount := 2 }] 1 [1] s := by
  obtain ⟨s, hs, hfinished, -⟩ := sampleRanks_finish
  have hunrecorded : Unrecorded none := nofun
  exact ⟨s, hfinished, (namespaceWork_once (fun _ => ⟨0, 0⟩) [{ idstr := ['a'], refnodecount := 2 }]
    Nat.one_pos [1] hunrecorded hs).1⟩

end Marfs.Rman
