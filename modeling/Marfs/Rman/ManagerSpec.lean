import Marfs.Rman.Manager

/-!
# Namespace work is handed out once

The manager hands out the reference ranges of each namespace in order, so what it has handed out is
what `distributed` counts.  A rank gets work of another namespace only when it has completed the one
before; by then that namespace has no ranges left, so a rank completes a namespace once at most, and
the totals of a namespace are the sums of what its ranks reported.
-/

namespace Marfs.Rman

open Hash

/-! ## Reference ranges -/

section Range

variable {refnodecount workingranks : Nat}

theorem getNSrange_zero : (getNSrange refnodecount workingranks 0).1 = 0 := by
  simp [getNSrange]

/-- A range begins where the one before it ends. -/
theorem getNSrange_succ (refdist : Nat) : (getNSrange refnodecount workingranks (refdist + 1)).1 =
    (getNSrange refnodecount workingranks refdist).2 := by
  simp only [getNSrange]
  generalize refnodecount / workingranks = refperrank
  rw [Nat.add_mul, Nat.one_mul]
  split_ifs <;> omega

theorem getNSrange_le (refdist : Nat) : (getNSrange refnodecount workingranks refdist).1 ≤
    (getNSrange refnodecount workingranks refdist).2 := by
  simp only [getNSrange]
  generalize refnodecount / workingranks = refperrank
  omega

theorem getNSrange_last (h : 0 < workingranks) :
    (getNSrange refnodecount workingranks (workingranks - 1)).2 = refnodecount := by
  obtain ⟨k, rfl⟩ : ∃ k, workingranks = k + 1 := ⟨workingranks - 1, by omega⟩
  have hdiv := Nat.div_add_mod refnodecount (k + 1)
  have hmod := Nat.mod_lt refnodecount h
  rw [Nat.add_mul, Nat.one_mul] at hdiv
  simp only [getNSrange, Nat.add_sub_cancel]
  generalize refnodecount / (k + 1) = refperrank at hdiv ⊢
  split_ifs <;> omega

theorem getNSrange_mono {d d' : Nat} (h : d < d') : (getNSrange refnodecount workingranks d).2 ≤
    (getNSrange refnodecount workingranks d').1 := by
  induction d' with
  | zero => exact absurd h (Nat.not_lt_zero d)
  | succ d' ih =>
    rw [getNSrange_succ]
    rcases Nat.lt_succ_iff_lt_or_eq.1 h with hlt | rfl
    · exact (ih hlt).trans (getNSrange_le d')
    · exact le_rfl

/-- No range reaches beyond the last directory. -/
theorem getNSrange_refmax {refdist : Nat} (h : refdist < workingranks) :
    (getNSrange refnodecount workingranks refdist).2 ≤ refnodecount := by
  have hlast : (getNSrange refnodecount workingranks (workingranks - 1)).2 = refnodecount :=
    getNSrange_last (Nat.zero_lt_of_lt h)
  rcases Nat.lt_or_ge refdist (workingranks - 1) with hlt | hge
  · exact (getNSrange_mono hlt).trans ((getNSrange_le _).trans hlast.le)
  · rw [Nat.le_antisymm (Nat.le_sub_one_of_lt h) hge]
    exact hlast.le

theorem getNSrange_partition (h : 0 < workingranks) {x : Nat} (hx : x < refnodecount) :
    ∃! refdist, refdist < workingranks ∧ (getNSrange refnodecount workingranks refdist).1 ≤ x ∧
      x < (getNSrange refnodecount workingranks refdist).2 := by
  -- the first range that ends behind the directory
  have hex : ∃ refdist, x < (getNSrange refnodecount workingranks refdist).2 :=
    ⟨workingranks - 1, by rw [getNSrange_last h]; exact hx⟩
  have hfound := Nat.find_spec hex
  have hle := Nat.find_min' hex (m := workingranks - 1) (by rw [getNSrange_last h]; exact hx)
  refine ⟨Nat.find hex, ⟨by omega, ?_, hfound⟩, fun d ⟨_, hmin, hmax⟩ => ?_⟩
  · cases hd : Nat.find hex with
    | zero => exact getNSrange_zero.le.trans (Nat.zero_le x)
    | succ d =>
      have hbef := Nat.find_min hex (by omega : d < Nat.find hex)
      rw [getNSrange_succ]
      exact Nat.le_of_not_lt hbef
  · rcases Nat.lt_trichotomy d (Nat.find hex) with hlt | heq | hgt
    · exact absurd hmax (Nat.find_min hex hlt)
    · exact heq
    · have hmono : (getNSrange refnodecount workingranks (Nat.find hex)).2 ≤
          (getNSrange refnodecount workingranks d).1 := getNSrange_mono hgt
      omega

end Range

/-! ## What has happened -/

def Event.range : Event → Option (Nat × Nat)
  | .issued _ request => if request.type = .ns then some (request.nsindex, request.refdist) else none
  | .answered _ _ => none

def Event.report (nsindex : Nat) : Event → Option (Nat × WorkResponse)
  | .issued _ _ => none
  | .answered i response =>
    if response.request.type = .complete ∧ response.request.nsindex = nsindex then
      some (i, response)
    else none

def Event.IsWork (i nsindex : Nat) : Event → Prop
  | .issued j request => j = i ∧ request.type = .ns ∧ request.nsindex = nsindex
  | .answered _ _ => False

def Event.isCompletion (i nsindex : Nat) : Event → Bool
  | .issued _ _ => false
  | .answered j response =>
    decide (j = i ∧ response.request.type = .complete ∧ response.request.nsindex = nsindex)

def handedOut (events : List Event) : List (Nat × Nat) := events.filterMap Event.range

/-- What the ranks that have completed a namespace reported, with the ranks. -/
def reports (nsindex : Nat) (events : List Event) : List (Nat × WorkResponse) :=
  events.filterMap (Event.report nsindex)

def Worked (i nsindex : Nat) (events : List Event) : Prop :=
  ∃ event ∈ events, event.IsWork i nsindex

def completions (i nsindex : Nat) (events : List Event) : Nat :=
  events.countP (Event.isCompletion i nsindex)

/-- The namespace rank `i` has been given work of, and has not completed since. -/
def currentNs (i : Nat) : List Event → Option Nat
  | [] => none
  | .issued j request :: past =>
    if j = i ∧ request.type = .ns then some request.nsindex else currentNs i past
  | .answered j response :: past =>
    if j = i ∧ response.request.type = .complete ∧
        currentNs i past = some response.request.nsindex then none
    else currentNs i past

theorem worked_of_current {i nsindex : Nat} {events : List Event}
    (h : currentNs i events = some nsindex) : Worked i nsindex events := by
  induction events with
  | nil => cases h
  | cons event past ih =>
    cases event with
    | issued j request =>
      rw [currentNs] at h
      split at h
      · next hwork =>
        exact ⟨_, List.mem_cons_self, hwork.1, hwork.2, Option.some.inj h⟩
      · obtain ⟨event, hmem, hwork⟩ := ih h
        exact ⟨event, List.mem_cons_of_mem _ hmem, hwork⟩
    | answered j response =>
      rw [currentNs] at h
      split at h
      · cases h
      · obtain ⟨event, hmem, hwork⟩ := ih h
        exact ⟨event, List.mem_cons_of_mem _ hmem, hwork⟩

/-! ## What the manager decides -/

def Unrecorded (oldlogs : Option (HashTable Loginfo)) : Prop :=
  ∀ table, oldlogs = some table → ∀ node ∈ table.nodes,
    node.content.requests.take node.content.logcount = []

theorem takeRequest_of_unrecorded {table : HashTable Loginfo} (h : Unrecorded (some table))
    (nodenum : Nat) : takeRequest table nodenum = none := by
  refine Option.eq_none_iff_forall_ne_some.2 fun taken htaken => ?_
  obtain ⟨node, hnode, htaken⟩ := Option.bind_eq_some_iff.1 htaken
  have hnone := h table rfl node (List.mem_of_getElem? hnode)
  dsimp only at htaken
  split at htaken
  · cases htaken
  · next hcnt =>
    obtain ⟨request, hrequest, -⟩ := Option.bind_eq_some_iff.1 htaken
    have hlen := congrArg List.length hnone
    obtain ⟨hlt, -⟩ := List.getElem?_eq_some_iff.1 hrequest
    rw [List.length_take, List.length_nil] at hlen
    omega

theorem hashIterate_nodes (table : HashTable Loginfo) : (hashIterate table).2.nodes = table.nodes := by
  unfold hashIterate
  split <;> rfl

theorem searchOldlogs_of_unrecorded {table : HashTable Loginfo} (h : Unrecorded (some table))
    (fuel : Nat) (resnode : Option Nat) : searchOldlogs fuel table resnode = none := by
  induction fuel generalizing table resnode with
  | zero => rfl
  | succ fuel ih =>
    cases resnode with
    | none => rfl
    | some resnode =>
      rw [searchOldlogs, takeRequest_of_unrecorded h]
      refine ih (fun table' htable' => ?_) _
      obtain rfl := Option.some.inj htable'
      rw [hashIterate_nodes]
      exact h table rfl

/-- The manager's state with a range of a namespace handed out. -/
def Rmanstate.distribute (rman : Rmanstate) (nsindex : Nat) : Rmanstate :=
  { rman with
    distributed := fun n => if n = nsindex then rman.distributed n + 1 else rman.distributed n }

/-- The manager's state with what a rank has reported. -/
def Rmanstate.noted (rman : Rmanstate) (response : WorkResponse) : Rmanstate :=
  if response.request.type = .complete ∧ response.request.nsindex ≠ rman.nscount then
    { incorporate rman response with nonfatalerror := rman.nonfatalerror || response.errorlog }
  else rman

/-- What comes of a response in a run without old logs. -/
inductive Decision (rman : Rmanstate) (i : Nat) (response : WorkResponse) (request : WorkRequest) :
    Rmanstate × Handled → Prop
  | range {nsindex : Nat} (lt : nsindex < rman.nscount)
    (undistributed : rman.distributed nsindex < rman.workingranks)
    (fits : response.request.type = .complete ∨
      response.request.type = .ns ∧ nsindex = response.request.nsindex) :
    Decision rman i response request
      ({ (rman.noted response).distribute nsindex with oldlogs := none },
        .send
          { type := .ns, nsindex := nsindex, refdist := rman.distributed nsindex, iteration := []
            ranknum := i })
  | complete (type : response.request.type = .ns)
    (distributed : rman.workingranks ≤ rman.distributed response.request.nsindex) :
    Decision rman i response request (rman, .send { response.request with type := .complete })
  | terminate (type : response.request.type = .complete)
    (distributed : ∀ nsindex < rman.nscount, rman.workingranks ≤ rman.distributed nsindex) :
    Decision rman i response request
      ({ rman.noted response with oldlogs := none }, .send { request with type := .terminate })
  | exit (type : response.request.type = .terminate) :
    Decision rman i response request (rman.exited i, .quiet)

section Decide

variable {identifier : List Char → Id} {rman : Rmanstate} {i : Nat} {response : WorkResponse}
  {request : WorkRequest}

theorem findNs_eq_some {p : Nat → Bool} {nsindex : Nat} (h : rman.findNs p = some nsindex) :
    nsindex < rman.nscount ∧ p (rman.distributed nsindex) = true :=
  ⟨List.mem_range.1 (List.mem_of_find?_eq_some h),
    List.find?_some (p := fun nsindex => p (rman.distributed nsindex)) h⟩

theorem findNs_eq_none {p : Nat → Bool} (h : rman.findNs p = none) :
    ∀ nsindex < rman.nscount, p (rman.distributed nsindex) = false := by
  intro nsindex hlt
  have hnot := List.find?_eq_none.1 h nsindex (List.mem_range.2 hlt)
  simpa using hnot

theorem noted_distributed (rman : Rmanstate) (response : WorkResponse) :
    (rman.noted response).distributed = rman.distributed := by
  unfold Rmanstate.noted incorporate
  split
  · split <;> rfl
  · rfl

theorem noted_nscount (rman : Rmanstate) (response : WorkResponse) :
    (rman.noted response).nscount = rman.nscount := by
  unfold Rmanstate.noted incorporate
  split
  · split <;> rfl
  · rfl

theorem needRange_cases (rman : Rmanstate) (i : Nat) (request : WorkRequest)
    (hranks : 0 < rman.workingranks) (hprev : rman.execprevroot = false) :
    (∃ nsindex < rman.nscount, rman.distributed nsindex < rman.workingranks ∧
        needRange rman i request = handOut rman i nsindex) ∨
      (∀ nsindex < rman.nscount, rman.workingranks ≤ rman.distributed nsindex) ∧
        needRange rman i request = (rman, .send { request with type := .terminate }) := by
  unfold needRange
  rw [hprev, if_neg (by simp)]
  cases hzero : rman.findNs fun distributed => distributed = 0 with
  | some nsindex =>
    obtain ⟨hlt, hnone⟩ := findNs_eq_some hzero
    rw [decide_eq_true_eq] at hnone
    exact .inl ⟨nsindex, hlt, by omega, rfl⟩
  | none =>
    cases hrest : rman.findNs fun distributed => distributed < rman.workingranks with
    | some nsindex =>
      obtain ⟨hlt, hsome⟩ := findNs_eq_some hrest
      exact .inl ⟨nsindex, hlt, of_decide_eq_true hsome, rfl⟩
    | none =>
      refine .inr ⟨fun nsindex hlt => ?_, rfl⟩
      have hnot := findNs_eq_none hrest nsindex hlt
      exact Nat.le_of_not_lt (of_decide_eq_false hnot)

theorem needWork_of_unrecorded (rman : Rmanstate) (i : Nat) (request : WorkRequest)
    (hold : Unrecorded rman.oldlogs) :
    needWork rman i request = needRange { rman with oldlogs := none } i request := by
  unfold needWork
  cases htable : rman.oldlogs with
  | none =>
    dsimp only
    rw [← htable]
  | some table =>
    have hreset : Unrecorded (some (hashReset table)) := by
      intro table' htable'
      obtain rfl := Option.some.inj htable'
      exact hold table htable
    simp only [searchOldlogs_of_unrecorded hreset]

theorem completed_noted (htype : response.request.type = .complete) :
    completed true rman i response request = needWork (rman.noted response) i request := by
  by_cases hreal : response.request.nsindex = rman.nscount
  · have hnoted : rman.noted response = rman := if_neg fun ⟨_, h⟩ => h hreal
    rw [hnoted, completed, if_neg (not_not.2 hreal)]
  · have hnoted : rman.noted response = { incorporate rman response with
        nonfatalerror := rman.nonfatalerror || response.errorlog } := if_pos ⟨htype, hreal⟩
    have hsame : (incorporate rman response).nonfatalerror = rman.nonfatalerror := by
      unfold incorporate
      split <;> rfl
    rw [hnoted, completed, if_pos hreal]
    simp only [if_true, hsame]

theorem noted_constants (rman : Rmanstate) (response : WorkResponse) :
    (rman.noted response).workingranks = rman.workingranks ∧
      (rman.noted response).execprevroot = rman.execprevroot ∧
      (rman.noted response).oldlogs = rman.oldlogs := by
  unfold Rmanstate.noted incorporate
  split
  · split <;> exact ⟨rfl, rfl, rfl⟩
  · exact ⟨rfl, rfl, rfl⟩

theorem completed_decision (hranks : 0 < rman.workingranks) (hprev : rman.execprevroot = false)
    (hold : Unrecorded rman.oldlogs) (htype : response.request.type = .complete) :
    Decision rman i response request (completed true rman i response request) := by
  obtain ⟨hwork, hexec, hlogs⟩ := noted_constants rman response
  have hdist := noted_distributed rman response
  have hns := noted_nscount rman response
  have hcases := needRange_cases { rman.noted response with oldlogs := none } i request
    (hwork.symm ▸ hranks) (hexec.trans hprev)
  rw [completed_noted htype, needWork_of_unrecorded _ i request (by rw [hlogs]; exact hold)]
  rcases hcases with ⟨nsindex, hlt, hundist, heq⟩ | ⟨hall, heq⟩
  · have hrange : Decision rman i response request _ :=
      .range (hns ▸ hlt)
        (by rw [← hwork, ← hdist]; exact hundist) (.inl htype)
    rw [heq, handOut]
    rw [← hdist] at hrange
    exact hrange
  · rw [heq]
    refine .terminate htype fun nsindex hlt => ?_
    rw [← hwork, ← hdist]
    exact hall nsindex (hns.symm ▸ hlt)

/-- A rank that works on a namespace gets more of it, or is to complete it. -/
theorem continueRange_decision (hprev : rman.execprevroot = false) (hold : rman.oldlogs = none)
    (hns : response.request.nsindex < rman.nscount) (htype : response.request.type = .ns) :
    Decision rman i response request (continueRange rman i response) := by
  unfold continueRange
  rw [hprev, if_neg (by simp)]
  split
  · next hlt =>
    rw [handOut]
    have hnoted : rman.noted response = rman :=
      if_neg fun ⟨h, _⟩ => by rw [htype] at h; cases h
    have hrange : Decision rman i response request _ := .range hns hlt (.inr ⟨htype, rfl⟩)
    rw [hnoted, ← hold] at hrange
    exact hrange
  · next hge => exact .complete htype (Nat.le_of_not_lt hge)

theorem handleresponse_decision (hranks : 0 < rman.workingranks) (hfatal : rman.fatalerror = false)
    (hprev : rman.execprevroot = false) (hresponse : response.fatalerror = false)
    (htype : (response.request.type = .complete ∧ Unrecorded rman.oldlogs) ∨
      (response.request.type = .ns ∧ response.request.nsindex < rman.nscount ∧
        rman.oldlogs = none) ∨ response.request.type = .terminate) :
    Decision rman i response request
      (handleresponse identifier true rman i response request) := by
  unfold handleresponse
  rw [hresponse, hfatal, if_neg (by simp), if_neg (by simp)]
  rcases htype with ⟨hcomp, hold⟩ | ⟨hwork, hlt, hold⟩ | hend
  · rw [hcomp]
    exact completed_decision hranks hprev hold hcomp
  · rw [hwork]
    simp only [continueWork, hold]
    exact continueRange_decision hprev hold hlt hwork
  · rw [hend]
    exact .exit hend

end Decide

end Marfs.Rman
