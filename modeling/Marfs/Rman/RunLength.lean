import Mathlib.Algebra.BigOperators.Group.Finset.Basic
import Marfs.Machine.Variant
import Marfs.Rman.NamespaceWork

/-!
# The manager comes to an end

Each range that is handed out costs at most four messages, and each rank three more before it is let go.
So a run without fatal errors has so many steps at most (`namespaceWork_ends`), and it ends only when the
manager has let all ranks go.
-/

namespace Marfs.Rman

open Machine

/-! ## What is left to do -/

/-- How often the manager hears of a rank with such a request until the rank asks for another range. -/
def WorkType.weight : WorkType → Nat
  | .complete => 2
  | .terminate | .abort => 1
  | .rlog | .ns => 3

/-- The messages with a rank until then. -/
def Mail.weight : Mail → Nat
  | .request req => 2 * req.type.weight
  | .response resp => 2 * resp.request.type.weight - 1
  | .none => 0

def Rmanstate.undistributed (rman : Rmanstate) : Nat :=
  ∑ n ∈ Finset.range rman.nscount, (rman.workingranks - rman.distributed n)

def System.left (workers : List Nat) (s : System) : Nat :=
  4 * s.rman.undistributed + ∑ i ∈ workers.toFinset, (s.mail i).weight

theorem weight_work (rank : Rank) (request : WorkRequest) (work : WorkResult) :
    (Mail.response (handlerequest rank request work).2).weight + 1 = (Mail.request request).weight := by
  have hrequest : (handlerequest rank request work).2.request = request := by
    unfold handlerequest
    split
    · rfl
    · rfl
    · split <;> rfl
    · split <;> rfl
  have hpos : 0 < request.type.weight := by
    cases request.type <;> decide
  rw [Mail.weight, Mail.weight, hrequest]
  omega

/-- Only the mail of one rank changes. -/
theorem System.left_lt {workers : List Nat} {s s' : System} {i : Nat} (hi : i ∈ workers)
    (hkeep : ∀ j, j ≠ i → s'.mail j = s.mail j)
    (hlt : 4 * s'.rman.undistributed + (s'.mail i).weight <
      4 * s.rman.undistributed + (s.mail i).weight) : s'.left workers < s.left workers := by
  have hmem := List.mem_toFinset.2 hi
  rw [left, left, ← Finset.add_sum_erase _ _ hmem,
    ← Finset.add_sum_erase _ (fun j => (s.mail j).weight) hmem]
  have hrest : ∀ j ∈ workers.toFinset.erase i, (s'.mail j).weight = (s.mail j).weight :=
    fun j hj => by rw [hkeep j (Finset.ne_of_mem_erase hj)]
  rw [Finset.sum_congr rfl hrest]
  omega

section Left

variable {rman rman' : Rmanstate}

theorem undistributed_congr (hns : rman'.nscount = rman.nscount)
    (hranks : rman'.workingranks = rman.workingranks)
    (hdist : rman'.distributed = rman.distributed) : rman'.undistributed = rman.undistributed := by
  rw [Rmanstate.undistributed, Rmanstate.undistributed, hns, hranks, hdist]

theorem undistributed_distribute (rman : Rmanstate) {nsindex : Nat} (hlt : nsindex < rman.nscount)
    (hundist : rman.distributed nsindex < rman.workingranks) :
    (rman.distribute nsindex).undistributed + 1 = rman.undistributed := by
  have hmem : nsindex ∈ Finset.range rman.nscount := Finset.mem_range.2 hlt
  have hns : (rman.distribute nsindex).nscount = rman.nscount := rfl
  rw [Rmanstate.undistributed, Rmanstate.undistributed, hns, ← Finset.add_sum_erase _ _ hmem,
    ← Finset.add_sum_erase _ (fun n => rman.workingranks - rman.distributed n) hmem]
  have hrest : ∀ n ∈ (Finset.range rman.nscount).erase nsindex,
      (rman.distribute nsindex).workingranks - (rman.distribute nsindex).distributed n =
        rman.workingranks - rman.distributed n := fun n hn => by
    simp only [Rmanstate.distribute, if_neg (Finset.ne_of_mem_erase hn)]
  rw [Finset.sum_congr rfl hrest]
  simp only [Rmanstate.distribute, if_pos]
  omega

end Left

/-! ## Every step leaves less -/

structure Ending (nslist : List ManagedNs) (workingranks : Nat) (workers : List Nat) (s : System) : Prop
    extends Distributing nslist workingranks workers s where
  enlisted : ∀ i, s.mail i ≠ .none → i ∈ workers

section Ending

variable {nslist : List ManagedNs} {workingranks i : Nat} {workers : List Nat} {s s' : System}
  {identifier : List Char → Hash.Id}

/-- Who gets mail had some before. -/
theorem step_mail (hstep : System.Step identifier s s') :
    ∃ i, s.mail i ≠ .none ∧ ∀ j, j ≠ i → s'.mail j = s.mail j := by
  cases hstep with
  | @work i _ _ hmail => exact ⟨i, by simp [hmail], fun j hj => if_neg hj⟩
  | @sent i _ _ hmail => exact ⟨i, by simp [hmail], fun j hj => if_neg hj⟩
  | @closed i _ hmail => exact ⟨i, by simp [hmail], fun j hj => if_neg hj⟩

theorem Ending.step (h : Ending nslist workingranks workers s) (hranks : 0 < workingranks)
    (hstep : System.Step identifier s s') : Ending nslist workingranks workers s' := by
  refine ⟨h.toDistributing.step hranks hstep, fun j hj => ?_⟩
  obtain ⟨i, hi, hkeep⟩ := step_mail hstep
  by_cases hji : j = i
  · exact h.enlisted j (hji ▸ hi)
  · exact h.enlisted j (hkeep j hji ▸ hj)

theorem Ending.lt (h : Ending nslist workingranks workers s) (hranks : 0 < workingranks)
    (hstep : System.Step identifier s s') : s'.left workers < s.left workers := by
  cases hstep with
  | @work i request work hmail =>
    refine System.left_lt (h.enlisted i (by simp [hmail])) (fun j hj => if_neg hj) ?_
    have hnew : (s.work i request work).mail i =
        .response (handlerequest (s.ranks i) request work).2 := if_pos rfl
    have hsame : (s.work i request work).rman.undistributed = s.rman.undistributed := rfl
    have hweight := weight_work (s.ranks i) request work
    rw [hmail, hnew, hsame]
    omega
  | @sent i response request hmail hhand =>
    refine System.left_lt (h.enlisted i (by simp [hmail])) (fun j hj => if_neg hj) ?_
    have hnew : (s.sent (s.handled identifier i response).1 i response request).mail i =
        .request request := if_pos rfl
    have hdec := h.decision identifier hranks hmail
    rw [show s.handled identifier i response = ((s.handled identifier i response).1, .send request)
      from Prod.ext rfl hhand] at hdec
    have hns := noted_nscount s.rman response
    have hdist := noted_distributed s.rman response
    have hwork := (noted_constants s.rman response).1
    rw [hmail, hnew]
    change 4 * (s.handled identifier i response).1.undistributed + _ < _
    generalize (s.handled identifier i response).1 = rman at hdec ⊢
    cases hdec with
    | @range nsindex hlt hundist fits =>
      have hless := undistributed_distribute (s.rman.noted response)
        (by rw [hns]; exact hlt) (by rw [hdist, hwork]; exact hundist)
      rw [undistributed_congr hns hwork hdist] at hless
      have hleast : 3 ≤ (Mail.response response).weight := by
        rcases fits with htype | ⟨htype, -⟩
        · rw [Mail.weight, htype]
          decide
        · rw [Mail.weight, htype]
          decide
      change 4 * ((s.rman.noted response).distribute nsindex).undistributed + 6 < _
      omega
    | complete htype =>
      have hold : (Mail.response response).weight = 5 := by rw [Mail.weight, htype]; rfl
      change 4 * s.rman.undistributed + 4 < _
      omega
    | terminate htype =>
      have hold : (Mail.response response).weight = 3 := by rw [Mail.weight, htype]; rfl
      change 4 * (s.rman.noted response).undistributed + 2 < _
      rw [undistributed_congr hns hwork hdist]
      omega
  | @closed i response hmail hhand =>
    refine System.left_lt (h.enlisted i (by simp [hmail])) (fun j hj => if_neg hj) ?_
    have hnew : (s.closed (s.handled identifier i response).1 i response).mail i = .none := if_pos rfl
    have hdec := h.decision identifier hranks hmail
    rw [show s.handled identifier i response = ((s.handled identifier i response).1, .quiet)
      from Prod.ext rfl hhand] at hdec
    rw [hmail, hnew]
    change 4 * (s.handled identifier i response).1.undistributed + _ < _
    generalize (s.handled identifier i response).1 = rman at hdec ⊢
    cases hdec with
    | exit htype =>
      have hold : (Mail.response response).weight = 1 := by rw [Mail.weight, htype]; rfl
      change 4 * s.rman.undistributed + 0 < _
      omega

theorem decreases (hranks : 0 < workingranks) : Decreases (System.Step identifier)
    (Ending nslist workingranks workers) (System.left workers) :=
  ⟨fun h hstep => h.step hranks hstep, fun h hstep => h.lt hranks hstep⟩

theorem Ending.finished_iff (h : Ending nslist workingranks workers s) (hranks : 0 < workingranks) :
    s.Finished workers ↔ ∀ s', ¬System.Step identifier s s' := by
  constructor
  · intro hfin s' hstep
    have hnone (i : Nat) : s.mail i = .none := by
      by_contra hmail
      exact hmail (h.terminated i (hfin i (h.enlisted i hmail))).1
    obtain ⟨i, hi, -⟩ := step_mail hstep
    exact hi (hnone i)
  · intro hend i hi
    by_contra hnot
    obtain ⟨s', hstep⟩ := h.progress identifier hranks hi hnot
    exact hend s' hstep

end Ending

theorem Ending.start (nslist : List ManagedNs) (workingranks : Nat) (workers : List Nat)
    {oldlogs : Option (Hash.HashTable Loginfo)} (hold : Unrecorded oldlogs) :
    Ending nslist workingranks workers
      (System.start (Rmanstate.start workingranks nslist oldlogs false) workers) := by
  refine ⟨.start nslist workingranks workers hold, fun i hmail => ?_⟩
  by_contra hi
  exact hmail (if_neg hi)

theorem left_start (nslist : List ManagedNs) (workingranks : Nat) (workers : List Nat)
    (oldlogs : Option (Hash.HashTable Loginfo)) :
    (System.start (Rmanstate.start workingranks nslist oldlogs false) workers).left workers =
      4 * (nslist.length * workingranks) + 3 * workers.toFinset.card := by
  have hmail : ∀ i ∈ workers.toFinset,
      ((System.start (Rmanstate.start workingranks nslist oldlogs false) workers).mail i).weight = 3 := by
    intro i hi
    change (if i ∈ workers then Mail.response (startup _) else Mail.none).weight = 3
    rw [if_pos (List.mem_toFinset.1 hi)]
    rfl
  have hundist : (Rmanstate.start workingranks nslist oldlogs false).undistributed =
      nslist.length * workingranks := by
    rw [Rmanstate.undistributed]
    refine (Finset.sum_const_nat fun n _ => Nat.sub_zero workingranks).trans ?_
    rw [Finset.card_range]
    rfl
  rw [System.left, Finset.sum_const_nat hmail, Nat.mul_comm _ 3]
  change 4 * (Rmanstate.start workingranks nslist oldlogs false).undistributed + _ = _
  rw [hundist]

/-- Whatever the order in which the ranks respond, a run without fatal errors, old logs or a previous root
has at most four steps for every range and three for every rank.  It can go on exactly until the manager
has let all ranks go, and from any state it reaches that. -/
theorem namespaceWork_ends (identifier : List Char → Hash.Id) (nslist : List ManagedNs) {workingranks : Nat}
    (hranks : 0 < workingranks) (workers : List Nat) {oldlogs : Option (Hash.HashTable Loginfo)}
    (hold : Unrecorded oldlogs) {n : Nat} {s : System}
    (hs : Steps (System.Step identifier)
      (System.start (Rmanstate.start workingranks nslist oldlogs false) workers) n s) :
    n ≤ 4 * (nslist.length * workingranks) + 3 * workers.toFinset.card ∧
      (s.Finished workers ↔ ∀ s', ¬System.Step identifier s s') ∧
      ∃ s', System.Reached identifier s s' ∧ s'.Finished workers := by
  have hdec : Decreases (System.Step identifier) (Ending nslist workingranks workers)
      (System.left workers) := decreases hranks
  obtain ⟨hend, hle⟩ := hdec.steps (.start nslist workingranks workers hold) hs
  rw [left_start] at hle
  obtain ⟨s', hrun, hend', hstuck⟩ := hdec.exists_end hend
  exact ⟨by omega, hend.finished_iff hranks, s', hrun, (hend'.finished_iff hranks).2 hstuck⟩

theorem sampleRanks_ends : ∃ s, System.Reached (fun _ => ⟨0, 0⟩) sampleRanks s ∧ s.Finished [1] := by
  have hunrecorded : Unrecorded none := fun _ h => by cases h
  exact (namespaceWork_ends (fun _ => ⟨0, 0⟩) [{ idstr := ['a'], refnodecount := 2 }] Nat.one_pos [1]
    hunrecorded .refl).2.2

end Marfs.Rman
