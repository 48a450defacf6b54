import Marfs.Rman.Deleteref
import Marfs.Rman.WalkRun

/-!
# Executing what a walk dispatches

A caller executes every chain a walk dispatches.  `Completes` relates a walker and the references as
executed so far to the walker that reached the end and the final references, one constructor for
each way a turn can go on.  It agrees with repeated calls of `process_iteratestreamwalker`
(`completes_of_calls`, `Completes.calls`), so that a statement about whole runs is proved by
induction on it (`Completes.done`).
-/

namespace Marfs.Rman

open Tagging

variable {objtarget : Ftag → Option NeLocation} {refs : Refs}

@[simp] theorem executeChain_nil (refs : Refs) : executeChain refs [] = some refs := rfl

/-- The walker after the caller took its ops. -/
def Streamwalker.cleared (walker : Streamwalker) : Streamwalker :=
  { walker with gcops := [], rbldops := [] }

/-- A walk from `walker` reaches the end of its stream, and executing what it dispatches takes the
references from `done` to `done'`. -/
inductive Completes (objtarget : Ftag → Option NeLocation) (refs : Refs) :
    Streamwalker → Refs → Streamwalker → Refs → Prop
  | again {walker walker₁ walker' done done'}
      (hstep : walker.iterateStep objtarget refs = .again walker₁)
      (h : Completes objtarget refs walker₁ done walker' done') :
      Completes objtarget refs walker done walker' done'
  | dispatched {walker walker₁ walker' gcops rbldops done done₁ done'}
      (hstep : walker.iterateStep objtarget refs = .dispatched walker₁ gcops rbldops)
      (hexec : executeChain done gcops = some done₁)
      (h : Completes objtarget refs walker₁ done₁ walker' done') :
      Completes objtarget refs walker done walker' done'
  | left {walker walker₁ walker' done done₁ done'}
      (hstep : walker.iterateStep objtarget refs = .left walker₁)
      (hops : ¬ (walker₁.gcops = [] ∧ walker₁.rbldops = []))
      (hexec : executeChain done walker₁.gcops = some done₁)
      (h : Completes objtarget refs walker₁.cleared done₁ walker' done') :
      Completes objtarget refs walker done walker' done'
  | complete {walker walker' done}
      (hstep : walker.iterateStep objtarget refs = .left walker')
      (hops : walker'.gcops = [] ∧ walker'.rbldops = []) :
      Completes objtarget refs walker done walker' done

/-! ## Agreement with repeated calls -/

variable {walker walker' walker₁ : Streamwalker} {done' done : Refs}

theorem completes_of_loop_complete (fuel : Nat) (done : Refs)
    (h : iterateLoop objtarget refs fuel walker = .complete walker') :
    Completes objtarget refs walker done walker' done := by
  refine iterateLoop_complete (motive := fun walker => Completes objtarget refs walker done walker' done)
    (fun walker walker₁ hstep ih => ?_) (fun walker hstep hops => ?_) fuel h
  · exact .again hstep ih
  · exact .complete hstep hops

theorem completes_of_loop_dispatched (fuel : Nat) {gcops rbldops : List Opinfo} {done₁ : Refs}
    (h : iterateLoop objtarget refs fuel walker = .dispatched walker₁ gcops rbldops)
    (hexec : executeChain done gcops = some done₁)
    (hrest : Completes objtarget refs walker₁ done₁ walker' done') :
    Completes objtarget refs walker done walker' done' := by
  refine iterateLoop_dispatched
    (motive := fun walker => Completes objtarget refs walker done walker' done')
    (fun walker walker₁ hstep ih => ?_) (fun walker hstep => ?_)
    (fun walker walker₂ hstep hops hcleared hgcops _ => ?_) fuel h
  · exact .again hstep ih
  · exact .dispatched hstep hexec hrest
  · subst hcleared hgcops
    exact .left hstep hops hexec hrest

theorem completes_of_calls (n : Nat) (h : (iterateCalls objtarget refs n walker).status = .complete walker')
    (hexec : executeChains done (iterateCalls objtarget refs n walker).gcops = some done') :
    Completes objtarget refs walker done walker' done' := by
  induction n generalizing walker done with
  | zero => cases h
  | succ n ih =>
    unfold iterateCalls at h hexec
    cases hcall : processIteratestreamwalker objtarget refs walker with
    | outOfFuel => rw [hcall] at h; cases h
    | failed => rw [hcall] at h; cases h
    | complete walker₁ =>
      rw [hcall] at h hexec
      obtain rfl := WalkStatus.complete.inj h
      obtain rfl := Option.some.inj hexec
      exact completes_of_loop_complete _ _ hcall
    | dispatched walker₁ gcops rbldops =>
      rw [hcall] at h hexec
      obtain ⟨done₁, hone, hrest⟩ := Option.bind_eq_some_iff.1 hexec
      exact completes_of_loop_dispatched _ hcall hone (ih h hrest)

theorem iterateLoop_succ (fuel : Nat) (h : iterateLoop objtarget refs fuel walker ≠ .outOfFuel) :
    iterateLoop objtarget refs (fuel + 1) walker = iterateLoop objtarget refs fuel walker := by
  induction fuel generalizing walker with
  | zero => exact absurd rfl h
  | succ fuel ih =>
    unfold iterateLoop at h ⊢
    cases hstep : walker.iterateStep objtarget refs with
    | again walker₁ =>
      rw [hstep] at h
      exact ih h
    | failed => rfl
    | left walker₁ => rfl
    | dispatched walker₁ gcops rbldops => rfl

theorem iterateCalls_again {gcthresh : Int} (hgc : gcthresh ≠ 0) (n : Nat) (hat : walker₁.AtFile gcthresh)
    (hstep : walker.iterateStep objtarget refs = .again walker₁) :
    iterateCalls objtarget refs (n + 1) walker = iterateCalls objtarget refs (n + 1) walker₁ := by
  have hloop : processIteratestreamwalker objtarget refs walker =
      iterateLoop objtarget refs (2 * refs.length + 1) walker₁ := by
    unfold processIteratestreamwalker
    rw [iterateLoop, hstep]
  have hsame : processIteratestreamwalker objtarget refs walker =
      processIteratestreamwalker objtarget refs walker₁ :=
    hloop.trans (iterateLoop_succ _
      (iterateLoop_adequate hgc _ hat (by omega) (by omega))).symm
  rw [iterateCalls, iterateCalls, hsame]

theorem process_of_dispatched {gcops rbldops : List Opinfo}
    (hstep : walker.iterateStep objtarget refs = .dispatched walker₁ gcops rbldops) :
    processIteratestreamwalker objtarget refs walker = .dispatched walker₁ gcops rbldops := by
  unfold processIteratestreamwalker
  rw [iterateLoop, hstep]

/-- A call whose first turn leaves the loop returns. -/
theorem process_of_left (hstep : walker.iterateStep objtarget refs = .left walker₁) :
    processIteratestreamwalker objtarget refs walker = walker₁.dispatchRemaining := by
  unfold processIteratestreamwalker
  rw [iterateLoop, hstep]

theorem Completes.calls {gcthresh : Int} (hgc : gcthresh ≠ 0)
    (h : Completes objtarget refs walker done walker' done') (hat : walker.AtFile gcthresh) :
    ∃ n, (iterateCalls objtarget refs (n + 1) walker).status = .complete walker' ∧
      executeChains done (iterateCalls objtarget refs (n + 1) walker).gcops = some done' := by
  induction h with
  | again hstep h ih =>
    have hcases := hat.cases objtarget refs hgc
    rw [hstep] at hcases
    have hat₁ := hat.visit hgc hcases
    obtain ⟨n, hstat, hexec⟩ := ih hat₁
    exact ⟨n, by rw [iterateCalls_again hgc n hat₁ hstep]; exact ⟨hstat, hexec⟩⟩
  | dispatched hstep hone h ih =>
    have hcases := hat.cases objtarget refs hgc
    rw [hstep] at hcases
    obtain ⟨n, hstat, hexec⟩ := ih (hat.visit hgc hcases)
    refine ⟨n + 1, ?_⟩
    rw [iterateCalls, process_of_dispatched hstep]
    exact ⟨hstat, by rw [executeChains, hone]; exact hexec⟩
  | @left walker walker₁ _ _ _ _ hstep hops hone h ih =>
    have hcases := hat.cases objtarget refs hgc
    rw [hstep] at hcases
    obtain ⟨n, hstat, hexec⟩ := ih (hat.leave hcases)
    refine ⟨n + 1, ?_⟩
    rw [iterateCalls, process_of_left hstep, Streamwalker.dispatchRemaining, if_neg hops]
    exact ⟨hstat, by rw [executeChains, hone]; exact hexec⟩
  | complete hstep hops =>
    refine ⟨0, ?_⟩
    rw [iterateCalls, process_of_left hstep, Streamwalker.dispatchRemaining, if_pos hops]
    exact ⟨rfl, rfl⟩

/-! ## Induction over a complete walk -/

/-- The proof obligations for what complete walks do: visits keep an invariant of the walker and the
references executed so far, and leaving the loop establishes the result. -/
structure ExecInvariant (objtarget : Ftag → Option NeLocation) (refs : Refs) (gcthresh : Int)
    (Inv : Streamwalker → Refs → Prop) (Result : Refs → Prop) : Prop where
  visit : ∀ {walker walker' gcops rbldops done done'}, walker.AtFile gcthresh → Inv walker done →
    Streamwalker.VisitStep objtarget refs walker walker' gcops rbldops →
    executeChain done gcops = some done' → Inv walker' done'
  leave : ∀ {walker walker' done done'}, walker.AtFile gcthresh → Inv walker done →
    Streamwalker.LeaveStep refs walker walker' →
    executeChain done walker'.gcops = some done' → Inv walker'.cleared done' ∧ Result done'

theorem Completes.result {gcthresh : Int} (hgc : gcthresh ≠ 0) {Inv : Streamwalker → Refs → Prop}
    {Result : Refs → Prop} (hinv : ExecInvariant objtarget refs gcthresh Inv Result)
    (h : Completes objtarget refs walker done walker' done') (hat : walker.AtFile gcthresh)
    (hw : Inv walker done) : Result done' := by
  induction h with
  | again hstep h ih =>
    have hcases := hat.cases objtarget refs hgc
    rw [hstep] at hcases
    exact ih (hat.visit hgc hcases) (hinv.visit hat hw hcases rfl)
  | dispatched hstep hone h ih =>
    have hcases := hat.cases objtarget refs hgc
    rw [hstep] at hcases
    exact ih (hat.visit hgc hcases) (hinv.visit hat hw hcases hone)
  | left hstep hops hone h ih =>
    have hcases := hat.cases objtarget refs hgc
    rw [hstep] at hcases
    exact ih (hat.leave hcases) (hinv.leave hat hw hcases hone).1
  | complete hstep hops =>
    have hcases := hat.cases objtarget refs hgc
    rw [hstep] at hcases
    exact (hinv.leave hat hw hcases (by rw [hops.1]; rfl)).2

theorem completes_of_walkStream {thresh : Thresholds} {rebuildloc : Option NeLocation} {n : Nat}
    (h : (walkStream objtarget refs thresh rebuildloc n).status = .complete walker')
    (hexec : executeChains refs (walkStream objtarget refs thresh rebuildloc n).gcops =
      some done') :
    ∃ walker, processOpenstreamwalker objtarget refs thresh rebuildloc = .opened walker ∧
      Completes objtarget refs walker refs walker' done' := by
  obtain ⟨walker, hopen, hwalk⟩ := walkStream_complete h
  rw [hwalk] at h hexec
  exact ⟨walker, hopen, completes_of_calls n h hexec⟩

end Marfs.Rman
