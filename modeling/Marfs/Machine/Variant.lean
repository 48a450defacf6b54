import Mathlib.Logic.Relation

/-!
# Variants

A run whose steps all decrease a number of its states is no longer than that number is at its start,
and can be continued until no step is left.
-/

namespace Marfs.Machine

variable {σ : Type*}

/-- A run of so many steps. -/
inductive Steps (Step : σ → σ → Prop) (s : σ) : Nat → σ → Prop
  | refl : Steps Step s 0 s
  | tail {n : Nat} {s' s'' : σ} (run : Steps Step s n s') (step : Step s' s'') : Steps Step s (n + 1) s''

/-- The steps keep an invariant and decrease the variant. -/
structure Decreases (Step : σ → σ → Prop) (Inv : σ → Prop) (variant : σ → Nat) : Prop where
  keeps : ∀ {s s'}, Inv s → Step s s' → Inv s'
  lt : ∀ {s s'}, Inv s → Step s s' → variant s' < variant s

namespace Decreases

variable {Step : σ → σ → Prop} {Inv : σ → Prop} {variant : σ → Nat} {s s' : σ}

theorem steps (h : Decreases Step Inv variant) (hs : Inv s) {n : Nat} (hrun : Steps Step s n s') :
    Inv s' ∧ n + variant s' ≤ variant s := by
  induction hrun with
  | refl => exact ⟨hs, by omega⟩
  | tail _ hstep ih =>
    obtain ⟨hinv, hle⟩ := ih
    have hlt := h.lt hinv hstep
    exact ⟨h.keeps hinv hstep, by omega⟩

/-- From any state a run leads to one without a step. -/
theorem exists_end (h : Decreases Step Inv variant) (hs : Inv s) :
    ∃ s', Relation.ReflTransGen Step s s' ∧ Inv s' ∧ ∀ s'', ¬Step s' s'' := by
  induction hn : variant s using Nat.strongRecOn generalizing s with
  | _ n ih =>
    subst hn
    by_cases hend : ∃ s', Step s s'
    · obtain ⟨s₁, hstep⟩ := hend
      obtain ⟨s', hrun, hrest⟩ := ih _ (h.lt hs hstep) (h.keeps hs hstep) rfl
      exact ⟨s', .head hstep hrun, hrest⟩
    · exact ⟨s, .refl, hs, fun s' hstep => hend ⟨s', hstep⟩⟩

end Decreases

end Marfs.Machine
