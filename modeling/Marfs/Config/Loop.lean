import Marfs.Config.Traverse
import Mathlib.Logic.Relation
import Mathlib.Order.WellFounded

/-!
# Runs of a loop

A loop runs its body from state to state until it is done.  The body is a function, so all that a loop
reaches lies on one line, and it ends with at most one result.
-/

namespace Marfs.Config

namespace LoopStep

variable {σ ρ : Type} {step : σ → LoopStep σ ρ} {s s' s'' : σ} {r r' : ρ}

def Comes (holds : σ → Prop) (result : ρ → Prop) : LoopStep σ ρ → Prop
  | .next s => holds s
  | .done r => result r

def Reaches (step : σ → LoopStep σ ρ) : σ → σ → Prop :=
  Relation.ReflTransGen fun s s' => step s = .next s'

def Ends (step : σ → LoopStep σ ρ) (s : σ) (r : ρ) : Prop := ∃ s', Reaches step s s' ∧ step s' = .done r

def iterate (step : σ → LoopStep σ ρ) : Nat → σ → Option ρ
  | 0, _ => none
  | fuel + 1, s =>
    match step s with
    | .next s => iterate step fuel s
    | .done r => some r

theorem Reaches.linear (h : Reaches step s s') (h' : Reaches step s s'') :
    Reaches step s' s'' ∨ Reaches step s'' s' := by
  induction h using Relation.ReflTransGen.head_induction_on with
  | refl => exact Or.inl h'
  | head hfst htail ih =>
    rcases Relation.ReflTransGen.cases_head h' with rfl | ⟨mid, hmid, hrest⟩
    · exact Or.inr (Relation.ReflTransGen.head hfst htail)
    · obtain rfl := LoopStep.next.inj (hfst.symm.trans hmid)
      exact ih hrest

theorem Reaches.of_done (hdone : step s = .done r) (h : Reaches step s s') : s' = s := by
  rcases Relation.ReflTransGen.cases_head h with rfl | ⟨mid, hmid, -⟩
  · rfl
  · rw [hdone] at hmid
    cases hmid

theorem Ends.of_reaches (h : Reaches step s s') : Ends step s r ↔ Ends step s' r := by
  constructor
  · rintro ⟨s₀, hreach, hdone⟩
    rcases h.linear hreach with hforth | hback
    · exact ⟨s₀, hforth, hdone⟩
    · obtain rfl := hback.of_done hdone
      exact ⟨s', .refl, hdone⟩
  · rintro ⟨s₀, hreach, hdone⟩
    exact ⟨s₀, Relation.ReflTransGen.trans h hreach, hdone⟩

theorem Ends.of_next (h : step s = .next s') : Ends step s r ↔ Ends step s' r :=
  Ends.of_reaches (Relation.ReflTransGen.single h)

theorem Ends.of_done (h : step s = .done r') : Ends step s r ↔ r = r' := by
  constructor
  · rintro ⟨s₀, hreach, hdone⟩
    obtain rfl := hreach.of_done h
    exact LoopStep.done.inj (hdone.symm.trans h)
  · rintro rfl
    exact ⟨s, .refl, h⟩

theorem Ends.unique (h : Ends step s r) (h' : Ends step s r') : r = r' := by
  obtain ⟨s₀, hreach, hdone⟩ := h
  exact ((Ends.of_done hdone).1 ((Ends.of_reaches hreach).1 h')).symm

theorem Ends.of_iterate {fuel : Nat} (h : iterate step fuel s = some r) : Ends step s r := by
  induction fuel generalizing s with
  | zero => cases h
  | succ fuel ih =>
    rw [iterate] at h
    split at h
    · next hnext => exact (Ends.of_next hnext).2 (ih h)
    · next hdone => exact (Ends.of_done hdone).2 (Option.some.inj h).symm

theorem iterate_iff_ends : (∃ fuel, iterate step fuel s = some r) ↔ Ends step s r := by
  constructor
  · rintro ⟨fuel, h⟩
    exact Ends.of_iterate h
  · rintro ⟨s₀, hreach, hdone⟩
    induction hreach using Relation.ReflTransGen.head_induction_on with
    | refl => exact ⟨1, by rw [iterate, hdone]⟩
    | head hfst _ ih =>
      obtain ⟨fuel, h⟩ := ih
      exact ⟨fuel + 1, by rw [iterate, hfst]; exact h⟩

theorem iterate_invariant (holds : σ → Prop) (result : ρ → Prop)
    (hstep : ∀ s, holds s → (step s).Comes holds result)
    {fuel : Nat} (hs : holds s) (h : iterate step fuel s = some r) : result r := by
  induction fuel generalizing s with
  | zero => cases h
  | succ fuel ih =>
    have hpass := hstep s hs
    rw [iterate] at h
    split at h
    · next hnext =>
      rw [hnext] at hpass
      exact ih hpass h
    · next hdone =>
      rw [hdone] at hpass
      exact Option.some.inj h ▸ hpass

theorem ends_iff_acc : (∃ r, Ends step s r) ↔ Acc (fun s' s => step s = .next s') s := by
  constructor
  · rintro ⟨r, s₀, hreach, hdone⟩
    induction hreach using Relation.ReflTransGen.head_induction_on with
    | refl =>
      refine Acc.intro _ fun s' hnext => ?_
      rw [hdone] at hnext
      cases hnext
    | head hfst _ ih =>
      refine Acc.intro _ fun s' hnext => ?_
      obtain rfl := LoopStep.next.inj (hfst.symm.trans hnext)
      exact ih
  · intro hacc
    induction hacc with
    | intro s _ ih =>
      cases hstep : step s with
      | next s' =>
        obtain ⟨r, hends⟩ := ih s' hstep
        exact ⟨r, (Ends.of_next hstep).2 hends⟩
      | done r => exact ⟨r, (Ends.of_done hstep).2 rfl⟩

/-! ### Runs that end alike -/

/-- Two passes go on alike or end alike. -/
inductive Rel {σ ρ : Type} (states : σ → σ → Prop) (results : ρ → ρ → Prop) :
    LoopStep σ ρ → LoopStep σ ρ → Prop
  | next {state state' : σ} (same : states state state') : Rel states results (.next state) (.next state')
  | done {result result' : ρ} (same : results result result') :
    Rel states results (.done result) (.done result')

/-- Each of two runs ends with a result like the other's, or both go on for ever. -/
def EndAlike (alike : ρ → ρ → Prop) (step : σ → LoopStep σ ρ) (s s' : σ) : Prop :=
  (∀ r, Ends step s r → ∃ r', Ends step s' r' ∧ alike r r') ∧
    ∀ r', Ends step s' r' → ∃ r, Ends step s r ∧ alike r r'

section Alike

variable {alike : ρ → ρ → Prop}

theorem EndAlike.refl (hrefl : ∀ r, alike r r) (s : σ) : EndAlike alike step s s :=
  ⟨fun r h => ⟨r, h, hrefl r⟩, fun r h => ⟨r, h, hrefl r⟩⟩

theorem EndAlike.symm (hsymm : ∀ {r r'}, alike r r' → alike r' r) (h : EndAlike alike step s s') :
    EndAlike alike step s' s := by
  constructor
  · intro r hr
    obtain ⟨r', hr', halk⟩ := h.2 r hr
    exact ⟨r', hr', hsymm halk⟩
  · intro r hr
    obtain ⟨r', hr', halk⟩ := h.1 r hr
    exact ⟨r', hr', hsymm halk⟩

theorem EndAlike.trans (htrans : ∀ {r r' r''}, alike r r' → alike r' r'' → alike r r'')
    (h : EndAlike alike step s s') (h' : EndAlike alike step s' s'') : EndAlike alike step s s'' := by
  constructor
  · intro r hr
    obtain ⟨r', hr', halk⟩ := h.1 r hr
    obtain ⟨r'', hr'', halk'⟩ := h'.1 r' hr'
    exact ⟨r'', hr'', htrans halk halk'⟩
  · intro r hr
    obtain ⟨r', hr', halk'⟩ := h'.2 r hr
    obtain ⟨r'', hr'', halk⟩ := h.2 r' hr'
    exact ⟨r'', hr'', htrans halk halk'⟩

/-- Passes at the beginning of a run make no difference. -/
theorem EndAlike.reaches_left (h : Reaches step s s'') :
    EndAlike alike step s s' ↔ EndAlike alike step s'' s' := by
  unfold EndAlike
  simp only [Ends.of_reaches h]

theorem EndAlike.next_left (hstep : step s = .next s'') :
    EndAlike alike step s s' ↔ EndAlike alike step s'' s' :=
  EndAlike.reaches_left (Relation.ReflTransGen.single hstep)

theorem EndAlike.next_right (hstep : step s' = .next s'') :
    EndAlike alike step s s' ↔ EndAlike alike step s s'' := by
  unfold EndAlike
  simp only [Ends.of_next hstep]

theorem EndAlike.done (hstep : step s = .done r) (hstep' : step s' = .done r') (halk : alike r r') :
    EndAlike alike step s s' := by
  constructor
  · intro r₀ hr
    rw [(Ends.of_done hstep).1 hr]
    exact ⟨r', (Ends.of_done hstep').2 rfl, halk⟩
  · intro r₀ hr
    rw [(Ends.of_done hstep').1 hr]
    exact ⟨r, (Ends.of_done hstep).2 rfl, halk⟩

theorem Rel.swap {states : σ → σ → Prop} {pass pass' : LoopStep σ ρ} (h : Rel states alike pass pass') :
    Rel (fun s' s => states s s') (fun r' r => alike r r') pass' pass := by
  cases h with
  | next same => exact .next same
  | done same => exact .done same

theorem Ends.of_rel {related : σ → σ → Prop}
    (hpass : ∀ {s s'}, related s s' → Rel related alike (step s) (step s')) (h : related s s')
    (hends : Ends step s r) : ∃ r', Ends step s' r' ∧ alike r r' := by
  obtain ⟨s₀, hreach, hdone⟩ := hends
  induction hreach using Relation.ReflTransGen.head_induction_on generalizing s' with
  | refl =>
    have hrel := hpass h
    rw [hdone] at hrel
    generalize hstep' : step s' = pass' at hrel
    cases hrel with
    | done halk => exact ⟨_, (Ends.of_done hstep').2 rfl, halk⟩
  | head hfst _ ih =>
    have hrel := hpass h
    rw [hfst] at hrel
    generalize hstep' : step s' = pass' at hrel
    cases hrel with
    | next hrelated =>
      obtain ⟨r', hends, halk⟩ := ih hrelated
      exact ⟨r', (Ends.of_next hstep').2 hends, halk⟩

theorem endAlike_of_rel {related : σ → σ → Prop}
    (hpass : ∀ {s s'}, related s s' → Rel related alike (step s) (step s')) (h : related s s') :
    EndAlike alike step s s' := by
  refine ⟨fun r hends => hends.of_rel hpass h, fun r' hends => ?_⟩
  have hswap : ∀ {s' s}, related s s' →
      Rel (fun s' s => related s s') (fun r' r => alike r r') (step s') (step s) := fun h => (hpass h).swap
  exact hends.of_rel hswap h

theorem EndAlike.of_pass {related : σ → σ → Prop}
    (hrelated : ∀ {s s'}, related s s' → EndAlike alike step s s')
    (h : Rel related alike (step s) (step s')) : EndAlike alike step s s' := by
  generalize hstep : step s = pass at h
  generalize hstep' : step s' = pass' at h
  cases h with
  | next hsame => exact (EndAlike.next_left hstep).2 ((EndAlike.next_right hstep').2 (hrelated hsame))
  | done halk => exact EndAlike.done hstep hstep' halk

end Alike

/-! ### Expansions -/

section Expansion

variable (step : σ → LoopStep σ ρ) (size : σ → Nat)

def Above (n : Nat) : σ → σ → Prop :=
  Relation.ReflTransGen fun s s' => n < size s ∧ step s = .next s'

/-- Some states expand: the loop puts something in place of a part of them, and `rest` is the size of what
is behind that part.  A state expands within what another was expanded to. -/
def Within (rest : σ → Nat) (expands : σ → Prop) (s s' : σ) : Prop :=
  ∃ t, step s = .next t ∧ Above step size (rest s) t s' ∧ rest s < size s' ∧ expands s'

variable {step size} {rest : σ → Nat} {expands : σ → Prop} {n m : Nat}

theorem Above.mono (hle : m ≤ n) (h : Above step size n s s') : Above step size m s s' := by
  induction h with
  | refl => exact .refl
  | tail _ hlast ih => exact ih.tail ⟨hle.trans_lt hlast.1, hlast.2⟩

theorem Above.reaches (h : Above step size n s s') : Reaches step s s' := by
  induction h with
  | refl => exact .refl
  | tail _ hlast ih => exact ih.tail hlast.2

def Settles (step : σ → LoopStep σ ρ) (size : σ → Nat) (n : Nat) (s : σ) : Prop :=
  (∃ r, Ends step s r) ∨ ∃ s', Above step size n s s' ∧ size s' ≤ n

theorem Settles.of_above (h : Above step size n s s') (hsettles : Settles step size n s') :
    Settles step size n s := by
  rcases hsettles with ⟨r, hends⟩ | ⟨s'', habove, hle⟩
  · exact Or.inl ⟨r, (Ends.of_reaches h.reaches).2 hends⟩
  · exact Or.inr ⟨s'', Relation.ReflTransGen.trans h habove, hle⟩

theorem settles_of_expansions (hshrinks : ∀ {s s'}, step s = .next s' → ¬expands s → size s' < size s)
    (hrest : ∀ {s}, expands s → rest s < size s)
    (hexpansions : ∀ s', Above step size n s s' → n < size s' → expands s' →
      ∀ m, rest s' ≤ m → m < size s' → Settles step size m s') : Settles step size n s := by
  induction hsize : size s using Nat.strong_induction_on generalizing s with
  | _ k ih =>
    by_cases hle : size s ≤ n
    · exact Or.inr ⟨s, .refl, hle⟩
    have hlt : n < size s := Nat.lt_of_not_le hle
    by_cases hexpands : expands s
    · -- the expansion settles to what is behind it
      have hm : max n (rest s) < size s := Nat.max_lt.2 ⟨hlt, hrest hexpands⟩
      rcases hexpansions s .refl hlt hexpands _ (Nat.le_max_right n (rest s)) hm with hends | ⟨s', habove, hsmall⟩
      · exact Or.inl hends
      · have habove' := habove.mono (Nat.le_max_left n (rest s))
        refine Settles.of_above habove' (ih (size s') (by omega) (fun s'' hs'' => ?_) rfl)
        exact hexpansions s'' (Relation.ReflTransGen.trans habove' hs'')
    · cases hstep : step s with
      | next s' =>
        have hfst : Above step size n s s' := Relation.ReflTransGen.single ⟨hlt, hstep⟩
        have hsmall := hshrinks hstep hexpands
        refine Settles.of_above hfst (ih (size s') (by omega) (fun s'' hs'' => ?_) rfl)
        exact hexpansions s'' (Relation.ReflTransGen.trans hfst hs'')
      | done r => exact Or.inl ⟨r, (Ends.of_done hstep).2 rfl⟩

theorem settles_of_acc (hshrinks : ∀ {s s'}, step s = .next s' → ¬expands s → size s' < size s)
    (hrest : ∀ {s}, expands s → rest s < size s)
    (hacc : Acc (fun s' s => Within step size rest expands s s') s) :
    ∀ m, rest s ≤ m → m < size s → Settles step size m s := by
  induction hacc with
  | intro s _ ih =>
    intro m hle hlt
    cases hstep : step s with
    | next t =>
      have hfst : Above step size m s t := Relation.ReflTransGen.single ⟨hlt, hstep⟩
      refine Settles.of_above hfst (settles_of_expansions hshrinks hrest fun s' habove hlt' hexpands => ?_)
      exact ih s' ⟨t, hstep, habove.mono hle, hle.trans_lt hlt', hexpands⟩
    | done r => exact Or.inl ⟨r, (Ends.of_done hstep).2 rfl⟩

def Endless (step : σ → LoopStep σ ρ) (size rest : σ → Nat) (expands : σ → Prop) (s : σ) : Prop :=
  ∃ f : Nat → σ, Reaches step s (f 0) ∧ expands (f 0) ∧
    ∀ i, Within step size rest expands (f i) (f (i + 1))

theorem ends_iff_not_endless (hshrinks : ∀ {s s'}, step s = .next s' → ¬expands s → size s' < size s)
    (hrest : ∀ {s}, expands s → rest s < size s) (hdone : ∀ {s}, size s = 0 → ∃ r, step s = .done r) :
    (∃ r, Ends step s r) ↔ ¬Endless step size rest expands s := by
  constructor
  · rintro hends ⟨f, hreach, -, hwithin⟩
    obtain ⟨r, hends⟩ := hends
    have hacc := ends_iff_acc.1 ⟨r, (Ends.of_reaches hreach).1 hends⟩
    refine not_acc_iff_exists_descending_chain.2 ⟨f, rfl, fun i => ?_⟩ hacc.transGen
    obtain ⟨t, hstep, habove, -, -⟩ := hwithin i
    -- what is reached later is below in the order of the passes
    have hlater : ∀ {a b}, Reaches step a b → ∀ {c}, Relation.TransGen (fun s' s => step s = .next s') a c →
        Relation.TransGen (fun s' s => step s = .next s') b c := by
      intro a b hab
      induction hab with
      | refl => exact id
      | tail _ hlast ih => exact fun hac => Relation.TransGen.head hlast (ih hac)
    exact hlater habove.reaches (Relation.TransGen.single hstep)
  · intro hendless
    have hsettles : Settles step size 0 s := by
      refine settles_of_expansions hshrinks hrest fun s' habove _ hexpands =>
        settles_of_acc hshrinks hrest ?_
      by_contra hacc
      obtain ⟨f, hzero, hwithin⟩ := not_acc_iff_exists_descending_chain.1 hacc
      refine hendless ⟨f, ?_, ?_, hwithin⟩
      · rw [hzero]
        exact habove.reaches
      · rw [hzero]
        exact hexpands
    rcases hsettles with hends | ⟨s', habove, hsize⟩
    · exact hends
    · obtain ⟨r, hstep⟩ := hdone (Nat.le_zero.1 hsize)
      exact ⟨r, (Ends.of_reaches habove.reaches).2 ((Ends.of_done hstep).2 rfl)⟩

end Expansion

end LoopStep

/-! ## The loop of a traversal -/

def traverseEntry (config : MarfsConfig) (pos : MarfsPosition) (subpath : List Char) :
    LoopStep TraverseState Traversed :=
  if pos.ctxt = none then .done .failed
  else if subpath.head? = some '/' then
    match configValidatemnt config none subpath with
    | none => .done .failed
    | some parsepath =>
      let pos :=
        if pos.ns ≠ .table config.rootns ∨ pos.depth ≠ 0 then configEstablishposition config else pos
      if parsepath = [] then .done (.done pos ['.'] 0)
      else .next ⟨pos, parsepath, parsepath, pos.depth, false⟩
  else .next ⟨pos, subpath, subpath, pos.depth, false⟩

section Loops

variable {mdal : Mdal} {config : MarfsConfig}

theorem configTraverse_eq_entry (fuel : Nat) (pos : MarfsPosition) (subpath : List Char)
    (linkchk : Nat) :
    configTraverse mdal config fuel pos subpath linkchk =
      match traverseEntry config pos subpath with
      | .done result => some result
      | .next state => traverseLoop mdal config linkchk fuel state := by
  rw [configTraverse, traverseEntry]
  by_cases hctxt : pos.ctxt = none
  · rw [if_pos hctxt, if_pos hctxt]
  rw [if_neg hctxt, if_neg hctxt]
  by_cases habs : subpath.head? = some '/'
  · rw [if_pos habs, if_pos habs]
    cases configValidatemnt config none subpath with
    | none => rfl
    | some parsepath =>
      dsimp only
      by_cases hnil : parsepath = []
      · rw [if_pos hnil, if_pos hnil]
      · rw [if_neg hnil, if_neg hnil]
  · rw [if_neg habs, if_neg habs]

theorem traverseLoop_eq_iterate {linkchk : Nat} (fuel : Nat) (state : TraverseState) :
    traverseLoop mdal config linkchk fuel state =
      LoopStep.iterate (traverseStep mdal config linkchk) fuel state := by
  induction fuel generalizing state with
  | zero => rfl
  | succ fuel ih =>
    rw [traverseLoop, LoopStep.iterate]
    cases traverseStep mdal config linkchk state with
    | next state => exact ih state
    | done result => rfl

end Loops

end Marfs.Config
