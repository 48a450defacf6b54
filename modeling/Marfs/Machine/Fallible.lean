import Mathlib.Init

/-!
# Programs that may fail half way

An `Op` runs on a state and ends with a value or fails; either way it leaves a state behind, as a C
function does that returns an error after some of its work.  `Op.wp` is its weakest precondition for
two postconditions, one for each way to end; the rules follow the way an op is put together, and
`Op.Keeps` is the case of an invariant that holds however it ends.
-/

namespace Marfs.Machine

/-- A program on states `σ` that ends with a value, or fails. -/
def Op (σ α : Type) : Type := σ → Option α × σ

namespace Op

variable {σ α β : Type}

def fail : Op σ α := fun s => (none, s)

/-- Look at the state. -/
def get : Op σ σ := fun s => (some s, s)

/-- Change the state. -/
def modify (f : σ → σ) : Op σ Unit := fun s => (some (), f s)

instance : Monad (Op σ) where
  pure a := fun s => (some a, s)
  bind m f := fun s =>
    match m s with
    | (some a, s) => f a s
    | (none, s) => (none, s)

def check (condition : Bool) : Op σ Unit := if condition then pure () else fail

/-- A value that may be missing. -/
def ofOption (a : Option α) : Op σ α := fun s => (a, s)

def onFail (m : Op σ α) (cleanup : Op σ Unit) : Op σ α := fun s =>
  match m s with
  | (some a, s) => (some a, s)
  | (none, s) => (none, (cleanup s).2)

/-- Run `m` and note whether it failed. -/
def attempt (m : Op σ α) : Op σ (Option α) := fun s =>
  match m s with
  | (result, s) => (some result, s)

def zoom {τ : Type} (part : τ → σ) (put : σ → τ → τ) (m : Op σ α) : Op τ α := fun t =>
  match m (part t) with
  | (result, s) => (result, put s t)

theorem check_bind {condition : Bool} (h : condition = true) (f : Unit → Op σ β) :
    (check condition >>= f) = f () := by
  subst h
  rfl

/-! ## Weakest preconditions -/

/-- From this state `m` ends in `Q`, or fails in `E`. -/
def wp (m : Op σ α) (Q : α → σ → Prop) (E : σ → Prop) (s : σ) : Prop :=
  match m s with
  | (some a, s) => Q a s
  | (none, s) => E s

variable {m : Op σ α} {f : α → Op σ β} {Q Q' : α → σ → Prop} {E E' : σ → Prop} {s : σ}

@[simp] theorem wp_pure {a : α} : wp (pure a) Q E s ↔ Q a s := Iff.rfl

@[simp] theorem wp_fail : wp (fail : Op σ α) Q E s ↔ E s := Iff.rfl

@[simp] theorem wp_get {Q : σ → σ → Prop} : wp get Q E s ↔ Q s s := Iff.rfl

@[simp] theorem wp_modify {g : σ → σ} {Q : Unit → σ → Prop} : wp (modify g) Q E s ↔ Q () (g s) := Iff.rfl

@[simp] theorem wp_bind {Q : β → σ → Prop} : wp (m >>= f) Q E s ↔ wp m (fun a => wp (f a) Q E) E s := by
  change wp (fun s => match m s with
    | (some a, s) => f a s
    | (none, s) => (none, s)) Q E s ↔ _
  unfold wp
  rcases hm : m s with ⟨_ | a, s'⟩
  · simp only [hm]
  · simp only [hm]

@[simp] theorem wp_check {condition : Bool} {Q : Unit → σ → Prop} :
    wp (check condition) Q E s ↔ (condition = true → Q () s) ∧ (condition = false → E s) := by
  cases condition with
  | true => simp [check]
  | false => simp [check]

@[simp] theorem wp_ofOption {a : Option α} :
    wp (ofOption a) Q E s ↔ (∀ b, a = some b → Q b s) ∧ (a = none → E s) := by
  unfold wp ofOption
  cases a with
  | none => simp
  | some b => simp

/-- A value that is there. -/
theorem wp_ofOption_some {a : Option α} {b : α} (h : a = some b) : wp (ofOption a) Q E s ↔ Q b s := by
  subst h
  rfl

@[simp] theorem wp_onFail {cleanup : Op σ Unit} :
    wp (onFail m cleanup) Q E s ↔ wp m Q (fun s => E (cleanup s).2) s := by
  unfold wp onFail
  rcases m s with ⟨_ | a, s'⟩
  · rfl
  · rfl

@[simp] theorem wp_attempt {Q : Option α → σ → Prop} :
    wp (attempt m) Q E s ↔ wp m (fun a => Q (some a)) (Q none) s := by
  unfold wp attempt
  rcases m s with ⟨_ | a, s'⟩
  · rfl
  · rfl

@[simp] theorem wp_zoom {τ : Type} {part : τ → σ} {put : σ → τ → τ} {Q : α → τ → Prop}
    {E : τ → Prop} {t : τ} :
    wp (zoom part put m) Q E t ↔
      wp m (fun a s => Q a (put s t)) (fun s => E (put s t)) (part t) := by
  unfold wp zoom
  rcases m (part t) with ⟨_ | a, s⟩
  · rfl
  · rfl

@[simp] theorem wp_ite {c : Prop} [Decidable c] {m' : Op σ α} :
    wp (if c then m else m') Q E s ↔ (c → wp m Q E s) ∧ (¬ c → wp m' Q E s) := by
  by_cases h : c
  · simp [h]
  · simp [h]

/-- Consequence. -/
theorem wp_mono (h : wp m Q E s) (hQ : ∀ a s', Q a s' → Q' a s') (hE : ∀ s', E s' → E' s') :
    wp m Q' E' s := by
  unfold wp at h ⊢
  rcases hm : m s with ⟨_ | a, s'⟩
  · rw [hm] at h
    exact hE s' h
  · rw [hm] at h
    exact hQ a s' h

/-- Both of two specifications. -/
theorem wp_and (h : wp m Q E s) (h' : wp m Q' E' s) :
    wp m (fun a s' => Q a s' ∧ Q' a s') (fun s' => E s' ∧ E' s') s := by
  unfold wp at h h' ⊢
  rcases hm : m s with ⟨_ | a, s'⟩
  · rw [hm] at h h'
    exact ⟨h, h'⟩
  · rw [hm] at h h'
    exact ⟨h, h'⟩

theorem wp_fst {result : Option α}
    (h : wp m (fun a _ => result = some a) (fun _ => result = none) s) : (m s).1 = result := by
  unfold wp at h
  rcases hm : m s with ⟨_ | a, s'⟩
  · rw [hm] at h
    exact h.symm
  · rw [hm] at h
    exact h.symm

/-- The state an op leaves behind, whichever way it ends. -/
theorem wp_snd {P : σ → Prop} (h : wp m (fun _ => P) P s) : P (m s).2 := by
  unfold wp at h
  rcases hm : m s with ⟨_ | a, s'⟩
  · rw [hm] at h
    exact h
  · rw [hm] at h
    exact h

theorem wp_of_some {a : α} {s' : σ} (hm : m s = (some a, s')) (h : Q a s') : wp m Q E s := by
  unfold wp
  rw [hm]
  exact h

theorem wp_of_none {s' : σ} (hm : m s = (none, s')) (h : E s') : wp m Q E s := by
  unfold wp
  rw [hm]
  exact h

/-- What an op returns, and the state it leaves behind. -/
theorem wp_some {a : α} {s' : σ} (h : wp m Q E s) (hm : m s = (some a, s')) : Q a s' := by
  unfold wp at h
  rw [hm] at h
  exact h

/-- The state a failed op leaves behind. -/
theorem wp_none {s' : σ} (h : wp m Q E s) (hm : m s = (none, s')) : E s' := by
  unfold wp at h
  rw [hm] at h
  exact h

/-- An op that cannot fail ends with a value. -/
theorem wp_returns (h : wp m Q E s) (hE : ∀ s', ¬ E s') : ∃ a s', m s = (some a, s') ∧ Q a s' := by
  unfold wp at h
  rcases hm : m s with ⟨_ | a, s'⟩
  · rw [hm] at h
    exact absurd h (hE s')
  · rw [hm] at h
    exact ⟨a, s', rfl, h⟩

theorem wp_fails (h : wp m Q E s) (hQ : ∀ a s', ¬ Q a s') : ∃ s', m s = (none, s') ∧ E s' := by
  unfold wp at h
  rcases hm : m s with ⟨_ | a, s'⟩
  · rw [hm] at h
    exact ⟨s', rfl, h⟩
  · rw [hm] at h
    exact absurd h (hQ a s')

-- a goal is not to run its program
attribute [irreducible] wp

/-! ## Invariants -/

def Keeps (P : σ → Prop) (m : Op σ α) : Prop := ∀ s, P s → wp m (fun _ => P) P s

namespace Keeps

variable {P : σ → Prop}

theorem pure (a : α) : Keeps P (Pure.pure a : Op σ α) := fun _ h => wp_pure.2 h

theorem get : Keeps P (Op.get : Op σ σ) := fun _ h => wp_get.2 h

theorem modify {g : σ → σ} (hg : ∀ s, P s → P (g s)) : Keeps P (Op.modify g) := fun s h =>
  wp_modify.2 (hg s h)

theorem bind (hm : Keeps P m) (hf : ∀ a, Keeps P (f a)) : Keeps P (m >>= f) := fun s h =>
  wp_bind.2 (wp_mono (hm s h) (fun a s' h' => hf a s' h') fun _ h' => h')

theorem check (condition : Bool) : Keeps P (Op.check condition : Op σ Unit) := fun _ h =>
  wp_check.2 ⟨fun _ => h, fun _ => h⟩

theorem ite {c : Prop} [Decidable c] {m' : Op σ α} (hm : Keeps P m) (hm' : Keeps P m') :
    Keeps P (if c then m else m') := fun s h => wp_ite.2 ⟨fun _ => hm s h, fun _ => hm' s h⟩

theorem onFail {cleanup : Op σ Unit} (hm : Keeps P m) (hc : Keeps P cleanup) :
    Keeps P (Op.onFail m cleanup) := fun s h =>
  wp_onFail.2 (wp_mono (hm s h) (fun _ _ h' => h') fun s' h' => wp_snd (hc s' h'))

theorem ofOption (a : Option α) : Keeps P (Op.ofOption a : Op σ α) := fun _ h =>
  wp_ofOption.2 ⟨fun _ _ => h, fun _ => h⟩

end Keeps

/-! ## Programs that do the same -/

/-- Two programs do the same in the states of `P`, which they keep. -/
structure Same (P : σ → Prop) (m m' : Op σ α) : Prop where
  keeps : Keeps P m
  eq : ∀ s, P s → m s = m' s

namespace Same

variable {P : σ → Prop} {m' : Op σ α} {f' : α → Op σ β}

theorem of_keeps (h : Keeps P m) : Same P m m := ⟨h, fun _ _ => rfl⟩

theorem bind (hm : Same P m m') (hf : ∀ a, Same P (f a) (f' a)) : Same P (m >>= f) (m' >>= f') := by
  refine ⟨hm.keeps.bind fun a => (hf a).keeps, fun s hs => ?_⟩
  change (match m s with
    | (some a, s) => f a s
    | (none, s) => (none, s)) = (match m' s with
    | (some a, s) => f' a s
    | (none, s) => (none, s))
  rw [← hm.eq s hs]
  rcases hrun : m s with ⟨_ | a, s'⟩
  · rfl
  · exact (hf a).eq s' (wp_some (hm.keeps s hs) hrun)

theorem onFail {cleanup : Op σ Unit} (hm : Same P m m') (hc : Keeps P cleanup) :
    Same P (m.onFail cleanup) (m'.onFail cleanup) := by
  refine ⟨hm.keeps.onFail hc, fun s hs => ?_⟩
  unfold Op.onFail
  rw [hm.eq s hs]

end Same

end Op

end Marfs.Machine
