import Mathlib.Data.List.Basic

/-!
# Cursors over a list

A cursor reads a list entry by entry.  It tells marks, to which it can be set back later, and it can be
rewound.  What it replies is judged by what is ahead of it alone: `Resumes` follows the entries that are
ahead through the calls, and the entries that were ahead of each mark.  A machine whose states stand for
what is ahead of them replies so in every run (`Simulates.resumes`).
-/

namespace Marfs.Cursor

inductive Call (κ : Type*) where
  | read
  | tell
  | seek (mark : κ)
  | rewind
  deriving DecidableEq, Repr

/-- What a call returns. -/
inductive Reply (α κ ε : Type*) where
  | entry (name : α)
  | ended
  | told (mark : κ)
  | done
  | failed (fault : ε)
  deriving DecidableEq, Repr

variable {S α κ ε : Type*}

def run (step : S → Call κ → Reply α κ ε × S) : S → List (Call κ) → List (Call κ × Reply α κ ε)
  | _, [] => []
  | s, call :: calls => (call, (step s call).1) :: run step (step s call).2 calls

/-- The replies are those of a cursor over `listing`, with `rest` ahead of it and with what was ahead of it
when each mark was told.  Where a mark was never told, nothing is asked of what follows. -/
def Resumes (listing : List α) : List α → List (κ × List α) → List (Call κ × Reply α κ ε) → Prop
  | _, _, [] => True
  | [], marks, (.read, reply) :: trace => reply = .ended ∧ Resumes listing [] marks trace
  | name :: rest, marks, (.read, reply) :: trace =>
    reply = .entry name ∧ Resumes listing rest marks trace
  | rest, marks, (.tell, reply) :: trace =>
    ∃ mark, reply = .told mark ∧ Resumes listing rest ((mark, rest) :: marks) trace
  | _, marks, (.seek mark, reply) :: trace =>
    ∀ rest, (mark, rest) ∈ marks → reply = .done ∧ Resumes listing rest marks trace
  | _, marks, (.rewind, reply) :: trace => reply = .done ∧ Resumes listing listing marks trace

/-- `Ahead` says what is ahead of a state and `Recalls` what was ahead when a mark was told; each call
replies and moves accordingly. -/
structure Simulates (step : S → Call κ → Reply α κ ε × S) (listing : List α)
    (Ahead : S → List α → Prop) (Recalls : κ → List α → Prop) : Prop where
  read_nil : ∀ {s}, Ahead s [] → (step s .read).1 = .ended ∧ Ahead (step s .read).2 []
  read_cons : ∀ {s name rest}, Ahead s (name :: rest) →
    (step s .read).1 = .entry name ∧ Ahead (step s .read).2 rest
  tell : ∀ {s rest}, Ahead s rest →
    ∃ mark, (step s .tell).1 = .told mark ∧ Recalls mark rest ∧ Ahead (step s .tell).2 rest
  seek : ∀ {s rest mark rest'}, Ahead s rest → Recalls mark rest' →
    (step s (.seek mark)).1 = .done ∧ Ahead (step s (.seek mark)).2 rest'
  rewind : ∀ {s rest}, Ahead s rest →
    (step s .rewind).1 = .done ∧ Ahead (step s .rewind).2 listing

variable {step : S → Call κ → Reply α κ ε × S} {listing : List α}
  {Ahead : S → List α → Prop} {Recalls : κ → List α → Prop}

theorem Simulates.resumes (hsim : Simulates step listing Ahead Recalls) (calls : List (Call κ)) :
    ∀ {s : S} {rest : List α} {marks : List (κ × List α)}, Ahead s rest →
      (∀ mark ∈ marks, Recalls mark.1 mark.2) → Resumes listing rest marks (run step s calls) := by
  induction calls with
  | nil =>
    intro s rest marks _ _
    simp only [run, Resumes]
  | cons call calls ih =>
    intro s rest marks hahead hmarks
    cases call with
    | read =>
      cases rest with
      | nil =>
        obtain ⟨hreply, hnext⟩ := hsim.read_nil hahead
        exact ⟨hreply, ih hnext hmarks⟩
      | cons name rest =>
        obtain ⟨hreply, hnext⟩ := hsim.read_cons hahead
        exact ⟨hreply, ih hnext hmarks⟩
    | tell =>
      obtain ⟨mark, hreply, hrecalls, hnext⟩ := hsim.tell hahead
      refine ⟨mark, hreply, ih hnext ?_⟩
      intro other hoth
      cases hoth with
      | head => exact hrecalls
      | tail _ hoth => exact hmarks other hoth
    | seek mark =>
      intro rest' hmem
      obtain ⟨hreply, hnext⟩ := hsim.seek hahead (hmarks (mark, rest') hmem)
      exact ⟨hreply, ih hnext hmarks⟩
    | rewind =>
      obtain ⟨hreply, hnext⟩ := hsim.rewind hahead
      exact ⟨hreply, ih hnext hmarks⟩

theorem Resumes.read_cons {s : S} {name : α} {rest : List α} {marks : List (κ × List α)}
    (h : ∀ calls, Resumes listing (name :: rest) marks (run step s calls)) :
    (step s .read).1 = .entry name ∧
      ∀ calls, Resumes listing rest marks (run step (step s .read).2 calls) := by
  constructor
  · exact (h [.read]).1
  · intro calls
    exact (h (.read :: calls)).2

theorem Resumes.read_nil {s : S} {marks : List (κ × List α)}
    (h : ∀ calls, Resumes listing [] marks (run step s calls)) : (step s .read).1 = .ended :=
  (h [.read]).1

end Marfs.Cursor
