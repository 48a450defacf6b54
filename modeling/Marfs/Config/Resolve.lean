import Marfs.Config.Namespace
import Marfs.Path.Components

/-!
# Resolution of a path, component by component

What a path means, without the code: a path is walked from a location, one component after the other.
A location is a directory outside of the mountpoint, or a directory of a namespace.
-/

namespace Marfs.Config

open Marfs.Path (components)

/-- A directory: outside, with its path from the global root, or in a namespace, with its path below the
root of the namespace. -/
inductive Location where
  | outside (dir : List (List Char))
  | within (ns : Nat) (dir : List (List Char))
  deriving DecidableEq, Repr

def MarfsConfig.mount (config : MarfsConfig) : List (List Char) := components '/' config.mountpoint

def MarfsConfig.settle (config : MarfsConfig) (dir : List (List Char)) : Location :=
  if dir = config.mount then .within config.rootns [] else .outside dir

def MarfsConfig.parent (config : MarfsConfig) : Location → Location
  | .outside dir => config.settle dir.dropLast
  | .within ns dir =>
    if dir = [] then
      match (config.ns ns).pnamespace with
      | some parent => .within parent []
      | none => config.settle config.mount.dropLast
    else .within ns dir.dropLast

def MarfsConfig.entry (config : MarfsConfig) (name : List Char) : Location → Location
  | .outside dir => config.settle (dir ++ [name])
  | .within ns dir =>
    match if dir = [] then (config.ns ns).subnodes.lookup name else none with
    | some subspace => .within subspace []
    | none => .within ns (dir ++ [name])

/-- One component. -/
def MarfsConfig.walk (config : MarfsConfig) (location : Location) (name : List Char) : Location :=
  if name = ['.', '.'] then config.parent location
  else if name = ['.'] then location
  else config.entry name location

/-- A path. -/
def MarfsConfig.resolve (config : MarfsConfig) (location : Location) (names : List (List Char)) :
    Location :=
  names.foldl config.walk location

def MarfsConfig.Passes (config : MarfsConfig) (kind : Location → List Char → Prop) :
    Location → List (List Char) → Prop
  | _, [] => False
  | location, name :: names => kind location name ∨ config.Passes kind (config.walk location name) names

def MarfsConfig.Enters (config : MarfsConfig) (ns : Nat) : Location → List (List Char) → Prop :=
  config.Passes fun location name => ∃ ns' dir, config.walk location name = .within ns' dir ∧ ns' ≠ ns

/-- A walk goes up from the root of MarFS. -/
def MarfsConfig.Leaves (config : MarfsConfig) : Location → List (List Char) → Prop :=
  config.Passes fun location name => location = .within config.rootns [] ∧ name = ['.', '.']

/-- The directory a path leads to within one namespace, when it stays there. -/
def descend (dir : List (List Char)) : List (List Char) → Option (List (List Char))
  | [] => some dir
  | name :: names =>
    if name = ['.', '.'] then if dir = [] then none else descend dir.dropLast names
    else if name = ['.'] then descend dir names
    else descend (dir ++ [name]) names

/-! ## Lemmas -/

section Lemmas

variable {config : MarfsConfig} {location : Location} {names names' : List (List Char)}

@[simp] theorem resolve_nil : config.resolve location [] = location := rfl

@[simp] theorem resolve_cons (name : List Char) :
    config.resolve location (name :: names) = config.resolve (config.walk location name) names := rfl

theorem resolve_append :
    config.resolve location (names ++ names') = config.resolve (config.resolve location names) names' :=
  List.foldl_append

theorem passes_append {kind : Location → List Char → Prop} :
    config.Passes kind location (names ++ names') ↔
      config.Passes kind location names ∨ config.Passes kind (config.resolve location names) names' := by
  induction names generalizing location with
  | nil => simp [MarfsConfig.Passes]
  | cons name names ih => rw [List.cons_append, MarfsConfig.Passes, ih, MarfsConfig.Passes, or_assoc,
      resolve_cons]

theorem descend_append {dir dir' : List (List Char)} (h : descend dir names = some dir') :
    descend dir (names ++ names') = descend dir' names' := by
  induction names generalizing dir with
  | nil =>
    obtain rfl := Option.some.inj h
    rfl
  | cons name names ih =>
    rw [List.cons_append, descend]
    rw [descend] at h
    split_ifs at h ⊢
    · exact ih h
    · exact ih h
    · exact ih h

theorem descend_below (base : List (List Char)) {dir dir' : List (List Char)}
    (h : descend dir names = some dir') : descend (base ++ dir) names = some (base ++ dir') := by
  induction names generalizing dir with
  | nil =>
    obtain rfl := Option.some.inj h
    rfl
  | cons name names ih =>
    rw [descend] at h ⊢
    split_ifs at h with hup hnil hhere
    · rw [if_pos hup, if_neg (by simp [hnil]), List.dropLast_append_of_ne_nil hnil]
      exact ih h
    · rw [if_neg hup, if_pos hhere]
      exact ih h
    · rw [if_neg hup, if_neg hhere, List.append_assoc]
      exact ih h

end Lemmas

end Marfs.Config
