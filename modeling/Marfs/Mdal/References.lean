import Marfs.Machine.Fallible
import Mathlib.Logic.Function.Basic

/-!
# Reference files

The reference paths of a namespace are links to files, and the extended attributes of a file carry the
FTAGs it has or had.  `Mdal` is what the calls of the MDAL see of it.  The process may be stopped
between any two calls: it has a number of steps left, and fails when there are none.  Directories,
times and contents of files are left out.
-/

namespace Marfs.Mdal

open Machine

/-- `FTAG_NAME`, `TREPACK_TAG_NAME` and `OREPACK_TAG_NAME`. -/
inductive Xattr where
  | ftag
  | trepack
  | orepack
  deriving DecidableEq, Repr

inductive SetFlag where
  | any
  | create
  | replace
  deriving DecidableEq, Repr

/-- The files that paths lead to, by their inodes, and the attributes of the files.  Inodes from
`fresh` on are not in use. -/
structure References where
  refs : List Char → Option Nat
  xattrs : Nat → Xattr → Option (List Char)
  fresh : Nat
  refs_lt : ∀ path inode, refs path = some inode → inode < fresh

namespace References

def relink (r : References) (path : List Char) (target : Option Nat)
    (h : ∀ inode, target = some inode → inode < r.fresh) : References :=
  { r with
    refs := Function.update r.refs path target
    refs_lt := by
      intro path' inode h'
      by_cases hpath : path' = path
      · subst hpath
        rw [Function.update_self] at h'
        exact h inode h'
      · rw [Function.update_of_ne hpath] at h'
        exact r.refs_lt path' inode h' }

/-- `link`: the new path leads where the old one leads. -/
def link (r : References) (oldrpath newpath : List Char) : References :=
  r.relink newpath (r.refs oldrpath) (r.refs_lt oldrpath)

def unlink (r : References) (path : List Char) : References :=
  r.relink path none fun _ h => nomatch h

def rename (r : References) (src dst : List Char) : References :=
  if r.refs dst = r.refs src then r else (r.link src dst).unlink src

def create (r : References) (path : List Char) : References :=
  let grown : References :=
    { r with
      xattrs := Function.update r.xattrs r.fresh fun _ => none
      fresh := r.fresh + 1
      refs_lt := fun path' inode h => Nat.lt_succ_of_lt (r.refs_lt path' inode h) }
  grown.relink path (some r.fresh) fun _ h => Option.some.inj h ▸ Nat.lt_succ_self r.fresh

def setXattr (r : References) (inode : Nat) (name : Xattr) (value : Option (List Char)) :
    References :=
  { r with
    xattrs := Function.update r.xattrs inode (Function.update (r.xattrs inode) name value) }

section Simp

variable (r : References) (path path' : List Char) (inode : Nat) (name : Xattr)

@[simp] theorem refs_link : (r.link path path').refs = Function.update r.refs path' (r.refs path) :=
  rfl

@[simp] theorem xattrs_link : (r.link path path').xattrs = r.xattrs := rfl

@[simp] theorem refs_unlink : (r.unlink path).refs = Function.update r.refs path none := rfl

@[simp] theorem xattrs_unlink : (r.unlink path).xattrs = r.xattrs := rfl

@[simp] theorem xattrs_rename : (r.rename path path').xattrs = r.xattrs := by
  unfold rename
  split
  · rfl
  · rfl

/-- The link of a file takes the place of one of another file. -/
theorem refs_rename {r : References} {path path' : List Char} (h : r.refs path' ≠ r.refs path) :
    (r.rename path path').refs =
      Function.update (Function.update r.refs path' (r.refs path)) path none := by
  rw [rename, if_neg h]
  rfl

@[simp] theorem refs_create : (r.create path).refs = Function.update r.refs path (some r.fresh) := rfl

@[simp] theorem xattrs_create : (r.create path).xattrs = Function.update r.xattrs r.fresh fun _ => none := rfl

@[simp] theorem refs_setXattr (value : Option (List Char)) :
    (r.setXattr inode name value).refs = r.refs := rfl

@[simp] theorem xattrs_setXattr (value : Option (List Char)) :
    (r.setXattr inode name value).xattrs =
      Function.update r.xattrs inode (Function.update (r.xattrs inode) name value) := rfl

end Simp

end References

/-- The calls whose results depend on the references and attributes, or that change them. -/
inductive Call where
  | statref (path : List Char)
  | openref (path : List Char)
  | createref (path : List Char)
  | fgetxattr (inode : Nat) (name : Xattr)
  | fsetxattr (inode : Nat) (name : Xattr) (value : List Char) (flag : SetFlag)
  | fremovexattr (inode : Nat) (name : Xattr)
  | linkref (oldrpath newpath : List Char)
  | unlinkref (rpath : List Char)
  | renameref (src dst : List Char)
  deriving DecidableEq, Repr

structure Sys where
  references : References
  calls : List Call
  steps : Nat

def Sys.after (s : Sys) (call : Call) (references : References) : Sys :=
  { references := references, calls := s.calls ++ [call], steps := s.steps - 1 }

@[simp] theorem Sys.references_after (s : Sys) (call : Call) (references : References) :
    (s.after call references).references = references := rfl

@[simp] theorem Sys.calls_after (s : Sys) (call : Call) (references : References) :
    (s.after call references).calls = s.calls ++ [call] := rfl

@[simp] theorem Sys.steps_after (s : Sys) (call : Call) (references : References) :
    (s.after call references).steps = s.steps - 1 := rfl

def step {α : Type} (call : Call) (f : References → α × References) : Op Sys α := fun s =>
  if s.steps = 0 then (none, s)
  else (some (f s.references).1, s.after call (f s.references).2)

/-- `statref`: whether the path leads to a file. -/
def statref (path : List Char) : Op Sys Bool :=
  step (.statref path) fun r => ((r.refs path).isSome, r)

def openref (path : List Char) : Op Sys (Option Nat) := step (.openref path) fun r => (r.refs path, r)

def createref (path : List Char) : Op Sys (Option Nat) :=
  step (.createref path) fun r =>
    match r.refs path with
    | some _ => (none, r)
    | none => (some r.fresh, r.create path)

/-- `fgetxattr`, of an attribute that MarFS hides from users; no value is `ENODATA`. -/
def fgetxattr (inode : Nat) (name : Xattr) : Op Sys (Option (List Char)) :=
  step (.fgetxattr inode name) fun r => (r.xattrs inode name, r)

def SetFlag.allows (flag : SetFlag) (value : Option (List Char)) : Bool :=
  match flag with
  | .any => true
  | .create => value.isNone
  | .replace => value.isSome

/-- `fsetxattr`; tells whether it succeeded. -/
def fsetxattr (inode : Nat) (name : Xattr) (value : List Char) (flag : SetFlag) : Op Sys Bool :=
  step (.fsetxattr inode name value flag) fun r =>
    if flag.allows (r.xattrs inode name) then (true, r.setXattr inode name (some value))
    else (false, r)

def fremovexattr (inode : Nat) (name : Xattr) : Op Sys Bool :=
  step (.fremovexattr inode name) fun r =>
    if (r.xattrs inode name).isSome then (true, r.setXattr inode name none) else (false, r)

def linkref (oldrpath newpath : List Char) : Op Sys Bool :=
  step (.linkref oldrpath newpath) fun r =>
    if (r.refs oldrpath).isSome ∧ r.refs newpath = none then (true, r.link oldrpath newpath)
    else (false, r)

def unlinkref (rpath : List Char) : Op Sys Bool :=
  step (.unlinkref rpath) fun r =>
    if (r.refs rpath).isSome then (true, r.unlink rpath) else (false, r)

def renameref (src dst : List Char) : Op Sys Bool :=
  step (.renameref src dst) fun r =>
    if (r.refs src).isSome then (true, r.rename src dst) else (false, r)

@[simp] theorem wp_step {α : Type} {call : Call} {f : References → α × References}
    {Q : α → Sys → Prop} {E : Sys → Prop} {s : Sys} :
    Op.wp (step call f) Q E s ↔ (s.steps = 0 → E s) ∧
      (s.steps ≠ 0 → Q (f s.references).1 (s.after call (f s.references).2)) := by
  by_cases h : s.steps = 0
  · unfold Op.wp step
    simp [h]
  · unfold Op.wp step
    simp [h]

section Calls

variable {E : Sys → Prop} {s : Sys} {path path' value : List Char} {inode : Nat} {name : Xattr}
  {flag : SetFlag}

variable {Q : Bool → Sys → Prop}

theorem wp_statref : Op.wp (statref path) Q E s ↔ (s.steps = 0 → E s) ∧
    (s.steps ≠ 0 → Q (s.references.refs path).isSome (s.after (.statref path) s.references)) :=
  wp_step

theorem wp_openref {Q : Option Nat → Sys → Prop} : Op.wp (openref path) Q E s ↔
    (s.steps = 0 → E s) ∧
      (s.steps ≠ 0 → Q (s.references.refs path) (s.after (.openref path) s.references)) :=
  wp_step

theorem wp_fgetxattr {Q : Option (List Char) → Sys → Prop} :
    Op.wp (fgetxattr inode name) Q E s ↔ (s.steps = 0 → E s) ∧ (s.steps ≠ 0 →
      Q (s.references.xattrs inode name) (s.after (.fgetxattr inode name) s.references)) :=
  wp_step

theorem wp_createref {Q : Option Nat → Sys → Prop} (h : s.references.refs path = none) :
    Op.wp (createref path) Q E s ↔ (s.steps = 0 → E s) ∧ (s.steps ≠ 0 →
      Q (some s.references.fresh) (s.after (.createref path) (s.references.create path))) := by
  rw [createref, wp_step, h]

theorem wp_fsetxattr (h : flag.allows (s.references.xattrs inode name) = true) :
    Op.wp (fsetxattr inode name value flag) Q E s ↔ (s.steps = 0 → E s) ∧ (s.steps ≠ 0 →
      Q true (s.after (.fsetxattr inode name value flag)
        (s.references.setXattr inode name (some value)))) := by
  rw [fsetxattr, wp_step, if_pos h]

theorem wp_fremovexattr (h : (s.references.xattrs inode name).isSome = true) :
    Op.wp (fremovexattr inode name) Q E s ↔ (s.steps = 0 → E s) ∧ (s.steps ≠ 0 →
      Q true (s.after (.fremovexattr inode name) (s.references.setXattr inode name none))) := by
  rw [fremovexattr, wp_step, if_pos h]

theorem wp_linkref (h : (s.references.refs path).isSome = true) (h' : s.references.refs path' = none) :
    Op.wp (linkref path path') Q E s ↔ (s.steps = 0 → E s) ∧ (s.steps ≠ 0 →
      Q true (s.after (.linkref path path') (s.references.link path path'))) := by
  rw [linkref, wp_step, if_pos ⟨h, h'⟩]

theorem wp_unlinkref (h : (s.references.refs path).isSome = true) :
    Op.wp (unlinkref path) Q E s ↔ (s.steps = 0 → E s) ∧
      (s.steps ≠ 0 → Q true (s.after (.unlinkref path) (s.references.unlink path))) := by
  rw [unlinkref, wp_step, if_pos h]

theorem wp_renameref (h : (s.references.refs path).isSome = true) :
    Op.wp (renameref path path') Q E s ↔ (s.steps = 0 → E s) ∧ (s.steps ≠ 0 →
      Q true (s.after (.renameref path path') (s.references.rename path path'))) := by
  rw [renameref, wp_step, if_pos h]

end Calls

/-! ## The calls of an op -/

def Makes {α : Type} (P : Call → Prop) (m : Op Sys α) : Prop := ∀ s,
  Op.wp m (fun _ s' => ∃ calls, s'.calls = s.calls ++ calls ∧ ∀ call ∈ calls, P call)
    (fun s' => ∃ calls, s'.calls = s.calls ++ calls ∧ ∀ call ∈ calls, P call) s

namespace Makes

variable {α β : Type} {P : Call → Prop} {m : Op Sys α} {f : α → Op Sys β}

theorem nothing (calls : List Call) : ∃ calls', calls = calls ++ calls' ∧ ∀ call ∈ calls', P call :=
  ⟨[], (List.append_nil calls).symm, fun _ h => absurd h List.not_mem_nil⟩

theorem pure (a : α) : Makes P (Pure.pure a : Op Sys α) := fun s => Op.wp_pure.2 (nothing s.calls)

theorem check (condition : Bool) : Makes P (Op.check condition : Op Sys Unit) := fun s =>
  Op.wp_check.2 ⟨fun _ => nothing s.calls, fun _ => nothing s.calls⟩

theorem step {call : Call} {f : References → α × References} (h : P call) : Makes P (Mdal.step call f) := by
  intro s
  rw [wp_step]
  refine ⟨fun _ => nothing s.calls, fun _ => ⟨[call], rfl, fun call' hmem => ?_⟩⟩
  rw [List.mem_singleton.1 hmem]
  exact h

theorem bind (hm : Makes P m) (hf : ∀ a, Makes P (f a)) : Makes P (m >>= f) := by
  intro s
  rw [Op.wp_bind]
  refine Op.wp_mono (hm s) (fun a s' h => ?_) fun _ h => h
  obtain ⟨calls, hcalls, hkind⟩ := h
  have hmore : ∀ s'' : Sys, (∃ calls', s''.calls = s'.calls ++ calls' ∧ ∀ call ∈ calls', P call) →
      ∃ calls', s''.calls = s.calls ++ calls' ∧ ∀ call ∈ calls', P call := by
    rintro s'' ⟨calls', hcalls', hkind'⟩
    refine ⟨calls ++ calls', ?_, fun call hmem => ?_⟩
    · rw [hcalls', hcalls, List.append_assoc]
    · rcases List.mem_append.1 hmem with hmem | hmem
      · exact hkind call hmem
      · exact hkind' call hmem
  exact Op.wp_mono (hf a s') (fun _ s'' => hmore s'') fun s'' => hmore s''

/-- Only a value that is there is gone on with. -/
theorem ofOption {a : Option α} (hf : ∀ b, a = some b → Makes P (f b)) : Makes P (Op.ofOption a >>= f) := by
  intro s
  rw [Op.wp_bind, Op.wp_ofOption]
  exact ⟨fun b h => hf b h s, fun _ => nothing s.calls⟩

/-- What holds of the calls so far and any more of this kind holds at the end. -/
theorem conclude (hm : Makes P m) {s : Sys} {Q : List Call → Prop}
    (hQ : ∀ calls, (∀ call ∈ calls, P call) → Q (s.calls ++ calls)) :
    Op.wp m (fun _ s' => Q s'.calls) (fun s' => Q s'.calls) s := by
  have hend : ∀ s' : Sys, (∃ calls, s'.calls = s.calls ++ calls ∧ ∀ call ∈ calls, P call) →
      Q s'.calls := by
    rintro s' ⟨calls, hcalls, hkind⟩
    rw [hcalls]
    exact hQ calls hkind
  exact Op.wp_mono (hm s) (fun _ s' => hend s') fun s' => hend s'

end Makes

end Marfs.Mdal
