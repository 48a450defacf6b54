import Marfs.Api.Guard
import Marfs.Config.TraverseResult

/-!
# Permissions guard every modification

A run that keeps clear of the two exceptions keeps a session safe: contexts and directory handles stay at
places that names lead to, a stream that can extend its file was created with the permission to write it,
and every call that is issued is permitted at each of its positions (`run_permitted`).
-/

namespace Marfs.Api

open Marfs.Config List

section Guarded

variable (mdal : Mdal) (config : MarfsConfig) (fuel : Nat)

/-- A call that keeps clear of the exceptions. -/
def Action.Guarded (s : Session) : Action → Prop
  | .rename c frompath topath =>
    ∀ ctxt, s.ctxt c = some ctxt → PairGuarded mdal config fuel ctxt frompath topath 1
  | .link c oldpath newpath nofollow =>
    ∀ ctxt, s.ctxt c = some ctxt →
      PairGuarded mdal config fuel ctxt oldpath newpath (nofollowLinkchk nofollow)
  | .open c _ path flags _ _ _ _ =>
    ∀ ctxt, s.ctxt c = some ctxt → OpenGuarded mdal config fuel ctxt path flags
  | _ => True

variable (directread : Nat → Bool)

def Session.run (s : Session) : List Action → Option Session
  | [] => some s
  | action :: actions => (s.step mdal config directread fuel action).bind fun s => s.run actions

/-- Every call of a run keeps clear of the exceptions. -/
def Session.GuardedRun (s : Session) : List Action → Prop
  | [] => True
  | action :: actions => action.Guarded mdal config fuel s ∧
      ∀ s', s.step mdal config directread fuel action = some s' → s'.GuardedRun actions

end Guarded

section Runs

variable {mdal : Mdal} {config : MarfsConfig} {directread : Nat → Bool} {fuel : Nat}

/-- Contexts and directory handles are at places that names lead to, file handles are safe, and every
call so far was permitted. -/
structure Session.Safe (config : MarfsConfig) (s : Session) : Prop where
  ctxts : ∀ ctxt, some ctxt ∈ s.ctxts → ctxt.pos.Sited config
  fhandles : ∀ fh, some fh ∈ s.fhandles → fh.Safe config
  dhandles : ∀ dh, some dh ∈ s.dhandles → ∃ names, config.Sited dh.ns names
  calls : ∀ call ∈ s.calls, call.Permitted config

variable {α : Type} {n : Nat}

theorem mem_of_join {l : List (Option α)} {a : α} (h : l[n]?.join = some a) : some a ∈ l := by
  rw [Option.join_eq_some_iff] at h
  exact mem_of_getElem? h

theorem mem_set_some {l : List (Option α)} {a : α} {b : Option α} (h : some a ∈ l.set n b) :
    some a ∈ l ∨ b = some a := by
  rcases mem_or_eq_of_mem_set h with h | h
  · exact .inl h
  · exact .inr h.symm

namespace Session.Safe

variable {s : Session}

variable {c f d : Nat} {path : List Char}

theorem ctxt (h : s.Safe config) {ctxt : MarfsCtxt} (hctxt : s.ctxt c = some ctxt) :
    ctxt.pos.Sited config := h.ctxts ctxt (mem_of_join hctxt)

theorem fhandle (h : s.Safe config) {fh : MarfsFhandle} (hfh : s.fhandle f = some fh) :
    fh.Safe config := h.fhandles fh (mem_of_join hfh)

theorem dhandle (h : s.Safe config) {dh : MarfsDhandle} (hdh : s.dhandle d = some dh) :
    ∃ names, config.Sited dh.ns names := h.dhandles dh (mem_of_join hdh)

theorem stream (h : s.Safe config) {f : Option Nat} {stream : Option MarfsFhandle}
    (hstr : s.stream f = some stream) : ∀ fh ∈ stream, fh.Safe config := by
  intro fh hfh
  cases f with
  | none =>
    rw [← Option.some.inj hstr] at hfh
    cases hfh
  | some f =>
    obtain ⟨fh', hfh', rfl⟩ := Option.map_eq_some_iff.1 hstr
    exact Option.some.inj hfh ▸ h.fhandle hfh'

theorem log (h : s.Safe config) {outcome : Outcome} (hout : outcome.Permitted config) :
    (s.log outcome).Safe config where
  ctxts := h.ctxts
  fhandles := h.fhandles
  dhandles := h.dhandles
  calls call hcall := by
    rcases List.mem_append.1 hcall with hcall | hcall
    · exact h.calls call hcall
    · exact hout call hcall

theorem setFhandle (h : s.Safe config) {fh : Option MarfsFhandle} (hfh : ∀ fh' ∈ fh, fh'.Safe config) :
    (s.setFhandle f fh).Safe config where
  ctxts := h.ctxts
  fhandles fh' hfh' := by
    rcases mem_set_some hfh' with hfh' | heq
    · exact h.fhandles fh' hfh'
    · exact hfh fh' heq
  dhandles := h.dhandles
  calls := h.calls

theorem opened (h : s.Safe config) {f : Option Nat} {opened : Opened} (hopen : opened.Safe config) :
    (s.opened f opened).Safe config := by
  have hlog := h.log hopen.calls
  cases f with
  | some f => exact hlog.setFhandle hopen.handle
  | none =>
    refine ⟨hlog.ctxts, fun fh hfh => ?_, hlog.dhandles, hlog.calls⟩
    rcases List.mem_append.1 hfh with hfh | hfh
    · exact hlog.fhandles fh hfh
    · exact hopen.handle fh (List.mem_singleton.1 hfh).symm

/-! ### Steps -/

variable {s' : Session}

theorem onCtxt (h : s.Safe config) {entry : MarfsCtxt → Option Outcome}
    (hent : ∀ ctxt outcome, s.ctxt c = some ctxt → entry ctxt = some outcome →
      outcome.Permitted config) (hstep : s.onCtxt c entry = some s') : s'.Safe config := by
  unfold Session.onCtxt at hstep
  obtain ⟨ctxt, hctxt, hstep⟩ := Option.bind_eq_some_iff.1 hstep
  obtain ⟨outcome, hout, hstep⟩ := Option.bind_eq_some_iff.1 hstep
  exact Option.some.inj hstep ▸ h.log (hent ctxt outcome hctxt hout)

theorem onFhandle (h : s.Safe config) {entry : MarfsFhandle → Outcome}
    (hent : ∀ fh, (entry fh).Permitted config) (hstep : s.onFhandle f entry = some s') : s'.Safe config := by
  obtain ⟨fh, -, rfl⟩ := Option.map_eq_some_iff.1 hstep
  exact h.log (hent fh)

theorem onData (h : s.Safe config) {entry : MarfsFhandle → Handled}
    (hent : ∀ fh, fh.Safe config → (entry fh).Safe config) (hstep : s.onData f entry = some s') :
    s'.Safe config := by
  obtain ⟨fh, hfh, rfl⟩ := Option.map_eq_some_iff.1 hstep
  have hsafe := hent fh (h.fhandle hfh)
  refine (h.log hsafe.calls).setFhandle fun fh' hfh' => ?_
  exact Option.some.inj hfh' ▸ hsafe.handle

theorem onDhandle (h : s.Safe config) {entry : MarfsDhandle → Outcome}
    (hent : ∀ dh, (entry dh).Permitted config) (hstep : s.onDhandle d entry = some s') : s'.Safe config := by
  obtain ⟨dh, -, rfl⟩ := Option.map_eq_some_iff.1 hstep
  exact h.log (hent dh)

theorem onPath (h : s.Safe config) {linkchk : Nat} {atroot : Option Errno} {perm : Nat} {nsop op : Op}
    (hnsop : ∀ need ∈ nsop.needs, need = perm) (hop : ∀ need ∈ op.needs, need = perm)
    (hstep : s.onCtxt c (fun ctxt => pathOp mdal config fuel ctxt path linkchk atroot perm nsop op) =
      some s') : s'.Safe config :=
  h.onCtxt (fun _ _ _ hout => pathOp_permitted hnsop hop hout) hstep

theorem opendir (hnm : config.Named) (h : s.Safe config) {opened : Bool}
    (hstep : s.step mdal config directread fuel (.opendir c path opened) = some s') : s'.Safe config := by
  unfold Session.step at hstep
  obtain ⟨ctxt, hctxt, hstep⟩ := Option.bind_eq_some_iff.1 hstep
  obtain ⟨⟨outcome, dh⟩, hopendir, hstep⟩ := Option.bind_eq_some_iff.1 hstep
  have hlog := h.log (opendir_permitted hopendir)
  refine Option.some.inj hstep ▸ ⟨hlog.ctxts, hlog.fhandles, fun dh' hdh' => ?_, hlog.calls⟩
  rcases List.mem_append.1 hdh' with hdh' | hdh'
  · exact h.dhandles dh' hdh'
  · obtain rfl := List.mem_singleton.1 hdh'
    exact opendir_sited hnm (h.ctxt hctxt) hopendir

theorem chdir (h : s.Safe config) {moved : Option Ctxt}
    (hstep : s.step mdal config directread fuel (.chdir c d moved) = some s') : s'.Safe config := by
  unfold Session.step at hstep
  obtain ⟨ctxt, hctxt, hstep⟩ := Option.bind_eq_some_iff.1 hstep
  obtain ⟨dh, hdh, hstep⟩ := Option.bind_eq_some_iff.1 hstep
  have hlog : (s.log (marfsChdir ctxt dh moved).1).Safe config :=
    h.log (permitted_needless rfl)
  refine Option.some.inj hstep ▸ ⟨fun ctxt' hctxt' => ?_, hlog.fhandles, fun dh' hdh' => ?_, hlog.calls⟩
  · rcases mem_set_some hctxt' with hctxt' | heq
    · exact h.ctxts ctxt' hctxt'
    · rw [← Option.some.inj heq]
      cases moved with
      | none => exact h.ctxt hctxt
      | some moved => exact h.dhandle hdh
  · dsimp only at hdh'
    split at hdh'
    · rcases mem_set_some hdh' with hdh' | heq
      · exact h.dhandles dh' hdh'
      · cases heq
    · exact h.dhandles dh' hdh'

theorem step (hnm : config.Named) (h : s.Safe config) {action : Action}
    (hguard : action.Guarded mdal config fuel s)
    (hstep : s.step mdal config directread fuel action = some s') : s'.Safe config := by
  have hneedless {op : Op} {perm : Nat} (hop : op.needs = []) : ∀ need ∈ op.needs, need = perm :=
    fun need hneed => absurd (hop ▸ hneed) List.not_mem_nil
  cases action with
  | init itype =>
    refine Option.some.inj hstep ▸ ⟨fun ctxt hctxt => ?_, h.fhandles, h.dhandles, h.calls⟩
    rcases List.mem_append.1 hctxt with hctxt | hctxt
    · exact h.ctxts ctxt hctxt
    · rw [Option.some.inj (List.mem_singleton.1 hctxt)]
      exact hnm.root_sited rfl
  | term c =>
    obtain ⟨_, -, rfl⟩ := Option.map_eq_some_iff.1 hstep
    refine ⟨fun ctxt hctxt => ?_, h.fhandles, h.dhandles, h.calls⟩
    rcases mem_set_some hctxt with hctxt | heq
    · exact h.ctxts ctxt hctxt
    · cases heq
  | access => exact h.onPath (hneedless rfl) (hneedless rfl) hstep
  | stat => exact h.onPath (hneedless rfl) (hneedless rfl) hstep
  | chmod => exact h.onPath (by simp [Op.needs]) (by simp [Op.needs]) hstep
  | chown => exact h.onPath (by simp [Op.needs]) (by simp [Op.needs]) hstep
  | rename c frompath topath =>
    exact h.onCtxt (fun ctxt _ hctxt hout =>
      pairOp_permitted hnm (h.ctxt hctxt) rfl (hguard ctxt hctxt) hout) hstep
  | symlink => exact h.onPath (by simp [Op.needs]) (by simp [Op.needs]) hstep
  | readlink => exact h.onPath (hneedless rfl) (hneedless rfl) hstep
  | unlink => exact h.onPath (by simp [Op.needs]) (by simp [Op.needs]) hstep
  | link c oldpath newpath nofollow =>
    exact h.onCtxt (fun ctxt _ hctxt hout =>
      pairOp_permitted hnm (h.ctxt hctxt) rfl (hguard ctxt hctxt) hout) hstep
  | utimens => exact h.onPath (by simp [Op.needs]) (by simp [Op.needs]) hstep
  | mkdir => exact h.onPath (by simp [Op.needs]) (by simp [Op.needs]) hstep
  | rmdir => exact h.onCtxt (fun _ _ _ hout => rmdir_permitted hout) hstep
  | statvfs => exact h.onCtxt (fun _ _ _ hout => statvfs_permitted hout) hstep
  | fstat => exact h.onFhandle (fun _ => permitted_needless rfl) hstep
  | fgetxattr => exact h.onFhandle (fun _ => permitted_needless rfl) hstep
  | flistxattr => exact h.onFhandle (fun _ => permitted_needless rfl) hstep
  | futimens => exact h.onFhandle (fun _ => futimens_permitted) hstep
  | fsetxattr => exact h.onFhandle (fun _ => fwrite_permitted (by simp [Op.needs])) hstep
  | fremovexattr => exact h.onFhandle (fun _ => fwrite_permitted (by simp [Op.needs])) hstep
  | opendir => exact h.opendir hnm hstep
  | closedir d =>
    obtain ⟨dh, -, rfl⟩ := Option.map_eq_some_iff.1 hstep
    have hlog : (s.log (marfsClosedir dh)).Safe config := h.log (permitted_needless rfl)
    refine ⟨hlog.ctxts, hlog.fhandles, fun dh' hdh' => ?_, hlog.calls⟩
    rcases mem_set_some hdh' with hdh' | heq
    · exact h.dhandles dh' hdh'
    · cases heq
  | chdir => exact h.chdir hstep
  | dsetxattr => exact h.onDhandle (fun _ => dwrite_permitted (by simp [Op.needs])) hstep
  | dremovexattr => exact h.onDhandle (fun _ => dwrite_permitted (by simp [Op.needs])) hstep
  | dgetxattr => exact h.onDhandle (fun _ => permitted_needless rfl) hstep
  | dlistxattr => exact h.onDhandle (fun _ => permitted_needless rfl) hstep
  | creat c f path inodeusage datausage closed streamed =>
    obtain ⟨ctxt, hctxt, hstep⟩ := Option.bind_eq_some_iff.1 hstep
    obtain ⟨stream, hstr, hstep⟩ := Option.bind_eq_some_iff.1 hstep
    obtain ⟨opened, hopen, hstep⟩ := Option.bind_eq_some_iff.1 hstep
    exact Option.some.inj hstep ▸ h.opened (creat_safe (h.stream hstr) hopen)
  | «open» c f path flags closed released opened streamed =>
    obtain ⟨ctxt, hctxt, hstep⟩ := Option.bind_eq_some_iff.1 hstep
    obtain ⟨stream, hstr, hstep⟩ := Option.bind_eq_some_iff.1 hstep
    obtain ⟨result, hres, hstep⟩ := Option.bind_eq_some_iff.1 hstep
    exact Option.some.inj hstep ▸
      h.opened (open_safe (h.stream hstr) (hguard ctxt hctxt) hres)
  | close =>
    obtain ⟨fh, -, rfl⟩ := Option.map_eq_some_iff.1 hstep
    exact (h.log close_permitted).setFhandle fun _ hfh => by cases hfh
  | release =>
    obtain ⟨fh, -, rfl⟩ := Option.map_eq_some_iff.1 hstep
    exact (h.log release_permitted).setFhandle fun _ hfh => by cases hfh
  | flush => exact h.onData (fun _ _ => flush_safe) hstep
  | setrecoverypath c f recovpath =>
    obtain ⟨ctxt, hctxt, hstep⟩ := Option.bind_eq_some_iff.1 hstep
    obtain ⟨fh, hfh, hstep⟩ := Option.bind_eq_some_iff.1 hstep
    obtain ⟨outcome, hout, hstep⟩ := Option.bind_eq_some_iff.1 hstep
    exact Option.some.inj hstep ▸ h.log (setrecoverypath_permitted hout)
  | read f lost => exact h.onData (fun _ hsafe => read_safe hsafe lost) hstep
  | write f lost => exact h.onData (fun _ hsafe => write_safe hsafe lost) hstep
  | seek f lost => exact h.onData (fun _ hsafe => seek_safe hsafe lost) hstep
  | readAtOffset f seeklost sought readlost =>
    exact h.onData (fun _ hsafe => readAtOffset_safe hsafe seeklost sought readlost) hstep
  | chunkbounds => exact h.onFhandle (fun _ => chunkbounds_permitted) hstep
  | ftruncate => exact h.onData (fun _ hsafe => ftruncate_safe hsafe) hstep
  | extend f lost => exact h.onData (fun _ hsafe => extend_safe hsafe lost) hstep

theorem run (hnm : config.Named) (h : s.Safe config) {actions : List Action}
    (hguard : s.GuardedRun mdal config fuel directread actions)
    (hrun : s.run mdal config fuel directread actions = some s') : s'.Safe config := by
  induction actions generalizing s with
  | nil => exact Option.some.inj hrun ▸ h
  | cons action actions ih =>
    obtain ⟨next, hstep, hrun⟩ := Option.bind_eq_some_iff.1 hrun
    exact ih (h.step hnm hguard.1 hstep) (hguard.2 next hstep) hrun

end Session.Safe

theorem Session.empty_safe : Session.empty.Safe config where
  ctxts _ h := nomatch h
  fhandles _ h := nomatch h
  dhandles _ h := nomatch h
  calls _ h := nomatch h

/-- In a run that keeps clear of the exceptions every call that is issued is permitted at each of its
positions. -/
theorem run_permitted (hnamed : config.Named) {actions : List Action} {s : Session}
    (hguarded : Session.empty.GuardedRun mdal config fuel directread actions)
    (hrun : Session.empty.run mdal config fuel directread actions = some s) :
    ∀ call ∈ s.calls, call.Permitted config :=
  (Session.empty_safe.run hnamed hguarded hrun).calls

end Runs

/-! ### A sample tree -/

/-- A namespace, and a ghost of it that batch use may only read. -/
def sampleSpaces : MarfsConfig where
  mountpoint := "/m".toList
  rootns := 0
  ns
    | 0 => ⟨"r|/.".toList, 0, 0, 15, 15, 0, none, [("a".toList, 1), ("g".toList, 2)], none, none⟩
    | 1 => ⟨"r|/a".toList, 0, 0, 15, 15, 0, some 0, [], none, none⟩
    | 2 => ⟨"r|/g".toList, 0, 0, 15, 1, 0, some 0, [], some 1, none⟩
    | _ => ⟨"r|/.".toList, 0, 0, 0, 0, 0, none, [], none, none⟩

variable {n : Nat}

theorem sampleSpaces_leads {names : List (List Char)} (h : sampleSpaces.Leads names n) :
    (names = [] ∧ n = 0) ∨ (names = [['a']] ∧ n = 1) ∨ (names = [['g']] ∧ n = 2) := by
  induction h with
  | root => exact .inl ⟨rfl, rfl⟩
  | @sub names n node h mem ih =>
    rcases ih with ⟨rfl, rfl⟩ | ⟨-, rfl⟩ | ⟨-, rfl⟩
    · rcases List.mem_cons.1 mem with rfl | mem
      · exact .inr (.inl ⟨rfl, rfl⟩)
      · obtain rfl := List.mem_singleton.1 mem
        exact .inr (.inr ⟨rfl, rfl⟩)
    · cases mem
    · cases mem

theorem sampleSpaces_subnodes {node : List Char × Nat} (h : node ∈ (sampleSpaces.ns n).subnodes) :
    n = 0 ∧ (node = ("a".toList, 1) ∨ node = ("g".toList, 2)) := by
  match n with
  | 0 =>
    refine ⟨rfl, ?_⟩
    rcases List.mem_cons.1 h with rfl | h
    · exact .inl rfl
    · exact .inr (List.mem_singleton.1 h)
  | 1 => cases h
  | 2 => cases h
  | n + 3 => cases h

theorem sampleSpaces_named : sampleSpaces.Named where
  source
    | 0 | 1 | 2 | _ + 3 => rfl
  child n node hnode := by
    obtain ⟨rfl, rfl | rfl⟩ := sampleSpaces_subnodes hnode
    · rfl
    · rfl
  ghost
    | 0, h | 1, h | _ + 3, h => absurd rfl h
    | 2, _ => rfl
  name n node hnode := by
    obtain ⟨rfl, rfl | rfl⟩ := sampleSpaces_subnodes hnode
    · decide
    · decide
  linked n node hnode := by
    obtain ⟨rfl, rfl | rfl⟩ := sampleSpaces_subnodes hnode
    · exact ⟨['r'], [], by decide, by decide, .inl rfl, rfl⟩
    · exact ⟨['r'], [], by decide, by decide, .inl rfl, rfl⟩
  acyclic := by
    refine ⟨id, fun n parent hpar => ?_⟩
    match n with
    | 0 => cases hpar
    | 1 => exact Option.some.inj hpar ▸ Nat.one_pos
    | 2 => exact Option.some.inj hpar ▸ Nat.two_pos
    | n + 3 => cases hpar
  rootparent := rfl
  rootghost := rfl
  rootid := ⟨['r'], by decide, by decide, rfl⟩
  filename n node hnode := by
    obtain ⟨rfl, rfl | rfl⟩ := sampleSpaces_subnodes hnode
    · decide
    · decide
  distinct
    | 0 => by decide
    | 1 | 2 | _ + 3 => nodup_nil
  id names n h hne := by
    rcases sampleSpaces_leads h with ⟨rfl, -⟩ | ⟨rfl, rfl⟩ | ⟨rfl, rfl⟩
    · exact absurd rfl hne
    · exact ⟨['r'], by decide, by decide, rfl⟩
    · exact ⟨['r'], by decide, by decide, rfl⟩
  target g t htgt := by
    match g with
    | 0 => cases htgt
    | 1 => cases htgt
    | 2 =>
      have hleads := @MarfsConfig.Leads.sub sampleSpaces [] 0 ("a".toList, 1) .root mem_cons_self
      exact ⟨_, Option.some.inj htgt ▸ hleads⟩
    | g + 3 => cases htgt

def sampleActions : List Action :=
  [.init .batch, .creat 0 none "/m/a/f".toList none none true .opened, .write 0 false, .extend 0 false,
    .close 0, .rename 0 "/m/a/f".toList "/m/a/h".toList]

def sampleSession : Session where
  ctxts := [some ⟨.batch, configEstablishposition sampleSpaces⟩]
  fhandles := [none]
  dhandles := []
  calls := [⟨.datastreamCreate, .batch, [.table 1]⟩, ⟨.datastreamWrite, .batch, [.table 1]⟩,
    ⟨.datastreamExtend .create, .batch, [.table 1]⟩, ⟨.datastreamClose, .batch, [.table 1]⟩,
    ⟨.rename, .batch, [.table 1, .table 1]⟩]

theorem sampleActions_guarded :
    Session.empty.GuardedRun sampleMdal sampleSpaces 20 (fun _ => false) sampleActions := by
  refine ⟨trivial, fun s hs => ?_⟩
  obtain rfl := Option.some.inj hs
  refine ⟨trivial, fun s hs => ?_⟩
  obtain rfl := Option.some.inj hs
  refine ⟨trivial, fun s hs => ?_⟩
  obtain rfl := Option.some.inj hs
  refine ⟨trivial, fun s hs => ?_⟩
  obtain rfl := Option.some.inj hs
  refine ⟨trivial, fun s hs => ?_⟩
  obtain rfl := Option.some.inj hs
  refine ⟨fun ctxt hctxt => ?_, fun _ _ => trivial⟩
  obtain rfl := Option.some.inj hctxt
  intro oldpos oldsub olddepth newpos newsub newdepth hold hnew holddepth hnewdepth hleav
  obtain ⟨target, htgt, -⟩ := hleav
  cases hold
  cases htgt

theorem sampleActions_permitted :
    Session.empty.run sampleMdal sampleSpaces 20 (fun _ => false) sampleActions = some sampleSession ∧
      ∀ call ∈ sampleSession.calls, call.Permitted sampleSpaces := by
  have hrun : Session.empty.run sampleMdal sampleSpaces 20 (fun _ => false) sampleActions =
      some sampleSession := rfl
  exact ⟨hrun, run_permitted sampleSpaces_named sampleActions_guarded hrun⟩

def sampleCopy : NsRef := .copy (sampleSpaces.ghostCopy 2 1 [])

/-- A file is moved out of the ghost into the namespace that the ghost shows, and a file is created in the
ghost, where neither is allowed. -/
theorem sampleSpaces_unchecked :
    sampleSpaces.Named ∧
      (∃ s, Session.empty.run sampleMdal sampleSpaces 20 (fun _ => false)
          [.init .batch, .rename 0 "/m/g/x".toList "/m/a/y".toList] = some s ∧
        ∃ call ∈ s.calls, ¬call.Permitted sampleSpaces) ∧
      ∃ s, Session.empty.run sampleMdal sampleSpaces 20 (fun _ => false)
          [.init .batch, .open 0 none "/m/g/x".toList (oAsync ||| oCreat ||| oWronly) true true true
            .opened] = some s ∧
        ∃ call ∈ s.calls, ¬call.Permitted sampleSpaces := by
  have hrename : (⟨.rename, .batch, [sampleCopy, .table 1]⟩ : Call) ∈
      [(⟨.rename, .batch, [sampleCopy, .table 1]⟩ : Call)] := mem_singleton_self _
  have hopen : (⟨.open (oCreat ||| oWronly), .batch, [sampleCopy]⟩ : Call) ∈
      [(⟨.open (oCreat ||| oWronly), .batch, [sampleCopy]⟩ : Call)] := mem_singleton_self _
  exact ⟨sampleSpaces_named, ⟨_, rfl, _, hrename, by decide⟩, ⟨_, rfl, _, hopen, by decide⟩⟩

end Marfs.Api
