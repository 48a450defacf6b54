import Marfs.Api.Session
import Marfs.Config.Sites

/-!
# The check before the call

An entry point checks the permissions that its call needs, with two exceptions.  A rename or a link
checks one of its positions, and a ghost can deny what its target grants (`LeavesGhost`); and an open with
`O_ASYNC` passes on flags that create or truncate with no more than a check for reading (`OpenGuarded`).

That `marfs_extend` checks nothing does no harm: a stream that can extend its file comes from
`marfs_creat`, which did (`MarfsFhandle.Safe`).
-/

namespace Marfs.Api

open Marfs.Config List
open Marfs.Datastream (StreamType)

/-! ## What a run has to keep clear of -/

section Guarded

variable (mdal : Mdal) (config : MarfsConfig) (fuel : Nat)

def LeavesGhost (config : MarfsConfig) (itype : Interface) (old new : NsRef) : Prop :=
  ∃ target, (config.deref old).ghtarget = some target ∧ new = .table target ∧
    ¬ Grants itype (config.deref old) nsWritemeta ∧ Grants itype (config.deref new) nsWritemeta

def PairGuarded (ctxt : MarfsCtxt) (oldpath newpath : List Char) (linkchk : Nat) : Prop :=
  ∀ oldpos oldsub olddepth newpos newsub newdepth,
    pathshift mdal config fuel ctxt oldpath linkchk = some (.found oldpos oldsub olddepth) →
    pathshift mdal config fuel ctxt newpath linkchk = some (.found newpos newsub newdepth) →
    olddepth ≠ 0 → newdepth ≠ 0 → ¬ LeavesGhost config ctxt.itype oldpos.ns newpos.ns

/-- An open with `O_ASYNC` creates or truncates no file of a namespace that can be read but denies
it. -/
def OpenGuarded (ctxt : MarfsCtxt) (path : List Char) (flags : Nat) : Prop :=
  flags &&& oAsync ≠ 0 → ∀ pos subpath depth,
    pathshift mdal config fuel ctxt path 1 = some (.found pos subpath depth) → depth ≠ 0 →
    Grants ctxt.itype (config.deref pos.ns) nsReadmeta →
    (flags &&& oCreat ≠ 0 → Grants ctxt.itype (config.deref pos.ns) nsWritemeta) ∧
      (flags &&& oTrunc ≠ 0 → Grants ctxt.itype (config.deref pos.ns) nsWritedata)

end Guarded

/-! ## Paths -/

section Paths

variable {mdal : Mdal} {config : MarfsConfig} {fuel : Nat} {ctxt : MarfsCtxt}

variable {path : List Char} {perm : Nat} {outcome : Outcome}

variable {linkchk : Nat} {itype : Interface} {op : Op}

variable {pos : MarfsPosition} {ns : MarfsNs}

theorem pathshift_sited (hnm : config.Named) (hctxt : ctxt.pos.Sited config) {depth : Nat}
    {subpath : List Char}
    (h : pathshift mdal config fuel ctxt path linkchk = some (.found pos subpath depth)) :
    pos.Sited config := by
  unfold pathshift at h
  split at h
  next => cases h
  next => cases h
  next => cases h
  next pos' subpath' depth' htraverse =>
    have hsited : pos'.Sited config := configTraverse_sited hnm hctxt htraverse
    split at h
    next =>
      split at h
      · cases h
      · cases h
        exact hsited
    next =>
      cases h
      exact hsited

theorem grants_of_denies (h : ¬ denies itype ns perm = true) : Grants itype ns perm :=
  denies_eq_false.1 (Bool.eq_false_iff.2 h)

theorem checked_permitted (hneeds : ∀ need ∈ op.needs, need = perm) :
    (checked config ctxt pos perm op).Permitted config := by
  unfold checked
  split
  next => exact Outcome.permitted_refuse config _
  next hgrant =>
    refine Outcome.permitted_issue fun ref href need hneed => ?_
    rw [List.mem_singleton.1 href, hneeds need hneed]
    exact grants_of_denies hgrant

theorem pathOp_permitted {atroot : Option Errno} {nsop : Op} (hnsop : ∀ need ∈ nsop.needs, need = perm)
    (hop : ∀ need ∈ op.needs, need = perm)
    (h : pathOp mdal config fuel ctxt path linkchk atroot perm nsop op = some outcome) :
    outcome.Permitted config := by
  unfold pathOp at h
  split at h
  next => cases h
  next =>
    cases h
    exact Outcome.permitted_refuse config _
  next =>
    split at h
    next =>
      cases h
      exact Outcome.permitted_refuse config _
    next =>
      cases h
      apply checked_permitted
      split
      · exact hnsop
      · exact hop

theorem rmdir_permitted (h : marfsRmdir mdal config fuel ctxt path = some outcome) :
    outcome.Permitted config := by
  unfold marfsRmdir at h
  split at h
  next => cases h
  next =>
    cases h
    exact Outcome.permitted_refuse config _
  next =>
    cases h
    apply checked_permitted
    split <;> simp [Op.needs]

theorem statvfs_permitted (h : marfsStatvfs mdal config fuel ctxt path = some outcome) :
    outcome.Permitted config := by
  unfold marfsStatvfs at h
  split at h
  next => cases h
  next =>
    cases h
    exact Outcome.permitted_refuse config _
  next =>
    split at h
    next =>
      cases h
      exact Outcome.permitted_refuse config _
    next =>
      cases h
      apply checked_permitted
      simp [Op.needs]

/-! ### Two positions -/

theorem grants_of_and {ghost target : MarfsNs} (hiperms : ns.iperms = ghost.iperms &&& target.iperms)
    (hbperms : ns.bperms = ghost.bperms &&& target.bperms) (h : Grants itype ns perm) :
    Grants itype target perm := by
  have hzero {a b : Nat} (hb : b &&& perm = 0) : (a &&& b) &&& perm = 0 := by
    rw [Nat.and_assoc, hb, Nat.and_zero]
  cases itype with
  | interactive => exact fun hb => h (hiperms ▸ hzero hb)
  | batch => exact fun hb => h (hbperms ▸ hzero hb)

theorem pair_grants (hnm : config.Named) {old new : NsRef} {names names' : List (List Char)}
    (hold : config.Sited old names) (hnew : config.Sited new names')
    (hcross : ¬ crossNs config (config.deref old) (config.deref new) = true)
    (hgrant : Grants itype (config.deref new) nsWritemeta) (hguard : ¬ LeavesGhost config itype old new) :
    Grants itype (config.deref old) nsWritemeta := by
  have hcases : (config.deref old).idstr = (config.deref new).idstr ∨
      notGhostOf config (config.deref old) (config.deref new) = false ∨
      notGhostOf config (config.deref new) (config.deref old) = false := by
    unfold crossNs at hcross
    by_cases hid : (config.deref old).idstr = (config.deref new).idstr
    · exact .inl hid
    · cases hold : notGhostOf config (config.deref old) (config.deref new) with
      | false => exact .inr (.inl rfl)
      | true => simp [hid, hold] at hcross; exact .inr (.inr hcross)
  have hghost {ref ref' : NsRef} {names names' : List (List Char)} (hsited : config.Sited ref names)
      (hsited' : config.Sited ref' names')
      (h : notGhostOf config (config.deref ref) (config.deref ref') = false) :
      ∃ target, (config.deref ref).ghtarget = some target ∧ ref' = .table target := by
    unfold notGhostOf at h
    split at h
    next => cases h
    next target htgt =>
      simp only [Bool.or_eq_false_iff, Option.isSome_eq_false_iff, Option.isNone_iff_eq_none,
        decide_eq_false_iff_not, Decidable.not_not] at h
      obtain ⟨hnone, hid⟩ := h
      obtain ⟨⟨tnames, htleads⟩, -⟩ := hsited.target hnm htgt
      cases hsited' with
      | standard leads => exact ⟨target, htgt, by rw [htleads.idstr_unique hnm leads hid]⟩
      | ghost => cases hnone
  rcases hcases with hid | hghostold | hghostnew
  · rw [hold.unique hnm hnew hid]
    exact hgrant
  · obtain ⟨target, htgt, hns⟩ := hghost hold hnew hghostold
    by_contra hdenies
    exact hguard ⟨target, htgt, hns, hdenies, hgrant⟩
  · obtain ⟨target, htgt, rfl⟩ := hghost hnew hold hghostnew
    obtain ⟨-, g, hiperms, hbperms⟩ := hnew.target hnm htgt
    exact grants_of_and hiperms hbperms hgrant

theorem pairOp_permitted (hnm : config.Named) (hctxt : ctxt.pos.Sited config) {oldpath newpath : List Char}
    {atroot : Errno} (hop : op.needs = [nsWritemeta])
    (hguard : PairGuarded mdal config fuel ctxt oldpath newpath linkchk)
    (h : pairOp mdal config fuel ctxt oldpath newpath linkchk atroot op = some outcome) :
    outcome.Permitted config := by
  have hrefuse (errno : Errno) {outcome : Outcome} (h : some (Outcome.refuse errno) = some outcome) :
      outcome.Permitted config := Option.some.inj h ▸ Outcome.permitted_refuse config errno
  unfold pairOp at h
  split at h
  next => cases h
  next => exact hrefuse _ h
  next oldpos oldsub olddepth hold =>
    split at h
    next => exact hrefuse _ h
    next holddepth =>
      split at h
      next => cases h
      next => exact hrefuse _ h
      next newpos newsub newdepth hnew =>
        split at h
        next => exact hrefuse _ h
        next hnewdepth =>
          split at h
          next => exact hrefuse _ h
          next hcross =>
            split at h
            next => exact hrefuse _ h
            next hgrant =>
              cases h
              obtain ⟨names, holdsited⟩ := pathshift_sited hnm hctxt hold
              obtain ⟨names', hnewsited⟩ := pathshift_sited hnm hctxt hnew
              have hnewgrants := grants_of_denies hgrant
              have holdgrants := pair_grants hnm holdsited hnewsited hcross hnewgrants
                (hguard _ _ _ _ _ _ hold hnew holddepth hnewdepth)
              refine Outcome.permitted_issue fun ref href need hneed => ?_
              rw [hop, mem_singleton] at hneed
              subst hneed
              rcases List.mem_cons.1 href with rfl | href
              · exact holdgrants
              · rw [List.mem_singleton.1 href]
                exact hnewgrants

end Paths

/-! ## Handles -/

section Handles

variable {config : MarfsConfig} {directread : Nat → Bool} {fh : MarfsFhandle}

/-- A handle whose stream can extend its file may write it. -/
def MarfsFhandle.Safe (config : MarfsConfig) (fh : MarfsFhandle) : Prop :=
  fh.datastream = some .create → Grants fh.itype (config.deref fh.ns) nsWritedata

structure Handled.Safe (config : MarfsConfig) (handled : Handled) : Prop where
  calls : handled.outcome.Permitted config
  handle : handled.handle.Safe config

variable {op : Op}

variable {positions : List NsRef}

theorem permitted_needless {itype : Interface} (hop : op.needs = []) :
    (Outcome.issue op itype positions).Permitted config :=
  Outcome.permitted_issue (Call.permitted_of_needs hop)

theorem permitted_checked {perm : Nat} (hneeds : ∀ need ∈ op.needs, need = perm)
    (hpositions : ∀ ref ∈ positions, ref = fh.ns)
    (hgrant : ¬ denies fh.itype (config.deref fh.ns) perm = true) :
    (Outcome.issue op fh.itype positions).Permitted config := by
  refine Outcome.permitted_issue fun ref href need hneed => ?_
  rw [hpositions ref href, hneeds need hneed]
  exact grants_of_denies hgrant

theorem metaPositions_eq : ∀ ref ∈ fh.metaPositions, ref = fh.ns := by
  intro ref href
  unfold MarfsFhandle.metaPositions at href
  split at href
  · exact List.mem_singleton.1 href
  · cases href

theorem dataPositions_eq : ∀ ref ∈ fh.dataPositions, ref = fh.ns := by
  intro ref href
  unfold MarfsFhandle.dataPositions at href
  split at href
  · exact List.mem_singleton.1 href
  · cases href

theorem fwrite_permitted (hneeds : ∀ need ∈ op.needs, need = nsWritemeta) :
    (fwrite config fh op).Permitted config := by
  unfold fwrite
  split
  next => exact Outcome.permitted_refuse config _
  next hgrant => exact permitted_checked hneeds metaPositions_eq hgrant

theorem futimens_permitted : (marfsFutimens config directread fh).Permitted config := by
  unfold marfsFutimens
  split
  next => exact Outcome.permitted_refuse config _
  next hgrant =>
    split
    · exact permitted_checked (by simp [Op.needs]) metaPositions_eq hgrant
    · exact permitted_checked (by simp [Op.needs]) dataPositions_eq hgrant

theorem chunkbounds_permitted : (marfsChunkbounds fh).Permitted config := by
  unfold marfsChunkbounds
  split
  · exact permitted_needless rfl
  · exact Outcome.permitted_refuse config _

theorem dwrite_permitted {dh : MarfsDhandle} (hneeds : ∀ need ∈ op.needs, need = nsWritemeta) :
    (dwrite config dh op).Permitted config := by
  unfold dwrite
  split
  next => exact Outcome.permitted_refuse config _
  next hgrant =>
    refine Outcome.permitted_issue fun ref href need hneed => ?_
    rw [List.mem_singleton.1 href, hneeds need hneed]
    exact grants_of_denies hgrant

/-! ### Data -/

theorem drop_safe : fh.drop.Safe config := nofun

theorem refuse_safe (h : fh.Safe config) (errno : Errno) :
    Handled.Safe config ⟨.refuse errno, fh⟩ := ⟨Outcome.permitted_refuse config errno, h⟩

theorem onStream_safe (h : fh.Safe config) {lost : Bool}
    (hcall : (Outcome.issue op fh.itype [fh.ns]).Permitted config) : (onStream fh op lost).Safe config := by
  refine ⟨hcall, ?_⟩
  unfold onStream
  dsimp only
  split
  · exact drop_safe
  · exact h

theorem onMeta_safe (h : fh.Safe config)
    (hcall : (Outcome.issue op fh.itype fh.metaPositions).Permitted config) :
    (onMeta config directread fh op).Safe config := by
  unfold onMeta
  split
  · exact refuse_safe h _
  · split
    · exact ⟨hcall, h⟩
    · exact ⟨fun call hmem => (nomatch hmem), h⟩

theorem read_safe (h : fh.Safe config) (lost : Bool) : (marfsRead config directread fh lost).Safe config := by
  unfold marfsRead
  split
  · exact refuse_safe h _
  · split
    · refine ⟨permitted_needless rfl, ?_⟩
      dsimp only
      split
      · exact nofun
      · exact h
    · exact onMeta_safe h (permitted_needless rfl)

theorem write_safe (h : fh.Safe config) (lost : Bool) : (marfsWrite config fh lost).Safe config := by
  unfold marfsWrite
  split
  next => exact refuse_safe h _
  next hgrant =>
    split
    · exact onStream_safe h (permitted_checked (by simp [Op.needs]) (by simp) hgrant)
    · exact refuse_safe h _

theorem seek_safe (h : fh.Safe config) (lost : Bool) : (marfsSeek config directread fh lost).Safe config := by
  unfold marfsSeek
  split
  · exact onStream_safe h (permitted_needless rfl)
  · exact onMeta_safe h (permitted_needless rfl)

theorem readAtOffset_safe (h : fh.Safe config) (seeklost sought readlost : Bool) :
    (marfsReadAtOffset config directread fh seeklost sought readlost).Safe config := by
  unfold marfsReadAtOffset
  split
  · exact refuse_safe h _
  · have hseek : (marfsSeek config directread fh seeklost).Safe config := seek_safe h seeklost
    dsimp only
    split
    · exact hseek
    · generalize marfsSeek config directread fh seeklost = seek at hseek
      have hread : (if seek.handle.datastream.isSome then
          onStream seek.handle .datastreamRead readlost
          else ⟨.issue .read seek.handle.itype seek.handle.metaPositions, seek.handle⟩).Safe config := by
        split
        · exact onStream_safe hseek.handle (permitted_needless rfl)
        · exact ⟨permitted_needless rfl, hseek.handle⟩
      refine ⟨fun call hmem => ?_, hread.handle⟩
      rcases List.mem_append.1 hmem with hmem | hmem
      · exact hseek.calls call hmem
      · exact hread.calls call hmem

theorem ftruncate_safe (h : fh.Safe config) : (marfsFtruncate config directread fh).Safe config := by
  unfold marfsFtruncate
  split
  next => exact refuse_safe h _
  next hgrant =>
    split
    · exact onStream_safe h (permitted_checked (by simp [Op.needs]) (by simp) hgrant)
    · exact onMeta_safe h (permitted_checked (by simp [Op.needs]) metaPositions_eq hgrant)

theorem extend_safe (h : fh.Safe config) (lost : Bool) : (marfsExtend fh lost).Safe config := by
  unfold marfsExtend
  split
  next type htype =>
    apply onStream_safe h
    refine Outcome.permitted_issue fun ref href need hneed => ?_
    unfold Op.needs at hneed
    dsimp only at hneed
    split at hneed
    next hcreat =>
      rw [List.mem_singleton.1 href, List.mem_singleton.1 hneed]
      exact h (hcreat ▸ htype)
    next => cases hneed
  next => exact refuse_safe h _

/-! ### Closing -/

theorem closeCalls_permitted (hop : op.needs = []) : ∀ call ∈ closeCalls fh op, call.Permitted config := by
  intro call hmem
  unfold closeCalls at hmem
  split at hmem
  · rw [List.mem_singleton.1 hmem]
    exact Call.permitted_of_needs hop
  · split at hmem
    · rw [List.mem_singleton.1 hmem]
      exact Call.permitted_of_needs rfl
    · cases hmem

theorem close_permitted : (marfsClose fh).Permitted config := by
  unfold marfsClose
  split
  · exact Outcome.permitted_refuse config _
  · exact closeCalls_permitted rfl

theorem release_permitted : (marfsRelease fh).Permitted config := closeCalls_permitted rfl

theorem flush_safe : (marfsFlush fh).Safe config := ⟨closeCalls_permitted rfl, drop_safe⟩

end Handles

/-! ### Opening -/

section Opening

variable {mdal : Mdal} {config : MarfsConfig} {fuel : Nat} {ctxt : MarfsCtxt}

structure Opened.Safe (config : MarfsConfig) (opened : Opened) : Prop where
  calls : opened.outcome.Permitted config
  handle : ∀ fh ∈ opened.handle, fh.Safe config

variable {outcome : Outcome} {flags : Nat} {opened : Bool}

theorem setrecoverypath_permitted {fh : MarfsFhandle} {recovpath : List Char}
    (h : marfsSetrecoverypath mdal config fuel ctxt fh recovpath = some outcome) :
    outcome.Permitted config := by
  unfold marfsSetrecoverypath at h
  split at h
  next => exact Option.some.inj h ▸ Outcome.permitted_refuse config _
  next =>
    split at h
    next => cases h
    next => exact Option.some.inj h ▸ Outcome.permitted_refuse config _
    next =>
      split at h
      · exact Option.some.inj h ▸ Outcome.permitted_refuse config _
      · exact Option.some.inj h ▸ permitted_needless rfl

structure Opening (config : MarfsConfig) (stream : Option MarfsFhandle) (calls : List Call) : Prop where
  stream : ∀ fh ∈ stream, fh.Safe config
  calls : ∀ call ∈ calls, call.Permitted config

variable {stream : Option MarfsFhandle} {calls : List Call} {path : List Char}

theorem Opening.append (h : Opening config stream calls) {more : List Call}
    (hmore : ∀ call ∈ more, call.Permitted config) : Opening config stream (calls ++ more) := by
  refine ⟨h.stream, fun call hcall => ?_⟩
  rcases List.mem_append.1 hcall with hcall | hcall
  · exact h.calls call hcall
  · exact hmore call hcall

theorem refused_safe (h : ∀ fh ∈ stream, fh.Safe config) (errno : Errno) :
    (Opened.refuse errno stream).Safe config :=
  ⟨Outcome.permitted_refuse config errno, h⟩

theorem map_drop_safe : ∀ fh ∈ stream.map MarfsFhandle.drop, fh.Safe config := by
  intro fh hfh
  obtain ⟨_, -, rfl⟩ := Option.map_eq_some_iff.1 hfh
  exact drop_safe

theorem prepare_safe (h : ∀ fh ∈ stream, fh.Safe config) (closed : Bool) :
    match prepare stream closed with
    | .error opened => opened.Safe config
    | .ok (stream, calls) => Opening config stream calls := by
  cases stream with
  | none => exact ⟨h, fun call hcall => nomatch hcall⟩
  | some fh =>
    dsimp only [prepare]
    by_cases hstr : fh.datastream.isSome = true
    · rw [if_pos hstr]
      exact ⟨h, fun call hcall => nomatch hcall⟩
    · have hsafe : ∀ fh' ∈ some { fh with metahandle := false }, fh'.Safe config := by
        intro fh' hfh'
        obtain rfl := Option.some.inj hfh'
        intro hcreat
        exact absurd (congrArg Option.isSome hcreat) hstr
      have hcalls : ∀ call ∈ [(⟨.close, fh.itype, [fh.ns]⟩ : Call)], call.Permitted config := by
        intro call hcall
        rw [List.mem_singleton.1 hcall]
        exact Call.permitted_of_needs rfl
      rw [if_neg hstr]
      by_cases hmeta : fh.metahandle = true
      · rw [if_neg (not_not.2 hmeta)]
        cases closed with
        | true => exact ⟨hsafe, hcalls⟩
        | false => exact ⟨hcalls, hsafe⟩
      · rw [if_pos hmeta]
        exact refused_safe h _

theorem streamFailed_safe (h : Opening config stream calls) (lost : Bool) :
    (streamFailed calls stream lost).Safe config := by
  cases stream with
  | none => exact ⟨h.calls, fun fh hfh => nomatch hfh⟩
  | some fh =>
    refine ⟨h.calls, fun fh' hfh' => ?_⟩
    obtain rfl := Option.some.inj hfh'
    cases lost with
    | true => exact drop_safe
    | false => exact h.stream fh rfl

theorem grants_of_rwmeta {itype : Interface} {ns : MarfsNs}
    (h : ¬((itype ≠ .interactive ∧ (ns.bperms &&& nsRwmeta ≠ nsRwmeta ∨ ns.bperms &&& nsWritedata = 0)) ∨
      (itype ≠ .batch ∧ (ns.iperms &&& nsRwmeta ≠ nsRwmeta ∨ ns.iperms &&& nsWritedata = 0)))) :
    Grants itype ns nsWritemeta ∧ Grants itype ns nsWritedata := by
  have hmeta {perms : Nat} (hrw : perms &&& nsRwmeta = nsRwmeta) : perms &&& nsWritemeta ≠ 0 := by
    have hspl : nsWritemeta = nsRwmeta &&& nsWritemeta := rfl
    rw [hspl, ← Nat.and_assoc, hrw]
    decide
  cases itype with
  | interactive =>
    have hperms : ¬(ns.iperms &&& nsRwmeta ≠ nsRwmeta ∨ ns.iperms &&& nsWritedata = 0) :=
      fun hdenied => h (.inr ⟨nofun, hdenied⟩)
    rw [not_or, not_not] at hperms
    exact ⟨hmeta hperms.1, hperms.2⟩
  | batch =>
    have hperms : ¬(ns.bperms &&& nsRwmeta ≠ nsRwmeta ∨ ns.bperms &&& nsWritedata = 0) :=
      fun hdenied => h (.inl ⟨nofun, hdenied⟩)
    rw [not_or, not_not] at hperms
    exact ⟨hmeta hperms.1, hperms.2⟩

variable {closed : Bool} {streamed : Streamed} {pos : MarfsPosition}

theorem creat_safe (hstr : ∀ fh ∈ stream, fh.Safe config) {inodeusage datausage : Option Nat}
    {opened : Opened}
    (h : marfsCreat mdal config fuel ctxt stream path inodeusage datausage closed streamed =
      some opened) : opened.Safe config := by
  unfold marfsCreat at h
  split at h
  next => cases h
  next => exact Option.some.inj h ▸ refused_safe hstr _
  next pos _ depth _ =>
    dsimp only at h
    split at h
    next => exact Option.some.inj h ▸ refused_safe hstr _
    next hperms =>
      obtain ⟨hmeta, hdata⟩ := grants_of_rwmeta hperms
      split at h
      next => exact Option.some.inj h ▸ refused_safe hstr _
      next =>
        split at h
        next => exact Option.some.inj h ▸ refused_safe hstr _
        next =>
          have hprep := prepare_safe hstr closed
          split at h
          next opened' heq =>
            rw [heq] at hprep
            exact Option.some.inj h ▸ hprep
          next stream' calls heq =>
            rw [heq] at hprep
            have hcreat : Opening config stream'
                (calls ++ [⟨.datastreamCreate, ctxt.itype, [pos.ns]⟩]) := by
              refine Opening.append hprep fun call hcall => ?_
              rw [List.mem_singleton.1 hcall]
              intro ref href perm hperm
              rw [List.mem_singleton.1 href, List.mem_singleton.1 hperm]
              exact hmeta
            split at h
            next => exact Option.some.inj h ▸ streamFailed_safe hprep _
            next =>
              split at h
              next =>
                refine Option.some.inj h ▸ ⟨hcreat.calls, fun fh hfh => ?_⟩
                obtain rfl := Option.some.inj hfh
                exact fun _ => hdata
              next => exact Option.some.inj h ▸ streamFailed_safe hcreat _
              next => exact Option.some.inj h ▸ streamFailed_safe hcreat _

theorem clearAsync_and {flag : Nat} (hflag : oAsync &&& flag = 0) (flags : Nat) :
    clearAsync flags &&& flag = flags &&& flag := by
  unfold clearAsync
  rw [Nat.and_xor_distrib_right, Nat.and_assoc, hflag, Nat.and_zero, Nat.xor_zero]

theorem openAsync_safe (h : Opening config stream calls)
    (hcreat : flags &&& oCreat ≠ 0 → Grants ctxt.itype (config.deref pos.ns) nsWritemeta)
    (htrunc : flags &&& oTrunc ≠ 0 → Grants ctxt.itype (config.deref pos.ns) nsWritedata)
    (released opened : Bool) : (openAsync ctxt pos flags stream calls released opened).Safe config := by
  have hrelease : ∀ call ∈ (stream.elim [] fun fh =>
      if fh.datastream.isSome then [(⟨.datastreamRelease, fh.itype, [fh.ns]⟩ : Call)] else []),
      call.Permitted config := by
    intro call hcall
    cases stream with
    | none => cases hcall
    | some fh =>
      rw [Option.elim_some] at hcall
      split at hcall
      · rw [List.mem_singleton.1 hcall]
        exact Call.permitted_of_needs rfl
      · cases hcall
  have hopen : Call.Permitted config ⟨.open (clearAsync flags), ctxt.itype, [pos.ns]⟩ := by
    intro ref href perm hperm
    rw [List.mem_singleton.1 href]
    rcases List.mem_append.1 hperm with hperm | hperm
    · rw [clearAsync_and rfl] at hperm
      split at hperm
      next hflag => exact List.mem_singleton.1 hperm ▸ hcreat hflag
      next => cases hperm
    · rw [clearAsync_and rfl] at hperm
      split at hperm
      next hflag => exact List.mem_singleton.1 hperm ▸ htrunc hflag
      next => cases hperm
  have hcalls := (h.append hrelease).append
    (fun call hcall => List.mem_singleton.1 hcall ▸ hopen)
  unfold openAsync
  dsimp only
  split
  next => exact ⟨(h.append hrelease).calls, map_drop_safe⟩
  next =>
    split
    · refine ⟨hcalls.calls, fun fh hfh => ?_⟩
      obtain rfl := Option.some.inj hfh
      exact nofun
    · refine ⟨hcalls.calls, fun fh hfh => ?_⟩
      obtain ⟨_, -, rfl⟩ := Option.map_eq_some_iff.1 hfh
      exact nofun

theorem openStream_safe (h : Opening config stream calls) (streamed : Streamed) (released : Bool) :
    (openStream ctxt pos flags stream calls streamed released).Safe config := by
  have hone {op : Op} {itype : Interface} {ns : NsRef} (hop : op.needs = []) :
      ∀ call ∈ [(⟨op, itype, [ns]⟩ : Call)], call.Permitted config := fun call hcall =>
    List.mem_singleton.1 hcall ▸ Call.permitted_of_needs hop
  have hopen : Opening config stream (calls ++ [⟨.datastreamOpen, ctxt.itype, [pos.ns]⟩]) :=
    h.append (hone rfl)
  have htype : (if flags &&& oAccmode = oWronly then StreamType.edit else .read) ≠ .create := by
    split <;> nofun
  unfold openStream
  dsimp only
  generalize (if flags &&& oAccmode = oWronly then StreamType.edit else .read) = type at htype ⊢
  split
  next => exact streamFailed_safe h _
  next =>
    cases streamed with
    | opened =>
      refine ⟨hopen.calls, fun fh hfh => ?_⟩
      obtain rfl := Option.some.inj hfh
      exact fun hcreat => absurd (Option.some.inj hcreat) htype
    | failed lost => exact streamFailed_safe hopen lost
    | phandle lost =>
      have hrelease : ∀ call ∈ (stream.elim [] fun fh =>
          if fh.datastream.isSome ∧ ¬ lost then
            [(⟨.datastreamRelease, fh.itype, [fh.ns]⟩ : Call)] else []), call.Permitted config := by
        intro call hcall
        cases stream with
        | none => cases hcall
        | some fh =>
          rw [Option.elim_some] at hcall
          split at hcall
          · exact hone rfl call hcall
          · cases hcall
      dsimp only
      split
      next => exact streamFailed_safe hopen lost
      next =>
        split
        next => exact ⟨((hopen.append hrelease).append (hone rfl)).calls, map_drop_safe⟩
        next =>
          refine ⟨(hopen.append hrelease).calls, fun fh hfh => ?_⟩
          obtain rfl := Option.some.inj hfh
          exact nofun

theorem open_safe (hstr : ∀ fh ∈ stream, fh.Safe config)
    (hguard : OpenGuarded mdal config fuel ctxt path flags) {released : Bool} {result : Opened}
    (h : marfsOpen mdal config fuel ctxt stream path flags closed released opened streamed =
      some result) : result.Safe config := by
  unfold marfsOpen at h
  split at h
  next => exact Option.some.inj h ▸ refused_safe hstr _
  next =>
    split at h
    next => cases h
    next => exact Option.some.inj h ▸ refused_safe hstr _
    next pos subpath depth hshift =>
      split at h
      next => exact Option.some.inj h ▸ refused_safe hstr _
      next hgrant =>
        split at h
        next => exact Option.some.inj h ▸ refused_safe hstr _
        next hdep =>
          have hprep := prepare_safe hstr closed
          split at h
          next opened' heq =>
            rw [heq] at hprep
            exact Option.some.inj h ▸ hprep
          next stream' calls heq =>
            rw [heq] at hprep
            split at h
            next hasync =>
              obtain ⟨hcreat, htrunc⟩ :=
                hguard hasync pos subpath depth hshift hdep (grants_of_denies hgrant)
              exact Option.some.inj h ▸ openAsync_safe hprep hcreat htrunc _ _
            next => exact Option.some.inj h ▸ openStream_safe hprep _ _

/-! ### Directories -/

theorem opendir_permitted {dh : Option MarfsDhandle}
    (h : marfsOpendir mdal config fuel ctxt path opened = some (outcome, dh)) : outcome.Permitted config := by
  unfold marfsOpendir at h
  split at h
  next => cases h
  next => exact (Prod.mk.inj (Option.some.inj h)).1 ▸ Outcome.permitted_refuse config _
  next =>
    split at h
    · exact (Prod.mk.inj (Option.some.inj h)).1 ▸ Outcome.permitted_refuse config _
    · refine (Prod.mk.inj (Option.some.inj h)).1 ▸ permitted_needless ?_
      split <;> rfl

theorem opendir_sited (hnm : config.Named) (hctxt : ctxt.pos.Sited config) {dh : MarfsDhandle}
    (h : marfsOpendir mdal config fuel ctxt path opened = some (outcome, some dh)) :
    ∃ names, config.Sited dh.ns names := by
  unfold marfsOpendir at h
  split at h
  next => cases h
  next => cases h
  next pos _ depth hshift =>
    split at h
    next => cases h
    next =>
      have hdh := (Prod.mk.inj (Option.some.inj h)).2
      split at hdh
      next =>
        obtain rfl := Option.some.inj hdh
        exact pathshift_sited hnm hctxt hshift
      next => cases hdh

end Opening

end Marfs.Api
