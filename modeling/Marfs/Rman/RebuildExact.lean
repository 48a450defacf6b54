import Marfs.Gc.RefSafety
import Marfs.Rman.RebuildWalk

/-!
# What a rebuild walk covers

A complete walk rebuilds exactly the objects its files cover, each by one op (`rebuildWalk_count`).
That is not always what it is asked to rebuild: it decides about the object in which a file ends by
the ctime of the file that begins behind it, not by the ctimes of the files that end in it.  It
rebuilds what it is asked to exactly on the streams where the two agree (`rebuildWalk_exact_iff`).
-/

namespace Marfs.Rman

open Datastream Tagging Gc

variable {objtarget : Ftag → Option NeLocation} {refs : Refs}

/-! ## Opening the walk -/

namespace Streamwalker

variable {walker walker' : Streamwalker} {location : Nat → NeLocation}

structure RebuildOpen (location : Nat → NeLocation) (walker walker' : Streamwalker) : Prop where
  gcops_eq : walker'.gcops = walker.gcops
  objno_eq : walker'.objno = datastreamFilebounds walker.ftag
  rebuildloc_eq : walker'.rebuildloc = walker.rebuildloc
  rebuildthresh_eq : walker'.rebuildthresh = walker.rebuildthresh
  activefiles_eq : walker'.activefiles = walker.activefiles + if walker.Live then 1 else 0
  count : ∀ objno, rebuildCount walker'.rbldops objno = rebuildCount walker.rbldops objno +
    if walker.Targets location objno ∧ walker.RebuildsSpanned (datastreamFilebounds walker.ftag)
      (walker.ftag.endofstream || walker.ftag.unfinalized || walker.gctag.eos) objno
      then 1 else 0

theorem openFile_rebuild (hgc : walker.gcthresh = 0) (hreb : walker.rebuildthresh ≠ 0)
    (hloc : ∀ objno, objtarget (walker.ftag.atObj objno) = some (location objno))
    (h : walker.openFile objtarget = some walker') : RebuildOpen location walker walker' := by
  unfold openFile at h
  simp only [collectWith, collects_of_gcthresh hgc, Option.bind_eq_bind, Option.bind_eq_some_iff,
    Bool.false_eq_true, if_false, Option.some.injEq, exists_eq_left'] at h
  obtain ⟨walker₁, h₁, rfl⟩ := h
  generalize heos :
    (walker.ftag.endofstream || walker.ftag.unfinalized || walker.gctag.eos) = eos at *
  -- the counters do not matter for rebuilds
  obtain ⟨noted, hnoted, hnotedgc, hnotedops, hfile⟩ : ∃ noted : Streamwalker,
      noted.cursor = walker.cursor ∧ noted.gcops = walker.gcops ∧ noted.rbldops = walker.rbldops ∧
        noted.rebuildFile objtarget (datastreamFilebounds walker.ftag) eos = some walker₁ := by
    refine ⟨_, ?_, ?_, ?_, h₁⟩ <;> unfold noteVolatile <;> split <;> rfl
  have hnftag : noted.ftag = walker.ftag := cursor_ftag hnoted
  have hnthresh : noted.rebuildthresh = walker.rebuildthresh := by
    simpa [cursor] using congrArg rebuildthresh hnoted
  have hnloc : noted.rebuildloc = walker.rebuildloc := by
    simpa [cursor] using congrArg rebuildloc hnoted
  obtain ⟨hcur, hgcops⟩ := rebuildFile_spec hfile
  have hcnt := rebuildFile_count (hnthresh ▸ hreb) (hnftag ▸ hloc)
    (hnftag ▸ objno_le_filebounds walker.ftag) hfile
  have hfield {α : Type} (f : Streamwalker → α) := congrArg f (hcur.trans hnoted)
  have hstval : walker₁.stval = walker.stval := hfield stval
  have hfiles : walker₁.activefiles = walker.activefiles := hfield activefiles
  have hth : walker₁.gcthresh = 0 := (hfield gcthresh).trans hgc
  have hlive : walker₁.Live ↔ walker.Live := by rw [Live, Live, hstval]
  have hact : ∀ endobj, (walker₁.openActive endobj).activefiles =
      walker₁.activefiles + if walker₁.Live then 1 else 0 := by
    intro endobj
    unfold openActive
    by_cases h : walker₁.Live
    · rw [if_pos ((live_eq hth).mpr h), if_pos h]
    · rw [if_neg fun hyes => h ((live_eq hth).mp hyes), if_neg h]
      rfl
  have hopen : ∀ endobj, (walker₁.openActive endobj).gcops = walker₁.gcops ∧
      (walker₁.openActive endobj).rbldops = walker₁.rbldops ∧
      (walker₁.openActive endobj).objno = endobj ∧
      (walker₁.openActive endobj).rebuildloc = walker₁.rebuildloc ∧
      (walker₁.openActive endobj).rebuildthresh = walker₁.rebuildthresh := by
    intro endobj
    unfold openActive
    split
    · exact ⟨rfl, rfl, rfl, rfl, rfl⟩
    · exact ⟨rfl, rfl, rfl, rfl, rfl⟩
  obtain ⟨hgc', hops', hobj', hloc', hthr'⟩ := hopen (datastreamFilebounds walker.ftag)
  refine ⟨hgc'.trans (hgcops.trans hnotedgc), hobj', hloc'.trans (hfield rebuildloc),
    hthr'.trans (hfield rebuildthresh), ?_, fun objno => ?_⟩
  · rw [hact, hfiles, if_congr hlive rfl rfl]
  · have htgt : noted.Targets location objno ↔ walker.Targets location objno := by
      rw [Targets, Targets, hnloc]
    have hspan : noted.RebuildsSpanned (datastreamFilebounds walker.ftag) eos objno ↔
        walker.RebuildsSpanned (datastreamFilebounds walker.ftag) eos objno := by
      simp only [RebuildsSpanned, cursor_stval hnoted, hnthresh, hnftag]
    rw [heos, hops', hcnt, hnotedops, if_congr (and_congr htgt hspan) rfl rfl]

end Streamwalker

variable {rebuildloc : NeLocation} {location : Nat → NeLocation} {thresh : Thresholds}
  {walker walker' : Streamwalker} {done rbldops : List Opinfo}

open Classical in
theorem Rebuilding.opened (hloc : ObjLocations objtarget refs location) (hgc : thresh.gcthreshold = 0)
    (hthr : thresh.rebuildthreshold ≠ 0)
    (h : processOpenstreamwalker objtarget refs thresh (some rebuildloc) = .opened walker) :
    Rebuilding refs thresh.rebuildthreshold rebuildloc location walker [] := by
  obtain ⟨-, -, -, -, hwalking⟩ := Walking.opened (.inr hgc) (.inr (.inr hthr)) h
  obtain ⟨file, ftag, hfile, htagged, hopen⟩ := openFile_of_opened h
  have htag : refs.Tagged 0 file ftag := ⟨hfile, htagged⟩
  have hcnts := Streamwalker.openFile_counts hopen
  have hreb : Streamwalker.RebuildOpen location
      (.initial thresh (some rebuildloc) file ftag) walker :=
    Streamwalker.openFile_rebuild hgc hthr (hloc htag) hopen
  have hftag : walker.ftag = ftag := hcnts.ftag_eq
  have hfno : walker.fileno = 0 := hcnts.fileno_eq
  have hobj : walker.objno = datastreamFilebounds ftag := hreb.objno_eq
  have hfst : ∀ {i file' ftag'}, i < 1 → refs.Tagged i file' ftag' →
      file' = file ∧ ftag' = ftag := by
    intro i file' ftag' hlt htag'
    obtain rfl : i = 0 := by omega
    exact htag'.eq htag
  refine ⟨hwalking, hcnts.gcthresh_eq.trans hgc, hreb.rebuildthresh_eq,
    hreb.rebuildloc_eq, hreb.gcops_eq, ?_, ?_, fun objno => ?_⟩
  · rw [hobj, hftag]
  · have hfiles : walker.activefiles =
        0 + if (Streamwalker.initial thresh (some rebuildloc) file ftag).Live then 1 else 0 :=
      hreb.activefiles_eq
    have hlive : (Streamwalker.initial thresh (some rebuildloc) file ftag).Live ↔ file.Counted :=
      Iff.rfl
    rw [hfiles, hobj, hfno]
    constructor
    · intro hne
      by_cases hcount : file.Counted
      · exact ⟨0, file, ftag, by omega, htag, hcount, rfl⟩
      · rw [if_neg fun h => hcount (hlive.mp h)] at hne
        exact absurd rfl hne
    · rintro ⟨i, file', ftag', hlt, htag', hcount, -⟩
      rw [(hfst hlt htag').1] at hcount
      rw [if_pos (hlive.mpr hcount)]
      omega
  · have heos : (ftag.endofstream || ftag.unfinalized || (file.gctag.getD Gctag.none).eos) = true ↔
        EndsAt 0 file ftag := by
      simp [EndsAt, or_assoc]
    have hspan : (Streamwalker.initial thresh (some rebuildloc) file ftag).RebuildsSpanned
        (datastreamFilebounds ftag)
        (ftag.endofstream || ftag.unfinalized || (file.gctag.getD Gctag.none).eos) objno ↔
          Spans thresh.rebuildthreshold 0 file ftag objno := by
      rw [Streamwalker.RebuildsSpanned, heos, Spans, RefFile.OldActive, and_assoc]
      rfl
    have hcov : Spans thresh.rebuildthreshold 0 file ftag objno ↔
        CoveredTo refs thresh.rebuildthreshold 0 objno := by
      constructor
      · exact fun hspan => ⟨0, le_refl _, .inl ⟨file, ftag, htag, hspan⟩⟩
      · rintro ⟨i, hle, ⟨file', ftag', htag', hspan⟩ | ⟨-, j, -, -, hlt, -⟩⟩
        · obtain ⟨rfl, rfl⟩ := hfst (by omega) htag'
          obtain rfl : i = 0 := by omega
          exact hspan
        · omega
    have hcnt := hreb.count objno
    change _ = 0 + _ at hcnt
    rw [List.nil_append, hcnt, Nat.zero_add, hfno]
    exact if_congr (and_congr Iff.rfl (hspan.trans hcov)) rfl rfl

/-! ## The whole walk -/

theorem Streamwalker.FullLeave.pending (hgc : walker.gcthresh = 0) (hnil : walker.gcops = [])
    (h : walker.FullLeave refs walker') :
    walker'.gcops = [] ∧ walker'.rbldops = walker.rbldops ∧ walker'.gcthresh = 0 := by
  cases h with
  | ended _ heq => subst heq; exact ⟨hnil, rfl, hgc⟩
  | gctagEos _ _ heq => subst heq; exact ⟨hnil, rfl, hgc⟩
  | untagged _ _ file _ huntag htrl =>
    obtain ⟨hrbld, hgcops, -⟩ := Streamwalker.trailingFile_pending htrl
    obtain ⟨-, -, -, hthr, -⟩ := Streamwalker.countUntagged_left huntag htrl
    have hcoll : (walker.countUntagged file).collects = false :=
      Streamwalker.collects_of_gcthresh hgc
    exact ⟨(hgcops hcoll).trans hnil, hrbld, hthr.trans hgc⟩
  | missing _ _ _ _ _ walker₁ hass heq =>
    obtain rfl := Streamwalker.assumeEos_nil hnil hass
    subst heq
    exact ⟨hnil, rfl, hgc⟩

variable (hs : LayoutConsistent refs)
include hs

theorem Finishes.halted_rbldops (hw : Halted refs walker) (hgc : walker.gcthresh = 0)
    (h : Finishes objtarget refs walker rbldops walker') : rbldops = [] := by
  have hturn := fullTurn objtarget hs (.inr hw)
  cases h with
  | again hstep _ => rw [hstep] at hturn; exact absurd hturn.1 hw.not_visit
  | dispatched hstep _ => rw [hstep] at hturn; exact absurd hturn.1 hw.not_visit
  | left hstep hops _ =>
    rw [hstep] at hturn
    obtain ⟨hgcops, hrbld, -⟩ := hturn.1.pending hgc hw.noops.1
    exact absurd ⟨hgcops, hrbld.trans hw.noops.2⟩ hops
  | complete _ _ => rfl

variable {rebuildthresh : Int} {n : Nat} {file : RefFile}

theorem Rebuilding.covered_iff (h : Rebuilding refs rebuildthresh rebuildloc location walker done)
    (hleav : walker.FullLeave refs walker') (objno : Nat) :
    CoveredTo refs rebuildthresh walker.fileno objno ↔
      ∃ i, CoversAt refs rebuildthresh i objno := by
  obtain ⟨last, hend⟩ := h.walking.lastFile hs hleav
  constructor
  · rintro ⟨i, -, hcov⟩
    exact ⟨i, hcov⟩
  · rintro ⟨i, hcov⟩
    obtain ⟨file, ftag, hfile, htag⟩ := hcov.tagged
    refine ⟨i, ?_, hcov⟩
    by_contra hbeyond
    rw [(hend.final (Nat.lt_of_not_le hbeyond) hfile).2] at htag
    cases htag

open Classical in
theorem Rebuilding.finishes (hloc : ObjLocations objtarget refs location) (hthr : rebuildthresh ≠ 0)
    (h : Rebuilding refs rebuildthresh rebuildloc location walker done)
    (hfin : Finishes objtarget refs walker rbldops walker') (objno : Nat) :
    rebuildCount (done ++ rbldops) objno =
      if rebuildloc.matches (location objno) = true ∧
        ∃ i, CoversAt refs rebuildthresh i objno then 1 else 0 := by
  induction hfin generalizing done with
  | again hstep _ ih =>
    have hturn := fullTurn objtarget hs (.inl h.walking)
    rw [hstep] at hturn
    have hvisit := h.visit hs hloc hthr hturn.1
    rw [List.append_nil] at hvisit
    exact ih hvisit
  | dispatched hstep _ ih =>
    have hturn := fullTurn objtarget hs (.inl h.walking)
    rw [hstep] at hturn
    rw [← List.append_assoc]
    exact ih (h.visit hs hloc hthr hturn.1)
  | left hstep hops hrest _ =>
    have hturn := fullTurn objtarget hs (.inl h.walking)
    rw [hstep] at hturn
    obtain ⟨-, hrbld, hgc⟩ := hturn.1.pending h.gcthresh_eq h.gcops_eq
    obtain rfl := hrest.halted_rbldops hs hturn.2 hgc
    rw [List.append_nil, hrbld, h.count]
    exact if_congr (and_congr_right fun _ => h.covered_iff hs hturn.1 objno) rfl rfl
  | complete hstep hops =>
    have hturn := fullTurn objtarget hs (.inl h.walking)
    rw [hstep] at hturn
    obtain ⟨-, hrbld, -⟩ := hturn.1.pending h.gcthresh_eq h.gcops_eq
    rw [← hops.2, hrbld, h.count]
    exact if_congr (and_congr_right fun _ => h.covered_iff hs hturn.1 objno) rfl rfl

open Classical in
theorem rebuildWalk_count (hloc : ObjLocations objtarget refs location) (hgc : thresh.gcthreshold = 0)
    (hthr : thresh.rebuildthreshold ≠ 0)
    (h : (walkStream objtarget refs thresh (some rebuildloc) n).status = .complete walker') (objno : Nat) :
    rebuildCount (walkStream objtarget refs thresh (some rebuildloc) n).rbldops.flatten objno =
      if rebuildloc.matches (location objno) = true ∧
        ∃ i, CoversAt refs thresh.rebuildthreshold i objno then 1 else 0 := by
  obtain ⟨walker, hopen, hfin⟩ := finishes_of_walkStream h
  have hrun := (Rebuilding.opened hloc hgc hthr hopen).finishes hs hloc hthr hfin objno
  rwa [List.nil_append] at hrun

/-! ## What is to be rebuilt -/

omit hs

def Required (refs : Refs) (rebuildthresh : Int) (objno : Nat) : Prop :=
  ∃ i file ftag, refs.Tagged i file ftag ∧ file.OldActive rebuildthresh ∧ ftag.objno ≤ objno ∧
    objno ≤ datastreamFilebounds ftag

/-- The ops rebuild each object at the location in which an old active file has data, once, and no
other object. -/
def RebuildsExactly (refs : Refs) (rebuildthresh : Int) (rebuildloc : NeLocation)
    (location : Nat → NeLocation) (ops : List Opinfo) : Prop :=
  ∀ objno,
    (rebuildloc.matches (location objno) = true ∧ Required refs rebuildthresh objno →
      rebuildCount ops objno = 1) ∧
    (¬ (rebuildloc.matches (location objno) = true ∧ Required refs rebuildthresh objno) →
      rebuildCount ops objno = 0)

/-- What is decided about an object by the file that begins behind it agrees with the files that end
in it: an object in which an old active file ends is spanned by one, or left behind by a file of old
ctime; and where a live file ends in an object that is so left behind, an old active file has data
in it. -/
structure RebuildSettled (refs : Refs) (rebuildthresh : Int) (rebuildloc : NeLocation)
    (location : Nat → NeLocation) : Prop where
  ended : ∀ {i file ftag}, refs.Tagged i file ftag → file.OldActive rebuildthresh →
    rebuildloc.matches (location (datastreamFilebounds ftag)) = true →
      (∃ k file' ftag', refs.Tagged k file' ftag' ∧
        Spans rebuildthresh k file' ftag' (datastreamFilebounds ftag)) ∨
      ∃ k, LeftBehind refs rebuildthresh k (datastreamFilebounds ftag)
  behind : ∀ {i k file ftag}, refs.Tagged i file ftag → file.Counted →
    rebuildloc.matches (location (datastreamFilebounds ftag)) = true →
      LeftBehind refs rebuildthresh k (datastreamFilebounds ftag) →
      Required refs rebuildthresh (datastreamFilebounds ftag)

theorem RefFile.OldActive.counted (h : file.OldActive rebuildthresh) : file.Counted := .inl h.1

include hs

theorem LeftBehind.before {i k : Nat} {ftag : Ftag} (htag : refs.Tagged i file ftag)
    (h : LeftBehind refs rebuildthresh k (datastreamFilebounds ftag)) : i < k := by
  obtain ⟨file', ftag', htag', hbeh, -, -⟩ := h
  by_contra hnot
  have hle := htag'.bounds_le hs htag (Nat.le_of_not_lt hnot)
  have := objno_le_filebounds ftag'
  omega

theorem rebuildSettled_iff :
    (∀ objno, rebuildloc.matches (location objno) = true →
      ((∃ i, CoversAt refs rebuildthresh i objno) ↔ Required refs rebuildthresh objno)) ↔
    RebuildSettled refs rebuildthresh rebuildloc location := by
  constructor
  · intro hexact
    constructor
    · intro i file ftag htag hold hmatch
      have hrequired : Required refs rebuildthresh (datastreamFilebounds ftag) :=
        ⟨i, file, ftag, htag, hold, objno_le_filebounds ftag, le_refl _⟩
      obtain ⟨k, hspan | ⟨hleft, -⟩⟩ := (hexact _ hmatch).mpr hrequired
      · exact .inl ⟨k, hspan⟩
      · exact .inr ⟨k, hleft⟩
    · intro i k file ftag htag hcnt hmatch hleft
      refine (hexact _ hmatch).mp ⟨k, .inr ⟨hleft, i, file, ftag, ?_, htag, hcnt, rfl⟩⟩
      exact hleft.before hs htag
  · intro h objno hmatch
    constructor
    · rintro ⟨k, ⟨file, ftag, htag, hold, hbegin, hreach⟩ | ⟨hleft, i, file, ftag, hlt, htag,
        hcnt, rfl⟩⟩
      · refine ⟨k, file, ftag, htag, hold, hbegin, ?_⟩
        rcases hreach with hlt | ⟨-, heq⟩ <;> omega
      · exact h.behind htag hcnt hmatch hleft
    · rintro ⟨i, file, ftag, htag, hold, hbegin, hend⟩
      rcases Nat.eq_or_lt_of_le hend with heq | hlt
      · subst heq
        rcases h.ended htag hold hmatch with ⟨k, hspan⟩ | ⟨k, hleft⟩
        · exact ⟨k, .inl hspan⟩
        · have hbef := hleft.before hs htag
          exact ⟨k, .inr ⟨hleft, i, file, ftag, hbef, htag, hold.counted, rfl⟩⟩
      · exact ⟨i, .inl ⟨file, ftag, htag, hold, hbegin, .inl hlt⟩⟩

/-- A complete rebuild walk rebuilds exactly what it is asked to if and only if the stream is
settled. -/
theorem rebuildWalk_exact_iff (hloc : ObjLocations objtarget refs location) (hgc : thresh.gcthreshold = 0)
    (hthresh : thresh.rebuildthreshold ≠ 0)
    (h : (walkStream objtarget refs thresh (some rebuildloc) n).status = .complete walker') :
    RebuildsExactly refs thresh.rebuildthreshold rebuildloc location
        (walkStream objtarget refs thresh (some rebuildloc) n).rbldops.flatten ↔
      RebuildSettled refs thresh.rebuildthreshold rebuildloc location := by
  rw [← rebuildSettled_iff hs]
  have hcount := rebuildWalk_count hs hloc hgc hthresh h
  constructor
  · intro hexact objno hmatch
    obtain ⟨hyes, hno⟩ := hexact objno
    constructor
    · intro hcovers
      by_contra hnot
      have hone := hno fun hreq => hnot hreq.2
      rw [hcount, if_pos ⟨hmatch, hcovers⟩] at hone
      cases hone
    · intro hreq
      by_contra hnot
      have hone := hyes ⟨hmatch, hreq⟩
      rw [hcount, if_neg fun h => hnot h.2] at hone
      cases hone
  · intro hsettled objno
    constructor
    · rintro ⟨hmatch, hreq⟩
      rw [hcount, if_pos ⟨hmatch, (hsettled objno hmatch).mpr hreq⟩]
    · intro hnot
      rw [hcount, if_neg fun h => hnot ⟨h.1, (hsettled objno h.1).mp h.2⟩]

omit hs

/-! ## Two files in two objects -/

def rebuildThresh : Thresholds :=
  { gcthreshold := 0, repackthreshold := 0, rebuildthreshold := 10, cleanupthreshold := 0 }

/-- An active file of ctime 5 in object 0, and an active file of the given ctime in object 1, which
ends the stream. -/
def twoObjStream (ctime : Int) : Refs :=
  [some (sampleFile 0 0 true false none),
   some { sampleFile 1 1 true true none with stat := { nlink := 2, ctime := ctime, size := 10 } }]

def soleLocation : NeLocation := { pod := 0, cap := 0, scatter := 0 }

theorem twoObjStream_layout (ctime : Int) : LayoutConsistent (twoObjStream ctime) := by
  have hlen : ∀ {fileno file}, (twoObjStream ctime).file fileno = some file → fileno < 2 :=
    fun hfile => Refs.file_lt hfile
  refine ⟨?_, ?_, ?_, ?_, ?_⟩
  · intro fileno file ftag hfile htag
    have hlt := hlen hfile
    interval_cases fileno <;> obtain rfl := Option.some.inj hfile <;> cases htag <;> rfl
  · intro fileno file hfile j hlo hhi
    have hlt := hlen hfile
    interval_cases fileno <;> obtain rfl := Option.some.inj hfile <;>
      (simp [gapLength, sampleFile, Gctag.none] at hhi; omega)
  · intro fileno file hfile huntag
    have hlt := hlen hfile
    interval_cases fileno <;> obtain rfl := Option.some.inj hfile <;> rfl
  · intro fileno file ftag file' ftag' hfile htag hfile' htag'
    have hlt := hlen hfile
    interval_cases fileno <;> obtain rfl := Option.some.inj hfile <;> cases htag
    · obtain rfl := Option.some.inj hfile'
      cases htag'
      exact ⟨by decide, fun _ => by decide⟩
    · cases hfile'
  · intro fileno file' hfile' hne
    have hlt := hlen hfile'
    interval_cases fileno
    · exact absurd rfl hne
    · exact ⟨0, _, _, rfl, rfl, by unfold StreamEnds; decide, rfl⟩

theorem twoObjStream_locations (ctime : Int) :
    ObjLocations (fun _ => some soleLocation) (twoObjStream ctime) fun _ => soleLocation :=
  fun _ _ => rfl

/-- File 1 has a young ctime, so that nothing rebuilds object 0, in which the old file 0 lies. -/
theorem rebuildWalk_misses :
    LayoutConsistent (twoObjStream 20) ∧
      ObjLocations (fun _ => some soleLocation) (twoObjStream 20) (fun _ => soleLocation) ∧
      (∃ walker', (walkStream (fun _ => some soleLocation) (twoObjStream 20) rebuildThresh
        (some soleLocation) 1).status = .complete walker') ∧
      ¬ RebuildsExactly (twoObjStream 20) rebuildThresh.rebuildthreshold soleLocation
        (fun _ => soleLocation)
        (walkStream (fun _ => some soleLocation) (twoObjStream 20) rebuildThresh
          (some soleLocation) 1).rbldops.flatten := by
  refine ⟨twoObjStream_layout 20, twoObjStream_locations 20, ⟨_, rfl⟩, fun hexact => ?_⟩
  have hrequired : Required (twoObjStream 20) rebuildThresh.rebuildthreshold 0 :=
    ⟨0, _, _, ⟨rfl, rfl⟩, ⟨by decide, by decide⟩, by decide, by decide⟩
  have hone := (hexact 0).1 ⟨rfl, hrequired⟩
  have hnone : (walkStream (fun _ => some soleLocation) (twoObjStream 20) rebuildThresh
      (some soleLocation) 1).rbldops.flatten = [] := rfl
  rw [hnone] at hone
  cases hone

/-- With two old files both objects are rebuilt, and no other. -/
theorem rebuildWalk_rebuilds :
    RebuildsExactly (twoObjStream 5) rebuildThresh.rebuildthreshold soleLocation
      (fun _ => soleLocation)
      (walkStream (fun _ => some soleLocation) (twoObjStream 5) rebuildThresh
        (some soleLocation) 2).rbldops.flatten := by
  have hcomplete : ∃ walker', (walkStream (fun _ => some soleLocation) (twoObjStream 5)
      rebuildThresh (some soleLocation) 2).status = .complete walker' := ⟨_, rfl⟩
  obtain ⟨walker', hcomplete⟩ := hcomplete
  refine (rebuildWalk_exact_iff (twoObjStream_layout 5) (twoObjStream_locations 5) rfl (by decide)
    hcomplete).mpr ⟨?_, ?_⟩
  · intro i file ftag ⟨hfile, htag⟩ _ _
    have hlt : i < 2 := Refs.file_lt hfile
    interval_cases i <;> obtain rfl := Option.some.inj hfile <;> cases htag
    · -- file 1 leaves object 0 behind
      refine .inr ⟨1, _, _, ⟨rfl, rfl⟩, by decide, by decide, fun i file' ftag' hlt htag' => ?_⟩
      obtain rfl : i = 0 := by omega
      obtain rfl := (htag'.eq ⟨rfl, rfl⟩).2
      decide
    · exact .inl ⟨1, _, _, ⟨rfl, rfl⟩, ⟨by decide, by decide⟩, by decide,
        .inr ⟨.inl rfl, by decide⟩⟩
  · intro i k file ftag ⟨hfile, htag⟩ _ _ _
    have hlt : i < 2 := Refs.file_lt hfile
    interval_cases i <;> obtain rfl := Option.some.inj hfile <;> cases htag
    · exact ⟨0, _, _, ⟨rfl, rfl⟩, ⟨by decide, by decide⟩, by decide, by decide⟩
    · exact ⟨1, _, _, ⟨rfl, rfl⟩, ⟨by decide, by decide⟩, by decide, by decide⟩

end Marfs.Rman
