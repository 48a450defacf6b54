import Marfs.Datastream.Window
import Mathlib.Data.Set.Card
import Mathlib.Order.Interval.Finset.Nat

/-!
# A list that is long enough

A new file gets the place behind the current one.  Where objects have a limit, the list may grow to
one place more than an object may hold files, and the file that takes the last one starts a new
object, and the list over.  Where there is no limit, the cap on the list is one, and the second file
of an object is written behind the end of the list.
-/

namespace Marfs.Datastream

open Machine Recovery Tagging

namespace Sys

open Op

variable {s s' : Sys}

/-- Where a new file is placed: in the object of the stream if that may hold another file, or in the
next one. -/
structure Counted (stream : Stream) (ftag : Ftag) : Prop where
  fileno : ftag.fileno = stream.fileno
  place : ftag.objno = stream.objno ∧
      (stream.scheme.objfiles = 0 ∨ stream.curfile < stream.scheme.objfiles) ∨
    ftag.objno = stream.objno + 1

theorem placeFile_counted {stream : Stream} {recoverybytes : Nat} (hcur : s.stream.curfile = stream.curfile) :
    wp (placeFile (stream.newFtag recoverybytes))
      (fun ftag s' => Counted stream ftag ∧ ∃ wrapped, s' = { s with wrapped := wrapped })
      (fun s' => s' = s) s := by
  have hplc : ∀ full wrapped,
      wp (if full || ((stream.newFtag recoverybytes).objfiles ≠ 0 &&
          decide (s.stream.curfile ≥ (stream.newFtag recoverybytes).objfiles)) then
        pure { stream.newFtag recoverybytes with
          objno := (stream.newFtag recoverybytes).objno + 1, offset := s.stream.recoveryheaderlen }
        else pure (stream.newFtag recoverybytes))
        (fun ftag s' => Counted stream ftag ∧ ∃ wrapped, s' = { s with wrapped := wrapped })
        (fun s' => s' = s) { s with wrapped := wrapped } := by
    intro full wrapped
    refine wp_ite.2 ⟨fun _ => wp_pure.2 ⟨⟨rfl, .inr rfl⟩, wrapped, rfl⟩, fun hstay => wp_pure.2 ?_⟩
    refine ⟨⟨rfl, .inl ⟨rfl, ?_⟩⟩, wrapped, rfl⟩
    have hroom : ¬ (stream.scheme.objfiles ≠ 0 ∧ stream.scheme.objfiles ≤ s.stream.curfile) := by
      intro h
      refine hstay (Bool.or_eq_true_iff.2 (.inr (Bool.and_eq_true_iff.2 ⟨?_, ?_⟩)))
      · exact decide_eq_true h.1
      · exact decide_eq_true h.2
    omega
  refine wp_bind.2 (wp_get.2 (wp_bind.2 (wp_check.2 ⟨fun _ => ?_, fun _ => rfl⟩)))
  refine wp_bind.2 (wp_bind.2 (wp_get.2 (wp_ite.2 ⟨fun _ => wp_pure.2 ?_, fun _ => ?_⟩)))
  · exact hplc false s.wrapped
  · exact wp_bind.2 (wp_space.2 (wp_pure.2 (hplc _ _)))

theorem linkNewFile_spec (finfo : RecoveryFinfo) :
    wp (Listed.linkNewFile finfo)
      (fun ftag s' => Counted s.stream ftag ∧ ∃ outcomes wrapped,
        s' = store ftag { s with outcomes := outcomes, wrapped := wrapped })
      (fun s' => ∃ outcomes wrapped ftags, (∀ k, k ≠ s.stream.fileno → ftags k = s.ftags k) ∧
        s' = { s with outcomes := outcomes, wrapped := wrapped, ftags := ftags }) s := by
  have hfail : ∀ os wrapped, ∃ outcomes wrapped' ftags,
      (∀ k, k ≠ s.stream.fileno → ftags k = s.ftags k) ∧
      { s with outcomes := os, wrapped := wrapped } =
        ({ s with outcomes := outcomes, wrapped := wrapped', ftags := ftags } : Sys) :=
    fun os wrapped => ⟨os, wrapped, s.ftags, fun _ _ => rfl, rfl⟩
  refine wp_bind.2 (wp_get.2 (wp_bind.2 (wp_call (fun os => wp_bind.2 ?_) fun os => hfail os _)))
  refine wp_mono (placeFile_counted rfl) ?_ ?_
  · intro ftag s₁ ⟨hcnt, wrapped, hs₁⟩
    subst hs₁
    refine wp_bind.2 (wp_call (fun os => wp_bind.2 (wp_modify.2 (wp_bind.2 ?_))) fun os => hfail os _)
    refine wp_call (fun os => wp_pure.2 ⟨hcnt, os, wrapped, rfl⟩) fun os => ?_
    refine ⟨os, wrapped, _, fun k hk => ?_, rfl⟩
    simp [store, hcnt.fileno, hk]
  · intro s₁ hs₁
    subst hs₁
    exact hfail os _

theorem openRepackFile_counted (path : List Char) (stat : FileStat) :
    wp (openRepackFile path stat)
      (fun _ s' => ∃ outcomes wrapped ftag finfo, Counted s.stream ftag ∧
        s' = { s with
          outcomes := outcomes, wrapped := wrapped
          stream := s.stream.enter { metahandle := true, ftag := ftag } finfo })
      (fun s' => ∃ outcomes wrapped finfo, s' = { s with
        outcomes := outcomes, wrapped := wrapped, stream := { s.stream with finfo := finfo } }) s := by
  have hearly : ∀ os, ∃ outcomes wrapped finfo, { s with outcomes := os } = ({ s with
      outcomes := outcomes, wrapped := wrapped, stream := { s.stream with finfo := finfo } } : Sys) :=
    fun os => ⟨os, s.wrapped, s.stream.finfo, rfl⟩
  refine wp_bind.2 (wp_get.2 (wp_bind.2 (wp_call (fun os₁ => ?_) hearly)))
  refine wp_bind.2 (wp_call (fun os₂ => wp_bind.2 (wp_call (fun os₃ => ?_) hearly)) hearly)
  refine wp_bind.2 (wp_call (fun os₄ => wp_bind.2 (wp_call (fun os₅ => ?_) hearly)) hearly)
  refine wp_bind.2 (wp_modifyStream.2 (wp_bind.2 (wp_mono (placeFile_counted rfl) ?_ ?_)))
  · intro ftag s₁ ⟨hcnt, wrapped, hs₁⟩
    subst hs₁
    have hlate : ∀ os, ∃ outcomes wrapped' finfo', { s with
        outcomes := os, wrapped := wrapped
        stream := { s.stream with finfo := stat.finfo stat.size path } } = ({ s with
          outcomes := outcomes, wrapped := wrapped'
          stream := { s.stream with finfo := finfo' } } : Sys) := fun os => ⟨os, wrapped, _, rfl⟩
    refine wp_bind.2 (wp_call (fun os₆ => wp_bind.2 (wp_call (fun os₇ => ?_) hlate)) hlate)
    refine wp_bind.2 (wp_call (fun os₈ => wp_bind.2 (wp_call (fun os₉ => ?_) hlate)) hlate)
    exact wp_modifyStream.2 ⟨os₉, wrapped, ftag, _, hcnt, rfl⟩
  · intro s₁ hs₁
    subst hs₁
    exact ⟨os₅, s.wrapped, _, rfl⟩

end Sys

namespace Listed

open Op Sys

variable {l l' : Listed}

/-! ## Room in the list -/

variable {E : Listed → Prop} {scheme : Scheme} {next : Op Listed Unit} {type : StreamType}

@[simp] theorem wp_onSys {α : Type} {m : Op Sys α} {Q : α → Listed → Prop} :
    wp (onSys m) Q E l ↔
      wp m (fun a s => Q a { l with sys := s }) (fun s => E { l with sys := s }) l.sys := by
  unfold wp onSys
  rcases m l.sys with ⟨_ | a, s⟩
  · rfl
  · rfl

theorem wp_realloc {Q : Bool → Listed → Prop}
    (h : ∀ ok reallocs, (ok = false → l.reallocs.head? = some false) →
      Q ok { l with reallocs := reallocs }) : wp realloc Q E l := by
  cases hl : l.reallocs with
  | nil =>
    have hrun : realloc l = (some true, l) := by simp [realloc, hl]
    have hQ := h true l.reallocs (by simp)
    exact wp_of_some hrun hQ
  | cons ok reallocs =>
    have hrun : realloc l = (some ok, { l with reallocs := reallocs }) := by simp [realloc, hl]
    refine wp_of_some hrun (h ok reallocs fun hok => ?_)
    rw [hl, hok]
    rfl

/-- A list is extended by a place at least, where the cap lets it, and not beyond the cap. -/
theorem allocsize_spec (current max : Nat) (hlt : current < max) :
    current < allocsize current max ∧ allocsize current max ≤ max := by
  have hne : max ≠ 0 := Nat.ne_zero_of_lt hlt
  unfold allocsize initialFileAlloc fileAllocMult
  simp only [hne, ne_eq, not_false_eq_true, true_and]
  split
  · split
    · omega
    · omega
  · split
    · omega
    · omega

/-- The list is at most one place longer than the number of files an object may hold. -/
structure Capped (l : Listed) : Prop where
  configured : l.sys.stream.scheme.objfiles + 1 < SizeT.modulus
  le : l.filealloc ≤ l.sys.stream.scheme.objfiles + 1

theorem maxFiles_eq (h : scheme.objfiles + 1 < SizeT.modulus) :
    maxFiles scheme = scheme.objfiles + 1 := SizeT.wrap_of_lt h

/-- The list as it is, or longer, with another meta handle at the places behind those in use. -/
structure Extended (l l' : Listed) : Prop where
  sys : ∃ files, l'.sys = { l.sys with stream := { l.sys.stream with files := files } } ∧
    ∀ i < l.filealloc, files i = l.sys.stream.files i
  grown : l.filealloc ≤ l'.filealloc
  capped : l'.filealloc ≤ l.sys.stream.scheme.objfiles + 1

theorem Extended.refl (h : Capped l) : Extended l l :=
  ⟨⟨l.sys.stream.files, rfl, fun _ _ => rfl⟩, le_rfl, h.le⟩

/-- There is room for another file once it was checked for, unless the list could not be
extended. -/
theorem reserve_spec (hcapped : Capped l) (hle : l.sys.stream.curfile ≤ l.filealloc)
    (hfiles : l.sys.stream.curfile ≤ l.sys.stream.scheme.objfiles)
    (hrealloc : l.filealloc ≤ l.sys.stream.curfile → l.reallocs.head? ≠ some false) :
    wp reserve (fun _ l' => Extended l l' ∧ l'.sys.stream.curfile < l'.filealloc)
      (fun _ => False) l := by
  refine wp_bind.2 (wp_get.2 (wp_ite.2 ⟨fun hfull => ?_, fun hroom => wp_pure.2 ?_⟩))
  · rw [maxFiles_eq hcapped.configured]
    obtain ⟨hgrown, hmax⟩ := allocsize_spec l.filealloc
      (l.sys.stream.scheme.objfiles + 1) (by omega)
    refine wp_bind.2 (wp_bind.2 (wp_realloc fun ok reallocs hok => ?_))
    refine wp_ite.2 ⟨fun _ => ?_, fun hfail => ?_⟩
    · refine wp_bind.2 (wp_onSys.2 (wp_modifyStream.2 (wp_pure.2 (wp_bind.2 (wp_modify.2 ?_)))))
      refine wp_ite.2 ⟨fun hzero => ?_, fun _ => wp_pure.2 ⟨⟨⟨_, rfl, fun i hi => ?_⟩, ?_, ?_⟩, ?_⟩⟩
      · exact absurd hzero (Nat.ne_zero_of_lt hgrown)
      · exact if_neg (by omega)
      · exact hgrown.le
      · exact hmax
      · exact lt_of_le_of_lt hle hgrown
    · exact absurd (hok (by simpa using hfail)) (hrealloc hfull)
  · exact ⟨Extended.refl hcapped, Nat.lt_of_not_le hroom⟩

/-! ## New files -/

/-- What a call for a new file leaves in place, whether or not there is one. -/
structure Alike (l l' : Listed) : Prop where
  type : l'.sys.stream.type = l.sys.stream.type
  scheme : l'.sys.stream.scheme = l.sys.stream.scheme
  objs : l'.sys.objs = l.sys.objs
  handle : l'.sys.stream.datahandle = l.sys.stream.datahandle
  curfile : l'.sys.stream.curfile = l.sys.stream.curfile
  fileno : l'.sys.stream.fileno = l.sys.stream.fileno
  files : ∀ i < l.sys.stream.curfile, l'.sys.stream.files i = l.sys.stream.files i
  ftags : ∀ k, k ≠ l.sys.stream.fileno → l'.sys.ftags k = l.sys.ftags k
  repack : l.sys.stream.type = .repack → l'.sys.ftags = l.sys.ftags
  grown : l.filealloc ≤ l'.filealloc
  capped : l'.filealloc ≤ l.sys.stream.scheme.objfiles + 1

/-- There is a new file, and a place for it. -/
structure Adds (l l' : Listed) : Prop extends Alike l l' where
  objno : l'.sys.stream.objno = l'.sys.stream.cur.ftag.objno
  counted : Counted l.sys.stream l'.sys.stream.cur.ftag
  stored : ∀ ftag, l'.sys.ftags l.sys.stream.fileno = some ftag →
    ftag.objno = l'.sys.stream.cur.ftag.objno
  room : l'.sys.stream.curfile < l'.filealloc

/-- There is no new file. -/
structure Declines (l l' : Listed) : Prop extends Alike l l' where
  objno : l'.sys.stream.objno = l.sys.stream.objno

structure Roomy (l : Listed) : Prop where
  capped : Capped l
  curfile_le : l.sys.stream.curfile ≤ l.filealloc
  files_le : l.sys.stream.curfile ≤ l.sys.stream.scheme.objfiles
  extends' : l.filealloc ≤ l.sys.stream.curfile → l.reallocs.head? ≠ some false

theorem createNewFile_spec (hroomy : Roomy l) (htype : l.sys.stream.type ≠ .repack) (path : List Char)
    (stat : FileStat) : wp (createNewFile path stat) (fun _ => Adds l) (Declines l) l := by
  have hsame : ∀ outcomes wrapped ftags, (∀ k, k ≠ l.sys.stream.fileno → ftags k = l.sys.ftags k) →
      Declines l { l with sys := { l.sys with
        outcomes := outcomes, wrapped := wrapped, ftags := ftags } } :=
    fun outcomes wrapped ftags hfts => ⟨⟨rfl, rfl, rfl, rfl, rfl, rfl, fun _ _ => rfl, hfts,
      fun hrep => absurd hrep htype, le_rfl, hroomy.capped.le⟩, rfl⟩
  have hearly : ∀ os, Declines l { l with sys := { l.sys with outcomes := os } } := fun os =>
    hsame os l.sys.wrapped l.sys.ftags fun _ _ => rfl
  refine wp_bind.2 (wp_get.2 (wp_bind.2 (wp_onSys.2 (wp_call (fun os₁ => ?_) hearly))))
  refine wp_bind.2 (wp_onSys.2 (wp_call (fun os₂ => ?_) hearly))
  refine wp_onFail.2 (wp_bind.2 (wp_onSys.2 (wp_mono (linkNewFile_spec _) ?_ ?_)))
  · rintro ftag s₁ ⟨hcnt, os, wrapped, hs₁⟩
    subst hs₁
    refine wp_bind.2 (wp_mono (reserve_spec ⟨hroomy.capped.configured, hroomy.capped.le⟩
      hroomy.curfile_le hroomy.files_le hroomy.extends') ?_ fun _ h => absurd h id)
    rintro _ l₁ ⟨⟨⟨files, hsys, hfiles⟩, hgrown, hcapped⟩, hroom⟩
    refine wp_onSys.2 (wp_modifyStream.2 ?_)
    rw [hsys] at hroom ⊢
    refine ⟨⟨rfl, rfl, rfl, rfl, rfl, hcnt.fileno, fun i hi => ?_, fun k hk => ?_,
      fun hrep => absurd hrep htype, hgrown, hcapped⟩, ?_, ?_, fun ftag' hftag' => ?_, hroom⟩
    · refine (Stream.files_setFile_of_ne _ _ (Nat.ne_of_lt hi)).trans ?_
      exact hfiles i (lt_of_lt_of_le hi hroomy.curfile_le)
    · simp [store, hcnt.fileno, hk]
    · rw [Stream.cur_enter]
      rfl
    · rw [Stream.cur_enter]
      exact hcnt
    · rw [Stream.cur_enter]
      have hsto : some ftag = some ftag' := by
        rw [← hftag']
        simp [store, hcnt.fileno]
      rw [Option.some.inj hsto]
  · rintro s₁ ⟨os, wrapped, ftags, hfts, hs₁⟩
    subst hs₁
    refine wp_snd (wp_onSys.2 (wp_unlinkref (fun os' => ?_) fun os' => ?_))
    · exact hsame os' wrapped ftags hfts
    · refine hsame os' wrapped _ fun k hk => ?_
      rw [if_neg hk]
      exact hfts k hk

theorem openRepackFile_spec (hroomy : Roomy l)
    (hnone : l.sys.ftags l.sys.stream.fileno = none) (path : List Char) (stat : FileStat) :
    wp (openRepackFile path stat) (fun _ => Adds l) (Declines l) l := by
  refine wp_bind.2 (wp_mono (reserve_spec hroomy.capped hroomy.curfile_le hroomy.files_le
    hroomy.extends') ?_ fun _ h => absurd h id)
  intro _ l₁ ⟨⟨⟨files, hsys, hfiles⟩, hgrown, hcapped⟩, hroom⟩
  have hfiles' : ∀ i < l.sys.stream.curfile, files i = l.sys.stream.files i := fun i hi =>
    hfiles i (lt_of_lt_of_le hi hroomy.curfile_le)
  rw [hsys] at hroom
  refine wp_onSys.2 ?_
  rw [hsys]
  refine wp_mono (openRepackFile_counted path stat) ?_ ?_
  · intro _ s₂ ⟨os, wrapped, ftag, finfo, hcnt, hs₂⟩
    subst hs₂
    refine ⟨⟨rfl, rfl, rfl, rfl, rfl, hcnt.fileno, fun i hi => ?_, fun _ _ => rfl, fun _ => rfl,
      hgrown, hcapped⟩, ?_, ?_, fun ftag' hftag' => ?_, hroom⟩
    · exact (Stream.files_setFile_of_ne _ _ (Nat.ne_of_lt hi)).trans (hfiles' i hi)
    · rw [Stream.cur_enter]
      rfl
    · rw [Stream.cur_enter]
      exact ⟨hcnt.fileno, hcnt.place⟩
    · cases hnone.symm.trans hftag'
  · intro s₂ ⟨os, wrapped, finfo, hs₂⟩
    subst hs₂
    exact ⟨⟨rfl, rfl, rfl, rfl, rfl, rfl, hfiles', fun _ _ => rfl, fun _ => rfl, hgrown, hcapped⟩,
      rfl⟩

def advanced (l : Listed) : Listed :=
  { l with sys := { l.sys with stream := { l.sys.stream with
      curfile := l.sys.stream.curfile + 1, fileno := l.sys.stream.fileno + 1 } } }

theorem Adds.places (h : Adds (advanced l) l') {o k : Nat}
    (hk : Places l'.sys.stream l'.sys.objs l'.sys.ftags o k) :
    Places l.sys.stream l.sys.objs l.sys.ftags o k ∨
      o = l'.sys.stream.cur.ftag.objno ∧ k = l.sys.stream.fileno + 1 := by
  have hfno : l'.sys.stream.fileno = l.sys.stream.fileno + 1 := h.fileno
  have hcur : l'.sys.stream.curfile = l.sys.stream.curfile + 1 := h.curfile
  rcases hk with ⟨hle, ftag, hftag, ho⟩ | hseg | ⟨i, hi, hik, hio⟩
  · by_cases hnew : k = l.sys.stream.fileno + 1
    · subst hnew
      exact .inr ⟨ho.symm.trans (h.stored ftag hftag), rfl⟩
    · have hold : l'.sys.ftags k = l.sys.ftags k := h.ftags k hnew
      exact .inl (.inl ⟨by omega, ftag, hold.symm.trans hftag, ho⟩)
  · have hobjs : l'.sys.objs = l.sys.objs := h.objs
    rw [hobjs] at hseg
    exact .inl (.inr (.inl hseg))
  · by_cases hnew : i = l'.sys.stream.curfile
    · subst hnew
      exact .inr ⟨hio.symm, hik.symm.trans h.counted.fileno⟩
    · have hlt : i < l.sys.stream.curfile + 1 := by omega
      have hold : l'.sys.stream.files i = l.sys.stream.files i := h.files i hlt
      rw [hold] at hik hio
      exact .inl (.inr (.inr ⟨i, Nat.lt_succ_iff.1 hlt, hik, hio⟩))

variable {objfiles : Nat}

theorem Adds.slots (h : Adds (advanced l) l') (hslots : ∀ i ≤ l.sys.stream.curfile,
      (l.sys.stream.files i).ftag.fileno + l.sys.stream.curfile = l.sys.stream.fileno + i) :
    ∀ i ≤ l'.sys.stream.curfile,
      (l'.sys.stream.files i).ftag.fileno + l'.sys.stream.curfile = l'.sys.stream.fileno + i := by
  intro i hi
  have hfno : l'.sys.stream.fileno = l.sys.stream.fileno + 1 := h.fileno
  have hcurfile : l'.sys.stream.curfile = l.sys.stream.curfile + 1 := h.curfile
  by_cases hnew : i = l'.sys.stream.curfile
  · subst hnew
    have hcur : (l'.sys.stream.files l'.sys.stream.curfile).ftag.fileno = l.sys.stream.fileno + 1 :=
      h.counted.fileno
    omega
  · have hlt : i < l.sys.stream.curfile + 1 := by omega
    have hold : l'.sys.stream.files i = l.sys.stream.files i := h.files i hlt
    have hslot := hslots i (Nat.lt_succ_iff.1 hlt)
    rw [hold]
    omega

theorem Adds.completed (h : Adds (advanced l) l')
    (hdone : ∀ k, k + l.sys.stream.curfile < l.sys.stream.fileno →
      ∃ ftag, l.sys.ftags k = some ftag ∧ ftag.state.data = .comp) :
    ∀ k, k + l'.sys.stream.curfile < l'.sys.stream.fileno →
      ∃ ftag, l'.sys.ftags k = some ftag ∧ ftag.state.data = .comp := by
  intro k hk
  have hfno : l'.sys.stream.fileno = l.sys.stream.fileno + 1 := h.fileno
  have hcur : l'.sys.stream.curfile = l.sys.stream.curfile + 1 := h.curfile
  have hold : l'.sys.ftags k = l.sys.ftags k := h.ftags k (by
    change k ≠ l.sys.stream.fileno + 1
    omega)
  rw [hold]
  exact hdone k (by omega)

theorem Adds.later (h : Adds (advanced l) l')
    (hlater : l.sys.stream.type = .repack → ∀ k, l.sys.stream.fileno < k → l.sys.ftags k = none) :
    l'.sys.stream.type = .repack → ∀ k, l'.sys.stream.fileno < k → l'.sys.ftags k = none := by
  intro hrep k hk
  have htype : l'.sys.stream.type = l.sys.stream.type := h.type
  have hfno : l'.sys.stream.fileno = l.sys.stream.fileno + 1 := h.fileno
  have hfts : l'.sys.ftags = l.sys.ftags := h.repack (htype ▸ hrep)
  rw [hfts]
  exact hlater (htype ▸ hrep) k (by omega)

theorem Adds.shares (h : Adds (advanced l) l')
    (hl : Windowed objfiles l.filealloc l.sys.stream l.sys.objs l.sys.ftags)
    (hbound : l.sys.stream.curfile + 1 < max objfiles 1)
    (hobj : l'.sys.stream.cur.ftag.objno = l.sys.stream.objno) :
    Windowed objfiles l'.filealloc l'.sys.stream l'.sys.objs l'.sys.ftags := by
  have hfno : l'.sys.stream.fileno = l.sys.stream.fileno + 1 := h.fileno
  have hcur : l'.sys.stream.curfile = l.sys.stream.curfile + 1 := h.curfile
  have hsame : l'.sys.stream.objno = l.sys.stream.objno := h.objno.trans hobj
  have hsch : l'.sys.stream.scheme = l.sys.stream.scheme := h.scheme
  refine ⟨hsch ▸ hl.scheme, ?_, hcur ▸ hbound, h.room, h.slots hl.slots, ?_, ?_, ?_, h.completed hl.completed,
    h.later hl.later⟩
  · intro i hi
    exact (hl.handle i (h.handle ▸ hi)).trans hsame.symm
  · intro k hk
    rw [hsame] at hk
    rcases h.places hk with hold | ⟨-, hnew⟩
    · have hhere := hl.here k hold
      omega
    · omega
  · intro o ho
    obtain ⟨first, hfst⟩ := hl.behind o (hsame ▸ ho)
    refine ⟨first, fun k hk => ?_⟩
    rcases h.places hk with hold | ⟨heq, -⟩
    · exact hfst k hold
    · omega
  · intro o ho k hk
    rcases h.places hk with hold | ⟨heq, -⟩
    · exact hl.beyond o (hsame ▸ ho) k hold
    · omega

theorem Adds.starts (h : Adds (advanced l) l')
    (hl : Windowed objfiles l.filealloc l.sys.stream l.sys.objs l.sys.ftags)
    (hvacant : ∀ k, ¬ Places l.sys.stream l.sys.objs l.sys.ftags l'.sys.stream.cur.ftag.objno k) :
    wp retireObject (fun _ s' => Windowed objfiles l'.filealloc s'.stream s'.objs s'.ftags)
      (fun s' => s'.live = false ∧ s'.objs = l'.sys.objs) l'.sys := by
  have hfno : l'.sys.stream.fileno = l.sys.stream.fileno + 1 := h.fileno
  have hplc : l'.sys.stream.objno = l.sys.stream.objno ∨
      l'.sys.stream.objno = l.sys.stream.objno + 1 := by
    rw [h.objno]
    exact h.counted.place.imp (fun h => h.1) id
  have hsch : l'.sys.stream.scheme = l.sys.stream.scheme := h.scheme
  have hslots := h.slots hl.slots
  refine wp_mono (retireObject_spec hslots) ?_ fun _ h => h
  intro _ s' hretired
  have hwin := hretired.windowed l'.sys.stream.objno s'.stream.offset
    (hsch ▸ hl.scheme) (Nat.zero_lt_of_lt h.room) hslots (h.completed hl.completed)
    (h.later hl.later) ?_ ?_ ?_
  · obtain ⟨outcomes, closed, files, hs'⟩ := hretired.same
    have hobj : s'.stream.objno = l'.sys.stream.objno := by rw [hs']
    rw [← hobj] at hwin
    exact hwin
  · intro k hk
    rcases h.places hk with hold | ⟨-, hnew⟩
    · exact absurd hold (h.objno ▸ hvacant k)
    · exact hnew.trans hfno.symm
  · intro o ho
    -- the objects up to that of the stream are as they were
    have hbef : ∃ first, ∀ k, Places l.sys.stream l.sys.objs l.sys.ftags o k →
        first ≤ k ∧ k < first + max objfiles 1 := by
      rcases Nat.lt_or_ge o l.sys.stream.objno with hlt | hge
      · exact hl.behind o hlt
      · obtain rfl : o = l.sys.stream.objno := by omega
        exact hl.here_bound
    obtain ⟨first, hfst⟩ := hbef
    refine ⟨first, fun k hk => ?_⟩
    rcases h.places hk with hold | ⟨heq, -⟩
    · exact hfst k hold
    · exact absurd (heq.trans h.objno.symm) (Nat.ne_of_lt ho)
  · intro o ho k hk
    rcases h.places hk with hold | ⟨heq, -⟩
    · exact hl.beyond o (by omega) k hold
    · exact absurd (heq.trans h.objno.symm) (Nat.ne_of_gt ho)

def restored (l : Listed) : Listed :=
  { l with sys := { l.sys with stream := { l.sys.stream with
      curfile := l.sys.stream.curfile - 1, fileno := l.sys.stream.fileno - 1 } } }

theorem Declines.restored (h : Declines (advanced l) l')
    (hl : Windowed objfiles l.filealloc l.sys.stream l.sys.objs l.sys.ftags) :
    Windowed objfiles l'.filealloc l'.restored.sys.stream l'.sys.objs l'.sys.ftags := by
  have hfno : l'.restored.sys.stream.fileno = l.sys.stream.fileno :=
    congrArg (· - 1) h.fileno
  have hcur : l'.restored.sys.stream.curfile = l.sys.stream.curfile :=
    congrArg (· - 1) h.curfile
  have hobj : l'.restored.sys.stream.objno = l.sys.stream.objno := h.objno
  have hfiles : ∀ i ≤ l.sys.stream.curfile,
      l'.restored.sys.stream.files i = l.sys.stream.files i := fun i hi =>
    h.files i (Nat.lt_succ_of_le hi)
  have hfts : ∀ k ≤ l.sys.stream.fileno, l'.sys.ftags k = l.sys.ftags k := fun k hk =>
    h.ftags k (Nat.ne_of_lt (Nat.lt_succ_of_le hk))
  have hplc : ∀ o k, Places l'.restored.sys.stream l'.sys.objs l'.sys.ftags o k →
      Places l.sys.stream l.sys.objs l.sys.ftags o k := by
    intro o k hk
    rcases hk with ⟨hle, ftag, hftag, ho⟩ | hseg | ⟨i, hi, hik, hio⟩
    · rw [hfno] at hle
      exact .inl ⟨hle, ftag, (hfts k hle).symm.trans hftag, ho⟩
    · have hobjs : l'.sys.objs = l.sys.objs := h.objs
      rw [hobjs] at hseg
      exact .inr (.inl hseg)
    · rw [hcur] at hi
      rw [hfiles i hi] at hik hio
      exact .inr (.inr ⟨i, hi, hik, hio⟩)
  have hsch : l'.restored.sys.stream.scheme = l.sys.stream.scheme := h.scheme
  refine ⟨?_, ?_, ?_, ?_, ?_, ?_, ?_, ?_, ?_, ?_⟩
  · rw [hsch]
    exact hl.scheme
  · intro i hi
    rw [hobj]
    exact hl.handle i (h.handle ▸ hi)
  · rw [hcur]
    exact hl.curfile_lt
  · rw [hcur]
    exact lt_of_lt_of_le hl.alloc h.grown
  · rw [hcur, hfno]
    intro i hi
    rw [hfiles i hi]
    exact hl.slots i hi
  · rw [hcur, hfno, hobj]
    exact fun k hk => hl.here k (hplc _ k hk)
  · rw [hobj]
    intro o ho
    obtain ⟨first, hfst⟩ := hl.behind o ho
    exact ⟨first, fun k hk => hfst k (hplc o k hk)⟩
  · rw [hobj]
    exact fun o ho k hk => hl.beyond o ho k (hplc o k hk)
  · rw [hcur, hfno]
    intro k hk
    rw [hfts k (by omega)]
    exact hl.completed k hk
  · rw [hfno]
    intro hrep k hk
    have htype : l'.sys.stream.type = l.sys.stream.type := h.type
    have hsame : l'.sys.ftags = l.sys.ftags := h.repack (htype ▸ hrep)
    rw [hsame]
    exact hl.later (htype ▸ hrep) k hk

/-! ## Calls -/

/-- The invariant of a listed stream: while it is there, the list is long enough, and no longer than
it may get. -/
def Tidy (objfiles : Nat) (l : Listed) : Prop :=
  Spread objfiles l.sys.objs ∧ (l.sys.live = true → l.filealloc ≤ objfiles + 1 ∧
    Windowed objfiles l.filealloc l.sys.stream l.sys.objs l.sys.ftags)

theorem Windowed.tidy (h : Windowed objfiles l.filealloc l.sys.stream l.sys.objs l.sys.ftags)
    (hcap : l.filealloc ≤ objfiles + 1) : Tidy objfiles l := ⟨h.spread, fun _ => ⟨hcap, h⟩⟩

theorem tidy_gone (h : Gone objfiles l.sys) : Tidy objfiles l :=
  ⟨h.2, fun hlive => absurd (h.1.symm.trans hlive) (by simp)⟩

theorem enterNext_tidy {curobj : Nat}
    (hnext : wp next (fun _ => Adds (advanced l)) (Declines (advanced l)) (advanced l)) (hpos : objfiles ≠ 0)
    (hl : Windowed objfiles l.filealloc l.sys.stream l.sys.objs l.sys.ftags)
    (hge : curobj ≤ l.sys.stream.objno) (hvacant : curobj ≠ l.sys.stream.objno →
      ∀ k, ¬ Places l.sys.stream l.sys.objs l.sys.ftags l.sys.stream.objno k) :
    wp (enterNext curobj next) (fun _ => Tidy objfiles) (Tidy objfiles) l := by
  refine wp_bind.2 (wp_onSys.2 (wp_modifyStream.2 (wp_bind.2 (wp_onFail.2 (wp_mono hnext ?_ ?_)))))
  · intro _ l₁ hadds
    have hcap : l₁.filealloc ≤ objfiles + 1 := hl.scheme ▸ hadds.capped
    refine wp_bind.2 (wp_get.2 (wp_ite.2 ⟨fun hleft => ?_, fun hstay => ?_⟩))
    · have hst := hadds.starts hl fun k hk => ?_
      · refine wp_onSys.2 (wp_mono hst (fun _ s' h => Windowed.tidy h hcap) ?_)
        intro s' ⟨hdead, hobjs⟩
        have hsame : s'.objs = l.sys.objs := hobjs.trans hadds.objs
        exact tidy_gone ⟨hdead, hsame ▸ hl.spread⟩
      · -- either the file is beyond the object of the stream, or that is not the one it began in
        rcases hadds.counted.place with ⟨hsame, -⟩ | hbeyond
        · rw [hsame] at hk
          exact hvacant (fun h => hleft (hsame.trans h.symm)) k hk
        · rw [hbeyond] at hk
          exact hl.beyond _ (Nat.lt_succ_self _) k hk
    · rw [ne_eq, not_not] at hstay
      refine wp_pure.2 (Windowed.tidy ?_ hcap)
      rcases hadds.counted.place with ⟨hsame, hroom⟩ | hbeyond
      · refine hadds.shares hl ?_ hsame
        have hsch := hl.scheme
        change l.sys.stream.scheme.objfiles = 0 ∨
          l.sys.stream.curfile + 1 < l.sys.stream.scheme.objfiles at hroom
        omega
      · have hnext : l₁.sys.stream.cur.ftag.objno = l.sys.stream.objno + 1 := hbeyond
        omega
  · intro l₁ hdeclines
    have hcap : l₁.filealloc ≤ objfiles + 1 := hl.scheme ▸ hdeclines.capped
    refine wp_snd (P := Tidy objfiles) (wp_onSys.2 (wp_modifyStream.2 ?_))
    exact Windowed.tidy (hdeclines.restored hl) hcap

def Extendable (l : Listed) : Prop :=
  l.sys.stream.scheme.objfiles ≠ 0 ∧
    (l.filealloc ≤ l.sys.stream.curfile + 1 → l.reallocs.head? ≠ some false)

theorem Windowed.roomy (hl : Windowed objfiles l.filealloc l.sys.stream l.sys.objs l.sys.ftags)
    (hconf : objfiles + 1 < SizeT.modulus) (hcap : l.filealloc ≤ objfiles + 1) (hext : Extendable l) :
    Roomy (advanced l) := by
  have hsch := hl.scheme
  have hlt := hl.curfile_lt
  obtain ⟨hpos, hrealloc⟩ := hext
  refine ⟨⟨?_, ?_⟩, hl.alloc, ?_, hrealloc⟩
  · change l.sys.stream.scheme.objfiles + 1 < SizeT.modulus
    omega
  · change l.filealloc ≤ l.sys.stream.scheme.objfiles + 1
    omega
  · change l.sys.stream.curfile + 1 ≤ l.sys.stream.scheme.objfiles
    omega

theorem nextFile_tidy (hnext : ∀ l, l.sys.stream.type = type → Roomy l →
      (type = .repack → l.sys.ftags l.sys.stream.fileno = none) →
      wp next (fun _ => Adds l) (Declines l) l) (htype : l.sys.stream.type = type)
    (hconf : objfiles + 1 < SizeT.modulus) (hcap : l.filealloc ≤ objfiles + 1)
    (hl : Windowed objfiles l.filealloc l.sys.stream l.sys.objs l.sys.ftags) (hext : Extendable l) :
    wp (nextFile next) (fun _ => Tidy objfiles) (Tidy objfiles) l := by
  refine wp_bind.2 (wp_get.2 (wp_bind.2 (wp_onSys.2 (wp_onFail.2 (wp_mono hl.finfile ?_ ?_)))))
  swap
  · exact fun _ hspread => tidy_gone ⟨rfl, hspread⟩
  intro _ s₁ ⟨h₁, hends⟩
  have hput := h₁.put
  rw [hends.curfile] at hput
  refine wp_bind.2 (wp_onSys.2 (wp_onFail.2 (wp_mono hput ?_ fun _ hspread =>
    tidy_gone ⟨rfl, hspread⟩)))
  intro _ s₂ ⟨h₂, hstr, hobjs, htouches⟩
  have hsch : s₂.stream.scheme = l.sys.stream.scheme := hstr ▸ hends.scheme
  have hcur : s₂.stream.curfile = l.sys.stream.curfile := hstr ▸ hends.curfile
  have htype₂ : s₂.stream.type = type := hstr ▸ hends.type.trans htype
  have hext₂ : Extendable { l with sys := s₂ } := by
    refine ⟨?_, ?_⟩
    · exact hsch ▸ hext.1
    · exact hcur ▸ hext.2
  have hpos : objfiles ≠ 0 := h₂.scheme ▸ hext₂.1
  refine enterNext_tidy (hnext _ htype₂ (Windowed.roomy h₂ hconf hcap hext₂) ?_) hpos
    h₂ ?_ ?_
  · exact fun hrep => h₂.later (htype₂.trans hrep) _ (Nat.lt_succ_self _)
  · exact hstr ▸ hends.objno_ge
  · intro hne k hk
    rw [hstr, hobjs] at hk
    rw [hstr] at hne
    exact hends.vacant hne k (htouches.places hk)

def Provided (l : Listed) : Call → Prop
  | .create _ _ => l.sys.stream.type = .create → Extendable l
  | .repack _ _ => l.sys.stream.type = .repack → Extendable l
  | _ => True

theorem perform_tidy (hconf : objfiles + 1 < SizeT.modulus) (hcap : l.filealloc ≤ objfiles + 1)
    (hl : Windowed objfiles l.filealloc l.sys.stream l.sys.objs l.sys.ftags) {c : Call} (hc : Provided l c) :
    Tidy objfiles (perform c l).2 := by
  have href : Tidy objfiles l := Windowed.tidy hl hcap
  -- the calls that do not touch the list
  have hoth : ∀ c, (∀ path stat, c ≠ .create path stat) → (∀ path stat, c ≠ .repack path stat) →
      wp (onSys (Sys.perform c)) (fun _ => Tidy objfiles) (Tidy objfiles) l := by
    intro c hcreat hrep
    refine wp_onSys.2 (wp_mono (hl.perform hcreat hrep) ?_ ?_)
    · exact fun _ s' h => ⟨h.1, fun hlive => ⟨hcap, h.2 hlive⟩⟩
    · exact fun s' h => ⟨h.1, fun hlive => ⟨hcap, h.2 hlive⟩⟩
  refine wp_snd (P := Tidy objfiles) ?_
  cases c with
  | create path stat =>
    refine wp_bind.2 (wp_get.2 (wp_bind.2 (wp_check.2 ⟨fun htype => ?_, fun _ => href⟩)))
    have htype' := of_decide_eq_true htype
    refine nextFile_tidy (fun l htype hroomy _ => ?_) htype' hconf hcap hl (hc htype')
    exact createNewFile_spec hroomy (by simp [htype]) path stat
  | repack path stat =>
    refine wp_bind.2 (wp_get.2 (wp_bind.2 (wp_check.2 ⟨fun htype => ?_, fun _ => href⟩)))
    have htype' := of_decide_eq_true htype
    refine nextFile_tidy (fun l _ hroomy hnone => ?_) htype' hconf hcap hl (hc htype')
    exact openRepackFile_spec hroomy (hnone rfl) path stat
  | write buf => exact hoth (.write buf) (by simp) (by simp)
  | seek fuel offset whence => exact hoth (.seek fuel offset whence) (by simp) (by simp)
  | setrecoverypath path => exact hoth (.setrecoverypath path) (by simp) (by simp)
  | extend length => exact hoth (.extend length) (by simp) (by simp)
  | truncate length => exact hoth (.truncate length) (by simp) (by simp)
  | release => exact hoth .release (by simp) (by simp)
  | close => exact hoth .close (by simp) (by simp)

/-! ## The first file -/

structure Blank (objfiles : Nat) (l : Listed) : Prop where
  scheme : l.sys.stream.scheme.objfiles = objfiles
  handle : l.sys.stream.datahandle = none
  curfile : l.sys.stream.curfile = 0
  fileno : l.sys.stream.fileno = 0
  objs : ∀ o, l.sys.objs o = []
  ftags : ∀ k, l.sys.ftags k = none

theorem Blank.spread (h : Blank objfiles l) : Spread objfiles l.sys.objs := by
  intro o
  refine ⟨0, fun k ⟨segment, hseg, _⟩ => ?_⟩
  rw [h.objs o] at hseg
  cases hseg

theorem Adds.first (h : Adds l l') (hblank : Blank objfiles l) :
    Windowed objfiles l'.filealloc l'.sys.stream l'.sys.objs l'.sys.ftags := by
  have hcurfile : l'.sys.stream.curfile = 0 := h.curfile.trans hblank.curfile
  have hfno : l'.sys.stream.fileno = 0 := h.fileno.trans hblank.fileno
  have hcur : l'.sys.stream.cur.ftag.fileno = 0 := h.counted.fileno.trans hblank.fileno
  have hplc : ∀ o k, Places l'.sys.stream l'.sys.objs l'.sys.ftags o k →
      o = l'.sys.stream.objno ∧ k = 0 := by
    intro o k hk
    rcases hk with ⟨hle, ftag, hftag, ho⟩ | ⟨segment, hseg, _⟩ | ⟨i, hi, hik, hio⟩
    · obtain rfl : k = 0 := by omega
      rw [← hblank.fileno] at hftag
      exact ⟨ho.symm.trans ((h.stored ftag hftag).trans h.objno.symm), rfl⟩
    · rw [h.objs, hblank.objs o] at hseg
      cases hseg
    · rw [hcurfile, Nat.le_zero] at hi
      rw [hi, ← hcurfile] at hik hio
      exact ⟨hio.symm.trans h.objno.symm, hik.symm.trans hcur⟩
  refine ⟨h.scheme ▸ hblank.scheme, ?_, by omega, h.room, ?_, ?_, ?_, ?_, ?_, ?_⟩
  · intro i hi
    rw [h.handle, hblank.handle] at hi
    cases hi
  · intro i hi
    rw [hcurfile, Nat.le_zero] at hi
    rw [hi, ← hcurfile]
    change l'.sys.stream.cur.ftag.fileno + _ = _
    omega
  · intro k hk
    have hzero := (hplc _ k hk).2
    omega
  · intro o ho
    exact ⟨0, fun k hk => absurd (hplc o k hk).1 (Nat.ne_of_lt ho)⟩
  · exact fun o ho k hk => absurd (hplc o k hk).1 (Nat.ne_of_gt ho)
  · intro k hk
    omega
  · intro hrep k _
    rw [h.repack (h.type ▸ hrep)]
    exact hblank.ftags k

theorem openFirst_tidy (hblank : Blank objfiles l) (hconf : objfiles + 1 < SizeT.modulus)
    (hpos : 0 < l.filealloc) (hcap : l.filealloc ≤ objfiles + 1) (htype : l.sys.stream.type = type)
    (path : List Char) (stat : FileStat) :
    wp (if type = StreamType.repack then openRepackFile path stat
        else createNewFile path stat)
      (fun _ => Tidy objfiles) (fun l' => Tidy objfiles (onSys freestream l').2) l := by
  have hsch := hblank.scheme
  have hcur := hblank.curfile
  have hroomy : Roomy l := ⟨⟨by omega, by omega⟩, by omega, by omega, by omega⟩
  have hadds : ∀ l', Adds l l' → Tidy objfiles l' := fun l' h =>
    Windowed.tidy (h.first hblank) (hsch ▸ h.capped)
  have hdeclines : ∀ l', Declines l l' → Tidy objfiles (onSys freestream l').2 := fun l' h =>
    tidy_gone ⟨rfl, h.objs ▸ hblank.spread⟩
  refine wp_ite.2 ⟨fun _ => ?_, fun hcreat => ?_⟩
  · exact wp_mono (openRepackFile_spec hroomy (hblank.ftags _) path stat)
      (fun _ => hadds) hdeclines
  · exact wp_mono (createNewFile_spec hroomy (htype ▸ hcreat) path stat)
      (fun _ => hadds) hdeclines

theorem genstream_tidy (hsch : scheme.objfiles + 1 < SizeT.modulus) (type : StreamType)
    (ctag streamid : List Char) (outcomes : List (Option Nat)) (reallocs : List Bool) (path : List Char)
    (stat : FileStat) :
    Tidy scheme.objfiles
      (genstream path stat (fresh type scheme ctag streamid outcomes reallocs)).2 := by
  have hblank : Blank scheme.objfiles (fresh type scheme ctag streamid outcomes reallocs) :=
    ⟨rfl, rfl, rfl, rfl, fun _ => rfl, fun _ => rfl⟩
  generalize fresh type scheme ctag streamid outcomes reallocs = l at hblank
  have hdead : ∀ l' : Listed, l'.sys.objs = l.sys.objs →
      Tidy scheme.objfiles (onSys freestream l').2 := fun l' h => tidy_gone ⟨rfl, h ▸ hblank.spread⟩
  obtain ⟨hgrown, hmax⟩ := allocsize_spec _ _ (Nat.succ_pos scheme.objfiles)
  have hmaxFiles : maxFiles l.sys.stream.scheme = scheme.objfiles + 1 := by
    rw [maxFiles, hblank.scheme]
    exact SizeT.wrap_of_lt hsch
  refine wp_snd (P := Tidy scheme.objfiles) (wp_bind.2 (wp_get.2 (wp_onFail.2 ?_)))
  rw [hmaxFiles]
  refine wp_bind.2 (wp_bind.2 (wp_realloc fun ok reallocs _ => wp_ite.2 ⟨fun _ => ?_, fun _ => ?_⟩))
  · refine wp_bind.2 (wp_onSys.2 (wp_modifyStream.2 (wp_pure.2 (wp_bind.2 (wp_modify.2 ?_)))))
    refine wp_bind.2 (wp_check.2 ⟨fun _ => ?_, fun _ => hdead _ rfl⟩)
    refine openFirst_tidy ?_ hsch ?_ ?_ ?_ path stat
    · exact ⟨hblank.scheme, hblank.handle, hblank.curfile, hblank.fileno, hblank.objs, hblank.ftags⟩
    · exact hgrown
    · exact hmax
    · rfl
  · refine wp_pure.2 (wp_bind.2 (wp_modify.2 (wp_bind.2 (wp_check.2 ⟨fun hfalse => ?_, fun _ => ?_⟩))))
    · simp at hfalse
    · exact hdead _ rfl

/-! ## Every run -/

/-- The files of which there is something in an object. -/
def contained (s : Sys) (o : Nat) : Set Nat := {k | Inside s.objs o k}

/-- The files in an object, also those that have not been written yet. -/
def placed (s : Sys) (o : Nat) : Set Nat := {k | Places s.stream s.objs s.ftags o k}

theorem encard_le {p : Nat → Prop} {first n : Nat} (h : ∀ k, p k → first ≤ k ∧ k < first + n) :
    {k | p k}.encard ≤ n := by
  have hsub : {k | p k} ⊆ (Finset.Ico first (first + n) : Set Nat) := by
    intro k hk
    rw [Finset.coe_Ico]
    exact h k hk
  refine (Set.encard_le_encard hsub).trans ?_
  rw [Set.encard_coe_eq_coe_finsetCard, Nat.card_Ico, Nat.add_sub_cancel_left]

/-- The list has a place for every file in use.  These are the last files of the stream, in order;
the files before them are complete. -/
structure InPlace (l : Listed) : Prop where
  room : l.sys.stream.curfile < l.filealloc
  slots : ∀ i ≤ l.sys.stream.curfile,
    (l.sys.stream.files i).ftag.fileno + l.sys.stream.curfile = l.sys.stream.fileno + i
  completed : ∀ k, k + l.sys.stream.curfile < l.sys.stream.fileno →
    ∃ ftag, l.sys.ftags k = some ftag ∧ ftag.state.data = .comp

/-- As long as new files find a list that has a place for them or gets one, the list never falls
short, and no object is given more files than it may hold. -/
theorem window_kept {ctag streamid : List Char} {l : Listed} (hconfigured : Configured scheme.objfiles)
    (hl : Reached type scheme ctag streamid (fun l c => Provided l c) l) :
    (scheme.objfiles ≠ 0 → ∀ o, (contained l.sys o).encard ≤ scheme.objfiles) ∧
      (l.sys.live = true → InPlace l ∧
        (scheme.objfiles ≠ 0 → ∀ o, (placed l.sys o).encard ≤ scheme.objfiles)) := by
  have htidy : Tidy scheme.objfiles l := by
    refine hl.invariant (fun outcomes reallocs path stat => ?_) fun l c h hlive hc => ?_
    · exact genstream_tidy hconfigured.succ_lt type ctag streamid outcomes reallocs path stat
    · obtain ⟨hcap, hwindowed⟩ := h.2 hlive
      exact perform_tidy hconfigured.succ_lt hcap hwindowed hc
  have hmax : scheme.objfiles ≠ 0 → max scheme.objfiles 1 = scheme.objfiles := fun hpos => by omega
  refine ⟨fun hpos o => ?_, fun hlive => ?_⟩
  · obtain ⟨first, hfirst⟩ := htidy.1 o
    rw [hmax hpos] at hfirst
    exact encard_le hfirst
  · obtain ⟨-, hwindowed⟩ := htidy.2 hlive
    refine ⟨⟨hwindowed.alloc, hwindowed.slots, hwindowed.completed⟩, fun hpos o => ?_⟩
    obtain ⟨first, hfirst⟩ := hwindowed.bounds o
    rw [hmax hpos] at hfirst
    exact encard_le hfirst

def twoFiles (objfiles : Nat) : Listed :=
  (perform (.create ['b'] sampleStat) (genstream ['a'] sampleStat
    (fresh .create { sampleScheme 0 with objfiles := objfiles } ['c'] ['s'] [] [])).2).2

theorem twoFiles_reached {objfiles : Nat} {allowed : Listed → Call → Prop}
    (hlive : (genstream ['a'] sampleStat (fresh .create
      { sampleScheme 0 with objfiles := objfiles } ['c'] ['s'] [] [])).2.sys.live = true)
    (hallow : allowed (genstream ['a'] sampleStat (fresh .create
      { sampleScheme 0 with objfiles := objfiles } ['c'] ['s'] [] [])).2
        (.create ['b'] sampleStat)) :
    Reached .create { sampleScheme 0 with objfiles := objfiles } ['c'] ['s'] allowed
      (twoFiles objfiles) :=
  ⟨[], [], ['a'], sampleStat, .tail .refl ⟨.create ['b'] sampleStat, hlive, hallow, rfl⟩⟩

theorem window_kept_twoFiles : (∀ o, (contained (twoFiles 4).sys o).encard ≤ 4) ∧ InPlace (twoFiles 4) := by
  have hreached : Reached .create { sampleScheme 0 with objfiles := 4 } ['c'] ['s']
      (fun l c => Provided l c) (twoFiles 4) := by
    refine twoFiles_reached (by decide +kernel) fun _ => ⟨?_, ?_⟩
    · decide +kernel
    · decide +kernel
  have hkept := window_kept (.inr ⟨some ['4'], by decide +kernel⟩) hreached
  exact ⟨hkept.1 (by decide), (hkept.2 (by decide +kernel)).1⟩

/-- Without a limit, the second file of an object has no place in the list. -/
theorem unlimited_overrun : Configured 0 ∧ Reached .create { sampleScheme 0 with objfiles := 0 } ['c'] ['s']
      (fun _ _ => True) (twoFiles 0) ∧
    (twoFiles 0).sys.live = true ∧ (twoFiles 0).filealloc ≤ (twoFiles 0).sys.stream.curfile :=
  ⟨.inr ⟨some ['0'], by decide +kernel⟩, twoFiles_reached (by decide +kernel) trivial,
    by decide +kernel, by decide +kernel⟩

end Listed

end Marfs.Datastream
