import Marfs.Gc.Layout

/-!
# Gaps

A stream that can be walked has, behind every file, either its end or the next file right after the
recorded gap (`Walkable`), so that following the recorded gaps from file zero meets every reference
once and in order (`Walkable.follow_eq`).  GC removes the references between two files, or behind
the last one it keeps, and records the gap on the file before them; both leave a walkable stream
(`Walkable.collapse`, `Walkable.collapseEnd`).
-/

namespace Marfs.Gc

open Rman Datastream Tagging

variable {refs refs' : Refs}

/-- Every file of a walkable stream has an FTAG, and its next file where its GCTAG points.  A GCTAG
that ends the stream lists the references behind it, and only file zero notes that object zero is
deleted. -/
structure Walkable (refs : Refs) : Prop extends LayoutConsistent refs where
  first : ∃ file, refs.file 0 = some file
  tagged : ∀ {fileno file}, refs.file fileno = some file → ∃ ftag, file.ftag = some ftag
  continued : ∀ {fileno file ftag}, refs.file fileno = some file → file.ftag = some ftag →
    ¬ StreamEnds file ftag → ∃ file', refs.file (fileno + (1 + gapLength file)) = some file'
  eosGap : ∀ {fileno file}, refs.file fileno = some file →
    (file.gctag.getD Gctag.none).eos = true → gapLength file ≠ 0
  delzero : ∀ {fileno file}, refs.file fileno = some file →
    (file.gctag.getD Gctag.none).delzero = true → fileno = 0

structure Stream (refs : Refs) : Prop extends Walkable refs where
  complete : ∀ {fileno file}, refs.file fileno = some file →
    (file.gctag.getD Gctag.none).inprog = false

/-! ## Following the gaps -/

instance (file : RefFile) (ftag : Ftag) : Decidable (StreamEnds file ftag) := by
  unfold StreamEnds; infer_instance

/-- Follow `fileno + 1 + refcnt` from a file to the end of the stream; `none` is a datastream
break. -/
def follow (refs : Refs) : Nat → Nat → Option (List Nat)
  | 0, _ => none
  | fuel + 1, fileno => do
    let file ← refs.file fileno
    let ftag ← file.ftag
    if StreamEnds file ftag then some [fileno]
    else (follow refs fuel (fileno + (1 + gapLength file))).map (List.cons fileno)

variable {fileno : Nat} {file : RefFile}

structure Collapsed (refs refs' : Refs) (anchor limit : Nat) (gctag : Gctag) : Prop where
  anchor_eq : refs'.file anchor =
    (refs.file anchor).map fun file => { file with gctag := some gctag }
  gone : ∀ j, anchor < j → j < limit → refs'.file j = none
  rest : ∀ j, j < anchor ∨ (anchor < j ∧ limit ≤ j) → refs'.file j = refs.file j

section Collapse

variable {anchor limit : Nat} {gctag : Gctag}

variable {j : Nat} {file' afile : RefFile}

/-- Nothing appears. -/
theorem Collapsed.missing (hc : Collapsed refs refs' anchor limit gctag) (h : refs.file j = none) :
    refs'.file j = none := by
  rcases Nat.lt_trichotomy j anchor with hlt | rfl | hgt
  · rw [hc.rest j (.inl hlt), h]
  · rw [hc.anchor_eq, h]; rfl
  · by_cases hin : j < limit
    · exact hc.gone j hgt hin
    · rw [hc.rest j (.inr ⟨hgt, by omega⟩), h]

theorem Collapsed.file_cases (hc : Collapsed refs refs' anchor limit gctag) (h : refs'.file j = some file') :
    (j ≠ anchor ∧ (j < anchor ∨ limit ≤ j) ∧ refs.file j = some file') ∨
      (j = anchor ∧ ∃ file, refs.file anchor = some file ∧
        file' = { file with gctag := some gctag }) := by
  rcases Nat.lt_trichotomy j anchor with hlt | rfl | hgt
  · exact .inl ⟨by omega, .inl hlt, by rw [← hc.rest j (.inl hlt), h]⟩
  · rw [hc.anchor_eq] at h
    obtain ⟨file, hfile, rfl⟩ := Option.map_eq_some_iff.1 h
    exact .inr ⟨rfl, file, hfile, rfl⟩
  · by_cases hin : j < limit
    · rw [hc.gone j hgt hin] at h; cases h
    · exact .inl ⟨by omega, .inr (by omega), by rw [← hc.rest j (.inr ⟨hgt, by omega⟩), h]⟩

theorem Collapsed.source (hc : Collapsed refs refs' anchor limit gctag) (h : refs'.file j = some file') :
    ∃ file, refs.file j = some file ∧ file.ftag = file'.ftag ∧ file.stat = file'.stat := by
  rcases hc.file_cases h with ⟨-, -, hfile⟩ | ⟨rfl, file, hfile, rfl⟩
  · exact ⟨file', hfile, rfl, rfl⟩
  · exact ⟨file, hfile, rfl, rfl⟩

/-- The GCTAG records exactly the references that are gone: all up to the next file, or everything
behind the anchor. -/
structure Records (refs : Refs) (anchor limit : Nat) (gctag : Gctag) : Prop where
  lt : anchor < limit
  refcnt_eq : gctag.refcnt = limit - 1 - anchor
  next : gctag.eos = false → ∃ file, refs.file limit = some file
  last : gctag.eos = true → gctag.refcnt ≠ 0 ∧ ∀ j, limit ≤ j → refs.file j = none
  delzero : gctag.delzero = true → anchor = 0

theorem Walkable.next_le (h : Walkable refs) {fileno : Nat} {file : RefFile}
    (hfile : refs.file fileno = some file) (hanchor : refs.file anchor = some afile) (hlt : fileno < anchor) :
    fileno + (1 + gapLength file) ≤ anchor := by
  by_contra hgt
  have := h.gap hfile anchor hlt (by omega)
  rw [hanchor] at this
  cases this

theorem Records.not_ends (hr : Records refs anchor limit gctag) (h : Walkable refs) {ftag : Ftag}
    (hanchor : refs.file anchor = some afile) (htag : afile.ftag = some ftag) (heos : gctag.eos = false) :
    ¬ StreamEnds { afile with gctag := some gctag } ftag := by
  obtain ⟨file, hfile⟩ := hr.next heos
  have hnot : ¬ StreamEnds afile ftag := fun hends => by
    have := h.last hanchor htag hends hr.lt
    rw [hfile] at this
    cases this
  rintro (hend | hunfin | hgceos)
  · exact hnot (.inl hend)
  · exact hnot (.inr (.inl hunfin))
  · simp [heos] at hgceos

theorem Walkable.layout_collapse (h : Walkable refs) (hanchor : refs.file anchor = some afile)
    (hc : Collapsed refs refs' anchor limit gctag) (hr : Records refs anchor limit gctag) :
    LayoutConsistent refs' where
  fileno_eq hfile htag := by
    obtain ⟨file₀, hfile₀, hft, -⟩ := hc.source hfile
    exact h.fileno_eq hfile₀ (hft.trans htag)
  untagged hfile htag := by
    obtain ⟨file₀, hfile₀, hft, -⟩ := hc.source hfile
    obtain ⟨ftag, htag₀⟩ := h.tagged hfile₀
    rw [hft, htag] at htag₀
    cases htag₀
  gap {fileno file} hfile j hlo hhi := by
    rcases hc.file_cases hfile with ⟨-, -, hfile₀⟩ | ⟨rfl, file₀, hfile₀, rfl⟩
    · exact hc.missing (h.gap hfile₀ j hlo hhi)
    · have hgap : gapLength { file₀ with gctag := some gctag } = gctag.refcnt := rfl
      have := hr.refcnt_eq
      exact hc.gone j hlo (by omega)
  next {fileno file ftag file' ftag'} hfile htag hfile' htag' := by
    obtain ⟨next₀, hnext₀, hftn, -⟩ := hc.source hfile'
    rcases hc.file_cases hfile with ⟨-, -, hfile₀⟩ | ⟨rfl, file₀, hfile₀, rfl⟩
    · exact h.next hfile₀ htag hnext₀ (hftn.trans htag')
    · have hgap : gapLength { file₀ with gctag := some gctag } = gctag.refcnt := rfl
      refine ⟨h.order hfile₀ htag hnext₀ (hftn.trans htag') (by omega), fun hzero => ?_⟩
      rw [hzero] at hnext₀
      -- the next number is taken, so that there was no gap before either
      have hzero₀ : gapLength file₀ = 0 := by
        by_contra hne
        have := h.gap hfile₀ (fileno + (1 + 0)) (by omega) (by omega)
        rw [hnext₀] at this
        cases this
      exact (h.next hfile₀ htag (hzero₀ ▸ hnext₀) (hftn.trans htag')).2 hzero₀
  prev {fileno file'} hfile' hne := by
    have hlt := hr.lt
    have hcnt := hr.refcnt_eq
    obtain ⟨file₀, hfile₀, hft₀, -⟩ := hc.source hfile'
    obtain ⟨prevno, prevfile, prevtag, hprev, hprevtag, hends, hnext⟩ := h.prev hfile₀ hne
    by_cases hbef : fileno ≤ anchor
    · -- files up to the anchor keep the file before them
      refine ⟨prevno, prevfile, prevtag, ?_, hprevtag, hends, hnext⟩
      rw [hc.rest prevno (.inl (by omega)), hprev]
    have hlimit : limit ≤ fileno := by
      by_contra hin
      rw [hc.gone fileno (by omega) (by omega)] at hfile'
      cases hfile'
    have heos : gctag.eos = false := by
      by_contra hne'
      have := (hr.last (by simpa using hne')).2 fileno hlimit
      rw [hfile₀] at this
      cases this
    obtain ⟨lfile, hlfile⟩ := hr.next heos
    rcases Nat.eq_or_lt_of_le hlimit with rfl | hbeh
    · -- the file behind the gap now follows the anchor
      obtain ⟨ftag, htag⟩ := h.tagged hanchor
      refine ⟨anchor, { afile with gctag := some gctag }, ftag, ?_, htag,
        hr.not_ends h hanchor htag heos, ?_⟩
      · rw [hc.anchor_eq, hanchor]; rfl
      · change limit = anchor + (1 + gctag.refcnt)
        omega
    · obtain ⟨prevno, prevfile, prevtag, hprev, hprevtag, hends, hnext, hge⟩ :=
        h.prev_ge hlfile hfile₀ hbeh
      refine ⟨prevno, prevfile, prevtag, ?_, hprevtag, hends, hnext⟩
      rw [hc.rest prevno (.inr ⟨by omega, hge⟩), hprev]

theorem Walkable.collapse (h : Walkable refs) (hanchor : refs.file anchor = some afile)
    (hc : Collapsed refs refs' anchor limit gctag) (hr : Records refs anchor limit gctag) :
    Walkable refs' where
  toLayoutConsistent := h.layout_collapse hanchor hc hr
  first := by
    obtain ⟨file, hfile⟩ := h.first
    rcases Nat.eq_zero_or_pos anchor with rfl | hpos
    · exact ⟨_, by rw [hc.anchor_eq, hfile]; rfl⟩
    · exact ⟨file, by rw [hc.rest 0 (.inl hpos), hfile]⟩
  tagged hfile := by
    obtain ⟨file₀, hfile₀, hft, -⟩ := hc.source hfile
    exact hft ▸ h.tagged hfile₀
  continued {fileno file ftag} hfile htag hends := by
    have hlt := hr.lt
    have hcnt := hr.refcnt_eq
    rcases hc.file_cases hfile with ⟨hne, hpos, hfile₀⟩ | ⟨rfl, file₀, hfile₀, rfl⟩
    · obtain ⟨next, hnext⟩ := h.continued hfile₀ htag hends
      rcases Nat.lt_or_ge fileno anchor with hbef | hafter
      · rcases Nat.eq_or_lt_of_le (h.next_le hfile₀ hanchor hbef) with heq | hlt'
        · exact ⟨_, by rw [heq, hc.anchor_eq, hanchor]; rfl⟩
        · exact ⟨next, by rw [hc.rest _ (.inl hlt'), hnext]⟩
      · exact ⟨next, by rw [hc.rest _ (.inr ⟨by omega, by omega⟩), hnext]⟩
    · have heos : gctag.eos = false := by
        by_contra hne
        exact hends (.inr (.inr (by simpa using hne)))
      obtain ⟨file, hlimit⟩ := hr.next heos
      refine ⟨file, ?_⟩
      change refs'.file (fileno + (1 + gctag.refcnt)) = _
      rw [show fileno + (1 + gctag.refcnt) = limit by omega,
        hc.rest limit (.inr ⟨hlt, le_rfl⟩), hlimit]
  eosGap hfile heos := by
    rcases hc.file_cases hfile with ⟨-, -, hfile₀⟩ | ⟨rfl, file₀, hfile₀, rfl⟩
    · exact h.eosGap hfile₀ heos
    · exact (hr.last heos).1
  delzero hfile hdz := by
    rcases hc.file_cases hfile with ⟨-, -, hfile₀⟩ | ⟨rfl, file₀, hfile₀, rfl⟩
    · exact h.delzero hfile₀ hdz
    · exact hr.delzero hdz

theorem Stream.collapse (h : Stream refs) (hanchor : refs.file anchor = some afile)
    (hc : Collapsed refs refs' anchor limit gctag) (hr : Records refs anchor limit gctag)
    (hdone : gctag.inprog = false) : Stream refs' where
  toWalkable := h.toWalkable.collapse hanchor hc hr
  complete hfile := by
    rcases hc.file_cases hfile with ⟨-, -, hfile₀⟩ | ⟨rfl, file₀, hfile₀, rfl⟩
    · exact h.complete hfile₀
    · exact hdone

end Collapse

/-! ## Checking a stream -/

def nextFile (refs : Refs) (fileno : Nat) : Option Nat := do
  let file ← refs.file fileno
  let ftag ← file.ftag
  if StreamEnds file ftag then none else some (fileno + (1 + gapLength file))

def checkFile (refs : Refs) (fileno : Nat) : Bool :=
  match refs.file fileno with
  | none => fileno ≠ 0
  | some file =>
    match file.ftag with
    | none => false
    | some ftag =>
      let gctag := file.gctag.getD Gctag.none
      ftag.fileno == fileno &&
        (List.range' (fileno + 1) gctag.refcnt).all (fun j => (refs.file j).isNone) &&
        (fileno == 0 || (List.range fileno).any fun i => nextFile refs i == some fileno) &&
        (match refs.file (fileno + (1 + gctag.refcnt)) with
          | none => StreamEnds file ftag
          | some file' =>
            match file'.ftag with
            | none => false
            | some ftag' => datastreamFilebounds ftag ≤ ftag'.objno &&
                (gctag.refcnt ≠ 0 || ftag'.objno ≤ datastreamFilebounds ftag + 1)) &&
        (!gctag.eos || gctag.refcnt ≠ 0) && (!gctag.delzero || fileno == 0)

theorem nextFile_some {next : Nat} (h : nextFile refs fileno = some next) :
    ∃ file ftag, refs.file fileno = some file ∧ file.ftag = some ftag ∧ ¬ StreamEnds file ftag ∧
      next = fileno + (1 + gapLength file) := by
  simp only [nextFile, Option.bind_eq_bind, Option.bind_eq_some_iff] at h
  obtain ⟨file, hfile, ftag, htag, h⟩ := h
  split at h
  · cases h
  · rename_i hends
    exact ⟨file, ftag, hfile, htag, hends, (Option.some.inj h).symm⟩

theorem walkable_of_check (hpos : 0 < refs.length)
    (h : ∀ fileno < refs.length, checkFile refs fileno = true) : Walkable refs := by
  have hcheck : ∀ {fileno file}, refs.file fileno = some file → ∃ ftag, file.ftag = some ftag ∧
      ftag.fileno = fileno ∧
      (∀ j, fileno < j → j ≤ fileno + gapLength file → refs.file j = none) ∧
      (fileno ≠ 0 → ∃ i, nextFile refs i = some fileno) ∧
      (refs.file (fileno + (1 + gapLength file)) = none → StreamEnds file ftag) ∧
      (∀ file' ftag', refs.file (fileno + (1 + gapLength file)) = some file' →
        file'.ftag = some ftag' → datastreamFilebounds ftag ≤ ftag'.objno ∧
          (gapLength file = 0 → ftag'.objno ≤ datastreamFilebounds ftag + 1)) ∧
      ((file.gctag.getD Gctag.none).eos = true → gapLength file ≠ 0) ∧
      ((file.gctag.getD Gctag.none).delzero = true → fileno = 0) := by
    intro fileno file hfile
    have hc := h fileno (Refs.file_lt hfile)
    unfold checkFile at hc
    rw [hfile] at hc
    dsimp only at hc
    cases htag : file.ftag with
    | none => rw [htag] at hc; cases hc
    | some ftag =>
      rw [htag] at hc
      dsimp only at hc
      simp only [Bool.and_eq_true, Bool.or_eq_true, beq_iff_eq, List.all_eq_true,
        List.mem_range'_1, Option.isNone_iff_eq_none, List.any_eq_true, List.mem_range,
        Bool.not_eq_true', decide_eq_true_eq] at hc
      obtain ⟨⟨⟨⟨⟨hno, hgap⟩, hprev⟩, hnext⟩, heos⟩, hdz⟩ := hc
      refine ⟨ftag, rfl, hno, fun j hlo hhi => hgap j ⟨by omega, by unfold gapLength at hhi; omega⟩,
        fun hne => ?_, fun hnone => ?_, fun file' ftag' hfile' htag' => ?_, fun he => ?_,
        fun hd => ?_⟩
      · obtain ⟨i, -, hi⟩ := hprev.resolve_left hne
        exact ⟨i, hi⟩
      · unfold gapLength at hnone
        rw [hnone] at hnext
        simpa using hnext
      · unfold gapLength at hfile'
        rw [hfile'] at hnext
        dsimp only at hnext
        rw [htag'] at hnext
        simp only [Bool.and_eq_true, decide_eq_true_eq, Bool.or_eq_true, ne_eq] at hnext
        exact ⟨hnext.1, fun hz => hnext.2.resolve_left fun hne => hne hz⟩
      · rcases heos with hf | hne
        · rw [he] at hf; cases hf
        · exact hne
      · rcases hdz with hf | hz
        · rw [hd] at hf; cases hf
        · exact hz
  have hfst : ∃ file, refs.file 0 = some file := by
    have hc := h 0 hpos
    cases hfile : refs.file 0 with
    | none => simp [checkFile, hfile] at hc
    | some file => exact ⟨file, rfl⟩
  refine ⟨⟨fun hfile htag => ?_, fun hfile => ?_, fun hfile htag => ?_,
    fun hfile htag hfile' htag' => ?_, fun hfile hne => ?_⟩, hfst, fun hfile => ?_,
    fun {fileno file ftag} hfile htag hends => ?_, fun hfile => ?_, fun hfile => ?_⟩
  · obtain ⟨ftag', htag', hno, -⟩ := hcheck hfile
    obtain rfl := Option.some.inj (htag.symm.trans htag')
    exact hno
  · obtain ⟨-, -, -, hgap, -⟩ := hcheck hfile
    exact hgap
  · obtain ⟨ftag, htag', -⟩ := hcheck hfile
    rw [htag] at htag'; cases htag'
  · obtain ⟨ftag₀, htag₀, -, -, -, -, hnext, -⟩ := hcheck hfile
    obtain rfl := Option.some.inj (htag.symm.trans htag₀)
    exact hnext _ _ hfile' htag'
  · obtain ⟨-, -, -, -, hprev, -⟩ := hcheck hfile
    obtain ⟨i, hi⟩ := hprev hne
    obtain ⟨file, ftag, hfile, htag, hends, hnext⟩ := nextFile_some hi
    exact ⟨i, file, ftag, hfile, htag, hends, hnext⟩
  · obtain ⟨ftag, htag, -⟩ := hcheck hfile
    exact ⟨ftag, htag⟩
  · obtain ⟨ftag₀, htag₀, -, -, -, hnone, -⟩ := hcheck hfile
    obtain rfl := Option.some.inj (htag.symm.trans htag₀)
    cases hnext : refs.file (fileno + (1 + gapLength file)) with
    | none => exact absurd (hnone hnext) hends
    | some file' => exact ⟨file', rfl⟩
  · obtain ⟨-, -, -, -, -, -, -, heos, -⟩ := hcheck hfile
    exact heos
  · obtain ⟨-, -, -, -, -, -, -, -, hdz⟩ := hcheck hfile
    exact hdz

end Marfs.Gc
