import Marfs.Rman.WalkRun

/-!
# The layout of a datastream

A writer numbers the files of a stream consecutively and packs them into numbered objects in order;
earlier GC runs removed files and left complete gaps, recorded on the file before them.  From these
local rules, one for a file and the next, follow the global ones a walk relies on: objects grow with
file numbers (`LayoutConsistent.order`), and nothing comes after the end of the stream
(`LayoutConsistent.last`).
-/

namespace Marfs.Gc

open Rman Datastream Tagging

variable {refs : Refs}

/-- The number of deleted references directly after a file. -/
def gapLength (file : RefFile) : Nat := (file.gctag.getD Gctag.none).refcnt

/-- The stream ends at a file: its writer closed the stream there, or has not finalized the file
yet, or GC deleted everything behind it. -/
def StreamEnds (file : RefFile) (ftag : Ftag) : Prop :=
  ftag.endofstream = true ∨ ftag.unfinalized = true ∨ (file.gctag.getD Gctag.none).eos = true

/-- Local rules of a stream: FTAGs bear the numbers of their files; the gap a GCTAG records is
complete, and none is attached to a file without an FTAG; the next file starts in the last object of a file or the one after it, or, across a gap,
in some later one; and every file but the first is the next one of a file where the stream does not
end. -/
structure LayoutConsistent (refs : Refs) : Prop where
  fileno_eq : ∀ {fileno file ftag}, refs.file fileno = some file → file.ftag = some ftag →
    ftag.fileno = fileno
  gap : ∀ {fileno file}, refs.file fileno = some file →
    ∀ j, fileno < j → j ≤ fileno + gapLength file → refs.file j = none
  untagged : ∀ {fileno file}, refs.file fileno = some file → file.ftag = none →
    gapLength file = 0
  next : ∀ {fileno file ftag file' ftag'}, refs.file fileno = some file → file.ftag = some ftag →
    refs.file (fileno + (1 + gapLength file)) = some file' → file'.ftag = some ftag' →
    datastreamFilebounds ftag ≤ ftag'.objno ∧
      (gapLength file = 0 → ftag'.objno ≤ datastreamFilebounds ftag + 1)
  prev : ∀ {fileno file'}, refs.file fileno = some file' → fileno ≠ 0 →
    ∃ prevno file ftag, refs.file prevno = some file ∧ file.ftag = some ftag ∧
      ¬ StreamEnds file ftag ∧ fileno = prevno + (1 + gapLength file)

namespace LayoutConsistent

theorem prev_ge (h : LayoutConsistent refs) {i j : Nat} {file file' : RefFile}
    (hi : refs.file i = some file) (hj : refs.file j = some file') (hlt : i < j) :
    ∃ prevno prevfile ftag, refs.file prevno = some prevfile ∧ prevfile.ftag = some ftag ∧
      ¬ StreamEnds prevfile ftag ∧ j = prevno + (1 + gapLength prevfile) ∧ i ≤ prevno := by
  obtain ⟨prevno, prevfile, ftag, hprev, htag, hends, hnext⟩ := h.prev hj (by omega)
  refine ⟨prevno, prevfile, ftag, hprev, htag, hends, hnext, ?_⟩
  by_contra hbef
  have := h.gap hprev i (by omega) (by omega)
  rw [hi] at this
  cases this

theorem order (h : LayoutConsistent refs) {i j : Nat} {file file' : RefFile} {ftag ftag' : Ftag}
    (hi : refs.file i = some file) (htag : file.ftag = some ftag) (hj : refs.file j = some file')
    (htag' : file'.ftag = some ftag') (hlt : i < j) : datastreamFilebounds ftag ≤ ftag'.objno := by
  induction j using Nat.strong_induction_on generalizing file' ftag' with
  | _ j ih =>
    obtain ⟨prevno, prevfile, prevtag, hprev, hprevtag, -, hnext, hge⟩ := h.prev_ge hi hj hlt
    have hstep := (h.next hprev hprevtag (hnext ▸ hj) htag').1
    rcases Nat.eq_or_lt_of_le hge with heq | hgt
    · subst heq
      obtain rfl : file = prevfile := Option.some.inj (hi.symm.trans hprev)
      obtain rfl : ftag = prevtag := Option.some.inj (htag.symm.trans hprevtag)
      exact hstep
    · calc datastreamFilebounds ftag ≤ prevtag.objno := ih prevno (by omega) hprev hprevtag hgt
        _ ≤ datastreamFilebounds prevtag := objno_le_filebounds _
        _ ≤ ftag'.objno := hstep

theorem last (h : LayoutConsistent refs) {i j : Nat} {file : RefFile} {ftag : Ftag}
    (hi : refs.file i = some file) (htag : file.ftag = some ftag) (hends : StreamEnds file ftag)
    (hlt : i < j) : refs.file j = none := by
  induction j using Nat.strong_induction_on with
  | _ j ih =>
    cases hj : refs.file j with
    | none => rfl
    | some file' =>
      obtain ⟨prevno, prevfile, prevtag, hprev, hprevtag, hnot, hnext, hge⟩ := h.prev_ge hi hj hlt
      rcases Nat.eq_or_lt_of_le hge with heq | hgt
      · subst heq
        obtain rfl : file = prevfile := Option.some.inj (hi.symm.trans hprev)
        obtain rfl : ftag = prevtag := Option.some.inj (htag.symm.trans hprevtag)
        exact absurd hends hnot
      · have := ih prevno (by omega) hgt
        rw [hprev] at this
        cases this

end LayoutConsistent

end Marfs.Gc
