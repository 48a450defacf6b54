import Marfs.Repack.Protocol

/-!
# The phases of a repack

Whatever the process has done when it is stopped, the references are in one of six phases: a new copy
that is given up goes from marked or linked by way of reverting to reverted, one that is complete goes
from completing to completed.
-/

namespace Marfs.Repack

open Config Cstring Hash Machine Mdal Tagging

/-! ## Names -/

theorem last_ftagMetatgt (ftag : Ftag) (dirs : List Char) :
    ∃ c ∈ (dirs ++ ftagMetatgt ftag).getLast?, c.isDigit = true := by
  have hne := decimal_ne_nil ftag.fileno
  have hlast : (dirs ++ ftagMetatgt ftag).getLast? =
      some ((decimal ftag.fileno).getLast hne) := by
    have hspl : dirs ++ ftagMetatgt ftag =
        (dirs ++ ftag.ctag ++ '|' :: (sanstream ftag.streamid ++ ['|'])) ++ decimal ftag.fileno := by
      simp [ftagMetatgt]
    rw [hspl, List.getLast?_append_of_ne_nil _ hne, List.getLast?_eq_getLast_of_ne_nil hne]
  exact ⟨_, hlast, isDigit_of_mem_decimal (List.getLast_mem hne)⟩

theorem genrpath_ne_marker {identifier : List Char → Id} {ms : Metascheme identifier} {ftag origftag : Ftag}
    {path newpath rmarkstr : List Char} (hnew : datastreamGenrpath identifier ftag ms.reftable = some newpath)
    (hmark : repackmarkertgt identifier (some path) origftag ms = some rmarkstr) : newpath ≠ rmarkstr := by
  rintro rfl
  obtain ⟨nodenum, -, hpath⟩ := datastreamGenrpath_eq ms.generated ftag
  obtain rfl := Option.some.inj (hnew.symm.trans hpath)
  obtain ⟨c, hc, hdigit⟩ := last_ftagMetatgt ftag
    (leafPath (toUll ms.refbreadth) (toUll ms.refdepth) (toUll ms.refdigits) nodenum)
  rw [← Option.some.inj hmark] at hc
  have hlast : ∀ dirs, (dirs ++ ftagRepackmarker origftag).getLast? = some 'K' := by
    intro dirs
    have hspl : dirs ++ ftagRepackmarker origftag =
        (dirs ++ origftag.ctag ++ '|' :: (sanstream origftag.streamid ++
          '|' :: (decimal origftag.fileno ++ "REPAC".toList))) ++ ['K'] := by
      simp [ftagRepackmarker]
    rw [hspl, List.getLast?_concat]
  rw [hlast] at hc
  obtain rfl := Option.some.inj hc
  exact absurd hdigit (by decide)

/-! ## Phases -/

/-- A file that is repacked: its paths and its original FTAG, and the inodes of the file and of the
marker.  `origrefpath` and `foundstr` are where its original FTAG leads in the namespace; they may
differ from its path and its marker. -/
structure Repacking {identifier : List Char → Id} (ms : Metascheme identifier) where
  path : List Char
  newpath : List Char
  rmarkstr : List Char
  ftagstr : List Char
  origftag : Ftag
  origrefpath : List Char
  foundstr : List Char
  file : Nat
  marker : Nat
  reads : Reads ftagstr origftag
  rmark : repackmarkertgt identifier (some path) origftag ms = some rmarkstr
  back : datastreamGenrpath identifier origftag ms.reftable = some origrefpath
  found : repackmarkertgt identifier (some origrefpath) origftag ms = some foundstr
  found_ne : origrefpath ≠ path → foundstr ≠ rmarkstr
  newpath_ne_path : newpath ≠ path
  newpath_ne_rmarkstr : newpath ≠ rmarkstr
  newpath_ne_foundstr : newpath ≠ foundstr
  rmarkstr_ne_path : rmarkstr ≠ path
  marker_ne_file : marker ≠ file

section Phases

variable {identifier : List Char → Id} {ms : Metascheme identifier} (c : Repacking ms)
  (fin : List Char) (r : References)

def Repacking.IsNew (ftagstr : List Char) : Prop :=
  ∃ ftag, Reads ftagstr ftag ∧ datastreamGenrpath identifier ftag ms.reftable = some c.newpath

/-- Nothing has been done to the file. -/
structure Fresh : Prop where
  path : r.refs c.path = some c.file
  rmarkstr : r.refs c.rmarkstr = none
  newpath : r.refs c.newpath = none
  ftag : r.xattrs c.file .ftag = some c.ftagstr
  active : r.xattrs c.file .trepack = none
  marker : r.fresh = c.marker
  other : c.origrefpath ≠ c.path → r.refs c.foundstr = none

/-- The marker is there, and the original reference leads to the file. -/
structure Waiting : Prop where
  path : r.refs c.path = some c.file
  rmarkstr : r.refs c.rmarkstr = some c.marker

structure Marked : Prop extends Waiting c r where
  newpath : r.refs c.newpath = none
  ftag : r.xattrs c.file .ftag = some c.ftagstr
  tgt : ∀ str, r.xattrs c.marker .trepack = some str → c.IsNew str
  unset : r.xattrs c.marker .ftag = none
  active : r.xattrs c.file .trepack = none
  other : c.origrefpath ≠ c.path → r.refs c.foundstr = none

/-- The file has its second reference, and the new copy is written. -/
structure Linked : Prop extends Waiting c r where
  newpath : r.refs c.newpath = some c.file
  ftag : r.xattrs c.file .ftag = some c.ftagstr
  tgt : ∃ str, r.xattrs c.marker .trepack = some str ∧ c.IsNew str
  unset : r.xattrs c.marker .ftag = none
  active : ∀ str, r.xattrs c.file .trepack = some str → c.IsNew str
  other : c.origrefpath ≠ c.path → r.refs c.foundstr = none

/-- The marker is about to take the place of the second reference. -/
structure Reverting : Prop extends Waiting c r where
  newpath : r.refs c.newpath = some c.file
  ftag : r.xattrs c.file .ftag = some c.ftagstr
  tgt : ∃ str, r.xattrs c.marker .trepack = some str ∧ c.IsNew str
  real : ∃ str, r.xattrs c.marker .ftag = some str ∧ c.IsNew str
  active : r.xattrs c.file .trepack = none

/-- The marker is about to take the place of the original reference; the file has its new FTAG, or
gets it from another attribute. -/
structure Completing : Prop extends Waiting c r where
  newpath : r.refs c.newpath = some c.file
  tgt : ∃ str, r.xattrs c.marker .trepack = some str ∧ c.IsNew str
  real : r.xattrs c.marker .ftag = some c.ftagstr
  ftag : ∃ str, r.xattrs c.file .ftag = some str
  active : r.xattrs c.file .trepack = some fin ∨
    r.xattrs c.file .trepack = none ∧ r.xattrs c.file .ftag = some fin
  back : c.origrefpath = c.path

/-- The file is at its original reference, with its original FTAG.  No other reference leads to it:
at the second one there is nothing, or what garbage collection is to delete. -/
structure Reverted : Prop where
  path : r.refs c.path = some c.file
  ftag : r.xattrs c.file .ftag = some c.ftagstr
  rmarkstr : r.refs c.rmarkstr = none
  newpath : r.refs c.newpath = none ∨
    r.refs c.newpath = some c.marker ∧ ∃ str, r.xattrs c.marker .ftag = some str ∧ c.IsNew str

/-- The file is at its second reference, with the FTAG of the new copy; at the original one there is
the original FTAG, for garbage collection. -/
structure Completed : Prop where
  newpath : r.refs c.newpath = some c.file
  ftag : r.xattrs c.file .ftag = some fin
  path : r.refs c.path = some c.marker
  real : r.xattrs c.marker .ftag = some c.ftagstr
  rmarkstr : r.refs c.rmarkstr = none

inductive Phase : Prop where
  | marked (h : Marked c r)
  | linked (h : Linked c r)
  | reverting (h : Reverting c r)
  | completing (h : Completing c fin r)
  | reverted (h : Reverted c r)
  | completed (h : Completed c fin r)

end Phases

/-! ## Steps between phases -/

section Steps

variable {identifier : List Char → Id} {ms : Metascheme identifier} {c : Repacking ms}
  {fin : List Char} {r : References}

variable {str : List Char}

theorem Repacking.IsNew.ne_nil (h : c.IsNew str) : str ≠ [] := by
  obtain ⟨ftag, hreads, -⟩ := h
  rintro rfl
  exact absurd (bar_mem_of_ftagInitstr (hreads ftag)) List.not_mem_nil

theorem Fresh.reverted (h : Fresh c r) : Reverted c r where
  path := h.path
  ftag := h.ftag
  rmarkstr := h.rmarkstr
  newpath := .inl h.newpath

theorem Fresh.create (h : Fresh c r) : Marked c (r.create c.rmarkstr) where
  path := by simp [h.path, c.rmarkstr_ne_path.symm]
  rmarkstr := by simp [h.marker]
  newpath := by simp [h.newpath, c.newpath_ne_rmarkstr]
  ftag := by simp [h.marker, h.ftag, c.marker_ne_file.symm]
  tgt := by simp [h.marker]
  unset := by simp [h.marker]
  active := by simp [h.marker, h.active, c.marker_ne_file.symm]
  other := fun hoth => by simp [h.other hoth, c.found_ne hoth]

theorem Marked.tag (h : Marked c r) (hnew : c.IsNew str) :
    Marked c (r.setXattr c.marker .trepack (some str)) where
  path := h.path
  rmarkstr := h.rmarkstr
  newpath := h.newpath
  ftag := by simp [h.ftag, c.marker_ne_file.symm]
  tgt := by simpa using hnew
  unset := by simp [h.unset]
  active := by simp [h.active, c.marker_ne_file.symm]
  other := h.other

theorem Marked.link (h : Marked c r) (htgt : r.xattrs c.marker .trepack = some str) :
    Linked c (r.link c.path c.newpath) where
  path := by simp [h.path, c.newpath_ne_path.symm]
  rmarkstr := by simp [h.rmarkstr, c.newpath_ne_rmarkstr.symm]
  newpath := by simp [h.path]
  ftag := h.ftag
  tgt := ⟨str, htgt, h.tgt str htgt⟩
  unset := h.unset
  active := by simp [h.active]
  other := fun hoth => by simp [h.other hoth, c.newpath_ne_foundstr.symm]

theorem Marked.delete (h : Marked c r) : Reverted c (r.unlink c.rmarkstr) where
  path := by simp [h.path, c.rmarkstr_ne_path.symm]
  ftag := h.ftag
  rmarkstr := by simp
  newpath := .inl (by simp [h.newpath, c.newpath_ne_rmarkstr])

theorem Linked.write (h : Linked c r) (hnew : c.IsNew str) :
    Linked c (r.setXattr c.file .trepack (some str)) where
  path := h.path
  rmarkstr := h.rmarkstr
  newpath := h.newpath
  ftag := by simp [h.ftag]
  tgt := by simpa [c.marker_ne_file] using h.tgt
  unset := by simp [h.unset, c.marker_ne_file]
  active := by simpa using hnew
  other := h.other

theorem Linked.complete (h : Linked c r) (hact : r.xattrs c.file .trepack = some fin)
    (hback : c.origrefpath = c.path) :
    Completing c fin (r.setXattr c.marker .ftag (some c.ftagstr)) where
  path := h.path
  rmarkstr := h.rmarkstr
  newpath := h.newpath
  tgt := by simpa using h.tgt
  real := by simp
  ftag := ⟨c.ftagstr, by simp [h.ftag, c.marker_ne_file.symm]⟩
  active := .inl (by simp [hact, c.marker_ne_file.symm])
  back := hback

theorem Completing.keep (h : Completing c fin r) (value : Option (List Char)) :
    Completing c fin (r.setXattr c.file .orepack value) where
  path := h.path
  rmarkstr := h.rmarkstr
  newpath := h.newpath
  tgt := by simpa [c.marker_ne_file] using h.tgt
  real := by simp [h.real, c.marker_ne_file]
  ftag := by simpa using h.ftag
  active := by simpa using h.active
  back := h.back

theorem Completing.switch (h : Completing c fin r) (hact : r.xattrs c.file .trepack = some fin) :
    Completing c fin (r.setXattr c.file .ftag (some fin)) where
  path := h.path
  rmarkstr := h.rmarkstr
  newpath := h.newpath
  tgt := by simpa [c.marker_ne_file] using h.tgt
  real := by simp [h.real, c.marker_ne_file]
  ftag := by simp
  active := .inl (by simp [hact])
  back := h.back

theorem Completing.take (h : Completing c fin r) (hftag : r.xattrs c.file .ftag = some fin) :
    Completing c fin (r.setXattr c.file .trepack none) where
  path := h.path
  rmarkstr := h.rmarkstr
  newpath := h.newpath
  tgt := by simpa [c.marker_ne_file] using h.tgt
  real := by simp [h.real, c.marker_ne_file]
  ftag := by simp [hftag]
  active := .inr (by simp [hftag])
  back := h.back

theorem Completing.rename (h : Completing c fin r) (hftag : r.xattrs c.file .ftag = some fin) :
    Completed c fin (r.rename c.rmarkstr c.path) := by
  have hne : r.refs c.path ≠ r.refs c.rmarkstr := by
    simp [h.path, h.rmarkstr, c.marker_ne_file.symm]
  constructor
  · simp [References.refs_rename hne, h.newpath, c.newpath_ne_path, c.newpath_ne_rmarkstr]
  · simp [hftag]
  · simp [References.refs_rename hne, h.rmarkstr, c.rmarkstr_ne_path.symm]
  · simp [h.real]
  · simp [References.refs_rename hne]

theorem Linked.keep (h : Linked c r) (hnew : c.IsNew str) :
    Linked c (r.setXattr c.marker .trepack (some str)) where
  path := h.path
  rmarkstr := h.rmarkstr
  newpath := h.newpath
  ftag := by simp [h.ftag, c.marker_ne_file.symm]
  tgt := ⟨str, by simp, hnew⟩
  unset := by simp [h.unset]
  active := by simpa [c.marker_ne_file.symm] using h.active
  other := h.other

theorem Linked.take (h : Linked c r) : Linked c (r.setXattr c.file .trepack none) where
  path := h.path
  rmarkstr := h.rmarkstr
  newpath := h.newpath
  ftag := by simp [h.ftag]
  tgt := by simpa [c.marker_ne_file] using h.tgt
  unset := by simp [h.unset, c.marker_ne_file]
  active := by simp
  other := h.other

theorem Linked.revert (h : Linked c r) (hact : r.xattrs c.file .trepack = none) (hnew : c.IsNew str) :
    Reverting c (r.setXattr c.marker .ftag (some str)) where
  path := h.path
  rmarkstr := h.rmarkstr
  newpath := h.newpath
  ftag := by simp [h.ftag, c.marker_ne_file.symm]
  tgt := by simpa using h.tgt
  real := ⟨str, by simp, hnew⟩
  active := by simp [hact, c.marker_ne_file.symm]

theorem Reverting.rename (h : Reverting c r) : Reverted c (r.rename c.rmarkstr c.newpath) := by
  have hne : r.refs c.newpath ≠ r.refs c.rmarkstr := by
    simp [h.newpath, h.rmarkstr, c.marker_ne_file.symm]
  constructor
  · simp [References.refs_rename hne, h.path, c.newpath_ne_path.symm, c.rmarkstr_ne_path.symm]
  · simp [h.ftag]
  · simp [References.refs_rename hne]
  · right
    refine ⟨?_, ?_⟩
    · simp [References.refs_rename hne, h.rmarkstr, c.newpath_ne_rmarkstr]
    · simpa using h.real

end Steps

/-! ## Writing the new copy -/

section Writing

variable {identifier : List Char → Id} {ms : Metascheme identifier} {c : Repacking ms}
  {fin : List Char} {s : Mdal.Sys}

/-- An FTAG of the new copy can be stored and read back, and leads to the second reference. -/
structure NewTag (ms : Metascheme identifier) (newpath : List Char) (ftag : Ftag) : Prop where
  majorversion : ftag.majorversion = ftagCurrentMajorversion
  minorversion : ftag.minorversion = ftagCurrentMinorversion
  reads : Reads ftag.toStr ftag
  newpath : datastreamGenrpath identifier ftag ms.reftable = some newpath

theorem NewTag.isNew {ftag : Ftag} (h : NewTag ms c.newpath ftag) : c.IsNew ftag.toStr :=
  ⟨ftag, h.reads, h.newpath⟩

variable {place : Option Ftag}

theorem wp_linkRepacked (h : Marked c s.references)
    (hplc : ∀ ftag, place = some ftag → NewTag ms c.newpath ftag) :
    Op.wp (linkRepacked ms place c.path c.marker c.file)
      (fun metahandle s' => metahandle = c.file ∧ Linked c s'.references)
      (fun s' => Marked c s'.references ∧ (s.steps < 2 ∨ place = none)) s := by
  rw [linkRepacked, Op.wp_bind, Op.wp_ofOption]
  refine ⟨fun ftag hftag => ?_, fun hnone => ⟨h, .inr hnone⟩⟩
  have hnew := hplc ftag hftag
  have htagged := h.tag hnew.isNew
  rw [Op.wp_bind]
  refine wp_putftag hnew.majorversion hnew.minorversion
    (fun hsteps => ⟨h, .inl (by omega)⟩) fun _ => ?_
  rw [Op.wp_bind, Op.wp_ofOption_some hnew.newpath, Op.wp_bind]
  refine (wp_linkref ?_ ?_).2 ⟨fun hsteps => ⟨htagged, .inl ?_⟩, fun _ => ?_⟩
  · exact Option.isSome_of_mem htagged.path
  · exact htagged.newpath
  · rw [Sys.steps_after] at hsteps
    omega
  · rw [Op.wp_bind, Op.wp_check]
    refine ⟨fun _ => ?_, fun hfalse => nomatch hfalse⟩
    have htgt : (s.references.setXattr c.marker .trepack (some ftag.toStr)).xattrs c.marker .trepack =
        some ftag.toStr := by simp
    exact Op.wp_pure.2 ⟨rfl, htagged.link htgt⟩

theorem wp_openRepackFile (base : Ftag) (h : Fresh c s.references)
    (hplc : ∀ ftag, place = some ftag → NewTag ms c.newpath ftag) :
    Op.wp (openRepackFile ms place base c.path)
      (fun metahandle s' => metahandle = c.file ∧ Linked c s'.references)
      (fun s' => (Marked c s'.references ∨ Reverted c s'.references) ∧
        (s.steps < 6 ∨ place = none ∨ c.origftag.state.readable = false)) s := by
  have hpath := Option.isSome_of_mem h.path
  rw [openRepackFile, Op.wp_bind, wp_statref]
  refine ⟨fun hsteps => ⟨.inr h.reverted, .inl (by omega)⟩, fun _ => ?_⟩
  rw [Op.wp_bind, Op.wp_check]
  refine ⟨fun _ => ?_, fun hfalse => nomatch hpath.symm.trans hfalse⟩
  rw [Op.wp_bind, wp_openref]
  refine ⟨fun hsteps => ⟨.inr h.reverted, .inl ?_⟩, fun _ => ?_⟩
  · rw [Sys.steps_after] at hsteps
    omega
  rw [Op.wp_bind]
  apply (Op.wp_ofOption_some h.path).2
  rw [Op.wp_bind]
  refine wp_getftag base ?_ c.reads (fun hsteps => ⟨.inr h.reverted, .inl ?_⟩) fun _ => ?_
  · exact h.ftag
  · simp only [Sys.steps_after] at hsteps
    omega
  rw [Op.wp_bind, Op.wp_check]
  refine ⟨fun _ => ?_, fun hfalse => ⟨.inr h.reverted, .inr (.inr hfalse)⟩⟩
  rw [Op.wp_bind, Op.wp_ofOption_some c.rmark, Op.wp_bind]
  refine (wp_createref ?_).2 ⟨fun hsteps => ⟨.inr h.reverted, .inl ?_⟩, fun _ => ?_⟩
  · exact h.rmarkstr
  · simp only [Sys.steps_after] at hsteps
    omega
  have hcreat : Marked c (s.references.create c.rmarkstr) := h.create
  rw [Op.wp_bind]
  apply (Op.wp_ofOption_some (congrArg some h.marker)).2
  refine Op.wp_mono (wp_linkRepacked hcreat hplc) (fun _ _ hlinked => hlinked) fun s' hstop => ?_
  refine ⟨.inl hstop.1, ?_⟩
  rcases hstop.2 with hsteps | hnone
  · left
    simp only [Sys.steps_after] at hsteps
    omega
  · exact .inr (.inl hnone)

end Writing

end Marfs.Repack
