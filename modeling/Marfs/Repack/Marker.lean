import Marfs.Repack.Phases

/-!
# Finding markers again

`open_repack_file` makes the marker next to the path it is given; `completefile` computes that path
anew, from the original FTAG and the table of the namespace.  They agree exactly if the reference tree
of the file leads its name into the directories of the tree of the namespace.
-/

namespace Marfs.Repack

open Config Cstring Hash Machine Mdal Tagging List

/-! ## Parent directories -/

theorem rparentlen_append (xs ys : List Char) (pos rparent : Nat) :
    rparentlen (xs ++ ys) pos rparent =
      rparentlen ys (pos + xs.length) (rparentlen xs pos rparent) := by
  induction xs generalizing pos rparent with
  | nil => rfl
  | cons c xs ih =>
    rw [cons_append, rparentlen, rparentlen, ih, length_cons]
    congr 1
    omega

theorem rparentlen_add (rparse : List Char) (k pos rparent : Nat) :
    rparentlen rparse (k + pos) (k + rparent) = k + rparentlen rparse pos rparent := by
  induction rparse generalizing pos rparent with
  | nil => rfl
  | cons c rparse ih =>
    rw [rparentlen, rparentlen]
    split
    · exact ih (pos + 1) (pos + 1)
    · exact ih (pos + 1) rparent

theorem rparentlen_of_not_mem {rparse : List Char} (h : '/' ∉ rparse) (pos rparent : Nat) :
    rparentlen rparse pos rparent = rparent := by
  induction rparse generalizing pos with
  | nil => rfl
  | cons c rparse ih =>
    have hc : c ≠ '/' := fun heq => h (heq ▸ mem_cons_self)
    rw [rparentlen, if_neg hc]
    exact ih (fun hmem => h (mem_cons_of_mem c hmem)) (pos + 1)

/-- Directories are their own parent. -/
theorem rparentlen_refpath (width : Nat) (refvals : List Nat) :
    rparentlen (refpath width refvals) 0 0 = (refpath width refvals).length := by
  induction refvals with
  | nil => rfl
  | cons refval refvals ih =>
    have hcons : refpath width (refval :: refvals) =
        padded width refval ++ ('/' :: refpath width refvals) := by
      simp only [refpath, refdir, flatMap_cons, append_assoc, singleton_append]
    rw [hcons, rparentlen_append, rparentlen_of_not_mem (separator_not_mem_padded width refval),
      rparentlen, if_pos rfl, length_append, length_cons]
    have hadd := rparentlen_add (refpath width refvals) (0 + (padded width refval).length + 1) 0 0
    rw [Nat.add_zero] at hadd
    rw [hadd, ih]
    omega

/-- The parent directory of a file of the tree. -/
theorem take_rparentlen (width : Nat) (refvals : List Nat) (name : List Char) :
    (refpath width refvals ++ name).take (rparentlen (refpath width refvals ++ name) 0 0) =
      refpath width refvals ++ name.take (rparentlen name 0 0) := by
  have hadd := rparentlen_add name (refpath width refvals).length 0 0
  rw [Nat.add_zero] at hadd
  rw [rparentlen_append, rparentlen_refpath, Nat.zero_add, hadd, take_length_add_append]

/-! ## The calls that are made -/

section Calls

variable {identifier : List Char → Id} {ms : Metascheme identifier}

variable {metahandle : Nat} {path : List Char}

theorem putftag_makes {P : Call → Prop} {name : Xattr}
    (h : ∀ value, P (.fsetxattr metahandle name value .any)) (ftag : Ftag) :
    Makes P (putftag name metahandle ftag) :=
  .ofOption fun _ _ => .bind (.step (h _)) fun set => .check set

theorem linkRepacked_makes (place : Option Ftag) (path : List Char) (rmarker metahandle : Nat) :
    Makes (fun call => ∀ path', call ≠ .createref path')
      (linkRepacked ms place path rmarker metahandle) := by
  refine .ofOption fun ftag _ => .bind (putftag_makes (fun _ _ h => nomatch h) ftag) fun _ => ?_
  refine .ofOption fun newpath _ => .bind (.step fun _ h => nomatch h) fun linked => ?_
  exact .bind (.check linked) fun _ => .pure metahandle

theorem openRepackFile_creates {place : Option Ftag} {base ftag : Ftag} {ftagstr : List Char}
    {s s' : Mdal.Sys} {inode : Nat} (hcalls : s.calls = []) (hpath : s.references.refs path = some inode)
    (hftagstr : s.references.xattrs inode .ftag = some ftagstr) (hreads : Reads ftagstr ftag)
    (h : openRepackFile ms place base path s = (some metahandle, s')) :
    ∃ rmarkstr, repackmarkertgt identifier (some path) ftag ms = some rmarkstr ∧
      ∀ path', .createref path' ∈ s'.calls ↔ path' = rmarkstr := by
  have hspec : Op.wp (openRepackFile ms place base path) (fun _ s' =>
      ∃ rmarkstr, repackmarkertgt identifier (some path) ftag ms = some rmarkstr ∧
        ∀ path', .createref path' ∈ s'.calls ↔ path' = rmarkstr) (fun _ => True) s := by
    rw [openRepackFile, Op.wp_bind, wp_statref]
    refine ⟨fun _ => trivial, fun _ => ?_⟩
    rw [Op.wp_bind, Op.wp_check]
    refine ⟨fun _ => ?_, fun _ => trivial⟩
    rw [Op.wp_bind, wp_openref]
    refine ⟨fun _ => trivial, fun _ => ?_⟩
    rw [Op.wp_bind]
    apply (Op.wp_ofOption_some hpath).2
    rw [Op.wp_bind]
    refine wp_getftag base ?_ hreads (fun _ => trivial) fun _ => ?_
    · exact hftagstr
    rw [Op.wp_bind, Op.wp_check]
    refine ⟨fun _ => ?_, fun _ => trivial⟩
    rw [Op.wp_bind, Op.wp_ofOption]
    refine ⟨fun rmarkstr hrmarkstr => ?_, fun _ => trivial⟩
    have htail : ∀ rmarker, Makes (fun call => ∀ path', call ≠ .createref path') (do
        let rmarker ← Op.ofOption rmarker
        linkRepacked ms place path rmarker inode) := fun rmarker =>
      .ofOption fun rmarker _ => linkRepacked_makes place path rmarker inode
    rw [Op.wp_bind, createref, wp_step]
    refine ⟨fun _ => trivial, fun _ => ?_⟩
    refine Op.wp_mono ((htail _).conclude (Q := fun calls =>
      ∀ path', .createref path' ∈ calls ↔ path' = rmarkstr) fun calls hkind path' => ?_)
      (fun _ s'' hcalls => ⟨rmarkstr, hrmarkstr, hcalls⟩) fun _ _ => trivial
    constructor
    · intro hmem
      rcases List.mem_append.1 hmem with hmem | hmem
      · simpa [hcalls] using hmem
      · exact absurd rfl (hkind _ hmem path')
    · rintro rfl
      simp
  have hres := Op.wp_some hspec h
  exact hres

theorem exchange_makes (rmarkstr origrefpath ftagstr : List Char) (rmarker metahandle : Nat) (ftag : Ftag) :
    Makes (fun call => (∀ path', call ≠ .openref path') ∧
        ∀ src dst, call = .renameref src dst → src = rmarkstr ∧ dst = origrefpath)
      (exchange rmarkstr origrefpath ftagstr rmarker metahandle ftag) := by
  refine .bind (.step ⟨nofun, nofun⟩) fun set => .bind (.check set) fun _ => ?_
  refine .bind (.step ⟨nofun, nofun⟩) fun _ => ?_
  unfold takeOver
  refine .bind (putftag_makes (fun _ => ⟨nofun, nofun⟩) ftag) fun _ => ?_
  refine .bind (.step ⟨nofun, nofun⟩) fun removed => .bind (.check removed) fun _ => ?_
  refine .bind (.step ⟨nofun, fun src dst h => ?_⟩) fun renamed => .check renamed
  cases h
  exact ⟨rfl, rfl⟩

def Looks (rmarkstr origrefpath : List Char) (calls : List Call) : Prop :=
  (∀ path', .openref path' ∈ calls ↔ path' = rmarkstr) ∧
    ∀ src dst, .renameref src dst ∈ calls → src = rmarkstr ∧ dst = origrefpath

theorem completefile_looks (base : Ftag) {ftag origftag : Ftag} {ftagstr origrefpath rmarkstr : List Char}
    {s : Mdal.Sys} {metahandle : Nat} (hcalls : s.calls = []) (hsteps : 3 ≤ s.steps)
    (hftagstr : s.references.xattrs metahandle .ftag = some ftagstr) (hreads : Reads ftagstr origftag)
    (horigrefpath : datastreamGenrpath identifier origftag ms.reftable = some origrefpath)
    (hrmarkstr : repackmarkertgt identifier (some origrefpath) origftag ms = some rmarkstr)
    (hwr : ftag.state.writeable = false) (hmaj : ftag.majorversion = ftagCurrentMajorversion)
    (hmin : ftag.minorversion = ftagCurrentMinorversion) :
    Looks rmarkstr origrefpath (completefile ms base metahandle ftag s).2.calls := by
  have hspec : Op.wp (completefile ms base metahandle ftag)
      (fun _ s' => Looks rmarkstr origrefpath s'.calls)
      (fun s' => Looks rmarkstr origrefpath s'.calls) s := by
    rw [completefile, Op.wp_bind, Op.wp_check]
    refine ⟨fun _ => ?_, fun h => absurd h (by simp [hwr])⟩
    have hmaj' : (Datastream.Sys.completed ftag).majorversion = ftagCurrentMajorversion := hmaj
    have hmin' : (Datastream.Sys.completed ftag).minorversion = ftagCurrentMinorversion := hmin
    rw [Op.wp_bind]
    apply wp_putftag hmaj' hmin' (fun h => absurd h (by omega))
    intro _
    rw [swapRepacked, Op.wp_bind]
    have hkept : (s.references.setXattr metahandle .trepack
        (some (Datastream.Sys.completed ftag).toStr)).xattrs metahandle .ftag = some ftagstr := by
      simp [hftagstr]
    apply wp_getftag base hkept hreads (fun h => absurd h (by rw [Sys.steps_after]; omega))
    intro _
    rw [Op.wp_bind, Op.wp_ofOption_some horigrefpath, Op.wp_bind, Op.wp_ofOption_some hrmarkstr,
      Op.wp_bind, wp_openref]
    refine ⟨fun h => absurd h (by simp only [Sys.steps_after]; omega), fun _ => ?_⟩
    have htail : ∀ rmarker : Option Nat, Makes (fun call => (∀ path', call ≠ .openref path') ∧
        ∀ src dst, call = .renameref src dst → src = rmarkstr ∧ dst = origrefpath) (do
          let rmarker ← Op.ofOption rmarker
          exchange rmarkstr origrefpath ftagstr rmarker metahandle
            (Datastream.Sys.completed ftag)) := fun _ =>
      .ofOption fun rmarker _ => exchange_makes rmarkstr origrefpath ftagstr rmarker metahandle _
    refine (htail _).conclude (Q := Looks rmarkstr origrefpath) fun calls hkind => ⟨?_, ?_⟩
    · intro path'
      constructor
      · intro hmem
        rcases List.mem_append.1 hmem with hmem | hmem
        · simpa [hcalls] using hmem
        · exact absurd rfl ((hkind _ hmem).1 path')
      · rintro rfl
        simp
    · intro src dst hmem
      rcases List.mem_append.1 hmem with hmem | hmem
      · simp [hcalls] at hmem
      · exact (hkind _ hmem).2 src dst rfl
  exact Op.wp_snd hspec

end Calls

/-! ## Whether the marker is found -/

section Found

variable {identifier : List Char → Id} {ms : Metascheme identifier}

/-- `completefile` looks for a marker only where `open_repack_file` has made one, and renames it over
the path that was given. -/
structure Refound (path : List Char) (opened completed : List Call) : Prop where
  marker : ∀ rmarkstr, .openref rmarkstr ∈ completed → .createref rmarkstr ∈ opened
  renamed : ∀ src dst, .renameref src dst ∈ completed → .createref src ∈ opened ∧ dst = path

theorem repackmarkertgt_some (ms : Metascheme identifier) (ftag : Ftag) (path : List Char) :
    ∃ rmarkstr, repackmarkertgt identifier (some path) ftag ms = some rmarkstr := ⟨_, rfl⟩

variable {ftag head origftag base base' : Ftag} {path ftagstr : List Char} {place : Option Ftag}
  {s₀ s₁ s₂ : Mdal.Sys} {inode : Nat}

theorem refpath_eq_of_marker {width width' : Nat} {vals vals' : List Nat} {name : List Char}
    {rmarkstr : List Char}
    (h : repackmarkertgt identifier (some (refpath width vals ++ name)) ftag ms = some rmarkstr)
    (h' : repackmarkertgt identifier (some (refpath width' vals' ++ name)) ftag ms =
      some rmarkstr) : refpath width vals = refpath width' vals' := by
  have heq := Option.some.inj (h.trans h'.symm)
  rw [take_rparentlen, take_rparentlen] at heq
  exact append_cancel_right (append_cancel_right heq)

theorem opReftgt_eq (h : opReftgt identifier ms head ftag = some path) :
    ∃ width vals, path = refpath width vals ++ ftagMetatgt ftag := by
  obtain ⟨reftable, hreftable, h⟩ := Option.bind_eq_some_iff.1 h
  obtain ⟨nodenum, -, hpath⟩ := datastreamGenrpath_eq (opReftable_generated hreftable) ftag
  exact ⟨_, _, Option.some.inj (h.symm.trans hpath)⟩

theorem refound_iff_genrpath {metahandle : Nat} (hreftgt : opReftgt identifier ms head origftag = some path)
    (hreads : Reads ftagstr origftag) (hcalls₀ : s₀.calls = []) (hpath : s₀.references.refs path = some inode)
    (hftagstr₀ : s₀.references.xattrs inode .ftag = some ftagstr)
    (hopen : openRepackFile ms place base path s₀ = (some metahandle, s₁)) (hcalls₂ : s₂.calls = [])
    (hsteps : 3 ≤ s₂.steps) (hftagstr₂ : s₂.references.xattrs metahandle .ftag = some ftagstr)
    (hwr : ftag.state.writeable = false) (hmaj : ftag.majorversion = ftagCurrentMajorversion)
    (hmin : ftag.minorversion = ftagCurrentMinorversion) :
    Refound path s₁.calls (completefile ms base' metahandle ftag s₂).2.calls ↔
      datastreamGenrpath identifier origftag ms.reftable = some path := by
  obtain ⟨width, vals, rfl⟩ := opReftgt_eq hreftgt
  obtain ⟨nodenum, -, horigrefpath⟩ := datastreamGenrpath_eq ms.generated origftag
  obtain ⟨rmarkstr, hrmarkstr, hcreat⟩ :=
    openRepackFile_creates hcalls₀ hpath hftagstr₀ hreads hopen
  obtain ⟨rmarkstr', hrmarkstr'⟩ := repackmarkertgt_some ms origftag
    (leafPath (toUll ms.refbreadth) (toUll ms.refdepth) (toUll ms.refdigits) nodenum ++
      ftagMetatgt origftag)
  obtain ⟨hlooks, hrenames⟩ := completefile_looks base' hcalls₂ hsteps hftagstr₂ hreads
    horigrefpath hrmarkstr' hwr hmaj hmin
  rw [horigrefpath]
  constructor
  · intro h
    have hsame : rmarkstr' = rmarkstr := (hcreat _).1 (h.marker _ ((hlooks _).2 rfl))
    subst hsame
    have hdirs := refpath_eq_of_marker hrmarkstr' hrmarkstr
    exact congrArg (fun dirs => some (dirs ++ ftagMetatgt origftag)) hdirs
  · intro h
    rw [Option.some.inj h] at hrmarkstr'
    obtain rfl := Option.some.inj (hrmarkstr'.symm.trans hrmarkstr)
    refine ⟨fun path' hmem => ?_, fun src dst hmem => ?_⟩
    · rw [hcreat, (hlooks path').1 hmem]
    · obtain ⟨rfl, rfl⟩ := hrenames src dst hmem
      exact ⟨(hcreat _).2 rfl, Option.some.inj h⟩

/-- The marker of a file of any reference tree is found again exactly if the tree of the namespace
leads its name into the same directories. -/
theorem marker_refound_iff {metahandle : Nat} (hreftgt : opReftgt identifier ms head origftag = some path)
    (hreads : Reads ftagstr origftag) (hcalls₀ : s₀.calls = []) (hpath : s₀.references.refs path = some inode)
    (hftagstr₀ : s₀.references.xattrs inode .ftag = some ftagstr)
    (hopen : openRepackFile ms place base path s₀ = (some metahandle, s₁)) (hcalls₂ : s₂.calls = [])
    (hsteps : 3 ≤ s₂.steps) (hftagstr₂ : s₂.references.xattrs metahandle .ftag = some ftagstr)
    (hwriteable : ftag.state.writeable = false) (hmajor : ftag.majorversion = ftagCurrentMajorversion)
    (hminor : ftag.minorversion = ftagCurrentMinorversion) :
    Refound path s₁.calls (completefile ms base' metahandle ftag s₂).2.calls ↔
      SameDirectories ms head origftag :=
  (refound_iff_genrpath hreftgt hreads hcalls₀ hpath hftagstr₀ hopen hcalls₂ hsteps hftagstr₂
    hwriteable hmajor hminor).trans (genrpath_eq_opReftgt_iff hreftgt)

end Found

/-! ## A file of a tree of depth one -/

/-- A reference tree with one directory in each directory. -/
def sampleMs (refdepth : Int) (h : 0 < toUll refdepth) : Metascheme collidingIdentifier :=
  { refbreadth := 1, refdepth := refdepth, refdigits := 1
    reftable := (configGenreftable collidingIdentifier (toUll 1) (toUll refdepth) (toUll 1)).get
      (configGenreftable_isSome collidingIdentifier (by decide) h (by simp [toUll, SizeT.modulus])
        (toUll 1))
    generated := by simp }

theorem refvalsLoop_one (curdepth tmpnode k : Nat) :
    refvalsLoop 1 curdepth tmpnode (replicate k 0) = replicate (curdepth + k) 0 := by
  induction curdepth generalizing tmpnode k with
  | zero => rw [Nat.zero_add]; rfl
  | succ curdepth ih =>
    rw [refvalsLoop, Nat.mod_one]
    have hnext := ih (tmpnode / 1) (k + 1)
    rw [replicate_succ] at hnext
    rw [hnext]
    congr 1
    omega

/-- The directories of all files. -/
def sampleDirs (refdepth : Int) : List Char := refpath 1 (replicate (toUll refdepth) 0)

theorem sampleMs_genrpath (refdepth : Int) (h : 0 < toUll refdepth) (ftag : Ftag) :
    datastreamGenrpath collidingIdentifier ftag (sampleMs refdepth h).reftable =
      some (sampleDirs refdepth ++ ftagMetatgt ftag) := by
  obtain ⟨nodenum, -, hpath⟩ := datastreamGenrpath_eq (sampleMs refdepth h).generated ftag
  have hvals : refvals (toUll 1) (toUll refdepth) nodenum =
      replicate (toUll refdepth) 0 := refvalsLoop_one (toUll refdepth) nodenum 0
  rw [hpath]
  unfold leafPath
  rw [show refvals (toUll (sampleMs refdepth h).refbreadth) (toUll (sampleMs refdepth h).refdepth)
    nodenum = replicate (toUll refdepth) 0 from hvals]
  rfl

def sampleOrig : Ftag := sampleFtag 1 2 true

def sampleNew : Ftag := { sampleFtag 0 0 false with streamid := ['t'] }

def samplePath : List Char := sampleDirs 1 ++ ftagMetatgt sampleOrig

def sampleSys : Mdal.Sys :=
  { references :=
      { refs := fun path => if path = samplePath then some 0 else none
        xattrs := fun inode name =>
          if inode = 0 ∧ name = .ftag then some sampleOrig.toStr else none
        fresh := 1
        refs_lt := by
          intro path inode h
          split at h
          · cases h
            exact Nat.one_pos
          · cases h }
    calls := []
    steps := 20 }

theorem sampleOrig_reads : Reads sampleOrig.toStr sampleOrig :=
  ftagInitstr_toStr rfl rfl (by decide) (by decide) sampleFtag_nonNegative.toRepresentable
    sampleFtag_nonNegative.toReftreeNonneg

theorem sampleNew_reads : Reads sampleNew.toStr sampleNew := by
  refine ftagInitstr_toStr rfl rfl (by decide) (by decide) ?_ ?_
  · constructor <;> decide
  · constructor <;> decide

theorem sampleMs_marker (refdepth : Int) (h : 0 < toUll refdepth) :
    repackmarkertgt collidingIdentifier (some (sampleDirs refdepth ++ ftagMetatgt sampleOrig))
      sampleOrig (sampleMs refdepth h) = some (sampleDirs refdepth ++ ftagRepackmarker sampleOrig) := by
  have hpar := take_rparentlen 1 (replicate (toUll refdepth) 0) (ftagMetatgt sampleOrig)
  have hname : (ftagMetatgt sampleOrig).take (rparentlen (ftagMetatgt sampleOrig) 0 0) = [] := rfl
  rw [hname, List.append_nil] at hpar
  exact congrArg (fun dirs => some (dirs ++ ftagRepackmarker sampleOrig)) hpar

theorem samplePath_marker (ms : Metascheme collidingIdentifier) :
    repackmarkertgt collidingIdentifier (some samplePath) sampleOrig ms =
      some (sampleDirs 1 ++ ftagRepackmarker sampleOrig) := rfl

def sampleRepacking (refdepth : Int) (h : 0 < toUll refdepth)
    (hpath : sampleDirs refdepth ++ ftagMetatgt sampleNew ≠ samplePath) :
    Repacking (sampleMs refdepth h) :=
  { path := samplePath
    newpath := sampleDirs refdepth ++ ftagMetatgt sampleNew
    rmarkstr := sampleDirs 1 ++ ftagRepackmarker sampleOrig
    ftagstr := sampleOrig.toStr
    origftag := sampleOrig
    origrefpath := sampleDirs refdepth ++ ftagMetatgt sampleOrig
    foundstr := sampleDirs refdepth ++ ftagRepackmarker sampleOrig
    file := 0
    marker := 1
    reads := sampleOrig_reads
    rmark := samplePath_marker (sampleMs refdepth h)
    back := sampleMs_genrpath refdepth h sampleOrig
    found := sampleMs_marker refdepth h
    found_ne := fun hne heq => hne (congrArg (· ++ ftagMetatgt sampleOrig)
      (append_cancel_right heq))
    newpath_ne_path := hpath
    newpath_ne_rmarkstr := genrpath_ne_marker (sampleMs_genrpath refdepth h sampleNew)
      (samplePath_marker (sampleMs refdepth h))
    newpath_ne_foundstr := genrpath_ne_marker (sampleMs_genrpath refdepth h sampleNew)
      (sampleMs_marker refdepth h)
    rmarkstr_ne_path := by decide
    marker_ne_file := by decide }

theorem sampleSys_path : sampleSys.references.refs samplePath = some 0 := by simp [sampleSys]

theorem sampleSys_other (h : path ≠ samplePath) :
    sampleSys.references.refs path = none := by simp [sampleSys, h]

theorem sampleSys_ftag : sampleSys.references.xattrs 0 .ftag = some sampleOrig.toStr := rfl

/-- The process goes on later. -/
def resume (s : Mdal.Sys) : Mdal.Sys := { s with calls := [], steps := 20 }

theorem three_le_resume (s : Mdal.Sys) : 3 ≤ (resume s).steps := by simp [resume]

theorem sampleMs_marker_ne (refdepth : Int) :
    sampleDirs refdepth ++ ftagRepackmarker sampleOrig ≠ samplePath := by
  intro heq
  have hlast := congrArg getLast? heq
  have hmark : ftagRepackmarker sampleOrig ≠ [] := by decide
  rw [List.getLast?_append_of_ne_nil _ hmark] at hlast
  exact absurd hlast (by decide)

theorem sampleSys_fresh (refdepth : Int) (h : 0 < toUll refdepth)
    (hpath : sampleDirs refdepth ++ ftagMetatgt sampleNew ≠ samplePath) :
    Fresh (sampleRepacking refdepth h hpath) sampleSys.references where
  path := sampleSys_path
  rmarkstr := sampleSys_other (sampleRepacking refdepth h hpath).rmarkstr_ne_path
  newpath := sampleSys_other hpath
  ftag := sampleSys_ftag
  active := rfl
  marker := rfl
  other := fun _ => sampleSys_other (sampleMs_marker_ne refdepth)

theorem sampleSys_opens (refdepth : Int) (h : 0 < toUll refdepth)
    (hpath : sampleDirs refdepth ++ ftagMetatgt sampleNew ≠ samplePath) :
    ∃ s₁, openRepackFile (sampleMs refdepth h) (some sampleNew) sampleOrig samplePath sampleSys =
        (some 0, s₁) ∧
      s₁.references.xattrs 0 .ftag = some sampleOrig.toStr := by
  have hnew : NewTag (sampleMs refdepth h) (sampleRepacking refdepth h hpath).newpath sampleNew :=
    ⟨rfl, rfl, sampleNew_reads, sampleMs_genrpath refdepth h sampleNew⟩
  have hplc : ∀ ftag, some sampleNew = some ftag →
      NewTag (sampleMs refdepth h) (sampleRepacking refdepth h hpath).newpath ftag := fun ftag hftag =>
    Option.some.inj hftag ▸ hnew
  have hspec := wp_openRepackFile sampleOrig (sampleSys_fresh refdepth h hpath) hplc
  obtain ⟨metahandle, s₁, hrun, hfile, hlinked⟩ := Op.wp_returns hspec fun s' hstop => by
    rcases hstop.2 with hsteps | hnone | hreadable
    · exact absurd hsteps (by decide)
    · cases hnone
    · cases hreadable
  subst hfile
  exact ⟨s₁, hrun, hlinked.ftag⟩

theorem sampleMs_opReftgt : opReftgt collidingIdentifier (sampleMs 1 (by decide)) sampleOrig
    sampleOrig = some samplePath := by
  rw [opReftgt, opReftable, if_pos ⟨rfl, rfl, rfl⟩, Option.bind_eq_bind, Option.bind_some]
  exact sampleMs_genrpath 1 (by decide) sampleOrig

theorem sampleMs_refound : ∃ s₁,
    openRepackFile (sampleMs 1 (by decide)) (some sampleNew) sampleOrig samplePath sampleSys =
      (some 0, s₁) ∧
    (Refound samplePath s₁.calls
        (completefile (sampleMs 1 (by decide)) sampleOrig 0 sampleNew (resume s₁)).2.calls ↔
      SameDirectories (sampleMs 1 (by decide)) sampleOrig sampleOrig) := by
  obtain ⟨s₁, hrun, hftag⟩ := sampleSys_opens 1 (by decide) (by decide)
  have hkept : (resume s₁).references.xattrs 0 .ftag = some sampleOrig.toStr := hftag
  exact ⟨s₁, hrun, marker_refound_iff sampleMs_opReftgt sampleOrig_reads rfl sampleSys_path sampleSys_ftag hrun
    rfl (three_le_resume s₁) hkept rfl rfl rfl⟩

/-- In a namespace whose reference tree is deeper by now, the marker is not found. -/
theorem deeper_not_refound : ∃ s₁,
    opReftgt collidingIdentifier (sampleMs 2 (by decide)) sampleOrig sampleOrig = some samplePath ∧
    openRepackFile (sampleMs 2 (by decide)) (some sampleNew) sampleOrig samplePath sampleSys =
      (some 0, s₁) ∧
    ¬ Refound samplePath s₁.calls
        (completefile (sampleMs 2 (by decide)) sampleOrig 0 sampleNew (resume s₁)).2.calls := by
  obtain ⟨s₁, hrun, hftag⟩ := sampleSys_opens 2 (by decide) (by decide)
  have hreftgt : opReftgt collidingIdentifier (sampleMs 2 (by decide)) sampleOrig sampleOrig =
      some samplePath := by
    have htable : opReftable collidingIdentifier (sampleMs 2 (by decide)) sampleOrig =
        some (sampleMs 1 (by decide)).reftable := by
      rw [opReftable, if_neg (by decide)]
      exact (sampleMs 1 (by decide)).generated
    rw [opReftgt, htable, Option.bind_eq_bind, Option.bind_some]
    exact sampleMs_genrpath 1 (by decide) sampleOrig
  refine ⟨s₁, hreftgt, hrun, fun hfound => ?_⟩
  have hkept : (resume s₁).references.xattrs 0 .ftag = some sampleOrig.toStr := hftag
  have hpath := (refound_iff_genrpath hreftgt sampleOrig_reads rfl sampleSys_path sampleSys_ftag hrun
    rfl (three_le_resume s₁) hkept rfl rfl rfl).1 hfound
  rw [sampleMs_genrpath 2 (by decide) sampleOrig] at hpath
  exact absurd (Option.some.inj hpath) (by decide)

end Marfs.Repack
