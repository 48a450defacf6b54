import Marfs.Datastream.Stream
import Marfs.Mdal.References
import Marfs.Repack.Paths

/-!
# Repacking a file

What `open_repack_file`, `completefile` and `datastream_repack_cleanup` do to the references: a marker
file is put next to the original reference, and the file gets a second reference at its new place.  At
the end the marker takes one of the two places, with the FTAG of the copy that is given up, so that it
is collected as garbage.  Positions and data of the stream are those of `Datastream.Stream`.
-/

namespace Marfs.Repack

open Cstring Datastream Hash Machine Mdal Tagging

section Protocol

variable {identifier : List Char → Id}

/-- `getftag`, into a struct that held `base`; returns also `stream->ftagstr`. -/
def getftag (base : Ftag) (metahandle : Nat) : Op Mdal.Sys (List Char × Ftag) := do
  let ftagstr ← fgetxattr metahandle .ftag
  let ftagstr ← Op.ofOption ftagstr
  let ftag ← Op.ofOption (ftagInitstr base ftagstr)
  pure (ftagstr, ftag)

/-- `putftag`, with the attribute that the type of the stream asks for. -/
def putftag (name : Xattr) (metahandle : Nat) (ftag : Ftag) : Op Mdal.Sys Unit := do
  let (ftagstr, _) ← Op.ofOption (ftagTostr ftag (ftag.toStr.length + 1))
  let set ← fsetxattr metahandle name ftagstr .any
  Op.check set

/-- The end of `open_repack_file`: the marker gets the new FTAG, and the file its second reference. -/
def linkRepacked (ms : Metascheme identifier) (place : Option Ftag) (path : List Char)
    (rmarker metahandle : Nat) : Op Mdal.Sys Nat := do
  let ftag ← Op.ofOption place
  putftag .trepack rmarker ftag
  let newpath ← Op.ofOption (datastreamGenrpath identifier ftag ms.reftable)
  let linked ← linkref path newpath
  Op.check linked
  pure metahandle

/-- `open_repack_file`; returns the handle of the file.  `place` is the FTAG for the file at the
position of the stream, if there is room for it. -/
def openRepackFile (ms : Metascheme identifier) (place : Option Ftag) (base : Ftag)
    (path : List Char) : Op Mdal.Sys Nat := do
  let stat ← statref path
  Op.check stat
  let metahandle ← openref path
  let metahandle ← Op.ofOption metahandle
  let (_, ftag) ← getftag base metahandle
  Op.check ftag.state.readable
  let rmarkstr ← Op.ofOption (repackmarkertgt identifier (some path) ftag ms)
  let rmarker ← createref rmarkstr
  let rmarker ← Op.ofOption rmarker
  linkRepacked ms place path rmarker metahandle

/-- The new FTAG becomes the FTAG of the file, and the marker takes the place of the original
reference. -/
def takeOver (rmarkstr origrefpath : List Char) (metahandle : Nat) (ftag : Ftag) :
    Op Mdal.Sys Unit := do
  putftag .ftag metahandle ftag
  let removed ← fremovexattr metahandle .trepack
  Op.check removed
  let renamed ← renameref rmarkstr origrefpath
  Op.check renamed

def exchange (rmarkstr origrefpath ftagstr : List Char) (rmarker metahandle : Nat) (ftag : Ftag) :
    Op Mdal.Sys Unit := do
  let set ← fsetxattr rmarker .ftag ftagstr .create
  Op.check set
  -- the file may have been repacked before: its TRUE original FTAG is preserved
  let _ ← fsetxattr metahandle .orepack ftagstr .create
  takeOver rmarkstr origrefpath metahandle ftag

/-- The middle of `completefile`, for the file of a repack stream. -/
def swapRepacked (ms : Metascheme identifier) (base : Ftag) (metahandle : Nat) (ftag : Ftag) :
    Op Mdal.Sys Unit := do
  let (ftagstr, origftag) ← getftag base metahandle
  let origrefpath ← Op.ofOption (datastreamGenrpath identifier origftag ms.reftable)
  let rmarkstr ← Op.ofOption (repackmarkertgt identifier (some origrefpath) origftag ms)
  let rmarker ← openref rmarkstr
  let rmarker ← Op.ofOption rmarker
  exchange rmarkstr origrefpath ftagstr rmarker metahandle ftag

def completefile (ms : Metascheme identifier) (base : Ftag) (metahandle : Nat) (ftag : Ftag) :
    Op Mdal.Sys Unit := do
  Op.check !ftag.state.writeable
  let ftag := Datastream.Sys.completed ftag
  putftag .trepack metahandle ftag
  swapRepacked ms base metahandle ftag

/-- The marker is deleted: the repack barely got anywhere. -/
def deleteMarker (refpath : List Char) : Op Mdal.Sys Bool := do
  let unlinked ← unlinkref refpath
  Op.check unlinked
  pure true

def placeMarker (refpath renametgt : List Char) (retval : Bool) : Op Mdal.Sys Bool := do
  let renamed ← renameref refpath renametgt
  Op.check renamed
  pure retval

/-- The FTAG of the new copy that the file has, if any, replaces that of the marker before it is taken
from the file. -/
def keepActive (rmarker tgtfile : Nat) : (active : Option (List Char)) → Op Mdal.Sys Unit
  | none => pure ()
  | some active => do
    let set ← fsetxattr rmarker .trepack active .replace
    Op.check set
    let removed ← fremovexattr tgtfile .trepack
    Op.check removed

def revert (refpath : List Char) (rmarker tgtfile : Nat) (tgtftagstr : List Char)
    (active : Option (List Char)) (repacktgtpath : List Char) : Op Mdal.Sys Bool := do
  keepActive rmarker tgtfile active
  let set ← fsetxattr rmarker .ftag (active.getD tgtftagstr) .create
  Op.check set
  placeMarker refpath repacktgtpath true

def useActive (tgtfile : Nat) : (active : Option (List Char)) → Op Mdal.Sys Unit
  | none => pure ()
  | some active => do
    let set ← fsetxattr tgtfile .ftag active .replace
    Op.check set
    let removed ← fremovexattr tgtfile .trepack
    Op.check removed

def proceed (ms : Metascheme identifier) (base : Ftag) (refpath : List Char) (tgtfile : Nat)
    (realftagstr : List Char) (active : Option (List Char)) (repacktgtpath : List Char) :
    Op Mdal.Sys Bool := do
  let realftag ← Op.ofOption (ftagInitstr base realftagstr)
  let renametgt ← Op.ofOption (datastreamGenrpath identifier realftag ms.reftable)
  useActive tgtfile active
  placeMarker refpath renametgt (decide (repacktgtpath = renametgt))

def cleanupTarget (ms : Metascheme identifier) (base base' : Ftag) (refpath : List Char)
    (rmarker : Nat) (tgtftagstr : List Char) : Op Mdal.Sys Bool := do
  let tgtftag ← Op.ofOption (ftagInitstr base tgtftagstr)
  let repacktgtpath ← Op.ofOption (datastreamGenrpath identifier tgtftag ms.reftable)
  match ← openref repacktgtpath with
  | none => deleteMarker refpath
  | some tgtfile => do
    let active ← fgetxattr tgtfile .trepack
    Op.check (active ≠ some [])
    match ← fgetxattr rmarker .ftag with
    | none => revert refpath rmarker tgtfile tgtftagstr active repacktgtpath
    | some realftagstr => proceed ms base' refpath tgtfile realftagstr active repacktgtpath

def datastreamRepackCleanup (ms : Metascheme identifier) (base base' : Ftag)
    (refpath : List Char) : Op Mdal.Sys Bool := do
  let stat ← statref refpath
  Op.check stat
  let rmarker ← openref refpath
  let rmarker ← Op.ofOption rmarker
  match ← fgetxattr rmarker .trepack with
  | none => deleteMarker refpath
  | some tgtftagstr => cleanupTarget ms base base' refpath rmarker tgtftagstr

end Protocol

/-! ## FTAG attributes -/

/-- The string is that of the FTAG, whatever the struct holds it is parsed into. -/
def Reads (ftagstr : List Char) (ftag : Ftag) : Prop :=
  ∀ base, ftagInitstr base ftagstr = some ftag

section Attributes

variable {metahandle : Nat} {s : Mdal.Sys} {E : Mdal.Sys → Prop}

theorem wp_getftag {ftagstr : List Char} {ftag : Ftag} {Q : List Char × Ftag → Mdal.Sys → Prop}
    (base : Ftag) (hftagstr : s.references.xattrs metahandle .ftag = some ftagstr)
    (hreads : Reads ftagstr ftag) (hstop : s.steps = 0 → E s)
    (hgo : s.steps ≠ 0 → Q (ftagstr, ftag) (s.after (.fgetxattr metahandle .ftag) s.references)) :
    Op.wp (getftag base metahandle) Q E s := by
  rw [getftag, Op.wp_bind, fgetxattr, wp_step]
  refine ⟨hstop, fun hsteps => ?_⟩
  rw [Op.wp_bind, Op.wp_ofOption_some hftagstr, Op.wp_bind, Op.wp_ofOption_some (hreads base),
    Op.wp_pure]
  exact hgo hsteps

theorem wp_putftag {ftag : Ftag} {name : Xattr} {Q : Unit → Mdal.Sys → Prop}
    (hmaj : ftag.majorversion = ftagCurrentMajorversion) (hmin : ftag.minorversion = ftagCurrentMinorversion)
    (hstop : s.steps = 0 → E s)
    (hgo : s.steps ≠ 0 → Q () (s.after (.fsetxattr metahandle name ftag.toStr .any)
      (s.references.setXattr metahandle name (some ftag.toStr)))) :
    Op.wp (putftag name metahandle ftag) Q E s := by
  have hstr := ftagTostr_of_lt hmaj hmin (Nat.lt_succ_self ftag.toStr.length)
  rw [putftag, Op.wp_bind, Op.wp_ofOption_some hstr, Op.wp_bind, fsetxattr, wp_step]
  refine ⟨hstop, fun hsteps => ?_⟩
  exact Op.wp_check.2 ⟨fun _ => hgo hsteps, fun h => by cases h⟩

end Attributes

end Marfs.Repack
