import Marfs.Cstring.Pieces
import Marfs.Recovery.Finfo
import Marfs.Tagging.RtagString

/-!
# String builders and their buffers

`ftag_tostr`, `rtag_tostr`, `gctag_tostr`, `catag_tostr` and the two builders of recovery strings, with
the buffer they are given.  A tag is printed stanza by stanza into what is left of the buffer; a
recovery string takes one call.  Their length does not depend on the buffer
(`tostr_lengthStable`), so that a caller can ask for it first.
-/

namespace Marfs.Tagging

open Cstring Recovery List

/-! ## FTAG -/

def Ftag.stanzas (ftag : Ftag) : List (List Char) :=
  [ftag.versionStanza, ftag.streamStanza, ftag.reftreeStanza, ftag.positionStanza, ftag.contentStanza]

def Ftag.IsCurrent (ftag : Ftag) : Prop :=
  ftag.majorversion = ftagCurrentMajorversion ∧ ftag.minorversion = ftagCurrentMinorversion

instance (ftag : Ftag) : Decidable ftag.IsCurrent := inferInstanceAs (Decidable (_ ∧ _))

def ftagTostrInto (ftag : Ftag) (len : Nat) (tgtstr : Memory) : Nat × Memory :=
  if ftag.IsCurrent then printPieces ftag.stanzas tgtstr 0 len 0 else (0, tgtstr)

theorem Ftag.stanzas_ne_nil (ftag : Ftag) : ∀ stanza ∈ ftag.stanzas, stanza ≠ [] := by
  have hver : ftag.versionStanza ≠ [] :=
    append_ne_nil_of_right_ne_nil _ (cons_ne_nil _ _)
  have hstr : ftag.streamStanza ≠ [] :=
    append_ne_nil_of_right_ne_nil _ (cons_ne_nil _ _)
  have href : ftag.reftreeStanza ≠ [] :=
    append_ne_nil_of_right_ne_nil _ (cons_ne_nil _ _)
  have hpos : ftag.positionStanza ≠ [] :=
    append_ne_nil_of_right_ne_nil _ (cons_ne_nil _ _)
  have hcont : ftag.contentStanza ≠ [] :=
    append_ne_nil_of_right_ne_nil _ (cons_ne_nil _ _)
  simp only [stanzas, forall_mem_cons]
  exact ⟨hver, hstr, href, hpos, hcont, forall_mem_nil _⟩

theorem Ftag.flatten_stanzas (ftag : Ftag) : ftag.stanzas.flatten = ftag.toStr := by
  simp only [stanzas, toStr, flatten_cons, flatten_nil, List.append_nil]

theorem ftagTostrInto_builds (ftag : Ftag) :
    Builds (ftagTostrInto ftag) (ftag.IsCurrent ∧ Reportable ftag.stanzas) ftag.toStr :=
  (builds_pieces (fun _ _ => rfl) (cons_ne_nil _ _) ftag.stanzas_ne_nil
    ftag.flatten_stanzas).guard fun _ _ => rfl

/-! ## RTAG -/

def healthPieces : (curblock : Nat) → List Bool → List (List Char)
  | _, [] => []
  | curblock, blkhealth :: rest =>
    (if curblock ≠ 0 then ['-', healthFlag blkhealth] else [healthFlag blkhealth]) ::
      healthPieces (curblock + 1) rest

namespace Rtag

def HasStatus (rtag : Rtag) : Prop :=
  rtag.stripewidth ≠ 0 →
    rtag.stripestate.metaStatus.isEmpty = false ∧ rtag.stripestate.dataStatus.isEmpty = false

instance (rtag : Rtag) : Decidable rtag.HasStatus := inferInstanceAs (Decidable (_ → _))

/-- The calls for a stripe: its sizes, and a call for every block. -/
def stripePieces (rtag : Rtag) : List (List Char) :=
  rtag.stripeStanza :: datahealthHeader ::
    (healthPieces 0 (rtag.stripestate.dataStatus.take rtag.stripewidth) ++
      (')' :: metahealthHeader) ::
        (healthPieces 0 (rtag.stripestate.metaStatus.take rtag.stripewidth) ++ [[')']]))

/-- The calls for the whole string, which stop early without a stripe. -/
def pieces (rtag : Rtag) : List (List Char) :=
  rtag.versionStanza :: rtag.timestampStanza ::
    if rtag.stripewidth = 0 then [] else rtag.stripePieces

end Rtag

def rtagTostrInto (rtag : Rtag) (len : Nat) (tgtstr : Memory) : Nat × Memory :=
  if rtag.HasStatus then printPieces rtag.pieces tgtstr 0 len 0 else (0, tgtstr)

theorem healthPieces_ne_nil {curblock : Nat} {status : List Bool} :
    ∀ piece ∈ healthPieces curblock status, piece ≠ [] := by
  induction status generalizing curblock with
  | nil => exact forall_mem_nil _
  | cons blkhealth rest ih =>
    rw [healthPieces, forall_mem_cons]
    refine ⟨?_, ih⟩
    split
    · exact cons_ne_nil _ _
    · exact cons_ne_nil _ _

theorem flatten_healthPieces_succ (blkhealth : Bool) (curblock : Nat) (status : List Bool) :
    healthFlag blkhealth :: (healthPieces (curblock + 1) status).flatten =
      healthValues (blkhealth :: status) := by
  induction status generalizing blkhealth curblock with
  | nil => rfl
  | cons next rest ih =>
    have hvals : healthValues (blkhealth :: next :: rest) =
        healthFlag blkhealth :: '-' :: healthValues (next :: rest) := rfl
    rw [healthPieces, if_pos (Nat.succ_ne_zero _), flatten_cons, hvals, ← ih next (curblock + 1)]
    rfl

theorem flatten_healthPieces (status : List Bool) :
    (healthPieces 0 status).flatten = healthValues status := by
  cases status with
  | nil => rfl
  | cons blkhealth rest => exact flatten_healthPieces_succ blkhealth 0 rest

namespace Rtag

theorem pieces_ne_nil (rtag : Rtag) : ∀ piece ∈ rtag.pieces, piece ≠ [] := by
  have hver : rtag.versionStanza ≠ [] :=
    append_ne_nil_of_right_ne_nil _ (append_ne_nil_of_right_ne_nil _ (cons_ne_nil _ _))
  have htimestamp : rtag.timestampStanza ≠ [] :=
    append_ne_nil_of_right_ne_nil _ (append_ne_nil_of_right_ne_nil _ (cons_ne_nil _ _))
  have hstrp : rtag.stripeStanza ≠ [] :=
    append_ne_nil_of_right_ne_nil _ (cons_ne_nil _ _)
  have hhdr : datahealthHeader ≠ [] := by decide
  have hstripePieces : ∀ piece ∈ rtag.stripePieces, piece ≠ [] := by
    simp only [stripePieces, forall_mem_cons, forall_mem_append]
    exact ⟨hstrp, hhdr, healthPieces_ne_nil, cons_ne_nil _ _, healthPieces_ne_nil,
      cons_ne_nil _ _, forall_mem_nil _⟩
  rw [pieces, forall_mem_cons, forall_mem_cons]
  refine ⟨hver, htimestamp, ?_⟩
  split
  · exact forall_mem_nil _
  · exact hstripePieces

theorem flatten_pieces (rtag : Rtag) : rtag.pieces.flatten = rtag.toStr := by
  rw [pieces, toStr, flatten_cons, flatten_cons]
  split
  · rfl
  · simp only [stripePieces, healthStanzas, flatten_cons, flatten_append,
      flatten_nil, flatten_healthPieces, cons_append, List.append_nil]

end Rtag

theorem rtagTostrInto_builds (rtag : Rtag) :
    Builds (rtagTostrInto rtag) (rtag.HasStatus ∧ Reportable rtag.pieces) rtag.toStr :=
  (builds_pieces (fun _ _ => rfl) (cons_ne_nil _ _) rtag.pieces_ne_nil
    rtag.flatten_pieces).guard fun _ _ => rfl

/-! ## GCTAG -/

def gctagCurrentMajorversion : Nat := 0

def gctagCurrentMinorversion : Nat := 1

def gctagVersionHeader : List Char := "VER(".toList

def skipInfoHeader : List Char := "SKIP(".toList

def progressHeader : List Char := "PROG(".toList

namespace Gctag

def versionStanza : List Char :=
  gctagVersionHeader ++ (decimal gctagCurrentMajorversion ++
    '.' :: (padded 3 gctagCurrentMinorversion ++ [')']))

def skipStanza (gctag : Gctag) : List Char :=
  skipInfoHeader ++ (decimal gctag.refcnt ++ ['|', if gctag.eos then 'E' else '-', ')'])

def progressStanza (gctag : Gctag) : List Char :=
  progressHeader ++ [if gctag.delzero then 'D' else '-', '|', if gctag.inprog then 'I' else '-', ')']

def stanzas (gctag : Gctag) : List (List Char) :=
  versionStanza :: gctag.skipStanza ::
    if gctag.inprog || gctag.delzero then [gctag.progressStanza] else []

def toStr (gctag : Gctag) : List Char :=
  versionStanza ++ (gctag.skipStanza ++
    if gctag.inprog || gctag.delzero then gctag.progressStanza else [])

end Gctag

def gctagTostrInto (gctag : Gctag) (len : Nat) (tgtstr : Memory) : Nat × Memory :=
  printPieces gctag.stanzas tgtstr 0 len 0

namespace Gctag

theorem stanzas_ne_nil (gctag : Gctag) : ∀ stanza ∈ gctag.stanzas, stanza ≠ [] := by
  have hver : versionStanza ≠ [] :=
    append_ne_nil_of_right_ne_nil _ (append_ne_nil_of_right_ne_nil _ (cons_ne_nil _ _))
  have hskip : gctag.skipStanza ≠ [] :=
    append_ne_nil_of_right_ne_nil _ (append_ne_nil_of_right_ne_nil _ (cons_ne_nil _ _))
  have hprog : gctag.progressStanza ≠ [] :=
    append_ne_nil_of_right_ne_nil _ (cons_ne_nil _ _)
  rw [stanzas, forall_mem_cons, forall_mem_cons]
  refine ⟨hver, hskip, ?_⟩
  split
  · exact List.forall_mem_singleton.2 hprog
  · exact forall_mem_nil _

theorem flatten_stanzas (gctag : Gctag) : gctag.stanzas.flatten = gctag.toStr := by
  rw [stanzas, toStr, flatten_cons, flatten_cons]
  split
  · rw [flatten_cons, flatten_nil, List.append_nil]
  · rfl

/-- Every count of a `size_t` is printable. -/
theorem reportable_stanzas (gctag : Gctag) (h : gctag.refcnt ≤ ullongMax) : Reportable gctag.stanzas := by
  have hdig : (decimal gctag.refcnt).length ≤ 20 :=
    (length_decimal_mono h).trans (by decide +kernel)
  have hver : versionStanza.length ≤ snprintfMax := by decide +kernel
  have hskip : gctag.skipStanza.length ≤ snprintfMax := by
    have hhdr : skipInfoHeader.length = 5 := by decide +kernel
    have hmax : snprintfMax = 2147483647 := by decide
    simp only [skipStanza, length_append, length_cons, length_nil]
    omega
  have hprog : gctag.progressStanza.length ≤ snprintfMax := by
    have hhdr : progressHeader.length = 5 := by decide +kernel
    have hmax : snprintfMax = 2147483647 := by decide
    simp only [progressStanza, length_append, length_cons, length_nil]
    omega
  rw [Reportable, stanzas, forall_mem_cons, forall_mem_cons]
  refine ⟨hver, hskip, ?_⟩
  split
  · exact List.forall_mem_singleton.2 hprog
  · exact forall_mem_nil _

end Gctag

theorem gctagTostrInto_builds (gctag : Gctag) :
    Builds (gctagTostrInto gctag) (Reportable gctag.stanzas) gctag.toStr :=
  builds_pieces (fun _ _ => rfl) (cons_ne_nil _ _) gctag.stanzas_ne_nil gctag.flatten_stanzas

/-! ## CATAG -/

/-- `CATAG`: the cache a file is in, and the path of the file there. -/
structure Catag where
  cacheid : List Char
  cacheloc : List Char
  deriving DecidableEq, Repr

def catagCurrentMajorversion : Nat := 0

def catagCurrentMinorversion : Nat := 1

/-- `CATAG_VERSION_HEADER`, `CATAG_CACHEID_HEADER` and `CATAG_CACHELOC_HEADER` with their
parentheses. -/
def catagVersionHeader : List Char := "VER(".toList

@[inherit_doc catagVersionHeader]
def cacheidHeader : List Char := "ID(".toList

@[inherit_doc catagVersionHeader]
def cachelocHeader : List Char := "LOC(".toList

namespace Catag

def versionStanza : List Char :=
  catagVersionHeader ++ (decimal catagCurrentMajorversion ++
    '.' :: (padded 3 catagCurrentMinorversion ++ [')']))

def cacheidStanza (catag : Catag) : List Char := cacheidHeader ++ (catag.cacheid ++ [')'])

def cachelocStanza (catag : Catag) : List Char := cachelocHeader ++ (catag.cacheloc ++ [')'])

def stanzas (catag : Catag) : List (List Char) :=
  [versionStanza, catag.cacheidStanza, catag.cachelocStanza]

def toStr (catag : Catag) : List Char := versionStanza ++ (catag.cacheidStanza ++ catag.cachelocStanza)

end Catag

def catagTostrInto (catag : Catag) (len : Nat) (tgtstr : Memory) : Nat × Memory :=
  printPieces catag.stanzas tgtstr 0 len 0

namespace Catag

theorem stanzas_ne_nil (catag : Catag) : ∀ stanza ∈ catag.stanzas, stanza ≠ [] := by
  have hver : versionStanza ≠ [] :=
    append_ne_nil_of_right_ne_nil _ (append_ne_nil_of_right_ne_nil _ (cons_ne_nil _ _))
  have hcacheid : catag.cacheidStanza ≠ [] :=
    append_ne_nil_of_right_ne_nil _ (append_ne_nil_of_right_ne_nil _ (cons_ne_nil _ _))
  have hcacheloc : catag.cachelocStanza ≠ [] :=
    append_ne_nil_of_right_ne_nil _ (append_ne_nil_of_right_ne_nil _ (cons_ne_nil _ _))
  simp only [stanzas, forall_mem_cons]
  exact ⟨hver, hcacheid, hcacheloc, forall_mem_nil _⟩

theorem flatten_stanzas (catag : Catag) : catag.stanzas.flatten = catag.toStr := by
  simp only [stanzas, toStr, flatten_cons, flatten_nil, List.append_nil]

end Catag

theorem catagTostrInto_builds (catag : Catag) :
    Builds (catagTostrInto catag) (Reportable catag.stanzas) catag.toStr :=
  builds_pieces (fun _ _ => rfl) (cons_ne_nil _ _) catag.stanzas_ne_nil catag.flatten_stanzas

/-! ## Recovery strings -/

/-- A string of a single `snprintf`, which is refused a buffer that is `NULL` and has a size; `null`
says that `tgtstr` is `NULL`. -/
def printInto (s : List Char) (null : Bool) (size : Nat) (tgtstr : Memory) : Nat × Memory :=
  if null && size ≠ 0 then (0, tgtstr)
  else
    let tgtstr := fill tgtstr 0 size s
    if snprintf s < 0 then (0, tgtstr) else ((snprintf s).toNat, tgtstr)

def recoveryHeadertostrInto (header : RecoveryHeader) (null : Bool) (size : Nat) (tgtstr : Memory) :
    Nat × Memory :=
  printInto (recoveryHeadertostr header) null size tgtstr

def recoveryFinfotostrInto (finfo : RecoveryFinfo) (null : Bool) (size : Nat) (tgtstr : Memory) :
    Nat × Memory :=
  printInto (recoveryFinfotostr finfo) null size tgtstr

theorem printInto_builds (s : List Char) : Builds (printInto s false) (s.length ≤ snprintfMax) s := by
  constructor
  · intro hle
    apply LengthStable.of_fill
    intro len mem
    rw [printInto, if_neg (by rw [Bool.false_and]; exact Bool.false_ne_true), snprintf_of_le hle,
      if_neg (by omega), Int.toNat_natCast]
  · intro hlt
    have hprint : ∀ len mem, printInto s false len mem = (0, fill mem 0 len s) := by
      intro len mem
      rw [printInto, if_neg (by rw [Bool.false_and]; exact Bool.false_ne_true),
        snprintf_of_lt (by omega), if_pos (by decide)]
    refine ⟨fun len mem => by rw [hprint], fun len mem i hi => ?_⟩
    rw [hprint]
    exact fill_outside s (by omega)

/-! ## All of them -/

/-- The builders are length stable: they return the length of the whole string whatever the size of the
buffer, write inside of it, and leave there as much of the string as fits, with its terminator.  They
refuse a tag of another version, a stripe without status arrays, and a piece of text whose length is
not an `int`. -/
theorem tostr_lengthStable :
    (∀ ftag, Builds (ftagTostrInto ftag) (ftag.IsCurrent ∧ Reportable ftag.stanzas) ftag.toStr) ∧
    (∀ rtag, Builds (rtagTostrInto rtag) (rtag.HasStatus ∧ Reportable rtag.pieces) rtag.toStr) ∧
    (∀ gctag : Gctag, gctag.refcnt ≤ ullongMax → LengthStable (gctagTostrInto gctag) gctag.toStr) ∧
    (∀ catag, Builds (catagTostrInto catag) (Reportable catag.stanzas) catag.toStr) ∧
    (∀ header, Builds (recoveryHeadertostrInto header false)
      ((recoveryHeadertostr header).length ≤ snprintfMax) (recoveryHeadertostr header)) ∧
    ∀ finfo, Builds (recoveryFinfotostrInto finfo false)
      ((recoveryFinfotostr finfo).length ≤ snprintfMax) (recoveryFinfotostr finfo) :=
  ⟨ftagTostrInto_builds, rtagTostrInto_builds,
    fun gctag hrefcnt => (gctagTostrInto_builds gctag).1 (gctag.reportable_stanzas hrefcnt),
    catagTostrInto_builds, fun header => printInto_builds (recoveryHeadertostr header),
    fun finfo => printInto_builds (recoveryFinfotostr finfo)⟩

/-- The string of a tag of another version is not printed. -/
theorem oldFtag_not_lengthStable :
    ¬ LengthStable (ftagTostrInto { sampleFtag 1 2 true with minorversion := 0 })
      (Ftag.toStr { sampleFtag 1 2 true with minorversion := 0 }) := by
  intro h
  have hlength := h.length 0 fun _ => 'x'
  have hzero : (ftagTostrInto { sampleFtag 1 2 true with minorversion := 0 } 0 fun _ => 'x').1 = 0 :=
    rfl
  rw [hzero, Ftag.toStr, length_append] at hlength
  have hversion : 0 < (Ftag.versionStanza { sampleFtag 1 2 true with minorversion := 0 }).length := by
    decide +kernel
  omega

end Marfs.Tagging
