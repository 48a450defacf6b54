import Marfs.Datastream.Stream

/-!
# What the steps of a stream do

One rule for each step that the calls on a stream are made of: what the state looks like where it
succeeds, and where it fails.  An invariant of streams is checked against these rules and does not
look at the steps again.
-/

namespace Marfs.Datastream

open Machine Recovery Tagging List

@[simp] theorem Stream.setFile_self (stream : Stream) (i : Nat) :
    stream.setFile i (stream.files i) = stream := by
  have hfiles : (fun j => if j = i then stream.files i else stream.files j) = stream.files := by
    funext j
    split
    · next h => rw [h]
    · rfl
  simp [Stream.setFile, hfiles]

@[simp] theorem Stream.setFile_setFile (stream : Stream) (i : Nat) (file file' : Streamfile) :
    (stream.setFile i file).setFile i file' = stream.setFile i file' := by
  have hfiles : (fun j => if j = i then file' else if j = i then file else stream.files j) =
      fun j => if j = i then file' else stream.files j := by
    funext j
    split
    · rfl
    · rfl
  simp [Stream.setFile, hfiles]

@[simp] theorem Stream.files_setFile_self (stream : Stream) (i : Nat) (file : Streamfile) :
    (stream.setFile i file).files i = file := by simp [Stream.setFile]

theorem Stream.files_setFile_of_ne (stream : Stream) {i j : Nat} (file : Streamfile) (h : j ≠ i) :
    (stream.setFile i file).files j = stream.files j := by simp [Stream.setFile, h]

theorem Stream.header_ne_nil (stream : Stream) : stream.header ≠ [] := by
  have hhead : msgHead.length = 7 := rfl
  apply ne_nil_of_length_pos
  unfold Stream.header recoveryHeadertostr
  simp only [length_append, hhead]
  omega

@[simp] theorem Stream.cur_setFile (stream : Stream) (file : Streamfile) :
    (stream.setFile stream.curfile file).cur = file := by simp [Stream.cur, Stream.setFile]

@[simp] theorem Stream.cur_enter (stream : Stream) (file : Streamfile) (finfo : RecoveryFinfo) :
    (stream.enter file finfo).cur = file := by simp [Stream.cur, Stream.enter, Stream.setFile]

section SetFile

variable (stream : Stream) (i : Nat) (file : Streamfile)

@[simp] theorem Stream.type_setFile : (stream.setFile i file).type = stream.type := rfl

@[simp] theorem Stream.recoveryheaderlen_setFile :
    (stream.setFile i file).recoveryheaderlen = stream.recoveryheaderlen := rfl

@[simp] theorem Stream.fileno_setFile : (stream.setFile i file).fileno = stream.fileno := rfl

@[simp] theorem Stream.objno_setFile : (stream.setFile i file).objno = stream.objno := rfl

@[simp] theorem Stream.offset_setFile : (stream.setFile i file).offset = stream.offset := rfl

@[simp] theorem Stream.datahandle_setFile : (stream.setFile i file).datahandle = stream.datahandle := rfl

@[simp] theorem Stream.curfile_setFile : (stream.setFile i file).curfile = stream.curfile := rfl

end SetFile

namespace Sys

open Op

variable {Q : Unit → Sys → Prop} {E : Sys → Prop} {s : Sys}

/-! ## Underlying calls -/

theorem wp_outcome {Q : Option Nat → Sys → Prop} (h : ∀ o os, Q o { s with outcomes := os }) :
    wp outcome Q E s := by
  have hrun : outcome s = (some s.outcomes.head?.join, { s with outcomes := s.outcomes.tail }) := by
    cases hs : s.outcomes with
    | nil =>
      have hsame : s = { s with outcomes := [] } := by rw [← hs]
      simp [outcome, hs, ← hsame]
    | cons o os => simp [outcome, hs]
  exact wp_of_some hrun (h _ _)

theorem wp_call (hQ : ∀ os, Q () { s with outcomes := os })
    (hE : ∀ os, E { s with outcomes := os }) : wp call Q E s := by
  refine wp_bind.2 (wp_outcome fun o os => ?_)
  exact wp_check.2 ⟨fun _ => hQ os, fun _ => hE os⟩

theorem wp_succeeds {Q : Bool → Sys → Prop} (hQ : ∀ ok os, Q ok { s with outcomes := os }) :
    wp succeeds Q E s := 
  wp_bind.2 (wp_outcome fun o os => wp_pure.2 (hQ o.isNone os))

@[simp] theorem neAbort_snd (s : Sys) :
    (neAbort s).2 = { s with stream := { s.stream with datahandle := none } } := rfl

@[simp] theorem wp_modifyStream {f : Stream → Stream} :
    wp (modifyStream f) Q E s ↔ Q () { s with stream := f s.stream } := wp_modify

@[simp] theorem modifyStream_snd {f : Stream → Stream} :
    (modifyStream f s).2 = { s with stream := f s.stream } := rfl

@[simp] theorem wp_freestream :
    wp freestream Q E s ↔
      Q () { s with live := false, stream := { s.stream with datahandle := none } } :=
  wp_bind.trans (wp_modifyStream.trans wp_modify)

variable {i dataperobj : Nat} {f : Ftag → Ftag} {stream : Stream} {ftag : Ftag}

@[simp] theorem wp_modifyFile {f : Streamfile → Streamfile} :
    wp (modifyFile i f) Q E s ↔
      Q () { s with stream := s.stream.setFile i (f (s.stream.files i)) } := wp_modify

@[simp] theorem modifyFile_snd {f : Streamfile → Streamfile} :
    (modifyFile i f s).2 = { s with stream := s.stream.setFile i (f (s.stream.files i)) } := rfl

@[simp] theorem wp_modifyFtag :
    wp (modifyFtag i f) Q E s ↔
      Q () { s with
        stream := s.stream.setFile i
          { s.stream.files i with ftag := f (s.stream.files i).ftag } } := wp_modify

@[simp] theorem modifyFtag_snd :
    (modifyFtag i f s).2 = { s with
      stream := s.stream.setFile i
        { s.stream.files i with ftag := f (s.stream.files i).ftag } } := rfl

@[simp] theorem wp_space {a b : Nat} {Q : Nat → Sys → Prop} :
    wp (space a b) Q E s ↔
      Q (SizeT.sub a b) { s with wrapped := s.wrapped || decide (a < b) } :=
  wp_bind.trans (wp_modify.trans wp_pure)

/-! ## FTAGs -/

theorem wp_putftag
    (hQ : ∀ os, Q () (if s.stream.type ≠ .repack then
      store (s.stream.files i).ftag { s with outcomes := os } else { s with outcomes := os }))
    (hE : ∀ os, E { s with outcomes := os }) : wp (putftag i) Q E s := by
  refine wp_bind.2 (wp_call (fun os => ?_) hE)
  have h := hQ os
  by_cases htype : s.stream.type ≠ .repack
  · rw [if_pos htype] at h
    exact wp_bind.2 (wp_get.2 (wp_ite.2 ⟨fun _ => wp_modify.2 h, fun h' => absurd htype h'⟩))
  · rw [if_neg htype] at h
    exact wp_bind.2 (wp_get.2 (wp_ite.2 ⟨fun h' => absurd h' htype, fun _ => wp_pure.2 h⟩))

theorem wp_unlinkref {fileno : Nat}
    (hQ : ∀ os, Q () { s with outcomes := os })
    (hQ' : ∀ os, Q () { s with
      outcomes := os, ftags := fun n => if n = fileno then none else s.ftags n }) :
    wp (unlinkref fileno) Q E s := by
  refine wp_bind.2 (wp_succeeds fun ok os =>
    wp_ite.2 ⟨fun _ => wp_modify.2 (hQ' os), fun _ => wp_pure.2 (hQ os)⟩)

/-! ## Completing files -/

@[simp] theorem wp_closeMeta :
    wp (closeMeta i) Q E s ↔
      Q () { s with
        stream := s.stream.setFile i { s.stream.files i with metahandle := false } } := wp_modify

@[simp] theorem closeMeta_snd (i : Nat) (s : Sys) :
    (closeMeta i s).2 = { s with
      stream := s.stream.setFile i { s.stream.files i with metahandle := false } } := rfl

theorem wp_swapRepacked (htype : s.stream.type = .repack)
    (hQ : ∀ os, Q () (store (s.stream.files i).ftag { s with outcomes := os }))
    (hE : ∀ os, E { s with outcomes := os })
    (hE' : ∀ os, E (store (s.stream.files i).ftag { s with outcomes := os })) :
    wp (swapRepacked i) Q E s := by
  -- the type is back when the FTAG is attached, and when it could not be
  have hback : ∀ type, ({ { s.stream with type := type } with type := .repack } : Stream) =
      s.stream := by
    intro type
    rw [← htype]
  refine wp_bind.2 (wp_call (fun os₁ => ?_) hE)
  refine wp_bind.2 (wp_call (fun os₂ => ?_) hE)
  refine wp_bind.2 (wp_call (fun os₃ => ?_) hE)
  refine wp_bind.2 (wp_call (fun os₄ => ?_) hE)
  refine wp_bind.2 (wp_call (fun os₅ => ?_) hE)
  refine wp_bind.2 (wp_modifyStream.2 (wp_bind.2 (wp_onFail.2 (wp_putftag (fun os => ?_) ?_))))
  · simp only [ne_eq, reduceCtorEq, not_false_eq_true, if_true]
    refine wp_bind.2 (wp_modifyStream.2 ?_)
    simp only [store, hback]
    exact wp_bind.2 (wp_call (fun os => wp_call hQ hE') hE')
  · intro os
    simpa only [modifyStream_snd, hback] using hE os

theorem wp_completefile (hE : ∀ os file,
      E { s with outcomes := os, stream := s.stream.setFile i file })
    (hQ : (s.stream.files i).ftag.state.writeable = false → ∀ os file,
      Q () (store (completed (s.stream.files i).ftag)
        { s with outcomes := os, stream := s.stream.setFile i file }))
    (hE' : (s.stream.files i).ftag.state.writeable = false → ∀ os file,
      E (store (completed (s.stream.files i).ftag)
        { s with outcomes := os, stream := s.stream.setFile i file })) :
    wp (completefile i) Q E s := by
  refine wp_bind.2 (wp_get.2 (wp_bind.2 (wp_check.2 ⟨fun _ => ?_, fun _ => ?_⟩)))
  · refine wp_bind.2 (wp_onFail.2 (wp_bind.2 (wp_get.2 (wp_bind.2 (wp_check.2 ⟨?_, ?_⟩)))))
    · intro hwr
      have hw : (s.stream.files i).ftag.state.writeable = false := by simpa using hwr
      refine wp_bind.2 (wp_modifyFtag.2 (wp_bind.2 (wp_putftag (fun os => ?_) ?_)))
      · by_cases htype : s.stream.type = .repack
        · simp only [Stream.type_setFile, htype, ne_eq, not_true_eq_false, if_false, if_true]
          refine wp_bind.2 (wp_swapRepacked htype (fun os₁ => wp_bind.2 (wp_call ?_ ?_)) ?_ ?_)
          · intro os
            refine wp_call (fun os => wp_closeMeta.2 ?_) fun os => ?_
            · simpa only [store, Stream.setFile_setFile, Stream.files_setFile_self] using hQ hw os _
            · simpa only [store, closeMeta_snd, Stream.setFile_setFile, Stream.files_setFile_self]
                using hE' hw os _
          · intro os
            simpa only [store, closeMeta_snd, Stream.setFile_setFile, Stream.files_setFile_self]
              using hE' hw os _
          · intro os
            simpa only [closeMeta_snd, Stream.setFile_setFile] using hE os _
          · intro os
            simpa only [store, closeMeta_snd, Stream.setFile_setFile, Stream.files_setFile_self]
              using hE' hw os _
        · simp only [Stream.type_setFile, htype, ne_eq, not_false_eq_true, if_true, if_false,
            Stream.files_setFile_self]
          have hfail : ∀ os, E (closeMeta i (store (completed (s.stream.files i).ftag) { s with
              outcomes := os
              stream := s.stream.setFile i
                { s.stream.files i with ftag := completed (s.stream.files i).ftag } })).2 := by
            intro os
            simpa only [store, closeMeta_snd, Stream.setFile_setFile] using hE' hw os _
          refine wp_bind.2 (wp_call (fun os₁ => wp_bind.2 (wp_call (fun os₂ => ?_) hfail)) hfail)
          refine wp_call (fun os => wp_closeMeta.2 ?_) hfail
          simpa only [store, Stream.setFile_setFile, Stream.files_setFile_self] using hQ hw os _
      · intro os
        simpa only [closeMeta, modifyFile_snd, Stream.setFile_setFile] using hE os _
    · intro _
      simpa only [closeMeta, modifyFile_snd] using hE s.outcomes _
  · simpa only [Stream.setFile_self] using hE s.outcomes (s.stream.files i)

def Completes (s : Sys) (n : Nat) (ftags : Nat → Option Ftag) : Prop :=
  ∀ k, ftags k = s.ftags k ∨ ∃ i < n, (s.stream.files i).ftag.state.writeable = false ∧
    (s.stream.files i).ftag.fileno = k ∧ ftags k = some (completed (s.stream.files i).ftag)

theorem Completes.refl (s : Sys) (n : Nat) : Completes s n s.ftags := fun _ => .inl rfl

theorem Completes.cons {n : Nat} {s' : Sys} {ftags : Nat → Option Ftag}
    (hfiles : ∀ i < n, s'.stream.files i = s.stream.files i)
    (hfts : s'.ftags = s.ftags ∨ (s.stream.files n).ftag.state.writeable = false ∧
      s'.ftags = (store (completed (s.stream.files n).ftag) s).ftags) (h : Completes s' n ftags) :
    Completes s (n + 1) ftags := by
  intro k
  rcases h k with hk | ⟨i, hi, hk⟩
  · rcases hfts with hfts | ⟨hwr, hfts⟩
    · exact .inl (hk.trans (congrFun hfts k))
    · by_cases hfno : k = (s.stream.files n).ftag.fileno
      · refine .inr ⟨n, by omega, hwr, hfno.symm, ?_⟩
        rw [hk, hfts]
        simp [store, completed, hfno]
      · refine .inl ?_
        rw [hk, hfts]
        simp [store, completed, hfno]
  · rw [hfiles i hi] at hk
    exact .inr ⟨i, by omega, hk⟩

theorem wp_completeFiles {n : Nat} {Q : Bool → Sys → Prop}
    (h : ∀ all os files ftags, (∀ i, n ≤ i → files i = s.stream.files i) → Completes s n ftags →
      Q all { s with outcomes := os, ftags := ftags, stream := { s.stream with files := files } }) :
    wp (completeFiles n) Q E s := by
  induction n generalizing s Q with
  | zero =>
    exact wp_pure.2
      (h true s.outcomes s.stream.files s.ftags (fun _ _ => rfl) (Completes.refl s 0))
  | succ n ih =>
    -- whatever became of the last file, the first ones follow
    have hrest : ∀ (done : Option Unit) (s' : Sys) (file : Streamfile),
        s' = { s with
          outcomes := s'.outcomes, ftags := s'.ftags, stream := s.stream.setFile n file } →
        (s'.ftags = s.ftags ∨ (s.stream.files n).ftag.state.writeable = false ∧
          s'.ftags = (store (completed (s.stream.files n).ftag) s).ftags) →
        wp (completeFiles n >>= fun rest => pure (done.isSome && rest)) Q E s' := by
      intro done s' file hs' hfts
      have hstr : s'.stream = s.stream.setFile n file := by rw [hs']
      refine wp_bind.2 (ih fun all os files ftags hfiles hcomp => ?_)
      rw [hs'] at hfiles ⊢
      refine wp_pure.2 (h _ os files ftags (fun i hi => ?_) (hcomp.cons (fun i hi => ?_) hfts))
      · rw [hfiles i (by omega)]
        exact Stream.files_setFile_of_ne _ _ (by omega)
      · rw [hstr]
        exact Stream.files_setFile_of_ne _ _ (by omega)
    refine wp_bind.2 (wp_attempt.2 (wp_completefile (fun os file => ?_) ?_ ?_))
    · exact hrest none _ file rfl (.inl rfl)
    · intro hwr os file
      exact hrest (some ()) _ file rfl (.inr ⟨hwr, rfl⟩)
    · intro hwr os file
      exact hrest none _ file rfl (.inr ⟨hwr, rfl⟩)

theorem wp_completePrevious
    (hQ : ∀ os files ftags, files 0 = s.stream.cur → Completes s s.stream.curfile ftags →
      Q () { s with
        outcomes := os, ftags := ftags
        stream := { s.stream with files := files, curfile := 0 } })
    (hE : ∀ os files ftags, Completes s s.stream.curfile ftags →
      E { s with
        live := false, outcomes := os, ftags := ftags
        stream := { s.stream with files := files, curfile := 0, datahandle := none } }) :
    wp completePrevious Q E s := by
  refine wp_bind.2 (wp_get.2 (wp_bind.2 (wp_completeFiles fun all os files ftags hfiles h => ?_)))
  refine wp_bind.2 (wp_modifyStream.2 (wp_onFail.2 (wp_check.2 ⟨fun _ => ?_, fun _ => ?_⟩)))
  · exact hQ os _ ftags (hfiles s.stream.curfile le_rfl) h
  · exact hE os _ ftags h

/-! ## Data objects -/

theorem wp_closeCurrentObj
    (hnone : s.stream.datahandle = none → Q () s)
    (hQ : ∀ h os, s.stream.datahandle = some h →
      Q () { s with
        outcomes := os, stream := { s.stream with datahandle := none }
        closed := fun i => i = h || s.closed i })
    (hE : ∀ os closed, (∀ i, s.closed i → closed i) →
      E { s with
        outcomes := os, stream := { s.stream with datahandle := none }, closed := closed }) :
    wp closeCurrentObj Q E s := by
  refine wp_bind.2 (wp_get.2 ?_)
  cases hhdl : s.stream.datahandle with
  | none => exact wp_pure.2 (hnone hhdl)
  | some h =>
    have hmono : ∀ i, s.closed i → (i = h || s.closed i : Bool) := by
      intro i hi
      simp [hi]
    refine wp_bind.2 (wp_outcome fun o os => wp_bind.2 (wp_modifyStream.2 ?_))
    match o with
    | none => exact wp_modify.2 (hQ h os hhdl)
    | some 0 => exact wp_fail.2 (hE os s.closed fun _ hi => hi)
    | some (n + 1) =>
      refine wp_bind.2 (wp_modify.2 (wp_call (fun os => hQ h os hhdl) fun os => ?_))
      exact hE os _ hmono

def closedAfter (s : Sys) (i : Nat) : Bool := s.stream.datahandle = some i || s.closed i

theorem wp_retireObject
    (hQ : ∀ os files ftags, files 0 = s.stream.cur → Completes s s.stream.curfile ftags →
      Q () { s with
        outcomes := os, ftags := ftags, closed := s.closedAfter
        stream := { s.stream with datahandle := none, files := files, curfile := 0 } })
    (hE : ∀ os closed ftags stream, (∀ i, s.closed i → closed i) →
      (ftags = s.ftags ∨ Completes s s.stream.curfile ftags ∧ closed = s.closedAfter) →
      E { s with
        live := false, outcomes := os, ftags := ftags, closed := closed, stream := stream }) :
    wp retireObject Q E s := by
  have hmono : ∀ i, s.closed i → s.closedAfter i := by
    intro i hi
    simp [closedAfter, hi]
  refine wp_bind.2 (wp_onFail.2 (wp_closeCurrentObj (fun hnone => ?_) (fun h os hh => ?_) ?_))
  · have hcl : s.closedAfter = s.closed := by
      funext i
      simp [closedAfter, hnone]
    refine wp_completePrevious (fun os files ftags hfiles hcomp => ?_) ?_
    · have hQ' := hQ os files ftags hfiles hcomp
      rw [hcl, ← hnone] at hQ'
      exact hQ'
    · intro os files ftags hcomp
      exact hE os s.closed ftags _ (fun _ hi => hi) (.inr ⟨hcomp, hcl.symm⟩)
  · have hcl : (fun i => (i = h : Bool) || s.closed i) = s.closedAfter := by
      funext i
      simp [closedAfter, hh, eq_comm]
    simp only [hcl]
    refine wp_completePrevious (fun os files ftags hfiles hcomp => ?_) ?_
    · exact hQ os files ftags hfiles hcomp
    · intro os files ftags hcomp
      exact hE os _ ftags _ hmono (.inr ⟨hcomp, rfl⟩)
  · intro os closed hcl
    exact hE os closed s.ftags _ hcl (.inl rfl)

theorem wp_neWrite {segment : List Char → Segment} {bytes : List Char} {Q : Nat → Sys → Prop}
    (hQ : ∀ h os n, s.stream.datahandle = some h → n ≤ bytes.length →
      Q n (append h (pieces segment (bytes.take n)) { s with outcomes := os }))
    (hE : ∀ os, E { s with outcomes := os }) : wp (neWrite segment bytes) Q E s := by
  refine wp_bind.2 (wp_outcome fun o os => wp_bind.2 (wp_get.2 ?_))
  cases hhdl : s.stream.datahandle with
  | none => exact wp_fail.2 (hE os)
  | some h =>
    have hn : (bytes.take (o.getD bytes.length)).length ≤ bytes.length := length_take_le' _ _
    have hQ' := hQ h os _ hhdl hn
    rw [length_take, ← take_eq_take_min] at hQ'
    rw [← length_take] at hQ'
    exact wp_bind.2 (wp_modify.2 (wp_pure.2 hQ'))

@[simp] theorem pieces_of_ne_nil {segment : List Char → Segment} {bytes : List Char}
    (h : bytes ≠ []) : pieces segment bytes = [segment bytes] := by simp [pieces, h]

def rewritten (s : Sys) (segments : List Segment) : Sys :=
  { s with
    objs := fun i => if i = s.stream.objno then segments else s.objs i
    closed := fun i => if i = s.stream.objno then false else s.closed i }

theorem wp_openHandle (hhdl : s.stream.datahandle = none)
    (hQ : ∀ os, s.stream.offset = s.stream.recoveryheaderlen →
      s.stream.header.length = s.stream.recoveryheaderlen →
      Q () { rewritten s [.header s.stream.header] with
        outcomes := os, stream := { s.stream with datahandle := some s.stream.objno } })
    (hcl : ∀ os, E { s with outcomes := os })
    (hE : ∀ os w, w.length ≤ s.stream.recoveryheaderlen →
      E { rewritten s (pieces .header w) with outcomes := os }) :
    wp openHandle Q E s := by
  have hE' : ∀ os w, w.length ≤ s.stream.recoveryheaderlen →
      E { rewritten s (pieces .header w) with
        outcomes := os, stream := { s.stream with datahandle := none } } := by
    intro os w hw
    have h := hE os w hw
    rw [← hhdl]
    exact h
  have hemp := fun os => hE' os [] (Nat.zero_le _)
  refine wp_bind.2 (wp_call (fun os => wp_bind.2 (wp_get.2 ?_)) hcl)
  refine wp_bind.2 (wp_modify.2 (wp_bind.2 (wp_onFail.2 (wp_check.2 ⟨?_, fun _ => hemp os⟩))))
  intro hoff
  refine wp_bind.2 (wp_onFail.2 (wp_check.2 ⟨?_, fun _ => hemp os⟩))
  intro hhdr
  have hlen : s.stream.header.length = s.stream.recoveryheaderlen := by simpa using hhdr
  refine wp_bind.2 (wp_onFail.2 (wp_neWrite (fun h os' n hh hn => ?_) fun os => ?_))
  · obtain rfl : s.stream.objno = h := by simpa using hh
    have hobjs : ∀ segments, (fun i => if i = s.stream.objno then
        (if i = s.stream.objno then [] else s.objs i) ++ segments else
        if i = s.stream.objno then [] else s.objs i) =
        fun i => if i = s.stream.objno then segments else s.objs i := by
      intro segments
      funext i
      split
      · exact nil_append _
      · rfl
    refine wp_onFail.2 (wp_check.2 ⟨fun hwrit => ?_, fun _ => ?_⟩)
    · have hn : n = s.stream.header.length := by simpa [hlen] using hwrit
      have h := hQ os' (by simpa using hoff) hlen
      simp only [append, hobjs, hn, take_length, pieces_of_ne_nil s.stream.header_ne_nil]
      exact h
    · have h := hE' os' (s.stream.header.take n) (by simp; omega)
      simp only [neAbort_snd, append, hobjs]
      exact h
  · exact hemp os

theorem wp_openCurrentObj {s : Sys}
    (hopen : ∀ os ftags, (ftags = s.ftags ∨ ftags = (store (sized s.stream.cur.ftag) s).ftags) →
      wp openHandle Q E { s with
        outcomes := os, ftags := ftags
        stream := s.stream.setFile s.stream.curfile
          { s.stream.cur with ftag := sized s.stream.cur.ftag } })
    (hE : ∀ os, E { s with outcomes := os })
    (hsized : ∀ os, E { s with
      outcomes := os
      stream := s.stream.setFile s.stream.curfile
        { s.stream.cur with ftag := sized s.stream.cur.ftag } }) :
    wp openCurrentObj Q E s := by
  refine wp_bind.2 (wp_call (fun os => wp_bind.2 (wp_get.2 ?_)) hE)
  refine wp_bind.2 (wp_modifyFtag.2 (wp_bind.2 (wp_putftag (fun os' => ?_) hsized)))
  simp only [Stream.type_setFile, Stream.files_setFile_self]
  split
  · exact hopen os' _ (.inr rfl)
  · exact hopen os' _ (.inl rfl)

/-- What opening an object leaves in place. -/
structure Opened (s s' : Sys) : Prop where
  ftag : s'.stream.cur.ftag = sized s.stream.cur.ftag
  header : s'.stream.recoveryheaderlen = s.stream.recoveryheaderlen
  curfile : s'.stream.curfile = s.stream.curfile
  objno : s'.stream.objno = s.stream.objno
  offset : s'.stream.offset = s.stream.offset
  handle : s'.stream.datahandle = some s.stream.objno

theorem openCurrentObj_spec (hhdl : s.stream.datahandle = none) :
    wp openCurrentObj (fun _ => Opened s) (fun _ => True) s := by
  have hcur := congrArg Streamfile.ftag (Stream.cur_setFile s.stream
    { s.stream.cur with ftag := sized s.stream.cur.ftag })
  refine wp_openCurrentObj (fun os ftags _ => ?_) (fun _ => trivial) fun _ => trivial
  refine wp_openHandle hhdl (fun os' _ _ => ?_) (fun _ => trivial) fun _ _ _ => trivial
  exact ⟨hcur, rfl, rfl, rfl, rfl, rfl⟩

theorem finfoBlock_length {finfo : RecoveryFinfo} {recoverybytes : Nat}
    (h : finfoLength finfo ≤ recoverybytes) : (finfoBlock finfo recoverybytes).length = recoverybytes := by
  unfold finfoLength at h
  simp only [finfoBlock, length_append, length_replicate]
  omega

theorem wp_putfinfo
    (hQ : ∀ h os finfo block, s.stream.datahandle = some h →
      block.length = s.stream.cur.ftag.recoverybytes → 0 < block.length →
      Q () (append h [.finfo s.stream.cur.ftag.fileno block] { s with
        outcomes := os
        stream := { s.stream with
          finfo := finfo, offset := s.stream.offset + s.stream.cur.ftag.recoverybytes } }))
    (hE : ∀ os finfo, E { s with outcomes := os, stream := { s.stream with finfo := finfo } })
    (hE' : ∀ h os finfo w, s.stream.datahandle = some h →
      w.length ≤ s.stream.cur.ftag.recoverybytes →
      E (append h (pieces (.finfo s.stream.cur.ftag.fileno) w) { s with
        outcomes := os, stream := { s.stream with finfo := finfo } })) :
    wp putfinfo Q E s := by
  refine wp_bind.2 (wp_get.2 (wp_bind.2 (wp_modifyStream.2 (wp_bind.2 (wp_check.2 ?_)))))
  have hE₁ := fun os => hE os (if s.stream.type = .repack then s.stream.finfo else
    { s.stream.finfo with size := s.stream.cur.ftag.bytes })
  refine ⟨fun hfits => ?_, fun _ => hE₁ s.outcomes⟩
  have hlen := finfoBlock_length (of_decide_eq_true hfits)
  refine wp_bind.2 (wp_neWrite (fun h os n hh hn => ?_) hE₁)
  refine wp_bind.2 (wp_check.2 ⟨fun hwrit => ?_, fun _ => ?_⟩)
  · have hn' := (of_decide_eq_true hwrit).trans hlen.symm
    have hpos := finfoLength_pos { s.stream.finfo with size := s.stream.cur.ftag.bytes }
    have hpos' := lt_of_lt_of_le hpos (of_decide_eq_true hfits)
    rw [← hlen] at hpos'
    rw [hn', take_length, pieces_of_ne_nil (ne_nil_of_length_pos hpos')]
    exact wp_modifyStream.2 (hQ h os _ _ hh hlen hpos')
  · exact hE' h os _ _ hh (by rw [length_take, hlen]; omega)

/-! ## The end of a file -/

def finished (stream : Stream) : Stream :=
  stream.setFile stream.curfile { stream.cur with ftag := finalized stream.cur.ftag }

theorem wp_finishData
    (hskip : s.stream.datahandle = none →
      Q () { s with stream := finished { s.stream with
        objno := s.stream.objno + 1, offset := s.stream.recoveryheaderlen } })
    (hQ : ∀ h os finfo block, s.stream.datahandle = some h →
      block.length = s.stream.cur.ftag.recoverybytes → 0 < block.length →
      Q () (append h [.finfo s.stream.cur.ftag.fileno block] { s with
        outcomes := os
        stream := finished { s.stream with
          finfo := finfo, offset := s.stream.offset + s.stream.cur.ftag.recoverybytes } }))
    (hE : ∀ os finfo, E { s with outcomes := os, stream := { s.stream with finfo := finfo } })
    (hE' : ∀ h os finfo w, s.stream.datahandle = some h →
      w.length ≤ s.stream.cur.ftag.recoverybytes →
      E (append h (pieces (.finfo s.stream.cur.ftag.fileno) w) { s with
        outcomes := os, stream := { s.stream with finfo := finfo } })) :
    wp finishData Q E s := by
  refine wp_bind.2 (wp_bind.2 (wp_get.2 (wp_ite.2 ⟨fun _ => ?_, fun hnone => ?_⟩)))
  · refine wp_bind.2 (wp_modifyStream.2 (wp_onFail.2 (wp_putfinfo ?_ ?_ ?_)))
    · intro h os finfo block hh hlen hpos
      exact wp_bind.2 (wp_get.2 (wp_modifyFtag.2 (hQ h os finfo block hh hlen hpos)))
    · intro os finfo
      exact hE os _
    · intro h os finfo w hh hw
      exact hE' h os _ w hh hw
  · refine wp_modifyStream.2 (wp_bind.2 (wp_get.2 (wp_modifyFtag.2 ?_)))
    exact hskip (by simpa using hnone)

theorem wp_finfile (hsize : E s) (hdone : s.stream.cur.ftag.unfinalized = false → Q () s)
    (hopen : s.stream.cur.ftag.unfinalized → s.stream.cur.ftag.bytes = 0 →
      s.stream.datahandle = none → wp openCurrentObj (fun _ => wp finishData Q E) E s)
    (hfinish : s.stream.cur.ftag.unfinalized →
      (s.stream.cur.ftag.bytes = 0 → s.stream.datahandle ≠ none) → wp finishData Q E s) :
    wp finfile Q E s := by
  refine wp_bind.2 (wp_get.2 (wp_bind.2 (wp_check.2 ⟨fun _ => ?_, fun _ => hsize⟩)))
  refine wp_ite.2 ⟨fun hunfin => ?_, fun hfinal => ?_⟩
  · refine wp_bind.2 (wp_bind.2 (wp_get.2 (wp_ite.2 ⟨fun hemp => ?_, fun hdata => ?_⟩)))
    · exact hopen hunfin hemp.1 hemp.2
    · exact wp_pure.2 (hfinish hunfin fun hbytes hhdl => hdata ⟨hbytes, hhdl⟩)
  · exact wp_pure.2 (hdone (by simpa using hfinal))

/-! ## New files -/

structure Placed (stream : Stream) (ftag : Ftag) : Prop where
  fits : stream.scheme.objsize = 0 ∨
    stream.recoveryheaderlen + ftag.recoverybytes < stream.scheme.objsize
  place : ftag = stream.newFtag ftag.recoverybytes ∧ (stream.scheme.objsize = 0 ∨
      ftag.recoverybytes ≤ SizeT.sub stream.scheme.objsize stream.offset) ∨
    ftag = { stream.newFtag ftag.recoverybytes with
      objno := stream.objno + 1, offset := stream.recoveryheaderlen }

/-- Placing a file computes the room that is left only where the stream is within its object. -/
def Unwrapped (s : Sys) (wrapped : Bool) : Prop :=
  (s.stream.recoveryheaderlen < s.stream.scheme.objsize →
    s.stream.offset ≤ s.stream.scheme.objsize) → wrapped = s.wrapped

theorem wp_placeFile {recoverybytes : Nat} {Q : Ftag → Sys → Prop}
    (hstr : s.stream.recoveryheaderlen = stream.recoveryheaderlen ∧
      s.stream.offset = stream.offset)
    (hsch : s.stream.scheme = stream.scheme)
    (hQ : ∀ ftag wrapped, Placed stream ftag → Unwrapped s wrapped →
      Q ftag { s with wrapped := wrapped })
    (hE : E s) :
    wp (placeFile (stream.newFtag recoverybytes)) Q E s := by
  refine wp_bind.2 (wp_get.2 (wp_bind.2 (wp_check.2 ⟨fun hfits => ?_, fun _ => hE⟩)))
  have hfits' : stream.scheme.objsize = 0 ∨
      stream.recoveryheaderlen + recoverybytes < stream.scheme.objsize := by
    rw [← hstr.1]
    exact (Bool.or_eq_true_iff.1 hfits).imp of_decide_eq_true of_decide_eq_true
  -- the file stays where the stream is, or starts the next object
  have hplc : ∀ full wrapped, (full = false → stream.scheme.objsize = 0 ∨
      recoverybytes ≤ SizeT.sub stream.scheme.objsize stream.offset) → Unwrapped s wrapped →
      wp (if full || ((stream.newFtag recoverybytes).objfiles ≠ 0 &&
          decide (s.stream.curfile ≥ (stream.newFtag recoverybytes).objfiles)) then
        pure { stream.newFtag recoverybytes with
          objno := (stream.newFtag recoverybytes).objno + 1, offset := s.stream.recoveryheaderlen }
        else pure (stream.newFtag recoverybytes)) Q E { s with wrapped := wrapped } := by
    intro full wrapped hroom hwrap
    refine wp_ite.2 ⟨fun _ => wp_pure.2 ?_, fun hstay => wp_pure.2 ?_⟩
    · rw [hstr.1]
      exact hQ _ wrapped ⟨hfits', .inr rfl⟩ hwrap
    · have hfull : full = false := by
        rw [Bool.or_eq_true, not_or] at hstay
        simpa using hstay.1
      exact hQ _ wrapped ⟨hfits', .inl ⟨rfl, hroom hfull⟩⟩ hwrap
  refine wp_bind.2 (wp_bind.2 (wp_get.2 (wp_ite.2 ⟨fun hzero => wp_pure.2 ?_, fun hpos => ?_⟩)))
  · exact hplc false s.wrapped (fun _ => .inl hzero) fun _ => rfl
  · refine wp_bind.2 (wp_space.2 (wp_pure.2 (hplc _ _ (fun hroom => .inr ?_) fun hin => ?_)))
    · rw [← hstr.2]
      exact Nat.le_of_not_lt (of_decide_eq_false hroom)
    · -- the room is computed only where the recovery info fits an object
      have hlt : s.stream.recoveryheaderlen < s.stream.scheme.objsize := by
        rw [hstr.1, hsch]
        have hpos' : stream.scheme.objsize ≠ 0 := hpos
        omega
      have hle := hin hlt
      rw [hsch] at hle
      have hfalse : decide ((stream.newFtag recoverybytes).objsize < s.stream.offset) = false :=
        decide_eq_false (Nat.not_lt.2 hle)
      rw [hfalse, Bool.or_false]

def Enters (s s' : Sys) : Prop :=
  ∃ outcomes ftags wrapped ftag finfo, Placed s.stream ftag ∧ Unwrapped s wrapped ∧
    (ftags = s.ftags ∨ ftags = (store ftag s).ftags) ∧
    s' = { s with
      outcomes := outcomes, ftags := ftags, wrapped := wrapped
      stream := s.stream.enter { metahandle := true, ftag := ftag } finfo }

def Refuses (s s' : Sys) : Prop :=
  ∃ outcomes ftags wrapped finfo, Unwrapped s wrapped ∧
    (∀ k, ftags k = s.ftags k ∨ k = s.stream.fileno ∧
      (ftags k = none ∨ ∃ ftag, Placed s.stream ftag ∧ ftags k = some ftag)) ∧
    s' = { s with
      outcomes := outcomes, ftags := ftags, wrapped := wrapped
      stream := { s.stream with finfo := finfo } }

theorem Placed.fileno_eq (h : Placed stream ftag) : ftag.fileno = stream.fileno := by
  rcases h.place with ⟨h, -⟩ | h
  · rw [h]
    rfl
  · rw [h]
    rfl

theorem Placed.position (h : Placed stream ftag) :
    ftag.objno = stream.objno ∧ ftag.offset = stream.offset ∧ (stream.scheme.objsize = 0 ∨
      ftag.recoverybytes ≤ SizeT.sub stream.scheme.objsize stream.offset) ∨
    ftag.objno = stream.objno + 1 ∧ ftag.offset = stream.recoveryheaderlen := by
  rcases h.place with ⟨heq, hroom⟩ | heq
  · refine .inl ⟨?_, ?_, hroom⟩
    · rw [heq]
      rfl
    · rw [heq]
      rfl
  · refine .inr ⟨?_, ?_⟩
    · rw [heq]
    · rw [heq]

theorem Placed.empty (h : Placed stream ftag) :
    ftag.bytes = 0 ∧ ftag.objsize = stream.scheme.objsize ∧
      headerlen ftag = stream.header.length ∧
      ftag.state = { data := .init, writeable := false, readable := false } := by
  rcases h.place with ⟨heq, -⟩ | heq
  · rw [heq]
    exact ⟨rfl, rfl, rfl, rfl⟩
  · rw [heq]
    exact ⟨rfl, rfl, rfl, rfl⟩

theorem createNewFile_spec (path : List Char) (stat : FileStat) (s : Sys) :
    wp (createNewFile path stat) (fun _ => Enters s) (Refuses s) s := by
  have hrefuse : ∀ os, Refuses s { s with outcomes := os } := fun os =>
    ⟨os, s.ftags, s.wrapped, s.stream.finfo, fun _ => rfl, fun _ => .inl rfl, rfl⟩
  -- the reference is removed where it can be
  have hunlink : ∀ os ftags wrapped, Unwrapped s wrapped →
      (ftags = s.ftags ∨ ∃ ftag, Placed s.stream ftag ∧ ftags = (store ftag s).ftags) →
      Refuses s (unlinkref s.stream.fileno { s with
        outcomes := os, ftags := ftags, wrapped := wrapped }).2 := by
    intro os ftags wrapped hwrap hfts
    have hk : ∀ k, ftags k = s.ftags k ∨ k = s.stream.fileno ∧
        (ftags k = none ∨ ∃ ftag, Placed s.stream ftag ∧ ftags k = some ftag) := by
      intro k
      rcases hfts with rfl | ⟨ftag, hplcd, rfl⟩
      · exact .inl rfl
      · by_cases hfno : k = ftag.fileno
        · refine .inr ⟨hfno.trans hplcd.fileno_eq, .inr ⟨ftag, hplcd, ?_⟩⟩
          simp [store, hfno]
        · exact .inl (by simp [store, hfno])
    refine wp_snd (wp_unlinkref (fun os' => ?_) fun os' => ?_)
    · exact ⟨os', ftags, wrapped, s.stream.finfo, hwrap, hk, rfl⟩
    · refine ⟨os', _, wrapped, s.stream.finfo, hwrap, fun k => ?_, rfl⟩
      by_cases hfno : k = s.stream.fileno
      · exact .inr ⟨hfno, .inl (by simp [hfno])⟩
      · simpa [hfno] using hk k
  refine wp_bind.2 (wp_get.2 (wp_bind.2 (wp_call (fun os₁ => ?_) hrefuse)))
  refine wp_bind.2 (wp_call (fun os₂ => ?_) hrefuse)
  refine wp_onFail.2 (wp_bind.2 (wp_call (fun os₃ => ?_) fun os => ?_))
  swap
  · exact hunlink os _ _ (fun _ => rfl) (.inl rfl)
  refine wp_bind.2 (wp_placeFile ⟨rfl, rfl⟩ rfl (fun ftag wrapped hplcd hwrap => ?_) ?_)
  · refine wp_bind.2 (wp_call (fun os₄ => ?_) fun os => ?_)
    · refine wp_bind.2 (wp_modify.2 (wp_bind.2 (wp_call (fun os => ?_) fun os => ?_)))
      · exact wp_modifyStream.2 ⟨os, _, wrapped, ftag, _, hplcd, hwrap, .inr rfl, rfl⟩
      · exact hunlink os _ _ hwrap (.inr ⟨ftag, hplcd, rfl⟩)
    · exact hunlink os _ _ hwrap (.inl rfl)
  · exact hunlink os₃ _ _ (fun _ => rfl) (.inl rfl)

theorem openRepackFile_spec (path : List Char) (stat : FileStat) (s : Sys) :
    wp (openRepackFile path stat) (fun _ => Enters s) (Refuses s) s := by
  have hrefuse : ∀ os wrapped finfo, Unwrapped s wrapped → Refuses s { s with
      outcomes := os, wrapped := wrapped, stream := { s.stream with finfo := finfo } } :=
    fun os wrapped finfo hwrap => ⟨os, s.ftags, wrapped, finfo, hwrap, fun _ => .inl rfl, rfl⟩
  have hearly : ∀ os, Refuses s { s with outcomes := os } := fun os =>
    hrefuse os s.wrapped s.stream.finfo fun _ => rfl
  refine wp_bind.2 (wp_get.2 (wp_bind.2 (wp_call (fun os₁ => ?_) hearly)))
  refine wp_bind.2 (wp_call (fun os₂ => wp_bind.2 (wp_call (fun os₃ => ?_) hearly)) hearly)
  refine wp_bind.2 (wp_call (fun os₄ => wp_bind.2 (wp_call (fun os₅ => ?_) hearly)) hearly)
  refine wp_bind.2 (wp_modifyStream.2 (wp_bind.2 ?_))
  refine wp_placeFile ⟨rfl, rfl⟩ rfl (fun ftag wrapped hplcd hwrap => ?_)
    (hrefuse os₅ _ _ fun _ => rfl)
  have hlate := fun os => hrefuse os wrapped (stat.finfo stat.size path) hwrap
  refine wp_bind.2 (wp_call (fun os₆ => wp_bind.2 (wp_call (fun os₇ => ?_) hlate)) hlate)
  refine wp_bind.2 (wp_call (fun os₈ => wp_bind.2 (wp_call (fun os₉ => ?_) hlate)) hlate)
  exact wp_modifyStream.2 ⟨os₉, s.ftags, wrapped, ftag, _, hplcd, hwrap, .inl rfl, rfl⟩

/-! ## Positions -/

structure Roomy (stream : Stream) : Prop where
  objsize_lt : stream.cur.ftag.objsize < SizeT.modulus
  info_le : stream.cur.ftag.recoverybytes + stream.recoveryheaderlen ≤ stream.cur.ftag.objsize
  start_ge : stream.recoveryheaderlen ≤ stream.cur.ftag.offset
  start_le : stream.cur.ftag.objno < stream.objno →
    stream.cur.ftag.offset + stream.cur.ftag.recoverybytes ≤ stream.cur.ftag.objsize
  offset_ge : stream.recoveryheaderlen ≤ stream.offset

/-- The data bytes an object of the current file has room for. -/
def dataPerObj (stream : Stream) : Nat :=
  SizeT.sub stream.cur.ftag.objsize (stream.cur.ftag.recoverybytes + stream.recoveryheaderlen)

theorem Roomy.dataPerObj_eq (h : Roomy stream) :
    dataPerObj stream = stream.cur.ftag.objsize -
      (stream.cur.ftag.recoverybytes + stream.recoveryheaderlen) :=
  SizeT.sub_of_le h.info_le h.objsize_lt

theorem wp_gettargets {offset : Nat} {whence : Whence} {Q : Position → Sys → Prop}
    (hQ : ∀ pos wrapped, pos.dataperobj = dataPerObj s.stream →
      (Roomy s.stream → wrapped = s.wrapped) → Q pos { s with wrapped := wrapped })
    (hE : ∀ wrapped, (Roomy s.stream → wrapped = s.wrapped) → E { s with wrapped := wrapped }) :
    wp (gettargets offset whence) Q E s := by
  -- what follows the conversion of the offset only looks
  have hrest : ∀ dataperobj minoffset offset wrapped, dataperobj = dataPerObj s.stream →
      (Roomy s.stream → wrapped = s.wrapped) →
      wp (do
        Op.check (offset < offMax)
        Op.check (offset ≤ s.stream.filesize || s.stream.type = .create || s.stream.type = .repack)
        pure (s.stream.position dataperobj minoffset offset) : Op Sys Position) Q E
        { s with wrapped := wrapped } := by
    intro dataperobj minoffset offset wrapped hdata hwrap
    refine wp_bind.2 (wp_check.2 ⟨fun _ => ?_, fun _ => hE wrapped hwrap⟩)
    refine wp_bind.2 (wp_check.2 ⟨fun _ => wp_pure.2 ?_, fun _ => hE wrapped hwrap⟩)
    exact hQ _ wrapped hdata hwrap
  have hfalse : ∀ {a b : Nat}, b ≤ a → decide (a < b) = false := fun h =>
    decide_eq_false (Nat.not_lt.2 h)
  refine wp_bind.2 (wp_get.2 (wp_bind.2 (wp_space.2 (wp_bind.2 (wp_space.2 (wp_bind.2 ?_))))))
  have hfst : Roomy s.stream → ((s.wrapped || decide (s.stream.cur.ftag.objsize <
      s.stream.cur.ftag.recoverybytes + s.stream.recoveryheaderlen)) ||
      decide (s.stream.cur.ftag.offset < s.stream.recoveryheaderlen)) = s.wrapped := by
    intro hroomy
    rw [hfalse hroomy.info_le, hfalse hroomy.start_ge, Bool.or_false, Bool.or_false]
  cases whence with
  | set => exact wp_pure.2 (hrest _ _ _ _ rfl hfst)
  | «end» => exact wp_bind.2 (wp_get.2 (wp_pure.2 (hrest _ _ _ _ rfl hfst)))
  | cur =>
    have hused : ∀ wrapped Q', (∀ n w, (Roomy s.stream → w = wrapped) → Q' n { s with wrapped := w }) →
        wp usedData Q' E { s with wrapped := wrapped } := by
      intro wrapped Q' hQ'
      refine wp_bind.2 (wp_get.2 (wp_ite.2 ⟨fun _ => wp_space.2 (hQ' _ _ fun hroomy => ?_), ?_⟩))
      · simp only [hfalse hroomy.offset_ge, Bool.or_false]
      · exact fun _ => wp_pure.2 (hQ' _ _ fun _ => rfl)
    refine wp_bind.2 (wp_get.2 (wp_bind.2 (wp_bind.2 (wp_get.2 (wp_ite.2 ⟨fun hbeyond => ?_, ?_⟩)))))
    · refine wp_bind.2 (wp_space.2 (wp_bind.2 (hused _ _ fun n w hw => ?_)))
      refine wp_pure.2 (wp_pure.2 (hrest _ _ _ _ rfl fun hroomy => (hw hroomy).trans ?_))
      have hmin : SizeT.sub s.stream.cur.ftag.offset s.stream.recoveryheaderlen ≤
          dataPerObj s.stream := by
        have hst := hroomy.start_le hbeyond
        have hlt := hroomy.objsize_lt
        rw [hroomy.dataPerObj_eq, SizeT.sub_of_le hroomy.start_ge (by omega)]
        omega
      unfold dataPerObj at hmin
      simp only [hfst hroomy, hfalse hmin, Bool.or_false]
    · intro _
      refine wp_bind.2 (hused _ _ fun n w hw => ?_)
      refine wp_pure.2 (wp_pure.2 (hrest _ _ _ _ rfl fun hroomy => ?_))
      exact (hw hroomy).trans (hfst hroomy)

/-! ## Changing the tag of the current file -/

def retagged (f : Ftag → Ftag) (stream : Stream) : Stream :=
  stream.setFile stream.curfile { stream.cur with ftag := f stream.cur.ftag }

@[simp] theorem cur_retagged (f : Ftag → Ftag) (stream : Stream) :
    (retagged f stream).cur = { stream.cur with ftag := f stream.cur.ftag } :=
  Stream.cur_setFile _ _

theorem retagged_retagged (f g : Ftag → Ftag) (stream : Stream) :
    retagged g (retagged f stream) = retagged (g ∘ f) stream := by
  have hcur := cur_retagged f stream
  unfold retagged at hcur ⊢
  rw [hcur]
  exact Stream.setFile_setFile _ _ _ _

theorem retagged_id (h : f stream.cur.ftag = stream.cur.ftag) : retagged f stream = stream := by
  unfold retagged
  rw [h]
  exact Stream.setFile_self stream stream.curfile

theorem wp_setrecoverypath {path : List Char} (hE : ∀ os, E { s with outcomes := os })
    (hQ : s.stream.cur.ftag.bytes = 0 → ∀ os ftags finfo,
      finfo = { s.stream.finfo with path := path } →
      (ftags = s.ftags ∨ ftags = (store (withRecoverybytes (finfoLength finfo)
        s.stream.cur.ftag) s).ftags) →
      Q () { s with
        outcomes := os, ftags := ftags
        stream := retagged (withRecoverybytes (finfoLength finfo)) (s.stream.setFinfo finfo) }) :
    wp (datastreamSetrecoverypath path) Q E s := by
  have hE₀ : E s := hE s.outcomes
  refine wp_bind.2 (wp_get.2 (wp_bind.2 (wp_check.2 ⟨fun _ => ?_, fun _ => hE₀⟩)))
  refine wp_bind.2 (wp_check.2 ⟨fun hemp => ?_, fun _ => hE₀⟩)
  have hQ' := fun os ftags => hQ (of_decide_eq_true hemp) os ftags _ rfl
  refine wp_bind.2 (wp_modifyStream.2 (wp_bind.2 (wp_modifyFtag.2 (wp_onFail.2 ?_))))
  generalize { s.stream.finfo with path := path } = finfo at hQ' ⊢
  refine wp_putftag (fun os => ?_) fun os => ?_
  · have hcur := congrArg Streamfile.ftag
      (cur_retagged (withRecoverybytes (finfoLength finfo)) (s.stream.setFinfo finfo))
    split
    · exact hQ' os _ (.inr (congrArg (fun ftag => (store ftag s).ftags) hcur))
    · exact hQ' os _ (.inl rfl)
  · -- the tag and the recovery info are as they were
    have hback : Stream.setFinfo s.stream.finfo
        (retagged (withRecoverybytes s.stream.cur.ftag.recoverybytes)
          (retagged (withRecoverybytes (finfoLength finfo)) (s.stream.setFinfo finfo))) =
        s.stream := by
      have hstr : Stream.setFinfo s.stream.finfo (s.stream.setFinfo finfo) = s.stream := rfl
      rw [retagged_retagged]
      conv_rhs => rw [← hstr]
      exact congrArg _ (retagged_id rfl)
    have hE' := hE os
    rw [← hback] at hE'
    exact hE'

theorem wp_resize {length : Nat}
    (hE : ∀ wrapped, (Roomy s.stream → wrapped = s.wrapped) → E { s with wrapped := wrapped })
    (hdead : ∀ os wrapped stream, (Roomy s.stream → wrapped = s.wrapped) →
      E { s with live := false, outcomes := os, wrapped := wrapped, stream := stream })
    (hQ : ∀ os ftags wrapped independentobjs dataperobj,
      (Roomy s.stream → wrapped = s.wrapped) →
      (ftags = s.ftags ∨ ftags = (store (extended independentobjs dataperobj
        (withBytes length s.stream.cur.ftag)) s).ftags) →
      Q () { s with
        outcomes := os, ftags := ftags, wrapped := wrapped
        stream := retagged (extended independentobjs dataperobj ∘ withBytes length) s.stream }) :
    wp (resize length) Q E s := by
  have hroomy : Roomy s.stream → Roomy (retagged (withBytes length) s.stream) := by
    intro h
    refine ⟨?_, ?_, ?_, ?_, h.offset_ge⟩
    all_goals rw [cur_retagged]
    · exact h.objsize_lt
    · exact h.info_le
    · exact h.start_ge
    · exact h.start_le
  have hrestore : ∀ wrapped, (Roomy (retagged (withBytes length) s.stream) → wrapped = s.wrapped) →
      E (modifyFtag s.stream.curfile (withBytes s.stream.cur.ftag.bytes) { s with
        wrapped := wrapped, stream := retagged (withBytes length) s.stream }).2 := by
    intro wrapped hwrap
    have hback : retagged (withBytes s.stream.cur.ftag.bytes)
        (retagged (withBytes length) s.stream) = s.stream := by
      rw [retagged_retagged]
      exact retagged_id rfl
    have hE' := hE wrapped fun h => hwrap (hroomy h)
    rw [← hback] at hE'
    exact hE'
  refine wp_bind.2 (wp_get.2 (wp_bind.2 (wp_modifyFtag.2 (wp_bind.2 (wp_onFail.2 ?_)))))
  refine wp_gettargets (fun pos wrapped _ hw => ?_) hrestore
  refine wp_bind.2 (wp_onFail.2 (wp_check.2 ⟨fun _ => ?_, fun _ => hrestore wrapped hw⟩))
  have hw' : Roomy s.stream → wrapped = s.wrapped := fun h => hw (hroomy h)
  refine wp_bind.2 (wp_modifyFtag.2 (wp_onFail.2 (wp_putftag (fun os => ?_) fun os => ?_)))
  · have hset : ∀ independentobjs dataperobj ftags, (ftags = s.ftags ∨ ftags = (store
        (retagged (extended independentobjs dataperobj)
          (retagged (withBytes length) s.stream)).cur.ftag s).ftags) → Q () { s with
        outcomes := os, ftags := ftags, wrapped := wrapped
        stream := retagged (extended independentobjs dataperobj)
          (retagged (withBytes length) s.stream) } := by
      intro independentobjs dataperobj ftags hfts
      rw [retagged_retagged] at hfts ⊢
      rw [cur_retagged] at hfts
      exact hQ os ftags wrapped independentobjs dataperobj hw' hfts
    split
    · exact hset _ _ _ (.inr rfl)
    · exact hset _ _ _ (.inl rfl)
  · exact hdead os wrapped _ hw'

/-! ## Writing -/

/-- The stream may write its current file, `dataperobj` bytes to an object. -/
structure Writing (dataperobj : Nat) (s : Sys) : Prop where
  room : dataPerObj s.stream = dataperobj
  unfinalized : s.stream.cur.ftag.unfinalized
  writeable : s.stream.cur.ftag.state.writeable = false

def roomLeft (dataperobj : Nat) (stream : Stream) : Nat :=
  SizeT.sub dataperobj (SizeT.sub stream.offset stream.recoveryheaderlen)

def wrote (bytes : List Char) (s : Sys) : Stream :=
  { s.stream.setFile s.stream.curfile
      { s.stream.cur with
        ftag := { s.stream.cur.ftag with bytes := s.stream.cur.ftag.bytes + bytes.length } } with
    offset := s.stream.offset + bytes.length }

@[simp] theorem sized_unfinalized (ftag : Ftag) : (sized ftag).unfinalized = ftag.unfinalized := by
  unfold Ftag.unfinalized sized
  cases ftag.state.data <;> rfl

theorem Writing.congr {s' : Sys} (hs : Writing dataperobj s)
    (hhdr : s'.stream.recoveryheaderlen = s.stream.recoveryheaderlen)
    (hcur : s'.stream.cur.ftag = s.stream.cur.ftag ∨
      s'.stream.cur.ftag = sized s.stream.cur.ftag) : Writing dataperobj s' := by
  have hroom := hs.room
  have hunfin := hs.unfinalized
  have hwr := hs.writeable
  unfold dataPerObj at hroom
  rcases hcur with hcur | hcur
  · refine ⟨?_, ?_, ?_⟩
    · rw [dataPerObj, hhdr, hcur, hroom]
    · rw [hcur, hunfin]
    · rw [hcur, hwr]
  · refine ⟨?_, ?_, ?_⟩
    · rw [dataPerObj, hhdr, hcur]
      exact hroom
    · rw [hcur, sized_unfinalized, hunfin]
    · rw [hcur]
      exact hwr

theorem openCurrentObj_writing (hs : Writing dataperobj s) (hhdl : s.stream.datahandle = none) :
    wp openCurrentObj (fun _ s' => Writing dataperobj s' ∧
      roomLeft dataperobj s'.stream = roomLeft dataperobj s.stream) (fun _ => True) s := by
  refine wp_mono (openCurrentObj_spec hhdl) (fun _ s' hopen => ⟨?_, ?_⟩) fun _ h => h
  · exact hs.congr hopen.header (.inr hopen.ftag)
  · rw [roomLeft, roomLeft, hopen.offset, hopen.header]

theorem nextObject_writing (hs : Writing dataperobj s) :
    wp nextObject (fun _ s' => Writing dataperobj s' ∧
      s'.stream.offset = s'.stream.recoveryheaderlen) (fun _ => True) s := by
  -- nothing on the way touches the current file
  have hleav : ∀ s', s'.stream.recoveryheaderlen = s.stream.recoveryheaderlen →
      s'.stream.cur = s.stream.cur →
      wp leaveObject (fun _ s' => Writing dataperobj s' ∧
        s'.stream.offset = s'.stream.recoveryheaderlen) (fun _ => True) s' := by
    intro s' hhdr hcur
    refine wp_bind.2 (wp_retireObject (fun os files ftags hfiles _ => ?_) ?_)
    · refine wp_modifyStream.2 ⟨hs.congr hhdr (.inl ?_), rfl⟩
      exact congrArg Streamfile.ftag (hfiles.trans hcur)
    · exact fun _ _ _ _ _ _ => trivial
  refine wp_bind.2 (wp_bind.2 (wp_get.2 (wp_ite.2 ⟨fun _ => ?_, fun _ => ?_⟩)))
  · refine wp_onFail.2 (wp_putfinfo (fun h os finfo block _ _ _ => ?_) (fun _ _ => trivial) ?_)
    · exact hleav _ rfl rfl
    · exact fun _ _ _ _ _ _ => trivial
  · exact wp_pure.2 (hleav s rfl rfl)

/-- What an invariant of a stream has to stand for `datastream_write` to keep it: `I` holds between
the calls on a stream, and `P` where a call failed. -/
structure WriteRules (I P : Sys → Prop) : Prop where
  weaken : ∀ s, I s → P s
  io : ∀ s os, I s → I { s with outcomes := os }
  targets : ∀ s wrapped, I s → (Roomy s.stream → wrapped = s.wrapped) → I { s with wrapped := wrapped }
  room : ∀ s dataperobj, I s → Writing dataperobj s → I { s with
    wrapped := (s.wrapped || decide (s.stream.offset < s.stream.recoveryheaderlen)) ||
      decide (dataperobj < SizeT.sub s.stream.offset s.stream.recoveryheaderlen) }
  turn : ∀ s dataperobj, I s → Writing dataperobj s → roomLeft dataperobj s.stream = 0 →
    wp nextObject (fun _ => I) P s
  opens : ∀ s dataperobj, I s → Writing dataperobj s → s.stream.datahandle = none →
    wp openCurrentObj (fun _ => I) I s
  data : ∀ s dataperobj h bytes, I s → Writing dataperobj s → s.stream.datahandle = some h →
    bytes ≠ [] → bytes.length ≤ roomLeft dataperobj s.stream →
    I (append h [.data s.stream.cur.ftag.fileno bytes] { s with stream := wrote bytes s })

theorem append_nil (h : Nat) (s : Sys) : append h [] s = s := by
  have hobjs : (fun i => if i = h then s.objs i ++ [] else s.objs i) = s.objs := by
    funext i
    simp
  simp only [append, hobjs]

theorem dataPerObj_lt (stream : Stream) : dataPerObj stream < SizeT.modulus :=
  Nat.mod_lt _ SizeT.modulus_pos

theorem roomLeft_start (hdata : dataperobj < SizeT.modulus) (h : stream.offset = stream.recoveryheaderlen) :
    roomLeft dataperobj stream = dataperobj := by
  rw [roomLeft, h, SizeT.sub_self, SizeT.sub_of_le (Nat.zero_le _) hdata, Nat.sub_zero]

theorem cur_wrote (bytes : List Char) (s : Sys) : (wrote bytes s).cur =
    { s.stream.cur with
      ftag := { s.stream.cur.ftag with bytes := s.stream.cur.ftag.bytes + bytes.length } } :=
  Stream.files_setFile_self _ _ _

theorem Writing.wrote (hs : Writing dataperobj s) (h : Nat) (segments : List Segment) (bytes : List Char) :
    Writing dataperobj (append h segments { s with stream := wrote bytes s }) := by
  have hcur : (append h segments { s with stream := Sys.wrote bytes s }).stream.cur = _ :=
    cur_wrote bytes s
  refine ⟨?_, ?_, ?_⟩
  · rw [dataPerObj, hcur]
    exact hs.room
  · rw [hcur]
    exact hs.unfinalized
  · rw [hcur]
    exact hs.writeable

namespace WriteRules

variable {I P : Sys → Prop} {dataperobj : Nat}

theorem findRoom (rules : WriteRules I P) (hdata : dataperobj < SizeT.modulus) (hI : I s)
    (hs : Writing dataperobj s) :
    wp (findRoom dataperobj) (fun towrite s' => I s' ∧ Writing dataperobj s' ∧
      towrite = roomLeft dataperobj s'.stream) P s := by
  have hI' := rules.room s dataperobj hI hs
  have hs' : Writing dataperobj { s with
      wrapped := (s.wrapped || decide (s.stream.offset < s.stream.recoveryheaderlen)) ||
        decide (dataperobj < SizeT.sub s.stream.offset s.stream.recoveryheaderlen) } :=
    ⟨hs.room, hs.unfinalized, hs.writeable⟩
  refine wp_bind.2 (wp_get.2 (wp_bind.2 (wp_space.2 (wp_bind.2 (wp_space.2 (wp_ite.2 ?_))))))
  refine ⟨fun hzero => ?_, fun _ => wp_pure.2 ⟨hI', hs', rfl⟩⟩
  refine wp_bind.2 (wp_mono (wp_and (rules.turn _ dataperobj hI' hs' hzero)
    (nextObject_writing hs')) ?_ fun _ h => h.1)
  intro _ s' ⟨hI₁, hs₁, hoff⟩
  exact wp_pure.2 ⟨hI₁, hs₁, (roomLeft_start hdata hoff).symm⟩

theorem openNeeded (rules : WriteRules I P) (hI : I s) (hs : Writing dataperobj s) :
    wp openNeeded (fun opened s' => I s' ∧ (opened.isSome → Writing dataperobj s' ∧
      roomLeft dataperobj s'.stream = roomLeft dataperobj s.stream)) P s := by
  refine wp_bind.2 (wp_get.2 (wp_ite.2 ⟨fun hnone => wp_attempt.2 ?_, fun _ => wp_pure.2 ?_⟩))
  · have hnone' : s.stream.datahandle = none := by simpa using hnone
    refine wp_mono (wp_and (rules.opens s dataperobj hI hs hnone')
      (openCurrentObj_writing hs hnone')) ?_ ?_
    · intro _ s' ⟨hI', hs', hroom⟩
      exact ⟨hI', fun _ => ⟨hs', hroom⟩⟩
    · intro s' ⟨hI', _⟩
      exact ⟨hI', fun h => by simp at h⟩
  · exact ⟨hI, fun _ => ⟨hs, rfl⟩⟩

theorem shortWrite (rules : WriteRules I P) (hI : I s) (writtenbytes : Nat) :
    wp (shortWrite writtenbytes) (fun _ => I) P s :=
  wp_ite.2 ⟨fun _ => wp_fail.2 (rules.weaken s hI), fun _ => wp_pure.2 hI⟩

theorem writeLoop (rules : WriteRules I P) (hdata : dataperobj < SizeT.modulus) (fuel : Nat)
    (buf : List Char) (writtenbytes : Nat) (hI : I s) (hs : Writing dataperobj s) :
    wp (writeLoop dataperobj fuel buf writtenbytes) (fun _ => I) P s := by
  induction fuel generalizing s buf writtenbytes with
  | zero => exact wp_pure.2 hI
  | succ fuel ih =>
    cases buf with
    | nil => exact wp_pure.2 hI
    | cons c cs =>
      refine wp_bind.2 (wp_mono (rules.findRoom hdata hI hs) ?_ fun _ h => h)
      generalize c :: cs = buf₀
      intro towrite s₁ ⟨hI₁, hs₁, htowrite⟩
      refine wp_bind.2 (wp_mono (rules.openNeeded hI₁ hs₁) ?_ fun _ h => h)
      intro opened s₂ ⟨hI₂, hopen⟩
      refine wp_ite.2 ⟨fun _ => rules.shortWrite hI₂ _, fun hsome => ?_⟩
      obtain ⟨hs₂, hroom⟩ := hopen (by
        cases opened with
        | none => exact absurd rfl hsome
        | some _ => rfl)
      refine wp_bind.2 (wp_get.2 (wp_bind.2 (wp_neWrite (fun h os n hh hn => ?_) fun os => ?_)))
      swap
      · exact rules.weaken _ (rules.io _ os hI₂)
      refine wp_ite.2 ⟨fun hzero => ?_, fun hpos => ?_⟩
      · rw [hzero, take_zero]
        simp only [pieces, if_true, append_nil]
        exact rules.shortWrite (rules.io _ os hI₂) _
      · have hlen : ((buf₀.take towrite).take n).length = n := by
          rw [length_take]
          omega
        have hne : (buf₀.take towrite).take n ≠ [] := by
          intro hnil
          rw [hnil] at hlen
          exact hpos hlen.symm
        have hle : ((buf₀.take towrite).take n).length ≤ roomLeft dataperobj s₂.stream := by
          rw [hlen, hroom, ← htowrite]
          exact hn.trans (length_take_le _ _)
        have hs₂' : Writing dataperobj { s₂ with outcomes := os } :=
          ⟨hs₂.room, hs₂.unfinalized, hs₂.writeable⟩
        have hI₃ := rules.data _ dataperobj h _ (rules.io _ os hI₂) hs₂' hh hne hle
        have hs₃ := hs₂'.wrote h [.data s₂.stream.cur.ftag.fileno ((buf₀.take towrite).take n)]
          ((buf₀.take towrite).take n)
        have hrec := ih (buf₀.drop n) (writtenbytes + n) hI₃ hs₃
        rw [pieces_of_ne_nil hne]
        refine wp_bind.2 (wp_modifyStream.2 (wp_bind.2 (wp_modifyFtag.2 ?_)))
        simp only [Sys.wrote, hlen] at hrec
        exact hrec

theorem datastreamWrite (rules : WriteRules I P) (buf : List Char) (hI : I s) :
    wp (datastreamWrite buf) (fun _ => I) P s := by
  have hP := rules.weaken s hI
  refine wp_bind.2 (wp_get.2 (wp_bind.2 (wp_check.2 ⟨fun _ => ?_, fun _ => hP⟩)))
  refine wp_bind.2 (wp_check.2 ⟨fun _ => ?_, fun _ => hP⟩)
  refine wp_bind.2 (wp_check.2 ⟨fun hunfin => ?_, fun _ => hP⟩)
  refine wp_bind.2 (wp_check.2 ⟨fun hwr => ?_, fun _ => hP⟩)
  refine wp_bind.2 (wp_gettargets (fun pos wrapped hpos hwrap => ?_) fun wrapped hwrap => ?_)
  · have hs : Writing (dataPerObj s.stream) { s with wrapped := wrapped } :=
      ⟨rfl, hunfin, by simpa using hwr⟩
    rw [hpos]
    exact rules.writeLoop (dataPerObj_lt _) _ _ _ (rules.targets s wrapped hI hwrap) hs
  · exact rules.weaken _ (rules.targets s wrapped hI hwrap)

theorem seekLoop (rules : WriteRules I P) (curfile totaloffset fuel : Nat) (hI : I s) :
    wp (seekLoop curfile totaloffset fuel) (fun _ => P) P s := by
  induction fuel generalizing s with
  | zero => exact wp_pure.2 (rules.weaken s hI)
  | succ fuel ih =>
    refine wp_bind.2 (wp_get.2 (wp_ite.2 ⟨fun _ => ?_, fun _ => wp_pure.2 (rules.weaken s hI)⟩))
    refine wp_bind.2 (wp_attempt.2 (wp_mono (rules.datastreamWrite _ hI) ?_ ?_))
    · intro written s' hI'
      refine wp_ite.2 ⟨fun _ => ih hI', fun _ => ?_⟩
      exact wp_bind.2 (wp_get.2 (wp_pure.2 (rules.weaken s' hI')))
    · intro s' hP
      refine wp_ite.2 ⟨fun h => by simp at h, fun _ => ?_⟩
      exact wp_bind.2 (wp_get.2 (wp_pure.2 hP))

theorem datastreamSeek (rules : WriteRules I P) (fuel offset : Nat) (whence : Whence) (hI : I s) :
    wp (datastreamSeek fuel offset whence) (fun _ => P) P s := by
  have hP := rules.weaken s hI
  refine wp_bind.2 (wp_get.2 (wp_bind.2 (wp_check.2 ⟨fun _ => ?_, fun _ => hP⟩)))
  refine wp_bind.2 (wp_gettargets (fun pos wrapped _ hwrap => ?_) fun wrapped hwrap => ?_)
  · have hI' := rules.targets s wrapped hI hwrap
    refine wp_bind.2 (wp_check.2 ⟨fun _ => ?_, fun _ => rules.weaken _ hI'⟩)
    exact wp_ite.2 ⟨fun _ => wp_pure.2 (rules.weaken _ hI'), fun _ => rules.seekLoop _ _ _ hI'⟩
  · exact rules.weaken _ (rules.targets s wrapped hI hwrap)

end WriteRules

end Sys

end Marfs.Datastream
