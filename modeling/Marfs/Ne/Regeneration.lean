import Marfs.Ne.DecodeTables

/-!
# Regeneration

What a stripe does to the cache, and what the loop over the stripes does.  The data parts come out right
whatever errors the tables were generated for: the sources are the same, and so are the rows of the data
parts.
-/

namespace Marfs.Ne.Stripes

open Marfs.Erasure List

/-! ## The scan of a stripe -/

section Scan

variable {V : Type} {prevInErr : List Bool}

variable {b : Nat} {v : Bool}

theorem getD_set {c : Nat} (hb : b < prevInErr.length) :
    (prevInErr.set b v).getD c false = if b = c then v else prevInErr.getD c false := by
  rw [List.getD_eq_getElem?_getD, List.getD_eq_getElem?_getD, List.getElem?_set]
  by_cases h : b = c
  · rw [if_pos h, if_pos h, if_pos (h ▸ hb), Option.getD_some]
  · rw [if_neg h, if_neg h]

theorem flagged_congr {prevInErr' : List Bool} {m : Nat}
    (h : ∀ b, b < m → prevInErr'.getD b false = prevInErr.getD b false) :
    flagged prevInErr' m = flagged prevInErr m := by
  apply filter_congr
  intro b hb
  exact h b (List.mem_range.1 hb)

theorem flagged_set (hb : b < prevInErr.length) :
    flagged (prevInErr.set b v) (b + 1) = if v then flagged prevInErr b ++ [b] else flagged prevInErr b := by
  have hbelow : flagged (prevInErr.set b v) b = flagged prevInErr b := by
    apply flagged_congr
    intro c hc
    rw [getD_set hb, if_neg (Nat.ne_of_gt hc)]
  have hlast : (prevInErr.set b v).getD b false = v := by
    rw [getD_set hb, if_pos rfl]
  rw [flagged, range_succ, filter_append, ← flagged, hbelow, filter_singleton, hlast]
  cases v with
  | true => rfl
  | false => exact List.append_nil _

structure Scanned (stripeStart curBlock : Nat) (iobs : List (Ioblock V)) (scan scan' : Scan) : Prop where
  length : scan'.prevInErr.length = scan.prevInErr.length
  errs : scan'.stripeErrList = flagged scan'.prevInErr (curBlock + iobs.length)
  outside : ∀ b, b < curBlock ∨ curBlock + iobs.length ≤ b →
    scan'.prevInErr.getD b false = scan.prevInErr.getD b false
  inside : ∀ i iob, iobs[i]? = some iob →
    scan'.prevInErr.getD (curBlock + i) false = decide (stripeStart < iob.errorEnd)
  ready : scan'.eReady = true ↔ scan.eReady = true ∧ ∀ i iob, iobs[i]? = some iob →
    scan.prevInErr.getD (curBlock + i) false = decide (stripeStart < iob.errorEnd)

theorem scanBlocks_scanned (stripeStart : Nat) (iobs : List (Ioblock V)) : ∀ curBlock scan,
    curBlock + iobs.length ≤ scan.prevInErr.length → scan.stripeErrList = flagged scan.prevInErr curBlock →
    Scanned stripeStart curBlock iobs scan (scanBlocks stripeStart curBlock iobs scan) := by
  induction iobs with
  | nil =>
    intro curBlock scan hlen herrs
    refine ⟨rfl, herrs, fun _ _ => rfl, ?_, ?_⟩
    · intro i iob h
      cases h
    · refine ⟨fun hrdy => ⟨hrdy, ?_⟩, fun h => h.1⟩
      intro i iob h
      cases h
  | cons head iobs ih =>
    intro curBlock scan hlen herrs
    rw [length_cons] at hlen
    have hcur : curBlock < scan.prevInErr.length := by omega
    generalize herr : decide (stripeStart < head.errorEnd) = inErr
    have hflags (b : Nat) : (scanBlock scan curBlock inErr).prevInErr.getD b false =
        if curBlock = b then inErr else scan.prevInErr.getD b false := getD_set hcur
    have hscan := ih (curBlock + 1) (scanBlock scan curBlock inErr)
      (by rw [scanBlock, length_set]; omega)
      (by rw [scanBlock, flagged_set hcur, herrs])
    rw [scanBlocks, herr]
    constructor
    case length => rw [hscan.length, scanBlock, length_set]
    case errs => rw [hscan.errs, length_cons, Nat.add_right_comm, Nat.add_assoc]
    case outside =>
      intro b hb
      rw [length_cons] at hb
      rw [hscan.outside b (by omega), hflags, if_neg (by omega)]
    case inside =>
      intro i iob hi
      cases i with
      | zero =>
        obtain rfl : head = iob := Option.some.inj hi
        rw [hscan.outside _ (by omega), hflags, if_pos (Nat.add_zero _).symm, herr]
      | succ i =>
        have hin := hscan.inside i iob hi
        rwa [Nat.add_right_comm] at hin
    case ready =>
      rw [hscan.ready]
      have hrdy : (scanBlock scan curBlock inErr).eReady = true ↔
          scan.eReady = true ∧ scan.prevInErr.getD curBlock false = inErr := by
        rw [scanBlock]
        by_cases h : scan.prevInErr.getD curBlock false = inErr
        · rw [if_neg (not_not_intro h), and_iff_left h]
        · rw [if_pos h]
          exact ⟨(fun h' => nomatch h'), fun h' => absurd h'.2 h⟩
      rw [hrdy, and_assoc]
      refine and_congr_right fun _ => ⟨?_, ?_⟩
      · intro ⟨hhead, htail⟩ i iob hi
        cases i with
        | zero =>
          obtain rfl : head = iob := Option.some.inj hi
          rw [herr]
          exact hhead
        | succ i =>
          have hin := htail i iob hi
          rwa [hflags, if_neg (by omega), Nat.add_right_comm] at hin
      · intro h
        refine ⟨?_, ?_⟩
        · rw [← herr]
          exact h 0 head rfl
        · intro i iob hi
          rw [hflags, if_neg (by omega), Nat.add_right_comm]
          exact h (i + 1) iob hi

/-- Where the tables are kept, no flag has changed. -/
theorem Scanned.same {stripeStart curBlock : Nat} {iobs : List (Ioblock V)} {scan scan' : Scan}
    (h : Scanned stripeStart curBlock iobs scan scan') (hrdy : scan'.eReady = true) (b : Nat) :
    scan'.prevInErr.getD b false = scan.prevInErr.getD b false := by
  by_cases hb : b < curBlock ∨ curBlock + iobs.length ≤ b
  · exact h.outside b hb
  · obtain ⟨i, rfl⟩ : ∃ i, b = curBlock + i := ⟨b - curBlock, by omega⟩
    have hi : i < iobs.length := by omega
    have hiob := List.getElem?_eq_getElem hi
    rw [h.inside i _ hiob, (h.ready.1 hrdy).2 i _ hiob]

end Scan

/-! ## The parts that are stored -/

section Store

variable {V : Type}

theorem length_store (stripe stripeStart : Nat) (repaired : List (Nat × V)) (iob : List (Ioblock V)) :
    (store stripe stripeStart repaired iob).length = iob.length := length_mapIdx

variable {b : Nat} {errs : List Nat} {parts : List V} {part : V}

theorem getElem?_store {stripe stripeStart : Nat} {repaired : List (Nat × V)} {iobs : List (Ioblock V)}
    {iob' : Ioblock V} (h : (store stripe stripeStart repaired iobs)[b]? = some iob') :
    ∃ iob, iobs[b]? = some iob ∧ (repaired.lookup b = none ∧ iob' = iob ∨ ∃ part,
      repaired.lookup b = some part ∧
        iob' = { iob with errorEnd := stripeStart, buff := Function.update iob.buff stripe part }) := by
  rw [store, List.getElem?_mapIdx] at h
  obtain ⟨iob, hiob, h⟩ := Option.map_eq_some_iff.1 h
  refine ⟨iob, hiob, ?_⟩
  cases hlook : repaired.lookup b with
  | none =>
    rw [hlook] at h
    exact .inl ⟨rfl, h.symm⟩
  | some part =>
    rw [hlook] at h
    exact .inr ⟨part, rfl, h.symm⟩

theorem mem_of_lookup_zip (h : (errs.zip parts).lookup b = some part) : b ∈ errs := by
  obtain ⟨l₁, l₂, hzip, -⟩ := List.lookup_eq_some_iff.1 h
  have hmem : (b, part) ∈ errs.zip parts := by
    rw [hzip]
    exact mem_append_right _ mem_cons_self
  exact (of_mem_zip hmem).1

theorem lookup_zip (hnodup : errs.Nodup) :
    ∀ {p : Nat}, errs[p]? = some b → parts[p]? = some part → (errs.zip parts).lookup b = some part := by
  induction errs generalizing parts with
  | nil =>
    intro p hp
    cases hp
  | cons head errs ih =>
    intro p hp hpart
    cases parts with
    | nil => cases hpart
    | cons first parts =>
      obtain ⟨hhead, hnodup⟩ := List.nodup_cons.1 hnodup
      rw [zip_cons_cons]
      cases p with
      | zero =>
        obtain rfl : head = b := Option.some.inj hp
        obtain rfl : first = part := Option.some.inj hpart
        exact lookup_cons_self
      | succ p =>
        have hne : b ≠ head := by
          rintro rfl
          exact hhead (mem_of_getElem? hp)
        rw [lookup_cons, beq_eq_false_iff_ne.2 hne]
        exact ih hnodup hp hpart

end Store

section Step

variable {F V : Type} {N : Nat} [Field F] {isal : Isal F N} {epat : Epat} {answers : Answers V} {stripe : Nat}
  {st st' : Regen F V N} {errno : Option Errno}

/-! ## The cache -/

/-- While `e_ready` is set, there are tables for the flagged blocks up to some block, and enough others for
the sources. -/
structure Cached (isal : Isal F N) (epat : Epat) (eReady : Bool) (prevInErr : List Bool)
    (tables : Option (Tables F N)) : Prop where
  length : prevInErr.length = N + epat.E
  generated : eReady = true → ∃ m t, N + (flagged prevInErr m).length ≤ m ∧ m ≤ N + epat.E ∧
    genTables isal epat (flagged prevInErr m) = some t ∧ tables = some t

def Fresh (m : Nat) (eReady : Bool) (prevInErr : List Bool) (tables : Option (Tables F N)) : Prop :=
  eReady = true → ∃ t, tables = some t ∧ t.errs = flagged prevInErr m

/-- A call of `ec_encode_data` for few enough blocks, with tables for few enough errors. -/
structure Encoded.Sound (isal : Isal F N) (epat : Epat) (call : Encoded F N) : Prop where
  errors : call.stripeErrList.length ≤ epat.E
  entries : call.tables.errs.length ≤ epat.E
  generated : genTables isal epat call.tables.errs = some call.tables

def Encoded.Exact (call : Encoded F N) : Prop := call.tables.errs = call.stripeErrList

/-- The thread of a block delivers an ioblock with an error. -/
def errorAt (answers : Answers V) (b : Nat) : Bool :=
  (answers.dequeue b).elim false fun iob => decide (0 < iob.errorEnd)

def errorsBelow (answers : Answers V) (q : Nat) : Nat := (List.range q).countP (errorAt answers)

/-! ## What holds between stripes -/

def scanOf (epat : Epat) (stripe : Nat) (st : Regen F V N) : Scan :=
  scanBlocks (stripe * epat.partsz) 0 st.iob ⟨[], st.prevInErr, st.eReady⟩

/-- The tables that a stripe is regenerated with: those of the handle, or new ones. -/
def Ready (isal : Isal F N) (epat : Epat) (scan : Scan) (tables : Option (Tables F N)) (t : Tables F N) :
    Prop :=
  scan.eReady = true ∧ tables = some t ∨
    scan.eReady = false ∧ genTables isal epat scan.stripeErrList = some t

structure Regenerating (isal : Isal F N) (epat : Epat) (answers : Answers V) (bc : Nat) (st : Regen F V N) :
    Prop where
  room : N + errorsBelow answers bc ≤ bc
  bound : bc ≤ N + epat.E
  blocks : st.iob.length = bc
  lowered : ∀ b iob, st.iob[b]? = some iob →
    ∃ iob', answers.dequeue b = some iob' ∧ iob.errorEnd ≤ iob'.errorEnd
  cached : Cached isal epat st.eReady st.prevInErr st.tables
  sound : ∀ call ∈ st.calls, call.Sound isal epat

namespace Regenerating

variable {bc : Nat} (hst : Regenerating isal epat answers bc st)
include hst

variable (stripe) in
theorem scanned :
    Scanned (stripe * epat.partsz) 0 st.iob ⟨[], st.prevInErr, st.eReady⟩ (scanOf epat stripe st) := by
  refine scanBlocks_scanned _ _ _ _ ?_ rfl
  rw [Nat.zero_add, hst.blocks, hst.cached.length]
  exact hst.bound

variable (stripe) in
theorem errs_eq : (scanOf epat stripe st).stripeErrList = flagged (scanOf epat stripe st).prevInErr bc := by
  rw [(hst.scanned stripe).errs, Nat.zero_add, hst.blocks]

variable (stripe) in
theorem errs_length : N + (flagged (scanOf epat stripe st).prevInErr bc).length ≤ bc := by
  have hle : (flagged (scanOf epat stripe st).prevInErr bc).length ≤ errorsBelow answers bc := by
    rw [flagged, ← countP_eq_length_filter]
    apply countP_mono_left
    intro b hb hflag
    rw [mem_range, ← hst.blocks] at hb
    have hiob := List.getElem?_eq_getElem hb
    obtain ⟨iob', hdeq, hle⟩ := hst.lowered b _ hiob
    have hin := (hst.scanned stripe).inside b _ hiob
    rw [Nat.zero_add, hflag] at hin
    have hlt := of_decide_eq_true hin.symm
    rw [errorAt, hdeq]
    exact decide_eq_true (by omega)
  have hroom := hst.room
  omega

variable {t : Tables F N}

theorem ready_generated (ht : Ready isal epat (scanOf epat stripe st) st.tables t) :
    ∃ m, N + (flagged (scanOf epat stripe st).prevInErr m).length ≤ m ∧ m ≤ N + epat.E ∧
      genTables isal epat (flagged (scanOf epat stripe st).prevInErr m) = some t := by
  obtain ⟨hrdy, ht⟩ | ⟨-, hgen⟩ := ht
  · obtain ⟨m, t', hcnt, hm, hgen, ht'⟩ := hst.cached.generated ((hst.scanned stripe).ready.1 hrdy).1
    obtain rfl : t' = t := Option.some.inj (ht'.symm.trans ht)
    have hsame : flagged (scanOf epat stripe st).prevInErr m = flagged st.prevInErr m :=
      flagged_congr fun b _ => (hst.scanned stripe).same hrdy b
    exact ⟨m, by rwa [hsame], hm, by rwa [hsame]⟩
  · rw [hst.errs_eq stripe] at hgen
    exact ⟨bc, (hst.errs_length stripe), hst.bound, hgen⟩

theorem flags_outside {b : Nat} (hb : bc ≤ b) :
    (scanOf epat stripe st).prevInErr.getD b false = st.prevInErr.getD b false := by
  apply (hst.scanned stripe).outside b
  rw [Nat.zero_add, hst.blocks]
  exact .inr hb

theorem fresh_scan (hfresh : Fresh bc st.eReady st.prevInErr st.tables) :
    Fresh bc (scanOf epat stripe st).eReady (scanOf epat stripe st).prevInErr st.tables := by
  intro hrdy
  obtain ⟨t, ht, herrs⟩ := hfresh ((hst.scanned stripe).ready.1 hrdy).1
  exact ⟨t, ht, herrs.trans (flagged_congr fun b _ => (hst.scanned stripe).same hrdy b).symm⟩

theorem errs_of_ready
    (hfresh : Fresh bc (scanOf epat stripe st).eReady (scanOf epat stripe st).prevInErr st.tables)
    (ht : Ready isal epat (scanOf epat stripe st) st.tables t) :
    t.errs = flagged (scanOf epat stripe st).prevInErr bc := by
  obtain ⟨hrdy, ht⟩ | ⟨-, hgen⟩ := ht
  · obtain ⟨t', ht', herrs⟩ := hfresh hrdy
    obtain rfl : t' = t := Option.some.inj (ht'.symm.trans ht)
    exact herrs
  · rw [genTables_errs hgen, hst.errs_eq]

end Regenerating

/-! ## One stripe -/

variable {fault : StripeFault} {errs : List Nat}

theorem prepareTables_cases (h : prepareTables isal epat fault errs st = (st', errno)) :
    (∃ tables error, st' = { st with tables := tables } ∧ errno = some error ∧ st.eReady = false ∧
      (error = .enodata → genTables isal epat errs = none)) ∨
    (st' = st ∧ errno = none ∧ st.eReady = true) ∨
    ∃ t, st' = { st with tables := some t, eReady := true } ∧ errno = none ∧ st.eReady = false ∧
      genTables isal epat errs = some t := by
  rw [prepareTables] at h
  by_cases hrdy : st.eReady = true
  · rw [if_pos hrdy] at h
    obtain ⟨rfl, rfl⟩ := Prod.mk.inj h
    exact .inr (.inl ⟨rfl, rfl, hrdy⟩)
  rw [if_neg hrdy] at h
  replace hrdy := Bool.eq_false_of_not_eq_true hrdy
  by_cases hfault : fault = .tables
  · rw [if_pos hfault] at h
    obtain ⟨rfl, rfl⟩ := Prod.mk.inj h
    exact .inl ⟨st.tables, .left, rfl, rfl, hrdy, fun h => nomatch h⟩
  rw [if_neg hfault] at h
  cases hgen : genTables isal epat errs with
  | none =>
    rw [hgen] at h
    obtain ⟨rfl, rfl⟩ := Prod.mk.inj h
    exact .inl ⟨none, .enodata, rfl, rfl, hrdy, fun _ => rfl⟩
  | some t =>
    rw [hgen] at h
    dsimp only at h
    by_cases hunlock : fault = .unlock
    · rw [if_pos hunlock] at h
      obtain ⟨rfl, rfl⟩ := Prod.mk.inj h
      exact .inl ⟨some t, .left, rfl, rfl, hrdy, fun h => nomatch h⟩
    · rw [if_neg hunlock] at h
      obtain ⟨rfl, rfl⟩ := Prod.mk.inj h
      exact .inr (.inr ⟨t, rfl, rfl, hrdy, rfl⟩)

variable [AddCommGroup V] [Module F V]

inductive StripeStep (isal : Isal F N) (epat : Epat) (stripe : Nat) (st : Regen F V N) :
    Regen F V N → Option Errno → Prop
  | unprepared (tables : Option (Tables F N)) (errno : Errno) : (scanOf epat stripe st).eReady = false →
      (errno = .enodata → genTables isal epat (scanOf epat stripe st).stripeErrList = none) →
      StripeStep isal epat stripe st
        { st with eReady := false, prevInErr := (scanOf epat stripe st).prevInErr, tables := tables }
        (some errno)
  | unrepaired (t : Tables F N) (iob : List (Ioblock V)) :
      Ready isal epat (scanOf epat stripe st) st.tables t →
      StripeStep isal epat stripe st
        { st with
          eReady := true, prevInErr := (scanOf epat stripe st).prevInErr, tables := some t, iob := iob }
        (some .left)
  | repaired (t : Tables F N) (errno : Option Errno) : errno ≠ some .enodata →
      Ready isal epat (scanOf epat stripe st) st.tables t →
      StripeStep isal epat stripe st
        { eReady := true
          prevInErr := (scanOf epat stripe st).prevInErr
          tables := some t
          iob := store stripe (stripe * epat.partsz)
            ((scanOf epat stripe st).stripeErrList.zip (ecEncodeData t.gTbls
              (sources t.decodeIndex stripe st.iob) (scanOf epat stripe st).stripeErrList.length)) st.iob
          calls := st.calls ++ [⟨(scanOf epat stripe st).stripeErrList, t⟩] }
        errno

theorem regenerate_cases {t : Tables F N} (ht : st.tables = some t)
    (h : regenerate epat fault stripe errs st = (st', errno)) :
    (∃ iob, st' = { st with tables := some t, iob := iob } ∧ errno = some .left) ∨
    st' = { st with
      tables := some t
      iob := store stripe (stripe * epat.partsz)
        (errs.zip (ecEncodeData t.gTbls (sources t.decodeIndex stripe st.iob) errs.length)) st.iob
      calls := st.calls ++ [⟨errs, t⟩] } ∧ errno ≠ some .enodata := by
  rw [regenerate, ht] at h
  dsimp only at h
  by_cases hbuffers : fault = .buffers
  · rw [if_pos hbuffers] at h
    obtain ⟨rfl, rfl⟩ := Prod.mk.inj h
    exact .inl ⟨st.iob, by rw [← ht], rfl⟩
  rw [if_neg hbuffers] at h
  by_cases hlock : fault = .lock
  · rw [if_pos hlock] at h
    obtain ⟨rfl, rfl⟩ := Prod.mk.inj h
    exact .inl ⟨_, rfl, rfl⟩
  rw [if_neg hlock] at h
  by_cases hrelinquish : fault = .relinquish
  · rw [if_pos hrelinquish] at h
    obtain ⟨rfl, rfl⟩ := Prod.mk.inj h
    exact .inr ⟨rfl, fun h => nomatch h⟩
  · rw [if_neg hrelinquish] at h
    obtain ⟨rfl, rfl⟩ := Prod.mk.inj h
    exact .inr ⟨rfl, fun h => nomatch h⟩

theorem StripeStep.prevInErr_eq (h : StripeStep isal epat stripe st st' errno) :
    st'.prevInErr = (scanOf epat stripe st).prevInErr := by
  cases h <;> rfl

theorem StripeStep.calls_subset (h : StripeStep isal epat stripe st st' errno) : st.calls ⊆ st'.calls := by
  cases h with
  | unprepared tables errno hrdy hnod => exact List.Subset.refl _
  | unrepaired t iob ht => exact List.Subset.refl _
  | repaired t errno herrno ht => exact subset_append_left _ _

theorem stripeStep_cases (htables : st.eReady = true → ∃ t, st.tables = some t)
    (hlen : st.iob.length ≤ st.prevInErr.length) (h : stripeStep isal epat answers stripe st = (st', errno)) :
    StripeStep isal epat stripe st st' errno := by
  have hscan : Scanned _ 0 st.iob ⟨[], st.prevInErr, st.eReady⟩ (scanOf epat stripe st) :=
    scanBlocks_scanned _ _ _ _ (by rwa [Nat.zero_add]) rfl
  rw [stripeStep, ← scanOf] at h
  generalize hprep : prepareTables isal epat (answers.fault stripe) (scanOf epat stripe st).stripeErrList
    { st with
      eReady := (scanOf epat stripe st).eReady
      prevInErr := (scanOf epat stripe st).prevInErr } = out at h
  obtain ⟨st₁, errno₁⟩ := out
  obtain ⟨tables, error, rfl, rfl, hrdy, hnod⟩ | ⟨rfl, rfl, hrdy⟩ | ⟨t, rfl, rfl, hrdy, hgen⟩ :=
    prepareTables_cases hprep
  · obtain ⟨rfl, rfl⟩ := Prod.mk.inj h
    rw [hrdy]
    exact .unprepared tables error hrdy hnod
  · obtain ⟨t, ht⟩ := htables (hscan.ready.1 hrdy).1
    obtain ⟨iob, rfl, rfl⟩ | ⟨rfl, herrno⟩ := regenerate_cases (by exact ht) h
    · rw [hrdy]
      exact .unrepaired t iob (.inl ⟨hrdy, ht⟩)
    · rw [hrdy]
      exact .repaired t errno herrno (.inl ⟨hrdy, ht⟩)
  · obtain ⟨iob, rfl, rfl⟩ | ⟨rfl, herrno⟩ := regenerate_cases rfl h
    · exact .unrepaired t iob (.inr ⟨hrdy, hgen⟩)
    · exact .repaired t errno herrno (.inr ⟨hrdy, hgen⟩)

namespace Regenerating

variable {bc : Nat} (hst : Regenerating isal epat answers bc st)
include hst

theorem kept (hstep : StripeStep isal epat stripe st st' errno) :
    Cached isal epat st'.eReady st'.prevInErr st'.tables ∧ ∀ call ∈ st'.calls, call.Sound isal epat := by
  have hlen : (scanOf epat stripe st).prevInErr.length = N + epat.E :=
    (hst.scanned stripe).length.trans hst.cached.length
  cases hstep with
  | unprepared tables errno hrdy hnod => exact ⟨⟨hlen, fun h => nomatch h⟩, hst.sound⟩
  | unrepaired t iob ht =>
    obtain ⟨m, hcnt, hm, hgen⟩ := hst.ready_generated ht
    exact ⟨⟨hlen, fun _ => ⟨m, t, hcnt, hm, hgen, rfl⟩⟩, hst.sound⟩
  | repaired t errno herrno ht =>
    obtain ⟨m, hcnt, hm, hgen⟩ := hst.ready_generated ht
    refine ⟨⟨hlen, fun _ => ⟨m, t, hcnt, hm, hgen, rfl⟩⟩, ?_⟩
    intro call hcall
    obtain hcall | hcall := List.mem_append.1 hcall
    · exact hst.sound call hcall
    obtain rfl := List.mem_singleton.1 hcall
    have hentries := genTables_errs hgen
    have hroom := hst.errs_length stripe
    have hbound := hst.bound
    constructor
    case errors =>
      dsimp only
      rw [hst.errs_eq stripe]
      omega
    case entries =>
      dsimp only
      rw [hentries]
      omega
    case generated =>
      dsimp only
      rwa [hentries]

/-- The generation of tables does not fail. -/
theorem errno_ne (hlaw : isal.Lawful (N + epat.E)) (hstep : StripeStep isal epat stripe st st' errno) :
    errno ≠ some .enodata := by
  cases hstep with
  | unprepared tables errno hrdy hnod =>
    intro herrno
    have hnone := hnod (Option.some.inj herrno)
    obtain ⟨t, ht⟩ := exists_genTables hlaw (hst.errs_length stripe) hst.bound
    rw [hst.errs_eq stripe, ht] at hnone
    cases hnone
  | unrepaired t iob ht => exact fun h => nomatch h
  | repaired t errno herrno ht => exact herrno

theorem next (hstep : StripeStep isal epat stripe st st' none) : Regenerating isal epat answers bc st' := by
  obtain ⟨hcache, hsound⟩ := hst.kept hstep
  cases hstep with
  | repaired t errno herrno ht =>
    refine ⟨hst.room, hst.bound, (length_store _ _ _ _).trans hst.blocks, ?_, hcache, hsound⟩
    intro b iob' hb
    obtain ⟨iob, hiob, ⟨-, rfl⟩ | ⟨part, hlook, rfl⟩⟩ := getElem?_store hb
    · exact hst.lowered b _ hiob
    · obtain ⟨iob₀, hdeq, hle⟩ := hst.lowered b _ hiob
      refine ⟨iob₀, hdeq, Nat.le_trans (Nat.le_of_lt ?_) hle⟩
      have hmem := mem_of_lookup_zip hlook
      rw [hst.errs_eq stripe] at hmem
      have hin := (hst.scanned stripe).inside b _ hiob
      rw [Nat.zero_add, (mem_flagged.1 hmem).2] at hin
      exact of_decide_eq_true hin.symm

end Regenerating

/-! ## The data parts -/

def Intact (isal : Isal F N) (epat : Epat) (stripes : Nat → Fin N → V) (k : Nat) (iobs : List (Ioblock V)) :
    Prop :=
  ∀ b iob, iobs[b]? = some iob → ∀ j, j < k → iob.errorEnd ≤ j * epat.partsz →
    iob.buff j = part isal.encode (stripes j) b

def Restored (stripes : Nat → Fin N → V) (stripecnt k : Nat) (iobs : List (Ioblock V)) : Prop :=
  ∀ (i : Fin N) iob, iobs[i.val]? = some iob → ∀ j, k ≤ j → j < stripecnt → iob.buff j = stripes j i

namespace Regenerating

variable {bc stripecnt : Nat} {stripes : Nat → Fin N → V} (hst : Regenerating isal epat answers bc st)
include hst

theorem part_of_unflagged (hintact : Intact isal epat stripes (stripe + 1) st.iob) {b : Nat} {iob : Ioblock V}
    (hiob : st.iob[b]? = some iob) (hflag : (scanOf epat stripe st).prevInErr.getD b false = false) :
    iob.buff stripe = part isal.encode (stripes stripe) b := by
  have hin := (hst.scanned stripe).inside b _ hiob
  rw [Nat.zero_add, hflag] at hin
  exact hintact b iob hiob stripe (Nat.lt_succ_self _) (Nat.le_of_not_lt (of_decide_eq_false hin.symm))

theorem sources_part (hintact : Intact isal epat stripes (stripe + 1) st.iob) {t : Tables F N}
    (ht : Ready isal epat (scanOf epat stripe st) st.tables t) (i : Fin N) :
    sources t.decodeIndex stripe st.iob i =
      part isal.encode (stripes stripe) (indexOf t.decodeIndex N i) := by
  obtain ⟨m, hcnt, hm, hgen⟩ := hst.ready_generated ht
  have hsource := source_mem (hst.errs_length stripe) hst.bound i
  rw [← genTables_decodeIndex hgen hcnt hm, mem_unflagged, ← hst.blocks] at hsource
  obtain ⟨hlt, hflag⟩ := hsource
  have hiob := List.getElem?_eq_getElem hlt
  rw [sources, hiob, Option.elim_some]
  exact hst.part_of_unflagged hintact hiob hflag

theorem restores (hlaw : isal.Lawful (N + epat.E)) (hintact : Intact isal epat stripes (stripe + 1) st.iob)
    (hrestored : Restored stripes stripecnt (stripe + 1) st.iob)
    (hstep : StripeStep isal epat stripe st st' none) :
    Intact isal epat stripes stripe st'.iob ∧ Restored stripes stripecnt stripe st'.iob := by
  cases hstep with
  | repaired t errno herrno ht =>
    constructor
    · intro b iob' hb j hj hend
      obtain ⟨iob, hiob, ⟨-, rfl⟩ | ⟨part, -, rfl⟩⟩ := getElem?_store hb
      · exact hintact b _ hiob j (Nat.lt_succ_of_lt hj) hend
      · -- the errors of this block now end where this stripe starts
        exact absurd (Nat.le_of_mul_le_mul_right hend epat.pos) (Nat.not_le_of_lt hj)
    · intro i iob' hb j hj hcnt
      obtain ⟨iob, hiob, hpart⟩ := getElem?_store hb
      by_cases hlater : stripe + 1 ≤ j
      · have hdone := hrestored i iob hiob j hlater hcnt
        obtain ⟨-, rfl⟩ | ⟨part, -, rfl⟩ := hpart
        · exact hdone
        · exact (Function.update_of_ne (Nat.ne_of_gt hlater) _ _).trans hdone
      obtain rfl : j = stripe := by omega
      rw [← part_of_systematic hlaw.systematic (stripes j) i]
      have hlt : i.val < bc := Nat.lt_of_lt_of_le i.isLt (Nat.le_trans (Nat.le_add_right _ _) hst.room)
      cases hflag : (scanOf epat j st).prevInErr.getD i.val false with
      | false =>
        obtain ⟨-, rfl⟩ | ⟨part, hlook, -⟩ := hpart
        · exact hst.part_of_unflagged hintact hiob hflag
        · have hmem := mem_of_lookup_zip hlook
          rw [hst.errs_eq, mem_flagged, hflag] at hmem
          cases hmem.2
      | true =>
        obtain ⟨m, hcount, hm, hgen⟩ := hst.ready_generated ht
        obtain ⟨p, hp⟩ := List.getElem?_of_mem (mem_flagged.2 ⟨hlt, hflag⟩)
        have hencoded := ecEncodeData_flagged hlaw hgen hcount (Nat.le_trans (Nat.le_add_right _ _) hst.room)
          (hst.sources_part hintact ht) hp i.isLt
        have hlook := lookup_zip nodup_flagged hp hencoded
        rw [← hst.errs_eq] at hlook
        obtain ⟨hnone, -⟩ | ⟨part, hsome, rfl⟩ := hpart
        · rw [hnone] at hlook
          cases hlook
        · rw [hsome] at hlook
          obtain rfl := Option.some.inj hlook
          exact Function.update_self _ _ _

/-! ## Tables for just the errors -/

theorem exact_step
    (hfresh : Fresh bc (scanOf epat stripe st).eReady (scanOf epat stripe st).prevInErr st.tables)
    (hexact : ∀ call ∈ st.calls, call.Exact) (hstep : StripeStep isal epat stripe st st' errno) :
    (∀ call ∈ st'.calls, call.Exact) ∧ Fresh bc st'.eReady st'.prevInErr st'.tables := by
  cases hstep with
  | unprepared tables errno hrdy hnod => exact ⟨hexact, fun h => nomatch h⟩
  | unrepaired t iob ht => exact ⟨hexact, fun _ => ⟨t, rfl, hst.errs_of_ready hfresh ht⟩⟩
  | repaired t errno herrno ht =>
    have herrs := hst.errs_of_ready hfresh ht
    refine ⟨?_, fun _ => ⟨t, rfl, herrs⟩⟩
    intro call hcall
    obtain hcall | hcall := List.mem_append.1 hcall
    · exact hexact call hcall
    · obtain rfl := List.mem_singleton.1 hcall
      rw [Encoded.Exact, herrs, hst.errs_eq]

theorem fresh_of_exact (hstep : StripeStep isal epat stripe st st' none)
    (hexact : ∀ call ∈ st'.calls, call.Exact) :
    Fresh bc (scanOf epat stripe st).eReady (scanOf epat stripe st).prevInErr st.tables := by
  intro hrdy
  cases hstep with
  | repaired t errno herrno ht =>
    obtain ⟨-, ht⟩ | ⟨hnot, -⟩ := ht
    · have herrs := hexact _ (mem_append_right _ (mem_singleton_self _))
      rw [Encoded.Exact, hst.errs_eq] at herrs
      exact ⟨t, ht, herrs⟩
    · rw [hrdy] at hnot
      cases hnot

theorem step (h : stripeStep isal epat answers stripe st = (st', errno)) :
    StripeStep isal epat stripe st st' errno := by
  refine stripeStep_cases ?_ ?_ h
  · intro hrdy
    obtain ⟨-, t, -, -, -, ht⟩ := hst.cached.generated hrdy
    exact ⟨t, ht⟩
  · rw [hst.blocks, hst.cached.length]
    exact hst.bound

end Regenerating

/-! ## The stripes of a call -/

section Loop

variable {bc stripecnt : Nat} {stripes : Nat → Fin N → V}

/-- What holds between the stripes holds behind the last one; what a stripe that is not repaired comes to
holds of a failure. -/
theorem stripeLoop_induct {I : Nat → Regen F V N → Prop} {J : Regen F V N → Errno → Prop}
    (hnext : ∀ stripe st st', I (stripe + 1) st → stripeStep isal epat answers stripe st = (st', none) →
      I stripe st') (hstop : ∀ stripe st st' errno, I (stripe + 1) st →
      stripeStep isal epat answers stripe st = (st', some errno) → J st' errno) :
    ∀ k {st st' : Regen F V N} {errno}, I k st → stripeLoop isal epat answers k st = (st', errno) →
      errno = none ∧ I 0 st' ∨ ∃ error, errno = some error ∧ J st' error := by
  intro k
  induction k with
  | zero =>
    intro st st' errno hst h
    obtain ⟨rfl, rfl⟩ := Prod.mk.inj h
    exact .inl ⟨rfl, hst⟩
  | succ k ih =>
    intro st st' errno hst h
    rw [stripeLoop] at h
    generalize hstep : stripeStep isal epat answers k st = out at h
    obtain ⟨st₁, _ | error⟩ := out
    · exact ih (hnext k st st₁ hst hstep) h
    · obtain ⟨rfl, rfl⟩ := Prod.mk.inj h
      exact .inr ⟨error, rfl, hstop k st st₁ error hst hstep⟩

variable {k : Nat} (hst : Regenerating isal epat answers bc st)
include hst

theorem loop_kept (h : stripeLoop isal epat answers k st = (st', errno)) :
    Cached isal epat st'.eReady st'.prevInErr st'.tables ∧ ∀ call ∈ st'.calls, call.Sound isal epat := by
  have hloop := stripeLoop_induct (I := fun _ => Regenerating isal epat answers bc)
    (J := fun st' _ => Cached isal epat st'.eReady st'.prevInErr st'.tables ∧
      ∀ call ∈ st'.calls, call.Sound isal epat)
    (fun _ _ _ hst h => hst.next (hst.step h)) (fun _ _ _ _ hst h => hst.kept (hst.step h)) k hst h
  obtain ⟨-, hst'⟩ | ⟨error, -, hkept⟩ := hloop
  · exact ⟨hst'.cached, hst'.sound⟩
  · exact hkept

theorem loop_errno (hlaw : isal.Lawful (N + epat.E)) (h : stripeLoop isal epat answers k st = (st', errno)) :
    errno ≠ some .enodata := by
  have hloop := stripeLoop_induct (I := fun _ => Regenerating isal epat answers bc)
    (J := fun _ error => some error ≠ some .enodata)
    (fun _ _ _ hst h => hst.next (hst.step h)) (fun _ _ _ _ hst h => hst.errno_ne hlaw (hst.step h)) k hst h
  obtain ⟨rfl, -⟩ | ⟨error, rfl, hne⟩ := hloop
  · exact fun h => nomatch h
  · exact hne

theorem loop_restored (hlaw : isal.Lawful (N + epat.E)) (hintact : Intact isal epat stripes k st.iob)
    (h : stripeLoop isal epat answers k st = (st', none)) :
    st'.iob.length = bc ∧ Restored stripes k 0 st'.iob := by
  have hloop := stripeLoop_induct
    (I := fun stripe st => Regenerating isal epat answers bc st ∧ Intact isal epat stripes stripe st.iob ∧
      Restored stripes k stripe st.iob)
    (J := fun _ _ => True)
    (fun _ _ _ h hstep => ⟨h.1.next (h.1.step hstep), h.1.restores hlaw h.2.1 h.2.2 (h.1.step hstep)⟩)
    (fun _ _ _ _ _ _ => trivial) k ⟨hst, hintact, fun _ _ _ j hj hlt => absurd hj (Nat.not_le_of_lt hlt)⟩ h
  obtain ⟨-, hst', -, hrestored⟩ | ⟨error, herrno, -⟩ := hloop
  · exact ⟨hst'.blocks, hrestored⟩
  · cases herrno

theorem loop_exact (hfresh : Fresh bc st.eReady st.prevInErr st.tables)
    (hexact : ∀ call ∈ st.calls, call.Exact) (h : stripeLoop isal epat answers k st = (st', errno)) :
    (∀ call ∈ st'.calls, call.Exact) ∧ Fresh bc st'.eReady st'.prevInErr st'.tables := by
  have hloop := stripeLoop_induct
    (I := fun _ st => Regenerating isal epat answers bc st ∧
      (∀ call ∈ st.calls, call.Exact) ∧ Fresh bc st.eReady st.prevInErr st.tables)
    (J := fun st _ => (∀ call ∈ st.calls, call.Exact) ∧ Fresh bc st.eReady st.prevInErr st.tables)
    (fun _ _ _ h hstep =>
      ⟨h.1.next (h.1.step hstep), h.1.exact_step (h.1.fresh_scan h.2.2) h.2.1 (h.1.step hstep)⟩)
    (fun _ _ _ _ h hstep => h.1.exact_step (h.1.fresh_scan h.2.2) h.2.1 (h.1.step hstep)) k
    ⟨hst, hexact, hfresh⟩ h
  obtain ⟨-, -, hexact'⟩ | ⟨error, -, hexact'⟩ := hloop
  · exact hexact'
  · exact hexact'

theorem loop_exact_of_scan
    (hfresh : Fresh bc (scanOf epat k st).eReady (scanOf epat k st).prevInErr st.tables)
    (hexact : ∀ call ∈ st.calls, call.Exact) (h : stripeLoop isal epat answers (k + 1) st = (st', errno)) :
    ∀ call ∈ st'.calls, call.Exact := by
  rw [stripeLoop] at h
  generalize hstep : stripeStep isal epat answers k st = out at h
  obtain ⟨st₁, _ | error⟩ := out
  · obtain ⟨hexact₁, hfresh₁⟩ := hst.exact_step hfresh hexact (hst.step hstep)
    exact (loop_exact (hst.next (hst.step hstep)) hfresh₁ hexact₁ h).1
  · obtain ⟨rfl, rfl⟩ := Prod.mk.inj h
    exact (hst.exact_step hfresh hexact (hst.step hstep)).1

/-- The flags of the blocks that are not read stay as they are. -/
theorem loop_outside (h : stripeLoop isal epat answers k st = (st', errno)) {b : Nat} (hb : bc ≤ b) :
    st'.prevInErr.getD b false = st.prevInErr.getD b false := by
  have hloop := stripeLoop_induct
    (I := fun _ st₁ => Regenerating isal epat answers bc st₁ ∧
      st₁.prevInErr.getD b false = st.prevInErr.getD b false)
    (J := fun st₁ _ => st₁.prevInErr.getD b false = st.prevInErr.getD b false)
    (fun _ _ _ h hstep => ⟨h.1.next (h.1.step hstep), by
      rw [(h.1.step hstep).prevInErr_eq, h.1.flags_outside hb, h.2]⟩)
    (fun _ _ _ _ h hstep => by rw [(h.1.step hstep).prevInErr_eq, h.1.flags_outside hb, h.2]) k ⟨hst, rfl⟩ h
  obtain ⟨-, -, hflag⟩ | ⟨error, -, hflag⟩ := hloop
  · exact hflag
  · exact hflag

theorem loop_calls_subset (h : stripeLoop isal epat answers k st = (st', errno)) : st.calls ⊆ st'.calls := by
  have hloop := stripeLoop_induct
    (I := fun _ st₁ => Regenerating isal epat answers bc st₁ ∧ st.calls ⊆ st₁.calls)
    (J := fun st₁ _ => st.calls ⊆ st₁.calls)
    (fun _ _ _ h hstep => ⟨h.1.next (h.1.step hstep), List.Subset.trans h.2 (h.1.step hstep).calls_subset⟩)
    (fun _ _ _ _ h hstep => List.Subset.trans h.2 (h.1.step hstep).calls_subset) k ⟨hst, List.Subset.refl _⟩ h
  obtain ⟨-, -, hsub⟩ | ⟨error, -, hsub⟩ := hloop
  · exact hsub
  · exact hsub

theorem fresh_scan_of_loop (h : stripeLoop isal epat answers (k + 1) st = (st', none))
    (hexact : ∀ call ∈ st'.calls, call.Exact) :
    Fresh bc (scanOf epat k st).eReady (scanOf epat k st).prevInErr st.tables := by
  rw [stripeLoop] at h
  generalize hstep : stripeStep isal epat answers k st = out at h
  obtain ⟨st₁, _ | error⟩ := out
  · have hsub := loop_calls_subset (hst.next (hst.step hstep)) h
    exact hst.fresh_of_exact (hst.step hstep) fun call hcall => hexact call (hsub hcall)
  · cases (Prod.mk.inj h).2

end Loop

end Step

end Marfs.Ne.Stripes
