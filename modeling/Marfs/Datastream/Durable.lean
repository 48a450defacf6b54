import Marfs.Datastream.ObjectSize

/-!
# Complete files are durable

The FTAG of a file says that it is complete only once every object it reaches has been closed.  A
file is completed after the object it shares with later files, so `Tracked` follows a file from the
moment it is created: while it is written, the objects before that of the stream are closed and its
FTAG counts what it holds; once it is finalized, it reaches closed objects and the open one; and its
reference gets the complete FTAG when that one is closed, too.
-/

namespace Marfs.Datastream

open Machine Recovery Tagging

/-- The position of the end of the file's data and recovery info in its first object can be counted
with a `size_t`, were it to stay there. -/
def Countable (ftag : Ftag) : Prop :=
  ftag.offset + ftag.bytes + ftag.recoverybytes < SizeT.modulus

/-- A file of a stream without an object size has one object, as long as that can be counted. -/
def Measured (ftag : Ftag) : Prop := ftag.objsize = 0 → Countable ftag

def Complete (ftag : Ftag) : Prop := ftag.state.data = .comp ∨ ftag.state.readable = true

namespace Sys

open Op

variable {S : Nat} {E : Sys → Prop} {s s' : Sys} {ftag ftag' : Ftag} {stream stream' : Stream}
  {closed closed' : Nat → Bool} {ftags : Nat → Option Ftag}

def ended (ftag : Ftag) : Nat := datastreamFilebounds (completed ftag)

def objectRoom (ftag : Ftag) (headerlen : Nat) : Nat :=
  SizeT.sub ftag.objsize (ftag.recoverybytes + headerlen)

/-- An unfinished file reaches from its start to the position of the stream, and what it has left
behind is closed. -/
structure Current (S : Nat) (ftag : Ftag) (stream : Stream) (closed : Nat → Bool) : Prop where
  objsize : ftag.objsize = S
  header : headerlen ftag = stream.recoveryheaderlen
  start_ge : stream.recoveryheaderlen ≤ ftag.offset
  objno_le : ftag.objno ≤ stream.objno
  offset_ge : stream.recoveryheaderlen ≤ stream.offset
  begun : stream.datahandle = none → ftag.objno = stream.objno → ftag.bytes = 0
  alone : stream.datahandle = none → stream.curfile ≠ 0 → ftag.bytes = 0
  before : Measured ftag → ∀ i, ftag.objno ≤ i → i < stream.objno → closed i = true
  extent : Measured ftag → ftag.offset - stream.recoveryheaderlen + ftag.bytes =
    (stream.objno - ftag.objno) * objectRoom ftag stream.recoveryheaderlen +
      (stream.offset - stream.recoveryheaderlen)
  within : Measured ftag →
    stream.offset - stream.recoveryheaderlen ≤ objectRoom ftag stream.recoveryheaderlen

/-- A finalized file reaches closed objects, and at most the open one. -/
def Settled (ftag : Ftag) (stream : Stream) (closed : Nat → Bool) : Prop :=
  Measured ftag → ∀ i, ftag.objno ≤ i → i ≤ ended ftag →
    closed i = true ∧ i < stream.objno ∨ stream.datahandle = some i

def StoredBelow (ftags : Nat → Option Ftag) (closed : Nat → Bool) (k : Nat) : Prop :=
  ∀ n ftag, ftags n = some ftag → Complete ftag → Measured ftag →
    ∀ i, ftag.objno ≤ i → i ≤ datastreamFilebounds ftag → closed i = true ∧ i < k

def Durable (s : Sys) : Prop :=
  ∀ n ftag, s.ftags n = some ftag → Complete ftag → Measured ftag →
    ∀ i, ftag.objno ≤ i → i ≤ datastreamFilebounds ftag → s.closed i = true

structure Tracked (S : Nat) (s : Sys) : Prop where
  scheme : s.stream.scheme.objsize = S
  header : s.stream.header.length = s.stream.recoveryheaderlen
  handle : ∀ h, s.stream.datahandle = some h → h = s.stream.objno
  idle : s.stream.datahandle = none → s.stream.offset = s.stream.recoveryheaderlen
  offset_ge : s.stream.recoveryheaderlen ≤ s.stream.offset
  stored : StoredBelow s.ftags s.closed s.stream.objno
  previous : ∀ j < s.stream.curfile, (s.stream.files j).ftag.state.writeable = false →
    Settled (s.stream.files j).ftag s.stream s.closed
  quiet : ¬ Complete s.stream.cur.ftag
  settled : s.stream.cur.ftag.unfinalized = false → s.stream.cur.ftag.state.writeable = false →
    Settled s.stream.cur.ftag s.stream s.closed
  current : s.stream.cur.ftag.unfinalized = true → s.stream.cur.ftag.state.writeable = false →
    Current S s.stream.cur.ftag s.stream s.closed

theorem StoredBelow.durable {k : Nat} (h : StoredBelow s.ftags s.closed k) : Durable s :=
  fun n ftag hn hc hm i hi hi' => (h n ftag hn hc hm i hi hi').1

/-- What holds where a call failed, too. -/
def Lasting (S : Nat) (s : Sys) : Prop := Durable s ∧ (s.live = true → Tracked S s)

theorem Tracked.lasting (h : Tracked S s) : Lasting S s := ⟨h.stored.durable, fun _ => h⟩

theorem Durable.dead (h : Durable s) (hlive : s.live = false) : Lasting S s :=
  ⟨h, fun hs => by simp [hlive] at hs⟩

/-! ## Where a file ends -/

theorem objectRoom_zero {headerlen : Nat} (hsize : ftag.objsize = 0)
    (hpos : 0 < ftag.recoverybytes + headerlen) (hlt : ftag.recoverybytes + headerlen < SizeT.modulus) :
    objectRoom ftag headerlen = SizeT.modulus - (ftag.recoverybytes + headerlen) := by
  rw [objectRoom, hsize, SizeT.sub, Nat.zero_add, Nat.mod_eq_of_lt hlt,
    Nat.mod_eq_of_lt (by omega)]

theorem objectRoom_of_le {headerlen : Nat} (hsize : ftag.objsize < SizeT.modulus)
    (hle : ftag.recoverybytes + headerlen ≤ ftag.objsize) :
    objectRoom ftag headerlen = ftag.objsize - (ftag.recoverybytes + headerlen) :=
  SizeT.sub_of_le hle hsize

theorem objectRoom_pos (hS : S < SizeT.modulus) (h : Current S ftag stream closed) (hm : Measured ftag)
    (hroom : S ≠ 0 → ftag.recoverybytes + stream.recoveryheaderlen < S)
    (hhdr : 0 < stream.recoveryheaderlen) : 0 < objectRoom ftag stream.recoveryheaderlen := by
  have hsize := h.objsize
  have hstart := h.start_ge
  by_cases hzero : S = 0
  · have hcnt := hm (hsize.trans hzero)
    unfold Countable at hcnt
    rw [objectRoom_zero (hsize.trans hzero) (by omega) (by omega)]
    omega
  · have hlt := hroom hzero
    rw [objectRoom_of_le (by omega) (by omega)]
    omega

theorem completed_unfinalized (ftag : Ftag) : (completed ftag).unfinalized = false := rfl

theorem Current.ended_le (h : Current S ftag stream closed) (hm : Measured ftag)
    (hpos : 0 < objectRoom ftag stream.recoveryheaderlen) :
    ended ftag ≤ stream.objno ∧
      (stream.offset = stream.recoveryheaderlen → ftag.objno < stream.objno →
        ended ftag < stream.objno) := by
  have hobjno := h.objno_le
  by_cases hzero : ftag.objsize = 0
  · have hended : ended ftag = ftag.objno := by
      have hdata : dataperobj (completed ftag) = 0 := if_neg (not_not.2 hzero)
      exact if_pos hdata
    exact ⟨hended ▸ hobjno, fun _ hlt => hended ▸ hlt⟩
  · have hdata : dataperobj (completed ftag) = objectRoom ftag stream.recoveryheaderlen := by
      refine (if_pos hzero).trans ?_
      rw [objectRoom, ← h.header, Nat.add_comm]
      rfl
    have hended : ended ftag = ftag.objno + finobjbounds (completed ftag) :=
      if_neg (hdata ▸ hpos.ne')
    have hspec := (finobjbounds_spec (completed_unfinalized ftag) (hdata ▸ hpos.ne')).1
    rw [hdata] at hspec
    -- what the tag counts is what the stream has behind it
    have hextent : dataExtent (completed ftag) ≤
        (stream.objno - ftag.objno) * objectRoom ftag stream.recoveryheaderlen +
          (stream.offset - stream.recoveryheaderlen) := by
      rw [← h.extent hm]
      have hle := h.start_ge
      rw [← h.header] at hle ⊢
      refine (SizeT.sub_le_of_le (hle.trans (Nat.le_add_left _ _))).trans ?_
      change ftag.bytes + ftag.offset - headerlen ftag ≤ _
      omega
    have hwithin := h.within hm
    generalize objectRoom ftag stream.recoveryheaderlen = room at *
    have hsucc := Nat.succ_mul (stream.objno - ftag.objno) room
    refine ⟨?_, fun hstart hlt => ?_⟩
    · rcases hspec with hfst | hlt
      · omega
      · have hle : finobjbounds (completed ftag) * room < (stream.objno - ftag.objno).succ * room := by
          omega
        have hlt' := Nat.lt_of_mul_lt_mul_right hle
        omega
    · rw [hstart, Nat.sub_self, Nat.add_zero] at hextent
      rcases hspec with hfst | hlt'
      · omega
      · have hlt'' := Nat.lt_of_mul_lt_mul_right (lt_of_lt_of_le hlt' hextent)
        omega

/-! ## Tags and streams that say the same -/

/-- A tag that agrees on where the file is and what it holds. -/
structure SameExtent (ftag ftag' : Ftag) : Prop where
  objsize : ftag'.objsize = ftag.objsize
  header : headerlen ftag' = headerlen ftag
  objno : ftag'.objno = ftag.objno
  offset : ftag'.offset = ftag.offset
  bytes : ftag'.bytes = ftag.bytes
  recoverybytes : ftag'.recoverybytes = ftag.recoverybytes

theorem SameExtent.measured (h : SameExtent ftag ftag') : Measured ftag' ↔ Measured ftag := by
  unfold Measured Countable
  rw [h.objsize, h.offset, h.bytes, h.recoverybytes]

theorem SameExtent.ended (h : SameExtent ftag ftag') : ended ftag' = ended ftag := by
  have hdata : dataperobj (completed ftag') = dataperobj (completed ftag) := by
    change (if ftag'.objsize ≠ 0 then SizeT.sub ftag'.objsize
      (headerlen ftag' + ftag'.recoverybytes) else 0) = _
    rw [h.objsize, h.header, h.recoverybytes]
    rfl
  have hextent : dataExtent (completed ftag') = dataExtent (completed ftag) := by
    change SizeT.sub (ftag'.bytes + ftag'.offset) (headerlen ftag') = _
    rw [h.bytes, h.offset, h.header]
    rfl
  have hobjno : (completed ftag').objno = (completed ftag).objno := h.objno
  unfold Sys.ended datastreamFilebounds finobjbounds
  rw [hdata, hextent, hobjno, completed_unfinalized, completed_unfinalized]

theorem Current.retag (h : Current S ftag stream closed) (hsame : SameExtent ftag ftag') :
    Current S ftag' stream closed := by
  have hroom : objectRoom ftag' stream.recoveryheaderlen =
      objectRoom ftag stream.recoveryheaderlen := by
    rw [objectRoom, objectRoom, hsame.objsize, hsame.recoverybytes]
  refine ⟨hsame.objsize.trans h.objsize, hsame.header.trans h.header, ?_, ?_, h.offset_ge, ?_, ?_,
    fun hm => ?_, fun hm => ?_, fun hm => ?_⟩
  · rw [hsame.offset]
    exact h.start_ge
  · rw [hsame.objno]
    exact h.objno_le
  · rw [hsame.objno, hsame.bytes]
    exact h.begun
  · rw [hsame.bytes]
    exact h.alone
  · rw [hsame.objno]
    exact h.before (hsame.measured.1 hm)
  · rw [hsame.offset, hsame.bytes, hsame.objno, hroom]
    exact h.extent (hsame.measured.1 hm)
  · rw [hroom]
    exact h.within (hsame.measured.1 hm)

theorem Current.move (h : Current S ftag stream closed)
    (hhdr : stream'.recoveryheaderlen = stream.recoveryheaderlen) (hobjno : stream'.objno = stream.objno)
    (hoff : stream'.offset = stream.offset) (hhdl : stream'.datahandle = none → stream.datahandle = none)
    (hcur : stream'.curfile = stream.curfile) : Current S ftag stream' closed := by
  obtain ⟨h₁, h₂, h₃, h₄, h₅, h₆, h₇, h₈, h₉, h₁₀⟩ := h
  refine ⟨h₁, ?_, ?_, ?_, ?_, ?_, ?_, ?_, ?_, ?_⟩
  all_goals simp only [hhdr, hobjno, hoff, hcur]
  · exact h₂
  · exact h₃
  · exact h₄
  · exact h₅
  · exact fun hnone => h₆ (hhdl hnone)
  · exact fun hnone => h₇ (hhdl hnone)
  · exact h₈
  · exact h₉
  · exact h₁₀

theorem Settled.retag (h : Settled ftag stream closed) (hsame : SameExtent ftag ftag') :
    Settled ftag' stream closed := by
  intro hm i hi hi'
  rw [hsame.objno] at hi
  rw [hsame.ended] at hi'
  exact h (hsame.measured.1 hm) i hi hi'

theorem StoredBelow.mono {k k' : Nat} (h : StoredBelow ftags closed k) (hk : k ≤ k')
    (hcl : ∀ i, i < k → closed i = true → closed' i = true) : StoredBelow ftags closed' k' := by
  intro n ftag hn hc hm i hi hi'
  obtain ⟨hci, hlt⟩ := h n ftag hn hc hm i hi hi'
  exact ⟨hcl i hlt hci, by omega⟩

theorem StoredBelow.put {k : Nat} (h : StoredBelow s.ftags closed k)
    (hftags : ∀ n, ftags n = s.ftags n ∨ ∀ ftag, ftags n = some ftag → ¬ Complete ftag) :
    StoredBelow ftags closed k := by
  intro n ftag hn hc
  rcases hftags n with hsame | hquiet
  · exact h n ftag (hsame ▸ hn) hc
  · exact absurd hc (hquiet ftag hn)

theorem store_quiet (hquiet : ¬ Complete ftag) (hftags : ftags = s.ftags ∨ ftags = (store ftag s).ftags)
    (n : Nat) : ftags n = s.ftags n ∨ ∀ ftag, ftags n = some ftag → ¬ Complete ftag := by
  rcases hftags with rfl | rfl
  · exact .inl rfl
  · by_cases hn : n = ftag.fileno
    · refine .inr fun ftag' h => ?_
      simp only [store, hn, if_true, Option.some.injEq] at h
      exact h ▸ hquiet
    · exact .inl (by simp [store, hn])

theorem sized_quiet (hquiet : ¬ Complete ftag) : ¬ Complete (sized ftag) := by
  intro hc
  apply hquiet
  rcases hc with hc | hc
  · refine .inl ?_
    simp only [sized] at hc
    split at hc
    · cases hc
    · exact hc
  · exact .inr hc

/-! ## Opening and writing objects -/

/-- The tag of the current file may change, where it says the same about the file. -/
theorem Tracked.retag (h : Tracked S s) {f : Ftag → Ftag} (hstr : s'.stream = retagged f s.stream)
    (hcl : s'.closed = s.closed)
    (hftags : ∀ n, s'.ftags n = s.ftags n ∨ ∀ ftag, s'.ftags n = some ftag → ¬ Complete ftag)
    (hquiet : ¬ Complete (f s.stream.cur.ftag)) (hsame : SameExtent s.stream.cur.ftag (f s.stream.cur.ftag))
    (hunfin : (f s.stream.cur.ftag).unfinalized = s.stream.cur.ftag.unfinalized)
    (hwr : (f s.stream.cur.ftag).state.writeable = s.stream.cur.ftag.state.writeable) : Tracked S s' := by
  have hcur : s'.stream.cur.ftag = f s.stream.cur.ftag := by rw [hstr, cur_retagged]
  have hsto := h.stored.put hftags
  refine ⟨?_, ?_, ?_, ?_, ?_, ?_, ?_, hcur ▸ hquiet, ?_, ?_⟩
  · rw [hstr]
    exact h.scheme
  · rw [hstr]
    exact h.header
  · rw [hstr]
    exact h.handle
  · rw [hstr]
    exact h.idle
  · rw [hstr]
    exact h.offset_ge
  · rw [hstr, hcl]
    exact hsto
  · rw [hstr, hcl]
    intro j hj hw
    have hfile : (retagged f s.stream).files j = s.stream.files j :=
      Stream.files_setFile_of_ne _ _ (Nat.ne_of_lt hj)
    rw [hfile] at hw ⊢
    exact h.previous j hj hw
  · rw [hcur, hunfin, hwr, hcl, hstr]
    intro hfinal hw
    exact (h.settled hfinal hw).retag hsame
  · rw [hcur, hunfin, hwr, hcl, hstr]
    intro hfinal hw
    exact ((h.current hfinal hw).retag hsame).move rfl rfl rfl id rfl

theorem Tracked.put (h : Tracked S s) {os : List (Option Nat)}
    (hftags : ∀ n, ftags n = s.ftags n ∨ ∀ ftag, ftags n = some ftag → ¬ Complete ftag) :
    Tracked S { s with outcomes := os, ftags := ftags } :=
  ⟨h.scheme, h.header, h.handle, h.idle, h.offset_ge, h.stored.put hftags, h.previous, h.quiet,
    h.settled, h.current⟩

theorem Tracked.opens (h : Tracked S s) (hnone : s.stream.datahandle = none) :
    wp openCurrentObj (fun _ => Tracked S) (Tracked S) s := by
  have hsized : ∀ os ftags, (ftags = s.ftags ∨ ftags = (store (sized s.stream.cur.ftag) s).ftags) →
      Tracked S { s with outcomes := os, ftags := ftags, stream := retagged sized s.stream } := by
    intro os ftags hftags
    have hquiet := sized_quiet h.quiet
    exact h.retag rfl rfl (store_quiet hquiet hftags) hquiet ⟨rfl, rfl, rfl, rfl, rfl, rfl⟩
      (sized_unfinalized _) rfl
  -- the object is not closed any more, with or without a handle on it
  have hopen : ∀ s, Tracked S s → s.stream.datahandle = none → ∀ os segments handle,
      (handle = none ∨ handle = some s.stream.objno) →
      Tracked S { rewritten s segments with
        outcomes := os, stream := { s.stream with datahandle := handle } } := by
    intro s h hnone os segments handle hhdl
    have hreopen : ∀ i, i < s.stream.objno → s.closed i = true →
        (if i = s.stream.objno then false else s.closed i) = true := by
      intro i hi hc
      rw [if_neg (Nat.ne_of_lt hi)]
      exact hc
    have hset : ∀ ftag, Settled ftag s.stream s.closed → Settled ftag
        { s.stream with datahandle := handle } (rewritten s segments).closed := by
      intro ftag hset hm i hi hi'
      rcases hset hm i hi hi' with ⟨hc, hlt⟩ | hsome
      · exact .inl ⟨hreopen i hlt hc, hlt⟩
      · exact absurd (hnone.symm.trans hsome) (by simp)
    refine ⟨h.scheme, h.header, fun i hi => ?_, fun _ => h.idle hnone, h.offset_ge,
      h.stored.mono le_rfl hreopen, fun j hj hw => hset _ (h.previous j hj hw), h.quiet,
      fun hfinal hw => hset _ (h.settled hfinal hw), fun hunfin hw => ?_⟩
    · rcases hhdl with rfl | rfl
      · cases hi
      · exact (Option.some.inj hi).symm
    · have hcurr := h.current hunfin hw
      have hmoved : Current S s.stream.cur.ftag { s.stream with datahandle := handle } s.closed :=
        hcurr.move rfl rfl rfl (fun _ => hnone) rfl
      exact ⟨hmoved.objsize, hmoved.header, hmoved.start_ge, hmoved.objno_le, hmoved.offset_ge,
        hmoved.begun, hmoved.alone, fun hm i hi hi' => hreopen i hi' (hmoved.before hm i hi hi'),
        hmoved.extent, hmoved.within⟩
  refine wp_openCurrentObj (fun os ftags hftags => ?_) (fun os => ?_) fun os =>
    hsized os _ (.inl rfl)
  · have ht := hsized os ftags hftags
    refine wp_openHandle hnone (fun os' _ _ => hopen _ ht hnone os' _ _ (.inr rfl)) (fun os' => ?_)
      fun os' w _ => ?_
    · exact hsized os' ftags hftags
    · have ho := hopen _ ht hnone os' (pieces .header w) none (.inl rfl)
      have hsame : ({ retagged sized s.stream with datahandle := none } : Stream) =
          retagged sized s.stream := by
        rw [← hnone]
        rfl
      simp only [hsame] at ho
      exact ho
  · exact ⟨h.scheme, h.header, h.handle, h.idle, h.offset_ge, h.stored, h.previous, h.quiet,
      h.settled, h.current⟩

theorem Current.roomLeft_eq (h : Current S ftag stream closed) (hm : Measured ftag) :
    roomLeft (objectRoom ftag stream.recoveryheaderlen) stream =
      objectRoom ftag stream.recoveryheaderlen - (stream.offset - stream.recoveryheaderlen) := by
  have hwithin := h.within hm
  have hlt : objectRoom ftag stream.recoveryheaderlen < SizeT.modulus :=
    Nat.mod_lt _ SizeT.modulus_pos
  rw [roomLeft, SizeT.sub_of_diff_lt h.offset_ge (by omega), SizeT.sub_of_le hwithin hlt]

theorem Current.write (h : Current S ftag stream closed) {n : Nat} (hhdl : stream.datahandle ≠ none)
    (hn : n ≤ roomLeft (objectRoom ftag stream.recoveryheaderlen) stream)
    (hhdr : stream'.recoveryheaderlen = stream.recoveryheaderlen) (hobjno : stream'.objno = stream.objno)
    (hoff : stream'.offset = stream.offset + n) (hnone : stream'.datahandle = stream.datahandle) :
    Current S { ftag with bytes := ftag.bytes + n } stream' closed := by
  have hmeasured : Measured { ftag with bytes := ftag.bytes + n } → Measured ftag := by
    intro hm hzero
    have hcnt := hm hzero
    unfold Countable at hcnt ⊢
    simp only at hcnt
    omega
  have hge := h.offset_ge
  refine ⟨h.objsize, ?_, ?_, ?_, ?_, fun h' => absurd (hnone.symm.trans h') hhdl,
    fun h' => absurd (hnone.symm.trans h') hhdl, fun hm => ?_, fun hm => ?_, fun hm => ?_⟩
  all_goals simp only [hhdr, hobjno, hoff]
  · exact h.header
  · exact h.start_ge
  · exact h.objno_le
  · omega
  · exact h.before (hmeasured hm)
  · have hextent := h.extent (hmeasured hm)
    change _ = (stream.objno - ftag.objno) * objectRoom ftag stream.recoveryheaderlen + _
    omega
  · have hwithin := h.within (hmeasured hm)
    rw [h.roomLeft_eq (hmeasured hm)] at hn
    change _ ≤ objectRoom ftag stream.recoveryheaderlen
    omega

theorem Tracked.data {dataperobj h : Nat} {bytes : List Char} (hs : Tracked S s) (hw : Writing dataperobj s)
    (hh : s.stream.datahandle = some h) (hle : bytes.length ≤ roomLeft dataperobj s.stream) :
    Tracked S
      (append h [.data s.stream.cur.ftag.fileno bytes] { s with stream := wrote bytes s }) := by
  have hcur := congrArg Streamfile.ftag (cur_wrote bytes s)
  have hhdl : s.stream.datahandle ≠ none := by simp [hh]
  rw [← hw.room] at hle
  have hcurr : Current S { s.stream.cur.ftag with
      bytes := s.stream.cur.ftag.bytes + bytes.length } (wrote bytes s) s.closed :=
    (hs.current hw.unfinalized hw.writeable).write hhdl hle rfl rfl rfl rfl
  refine ⟨hs.scheme, hs.header, hs.handle, fun hnone => absurd hnone hhdl,
    hs.offset_ge.trans (Nat.le_add_right _ _), hs.stored, ?_, ?_, ?_, ?_⟩
  · intro j hj hwr
    have hfile : (wrote bytes s).files j = s.stream.files j :=
      Stream.files_setFile_of_ne _ _ (Nat.ne_of_lt hj)
    simp only [Sys.append] at hwr ⊢
    rw [hfile] at hwr ⊢
    exact hs.previous j hj hwr
  · simp only [Sys.append]
    rw [hcur]
    exact hs.quiet
  · simp only [Sys.append]
    rw [hcur]
    intro hfinal
    exact absurd (hw.unfinalized.symm.trans hfinal) (by simp)
  · simp only [Sys.append]
    rw [hcur]
    exact fun _ _ => hcurr

/-! ## Closing objects -/

theorem Settled.retired {k : Nat} (h : Settled ftag s.stream s.closed) (hobjno : s.stream.objno ≤ k)
    (hhdl : ∀ i, s.stream.datahandle = some i → i < k) (hm : Measured ftag) :
    ∀ i, ftag.objno ≤ i → i ≤ ended ftag → s.closedAfter i = true ∧ i < k := by
  intro i hi hi'
  rcases h hm i hi hi' with ⟨hcl, hlt⟩ | hopen
  · exact ⟨by simp [closedAfter, hcl], by omega⟩
  · exact ⟨by simp [closedAfter, hopen], hhdl i hopen⟩

theorem Completes.storedBelow {n k : Nat} (hcomp : Completes s n ftags) (hsto : StoredBelow s.ftags closed k)
    (hfiles : ∀ j < n, (s.stream.files j).ftag.state.writeable = false →
      Measured (s.stream.files j).ftag → ∀ i, (s.stream.files j).ftag.objno ≤ i →
        i ≤ ended (s.stream.files j).ftag → closed i = true ∧ i < k) : StoredBelow ftags closed k := by
  intro n ftag hn hc hm i hi hi'
  rcases hcomp n with hsame | ⟨j, hj, hwr, -, hnew⟩
  · exact hsto n ftag (hsame ▸ hn) hc hm i hi hi'
  · obtain rfl : completed (s.stream.files j).ftag = ftag := Option.some.inj (hnew.symm.trans hn)
    exact hfiles j hj hwr hm i hi hi'

theorem closedAfter_of_closed {i : Nat} (h : s.closed i = true) : s.closedAfter i = true := by
  simp [closedAfter, h]

theorem Completes.retired {k k' : Nat} (hcomp : Completes s s.stream.curfile ftags)
    (hsto : StoredBelow s.ftags s.closed k)
    (hprevious : ∀ j < s.stream.curfile, (s.stream.files j).ftag.state.writeable = false →
      Settled (s.stream.files j).ftag s.stream s.closed) (hk : k ≤ k') (hobjno : s.stream.objno ≤ k')
    (hhdl : ∀ i, s.stream.datahandle = some i → i < k') : StoredBelow ftags s.closedAfter k' :=
  hcomp.storedBelow (hsto.mono hk fun _ _ => closedAfter_of_closed) fun j hj hw =>
    (hprevious j hj hw).retired hobjno hhdl

theorem Tracked.left (h : Tracked S s) (hcomp : Completes s s.stream.curfile ftags) :
    StoredBelow ftags s.closedAfter (s.stream.objno + 1) :=
  hcomp.retired h.stored h.previous (Nat.le_succ _) (Nat.le_succ _)
    fun i hi => (h.handle i hi).le.trans_lt (Nat.lt_succ_self _)

theorem Tracked.retire_durable (h : Tracked S s) {closed : Nat → Bool} (hcl : ∀ i, s.closed i → closed i)
    (hftags : ftags = s.ftags ∨
      Completes s s.stream.curfile ftags ∧ closed = s.closedAfter) (hs' : s'.ftags = ftags)
    (hs'' : s'.closed = closed) : Durable s' := by
  subst hs' hs''
  rcases hftags with hsame | ⟨hcomp, hafter⟩
  · have hsto := h.stored.mono le_rfl fun i _ => hcl i
    rw [← hsame] at hsto
    exact hsto.durable
  · have hsto := h.left hcomp
    rw [← hafter] at hsto
    exact hsto.durable

theorem Current.leave (h : Current S ftag stream closed)
    (hroom : roomLeft (objectRoom ftag stream.recoveryheaderlen) stream = 0)
    (hpos : Measured ftag → 0 < objectRoom ftag stream.recoveryheaderlen)
    (hidle : stream.datahandle = none → stream.offset = stream.recoveryheaderlen)
    (hhdl : ∀ i, stream.datahandle = some i → i = stream.objno)
    (hcl : ∀ i, closed i = true → closed' i = true)
    (hcl' : ∀ i, stream.datahandle = some i → closed' i = true)
    (hhdr : stream'.recoveryheaderlen = stream.recoveryheaderlen) (hobjno : stream'.objno = stream.objno + 1)
    (hoff : stream'.offset = stream.recoveryheaderlen) (hcur : stream'.curfile = 0) :
    Current S ftag stream' closed' := by
  have hle := h.objno_le
  refine ⟨h.objsize, ?_, ?_, ?_, ?_, ?_, fun _ hne => absurd hcur hne, fun hm => ?_,
    fun hm => ?_, fun hm => ?_⟩
  all_goals simp only [hhdr, hobjno, hoff]
  · exact h.header
  · exact h.start_ge
  · omega
  · exact le_rfl
  · exact fun _ heq => by omega
  · intro i hi hi'
    rcases Nat.lt_or_ge i stream.objno with hlt | hge
    · exact hcl i (h.before hm i hi hlt)
    · obtain rfl : i = stream.objno := by omega
      cases hd : stream.datahandle with
      | none =>
        -- an object that was never opened is not full
        have hfull := h.roomLeft_eq hm
        rw [hroom, hidle hd, Nat.sub_self, Nat.sub_zero] at hfull
        exact absurd hfull.symm (hpos hm).ne'
      | some j => exact hcl' _ (hhdl j hd ▸ hd)
  · have hextent := h.extent hm
    have hfull := h.roomLeft_eq hm
    rw [hroom] at hfull
    have hwithin := h.within hm
    have hsucc : stream.objno + 1 - ftag.objno = (stream.objno - ftag.objno) + 1 := by omega
    rw [hsucc, Nat.succ_mul, Nat.sub_self]
    omega
  · rw [Nat.sub_self]
    exact Nat.zero_le _

theorem Tracked.turn {dataperobj : Nat} (hS : S < SizeT.modulus) (h : Tracked S s)
    (hroom : S ≠ 0 → s.stream.cur.ftag.recoverybytes + s.stream.recoveryheaderlen < S)
    (hw : Writing dataperobj s) (hfull : roomLeft dataperobj s.stream = 0) :
    wp nextObject (fun _ => Tracked S) (Lasting S) s := by
  have hcurr := h.current hw.unfinalized hw.writeable
  have hhdr : 0 < s.stream.recoveryheaderlen :=
    h.header ▸ List.length_pos_iff.2 s.stream.header_ne_nil
  rw [← hw.room] at hfull
  -- what the stream has written to the object does not matter
  have hleave : ∀ os objs finfo offset, wp leaveObject (fun _ => Tracked S) (Lasting S) { s with
      outcomes := os, objs := objs
      stream := { s.stream with finfo := finfo, offset := offset } } := by
    intro os objs finfo offset
    refine wp_bind.2 (wp_retireObject (fun os files ftags hfiles hcomp => ?_) ?_)
    · have hcur := congrArg Streamfile.ftag hfiles
      have hleft : Current S s.stream.cur.ftag { s.stream with
          finfo := finfo, datahandle := none, files := files, curfile := 0
          objno := s.stream.objno + 1, offset := s.stream.recoveryheaderlen } s.closedAfter := by
        refine hcurr.leave hfull
          (fun hm => objectRoom_pos hS hcurr hm hroom hhdr) h.idle h.handle ?_ ?_ rfl rfl rfl
          rfl
        · exact fun i hi => by simp [closedAfter, hi]
        · exact fun i hi => by simp [closedAfter, hi]
      refine wp_modifyStream.2 ⟨h.scheme, h.header, fun i hi => (by cases hi), fun _ => rfl, le_rfl,
        h.left hcomp, fun j hj => absurd hj (Nat.not_lt_zero j), ?_, ?_, ?_⟩
      all_goals simp only [Stream.cur] at hcur ⊢
      all_goals rw [hcur]
      · exact h.quiet
      · exact fun hfinal => absurd (hw.unfinalized.symm.trans hfinal) (by simp)
      · exact fun _ _ => hleft
    · intro os closed ftags stream hcl hftags
      exact (h.retire_durable hcl hftags rfl rfl).dead rfl
  refine wp_bind.2 (wp_bind.2 (wp_get.2 (wp_ite.2 ⟨fun _ => ?_, fun _ => wp_pure.2 ?_⟩)))
  · refine wp_onFail.2 (wp_putfinfo (fun i os finfo block hi hlen _ => ?_) (fun os finfo => ?_) ?_)
    · exact hleave _ _ _ _
    · exact Durable.dead h.stored.durable rfl
    · exact fun i os finfo w hi hw => Durable.dead h.stored.durable rfl
  · exact hleave _ _ _ _

/-! ## The end of a file -/

/-- A file that reaches no further than `k` is settled, with the open object or without. -/
theorem Current.settle (h : Current S ftag stream closed) (hsame : SameExtent ftag ftag')
    (hended : Measured ftag → ended ftag < stream'.objno ∧ ended ftag < stream.objno ∨
      ended ftag ≤ stream.objno ∧ stream'.objno = stream.objno ∧
        stream'.datahandle = some stream.objno) : Settled ftag' stream' closed := by
  intro hm i hi hi'
  rw [hsame.objno] at hi
  rw [hsame.ended] at hi'
  have hm' := hsame.measured.1 hm
  have hbef := h.before hm' i hi
  rcases hended hm' with ⟨hlt, hlt'⟩ | ⟨hle, hobjno, hhdl⟩
  · exact .inl ⟨hbef (by omega), by omega⟩
  · rcases Nat.lt_or_ge i stream.objno with hlt | hge
    · exact .inl ⟨hbef hlt, by omega⟩
    · obtain rfl : i = stream.objno := by omega
      exact .inr hhdl

/-- What `finfile` leaves behind: if the stream left its object, that was never opened. -/
structure AfterFile (stream : Stream) (s : Sys) : Prop where
  finalized : s.stream.cur.ftag.unfinalized = false
  curfile : s.stream.curfile = stream.curfile
  objno_ge : stream.objno ≤ s.stream.objno
  left : stream.objno ≠ s.stream.objno → s.stream.datahandle = none

theorem AfterFile.congr (h : AfterFile stream s) (hcur : stream.curfile = stream'.curfile)
    (hobjno : stream.objno = stream'.objno) : AfterFile stream' s := by
  refine ⟨h.finalized, h.curfile.trans hcur, ?_, ?_⟩
  · rw [← hobjno]
    exact h.objno_ge
  · rw [← hobjno]
    exact h.left

theorem Tracked.finishData (hS : S < SizeT.modulus) (h : Tracked S s)
    (hroom : S ≠ 0 → s.stream.cur.ftag.recoverybytes + s.stream.recoveryheaderlen < S)
    (hunfin : s.stream.cur.ftag.unfinalized)
    (hdata : s.stream.cur.ftag.bytes = 0 → s.stream.datahandle ≠ none) :
    wp finishData (fun _ s' => Tracked S s' ∧ AfterFile s.stream s') Durable s := by
  have hhdr : 0 < s.stream.recoveryheaderlen :=
    h.header ▸ List.length_pos_iff.2 s.stream.header_ne_nil
  have hfiles : ∀ stream : Stream, ∀ j < stream.curfile,
      (finished stream).files j = stream.files j := fun stream j hj =>
    Stream.files_setFile_of_ne _ _ (Nat.ne_of_lt hj)
  have hsame : SameExtent s.stream.cur.ftag (finalized s.stream.cur.ftag) :=
    ⟨rfl, rfl, rfl, rfl, rfl, rfl⟩
  have hquiet : ¬ Complete (finalized s.stream.cur.ftag) := by
    rintro (hc | hc)
    · cases hc
    · exact h.quiet (.inr hc)
  refine wp_finishData (fun hnone => ?_) ?_ (fun _ _ => h.stored.durable) fun _ _ _ _ _ _ =>
    h.stored.durable
  · have hcur := cur_finished { s.stream with
      objno := s.stream.objno + 1, offset := s.stream.recoveryheaderlen }
    have hset : ∀ ftag, Settled ftag s.stream s.closed → Settled ftag (finished { s.stream with
        objno := s.stream.objno + 1, offset := s.stream.recoveryheaderlen }) s.closed := by
      intro ftag hset hm i hi hi'
      rcases hset hm i hi hi' with ⟨hc, hlt⟩ | hsome
      · exact .inl ⟨hc, Nat.lt_succ_of_lt hlt⟩
      · exact absurd (hnone.symm.trans hsome) (by simp)
    refine ⟨⟨h.scheme, h.header, fun i hi => absurd (hnone.symm.trans hi) (by simp), fun _ => rfl,
      le_rfl, h.stored.mono (Nat.le_succ _) fun _ _ hc => hc, fun j hj hw => ?_, ?_, ?_, ?_⟩, ?_, rfl,
      Nat.le_succ _, fun _ => hnone⟩
    · have hfile := hfiles { s.stream with
        objno := s.stream.objno + 1, offset := s.stream.recoveryheaderlen } j hj
      dsimp only at hw ⊢
      rw [hfile] at hw ⊢
      exact hset _ (h.previous j hj hw)
    · exact hcur ▸ hquiet
    · rw [hcur]
      intro _ hw
      have hcurr := h.current hunfin hw
      refine hcurr.settle hsame fun hm => .inl ?_
      have hlt : s.stream.cur.ftag.objno < s.stream.objno := by
        refine lt_of_le_of_ne hcurr.objno_le fun heq => ?_
        exact hdata (hcurr.begun hnone heq) hnone
      have hended := (hcurr.ended_le hm (objectRoom_pos hS hcurr hm hroom hhdr)).2
        (h.idle hnone) hlt
      exact ⟨Nat.lt_succ_of_lt hended, hended⟩
    · rw [hcur]
      exact fun hfalse => by cases hfalse
    · rw [hcur]
      rfl
  · intro i os finfo block hi hlen _
    have hobjno := h.handle i hi
    have hcur := cur_finished { s.stream with
      finfo := finfo, offset := s.stream.offset + s.stream.cur.ftag.recoverybytes }
    refine ⟨⟨h.scheme, h.header, h.handle, fun hnone => absurd (hi.symm.trans hnone) (by simp),
      h.offset_ge.trans (Nat.le_add_right _ _), h.stored, fun j hj hw => ?_, ?_, ?_, ?_⟩, ?_, rfl,
      le_rfl, fun hne => absurd rfl hne⟩
    all_goals simp only [Sys.append]
    · have hfile := hfiles { s.stream with
        finfo := finfo, offset := s.stream.offset + s.stream.cur.ftag.recoverybytes } j hj
      simp only [Sys.append] at hw
      rw [hfile] at hw ⊢
      exact h.previous j hj hw
    · exact hcur ▸ hquiet
    · rw [hcur]
      intro _ hw
      have hcurr := h.current hunfin hw
      refine hcurr.settle hsame fun hm => .inr ⟨?_, rfl, hobjno ▸ hi⟩
      exact (hcurr.ended_le hm (objectRoom_pos hS hcurr hm hroom hhdr)).1
    · rw [hcur]
      exact fun hfalse => by cases hfalse
    · rw [hcur]
      rfl

theorem Tracked.finfile (hS : S < SizeT.modulus) (h : Tracked S s)
    (hroom : S ≠ 0 → s.stream.cur.ftag.recoverybytes + s.stream.recoveryheaderlen < S) :
    wp finfile (fun _ s' => Tracked S s' ∧ AfterFile s.stream s') Durable s := by
  have hdurable := h.stored.durable
  refine wp_finfile hdurable (fun hfinal => ⟨h, hfinal, rfl, le_rfl, fun hne => absurd rfl hne⟩)
    (fun hunfin _ hnone => ?_) fun hunfin hdata =>
      h.finishData hS hroom hunfin hdata
  refine wp_mono (wp_and (h.opens hnone) (openCurrentObj_spec hnone)) ?_ fun _ h => h.1.stored.durable
  intro _ s' ⟨hs', hopen⟩
  have hunfin' : s'.stream.cur.ftag.unfinalized := by
    rw [hopen.ftag, sized_unfinalized, hunfin]
  have hafter : ∀ s'', AfterFile s'.stream s'' → AfterFile s.stream s'' := fun s'' h =>
    h.congr hopen.curfile hopen.objno
  refine wp_mono (hs'.finishData hS ?_ hunfin' fun _ => ?_)
    (fun _ s'' h => ⟨h.1, hafter s'' h.2⟩) fun _ h => h
  · rw [hopen.ftag, hopen.header]
    exact hroom
  · simp [hopen.handle]

/-! ## New files -/

theorem Current.placed (hS : S < SizeT.modulus) (h : Placed stream ftag) (hsch : stream.scheme.objsize = S)
    (hhdr : stream.header.length = stream.recoveryheaderlen) (hge : stream.recoveryheaderlen ≤ stream.offset)
    (hle : S ≠ 0 → stream.offset ≤ S) (hlen : stream'.recoveryheaderlen = stream.recoveryheaderlen)
    (hobjno : stream'.objno = ftag.objno) (hoffset : stream'.offset = ftag.offset) :
    Current S ftag stream' closed := by
  obtain ⟨hbytes, hsize, hlength, -⟩ := h.empty
  have hpos : 0 < stream.recoveryheaderlen := hhdr ▸ List.length_pos_iff.2 stream.header_ne_nil
  have hstart : stream.recoveryheaderlen ≤ ftag.offset := by
    rcases h.position with ⟨-, hoff, -⟩ | ⟨-, hoff⟩
    · omega
    · omega
  refine ⟨hsize.trans hsch, ?_, ?_, hobjno.ge, ?_, fun _ _ => hbytes, fun _ _ => hbytes,
    fun _ i hi hi' => ?_, fun _ => ?_, fun hm => ?_⟩
  all_goals simp only [hlen, hobjno, hoffset] at *
  · exact hlength.trans hhdr
  · exact hstart
  · exact hstart
  · omega
  · rw [hbytes, Nat.sub_self]
    omega
  · by_cases hzero : S = 0
    · have hcnt := hm (hsize.trans (hsch.trans hzero))
      unfold Countable at hcnt
      rw [objectRoom_zero (hsize.trans (hsch.trans hzero)) (by omega) (by omega)]
      omega
    · have hlt := h.fits.resolve_left (hsch ▸ hzero)
      have hle' := hle hzero
      rw [objectRoom_of_le (by omega) (by omega)]
      rcases h.position with ⟨-, hoff, hroom⟩ | ⟨-, hoff⟩
      · have hroom' := hroom.resolve_left (hsch ▸ hzero)
        rw [SizeT.sub_of_le (by omega) (by omega)] at hroom'
        omega
      · omega

theorem Placed.quiet (h : Placed stream ftag) : ¬ Complete ftag := by
  obtain ⟨-, -, -, hstate⟩ := h.empty
  simp [Complete, hstate]

theorem Placed.unfinalized (h : Placed stream ftag) : ftag.unfinalized = true := by
  obtain ⟨-, -, -, hstate⟩ := h.empty
  simp [Ftag.unfinalized, hstate, DataState.toNat]

theorem Refuses.quiet (h : Refuses s s') (n : Nat) :
    s'.ftags n = s.ftags n ∨ ∀ ftag, s'.ftags n = some ftag → ¬ Complete ftag := by
  obtain ⟨os, ftags, wrapped, finfo, -, hftags, rfl⟩ := h
  rcases hftags n with hsame | ⟨-, hnone | ⟨ftag, hplaced, hsome⟩⟩
  · exact .inl hsame
  · exact .inr fun ftag' h' => (nomatch hnone.symm.trans h')
  · refine .inr fun ftag' h' => ?_
    obtain rfl := Option.some.inj (hsome.symm.trans h')
    exact hplaced.quiet

def advanced (stream : Stream) : Stream :=
  { stream with curfile := stream.curfile + 1, fileno := stream.fileno + 1 }

theorem Settled.advance (h : Settled ftag stream closed) (hobjno : stream.objno ≤ stream'.objno)
    (hhdl : stream'.datahandle = stream.datahandle) : Settled ftag stream' closed := by
  intro hm i hi hi'
  rcases h hm i hi hi' with ⟨hcl, hlt⟩ | hopen
  · exact .inl ⟨hcl, hlt.trans_le hobjno⟩
  · exact .inr (hhdl.trans hopen)

theorem Tracked.previous_enter (h : Tracked S s) (hfinal : s.stream.cur.ftag.unfinalized = false)
    (file : Streamfile) (finfo : RecoveryFinfo) (hobjno : s.stream.objno ≤ file.ftag.objno) :
    ∀ j < s.stream.curfile + 1,
      (((advanced s.stream).enter file finfo).files j).ftag.state.writeable = false →
      Settled (((advanced s.stream).enter file finfo).files j).ftag
        ((advanced s.stream).enter file finfo) s.closed := by
  intro j hj
  have hfile : ((advanced s.stream).enter file finfo).files j = s.stream.files j :=
    Stream.files_setFile_of_ne _ _ (Nat.ne_of_lt hj)
  rw [hfile]
  intro hw
  refine Settled.advance (?_ : Settled _ s.stream s.closed) hobjno rfl
  rcases Nat.lt_succ_iff_lt_or_eq.1 hj with hlt | rfl
  · exact h.previous j hlt hw
  · exact h.settled hfinal hw

/-- The object of the files before a new one is closed, unless the new one shares it. -/
theorem Tracked.enterNext (hS : S < SizeT.modulus) {next : Op Sys Unit}
    (hnext : ∀ s, wp next (fun _ => Enters s) (Refuses s) s) (h : Tracked S s)
    (hafter : AfterFile stream s) (hle : S ≠ 0 → s.stream.offset ≤ S) :
    wp (enterNext stream.objno next) (fun _ => Tracked S) (Lasting S) s := by
  refine wp_bind.2 (wp_modifyStream.2 (wp_bind.2 (wp_onFail.2 (wp_mono (hnext _) ?_ ?_))))
  · intro _ s' ⟨os, ftags, wrapped, ftag, finfo, hplaced, _, hftags, hs'⟩
    subst hs'
    change Placed (advanced s.stream) ftag at hplaced
    have hsto : StoredBelow ftags s.closed s.stream.objno :=
      h.stored.put (store_quiet hplaced.quiet hftags)
    have hcurr : ∀ stream' closed, stream'.recoveryheaderlen = s.stream.recoveryheaderlen →
        stream'.objno = ftag.objno → stream'.offset = ftag.offset →
        Current S ftag stream' closed := fun _ _ hlen hobjno hoffset =>
      Current.placed hS hplaced h.scheme h.header h.offset_ge hle hlen hobjno hoffset
    have hfinal : ftag.unfinalized ≠ false := by simp [hplaced.unfinalized]
    have hplace : ftag.objno = s.stream.objno ∧ ftag.offset = s.stream.offset ∨
        ftag.objno = s.stream.objno + 1 ∧ ftag.offset = s.stream.recoveryheaderlen :=
      hplaced.position.imp (fun h => ⟨h.1, h.2.1⟩) id
    have hobjno : s.stream.objno ≤ ftag.objno := by omega
    have hstart : s.stream.recoveryheaderlen ≤ ftag.offset := by
      have hge := h.offset_ge
      omega
    have hprevious := h.previous_enter hafter.finalized { metahandle := true, ftag := ftag } finfo
      hobjno
    refine wp_bind.2 (wp_get.2 (wp_ite.2 ⟨fun hleft => ?_, fun hsame => wp_pure.2 ?_⟩))
    · simp only [Stream.cur_enter] at hleft
      have hgone : ∀ i, s.stream.datahandle = some i → i < ftag.objno := by
        intro i hi
        rcases hplace with ⟨hsame, -⟩ | ⟨hobjno, -⟩
        · have hnone := hafter.left (hsame ▸ Ne.symm hleft)
          exact absurd (hnone.symm.trans hi) (by simp)
        · rw [h.handle i hi]
          omega
      refine wp_retireObject (fun os files ftags' hfiles hcomp => ?_) ?_
      · have hsto' := hcomp.retired hsto hprevious hobjno le_rfl hgone
        have hcur := congrArg Streamfile.ftag hfiles
        simp only [Stream.cur_enter] at hcur
        refine ⟨h.scheme, h.header, fun i hi => (nomatch hi), fun _ => ?_, hstart, hsto',
          fun j hj => absurd hj (Nat.not_lt_zero j), ?_, ?_, ?_⟩
        all_goals simp only [Stream.cur]
        · rcases hplace with ⟨hsame, hoff⟩ | ⟨-, hoff⟩
          · exact hoff.trans (h.idle (hafter.left (hsame ▸ Ne.symm hleft)))
          · exact hoff
        · exact hcur ▸ hplaced.quiet
        · exact fun hfalse => absurd (hcur ▸ hfalse) hfinal
        · intro _ _
          rw [hcur]
          exact hcurr _ _ rfl rfl rfl
      · intro os closed ftags' stream hcl hftags'
        refine Durable.dead ?_ rfl
        rcases hftags' with rfl | ⟨hcomp, rfl⟩
        · exact (hsto.mono le_rfl fun i _ => hcl i).durable
        · exact (hcomp.retired hsto hprevious hobjno le_rfl hgone).durable
    · simp only [Stream.cur_enter, ne_eq, Decidable.not_not] at hsame
      have hshared : ftag.objno = s.stream.objno := by
        have hge := hafter.objno_ge
        omega
      have hoffset : ftag.offset = s.stream.offset := by omega
      refine ⟨h.scheme, h.header, fun i hi => (h.handle i hi).trans hshared.symm,
        fun hnone => hoffset.trans (h.idle hnone), hstart, hsto.mono hobjno fun _ _ h => h,
        hprevious, ?_, ?_, ?_⟩
      all_goals simp only [Stream.cur_enter]
      · exact hplaced.quiet
      · exact fun hfalse => absurd hfalse hfinal
      · exact fun _ _ => hcurr _ _ rfl rfl rfl
  · intro s' hrefuses
    have hquiet := hrefuses.quiet
    obtain ⟨os, ftags, wrapped, finfo, _, _, hs'⟩ := hrefuses
    subst hs'
    refine Tracked.lasting ?_
    simp only [modifyStream_snd, Nat.add_sub_cancel]
    exact ⟨h.scheme, h.header, h.handle, h.idle, h.offset_ge, h.stored.put hquiet, h.previous,
      h.quiet, h.settled, fun hu hw => (h.current hu hw).move rfl rfl rfl id rfl⟩

/-- The invariant of a stream whose files are followed. -/
def Watched (S : Nat) (s : Sys) : Prop := (S ≠ 0 → Good S s) ∧ Tracked S s

/-- What holds where a call failed, too. -/
def WatchedKept (S : Nat) (s : Sys) : Prop := (S ≠ 0 → Kept S s) ∧ Lasting S s

theorem Watched.kept (h : Watched S s) : WatchedKept S s :=
  ⟨fun hS => (h.1 hS).kept, h.2.lasting⟩

theorem Watched.room (h : Watched S s) (hS : S ≠ 0) :
    s.stream.cur.ftag.recoverybytes + s.stream.recoveryheaderlen < S := (h.1 hS).fits.info_lt

/-- What an operation does to sizes and to files is proved apart. -/
theorem wp_watched {α : Type} {m : Op Sys α} {Q Q' : α → Sys → Prop} {E E' : Sys → Prop}
    (hgood : S ≠ 0 → wp m Q E s) (htrk : wp m Q' E' s) :
    wp m (fun a s => (S ≠ 0 → Q a s) ∧ Q' a s) (fun s => (S ≠ 0 → E s) ∧ E' s) s := by
  by_cases hS : S = 0
  · exact wp_mono htrk (fun _ _ h => ⟨fun hne => absurd hS hne, h⟩)
      fun _ h => ⟨fun hne => absurd hS hne, h⟩
  · exact wp_mono (wp_and (hgood hS) htrk) (fun _ _ h => ⟨fun _ => h.1, h.2⟩)
      fun _ h => ⟨fun _ => h.1, h.2⟩

theorem Watched.nextFile (hS : S < SizeT.modulus) {next : Op Sys Unit}
    (hnext : ∀ s, wp next (fun _ => Enters s) (Refuses s) s) (h : Watched S s) :
    wp (nextFile next) (fun _ => Tracked S) (Lasting S) s := by
  refine wp_bind.2 (wp_get.2 (wp_bind.2 (wp_onFail.2 (wp_mono (wp_watched
    (fun hpos => (h.1 hpos).finfile) (h.2.finfile hS h.room)) ?_ ?_))))
  swap
  · exact fun s' hs' => Durable.dead hs'.2 rfl
  intro _ s₁ ⟨hgood, h₁, hafter⟩
  refine wp_bind.2 (wp_onFail.2 (wp_putftag (fun os => ?_) fun os => ?_))
  · have hle : S ≠ 0 → s₁.stream.offset ≤ S := fun hpos => (hgood hpos).1.fits.offset_le
    have hquiet : ¬ Complete (s₁.stream.files s.stream.curfile).ftag := by
      rw [← hafter.curfile]
      exact h₁.quiet
    split
    · refine Tracked.enterNext hS hnext (h₁.put (store_quiet hquiet (.inr rfl))) ?_ hle
      exact ⟨hafter.finalized, hafter.curfile, hafter.objno_ge, hafter.left⟩
    · refine Tracked.enterNext hS hnext (h₁.put fun _ => .inl rfl) ?_ hle
      exact ⟨hafter.finalized, hafter.curfile, hafter.objno_ge, hafter.left⟩
  · exact Durable.dead h₁.stored.durable rfl

/-! ## Data -/

theorem watchedRules (hS : S < SizeT.modulus) : WriteRules (Watched S) (WatchedKept S) where
  weaken _ h := h.kept
  io _ _ h := ⟨fun hpos => (writeRules hS).io _ _ (h.1 hpos), h.2.put fun _ => .inl rfl⟩
  targets _ _ h hwrap := ⟨fun hpos => (writeRules hS).targets _ _ (h.1 hpos) hwrap,
    h.2.scheme, h.2.header, h.2.handle, h.2.idle, h.2.offset_ge, h.2.stored, h.2.previous, h.2.quiet,
    h.2.settled, h.2.current⟩
  room _ _ h hs := ⟨fun hpos => (writeRules hS).room _ _ (h.1 hpos) hs,
    h.2.scheme, h.2.header, h.2.handle, h.2.idle, h.2.offset_ge, h.2.stored, h.2.previous, h.2.quiet,
    h.2.settled, h.2.current⟩
  turn _ _ h hs hfull := wp_watched (fun hpos => (h.1 hpos).turn hs) (h.2.turn hS h.room hs hfull)
  opens _ _ h _ hnone := wp_watched (fun hpos => (h.1 hpos).opens hnone) (h.2.opens hnone)
  data _ _ _ _ h hs hh _ hle := ⟨fun hpos => (h.1 hpos).data hS hs hh hle, h.2.data hs hh hle⟩

/-- A file that may be written by others is no concern of the stream until it is released. -/
theorem Tracked.resize (h : Tracked S s) (length : Nat) :
    wp (resize length) (fun _ => Tracked S) (Lasting S) s := by
  refine wp_resize (fun wrapped _ => Tracked.lasting ?_) (fun os wrapped stream _ => ?_) ?_
  · exact ⟨h.scheme, h.header, h.handle, h.idle, h.offset_ge, h.stored, h.previous, h.quiet,
      h.settled, h.current⟩
  · exact Durable.dead h.stored.durable rfl
  · intro os ftags wrapped independentobjs dataperobj _ hftags
    have hquiet : ¬ Complete (extended independentobjs dataperobj
        (withBytes length s.stream.cur.ftag)) := sized_quiet h.quiet
    have hcur := congrArg Streamfile.ftag
      (cur_retagged (extended independentobjs dataperobj ∘ withBytes length) s.stream)
    refine ⟨h.scheme, h.header, h.handle, h.idle, h.offset_ge,
      h.stored.put (store_quiet hquiet hftags), fun j hj hw => ?_, ?_, ?_, ?_⟩
    · have hfile : (retagged (extended independentobjs dataperobj ∘ withBytes length)
          s.stream).files j = s.stream.files j :=
        Stream.files_setFile_of_ne _ _ (Nat.ne_of_lt hj)
      dsimp only at hw ⊢
      rw [hfile] at hw ⊢
      exact h.previous j hj hw
    · rw [hcur]
      exact hquiet
    · rw [hcur]
      exact fun _ hw => (nomatch hw)
    · rw [hcur]
      exact fun _ hw => (nomatch hw)

theorem Tracked.extend (h : Tracked S s) (length : Nat) :
    wp (datastreamExtend length) (fun _ => Tracked S) (Lasting S) s := by
  refine wp_bind.2 (wp_get.2 (wp_bind.2 (wp_check.2 ⟨fun _ => ?_, fun _ => h.lasting⟩)))
  refine wp_bind.2 (wp_check.2 ⟨fun hunfin => ?_, fun _ => h.lasting⟩)
  refine wp_bind.2 (wp_check.2 ⟨fun hidle => ?_, fun _ => h.lasting⟩)
  refine wp_bind.2 (wp_check.2 ⟨fun _ => ?_, fun _ => h.lasting⟩)
  refine wp_bind.2 (wp_bind.2 (wp_get.2 (wp_ite.2 ⟨fun hshared => wp_bind.2 ?_, fun _ => ?_⟩)))
  swap
  · exact wp_pure.2 (h.resize length)
  refine wp_bind.2 (wp_retireObject (fun os files ftags hfiles hcomp => ?_) ?_)
  · refine wp_modifyStream.2 (wp_bind.2 (wp_get.2 (wp_modifyFtag.2 (Tracked.resize ?_ length))))
    have hcur := congrArg Streamfile.ftag hfiles
    refine ⟨h.scheme, h.header, fun i hi => (nomatch hi), fun _ => rfl, le_rfl,
      h.left hcomp, fun j hj => absurd hj (Nat.not_lt_zero j), ?_, ?_, ?_⟩
    all_goals simp only [Stream.cur, Stream.setFile] at hcur ⊢
    all_goals rw [hcur]
    · exact h.quiet
    · exact fun hfinal => absurd (hunfin.symm.trans hfinal) (by simp)
    · intro _ hw
      have hcurr := h.current hunfin hw
      -- there is no data of the file in the object that it shared
      have hbytes : s.stream.cur.ftag.bytes = 0 := by
        rcases Bool.or_eq_true_iff.1 hidle with hempty | hnone
        · exact of_decide_eq_true hempty
        · exact hcurr.alone (by simpa using hnone) hshared
      refine ⟨hcurr.objsize, hcurr.header, le_rfl, le_rfl, le_rfl, fun _ _ => hbytes,
        fun _ _ => hbytes, fun _ i hi hi' => absurd hi' (Nat.not_lt.2 hi), fun _ => ?_, fun _ => ?_⟩
      · change s.stream.recoveryheaderlen - s.stream.recoveryheaderlen + s.stream.cur.ftag.bytes =
          (s.stream.objno + 1 - (s.stream.objno + 1)) * _ + (s.stream.recoveryheaderlen -
            s.stream.recoveryheaderlen)
        rw [hbytes, Nat.sub_self, Nat.sub_self, Nat.zero_mul]
      · rw [Nat.sub_self]
        exact Nat.zero_le _
  · intro os closed ftags stream hcl hftags
    exact (h.retire_durable hcl hftags rfl rfl).dead rfl

/-! ## The end of a stream -/

theorem Durable.freestream (h : Durable s) : Lasting S (freestream s).2 := Durable.dead h rfl

theorem Tracked.closes (h : Tracked S s) (hQ : ∀ os, E { s with
      outcomes := os, stream := { s.stream with datahandle := none }, closed := s.closedAfter }) :
    wp closeCurrentObj (fun _ => E) Durable s := by
  refine wp_closeCurrentObj (fun hnone => ?_) (fun i os hi => ?_) fun os closed hcl => ?_
  · have hcl : s.closedAfter = s.closed := by
      funext i
      simp [closedAfter, hnone]
    have hQ' := hQ s.outcomes
    rw [hcl, ← hnone] at hQ'
    exact hQ'
  · have hcl : s.closedAfter = fun j => decide (j = i) || s.closed j := by
      funext j
      simp [closedAfter, hi, eq_comm]
    have hQ' := hQ os
    rw [hcl] at hQ'
    exact hQ'
  · exact (h.stored.mono le_rfl fun i _ => hcl i).durable

theorem Tracked.finish (h : Tracked S s) (hfinal : s.stream.cur.ftag.unfinalized = false)
    (hcomp : Completes s (s.stream.curfile + 1) ftags) :
    StoredBelow ftags s.closedAfter (s.stream.objno + 1) := by
  have hhdl : ∀ i, s.stream.datahandle = some i → i < s.stream.objno + 1 := fun i hi =>
    (h.handle i hi).le.trans_lt (Nat.lt_succ_self _)
  refine hcomp.storedBelow
    (h.stored.mono (Nat.le_succ _) fun _ _ => closedAfter_of_closed) fun j hj hw => ?_
  rcases Nat.lt_succ_iff_lt_or_eq.1 hj with hlt | rfl
  · exact (h.previous j hlt hw).retired (Nat.le_succ _) hhdl
  · exact (h.settled hfinal hw).retired (Nat.le_succ _) hhdl

theorem Tracked.mark (h : Tracked S s) (f : Ftag → Ftag) (hstate : (f s.stream.cur.ftag).state =
      s.stream.cur.ftag.state) (hsame : SameExtent s.stream.cur.ftag (f s.stream.cur.ftag)) :
    Tracked S { s with stream := retagged f s.stream } := by
  refine h.retag rfl rfl (fun _ => .inl rfl) ?_ hsame ?_ ?_
  · unfold Complete
    rw [hstate]
    exact h.quiet
  · unfold Ftag.unfinalized
    rw [hstate]
  · rw [hstate]

theorem Watched.release (hS : S < SizeT.modulus) (h : Watched S s) :
    wp datastreamRelease (fun _ => Lasting S) (Lasting S) s := by
  have hdurable := h.2.stored.durable
  refine wp_bind.2 (wp_get.2 (wp_bind.2 (wp_onFail.2 (wp_check.2 ⟨fun _ => ?_, ?_⟩))))
  swap
  · exact fun _ => hdurable.freestream
  refine wp_bind.2 (wp_onFail.2 (wp_mono (h.2.finfile hS h.room) ?_ fun s' hs' => hs'.freestream))
  intro _ s' ⟨hs', hafter⟩
  rw [← hafter.curfile]
  have hmarked := hs'.mark (fun ftag =>
    { ftag with endofstream := true, availbytes := ftag.bytes }) rfl ⟨rfl, rfl, rfl, rfl, rfl, rfl⟩
  refine wp_bind.2 (wp_modifyFtag.2 (wp_bind.2 (wp_onFail.2 (wp_bind.2 ?_))))
  refine wp_mono (hmarked.closes fun os => ?_) (fun _ s'' h => h) fun s'' h => h.freestream
  -- the tag that is put does not say that the file is complete
  have hsto : StoredBelow s'.ftags (closedAfter { s' with stream := retagged _ s'.stream }) _ :=
    hmarked.stored.mono le_rfl fun _ _ => closedAfter_of_closed
  refine wp_bind.2 (wp_putftag (fun os => ?_) fun os => Durable.freestream hsto.durable)
  split
  · have hput := hsto.put (store_quiet hmarked.quiet (.inr rfl))
    refine wp_call (fun os => wp_freestream.2 ?_) fun os => ?_
    · exact Durable.freestream hput.durable
    · exact Durable.freestream hput.durable
  · refine wp_call (fun os => wp_freestream.2 ?_) fun os => ?_
    · exact Durable.freestream hsto.durable
    · exact Durable.freestream hsto.durable

theorem Watched.close (hS : S < SizeT.modulus) (h : Watched S s) :
    wp datastreamClose (fun _ => Lasting S) (Lasting S) s := by
  have hdurable := h.2.stored.durable
  refine wp_bind.2 (wp_get.2 (wp_bind.2 (wp_onFail.2 (wp_check.2 ⟨fun _ => ?_, ?_⟩))))
  swap
  · exact fun _ => hdurable.freestream
  refine wp_bind.2 (wp_onFail.2 (wp_mono (h.2.finfile hS h.room) ?_ fun s' hs' => hs'.freestream))
  intro _ s' ⟨hs', hafter⟩
  rw [← hafter.curfile]
  have hmarked := hs'.mark (fun ftag => { ftag with endofstream := true }) rfl
    ⟨rfl, rfl, rfl, rfl, rfl, rfl⟩
  refine wp_bind.2 (wp_modifyFtag.2 (wp_bind.2 (wp_onFail.2 ?_)))
  refine wp_mono (hmarked.closes fun os => ?_) (fun _ s'' h => h) fun s'' h => h.freestream
  refine wp_bind.2 (wp_completeFiles fun all os files ftags _ hcomp => ?_)
  have hsto := hmarked.finish ?_ hcomp
  · refine wp_bind.2 (wp_onFail.2 (wp_check.2 ⟨fun _ => wp_freestream.2 ?_, fun _ => ?_⟩))
    · exact Durable.freestream hsto.durable
    · exact Durable.freestream hsto.durable
  · simp only [cur_retagged]
    exact hafter.finalized

/-! ## Runs -/

/-- Every call keeps track of the files, save the one that changes how long recovery info is. -/
theorem Watched.perform (hS : S < SizeT.modulus) (h : Watched S s) {c : Call}
    (hc : ∀ path, c ≠ .setrecoverypath path) : WatchedKept S (perform c s).2 := by
  refine ⟨fun hpos => (h.1 hpos).perform (Nat.pos_of_ne_zero hpos) hS fun path hpath =>
    absurd hpath (hc path), ?_⟩
  have hlasting : ∀ {α : Type} {m : Op Sys α}, wp m (fun _ => Tracked S) (Lasting S) s →
      wp m (fun _ => Lasting S) (Lasting S) s := fun hm =>
    wp_mono hm (fun _ _ h => h.lasting) fun _ h => h
  have href := h.2.lasting
  apply wp_snd
  cases c with
  | create path stat =>
    refine wp_bind.2 (wp_get.2 (wp_bind.2 (wp_check.2 ⟨fun _ => hlasting ?_, fun _ => href⟩)))
    exact h.nextFile hS (createNewFile_spec path stat)
  | repack path stat =>
    refine wp_bind.2 (wp_get.2 (wp_bind.2 (wp_check.2 ⟨fun _ => hlasting ?_, fun _ => href⟩)))
    exact h.nextFile hS (openRepackFile_spec path stat)
  | write buf =>
    refine wp_bind.2 (wp_mono ((watchedRules hS).datastreamWrite buf h) ?_ fun _ h => h.2)
    exact fun _ _ h => wp_pure.2 h.2.lasting
  | seek fuel offset whence =>
    refine wp_bind.2 (wp_mono ((watchedRules hS).datastreamSeek fuel offset whence h) ?_
      fun _ h => h.2)
    exact fun _ _ h => wp_pure.2 h.2
  | setrecoverypath path => exact absurd rfl (hc path)
  | extend length => exact hlasting (h.2.extend length)
  | truncate length => exact wp_fail.2 href
  | release => exact h.release hS
  | close => exact h.close hS

theorem genstream_tracked (hS : S < SizeT.modulus) {scheme : Scheme} (hsch : scheme.objsize = S)
    (type : StreamType) (ctag streamid : List Char) (outcomes : List (Option Nat)) (path : List Char)
    (stat : FileStat) : Lasting S (genstream path stat (fresh type scheme ctag streamid outcomes)).2 := by
  generalize hs : fresh type scheme ctag streamid outcomes = s
  have hsize : s.stream.scheme.objsize = S := by rw [← hs, ← hsch, fresh]
  have hhdr : s.stream.header.length = s.stream.recoveryheaderlen := by rw [← hs]; rfl
  have hoffset : s.stream.offset = s.stream.recoveryheaderlen := by rw [← hs, fresh]
  have hnone : s.stream.datahandle = none := by rw [← hs, fresh]
  have hcur : s.stream.curfile = 0 := by rw [← hs, fresh]
  have hsto : ∀ closed k, StoredBelow s.ftags closed k := by
    intro closed k n ftag hn
    simp [← hs, fresh] at hn
  have hnext : ∀ next : Op Sys Unit, wp next (fun _ => Enters s) (Refuses s) s →
      wp next (fun _ => Lasting S) (fun s' => Lasting S (freestream s').2) s := by
    intro next hnext
    refine wp_mono hnext ?_ fun s' hrefuses =>
      Durable.freestream ((hsto s'.closed 0).put hrefuses.quiet).durable
    rintro _ s' ⟨os, ftags, wrapped, ftag, finfo, hplaced, _, hftags, hs'⟩
    subst hs'
    have hplace : ftag.offset = s.stream.recoveryheaderlen := by
      rcases hplaced.position with ⟨-, hoff, -⟩ | ⟨-, hoff⟩
      · exact hoff.trans hoffset
      · exact hoff
    have hle : S ≠ 0 → s.stream.offset ≤ S := by
      intro hpos
      have hfits := hplaced.fits.resolve_left (hsize ▸ hpos)
      omega
    refine Tracked.lasting ⟨hsize, hhdr, fun i hi => absurd (hnone.symm.trans hi) (by simp),
      fun _ => hplace, hplace.ge, (hsto _ _).put (store_quiet hplaced.quiet hftags),
      fun j hj => ?_, ?_, ?_, ?_⟩
    · exact absurd hj (by simp [Stream.enter, hcur])
    all_goals simp only [Stream.cur_enter]
    · exact hplaced.quiet
    · exact fun hfalse => absurd (hplaced.unfinalized.symm.trans hfalse) (by simp)
    · exact fun _ _ => Current.placed hS hplaced hsize hhdr hoffset.ge hle rfl rfl rfl
  refine wp_snd (wp_bind.2 (wp_get.2 (wp_onFail.2 (wp_ite.2 ⟨fun _ => ?_, fun _ => ?_⟩))))
  · exact hnext _ (openRepackFile_spec path stat s)
  · exact hnext _ (createNewFile_spec path stat s)

/-- The calls that are made to write files, extend them and release them. -/
def Ordinary (_ : Sys) (c : Call) : Prop := ∀ path, c ≠ .setrecoverypath path

/-- A file is not marked complete, or readable, before the objects it reaches are closed. -/
theorem complete_closed {scheme : Scheme} {ctag streamid : List Char} {s : Sys}
    (hS : scheme.objsize < SizeT.modulus) (hs : Reached .create scheme ctag streamid Ordinary s) {n : Nat}
    {ftag : Ftag} (hftag : s.ftags n = some ftag) (hcomplete : Complete ftag) (hmeasured : Measured ftag)
    (i : Nat) (hstart : ftag.objno ≤ i) (hend : i ≤ datastreamFilebounds ftag) : s.closed i = true := by
  have hkept : WatchedKept scheme.objsize s := by
    refine hs.invariant (fun outcomes path stat => ⟨fun hpos => ?_, ?_⟩) ?_
    · exact genstream_good (Nat.pos_of_ne_zero hpos) hS rfl _ ctag streamid outcomes path stat
    · exact genstream_tracked hS rfl _ ctag streamid outcomes path stat
    · exact fun s c h hlive hc => Watched.perform hS ⟨fun hpos => (h.1 hpos).2 hlive, h.2.2 hlive⟩ hc
  exact hkept.2.1 n ftag hftag hcomplete hmeasured i hstart hend

def singleFile : Sys := (perform .close (perform (.write ['x', 'y']) (sampleStream 150 [])).2).2

theorem singleFile_closed :
    (∃ ftag, singleFile.ftags 0 = some ftag ∧ ftag.state.data = .comp ∧ ftag.objno = 0 ∧
      datastreamFilebounds ftag = 0) ∧ singleFile.closed 0 = true := by
  have hreached : Reached .create (sampleScheme 150) ['c'] ['s'] Ordinary singleFile :=
    ((sampleStream_reached 150 [] Ordinary).perform (.write ['x', 'y']) (by decide +kernel)
      fun _ h => (nomatch h)).perform .close (by decide +kernel) fun _ h => (nomatch h)
  obtain ⟨ftag, hftag, hdata, hobjno, hbounds, hsize⟩ : ∃ ftag, singleFile.ftags 0 = some ftag ∧
      ftag.state.data = .comp ∧ ftag.objno = 0 ∧ datastreamFilebounds ftag = 0 ∧
        ftag.objsize = 150 := by
    refine ⟨(singleFile.ftags 0).get (by decide +kernel), (Option.some_get _).symm, ?_, ?_, ?_, ?_⟩
    all_goals decide +kernel
  refine ⟨⟨ftag, hftag, hdata, hobjno, hbounds⟩, ?_⟩
  exact complete_closed (by decide) hreached hftag (.inl hdata)
    (fun hzero => by omega) 0 hobjno.le hbounds.ge

end Sys

end Marfs.Datastream
