import Marfs.Datastream.Filelist

/-!
# The files of an object

`Windowed` is the invariant behind the list of a stream's files.  The list holds the last files of
the stream, in order; those before them are complete.  What is in the object of the stream is in the
list, so an object holds as many files as the list had in use at most, and the list starts over with
every object.
-/

namespace Marfs.Datastream

open Machine Recovery Tagging

def Segment.fileno : Segment → Option Nat
  | .header _ => none
  | .data fileno _ => some fileno
  | .finfo fileno _ => some fileno

namespace Sys

open Op

def Inside (objs : Nat → List Segment) (o k : Nat) : Prop :=
  ∃ segment ∈ objs o, segment.fileno = some k

/-- File `k` is placed in object `o`: its FTAG says so, in the list or where it is stored, or there
is something of it in the object. -/
def Places (stream : Stream) (objs : Nat → List Segment) (ftags : Nat → Option Ftag)
    (o k : Nat) : Prop :=
  (k ≤ stream.fileno ∧ ∃ ftag, ftags k = some ftag ∧ ftag.objno = o) ∨
  Inside objs o k ∨
  ∃ i ≤ stream.curfile, (stream.files i).ftag.fileno = k ∧ (stream.files i).ftag.objno = o

/-- No more files in use than an object may hold, and fewer than the list has places for.  Where
objects have no limit, the list has one place. -/
structure Windowed (objfiles alloc : Nat) (stream : Stream) (objs : Nat → List Segment)
    (ftags : Nat → Option Ftag) : Prop where
  scheme : stream.scheme.objfiles = objfiles
  handle : ∀ h, stream.datahandle = some h → h = stream.objno
  curfile_lt : stream.curfile < max objfiles 1
  alloc : stream.curfile < alloc
  slots : ∀ i ≤ stream.curfile,
    (stream.files i).ftag.fileno + stream.curfile = stream.fileno + i
  here : ∀ k, Places stream objs ftags stream.objno k →
    k ≤ stream.fileno ∧ stream.fileno ≤ k + stream.curfile
  behind : ∀ o < stream.objno, ∃ first, ∀ k, Places stream objs ftags o k →
    first ≤ k ∧ k < first + max objfiles 1
  beyond : ∀ o, stream.objno < o → ∀ k, ¬ Places stream objs ftags o k
  completed : ∀ k, k + stream.curfile < stream.fileno →
    ∃ ftag, ftags k = some ftag ∧ ftag.state.data = .comp
  later : stream.type = .repack → ∀ k, stream.fileno < k → ftags k = none

/-- No object holds something of more files than it may. -/
def Spread (objfiles : Nat) (objs : Nat → List Segment) : Prop :=
  ∀ o, ∃ first, ∀ k, Inside objs o k → first ≤ k ∧ k < first + max objfiles 1

variable {objfiles alloc : Nat} {stream stream' : Stream} {objs objs' : Nat → List Segment}
  {ftags ftags' : Nat → Option Ftag} {s s' : Sys}

/-! ## Steps within an object -/

/-- Only the stored tags of the files in the list have changed, and say the same place. -/
def Touches (stream : Stream) (ftags ftags' : Nat → Option Ftag) : Prop :=
  ∀ k, ftags' k = ftags k ∨ ∃ i ≤ stream.curfile, ∃ ftag, ftags' k = some ftag ∧
    (stream.files i).ftag.fileno = k ∧ (stream.files i).ftag.objno = ftag.objno

theorem Touches.refl (stream : Stream) (ftags : Nat → Option Ftag) : Touches stream ftags ftags :=
  fun _ => .inl rfl

variable {i k o n : Nat}

theorem Touches.store {ftag : Ftag} (hi : i ≤ s.stream.curfile)
    (hfno : ftag.fileno = (s.stream.files i).ftag.fileno)
    (hobj : ftag.objno = (s.stream.files i).ftag.objno) : Touches s.stream s.ftags (store ftag s).ftags := by
  intro k
  by_cases hk : k = ftag.fileno
  · refine .inr ⟨i, hi, ftag, ?_, ?_, hobj.symm⟩
    · simp [Sys.store, hk]
    · rw [hk, hfno]
  · exact .inl (by simp [Sys.store, hk])

theorem Windowed.curfile_le (h : Windowed objfiles alloc stream objs ftags) :
    stream.curfile ≤ stream.fileno := by
  have hslot := h.slots 0 (Nat.zero_le _)
  omega

theorem Windowed.cur_fileno (h : Windowed objfiles alloc stream objs ftags) :
    stream.cur.ftag.fileno = stream.fileno := by
  have hslot := h.slots stream.curfile le_rfl
  unfold Stream.cur
  omega

theorem Windowed.here_bound (h : Windowed objfiles alloc stream objs ftags) :
    ∃ first, ∀ k, Places stream objs ftags stream.objno k → first ≤ k ∧ k < first + max objfiles 1 := by
  refine ⟨stream.fileno - stream.curfile, fun k hk => ?_⟩
  have hhere := h.here k hk
  have hlt := h.curfile_lt
  have hle := h.curfile_le
  omega

/-- What is known of all objects. -/
theorem Windowed.bounds (h : Windowed objfiles alloc stream objs ftags) (o : Nat) :
    ∃ first, ∀ k, Places stream objs ftags o k → first ≤ k ∧ k < first + max objfiles 1 := by
  rcases Nat.lt_trichotomy o stream.objno with hlt | rfl | hgt
  · exact h.behind o hlt
  · exact h.here_bound
  · exact ⟨0, fun k hk => absurd hk (h.beyond o hgt k)⟩

theorem Windowed.spread (h : Windowed objfiles alloc stream objs ftags) : Spread objfiles objs := by
  intro o
  obtain ⟨first, hfst⟩ := h.bounds o
  exact ⟨first, fun k hk => hfst k (.inr (.inl hk))⟩

theorem Windowed.step (h : Windowed objfiles alloc stream objs ftags) (htype : stream'.type = stream.type)
    (hsch : stream'.scheme = stream.scheme) (hcur : stream'.curfile = stream.curfile)
    (hfno : stream'.fileno = stream.fileno) (hobj : stream'.objno = stream.objno)
    (hhdl : ∀ i, stream'.datahandle = some i → i = stream.objno) (hslots : ∀ i ≤ stream.curfile,
      (stream'.files i).ftag.fileno = (stream.files i).ftag.fileno)
    (hplc : ∀ o k, Places stream' objs' ftags' o k →
      Places stream objs ftags o k ∨ o = stream.objno ∧ k = stream.fileno)
    (hfts : Touches stream ftags ftags') : Windowed objfiles alloc stream' objs' ftags' := by
  -- the stored tag of a file that is not in the list is what it was
  have hsame : ∀ k, k + stream.curfile < stream.fileno ∨ stream.fileno < k →
      ftags' k = ftags k := by
    intro k hk
    rcases hfts k with hsame | ⟨i, hi, -, -, hik, -⟩
    · exact hsame
    · have hslot := h.slots i hi
      omega
  refine ⟨?_, ?_, ?_, ?_, ?_, ?_, ?_, ?_, ?_, ?_⟩
  · rw [hsch]
    exact h.scheme
  · intro i hi
    rw [hobj]
    exact hhdl i hi
  · rw [hcur]
    exact h.curfile_lt
  · rw [hcur]
    exact h.alloc
  · rw [hcur, hfno]
    intro i hi
    rw [hslots i hi]
    exact h.slots i hi
  · rw [hcur, hfno, hobj]
    intro k hk
    rcases hplc _ k hk with hk | ⟨-, rfl⟩
    · exact h.here k hk
    · exact ⟨le_rfl, Nat.le_add_right _ _⟩
  · rw [hobj]
    intro o ho
    obtain ⟨first, hfst⟩ := h.behind o ho
    refine ⟨first, fun k hk => ?_⟩
    rcases hplc o k hk with hk | ⟨rfl, -⟩
    · exact hfst k hk
    · exact absurd ho (Nat.lt_irrefl _)
  · rw [hobj]
    intro o ho k hk
    rcases hplc o k hk with hk | ⟨rfl, -⟩
    · exact h.beyond o ho k hk
    · exact absurd ho (Nat.lt_irrefl _)
  · rw [hcur, hfno]
    intro k hk
    rw [hsame k (.inl hk)]
    exact h.completed k hk
  · rw [htype, hfno]
    intro hrep k hk
    rw [hsame k (.inr hk)]
    exact h.later hrep k hk

theorem Touches.places (h : Touches stream ftags ftags') (hk : Places stream objs ftags' o k) :
    Places stream objs ftags o k := by
  rcases hk with ⟨hle, ftag, hftag, ho⟩ | hplcd
  · rcases h k with hsame | ⟨i, hi, ftag', hftag', hik, hio⟩
    · exact .inl ⟨hle, ftag, hsame ▸ hftag, ho⟩
    · obtain rfl := Option.some.inj (hftag.symm.trans hftag')
      exact .inr (.inr ⟨i, hi, hik, hio.trans ho⟩)
  · exact .inr hplcd

theorem Places.back (hk : Places stream' objs' ftags' o k) (hcur : stream'.curfile = stream.curfile)
    (hfno : stream'.fileno = stream.fileno) (hfiles : ∀ i ≤ stream.curfile,
      (stream'.files i).ftag.fileno = (stream.files i).ftag.fileno ∧
        (stream'.files i).ftag.objno = (stream.files i).ftag.objno)
    (hobjs : ∀ segment ∈ objs' o, segment.fileno = some k →
      segment ∈ objs o ∨ o = stream.objno ∧ k = stream.fileno) (hfts : Touches stream ftags ftags') :
    Places stream objs ftags o k ∨ o = stream.objno ∧ k = stream.fileno := by
  rcases hk with hsto | ⟨segment, hseg, hk⟩ | ⟨i, hi, hik, hio⟩
  · rw [hfno] at hsto
    exact .inl (hfts.places (.inl hsto))
  · rcases hobjs segment hseg hk with hold | hnew
    · exact .inl (.inr (.inl ⟨segment, hold, hk⟩))
    · exact .inr hnew
  · rw [hcur] at hi
    obtain ⟨hsamefile, hsameobj⟩ := hfiles i hi
    exact .inl (.inr (.inr ⟨i, hi, hsamefile ▸ hik, hsameobj ▸ hio⟩))

theorem Windowed.stay (h : Windowed objfiles alloc stream objs ftags) (htype : stream'.type = stream.type)
    (hsch : stream'.scheme = stream.scheme) (hcur : stream'.curfile = stream.curfile)
    (hfno : stream'.fileno = stream.fileno) (hobj : stream'.objno = stream.objno)
    (hhdl : ∀ i, stream'.datahandle = some i → i = stream.objno) (hfiles : ∀ i ≤ stream.curfile,
      (stream'.files i).ftag.fileno = (stream.files i).ftag.fileno ∧
        (stream'.files i).ftag.objno = (stream.files i).ftag.objno)
    (hobjs : ∀ o k, ∀ segment ∈ objs' o, segment.fileno = some k →
      segment ∈ objs o ∨ o = stream.objno ∧ k = stream.fileno) (hfts : Touches stream ftags ftags') :
    Windowed objfiles alloc stream' objs' ftags' :=
  h.step htype hsch hcur hfno hobj hhdl (fun i hi => (hfiles i hi).1)
    (fun o k hk => hk.back hcur hfno hfiles (hobjs o k) hfts) hfts

theorem setFile_places (stream : Stream) (file : Streamfile)
    (hfno : file.ftag.fileno = stream.cur.ftag.fileno) (hobj : file.ftag.objno = stream.cur.ftag.objno)
    (i : Nat) :
    ((stream.setFile stream.curfile file).files i).ftag.fileno = (stream.files i).ftag.fileno ∧
      ((stream.setFile stream.curfile file).files i).ftag.objno =
        (stream.files i).ftag.objno := by
  by_cases hi : i = stream.curfile
  · subst hi
    rw [Stream.files_setFile_self]
    exact ⟨hfno, hobj⟩
  · rw [Stream.files_setFile_of_ne _ _ hi]
    exact ⟨rfl, rfl⟩

theorem Windowed.retag (h : Windowed objfiles alloc s.stream s.objs s.ftags) (file : Streamfile)
    (ftags : Nat → Option Ftag) (hfno : file.ftag.fileno = s.stream.cur.ftag.fileno)
    (hobj : file.ftag.objno = s.stream.cur.ftag.objno)
    (hfts : ftags = s.ftags ∨ ftags = (store file.ftag s).ftags) :
    Windowed objfiles alloc (s.stream.setFile s.stream.curfile file) s.objs ftags := by
  refine h.stay rfl rfl rfl rfl rfl h.handle (fun i _ => setFile_places s.stream file hfno hobj i)
    (fun _ _ _ hseg _ => .inl hseg) ?_
  rcases hfts with rfl | rfl
  · exact Touches.refl _ _
  · exact Touches.store le_rfl hfno hobj

theorem Windowed.put (h : Windowed objfiles alloc s.stream s.objs s.ftags) :
    wp (putftag s.stream.curfile) (fun _ s' => Windowed objfiles alloc s'.stream s'.objs s'.ftags ∧
      s'.stream = s.stream ∧ s'.objs = s.objs ∧ Touches s.stream s.ftags s'.ftags)
      (fun s' => Spread objfiles s'.objs) s := by
  refine wp_putftag (fun os => ?_) fun _ => h.spread
  have hsame := Stream.setFile_self s.stream s.stream.curfile
  have hput := fun ftags => h.retag s.stream.cur ftags rfl rfl
  rw [Stream.cur, hsame] at hput
  split
  · exact ⟨hput _ (.inr rfl), rfl, rfl, Touches.store le_rfl rfl rfl⟩
  · exact ⟨hput _ (.inl rfl), rfl, rfl, Touches.refl _ _⟩

theorem Windowed.append (h : Windowed objfiles alloc stream s.objs ftags) (segments : List Segment)
    (hi : i = stream.objno)
    (hsegments : ∀ segment ∈ segments, ∀ k, segment.fileno = some k → k = stream.fileno) :
    Windowed objfiles alloc stream (Sys.append i segments s).objs ftags := by
  refine h.stay rfl rfl rfl rfl rfl h.handle (fun _ _ => ⟨rfl, rfl⟩) (fun o k segment hseg hk => ?_)
    (Touches.refl _ _)
  simp only [Sys.append] at hseg
  split at hseg
  · next ho =>
    rcases List.mem_append.1 hseg with hold | hnew
    · exact .inl hold
    · exact .inr ⟨ho.trans hi, hsegments segment hnew k hk⟩
  · exact .inl hseg

theorem Windowed.block (h : Windowed objfiles alloc s.stream s.objs s.ftags) (segments : List Segment)
    (hi : s.stream.datahandle = some i)
    (hsegments : ∀ segment ∈ segments, segment.fileno = some s.stream.cur.ftag.fileno) :
    Windowed objfiles alloc s.stream (Sys.append i segments s).objs s.ftags := by
  refine h.append _ (h.handle i hi) fun segment hseg k hk => ?_
  obtain rfl := Option.some.inj (hk.symm.trans (hsegments segment hseg))
  exact h.cur_fileno

theorem pieces_fileno {segment : List Char → Segment} {fileno : Nat} (bytes : List Char)
    (h : ∀ bytes, (segment bytes).fileno = some fileno) :
    ∀ piece ∈ pieces segment bytes, piece.fileno = some fileno := by
  intro piece hpiece
  unfold pieces at hpiece
  split at hpiece
  · cases hpiece
  · obtain rfl := List.mem_singleton.1 hpiece
    exact h bytes

theorem Windowed.move (h : Windowed objfiles alloc stream objs ftags) {finfo : RecoveryFinfo}
    {offset : Nat} : Windowed objfiles alloc { stream with finfo := finfo, offset := offset } objs ftags :=
  h.stay rfl rfl rfl rfl rfl h.handle (fun _ _ => ⟨rfl, rfl⟩) (fun _ _ _ hseg _ => .inl hseg)
    (Touches.refl _ _)

/-- The invariant of a stream: the list is of use while it is there, its objects remain. -/
def InWindow (objfiles alloc : Nat) (s : Sys) : Prop :=
  Spread objfiles s.objs ∧ (s.live = true → Windowed objfiles alloc s.stream s.objs s.ftags)

theorem Windowed.inWindow (h : Windowed objfiles alloc s.stream s.objs s.ftags) :
    InWindow objfiles alloc s := ⟨h.spread, fun _ => h⟩

def Gone (objfiles : Nat) (s : Sys) : Prop := s.live = false ∧ Spread objfiles s.objs

theorem Gone.inWindow (h : Gone objfiles s) : InWindow objfiles alloc s :=
  ⟨h.2, fun hlive => absurd (h.1.symm.trans hlive) (by simp)⟩

theorem Windowed.opens (h : Windowed objfiles alloc s.stream s.objs s.ftags)
    (hnone : s.stream.datahandle = none) :
    wp openCurrentObj (fun _ s' => Windowed objfiles alloc s'.stream s'.objs s'.ftags)
      (fun s' => Windowed objfiles alloc s'.stream s'.objs s'.ftags) s := by
  have hsized := fun ftags => h.retag
    { s.stream.cur with ftag := sized s.stream.cur.ftag } ftags rfl rfl
  -- the header of the object belongs to no file
  have hrewritten : ∀ w ftags handle,
      Windowed objfiles alloc (s.stream.setFile s.stream.curfile
        { s.stream.cur with ftag := sized s.stream.cur.ftag }) s.objs ftags →
      (∀ i, handle = some i → i = s.stream.objno) →
      Windowed objfiles alloc { s.stream.setFile s.stream.curfile
        { s.stream.cur with ftag := sized s.stream.cur.ftag } with datahandle := handle }
        (fun i => if i = s.stream.objno then pieces .header w else s.objs i) ftags := by
    intro w ftags handle hw hhdl
    refine hw.stay rfl rfl rfl rfl rfl hhdl (fun _ _ => ⟨rfl, rfl⟩) ?_ (Touches.refl _ _)
    intro o k segment hseg hk
    split at hseg
    · unfold pieces at hseg
      split at hseg
      · cases hseg
      · obtain rfl := List.mem_singleton.1 hseg
        cases hk
    · exact .inl hseg
  refine wp_openCurrentObj (fun os ftags hfts => ?_) (fun _ => h) fun _ => hsized _ (.inl rfl)
  have hopen := hsized ftags hfts
  refine wp_openHandle hnone (fun os' _ _ => ?_) (fun _ => hopen) fun os' w _ => ?_
  · have hhdr := hrewritten s.stream.header ftags (some s.stream.objno) hopen
      fun i hi => (Option.some.inj hi).symm
    rw [pieces_of_ne_nil s.stream.header_ne_nil] at hhdr
    exact hhdr
  · exact hrewritten w ftags s.stream.datahandle hopen h.handle

/-! ## The end of a file -/

theorem Windowed.advance (h : Windowed objfiles alloc stream objs ftags) (hnone : stream.datahandle = none)
    (offset : Nat) :
    Windowed objfiles alloc { stream with objno := stream.objno + 1, offset := offset } objs ftags where
  scheme := h.scheme
  handle i hi := absurd (hnone.symm.trans hi) (by simp)
  curfile_lt := h.curfile_lt
  alloc := h.alloc
  slots := h.slots
  here k hk := absurd hk (h.beyond _ (Nat.lt_succ_self _) k)
  behind o ho := by
    rcases Nat.lt_succ_iff_lt_or_eq.1 ho with hlt | rfl
    · exact h.behind o hlt
    · exact h.here_bound
  beyond o ho := h.beyond o ((Nat.lt_succ_self _).trans ho)
  completed := h.completed
  later := h.later

theorem openCurrentObj_same (hnone : s.stream.datahandle = none) :
    wp openCurrentObj (fun _ s' => s'.stream.type = s.stream.type ∧
      s'.stream.scheme = s.stream.scheme ∧ s'.stream.curfile = s.stream.curfile ∧
      s'.stream.objno = s.stream.objno) (fun _ => True) s := by
  refine wp_openCurrentObj (fun os ftags _ => ?_) (fun _ => trivial) fun _ => trivial
  exact wp_openHandle hnone (fun _ _ _ => ⟨rfl, rfl, rfl, rfl⟩) (fun _ => trivial)
    fun _ _ _ => trivial

structure Ends (s s' : Sys) : Prop where
  type : s'.stream.type = s.stream.type
  scheme : s'.stream.scheme = s.stream.scheme
  curfile : s'.stream.curfile = s.stream.curfile
  objno_ge : s.stream.objno ≤ s'.stream.objno
  vacant : s.stream.objno ≠ s'.stream.objno →
    ∀ k, ¬ Places s'.stream s'.objs s'.ftags s'.stream.objno k

theorem Windowed.finishData (h : Windowed objfiles alloc s.stream s.objs s.ftags) :
    wp finishData (fun _ s' => Windowed objfiles alloc s'.stream s'.objs s'.ftags ∧ Ends s s')
      (fun s' => Spread objfiles s'.objs) s := by
  refine wp_finishData (fun hnone => ?_) (fun i os finfo block hi _ _ => ?_) (fun _ _ => h.spread)
    fun i os finfo w hi _ => (h.block _ hi (pieces_fileno w fun _ => rfl)).spread
  · have hplc := setFile_places s.stream
      { s.stream.cur with ftag := finalized s.stream.cur.ftag } rfl rfl
    refine ⟨?_, rfl, rfl, rfl, Nat.le_succ _, fun _ k hk => ?_⟩
    · refine (h.advance hnone s.stream.recoveryheaderlen).stay rfl rfl rfl rfl rfl
        (fun i hi => absurd (hnone.symm.trans hi) (by simp)) (fun i _ => hplc i)
        (fun _ _ _ hseg _ => .inl hseg) (Touches.refl _ _)
    · have hback := hk.back (rfl : _ = s.stream.curfile) rfl (fun i _ => hplc i)
        (fun _ hseg _ => .inl hseg) (Touches.refl _ _)
      rcases hback with hold | ⟨hobj, -⟩
      · exact h.beyond _ (Nat.lt_succ_self _) k hold
      · exact absurd hobj (Nat.succ_ne_self _)
  · refine ⟨?_, rfl, rfl, rfl, le_rfl, fun hne => absurd rfl hne⟩
    have hblock := h.append [.finfo s.stream.cur.ftag.fileno block]
      (h.handle i hi) fun segment hseg k hk => by
        obtain rfl := List.mem_singleton.1 hseg
        obtain rfl := Option.some.inj hk
        exact h.cur_fileno
    refine hblock.stay rfl rfl rfl rfl rfl h.handle (fun j _ => ?_)
      (fun _ _ _ hseg _ => .inl hseg) (Touches.refl _ _)
    exact setFile_places s.stream
      { s.stream.cur with ftag := finalized s.stream.cur.ftag } rfl rfl j

theorem Windowed.finfile (h : Windowed objfiles alloc s.stream s.objs s.ftags) :
    wp finfile (fun _ s' => Windowed objfiles alloc s'.stream s'.objs s'.ftags ∧ Ends s s')
      (fun s' => Spread objfiles s'.objs) s := by
  refine wp_finfile h.spread (fun _ => ⟨h, rfl, rfl, rfl, le_rfl, fun hne => absurd rfl hne⟩)
    (fun _ _ hnone => ?_) fun _ _ => h.finishData
  have hopen := openCurrentObj_same hnone
  refine wp_mono (wp_and (h.opens hnone) hopen) ?_ fun _ h => h.1.spread
  intro _ s' ⟨h', htype, hsch, hcur, hobj⟩
  refine wp_mono h'.finishData ?_ fun _ h => h
  intro _ s'' ⟨h'', hends⟩
  refine ⟨h'', hends.type.trans htype, hends.scheme.trans hsch, hends.curfile.trans hcur,
    hobj ▸ hends.objno_ge, hobj ▸ hends.vacant⟩

/-! ## Completing files -/

def Distinct (stream : Stream) (n : Nat) : Prop :=
  ∀ i < n, ∀ j < n, (stream.files i).ftag.fileno = (stream.files j).ftag.fileno → i = j

def AllComplete (s s' : Sys) (n : Nat) : Prop :=
  ∀ i < n, s'.ftags (s.stream.files i).ftag.fileno = some (completed (s.stream.files i).ftag)

theorem Completes.other (h : Completes s n ftags) (hk : ∀ i < n, (s.stream.files i).ftag.fileno ≠ k) :
    ftags k = s.ftags k := by
  rcases h k with hsame | ⟨i, hi, -, hfno, -⟩
  · exact hsame
  · exact absurd hfno (hk i hi)

/-- The induction is on the files that are left: the tag that is stored for the last one is not
touched for the others. -/
theorem completeFiles_all (hdist : Distinct s.stream n) :
    wp (completeFiles n) (fun all s' => all = true → AllComplete s s' n) (fun _ => True) s := by
  induction n generalizing s with
  | zero => exact wp_pure.2 fun _ i hi => absurd hi (Nat.not_lt_zero i)
  | succ n ih =>
    refine wp_bind.2 (wp_attempt.2 (wp_completefile (fun os file => ?_) (fun _ os file => ?_) ?_))
    · refine wp_bind.2 (wp_completeFiles fun _ _ _ _ _ _ => wp_pure.2 fun hfalse => ?_)
      simp at hfalse
    · have hoths : ∀ i < n, (s.stream.setFile n file).files i = s.stream.files i := fun i hi =>
        Stream.files_setFile_of_ne _ _ (Nat.ne_of_lt hi)
      have hrest : Distinct (s.stream.setFile n file) n := by
        intro i hi j hj hij
        rw [hoths i hi, hoths j hj] at hij
        exact hdist i (Nat.lt_succ_of_lt hi) j (Nat.lt_succ_of_lt hj) hij
      have hkept := wp_completeFiles (n := n) (E := fun _ => True) (s := store (completed
          (s.stream.files n).ftag) { s with outcomes := os, stream := s.stream.setFile n file })
        (Q := fun _ s' => s'.ftags (s.stream.files n).ftag.fileno =
          some (completed (s.stream.files n).ftag)) fun all os' files ftags hfiles hcomp => ?_
      · refine wp_bind.2 (wp_mono (wp_and (ih hrest) hkept) ?_ fun _ _ => trivial)
        intro all s' ⟨hall, hlast⟩
        refine wp_pure.2 fun htrue i hi => ?_
        rcases Nat.lt_succ_iff_lt_or_eq.1 hi with hlt | rfl
        · have hdone := hall (by simpa using htrue) i hlt
          rw [← hoths i hlt]
          exact hdone
        · exact hlast
      · -- a file that is completed after the last one is another file
        refine (hcomp.other fun i hi hfno => ?_).trans (by simp [store, completed])
        have hfno' : (s.stream.files i).ftag.fileno = (s.stream.files n).ftag.fileno := by
          rw [← hoths i hi]
          exact hfno
        have hin := hdist i (Nat.lt_succ_of_lt hi) n (Nat.lt_succ_self n) hfno'
        exact absurd hin (Nat.ne_of_lt hi)
    · intro _ os file
      refine wp_bind.2 (wp_completeFiles fun _ _ _ _ _ _ => wp_pure.2 fun hfalse => ?_)
      simp at hfalse

theorem completePrevious_all (hdist : Distinct s.stream s.stream.curfile) :
    wp completePrevious (fun _ s' => AllComplete s s' s.stream.curfile) (fun _ => True) s := by
  refine wp_bind.2 (wp_get.2 (wp_bind.2 (wp_mono (completeFiles_all hdist) ?_ fun _ h => h)))
  intro all s' hall
  exact wp_bind.2 (wp_modifyStream.2 (wp_onFail.2 (wp_check.2 ⟨fun htrue => hall htrue,
    fun _ => trivial⟩)))

theorem retireObject_all (hdist : Distinct s.stream s.stream.curfile) :
    wp retireObject (fun _ s' => AllComplete s s' s.stream.curfile) (fun _ => True) s := by
  have hcl : ∀ s', s'.stream.files = s.stream.files → s'.stream.curfile = s.stream.curfile →
      wp completePrevious (fun _ s'' => AllComplete s s'' s.stream.curfile) (fun _ => True) s' := by
    intro s' hfiles hcur
    have hall := completePrevious_all (s := s') (by
      unfold Distinct
      rw [hfiles, hcur]
      exact hdist)
    unfold AllComplete at hall ⊢
    rw [hfiles, hcur] at hall
    exact hall
  exact wp_bind.2 (wp_onFail.2 (wp_closeCurrentObj (fun _ => hcl s rfl rfl)
    (fun _ _ _ => hcl _ rfl rfl) fun _ _ _ => trivial))

theorem distinct_of_slots (hslots : ∀ i ≤ stream.curfile,
    (stream.files i).ftag.fileno + stream.curfile = stream.fileno + i) : Distinct stream stream.curfile := by
  intro i hi j hj hij
  have hsloti := hslots i hi.le
  have hslotj := hslots j hj.le
  omega

structure Retired (s s' : Sys) : Prop where
  same : ∃ outcomes closed files, s' = { s with
    outcomes := outcomes, closed := closed, ftags := s'.ftags
    stream := { s.stream with datahandle := none, files := files, curfile := 0 } }
  cur : s'.stream.files 0 = s.stream.cur
  touches : ∀ k, s'.ftags k = s.ftags k ∨ ∃ i < s.stream.curfile,
    (s.stream.files i).ftag.fileno = k ∧ s'.ftags k = some (completed (s.stream.files i).ftag)
  all : AllComplete s s' s.stream.curfile

theorem retireObject_spec (hslots : ∀ i ≤ s.stream.curfile,
      (s.stream.files i).ftag.fileno + s.stream.curfile = s.stream.fileno + i) :
    wp retireObject (fun _ => Retired s) (fun s' => s'.live = false ∧ s'.objs = s.objs) s := by
  have hretire := wp_retireObject (s := s) (E := fun s' => s'.live = false ∧ s'.objs = s.objs)
    (Q := fun _ s' => (∃ outcomes closed files, s' = { s with
        outcomes := outcomes, closed := closed, ftags := s'.ftags
        stream := { s.stream with datahandle := none, files := files, curfile := 0 } }) ∧
      s'.stream.files 0 = s.stream.cur ∧ Completes s s.stream.curfile s'.ftags)
    (fun os files ftags hfiles hcomp => ⟨⟨os, _, files, rfl⟩, hfiles, hcomp⟩)
    fun _ _ _ _ _ _ => ⟨rfl, rfl⟩
  refine wp_mono (wp_and hretire (retireObject_all (distinct_of_slots hslots))) ?_ fun _ h => h.1
  intro _ s' ⟨⟨hsame, hcur, hcomp⟩, hall⟩
  refine ⟨hsame, hcur, fun k => ?_, hall⟩
  exact (hcomp k).imp id fun ⟨i, hi, _, hfno, hftag⟩ => ⟨i, hi, hfno, hftag⟩

/-- Nothing is anywhere else than before. -/
theorem Retired.places (h : Retired s s') (hk : Places s'.stream s'.objs s'.ftags o k) :
    Places s.stream s.objs s.ftags o k := by
  obtain ⟨outcomes, closed, files, hs'⟩ := h.same
  have hfno : s'.stream.fileno = s.stream.fileno := by rw [hs']
  have hcur : s'.stream.curfile = 0 := by rw [hs']
  have hobjs : s'.objs = s.objs := by rw [hs']
  rcases hk with ⟨hle, ftag, hftag, ho⟩ | hseg | ⟨i, hi, hik, hio⟩
  · rcases h.touches k with hsame | ⟨i, hi, hik, hdone⟩
    · exact .inl ⟨hfno ▸ hle, ftag, hsame ▸ hftag, ho⟩
    · obtain rfl := Option.some.inj (hdone.symm.trans hftag)
      exact .inr (.inr ⟨i, hi.le, hik, ho⟩)
  · rw [hobjs] at hseg
    exact .inr (.inl hseg)
  · rw [hcur, Nat.le_zero] at hi
    rw [hi, h.cur] at hik hio
    exact .inr (.inr ⟨s.stream.curfile, le_rfl, hik, hio⟩)

theorem Retired.completed (h : Retired s s') (hslots : ∀ i ≤ s.stream.curfile,
      (s.stream.files i).ftag.fileno + s.stream.curfile = s.stream.fileno + i)
    (hdone : ∀ k, k + s.stream.curfile < s.stream.fileno →
      ∃ ftag, s.ftags k = some ftag ∧ ftag.state.data = .comp) (hk : k < s.stream.fileno) :
    ∃ ftag, s'.ftags k = some ftag ∧ ftag.state.data = .comp := by
  by_cases hlist : k + s.stream.curfile < s.stream.fileno
  · rcases h.touches k with hsame | ⟨i, -, -, hftag⟩
    · rw [hsame]
      exact hdone k hlist
    · exact ⟨_, hftag, rfl⟩
  · -- the file is in the list
    obtain ⟨i, hi⟩ : ∃ i, k + s.stream.curfile = s.stream.fileno + i :=
      ⟨k + s.stream.curfile - s.stream.fileno, by omega⟩
    have hslot := hslots i (by omega)
    have hik : (s.stream.files i).ftag.fileno = k := by omega
    have hall := h.all i (by omega)
    rw [hik] at hall
    exact ⟨_, hall, rfl⟩

theorem Retired.later (h : Retired s s') (hslots : ∀ i ≤ s.stream.curfile,
      (s.stream.files i).ftag.fileno + s.stream.curfile = s.stream.fileno + i) (hk : s.stream.fileno < k) :
    s'.ftags k = s.ftags k := by
  rcases h.touches k with hsame | ⟨i, hi, hik, -⟩
  · exact hsame
  · have hslot := hslots i hi.le
    omega

theorem Retired.windowed (h : Retired s s') (objno offset : Nat) (hsch : s.stream.scheme.objfiles = objfiles)
    (hall : 0 < alloc) (hslots : ∀ i ≤ s.stream.curfile,
      (s.stream.files i).ftag.fileno + s.stream.curfile = s.stream.fileno + i)
    (hdone : ∀ k, k + s.stream.curfile < s.stream.fileno →
      ∃ ftag, s.ftags k = some ftag ∧ ftag.state.data = .comp)
    (hlater : s.stream.type = .repack → ∀ k, s.stream.fileno < k → s.ftags k = none)
    (hhere : ∀ k, Places s.stream s.objs s.ftags objno k → k = s.stream.fileno)
    (hbeh : ∀ o < objno, ∃ first, ∀ k, Places s.stream s.objs s.ftags o k →
      first ≤ k ∧ k < first + max objfiles 1)
    (hbeyond : ∀ o, objno < o → ∀ k, ¬ Places s.stream s.objs s.ftags o k) :
    Windowed objfiles alloc { s'.stream with objno := objno, offset := offset } s'.objs s'.ftags := by
  have hplc : ∀ o k, Places { s'.stream with objno := objno, offset := offset } s'.objs s'.ftags
      o k → Places s.stream s.objs s.ftags o k := fun o k hk => h.places hk
  have hdone' := fun k => h.completed hslots hdone (k := k)
  have hlater' := fun k => h.later hslots (k := k)
  have hcur := h.cur
  have hslot := hslots s.stream.curfile le_rfl
  obtain ⟨outcomes, closed, files, hs'⟩ := h.same
  have hfno : s'.stream.fileno = s.stream.fileno := by rw [hs']
  have hcurfile : s'.stream.curfile = 0 := by rw [hs']
  have htype : s'.stream.type = s.stream.type := by rw [hs']
  have hhdl : s'.stream.datahandle = none := by rw [hs']
  have hsame : s'.stream.scheme = s.stream.scheme := by rw [hs']
  refine ⟨?_, ?_, ?_, ?_, ?_, ?_, ?_, ?_, ?_, ?_⟩
  all_goals dsimp only
  · rw [hsame]
    exact hsch
  · intro i hi
    exact absurd (hhdl.symm.trans hi) (by simp)
  · omega
  · exact hcurfile ▸ hall
  · intro i hi
    rw [hcurfile, Nat.le_zero] at hi
    rw [hi, hcur, hcurfile, hfno]
    unfold Stream.cur
    omega
  · intro k hk
    have hk' := hhere k (hplc _ k hk)
    omega
  · intro o ho
    obtain ⟨first, hfst⟩ := hbeh o ho
    exact ⟨first, fun k hk => hfst k (hplc o k hk)⟩
  · exact fun o ho k hk => hbeyond o ho k (hplc o k hk)
  · intro k hk
    exact hdone' k (by omega)
  · intro hrep k hk
    rw [hlater' k (by omega)]
    exact hlater (htype ▸ hrep) k (by omega)

theorem Windowed.leave (h : Windowed objfiles alloc s.stream s.objs s.ftags) :
    wp leaveObject (fun _ s' => Windowed objfiles alloc s'.stream s'.objs s'.ftags ∧
      s'.stream.curfile = 0) (Gone objfiles) s := by
  refine wp_bind.2 (wp_mono (retireObject_spec h.slots) ?_ fun _ hdead =>
    ⟨hdead.1, hdead.2 ▸ h.spread⟩)
  intro _ s' hretired
  have hall := Nat.zero_lt_of_lt h.alloc
  have hwin := hretired.windowed (s.stream.objno + 1) s'.stream.recoveryheaderlen
    h.scheme hall h.slots h.completed h.later
    (fun k hk => absurd hk (h.beyond _ (Nat.lt_succ_self _) k)) (fun o ho => by
      rcases Nat.lt_succ_iff_lt_or_eq.1 ho with hlt | rfl
      · exact h.behind o hlt
      · exact h.here_bound) fun o ho => h.beyond o ((Nat.lt_succ_self _).trans ho)
  obtain ⟨outcomes, closed, files, hs'⟩ := hretired.same
  have hobj : s'.stream.objno = s.stream.objno := by rw [hs']
  have hcur : s'.stream.curfile = 0 := by rw [hs']
  rw [← hobj] at hwin
  exact wp_modifyStream.2 ⟨hwin, hcur⟩

/-! ## Calls that add no file -/

theorem Windowed.turn (h : Windowed objfiles alloc s.stream s.objs s.ftags) :
    wp nextObject (fun _ s' => Windowed objfiles alloc s'.stream s'.objs s'.ftags)
      (Gone objfiles) s := by
  have hleav : ∀ s', Windowed objfiles alloc s'.stream s'.objs s'.ftags →
      wp leaveObject (fun _ s'' => Windowed objfiles alloc s''.stream s''.objs s''.ftags)
        (Gone objfiles) s' := fun s' h' =>
    wp_mono h'.leave (fun _ _ h'' => h''.1) fun _ h'' => h''
  refine wp_bind.2 (wp_bind.2 (wp_get.2 (wp_ite.2 ⟨fun _ => ?_, fun _ => wp_pure.2 ?_⟩)))
  · refine wp_onFail.2 (wp_putfinfo (fun i os finfo block hi _ _ => hleav _ ?_)
      (fun _ _ => ⟨rfl, h.spread⟩) fun i os finfo w hi _ =>
        ⟨rfl, (h.block _ hi (pieces_fileno w fun _ => rfl)).spread⟩)
    refine (h.block _ hi fun segment hseg => ?_).move
    obtain rfl := List.mem_singleton.1 hseg
    rfl
  · exact hleav s h

theorem windowRules : WriteRules (fun s => Windowed objfiles alloc s.stream s.objs s.ftags)
    (InWindow objfiles alloc) where
  weaken _ h := h.inWindow
  io _ _ h := h
  targets _ _ h _ := h
  room _ _ h _ := h
  turn _ _ h _ _ := wp_mono h.turn (fun _ _ h' => h') fun _ h' => h'.inWindow
  opens _ _ h _ hnone := h.opens hnone
  data s _ i bytes h _ hi _ _ := by
    have hblock := h.block [.data s.stream.cur.ftag.fileno bytes] hi
      fun segment hseg => by
        obtain rfl := List.mem_singleton.1 hseg
        rfl
    refine hblock.stay rfl rfl rfl rfl rfl h.handle (fun j _ => ?_)
      (fun _ _ _ hseg _ => .inl hseg) (Touches.refl _ _)
    exact setFile_places s.stream { s.stream.cur with
      ftag := { s.stream.cur.ftag with bytes := s.stream.cur.ftag.bytes + bytes.length } } rfl rfl j

theorem Windowed.setrecoverypath (h : Windowed objfiles alloc s.stream s.objs s.ftags) (path : List Char) :
    wp (datastreamSetrecoverypath path) (fun _ => InWindow objfiles alloc) (InWindow objfiles alloc) s := by
  refine wp_setrecoverypath (fun _ => h.inWindow) fun _ os ftags finfo _ hfts => ?_
  have hretagged := h.retag
    { s.stream.cur with ftag := (withRecoverybytes (finfoLength finfo) s.stream.cur.ftag) } ftags
    rfl rfl hfts
  refine Windowed.inWindow ?_
  exact hretagged.stay rfl rfl rfl rfl rfl h.handle (fun _ _ => ⟨rfl, rfl⟩)
    (fun _ _ _ hseg _ => .inl hseg) (Touches.refl _ _)

theorem Windowed.resize (h : Windowed objfiles alloc s.stream s.objs s.ftags) (length : Nat) :
    wp (resize length) (fun _ => InWindow objfiles alloc) (InWindow objfiles alloc) s := by
  refine wp_resize (fun _ _ => h.inWindow) (fun _ _ _ _ => Gone.inWindow ⟨rfl, h.spread⟩) ?_
  intro os ftags wrapped independentobjs dataperobj _ hfts
  exact Windowed.inWindow (h.retag _ _ rfl rfl hfts)

theorem Windowed.restart (h : Windowed objfiles alloc s.stream s.objs s.ftags) {file : Streamfile}
    (hfno : file.ftag.fileno = s.stream.cur.ftag.fileno) (hobj : file.ftag.objno = s.stream.objno) :
    Windowed objfiles alloc (s.stream.setFile s.stream.curfile file) s.objs s.ftags := by
  have hcur := h.cur_fileno
  refine h.step rfl rfl rfl rfl rfl h.handle (fun i _ => ?_) (fun o k hk => ?_) (Touches.refl _ _)
  · by_cases hi : i = s.stream.curfile
    · rw [hi, Stream.files_setFile_self]
      exact hfno
    · rw [Stream.files_setFile_of_ne _ _ hi]
  · rcases hk with hsto | hseg | ⟨i, hi, hik, hio⟩
    · exact .inl (.inl hsto)
    · exact .inl (.inr (.inl hseg))
    · by_cases hi' : i = s.stream.curfile
      · rw [hi', Stream.files_setFile_self] at hik hio
        exact .inr ⟨hio.symm.trans hobj, hik.symm.trans (hfno.trans hcur)⟩
      · rw [Stream.files_setFile_of_ne _ _ hi'] at hik hio
        exact .inl (.inr (.inr ⟨i, hi, hik, hio⟩))

theorem Windowed.extend (h : Windowed objfiles alloc s.stream s.objs s.ftags) (length : Nat) :
    wp (datastreamExtend length) (fun _ => InWindow objfiles alloc) (InWindow objfiles alloc) s := by
  have href : InWindow objfiles alloc s := h.inWindow
  refine wp_bind.2 (wp_get.2 (wp_bind.2 (wp_check.2 ⟨fun _ => ?_, fun _ => href⟩)))
  refine wp_bind.2 (wp_check.2 ⟨fun _ => ?_, fun _ => href⟩)
  refine wp_bind.2 (wp_check.2 ⟨fun _ => ?_, fun _ => href⟩)
  refine wp_bind.2 (wp_check.2 ⟨fun _ => ?_, fun _ => href⟩)
  refine wp_bind.2 (wp_bind.2 (wp_get.2 (wp_ite.2 ⟨fun _ => wp_bind.2 ?_, fun _ => ?_⟩)))
  · refine wp_mono h.leave ?_ fun _ h' => h'.inWindow
    intro _ s' ⟨h', _⟩
    refine wp_bind.2 (wp_get.2 (wp_modifyFtag.2 (Windowed.resize ?_ length)))
    exact h'.restart rfl rfl
  · exact wp_pure.2 (h.resize length)

/-! ## The end of a stream -/

theorem closeCurrentObj_objs {s : Sys} :
    wp closeCurrentObj (fun _ s' => s'.objs = s.objs) (fun s' => s'.objs = s.objs) s :=
  wp_closeCurrentObj (fun _ => rfl) (fun _ _ _ => rfl) fun _ _ _ => rfl

theorem Windowed.release (h : Windowed objfiles alloc s.stream s.objs s.ftags) :
    wp datastreamRelease (fun _ => Gone objfiles) (Gone objfiles) s := by
  have hgone : ∀ s', Spread objfiles s'.objs → Gone objfiles (freestream s').2 := fun _ hs' =>
    ⟨rfl, hs'⟩
  refine wp_bind.2 (wp_get.2 (wp_bind.2 (wp_onFail.2 (wp_check.2 ⟨fun _ => wp_bind.2 ?_,
    fun _ => hgone s h.spread⟩))))
  refine wp_onFail.2 (wp_mono h.finfile ?_ fun s' hs' => hgone s' hs')
  intro _ s₁ ⟨h₁, _⟩
  refine wp_bind.2 (wp_modifyFtag.2 (wp_bind.2 (wp_onFail.2 (wp_bind.2 ?_))))
  refine wp_mono closeCurrentObj_objs ?_ fun s₂ hobjs => hgone s₂ (hobjs ▸ h₁.spread)
  intro _ s₂ hobjs
  have hs₂ : Spread objfiles s₂.objs := hobjs ▸ h₁.spread
  refine wp_bind.2 (wp_putftag (fun os => ?_) fun os => hgone _ hs₂)
  split
  · exact wp_call (fun os => wp_freestream.2 (hgone _ hs₂)) fun os => hgone _ hs₂
  · exact wp_call (fun os => wp_freestream.2 (hgone _ hs₂)) fun os => hgone _ hs₂

theorem Windowed.close (h : Windowed objfiles alloc s.stream s.objs s.ftags) :
    wp datastreamClose (fun _ => Gone objfiles) (Gone objfiles) s := by
  have hgone : ∀ s', Spread objfiles s'.objs → Gone objfiles (freestream s').2 := fun _ hs' =>
    ⟨rfl, hs'⟩
  refine wp_bind.2 (wp_get.2 (wp_bind.2 (wp_onFail.2 (wp_check.2 ⟨fun _ => wp_bind.2 ?_,
    fun _ => hgone s h.spread⟩))))
  refine wp_onFail.2 (wp_mono h.finfile ?_ fun s' hs' => hgone s' hs')
  intro _ s₁ ⟨h₁, _⟩
  refine wp_bind.2 (wp_modifyFtag.2 (wp_bind.2 (wp_onFail.2 ?_)))
  refine wp_mono closeCurrentObj_objs ?_ fun s₂ hobjs => hgone s₂ (hobjs ▸ h₁.spread)
  intro _ s₂ hobjs
  have hs₂ : Spread objfiles s₂.objs := hobjs ▸ h₁.spread
  refine wp_bind.2 (wp_completeFiles fun all os files ftags _ _ => wp_bind.2 (wp_onFail.2 ?_))
  exact wp_check.2 ⟨fun _ => wp_freestream.2 (hgone _ hs₂), fun _ => hgone _ hs₂⟩

theorem Windowed.perform (h : Windowed objfiles alloc s.stream s.objs s.ftags) {c : Call}
    (hcreat : ∀ path stat, c ≠ .create path stat) (hrep : ∀ path stat, c ≠ .repack path stat) :
    wp (perform c) (fun _ => InWindow objfiles alloc) (InWindow objfiles alloc) s := by
  cases c with
  | create path stat => exact absurd rfl (hcreat path stat)
  | repack path stat => exact absurd rfl (hrep path stat)
  | write buf =>
    refine wp_bind.2 (wp_mono (windowRules.datastreamWrite buf h) ?_ fun _ h => h)
    exact fun _ _ h => wp_pure.2 h.inWindow
  | seek fuel offset whence =>
    refine wp_bind.2 (wp_mono (windowRules.datastreamSeek fuel offset whence h) ?_ fun _ h => h)
    exact fun _ _ h => wp_pure.2 h
  | setrecoverypath path => exact h.setrecoverypath path
  | extend length => exact h.extend length
  | truncate length => exact wp_fail.2 h.inWindow
  | release => exact wp_mono h.release (fun _ _ h => h.inWindow) fun _ h => h.inWindow
  | close => exact wp_mono h.close (fun _ _ h => h.inWindow) fun _ h => h.inWindow

end Sys

end Marfs.Datastream
