import Marfs.Api.Ownership

/-!
# A handle owns its namespace reference

The copies that are made for a handle are destroyed once, or the handle names them (`State.Owned`).  The
calls keep to this, and a failure other than `EBADFD` keeps what the handle refers to, but for three
branches: an `O_ASYNC` open of an existing handle that fails leaves a destroyed copy in it, an open whose
datastream fails drops the copy it has made, and `marfs_creat` returns without `EBADFD` after it has closed
a meta-only handle if the copy cannot be made.  `Call.Sound` says that a call takes none of them.
-/

namespace Marfs.Ownership

open Marfs.Api Marfs.Config Marfs.Machine

/-! ## The copies that are named -/

def NsPtr.ids : NsPtr → List Nat
  | .copy id _ => [id]
  | .shared _ => []

/-- The copy that a handle names. -/
def Fhandle.ids (stream : Fhandle) : List Nat := stream.ns.elim [] NsPtr.ids

def State.live (s : State) : List Nat := s.stream.elim [] Fhandle.ids

/-- Each copy that was made was destroyed once, or is the one that the handle names. -/
def State.Owned (s : State) : Prop := s.ledger.Owns s.live

/-- The target is a ghost, so a reference to it is duplicated by a copy. -/
def IsCopied (config : MarfsConfig) (pos : MarfsPosition) : Prop :=
  (config.deref pos.ns).ghsource ≠ none

section References

variable {ledger : Ledger} {live : List Nat}

/-- A duplicate adds a copy for a ghost, and none otherwise; for a ghost it can fail. -/
theorem configDuplicatensref_spec (config : MarfsConfig) (pos : MarfsPosition) (allocated : Bool)
    (h : ledger.Owns live) :
    (∃ dupref ledger', configDuplicatensref config pos.ns allocated ledger = (some dupref, ledger') ∧
      ledger'.Owns (dupref.ids ++ live) ∧ (dupref.ids = [] ↔ ¬ IsCopied config pos) ∧
      (IsCopied config pos → allocated = true)) ∨
    (configDuplicatensref config pos.ns allocated ledger = (none, ledger) ∧ IsCopied config pos ∧
      allocated = false) := by
  by_cases hghost : (config.deref pos.ns).ghsource = none
  · refine .inl ⟨.shared pos.ns, ledger, if_pos hghost, h, ?_, fun hcopy => absurd hghost hcopy⟩
    exact ⟨fun _ hcopy => hcopy hghost, fun _ => rfl⟩
  · cases allocated with
    | true =>
      refine .inl ⟨.copy ledger.made (config.deref pos.ns), ledger.make, if_neg hghost, h.make, ?_,
        fun _ => rfl⟩
      exact ⟨(fun hids => nomatch hids), fun hcopy => absurd hghost hcopy⟩
    | false => exact .inr ⟨if_neg hghost, hghost, rfl⟩

theorem configDestroynsref_owns {ns : Option NsPtr} :
    (configDestroynsref ns ledger).Owns live ↔ ledger.Owns (ns.elim [] NsPtr.ids ++ live) := by
  match ns with
  | none => exact Iff.rfl
  | some (.shared _) => exact Iff.rfl
  | some (.copy id _) => exact Ledger.owns_destroy

theorem owns_dropped {dupref : NsPtr} (h : ledger.Owns (dupref.ids ++ live)) :
    (configDestroynsref (some dupref) ledger).Owns live :=
  configDestroynsref_owns.2 h

/-- A duplicate takes the place of the reference of a handle. -/
theorem owns_replaced {dupref : NsPtr} {stream : Fhandle} (h : ledger.Owns (dupref.ids ++ stream.ids)) :
    (configDestroynsref stream.ns ledger).Owns dupref.ids :=
  configDestroynsref_owns.2 (h.perm List.perm_append_comm)

theorem owns_append_iff {ids : List Nat} (h : ledger.Owns live) : ledger.Owns (ids ++ live) ↔ ids = [] := by
  constructor
  · intro howns
    cases ids with
    | nil => rfl
    | cons id ids =>
      have hcnt := howns.count_eq h id
      rw [List.cons_append, List.count_cons_self, List.count_append] at hcnt
      omega
  · intro hids
    rw [hids]
    exact h

/-- A copy that is not named is lost. -/
theorem append_owns_iff {ids : List Nat} (h : ledger.Owns (ids ++ live)) : ledger.Owns live ↔ ids = [] := by
  constructor
  · intro howns
    exact (owns_append_iff howns).1 h
  · intro hids
    rwa [hids] at h

end References

/-! ## The handle that is used -/

/-- The handle that `takeHandle` hands out: a new one, one with a datastream, or one whose meta handle was
closed. -/
inductive Took (s : State) : Bool → Fhandle → Prop
  | fresh (stream : s.stream = none) : Took s true newMarfsFhandle
  | stream {old : Fhandle} (stream : s.stream = some old) (datastream : old.datastream ≠ none) :
    Took s false { old with locked := true }
  | closed {old : Fhandle} (stream : s.stream = some old) (datastream : old.datastream = none)
    (metahandle : old.metahandle ≠ none) : Took s false { old with locked := true, metahandle := none }

/-- A failure other than `EBADFD` leaves what an existing handle refers to. -/
def Kept (s : State) (reply : Reply) (s' : State) : Prop :=
  ∀ errno old, reply = .refused errno → errno ≠ .ebadfd → s.stream = some old →
    ∃ stream, s'.stream = some stream ∧ stream.ns = old.ns ∧ stream.datastream = old.datastream ∧
      stream.metahandle = old.metahandle

variable {config : MarfsConfig} {answers : Answers} {locknew newstream : Bool} {s s' : State}
  {stream : Fhandle} {reply : Reply}

theorem Took.live (h : Took s newstream stream) : stream.ids = s.live := by
  cases h with
  | fresh hstr => rw [State.live, hstr]; rfl
  | stream hstr _ => rw [State.live, hstr]; rfl
  | closed hstr _ _ => rw [State.live, hstr]; rfl

theorem Took.ids_of_new (h : Took s true stream) : stream.ids = [] := by
  cases h with
  | fresh _ => rfl

theorem Kept.returned : Kept s .returned s' := fun _ _ hreply => nomatch hreply

theorem Kept.ebadfd : Kept s (.refused .ebadfd) s' := by
  intro errno old hreply hne
  cases hreply
  exact absurd rfl hne

theorem Kept.refl (reply : Reply) : Kept s reply s :=
  fun _ old _ _ hstr => ⟨old, hstr, rfl, rfl, rfl⟩

theorem Took.kept_of_new (h : Took s true stream) (reply : Reply) : Kept s reply s' := by
  cases h with
  | fresh hstr =>
    intro errno old _ _ hold
    rw [hstr] at hold
    cases hold

theorem takeHandle_ok (h : takeHandle answers locknew s = some (.ok (newstream, stream))) :
    Took s newstream stream := by
  rw [takeHandle] at h
  cases hstr : s.stream with
  | none =>
    simp only [hstr] at h
    split at h
    · cases h
    · cases h
      exact .fresh hstr
  | some old =>
    simp only [hstr, prepare] at h
    split at h
    · cases h
    · cases h
    · next hprep =>
      cases h
      split at hprep
      · cases hprep
      · split at hprep
        · cases hprep
        · split at hprep
          · cases hprep
          · next hflushed =>
            split at hprep
            · next hds =>
              split at hprep
              · cases hprep
              · cases hprep
                exact .closed hstr hds fun hmeta => hflushed ⟨hds, hmeta⟩
            · next hds =>
              cases hprep
              exact .stream hstr hds

theorem takeHandle_error {errno : Errno} (hown : s.Owned)
    (h : takeHandle answers locknew s = some (.error (errno, s'))) :
    s'.Owned ∧ Kept s (.refused errno) s' := by
  rw [takeHandle] at h
  cases hstr : s.stream with
  | none =>
    simp only [hstr] at h
    split at h
    · cases h
      exact ⟨hown, .refl _⟩
    · cases h
  | some old =>
    have hsame : { s with stream := some old } = s := by rw [← hstr]
    simp only [hstr, prepare] at h
    split at h
    · cases h
    · next hprep =>
      cases h
      split at hprep
      · cases hprep
      · split at hprep
        · cases hprep
          rw [hsame]
          exact ⟨hown, .refl _⟩
        · split at hprep
          · cases hprep
            rw [hsame]
            exact ⟨hown, .refl _⟩
          · split at hprep
            · split at hprep
              · cases hprep
                refine ⟨?_, .ebadfd⟩
                rw [State.Owned, State.live, hstr] at hown
                exact hown
              · cases hprep
            · cases hprep
    · cases h

/-! ## Creating and opening -/

theorem Fhandle.afterFailure_ids (stream : Fhandle) (lost : Bool) :
    (stream.afterFailure lost).ids = stream.ids := by
  rw [Fhandle.afterFailure]
  split <;> rfl

theorem Took.kept_afterFailure (h : Took s false stream) (lost : Bool) (ledger : Ledger) :
    Kept s (.refused (stream.afterFailure lost).errno) ⟨some (stream.afterFailure lost), ledger⟩ := by
  intro errno old hreply hne hold
  cases hreply
  have hmeta : (stream.afterFailure lost).metahandle ≠ none := by
    intro hmeta
    rw [Fhandle.errno, if_pos hmeta] at hne
    exact hne rfl
  cases h with
  | stream hstr hds =>
    rw [hstr] at hold
    cases hold
    refine ⟨_, rfl, ?_⟩
    rw [Fhandle.afterFailure] at hmeta ⊢
    split
    · next hlost =>
      rw [if_pos hlost] at hmeta
      exact absurd rfl hmeta
    · exact ⟨rfl, rfl, rfl⟩
  | closed hstr hds _ =>
    rw [Fhandle.afterFailure, if_neg (fun hlost => hlost.2 hds)] at hmeta
    exact absurd rfl hmeta

theorem Took.kept_unlocked (h : Took s false stream) {ledger : Ledger} :
    Kept s (.refused stream.errno) ⟨some { stream with locked := false }, ledger⟩ := by
  have hsame : stream.afterFailure false = { stream with locked := false } := if_neg (fun h => nomatch h.1)
  have hkept := h.kept_afterFailure false ledger
  rw [hsame] at hkept
  exact hkept

def CreatSound (config : MarfsConfig) (pos : MarfsPosition) (answers : Answers) (newstream : Bool)
    (stream : Fhandle) : Prop :=
  IsCopied config pos → answers.duplicated = false → newstream = true ∨ stream.datastream ≠ none

theorem creatOn_iff {itype : Interface} {pos : MarfsPosition} (hown : s.Owned)
    (htook : Took s newstream stream)
    (h : creatOn config itype pos answers newstream stream s.ledger = (reply, s')) :
    (s'.Owned ∧ Kept s reply s') ↔ CreatSound config pos answers newstream stream := by
  have hlive : s.ledger.Owns stream.ids := htook.live ▸ hown
  rw [creatOn] at h
  rcases configDuplicatensref_spec config pos answers.duplicated hlive with
    ⟨dupref, ledger, hdup, howns, hids, hall⟩ | ⟨hdup, hcopy, hall⟩
  · have hsound : CreatSound config pos answers newstream stream := by
      intro hcopy hfail
      rw [hall hcopy] at hfail
      cases hfail
    rw [iff_true_right hsound]
    simp only [hdup] at h
    split at h
    · next lost _ _ =>
      cases newstream with
      | true =>
        cases h
        rw [htook.ids_of_new] at howns
        exact ⟨owns_dropped howns, htook.kept_of_new _⟩
      | false =>
        cases h
        refine ⟨?_, htook.kept_afterFailure lost _⟩
        rw [← stream.afterFailure_ids lost] at howns
        exact owns_dropped howns
    · cases h
      exact ⟨owns_replaced howns, .returned⟩
  · simp only [hdup] at h
    cases h
    cases htook with
    | fresh hstr =>
      refine iff_of_true ⟨hlive, (Took.fresh hstr).kept_of_new _⟩ fun _ _ => .inl rfl
    | stream hstr hds =>
      refine iff_of_true ⟨hlive, ?_⟩ fun _ _ => .inr hds
      intro errno old _ _ hold
      rw [hstr] at hold
      cases hold
      exact ⟨_, rfl, rfl, rfl, rfl⟩
    | @closed old hstr hds hmeta =>
      constructor
      · rintro ⟨-, hkept⟩
        obtain ⟨stream, hafter, -, -, hsame⟩ := hkept .left old rfl (fun h => nomatch h) hstr
        cases hafter
        exact absurd hsame.symm hmeta
      · intro hsound
        rcases hsound hcopy hall with hnew | hstill
        · cases hnew
        · exact absurd hds hstill

section Open

variable {itype : Interface} {flags : Nat} {dupref : NsPtr} {ledger : Ledger}

def AsyncSound (answers : Answers) (newstream : Bool) (stream : Fhandle) : Prop :=
  newstream = true ∨ answers.opened ≠ none ∨ (stream.datastream ≠ none ∧ answers.released = false)

theorem openAsync_iff (htook : Took s newstream stream) (howns : ledger.Owns (dupref.ids ++ stream.ids))
    (h : openAsync itype flags answers newstream stream dupref ledger = (reply, s')) :
    (s'.Owned ∧ Kept s reply s') ↔ (dupref.ids ≠ [] → AsyncSound answers newstream stream) := by
  rw [openAsync] at h
  split at h
  · next hrelease =>
    cases h
    have hrel : answers.released = false := Bool.eq_false_iff.2 hrelease.2
    refine iff_of_true ⟨owns_dropped howns, .ebadfd⟩ fun _ => ?_
    exact .inr (.inr ⟨hrelease.1, hrel⟩)
  · next hrelease =>
    have hreplaced := owns_replaced howns
    dsimp only at h
    split at h
    · next hopen =>
      cases newstream with
      | true =>
        cases h
        refine iff_of_true ⟨?_, htook.kept_of_new _⟩ fun _ => .inl rfl
        rw [← List.append_nil dupref.ids] at hreplaced
        exact owns_dropped hreplaced
      | false =>
        cases h
        -- the copy is destroyed and named
        rw [← List.append_nil dupref.ids] at hreplaced
        have hdangling : _ ↔ dupref.ids = [] := owns_append_iff (owns_dropped hreplaced)
        rw [List.append_nil] at hdangling
        have hunsound : ¬ AsyncSound answers false stream := by
          rintro (hnew | hsome | ⟨hds, hrel⟩)
          · cases hnew
          · exact hsome hopen
          · exact hrelease ⟨hds, Bool.eq_false_iff.1 hrel⟩
        constructor
        · rintro ⟨hown, -⟩ hne
          exact absurd (hdangling.1 hown) hne
        · intro hsound
          have hids : dupref.ids = [] := by
            by_contra hne
            exact hunsound (hsound hne)
          exact ⟨hdangling.2 hids, .ebadfd⟩
    · next hopen =>
      cases h
      exact iff_of_true ⟨hreplaced, .returned⟩ fun _ => .inr (.inl hopen)

/-- The datastream is opened, or a meta handle is handed out for it. -/
def StreamSound (flags : Nat) (answers : Answers) : Prop :=
  ∀ lost phandle, answers.streamed = .failed lost phandle → flags &&& oAccmode = oRdonly ∧ phandle ≠ none

theorem openStream_iff (htook : Took s newstream stream) (howns : ledger.Owns (dupref.ids ++ stream.ids))
    (h : openStream itype flags answers newstream stream dupref ledger = (reply, s')) :
    (s'.Owned ∧ Kept s reply s') ↔ (dupref.ids ≠ [] → StreamSound flags answers) := by
  rw [openStream] at h
  split at h
  · next datastream metahandle hstreamed =>
    cases h
    refine iff_of_true ⟨owns_replaced howns, .returned⟩ ?_
    intro _ lost phandle hfail
    rw [hstreamed] at hfail
    cases hfail
  · next lost handed hstreamed =>
    split at h
    · next phandle hphandle =>
      have hsound : StreamSound flags answers := by
        intro lost' handed' hfail
        rw [hstreamed] at hfail
        cases hfail
        split at hphandle
        · next hrdonly => exact ⟨hrdonly, hphandle ▸ Option.some_ne_none _⟩
        · cases hphandle
      split at h
      · cases h
        exact iff_of_true ⟨owns_dropped howns, .ebadfd⟩ fun _ => hsound
      · cases h
        exact iff_of_true ⟨owns_replaced howns, .returned⟩ fun _ => hsound
    · next hphandle =>
      -- the copy is lost, if there is one
      have hleaks : ¬ StreamSound flags answers := by
        intro hsound
        obtain ⟨hrdonly, hhanded⟩ := hsound lost handed hstreamed
        rw [if_pos hrdonly] at hphandle
        exact hhanded hphandle
      have hkept : s'.ledger = ledger ∧ s'.live = stream.ids ∧ Kept s reply s' := by
        cases newstream with
        | true =>
          cases h
          exact ⟨rfl, htook.ids_of_new.symm, htook.kept_of_new _⟩
        | false =>
          cases h
          exact ⟨rfl, stream.afterFailure_ids lost, htook.kept_afterFailure lost _⟩
      rw [State.Owned, hkept.1, hkept.2.1, append_owns_iff howns, and_iff_left hkept.2.2]
      constructor
      · intro hids hne
        exact absurd hids hne
      · intro hsound
        by_contra hne
        exact hleaks (hsound hne)

/-- A copy that was made is named in the end, or destroyed. -/
def OpenSound (config : MarfsConfig) (pos : MarfsPosition) (flags : Nat) (answers : Answers)
    (newstream : Bool) (stream : Fhandle) : Prop :=
  IsCopied config pos → answers.duplicated = true →
    if flags &&& oAsync ≠ 0 then AsyncSound answers newstream stream else StreamSound flags answers

theorem openOn_iff {pos : MarfsPosition} (hown : s.Owned) (htook : Took s newstream stream)
    (h : openOn config itype pos flags answers newstream stream s.ledger = (reply, s')) :
    (s'.Owned ∧ Kept s reply s') ↔ OpenSound config pos flags answers newstream stream := by
  have hlive : s.ledger.Owns stream.ids := htook.live ▸ hown
  rw [openOn] at h
  rcases configDuplicatensref_spec config pos answers.duplicated hlive with
    ⟨dupref, ledger, hdup, howns, hids, hall⟩ | ⟨hdup, hcopy, hall⟩
  · simp only [hdup] at h
    have hiff : (s'.Owned ∧ Kept s reply s') ↔ (dupref.ids ≠ [] →
        if flags &&& oAsync ≠ 0 then AsyncSound answers newstream stream
        else StreamSound flags answers) := by
      split at h
      · next hasync =>
        rw [if_pos hasync]
        exact openAsync_iff htook howns h
      · next hasync =>
        rw [if_neg hasync]
        exact openStream_iff htook howns h
    rw [hiff, OpenSound, Ne, hids, not_not]
    constructor
    · intro hsound hcopy _
      exact hsound hcopy
    · intro hsound hcopy
      exact hsound hcopy (hall hcopy)
  · simp only [hdup] at h
    have hsound : OpenSound config pos flags answers newstream stream := by
      intro _ hduplicated
      rw [hall] at hduplicated
      cases hduplicated
    refine iff_of_true ?_ hsound
    cases newstream with
    | true =>
      cases h
      refine ⟨?_, htook.kept_of_new _⟩
      rw [htook.ids_of_new] at hlive
      exact hlive
    | false =>
      cases h
      exact ⟨hlive, htook.kept_unlocked⟩

end Open

/-! ## Runs -/

/-- The call does not take a branch that goes wrong: once its target passed the checks and there is a handle
to use. -/
def Call.Sound (config : MarfsConfig) (s : State) (answers : Answers) : Call → Prop
  | .creat itype => ∀ pos newstream stream, creatTarget config itype answers = .ok pos →
      takeHandle answers false s = some (.ok (newstream, stream)) →
      CreatSound config pos answers newstream stream
  | .open itype flags => ∀ pos newstream stream, openTarget config itype flags answers = .ok pos →
      takeHandle answers true s = some (.ok (newstream, stream)) →
      OpenSound config pos flags answers newstream stream
  | .close => True
  | .release => True

def Call.Keeps (s : State) (reply : Reply) (s' : State) : Call → Prop
  | .creat _ => Kept s reply s'
  | .open _ _ => Kept s reply s'
  | .close => True
  | .release => True

theorem State.Owned.freed (hown : s.Owned) (hstr : s.stream = some stream) : (s.freed stream).Owned := by
  rw [State.Owned, State.live, hstr] at hown
  apply configDestroynsref_owns.2
  show s.ledger.Owns (stream.ids ++ [])
  rw [List.append_nil]
  exact hown

theorem marfsClose_cases (h : marfsClose answers s = some (reply, s')) :
    s' = s ∨ ∃ stream, s.stream = some stream ∧ s' = s.freed stream := by
  rw [marfsClose] at h
  split at h
  · cases h
    exact .inl rfl
  · next stream hstr =>
    have hfreed : s' = s ∨ s' = s.freed stream := by
      repeat' split at h
      all_goals cases h
      all_goals first | exact .inl rfl | exact .inr rfl
    exact hfreed.imp_right fun heq => ⟨stream, hstr, heq⟩

theorem marfsRelease_cases (h : marfsRelease answers s = some (reply, s')) :
    s' = s ∨ ∃ stream, s.stream = some stream ∧ s' = s.freed stream := by
  rw [marfsRelease] at h
  split at h
  · cases h
    exact .inl rfl
  · next stream hstr =>
    have hfreed : s' = s ∨ s' = s.freed stream := by
      repeat' split at h
      all_goals cases h
      all_goals first | exact .inl rfl | exact .inr rfl
    exact hfreed.imp_right fun heq => ⟨stream, hstr, heq⟩

theorem State.Owned.closed (hown : s.Owned)
    (h : s' = s ∨ ∃ stream, s.stream = some stream ∧ s' = s.freed stream) : s'.Owned := by
  rcases h with rfl | ⟨stream, hstr, rfl⟩
  · exact hown
  · exact hown.freed hstr

theorem opening_iff {target : Except Errno MarfsPosition}
    {go : MarfsPosition → Bool → Fhandle → Reply × State}
    {sound : MarfsPosition → Bool → Fhandle → Prop} (hown : s.Owned)
    (hgo : ∀ {pos newstream stream reply s'}, Took s newstream stream → go pos newstream stream =
      (reply, s') →
      ((s'.Owned ∧ Kept s reply s') ↔ sound pos newstream stream))
    (h : (match target with
      | .error errno => s.refuse errno
      | .ok pos =>
        match takeHandle answers locknew s with
        | none => none
        | some (.error (errno, s)) => s.refuse errno
        | some (.ok (newstream, stream)) => some (go pos newstream stream)) = some (reply, s')) :
    (s'.Owned ∧ Kept s reply s') ↔ ∀ pos newstream stream, target = .ok pos →
      takeHandle answers locknew s = some (.ok (newstream, stream)) → sound pos newstream stream := by
  cases target with
  | error errno =>
    cases h
    exact iff_of_true ⟨hown, .refl _⟩ fun _ _ _ htgt => nomatch htgt
  | ok pos =>
    dsimp only at h
    split at h
    · cases h
    · next errno after htake =>
      cases h
      refine iff_of_true (takeHandle_error hown htake) ?_
      intro _ _ _ _ hok
      rw [htake] at hok
      cases hok
    · next newstream stream htake =>
      cases hres : go pos newstream stream with
      | mk reply' after =>
        rw [hres] at h
        cases h
        rw [hgo (takeHandle_ok htake) hres]
        constructor
        · intro hsound pos' newstream' stream' hpos hok
          cases hpos
          rw [htake] at hok
          cases hok
          exact hsound
        · intro hall
          exact hall pos newstream stream rfl htake

theorem step_iff {call : Call} (hown : s.Owned) (h : step config s call answers = some (reply, s')) :
    (s'.Owned ∧ call.Keeps s reply s') ↔ call.Sound config s answers := by
  cases call with
  | creat itype => exact opening_iff hown (fun htook hgo => creatOn_iff hown htook hgo) h
  | «open» itype flags => exact opening_iff hown (fun htook hgo => openOn_iff hown htook hgo) h
  | close => exact iff_of_true ⟨hown.closed (marfsClose_cases h), trivial⟩ trivial
  | release => exact iff_of_true ⟨hown.closed (marfsRelease_cases h), trivial⟩ trivial

inductive Run (config : MarfsConfig) : State → Prop
  | start : Run config ⟨none, .fresh⟩
  | step {s s' : State} {call : Call} {answers : Answers} {reply : Reply} (run : Run config s)
    (sound : call.Sound config s answers) (step : step config s call answers = some (reply, s')) :
    Run config s'

theorem Run.owned (hrun : Run config s) : s.Owned := by
  induction hrun with
  | start => exact Ledger.owns_fresh
  | step _ hsound hstep ih => exact ((step_iff ih hstep).2 hsound).1

/-! ## A ghost -/

def ghostCopy : MarfsNs := ⟨['r', '|', '/', 'g'], 0, 0, 15, 15, 0, none, [], some 1, some 2⟩

def plainConfig : MarfsConfig where
  mountpoint := ['/', 'm']
  rootns := 0
  ns := fun _ => ⟨['r', '|', '/', '.'], 0, 0, 15, 15, 0, none, [], none, none⟩

/-- A file in the ghost; all succeeds but the MDAL's `open`. -/
def ghostAnswers : Answers where
  shift := .found ⟨.copy ghostCopy, 1, none⟩ ['f'] 1
  inodeusage := none
  datausage := none
  allocated := true
  lock := true
  closed := true
  duplicated := true
  streamed := .opened 0 0
  released := true
  opened := none

theorem ghostAnswers_run : Run plainConfig ⟨none, ⟨1, [0]⟩⟩ := by
  have hcreat : Call.Sound plainConfig ⟨none, .fresh⟩ ghostAnswers (.creat .batch) :=
    fun _ _ _ _ _ _ hfail => nomatch hfail
  have hcreated := Run.step .start hcreat rfl
  exact hcreated.step (show Call.Sound plainConfig _ ghostAnswers .close from trivial) rfl

/-- In every state that sound calls lead to: where the handle is freed, each copy was destroyed once; what
the handle names was not destroyed; and nothing was destroyed twice.  A further call keeps each copy either
destroyed once or named by the handle, and leaves the handle what it refers to where it fails without
`EBADFD`, exactly if it is sound. -/
theorem run_owns_namespace (hrun : Run config s) :
    (s.stream = none → ∀ id, id < s.ledger.made → s.ledger.destroyed.count id = 1) ∧
      (∀ stream id ns, s.stream = some stream → stream.ns = some (.copy id ns) →
        id ∉ s.ledger.destroyed) ∧
      s.ledger.destroyed.Nodup ∧
      ∀ call answers reply s', step config s call answers = some (reply, s') →
        ((s'.Owned ∧ call.Keeps s reply s') ↔ call.Sound config s answers) := by
  have hown := hrun.owned
  refine ⟨?_, ?_, ?_, fun call answers reply s' hstep => step_iff hown hstep⟩
  · intro hnone id hid
    rw [State.Owned, State.live, hnone] at hown
    exact hown.count_destroyed hid
  · intro stream id ns hstream hns
    apply Ledger.Owns.not_mem_destroyed hown
    rw [State.live, hstream]
    show id ∈ stream.ns.elim [] NsPtr.ids
    rw [hns]
    exact List.mem_singleton_self id
  · exact hown.nodup_destroyed

/-- A file is created in the ghost and closed. -/
theorem ghostAnswers_owns : Run plainConfig ⟨none, ⟨1, [0]⟩⟩ ∧ [0].count 0 = 1 ∧ [0].Nodup :=
  ⟨ghostAnswers_run, (run_owns_namespace ghostAnswers_run).1 rfl 0 (by decide),
    (run_owns_namespace ghostAnswers_run).2.2.1⟩

/-- A file is created in the ghost, and an `O_ASYNC` open of the same handle fails: the handle names the copy
that was destroyed, and its release destroys it once more.  And an open whose datastream fails loses the copy
it has made. -/
theorem ghostAnswers_destroyed_twice :
    (∃ s₁ s₂ s₃ stream, step plainConfig ⟨none, .fresh⟩ (.creat .batch) ghostAnswers = some (.returned, s₁) ∧
      step plainConfig s₁ (.open .batch oAsync) ghostAnswers = some (.refused .ebadfd, s₂) ∧
      s₂.stream = some stream ∧ stream.ns = some (.copy 1 ghostCopy) ∧ 1 ∈ s₂.ledger.destroyed ∧
      step plainConfig s₂ .release ghostAnswers = some (.returned, s₃) ∧
      s₃.stream = none ∧ s₃.ledger.destroyed.count 1 = 2) ∧
    step plainConfig ⟨none, .fresh⟩ (.open .batch oRdonly)
        { ghostAnswers with streamed := .failed false none } =
      some (.refused .left, ⟨none, ⟨1, []⟩⟩) :=
  ⟨⟨_, _, _, _, rfl, rfl, rfl, rfl, by decide, rfl, rfl, by decide⟩, rfl⟩

end Marfs.Ownership
