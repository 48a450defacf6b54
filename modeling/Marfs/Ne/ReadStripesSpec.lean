import Marfs.Ne.Regeneration
import Mathlib.Algebra.BigOperators.Fin
import Mathlib.Algebra.Field.ZMod

/-!
# The decode tables of a handle

While `e_ready` is set, the tables in the handle were generated for the flags of `prev_in_err` up to some
block: all that were read by the call that generated them (`Cached`).  The flags of blocks that a later call
does not read stay as they were, so the errors of a stripe and those of the tables may differ, but in blocks
behind the data parts and the sources only: what is regenerated for a data part is the original.  They do
not differ where each call that finds an error reads all blocks that are flagged.
-/

namespace Marfs.Ne.Stripes

open Marfs.Erasure List

/-! ## The blocks of a call -/

section Fetching

variable {V : Type} {N : Nat} {epat : Epat} {answers : Answers V} {ethreads : Nat}

/-- The blocks that a call reads: all data blocks, those of the threads that run, and as many more as there
are errors in the blocks before. -/
def Read (N : Nat) (epat : Epat) (answers : Answers V) (ethreads b : Nat) : Prop :=
  b < N + epat.E ∧ ∀ q, N ≤ q → q ≤ b → q < N + max ethreads (errorsBelow answers q)

theorem errorsBelow_succ (answers : Answers V) (b : Nat) :
    errorsBelow answers (b + 1) = errorsBelow answers b + if errorAt answers b then 1 else 0 := by
  rw [errorsBelow, range_succ, countP_append, countP_singleton, ← errorsBelow]

/-- What holds of the loop over the blocks. -/
structure Fetched (N : Nat) (epat : Epat) (answers : Answers V) (ethreads : Nat) (st : Fetch V) : Prop where
  bound : st.iob.length ≤ N + epat.E
  dequeued : ∀ b iob, st.iob[b]? = some iob → answers.dequeue b = some iob
  errors : st.nstripeErrors = errorsBelow answers st.iob.length
  few : st.nstripeErrors ≤ epat.E
  threads : st.ethreadsRunning = max ethreads (st.iob.length - N)
  entered : ∀ q, N ≤ q → q < st.iob.length → q < N + max ethreads (errorsBelow answers q)
  stripecnt : st.stripecnt = st.iobDatasz / epat.partsz
  sizes : (∀ b iob, answers.dequeue b = some iob → 0 < iob.dataSize) →
    (∀ iob ∈ st.iob, iob.dataSize = st.iobDatasz) ∧ (st.iobDatasz = 0 → st.iob = [])

/-- No more blocks are needed. -/
def Settled (N : Nat) (epat : Epat) (st : Fetch V) : Prop :=
  st.iob.length = N + epat.E ∨
    N + st.nstripeErrors ≤ st.iob.length ∧ N + st.ethreadsRunning ≤ st.iob.length

variable {st : Fetch V}

theorem Fetched.next {iob : Ioblock V} {ethreadsRunning nstripeErrors stripecnt iobDatasz : Nat}
    (h : Fetched N epat answers ethreads st)
    (hneed : (st.iob.length < N + st.nstripeErrors ∨ st.iob.length < N + st.ethreadsRunning) ∧
      st.iob.length < N + epat.E) (hdeq : answers.dequeue st.iob.length = some iob)
    (hthrs : ethreadsRunning = if st.iob.length ≥ N + st.ethreadsRunning then st.ethreadsRunning + 1
      else st.ethreadsRunning)
    (herrors : nstripeErrors = if iob.errorEnd > 0 then st.nstripeErrors + 1 else st.nstripeErrors)
    (hfew : nstripeErrors ≤ epat.E) (hstripecnt : stripecnt = iobDatasz / epat.partsz)
    (hsize : iob.dataSize = iobDatasz) (hsame : st.iobDatasz ≠ 0 → iobDatasz = st.iobDatasz) :
    Fetched N epat answers ethreads
      ⟨ethreadsRunning, nstripeErrors, stripecnt, iobDatasz, st.iob ++ [iob]⟩ := by
  obtain ⟨hneed, hbound⟩ := hneed
  have hrun := h.threads
  have hcnt := h.errors
  have hlen : (st.iob ++ [iob]).length = st.iob.length + 1 := length_append
  constructor
  case bound => exact hlen ▸ hbound
  case dequeued =>
    intro b iob' hb
    by_cases hlt : b < st.iob.length
    · rw [List.getElem?_append_left hlt] at hb
      exact h.dequeued b iob' hb
    · have hb' : b < (st.iob ++ [iob]).length := (List.getElem?_eq_some_iff.1 hb).1
      obtain rfl : b = st.iob.length := by omega
      rw [List.getElem?_concat_length] at hb
      rwa [← Option.some.inj hb]
  case errors =>
    rw [hlen, errorsBelow_succ, ← hcnt, errorAt, hdeq, Option.elim_some]
    dsimp only
    rw [herrors]
    by_cases hpos : iob.errorEnd > 0
    · rw [if_pos hpos, if_pos (decide_eq_true hpos)]
    · rw [if_neg hpos, if_neg (by simpa using hpos), Nat.add_zero]
  case few => exact hfew
  case threads =>
    rw [hlen]
    dsimp only
    rw [hthrs]
    by_cases hge : st.iob.length ≥ N + st.ethreadsRunning
    · rw [if_pos hge]
      omega
    · rw [if_neg hge]
      omega
  case entered =>
    intro q hq hlt
    rw [hlen] at hlt
    by_cases hbef : q < st.iob.length
    · exact h.entered q hq hbef
    · obtain rfl : q = st.iob.length := by omega
      rw [← hcnt]
      omega
  case stripecnt => exact hstripecnt
  case sizes =>
    intro hpos
    obtain ⟨hsizes, hemp⟩ := h.sizes hpos
    refine ⟨?_, ?_⟩
    · intro iob' hmem
      obtain hmem | hmem := List.mem_append.1 hmem
      · have hne : st.iobDatasz ≠ 0 := by
          intro hzero
          rw [hemp hzero] at hmem
          cases hmem
        exact (hsizes iob' hmem).trans (hsame hne).symm
      · rw [List.mem_singleton.1 hmem]
        exact hsize
    · intro hzero
      have hnonempty := hpos _ _ hdeq
      rw [hsize] at hnonempty
      exact absurd hzero (Nat.ne_of_gt hnonempty)

/-- What the loop over the blocks comes to. -/
inductive FetchEnd (N : Nat) (epat : Epat) (answers : Answers V) (ethreads : Nat) (st : Fetch V) :
    Option Errno → Prop
  | done : Fetched N epat answers ethreads st → Settled N epat st → FetchEnd N epat answers ethreads st none
  | failed (error : Errno) : ethreads ≤ st.ethreadsRunning →
      (error = .enodata → ∃ q, q ≤ N + epat.E ∧ epat.E < errorsBelow answers q) →
      FetchEnd N epat answers ethreads st (some error)

theorem fetchLoop_end : ∀ (fuel : Nat) {st st' : Fetch V} {errno : Option Errno},
    Fetched N epat answers ethreads st → fuel + st.iob.length = N + epat.E →
    fetchLoop N epat answers fuel st = (st', errno) →
    FetchEnd N epat answers ethreads st' errno := by
  intro fuel
  induction fuel with
  | zero =>
    intro st st' errno hst hfuel h
    obtain ⟨rfl, rfl⟩ := Prod.mk.inj h
    rw [Nat.zero_add] at hfuel
    exact .done hst (.inl hfuel)
  | succ fuel ih =>
    intro st st' errno hst hfuel h
    rw [fetchLoop] at h
    dsimp only at h
    by_cases hneed : (st.iob.length < N + st.nstripeErrors ∨ st.iob.length < N + st.ethreadsRunning) ∧
        st.iob.length < N + epat.E
    case neg =>
      rw [if_neg hneed] at h
      obtain ⟨rfl, rfl⟩ := Prod.mk.inj h
      have hbound := hst.bound
      refine .done hst ?_
      rw [Settled]
      omega
    rw [if_pos hneed] at h
    have hrun : ethreads ≤ st.ethreadsRunning := by
      rw [hst.threads]
      exact Nat.le_max_left _ _
    by_cases hrestart : st.iob.length ≥ N + st.ethreadsRunning ∧ ¬ answers.restarted st.iob.length
    · rw [if_pos hrestart] at h
      obtain ⟨rfl, rfl⟩ := Prod.mk.inj h
      exact .failed .ebadf hrun fun h => nomatch h
    rw [if_neg hrestart] at h
    generalize hthrs : (if st.iob.length ≥ N + st.ethreadsRunning then st.ethreadsRunning + 1
      else st.ethreadsRunning) = ethreadsRunning at h
    have hstarted : ethreads ≤ ethreadsRunning := by
      split at hthrs <;> omega
    cases hdeq : answers.dequeue st.iob.length with
    | none =>
      rw [hdeq] at h
      obtain ⟨rfl, rfl⟩ := Prod.mk.inj h
      exact .failed .ebadf hstarted fun h => nomatch h
    | some iob =>
      rw [hdeq] at h
      dsimp only at h
      generalize herrors : (if iob.errorEnd > 0 then st.nstripeErrors + 1 else st.nstripeErrors) =
        nstripeErrors at h
      by_cases hfew : nstripeErrors > epat.E
      · rw [if_pos hfew] at h
        obtain ⟨rfl, rfl⟩ := Prod.mk.inj h
        refine .failed .enodata hstarted fun _ => ⟨st.iob.length + 1, hneed.2, ?_⟩
        have hcnt := hst.errors
        rw [errorsBelow_succ, ← hcnt, errorAt, hdeq, Option.elim_some]
        by_cases hpos : iob.errorEnd > 0
        · rw [if_pos hpos] at herrors
          rw [if_pos (decide_eq_true hpos)]
          omega
        · rw [if_neg hpos] at herrors
          omega
      rw [if_neg hfew] at h
      by_cases hsize : st.iobDatasz ≠ 0
      · rw [if_pos hsize] at h
        by_cases hdiff : iob.dataSize ≠ st.iobDatasz
        · rw [if_pos hdiff] at h
          obtain ⟨rfl, rfl⟩ := Prod.mk.inj h
          exact .failed .ebadf hstarted fun h => nomatch h
        rw [if_neg hdiff] at h
        refine ih (hst.next hneed hdeq hthrs.symm herrors.symm (Nat.le_of_not_lt hfew) hst.stripecnt
          (Decidable.not_not.1 hdiff) fun _ => rfl) ?_ h
        rw [length_append, length_singleton]
        omega
      · rw [if_neg hsize] at h
        refine ih (hst.next hneed hdeq hthrs.symm herrors.symm (Nat.le_of_not_lt hfew) rfl rfl
          fun hne => absurd hne hsize) ?_ h
        rw [length_append, length_singleton]
        omega

theorem FetchEnd.threads {errno : Option Errno} (h : FetchEnd N epat answers ethreads st errno) :
    ethreads ≤ st.ethreadsRunning := by
  cases h with
  | done hfet hset =>
    rw [hfet.threads]
    exact Nat.le_max_left _ _
  | failed error hthrs hnod => exact hthrs

theorem Fetched.lt_iff (h : Fetched N epat answers ethreads st) (hset : Settled N epat st) {b : Nat} :
    b < st.iob.length ↔ Read N epat answers ethreads b := by
  have hbound := h.bound
  constructor
  · intro hb
    exact ⟨Nat.lt_of_lt_of_le hb hbound, fun q hq hle => h.entered q hq (Nat.lt_of_le_of_lt hle hb)⟩
  · intro ⟨hb, hread⟩
    apply Nat.lt_of_not_le
    intro hge
    have hthrs := h.threads
    have herrors := h.errors
    obtain hall | ⟨hfewer, hrun⟩ := hset
    · omega
    · have hneed := hread st.iob.length (by omega) hge
      omega

theorem Fetched.room (h : Fetched N epat answers ethreads st) (hset : Settled N epat st) :
    N + errorsBelow answers st.iob.length ≤ st.iob.length := by
  have hfew := h.few
  rw [← h.errors]
  obtain hall | ⟨hfewer, -⟩ := hset
  · omega
  · exact hfewer

theorem Fetched.exists_error (h : Fetched N epat answers ethreads st) (hset : Settled N epat st)
    (hdirty : st.nstripeErrors ≠ 0) : ∃ b, Read N epat answers ethreads b ∧ errorAt answers b = true := by
  rw [h.errors, errorsBelow] at hdirty
  obtain ⟨b, hb, herror⟩ := List.countP_pos_iff.1 (Nat.pos_of_ne_zero hdirty)
  exact ⟨b, (h.lt_iff hset).1 (List.mem_range.1 hb), herror⟩

theorem Fetched.start : Fetched N epat answers ethreads ⟨ethreads, 0, 0, 0, []⟩ where
  bound := Nat.zero_le _
  dequeued b iob h := nomatch h
  errors := rfl
  few := Nat.zero_le _
  threads := by rw [length_nil, Nat.zero_sub, Nat.max_zero]
  entered q _ hq := absurd hq (Nat.not_lt_zero q)
  stripecnt := (Nat.zero_div _).symm
  sizes _ := ⟨(fun iob h => nomatch h), fun _ => rfl⟩

end Fetching

/-! ## Calls -/

section Calls

variable {F V : Type} {N : Nat} {epat : Epat} {answers : Answers V} {h : Handle F N}

def Handle.regen (h : Handle F N) (iob : List (Ioblock V)) : Regen F V N :=
  ⟨h.eReady, h.prevInErr, h.tables, iob, []⟩

structure Handle.CacheOf (h : Handle F N) (st : Regen F V N) : Prop where
  eReady : h.eReady = st.eReady
  prevInErr : h.prevInErr = st.prevInErr
  tables : h.tables = st.tables

variable {st : Regen F V N} {nstripeErrors : Nat} {fetch : Fetch V} {stripes : Nat → Fin N → V}

theorem haltThreads_cacheOf (hcache : h.CacheOf st) : (haltThreads N answers nstripeErrors h).CacheOf st := by
  rw [haltThreads]
  by_cases hmode : h.rdonly = true
  · rw [if_pos hmode]
    exact ⟨hcache.eReady, hcache.prevInErr, hcache.tables⟩
  · rw [if_neg hmode]
    exact hcache

/-- What a call leaves of the threads: in other modes than `NE_RDONLY` none is halted. -/
structure Handle.Running (h h' : Handle F N) : Prop where
  mode : h'.rdonly = h.rdonly
  threads : h.rdonly = false → h.ethreadsRunning ≤ h'.ethreadsRunning

theorem haltThreads_running {h₀ : Handle F N} (hrun : h₀.Running h) :
    h₀.Running (haltThreads N answers nstripeErrors h) := by
  rw [haltThreads]
  by_cases hmode : h.rdonly = true
  · rw [if_pos hmode]
    refine ⟨hrun.mode, fun hmode' => ?_⟩
    rw [← hrun.mode, hmode] at hmode'
    cases hmode'
  · rw [if_neg hmode]
    exact hrun

def Handle.Whole (epat : Epat) (h : Handle F N) : Prop := Fresh (N + epat.E) h.eReady h.prevInErr h.tables

theorem Handle.CacheOf.whole (hcache : h.CacheOf st)
    (hst : Fresh (N + epat.E) st.eReady st.prevInErr st.tables) : h.Whole epat := by
  rwa [Handle.Whole, hcache.eReady, hcache.prevInErr, hcache.tables]

def Covered (epat : Epat) (h : Handle F N) (answers : Answers V) : Prop :=
  (∃ b, Read N epat answers h.ethreadsRunning b ∧ errorAt answers b = true) →
    ∀ p, p < N + epat.E → h.prevInErr.getD p false = true → Read N epat answers h.ethreadsRunning p

/-- The tables are generated for the last stripe: there are none, or the flag of some block that is read
changes. -/
def Reinitialises (epat : Epat) (h : Handle F N) (answers : Answers V) : Prop :=
  h.eReady = false ∨ ∃ b iob, Read N epat answers h.ethreadsRunning b ∧ answers.dequeue b = some iob ∧
    h.prevInErr.getD b false ≠ decide ((iob.dataSize / epat.partsz - 1) * epat.partsz < iob.errorEnd)

theorem covered_of_threads (hthrs : epat.E ≤ h.ethreadsRunning) : Covered epat h answers := by
  intro _ p hp _
  refine ⟨hp, fun q hq hle => ?_⟩
  omega

variable [Field F] {isal : Isal F N}

def Handle.Cached (isal : Isal F N) (epat : Epat) (h : Handle F N) : Prop :=
  Stripes.Cached isal epat h.eReady h.prevInErr h.tables

theorem Handle.Cached.regenerating (hcache : h.Cached isal epat)
    (hfet : Fetched N epat answers h.ethreadsRunning fetch) (hset : Settled N epat fetch) :
    Regenerating isal epat answers fetch.iob.length (h.regen fetch.iob) where
  room := hfet.room hset
  bound := hfet.bound
  blocks := rfl
  lowered b iob hb := ⟨iob, hfet.dequeued b iob hb, Nat.le_refl _⟩
  cached := hcache
  sound _ hcall := nomatch hcall

theorem Handle.CacheOf.cached (hcache : h.CacheOf st)
    (hst : Stripes.Cached isal epat st.eReady st.prevInErr st.tables) : h.Cached isal epat := by
  rwa [Handle.Cached, hcache.eReady, hcache.prevInErr, hcache.tables]

theorem scanOf_ready_iff {k : Nat} (hcache : h.Cached isal epat)
    (hfet : Fetched N epat answers h.ethreadsRunning fetch) (hset : Settled N epat fetch)
    (hne : ∀ b iob, answers.dequeue b = some iob → 0 < iob.dataSize) (hk : fetch.stripecnt = k + 1) :
    (scanOf epat k (h.regen fetch.iob)).eReady = true ↔ ¬ Reinitialises epat h answers := by
  have hscan := (hcache.regenerating hfet hset).scanned k
  have hst (iob : Ioblock V) (hiob : iob ∈ fetch.iob) :
      (iob.dataSize / epat.partsz - 1) * epat.partsz = k * epat.partsz := by
    rw [(hfet.sizes hne).1 iob hiob, ← hfet.stripecnt, hk, Nat.add_sub_cancel]
  rw [hscan.ready, Reinitialises, not_or, Bool.not_eq_false]
  refine and_congr_right fun _ => ?_
  constructor
  · intro hkept ⟨b, iob, hread, hdeq, hdiff⟩
    have hlt := (hfet.lt_iff hset).2 hread
    have hiob := List.getElem?_eq_getElem hlt
    obtain rfl : fetch.iob[b] = iob := Option.some.inj ((hfet.dequeued b _ hiob).symm.trans hdeq)
    rw [hst _ (getElem_mem hlt)] at hdiff
    have hsame := hkept b _ hiob
    rw [Nat.zero_add] at hsame
    exact hdiff hsame
  · intro hnone b iob hiob
    rw [Nat.zero_add]
    apply Decidable.not_not.1
    intro hdiff
    have hlt := (List.getElem?_eq_some_iff.1 hiob).1
    refine hnone ⟨b, iob, (hfet.lt_iff hset).1 hlt, hfet.dequeued b iob hiob, ?_⟩
    rw [hst iob (mem_of_getElem? hiob)]
    exact hdiff

variable [AddCommGroup V] [Module F V]

inductive CallEnd (isal : Isal F N) (epat : Epat) (answers : Answers V) (h : Handle F N)
    (r : Result F V N) : Prop
  | failed (error : Errno) : r.errno = some error →
      (error = .enodata → ∃ q, q ≤ N + epat.E ∧ epat.E < errorsBelow answers q) →
      r.calls = [] → r.handle.CacheOf (h.regen r.iob) → CallEnd isal epat answers h r
  | clean (fetch : Fetch V) : Fetched N epat answers h.ethreadsRunning fetch → Settled N epat fetch →
      fetch.nstripeErrors = 0 → r.errno = none → r.iob = fetch.iob → r.stripecnt = fetch.stripecnt →
      r.calls = [] → r.handle.CacheOf (h.regen r.iob) → CallEnd isal epat answers h r
  | repaired (fetch : Fetch V) (st : Regen F V N) : Fetched N epat answers h.ethreadsRunning fetch →
      Settled N epat fetch → fetch.nstripeErrors ≠ 0 →
      stripeLoop isal epat answers fetch.stripecnt (h.regen fetch.iob) = (st, r.errno) →
      r.iob = st.iob → r.stripecnt = fetch.stripecnt → r.calls = st.calls → r.handle.CacheOf st →
      CallEnd isal epat answers h r

theorem readStripes_end (isal : Isal F N) (epat : Epat) (answers : Answers V) (h : Handle F N) :
    CallEnd isal epat answers h (readStripes isal epat answers h) := by
  rw [readStripes]
  by_cases hoff : h.subOffset % (epat.partsz * N) ≠ 0 ∨ h.subOffset ≠ h.iobDatasz * N
  · rw [if_pos hoff]
    exact .failed .ebadf rfl (fun h => nomatch h) rfl ⟨rfl, rfl, rfl⟩
  rw [if_neg hoff]
  dsimp only
  by_cases hrel : ¬ answers.released
  · rw [if_pos hrel]
    exact .failed .left rfl (fun h => nomatch h) rfl ⟨rfl, rfl, rfl⟩
  rw [if_neg hrel]
  generalize hfetch : fetchLoop N epat answers (N + epat.E) ⟨h.ethreadsRunning, 0, 0, 0, []⟩ = out
  obtain ⟨fetch, errno⟩ := out
  cases fetchLoop_end _ Fetched.start rfl hfetch with
  | failed error hthrs hnod => exact .failed error rfl hnod rfl ⟨rfl, rfl, rfl⟩
  | done hfet hset =>
    dsimp only
    generalize hhalt : haltThreads N answers fetch.nstripeErrors _ = h'
    have hcache (iob : List (Ioblock V)) : h'.CacheOf (h.regen iob) := by
      rw [← hhalt]
      exact haltThreads_cacheOf ⟨rfl, rfl, rfl⟩
    by_cases hclean : fetch.nstripeErrors = 0
    · rw [if_pos hclean]
      exact .clean fetch hfet hset hclean rfl rfl rfl rfl (hcache _)
    rw [if_neg hclean]
    by_cases hall : ¬ answers.allocated
    · rw [if_pos hall]
      exact .failed .left rfl (fun h => nomatch h) rfl (hcache _)
    rw [if_neg hall, (hcache []).eReady, (hcache []).prevInErr, (hcache []).tables]
    generalize hloop : stripeLoop isal epat answers fetch.stripecnt _ = out
    obtain ⟨st, errno⟩ := out
    exact .repaired fetch st hfet hset hclean hloop rfl rfl rfl ⟨rfl, rfl, rfl⟩

theorem readStripes_running : h.Running (readStripes isal epat answers h).handle := by
  rw [readStripes]
  by_cases hoff : h.subOffset % (epat.partsz * N) ≠ 0 ∨ h.subOffset ≠ h.iobDatasz * N
  · rw [if_pos hoff]
    exact ⟨rfl, fun _ => Nat.le_refl _⟩
  rw [if_neg hoff]
  dsimp only
  by_cases hrel : ¬ answers.released
  · rw [if_pos hrel]
    exact ⟨rfl, fun _ => Nat.le_refl _⟩
  rw [if_neg hrel]
  generalize hfetch : fetchLoop N epat answers (N + epat.E) ⟨h.ethreadsRunning, 0, 0, 0, []⟩ = out
  obtain ⟨fetch, errno⟩ := out
  have hthrs := (fetchLoop_end _ Fetched.start rfl hfetch).threads
  cases errno with
  | some error => exact ⟨rfl, fun _ => hthrs⟩
  | none =>
    dsimp only
    generalize hhalt : haltThreads N answers fetch.nstripeErrors _ = h'
    have hrun : h.Running h' := by
      rw [← hhalt]
      exact haltThreads_running ⟨rfl, fun _ => hthrs⟩
    by_cases hclean : fetch.nstripeErrors = 0
    · rw [if_pos hclean]
      exact hrun
    rw [if_neg hclean]
    by_cases hall : ¬ answers.allocated
    · rw [if_pos hall]
      exact hrun
    · rw [if_neg hall]
      exact ⟨hrun.mode, hrun.threads⟩

theorem readStripes_kept (hcached : h.Cached isal epat) :
    (readStripes isal epat answers h).handle.Cached isal epat ∧
      ∀ call ∈ (readStripes isal epat answers h).calls, call.Sound isal epat := by
  cases readStripes_end isal epat answers h with
  | failed error herrno hnod hcalls hcache =>
    refine ⟨hcache.cached hcached, ?_⟩
    rw [hcalls]
    exact fun call hcall => nomatch hcall
  | clean fetch hfet hset hclean herrno hiob hcnt hcalls hcache =>
    refine ⟨hcache.cached hcached, ?_⟩
    rw [hcalls]
    exact fun call hcall => nomatch hcall
  | repaired fetch st hfet hset hdirty hloop hiob hcnt hcalls hcache =>
    obtain ⟨hkept, hsound⟩ := loop_kept (hcached.regenerating hfet hset) hloop
    refine ⟨hcache.cached hkept, ?_⟩
    rw [hcalls]
    exact hsound

theorem readStripes_nodata (hlaw : isal.Lawful (N + epat.E)) (hcached : h.Cached isal epat)
    (herrno : (readStripes isal epat answers h).errno = some .enodata) :
    ∃ q, q ≤ N + epat.E ∧ epat.E < errorsBelow answers q := by
  cases readStripes_end isal epat answers h with
  | failed error herrno' hnod hcalls hcache => exact hnod (Option.some.inj (herrno'.symm.trans herrno))
  | clean fetch hfet hset hclean herrno' hiob hcnt hcalls hcache =>
    rw [herrno'] at herrno
    cases herrno
  | repaired fetch st hfet hset hdirty hloop hiob hcnt hcalls hcache =>
    exact absurd herrno (loop_errno (hcached.regenerating hfet hset) hlaw hloop)

/-! ## What is delivered -/

def firstStripe (epat : Epat) (h : Handle F N) : Nat := (h.iobOffset + h.iobDatasz) / epat.partsz

/-- The ioblocks that the threads deliver: none is empty, and a part that is not in error is the one that was
written. -/
structure Delivered (isal : Isal F N) (epat : Epat) (stripes : Nat → Fin N → V) (h : Handle F N)
    (answers : Answers V) : Prop where
  nonempty : ∀ b iob, answers.dequeue b = some iob → 0 < iob.dataSize
  written : ∀ b iob, answers.dequeue b = some iob → ∀ k, (k + 1) * epat.partsz ≤ iob.dataSize →
    iob.errorEnd ≤ k * epat.partsz → iob.buff k = part isal.encode (stripes (firstStripe epat h + k)) b

theorem Delivered.intact (hdel : Delivered isal epat stripes h answers)
    (hfet : Fetched N epat answers h.ethreadsRunning fetch) :
    Intact isal epat (fun k => stripes (firstStripe epat h + k)) fetch.stripecnt fetch.iob := by
  intro b iob hb k hk hend
  have hsize := (hfet.sizes hdel.nonempty).1 iob (mem_of_getElem? hb)
  rw [hfet.stripecnt, ← hsize] at hk
  exact hdel.written b iob (hfet.dequeued b iob hb) k
    ((Nat.le_div_iff_mul_le epat.pos).1 hk) hend

/-- All data parts are there when a call succeeds. -/
theorem readStripes_restored (hlaw : isal.Lawful (N + epat.E)) (hcached : h.Cached isal epat)
    (hdel : Delivered isal epat stripes h answers) (herrno : (readStripes isal epat answers h).errno = none) :
    N ≤ (readStripes isal epat answers h).iob.length ∧
      Restored (fun k => stripes (firstStripe epat h + k)) (readStripes isal epat answers h).stripecnt 0
        (readStripes isal epat answers h).iob := by
  cases readStripes_end isal epat answers h with
  | failed error herrno' hnod hcalls hcache =>
    rw [herrno'] at herrno
    cases herrno
  | clean fetch hfet hset hclean herrno' hiob hstripecnt hcalls hcache =>
    have hroom := hfet.room hset
    rw [hiob, hstripecnt]
    refine ⟨Nat.le_trans (Nat.le_add_right _ _) hroom, ?_⟩
    intro i iob hi k hk hlt
    have hnone : iob.errorEnd = 0 := by
      have hcnt := hfet.errors
      rw [hclean, errorsBelow, eq_comm, countP_eq_zero] at hcnt
      have herror := hcnt i.val (List.mem_range.2 (List.getElem?_eq_some_iff.1 hi).1)
      rw [errorAt, hfet.dequeued _ _ hi, Option.elim_some, decide_eq_true_iff] at herror
      exact Nat.eq_zero_of_not_pos herror
    rw [hdel.intact hfet _ _ hi k hlt (hnone ▸ Nat.zero_le _)]
    exact part_of_systematic hlaw.systematic _ i
  | repaired fetch st hfet hset hdirty hloop hiob hstripecnt hcalls hcache =>
    rw [herrno] at hloop
    obtain ⟨hlen, hrestored⟩ := loop_restored (hcached.regenerating hfet hset) hlaw
      (hdel.intact hfet) hloop
    rw [hiob, hstripecnt, hlen]
    exact ⟨Nat.le_trans (Nat.le_add_right _ _) (hfet.room hset), hrestored⟩

/-! ## Calls that read what is flagged -/

theorem readStripes_whole (hcached : h.Cached isal epat) (hwhl : h.Whole epat)
    (hcov : Covered epat h answers) :
    (readStripes isal epat answers h).handle.Whole epat ∧
      ∀ call ∈ (readStripes isal epat answers h).calls, call.Exact := by
  cases readStripes_end isal epat answers h with
  | failed error herrno hnod hcalls hcache =>
    refine ⟨hcache.whole hwhl, ?_⟩
    rw [hcalls]
    exact fun call hcall => nomatch hcall
  | clean fetch hfet hset hclean herrno hiob hcnt hcalls hcache =>
    refine ⟨hcache.whole hwhl, ?_⟩
    rw [hcalls]
    exact fun call hcall => nomatch hcall
  | repaired fetch st hfet hset hdirty hloop hiob hcnt hcalls hcache =>
    have hst := hcached.regenerating hfet hset
    have hread (p : Nat) (hp : p < N + epat.E) (hflag : h.prevInErr.getD p false = true) :
        p < fetch.iob.length :=
      (hfet.lt_iff hset).2 (hcov (hfet.exists_error hset hdirty) p hp hflag)
    have hfresh : Fresh fetch.iob.length h.eReady h.prevInErr h.tables := by
      intro hrdy
      obtain ⟨t, ht, herrs⟩ := hwhl hrdy
      exact ⟨t, ht, herrs.trans ((flagged_eq_iff hfet.bound).2 hread)⟩
    obtain ⟨hexact, hfresh'⟩ := loop_exact hst hfresh (fun _ hcall => nomatch hcall) hloop
    refine ⟨hcache.whole ?_, ?_⟩
    · intro hrdy
      obtain ⟨t, ht, herrs⟩ := hfresh' hrdy
      refine ⟨t, ht, herrs.trans (Eq.symm ((flagged_eq_iff hfet.bound).2 ?_))⟩
      intro p hp hflag
      apply Nat.lt_of_not_le
      intro hge
      rw [loop_outside hst hloop hge] at hflag
      exact absurd (hread p hp hflag) (Nat.not_lt_of_le hge)
    · rw [hcalls]
      exact hexact

theorem readStripes_exact (hcached : h.Cached isal epat)
    (hne : ∀ b iob, answers.dequeue b = some iob → 0 < iob.dataSize)
    (hreinit : Reinitialises epat h answers) :
    ∀ call ∈ (readStripes isal epat answers h).calls, call.Exact := by
  cases readStripes_end isal epat answers h with
  | failed error herrno hnod hcalls hcache =>
    rw [hcalls]
    exact fun call hcall => nomatch hcall
  | clean fetch hfet hset hclean herrno hiob hcnt hcalls hcache =>
    rw [hcalls]
    exact fun call hcall => nomatch hcall
  | repaired fetch st hfet hset hdirty hloop hiob hcnt hcalls hcache =>
    rw [hcalls]
    have hst := hcached.regenerating hfet hset
    cases hk : fetch.stripecnt with
    | zero =>
      rw [hk] at hloop
      obtain ⟨rfl, -⟩ := Prod.mk.inj hloop
      exact fun call hcall => nomatch hcall
    | succ k =>
      rw [hk] at hloop
      refine loop_exact_of_scan hst ?_ (fun _ hcall => nomatch hcall) hloop
      intro hrdy
      exact absurd hreinit ((scanOf_ready_iff hcached hfet hset hne hk).1 hrdy)

theorem covered_of_exact (hcached : h.Cached isal epat) (hwhl : h.Whole epat)
    (hsize : ∀ b iob, answers.dequeue b = some iob → epat.partsz ≤ iob.dataSize)
    (herrno : (readStripes isal epat answers h).errno = none)
    (hexact : ∀ call ∈ (readStripes isal epat answers h).calls, call.Exact) :
    Covered epat h answers ∨ Reinitialises epat h answers := by
  have hne (b : Nat) (iob : Ioblock V) (hb : answers.dequeue b = some iob) : 0 < iob.dataSize :=
    Nat.lt_of_lt_of_le epat.pos (hsize b iob hb)
  cases readStripes_end isal epat answers h with
  | failed error herrno' hnod hcalls hcache =>
    rw [herrno'] at herrno
    cases herrno
  | clean fetch hfet hset hclean herrno' hiob hstripecnt hcalls hcache =>
    refine .inl fun ⟨b, hread, herror⟩ => ?_
    have hcnt := hfet.errors
    rw [hclean, errorsBelow, eq_comm, countP_eq_zero] at hcnt
    exact absurd herror (hcnt b (List.mem_range.2 ((hfet.lt_iff hset).2 hread)))
  | repaired fetch st hfet hset hdirty hloop hiob hstripecnt hcalls hcache =>
    have hst := hcached.regenerating hfet hset
    rw [hcalls] at hexact
    rw [herrno] at hloop
    obtain ⟨k, hk⟩ : ∃ k, fetch.stripecnt = k + 1 := by
      obtain ⟨b, hread, -⟩ := hfet.exists_error hset hdirty
      have hiob := List.getElem?_eq_getElem ((hfet.lt_iff hset).2 hread)
      have hlarge := hsize b _ (hfet.dequeued b _ hiob)
      rw [(hfet.sizes hne).1 _ (mem_of_getElem? hiob)] at hlarge
      rw [hfet.stripecnt]
      exact Nat.exists_eq_add_one_of_ne_zero (Nat.ne_of_gt (Nat.div_pos hlarge epat.pos))
    rw [hk] at hloop
    have hfresh := fresh_scan_of_loop hst hloop hexact
    have hkept := scanOf_ready_iff hcached hfet hset hne hk
    by_cases hreinit : Reinitialises epat h answers
    · exact .inr hreinit
    have hrdy := hkept.2 hreinit
    obtain ⟨t, ht, herrs⟩ := hfresh hrdy
    obtain ⟨t', ht', herrs'⟩ := hwhl ((hst.scanned k).ready.1 hrdy).1
    obtain rfl : t' = t := Option.some.inj (ht'.symm.trans ht)
    have hsame : flagged (scanOf epat k (h.regen fetch.iob)).prevInErr fetch.iob.length =
        flagged h.prevInErr fetch.iob.length := flagged_congr fun b _ => (hst.scanned k).same hrdy b
    rw [hsame, herrs'] at herrs
    refine .inl fun _ p hp hflag => (hfet.lt_iff hset).1 ?_
    exact (flagged_eq_iff hfet.bound).1 herrs p hp hflag

end Calls

/-! ## Runs -/

section Runs

variable {F V : Type} {N : Nat} {epat : Epat}

/-- A handle that has just been opened: the erasure threads run, but in the mode `NE_RDONLY`. -/
def Handle.opened (F : Type) (N : Nat) (epat : Epat) (rdonly : Bool) : Handle F N where
  rdonly := rdonly
  iobOffset := 0
  iobDatasz := 0
  subOffset := 0
  ethreadsRunning := if rdonly then 0 else epat.E
  eReady := false
  prevInErr := replicate (N + epat.E) false
  prevErrCnt := 0
  tables := none

variable {answers : Answers V}

/-- The first call finds no block flagged. -/
theorem covered_opened {rdonly : Bool} : Covered epat (.opened F N epat rdonly) answers := by
  intro _ p _ hflag
  rw [Handle.opened, List.getD_eq_getElem?_getD, List.getElem?_replicate] at hflag
  split at hflag <;> cases hflag

variable [Field F] [AddCommGroup V] [Module F V] {isal : Isal F N}

inductive Run (isal : Isal F N) (epat : Epat) (P : Handle F N → Answers V → Prop) : Handle F N → Prop
  | opened (rdonly : Bool) : Run isal epat P (.opened F N epat rdonly)
  | position {h : Handle F N} (iobOffset iobDatasz subOffset : Nat) : Run isal epat P h →
      Run isal epat P { h with iobOffset := iobOffset, iobDatasz := iobDatasz, subOffset := subOffset }
  | call {h : Handle F N} (answers : Answers V) : Run isal epat P h → P h answers →
      Run isal epat P (readStripes isal epat answers h).handle

variable {P : Handle F N → Answers V → Prop} {h : Handle F N}

theorem Run.cached (hrun : Run isal epat P h) : h.Cached isal epat := by
  induction hrun with
  | opened rdonly => exact ⟨length_replicate, fun hrdy => nomatch hrdy⟩
  | position iobOffset iobDatasz subOffset hrun ih => exact ih
  | call answers hrun hcall ih => exact (readStripes_kept ih).1

theorem Run.threads (hrun : Run isal epat P h) (hmode : h.rdonly = false) : epat.E ≤ h.ethreadsRunning := by
  induction hrun with
  | opened rdonly =>
    obtain rfl : rdonly = false := hmode
    exact Nat.le_refl _
  | position iobOffset iobDatasz subOffset hrun ih => exact ih hmode
  | @call h answers hrun hcall ih =>
    have hrunning : h.Running (readStripes isal epat answers h).handle := readStripes_running
    rw [hrunning.mode] at hmode
    exact Nat.le_trans (ih hmode) (hrunning.threads hmode)

/-- In other modes than `NE_RDONLY` every call reads all blocks. -/
theorem Run.covered (hrun : Run isal epat P h) (hmode : h.rdonly = false) (answers : Answers V) :
    Covered epat h answers :=
  covered_of_threads (hrun.threads hmode)

theorem Run.whole (hrun : Run isal epat P h)
    (hcov : h.rdonly = true → ∀ h' answers, P h' answers → Covered epat h' answers) : h.Whole epat := by
  induction hrun with
  | opened rdonly => exact fun hrdy => nomatch hrdy
  | position iobOffset iobDatasz subOffset hrun ih => exact ih hcov
  | @call h answers hrun hcall ih =>
    have hrunning : h.Running (readStripes isal epat answers h).handle := readStripes_running
    rw [hrunning.mode] at hcov
    refine (readStripes_whole hrun.cached (ih hcov) ?_).1
    cases hmode : h.rdonly with
    | false => exact hrun.covered hmode answers
    | true => exact hcov hmode h answers hcall

/-- In every run, a call succeeds with all data parts, and fails for want of parts only if more than `E`
blocks are in error; each call of `ec_encode_data` is for at most `E` parts, with tables for at most `E`
errors.  In a run in the mode `NE_RDONLY` whose calls read all blocks that are flagged, and in every run in
another mode, a next call regenerates every stripe with tables for its errors where it reads all blocks that
are flagged, or has the tables generated for its last stripe, and nowhere else. -/
theorem run_decodes (hlaw : isal.Lawful (N + epat.E)) (hrun : Run isal epat P h) {stripes : Nat → Fin N → V}
    (hdelivered : Delivered isal epat stripes h answers) :
    (∀ call ∈ (readStripes isal epat answers h).calls, call.Sound isal epat) ∧
    ((readStripes isal epat answers h).errno = none → ∀ i : Fin N,
      ∃ iob, (readStripes isal epat answers h).iob[i.val]? = some iob ∧
        ∀ k, k < (readStripes isal epat answers h).stripecnt →
          iob.buff k = stripes (firstStripe epat h + k) i) ∧
    ((readStripes isal epat answers h).errno = some .enodata →
      ∃ q, q ≤ N + epat.E ∧ epat.E < errorsBelow answers q) ∧
    ((h.rdonly = true → ∀ h' answers', P h' answers' → Covered epat h' answers') →
      (h.rdonly = false ∨ Covered epat h answers ∨ Reinitialises epat h answers →
        ∀ call ∈ (readStripes isal epat answers h).calls, call.Exact) ∧
      ((readStripes isal epat answers h).errno = none →
        (∀ b iob, answers.dequeue b = some iob → epat.partsz ≤ iob.dataSize) →
        (∀ call ∈ (readStripes isal epat answers h).calls, call.Exact) →
        Covered epat h answers ∨ Reinitialises epat h answers)) := by
  refine ⟨(readStripes_kept hrun.cached).2, ?_, readStripes_nodata hlaw hrun.cached, ?_⟩
  · intro herrno i
    obtain ⟨hlength, hrestored⟩ := readStripes_restored hlaw hrun.cached hdelivered herrno
    have hiob := List.getElem?_eq_getElem (Nat.lt_of_lt_of_le i.isLt hlength)
    exact ⟨_, hiob, fun k hk => hrestored i _ hiob k (Nat.zero_le k) hk⟩
  · intro hcovered
    have hwhole := hrun.whole hcovered
    refine ⟨?_, fun herrno hsize hexact => covered_of_exact hrun.cached hwhole hsize herrno hexact⟩
    rintro (hmode | hcover | hreinitialises)
    · exact (readStripes_whole hrun.cached hwhole (hrun.covered hmode answers)).2
    · exact (readStripes_whole hrun.cached hwhole hcover).2
    · exact readStripes_exact hrun.cached hdelivered.nonempty hreinitialises

end Runs

/-! ## Copies -/

def copies : Isal (ZMod 2) 1 where
  encode _ _ := 1
  invert b := if b 0 0 = 0 then none else some b

def twoCopies : Epat := ⟨2, 1, Nat.one_pos⟩

theorem copies_lawful (n : Nat) : copies.Lawful n where
  systematic j := by
    funext i
    rw [Subsingleton.elim i j, Pi.single_eq_same]
    rfl
  mds index _ _ := by
    have hone : chosen copies.encode index = 1 := by
      ext i j
      rw [Subsingleton.elim i j, Matrix.one_apply_eq]
      rfl
    rw [hone]
    exact isUnit_one
  invert_mul b c h := by
    have hsquare : ∀ x : ZMod 2, x ≠ 0 → x * x = 1 := by decide
    rw [copies] at h
    dsimp only at h
    by_cases hzero : b 0 0 = 0
    · rw [if_pos hzero] at h
      cases h
    · rw [if_neg hzero] at h
      obtain rfl := Option.some.inj h
      ext i j
      rw [Subsingleton.elim i 0, Subsingleton.elim j 0, Matrix.mul_apply, Fin.sum_univ_one,
        Matrix.one_apply_eq]
      exact hsquare _ hzero
  invert_isUnit b hb := by
    obtain ⟨c, hc⟩ := hb.exists_right_inv
    have hent := congrFun (congrFun hc 0) 0
    rw [Matrix.mul_apply, Fin.sum_univ_one, Matrix.one_apply_eq] at hent
    refine ⟨b, if_neg ?_⟩
    intro hzero
    rw [hzero, zero_mul] at hent
    exact zero_ne_one hent

def zeros (errs : List Nat) : Answers (ZMod 2) where
  released := true
  restarted _ := true
  dequeue b := some ⟨1, if b ∈ errs then 1 else 0, fun _ => 0⟩
  halted _ := true
  allocated := true
  fault _ := .none

def afterZeros (h : Handle (ZMod 2) 1) (errs : List Nat) : Handle (ZMod 2) 1 :=
  let h := (readStripes copies twoCopies (zeros errs) h).handle
  { h with subOffset := h.iobDatasz }

theorem zeros_delivered (h : Handle (ZMod 2) 1) (errs : List Nat) :
    Delivered copies twoCopies (fun _ _ => (0 : ZMod 2)) h (zeros errs) where
  nonempty b iob hb := by
    obtain rfl := Option.some.inj hb
    exact Nat.one_pos
  written b iob hb k hk hend := by
    obtain rfl := Option.some.inj hb
    rw [part, Fin.sum_univ_one, smul_zero]

theorem Run.afterZeros {P : Handle (ZMod 2) 1 → Answers (ZMod 2) → Prop} {h : Handle (ZMod 2) 1}
    (hrun : Run copies twoCopies P h) {errs : List Nat} (hcall : P h (zeros errs)) :
    Run copies twoCopies P (afterZeros h errs) :=
  .position _ _ _ (.call (zeros errs) hrun hcall)

/-- A handle whose first call has found errors in blocks 0 and 1. -/
def afterTwo : Handle (ZMod 2) 1 := afterZeros (.opened _ _ twoCopies true) [0, 1]

theorem copies_decode :
    (∀ i : Fin 1, ∃ iob, (readStripes copies twoCopies (zeros [0, 2]) afterTwo).iob[i.val]? = some iob ∧
      iob.buff 0 = 0) ∧
    ∀ call ∈ (readStripes copies twoCopies (zeros [0, 2]) afterTwo).calls, call.Exact := by
  have hrun : Run copies twoCopies (fun h (answers : Answers (ZMod 2)) => Covered twoCopies h answers)
      afterTwo := (Run.opened true).afterZeros covered_opened
  obtain ⟨-, hdata, -, hexact⟩ := run_decodes (copies_lawful _) hrun (zeros_delivered afterTwo [0, 2])
  constructor
  · intro i
    obtain ⟨iob, hiob, hparts⟩ := hdata (by decide) i
    exact ⟨iob, hiob, hparts 0 (by decide)⟩
  · exact (hexact fun _ _ _ hcall => hcall).1 (.inr (.inl (covered_of_threads (by decide))))

/-- After errors in blocks 0 and 1, then in 0 and 2, then in none, an error in block 0 alone is repaired with
the tables for 0 and 2. -/
theorem copies_stale : ∃ h : Handle (ZMod 2) 1,
    Run copies twoCopies (fun _ (_ : Answers (ZMod 2)) => True) h ∧
    (readStripes copies twoCopies (zeros [0]) h).calls.map
      (fun call => (call.stripeErrList, call.tables.errs)) = [([0], [0, 2])] :=
  ⟨afterZeros (afterZeros (afterZeros (.opened _ _ twoCopies true) [0, 1]) [0, 2]) [],
    (((Run.opened true).afterZeros trivial).afterZeros trivial).afterZeros trivial, rfl⟩

end Marfs.Ne.Stripes
