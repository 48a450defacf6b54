import Marfs.Ne.Matches

/-!
# The state of an object

`ne_stat` reads the metadata of one block after the other, and stops as soon as it has read as many as
the object has, if more than two of them agree on that number.  Then it notes the errors of the blocks
in the states of the threads, shifted by the offset of the object.  There are N+E states, but the loop
over them runs as far as blocks were read.
-/

namespace Marfs.Ne

open Dal Search

def minMdConsensus : Nat := 2

/-- A block, as it is found: its metadata, if it can be opened and read, and whether there is data. -/
structure StatBlock where
  minfo : Option MetaInfo
  data : Bool
  deriving DecidableEq, Repr

/-! ## Reading the metadata -/

/-- The loop over the blocks. -/
structure StatScan where
  curblock : Nat
  maxblock : Int
  minfoRefs : List MetaInfo
  matchCount : Int
  consensus : MetaInfo
  deriving DecidableEq, Repr

/-- What `calloc` leaves. -/
def zeroMeta : MetaInfo where
  N := 0
  E := 0
  O := 0
  partsz := 0
  versz := 0
  blocksz := 0
  crcsum := 0
  totsz := 0

section

variable (maxBlock : Nat) (blocks : Nat → StatBlock)

def StatScan.start : StatScan where
  curblock := 0
  maxblock := maxBlock
  minfoRefs := []
  matchCount := 0
  consensus := zeroMeta

def scanBlock (st : StatScan) : StatScan :=
  match (blocks st.curblock).minfo with
  | none => { st with curblock := st.curblock + 1 }
  | some minfo =>
    let refs := st.minfoRefs ++ [minfo]
    let (matchCount, consensus) := checkMatches refs maxBlock st.consensus
    { curblock := st.curblock + 1
      -- with sufficient agreement, no more blocks are needed
      maxblock := if matchCount > minMdConsensus then consensus.N + consensus.E else st.maxblock
      minfoRefs := refs
      matchCount := matchCount
      consensus := consensus }

def scanLoop : (fuel : Nat) → StatScan → StatScan
  | 0, st => st
  | fuel + 1, st => if st.curblock < st.maxblock then scanLoop fuel (scanBlock maxBlock blocks st) else st

def scanBlocks : StatScan := scanLoop maxBlock blocks (2 * maxBlock) (StatScan.start maxBlock)

/-! ## The handle -/

/-- `global_state_struct`, as far as it is set here. -/
structure ThreadState where
  metaError : Bool
  dataError : Bool
  crcsum : Int
  deriving DecidableEq, Repr

inductive StatMode where
  | err
  | stat
  deriving DecidableEq, Repr

/-- `ne_handle`, as it is allocated for a consensus: there are N+E thread states.  The pairs of indices
that were used to translate the errors are kept: that of the thread, and that of the block. -/
structure StatHandle where
  curblock : Nat
  consensus : MetaInfo
  mode : StatMode
  threadStates : Nat → ThreadState
  indices : List (Nat × Int)

def minfoList (curblock : Nat) (translation : Int) : MetaInfo :=
  if translation < curblock then ((blocks translation.toNat).minfo).getD zeroMeta else zeroMeta

def translateErrors (curblock : Nat) (consensus : MetaInfo) (translation : Int) : ThreadState where
  metaError :=
    decide (translation < curblock) && (blocks translation.toNat).minfo.isNone ||
      decide (cmpMinfo (minfoList blocks curblock translation) consensus ≠ 0)
  dataError := decide (translation < curblock) && !(blocks translation.toNat).data
  crcsum := 0

/-- The pairs of indices of the loop over the thread states. -/
def translations (curblock : Nat) (consensus : MetaInfo) : List (Nat × Int) :=
  (List.range curblock).map fun i => (i, (i + consensus.O).tmod (consensus.N + consensus.E))

def neStat : Option StatHandle :=
  let st := scanBlocks maxBlock blocks
  if st.minfoRefs.length < 1 ∨ st.matchCount < 1 ∨ st.consensus.N < 1 ∨ st.consensus.E < 0 ∨
      st.matchCount < st.consensus.N then none
  else
    let consensus := st.consensus
    if consensus.O < 0 ∨ consensus.O ≥ consensus.N + consensus.E then
      some
        { curblock := st.curblock
          consensus := { consensus with O := -1 }
          mode := .err
          threadStates := fun _ => { metaError := false, dataError := false, crcsum := 0 }
          indices := [] }
    else
      let indices := translations st.curblock consensus
      let threadStates := indices.foldl
        (fun states (i, translation) =>
          Function.update states i (translateErrors blocks st.curblock consensus translation))
        (fun _ => { metaError := false, dataError := false, crcsum := 0 })
      if consensus.partsz ≤ 0 ∨ consensus.versz < 0 ∨ consensus.blocksz < 0 ∨ consensus.totsz < 0 then
        some
          { curblock := st.curblock, consensus := consensus, mode := .err, threadStates := threadStates
            indices := indices }
      else
        let threadStates := indices.foldl
          (fun states (i, translation) =>
            if (states i).metaError = false then
              Function.update states i
                { states i with crcsum := (minfoList blocks st.curblock translation).crcsum }
            else states)
          threadStates
        some
          { curblock := st.curblock, consensus := consensus, mode := .stat, threadStates := threadStates
            indices := indices }

end

/-! ## How far the blocks are read -/

section

variable (maxBlock : Nat) (blocks : Nat → StatBlock)

def readable (k : Nat) : List MetaInfo := (List.range k).filterMap fun i => (blocks i).minfo

def agreement (k : Nat) : Int × MetaInfo := checkMatches (readable blocks k) maxBlock zeroMeta

/-- The number of blocks of the object, as far as the first `k` of them tell. -/
def bound (k : Nat) : Int :=
  if (agreement maxBlock blocks k).1 > minMdConsensus then
    (agreement maxBlock blocks k).2.N + (agreement maxBlock blocks k).2.E
  else maxBlock

end

section Scan

variable {maxBlock : Nat} {blocks : Nat → StatBlock} {st : StatScan} {k : Nat}

theorem readable_succ : readable blocks (k + 1) = readable blocks k ++ (blocks k).minfo.toList := by
  unfold readable
  rw [List.range_succ, List.filterMap_append]
  cases h : (blocks k).minfo <;> simp [h]

theorem agreement_field (field : MetaField) :
    field.val (agreement maxBlock blocks k).2 = electField (readable blocks k) maxBlock field :=
  checkMatches_consensus field

theorem agreement_mono (h : (agreement maxBlock blocks k).1 > minMdConsensus) :
    (agreement maxBlock blocks (k + 1)).1 > minMdConsensus := by
  obtain ⟨hN, hE⟩ := lt_checkMatches_iff.1 h
  unfold agreement
  rw [readable_succ]
  exact lt_checkMatches_iff.2 ⟨hN.trans_le fieldMatches_append, hE.trans_le fieldMatches_append⟩

structure Scanned (maxBlock : Nat) (blocks : Nat → StatBlock) (st : StatScan) : Prop where
  refs : st.minfoRefs = readable blocks st.curblock
  matchCount : st.matchCount = (agreement maxBlock blocks st.curblock).1
  consensus : st.minfoRefs ≠ [] →
    ∀ field : MetaField, field.val st.consensus = field.val (agreement maxBlock blocks st.curblock).2
  maxblock : st.maxblock = bound maxBlock blocks st.curblock

theorem Scanned.start (maxBlock : Nat) (blocks : Nat → StatBlock) :
    Scanned maxBlock blocks (StatScan.start maxBlock) :=
  ⟨rfl, rfl, fun h => absurd rfl h, rfl⟩

theorem Scanned.scanBlock (h : Scanned maxBlock blocks st) :
    Scanned maxBlock blocks (scanBlock maxBlock blocks st) := by
  have hsucc := @readable_succ blocks st.curblock
  unfold Ne.scanBlock
  cases hminfo : (blocks st.curblock).minfo with
  | none =>
    have hsame : readable blocks (st.curblock + 1) = readable blocks st.curblock := by
      rw [hsucc, hminfo, Option.toList_none, List.append_nil]
    have hagree : agreement maxBlock blocks (st.curblock + 1) = agreement maxBlock blocks st.curblock := by
      rw [agreement, agreement, hsame]
    have hbound : bound maxBlock blocks (st.curblock + 1) = bound maxBlock blocks st.curblock := by
      rw [bound, bound, hagree]
    exact ⟨h.refs.trans hsame.symm, h.matchCount.trans (congrArg Prod.fst hagree.symm),
      fun hne field => (h.consensus hne field).trans (by rw [hagree]), h.maxblock.trans hbound.symm⟩
  | some minfo =>
    have hrefs : st.minfoRefs ++ [minfo] = readable blocks (st.curblock + 1) := by
      rw [hsucc, hminfo, h.refs, Option.toList_some]
    have hres : (checkMatches (st.minfoRefs ++ [minfo]) maxBlock st.consensus).1 =
        (agreement maxBlock blocks (st.curblock + 1)).1 := by
      rw [hrefs, agreement, checkMatches_result, checkMatches_result]
    have hfield : ∀ field : MetaField,
        field.val (checkMatches (st.minfoRefs ++ [minfo]) maxBlock st.consensus).2 =
          field.val (agreement maxBlock blocks (st.curblock + 1)).2 := by
      intro field
      rw [hrefs, agreement, checkMatches_consensus, checkMatches_consensus]
    refine ⟨hrefs, hres, fun _ => hfield, ?_⟩
    dsimp only
    rw [hres, bound]
    split
    · exact congrArg₂ (· + ·) (hfield .N) (hfield .E)
    · rename_i hfew
      have hbef : ¬ (agreement maxBlock blocks st.curblock).1 > minMdConsensus :=
        fun hmany => hfew (agreement_mono hmany)
      rw [h.maxblock, bound, if_neg hbef]

/-- Elected numbers are not beyond their maximum. -/
theorem bound_le : bound maxBlock blocks k ≤ 2 * maxBlock := by
  unfold bound
  split
  · have hN : (agreement maxBlock blocks k).2.N = electField (readable blocks k) maxBlock .N :=
      agreement_field .N
    have hE : (agreement maxBlock blocks k).2.E = electField (readable blocks k) maxBlock .E :=
      agreement_field .E
    have hNle : electField (readable blocks k) maxBlock .N ≤ maxBlock := by
      rcases (MetaField.ballot maxBlock .N).elect_valid (fieldVotes (readable blocks k) .N)
        (readable blocks k).length with hfail | hvalid
      · exact hfail.le.trans (Int.natCast_nonneg _)
      · exact hvalid.2
    have hEle : electField (readable blocks k) maxBlock .E ≤ maxBlock := by
      rcases (MetaField.ballot maxBlock .E).elect_valid (fieldVotes (readable blocks k) .E)
        (readable blocks k).length with hfail | hvalid
      · exact hfail.le.trans (by change (-1 : Int) ≤ _; omega)
      · exact hvalid.2.trans (by omega)
    omega
  · omega

structure ReadUpTo (maxBlock : Nat) (blocks : Nat → StatBlock) (k : Nat) : Prop where
  before : ∀ j < k, (j : Int) < bound maxBlock blocks j
  stop : bound maxBlock blocks k ≤ k

theorem ReadUpTo.unique {k' : Nat} (h : ReadUpTo maxBlock blocks k) (h' : ReadUpTo maxBlock blocks k') :
    k = k' := by
  rcases Nat.lt_trichotomy k k' with hlt | heq | hlt
  · exact absurd h.stop (Int.not_le.2 (h'.before k hlt))
  · exact heq
  · exact absurd h'.stop (Int.not_le.2 (h.before k' hlt))

theorem scanLoop_scanned {fuel : Nat} : ∀ {st : StatScan}, Scanned maxBlock blocks st →
    (∀ j < st.curblock, (j : Int) < bound maxBlock blocks j) → 2 * maxBlock ≤ st.curblock + fuel →
    ∃ st', scanLoop maxBlock blocks fuel st = st' ∧ Scanned maxBlock blocks st' ∧
      ReadUpTo maxBlock blocks st'.curblock := by
  induction fuel with
  | zero =>
    intro st h hbef hfuel
    refine ⟨st, rfl, h, hbef, ?_⟩
    have hle := @bound_le maxBlock blocks st.curblock
    omega
  | succ fuel ih =>
    intro st h hbef hfuel
    have hmaxblock := h.maxblock
    rw [scanLoop]
    split
    · rename_i hlt
      have hnext : (scanBlock maxBlock blocks st).curblock = st.curblock + 1 := by
        unfold scanBlock
        split <;> rfl
      apply ih h.scanBlock
      · intro j hj
        rw [hnext] at hj
        rcases Nat.lt_succ_iff_lt_or_eq.1 hj with hj | rfl
        · exact hbef j hj
        · omega
      · omega
    · exact ⟨st, rfl, h, hbef, by omega⟩

theorem scanBlocks_scanned (maxBlock : Nat) (blocks : Nat → StatBlock) :
    Scanned maxBlock blocks (scanBlocks maxBlock blocks) ∧
      ReadUpTo maxBlock blocks (scanBlocks maxBlock blocks).curblock := by
  obtain ⟨st, hst, hscan, hread⟩ := scanLoop_scanned (Scanned.start maxBlock blocks)
    (fun j hj => absurd hj (Nat.not_lt_zero j)) (Nat.le_add_left _ _)
  rw [scanBlocks, hst]
  exact ⟨hscan, hread⟩

end Scan

/-! ## The indices -/

/-- Every index of the loop over the thread states is that of a block that was read, and of a state
that was allocated. -/
def StatHandle.InBounds (handle : StatHandle) : Prop :=
  ∀ index ∈ handle.indices,
    (index.1 < handle.curblock ∧ index.1 < handle.consensus.N + handle.consensus.E) ∧
    (0 ≤ index.2 ∧ index.2 < handle.curblock ∧ index.2 < handle.consensus.N + handle.consensus.E)

theorem shifted_lt_iff {k n o : Nat} (hk : 0 < k) (ho : o < n) :
    (∀ i < k, i < n ∧ (i + o) % n < k) ↔ k = n ∨ k < n ∧ o = 0 := by
  constructor
  · intro h
    have hle : k ≤ n := by
      have hlast := (h (k - 1) (by omega)).1
      omega
    rcases Nat.lt_or_eq_of_le hle with hlt | heq
    · refine .inr ⟨hlt, ?_⟩
      by_contra hne
      by_cases hok : o < k
      · -- the block that comes behind all that were read
        have hbeh := (h (k - o) (by omega)).2
        rw [Nat.sub_add_cancel hok.le, Nat.mod_eq_of_lt hlt] at hbeh
        omega
      · have hfst := (h 0 hk).2
        rw [Nat.zero_add, Nat.mod_eq_of_lt ho] at hfst
        omega
    · exact .inl heq
  · rintro (rfl | ⟨hlt, rfl⟩)
    · exact fun i hi => ⟨hi, Nat.mod_lt _ hk⟩
    · intro i hi
      rw [Nat.add_zero, Nat.mod_eq_of_lt (hi.trans hlt)]
      exact ⟨hi.trans hlt, hi⟩

/-- The indices of a loop over `k` blocks. -/
theorem translations_inBounds_iff {k : Nat} {consensus : MetaInfo} (hk : 0 < k)
    (hO : 0 ≤ consensus.O) (hlt : consensus.O < consensus.N + consensus.E) :
    (∀ index ∈ translations k consensus,
      (index.1 < k ∧ index.1 < consensus.N + consensus.E) ∧
      (0 ≤ index.2 ∧ index.2 < k ∧ index.2 < consensus.N + consensus.E)) ↔
    k = consensus.N + consensus.E ∨ k < consensus.N + consensus.E ∧ consensus.O = 0 := by
  obtain ⟨o, ho⟩ := Int.eq_ofNat_of_zero_le hO
  obtain ⟨n, hn⟩ := Int.eq_ofNat_of_zero_le (hO.trans hlt.le)
  have hshift : ∀ i : Nat, ((i : Int) + o).tmod n = ((i + o) % n : Nat) := by
    intro i
    rw [Int.natCast_emod, Int.natCast_add, Int.tmod_eq_emod_of_nonneg (by omega)]
  have hpos : 0 < n := by omega
  have hall : (∀ index ∈ translations k consensus,
      (index.1 < k ∧ index.1 < consensus.N + consensus.E) ∧
      (0 ≤ index.2 ∧ index.2 < k ∧ index.2 < consensus.N + consensus.E)) ↔
      ∀ i < k, i < n ∧ (i + o) % n < k := by
    unfold translations
    rw [List.forall_mem_map, hn, ho]
    constructor
    · intro h i hi
      obtain ⟨⟨-, hin⟩, -, hik, -⟩ := h i (List.mem_range.2 hi)
      dsimp only at hin hik
      rw [hshift] at hik
      omega
    · intro h i hi
      have hi := List.mem_range.1 hi
      obtain ⟨hin, hik⟩ := h i hi
      have hmod := Nat.mod_lt (i + o) hpos
      dsimp only
      rw [hshift]
      omega
  rw [hall, shifted_lt_iff hk (by omega : o < n), hn, ho]
  omega

/-- There are enough matches to tell how many blocks there are, and which of them is the first. -/
structure Determined (agreed : Int × MetaInfo) : Prop where
  found : 1 ≤ agreed.1
  N : 1 ≤ agreed.2.N
  E : 0 ≤ agreed.2.E
  sufficient : agreed.2.N ≤ agreed.1
  O : 0 ≤ agreed.2.O
  offset : agreed.2.O < agreed.2.N + agreed.2.E

/-- If the blocks that are read tell how many there are, all of them were read and no more; or fewer
were, but they are not shifted. -/
def SizeReached (maxBlock : Nat) (blocks : Nat → StatBlock) : Prop :=
  ∀ k, ReadUpTo maxBlock blocks k → Determined (agreement maxBlock blocks k) →
    k = (agreement maxBlock blocks k).2.N + (agreement maxBlock blocks k).2.E ∨
      k < (agreement maxBlock blocks k).2.N + (agreement maxBlock blocks k).2.E ∧
        (agreement maxBlock blocks k).2.O = 0

section Handle

variable {maxBlock : Nat} {blocks : Nat → StatBlock} {handle : StatHandle}

theorem neStat_indices (h : neStat maxBlock blocks = some handle) : handle.indices = [] ∨
    Determined ((scanBlocks maxBlock blocks).matchCount, (scanBlocks maxBlock blocks).consensus) ∧
      handle.curblock = (scanBlocks maxBlock blocks).curblock ∧
      handle.consensus = (scanBlocks maxBlock blocks).consensus ∧
      handle.indices = translations handle.curblock handle.consensus := by
  unfold neStat at h
  generalize scanBlocks maxBlock blocks = st at h ⊢
  dsimp only at h
  split at h
  · cases h
  · rename_i hfound
    push Not at hfound
    obtain ⟨-, hcnt, hN, hE, hsufficient⟩ := hfound
    split at h
    · cases h
      exact .inl rfl
    · rename_i hoff
      push Not at hoff
      refine .inr ⟨⟨hcnt, hN, hE, hsufficient, hoff.1, hoff.2⟩, ?_⟩
      split at h <;> cases h <;> exact ⟨rfl, rfl, rfl⟩

theorem exists_handle (hne : (scanBlocks maxBlock blocks).minfoRefs ≠ [])
    (h : Determined ((scanBlocks maxBlock blocks).matchCount, (scanBlocks maxBlock blocks).consensus)) :
    ∃ handle, neStat maxBlock blocks = some handle ∧
      handle.curblock = (scanBlocks maxBlock blocks).curblock ∧
      handle.consensus = (scanBlocks maxBlock blocks).consensus ∧
      handle.indices = translations handle.curblock handle.consensus := by
  unfold neStat
  generalize scanBlocks maxBlock blocks = st at hne h ⊢
  have hlen := List.length_pos_of_ne_nil hne
  have hfound := h.found
  have hN := h.N
  have hE := h.E
  have hsufficient := h.sufficient
  have hO := h.O
  have hoff := h.offset
  dsimp only at hfound hN hE hsufficient hO hoff ⊢
  rw [if_neg (by omega), if_neg (by omega)]
  split <;> exact ⟨_, rfl, rfl, rfl, rfl⟩

theorem Scanned.refs_ne_nil {st : StatScan} (h : Scanned maxBlock blocks st)
    (hfound : 1 ≤ st.matchCount) : st.minfoRefs ≠ [] := by
  intro hnil
  have hrefs := h.refs
  rw [hnil] at hrefs
  rw [h.matchCount, agreement, ← hrefs] at hfound
  exact absurd hfound (by change ¬ (1 : Int) ≤ 0; omega)

theorem Scanned.curblock_pos {st : StatScan} (h : Scanned maxBlock blocks st)
    (hfound : 1 ≤ st.matchCount) : 0 < st.curblock := by
  apply Nat.pos_of_ne_zero
  intro hzero
  have hrefs := h.refs
  rw [hzero] at hrefs
  exact h.refs_ne_nil hfound hrefs

theorem Scanned.agreement_eq {st : StatScan} (h : Scanned maxBlock blocks st)
    (hfound : 1 ≤ st.matchCount) : st.matchCount = (agreement maxBlock blocks st.curblock).1 ∧
      st.consensus.N = (agreement maxBlock blocks st.curblock).2.N ∧
      st.consensus.E = (agreement maxBlock blocks st.curblock).2.E ∧
      st.consensus.O = (agreement maxBlock blocks st.curblock).2.O :=
  have hfield := h.consensus (h.refs_ne_nil hfound)
  ⟨h.matchCount, hfield .N, hfield .E, hfield .O⟩

end Handle

/-- No index is used without an allocated state and a block that was read, just if the blocks that are
read are as many as they tell. -/
theorem neStat_inBounds_iff (maxBlock : Nat) (blocks : Nat → StatBlock) :
    (∀ handle, neStat maxBlock blocks = some handle → handle.InBounds) ↔
      SizeReached maxBlock blocks := by
  obtain ⟨hscanned, hread⟩ := scanBlocks_scanned maxBlock blocks
  constructor
  · intro hbounds k hk hagreed
    obtain rfl := hread.unique hk
    have hfound : 1 ≤ (scanBlocks maxBlock blocks).matchCount := by
      rw [hscanned.matchCount]
      exact hagreed.found
    obtain ⟨hcount, hN, hE, hO⟩ := hscanned.agreement_eq hfound
    obtain ⟨handle, hhandle, hcurblock, hconsensus, hindices⟩ := exists_handle
      (hscanned.refs_ne_nil hfound)
      ⟨hfound, hN ▸ hagreed.N, hE ▸ hagreed.E, by rw [hN, hcount]; exact hagreed.sufficient,
        hO ▸ hagreed.O, by rw [hO, hN, hE]; exact hagreed.offset⟩
    have hinside := hbounds handle hhandle
    unfold StatHandle.InBounds at hinside
    rw [hindices, hcurblock, hconsensus,
      translations_inBounds_iff (hscanned.curblock_pos hfound) (hO ▸ hagreed.O)
        (by rw [hO, hN, hE]; exact hagreed.offset), hN, hE, hO] at hinside
    exact hinside
  · intro hsize handle hhandle
    rcases neStat_indices hhandle with hnone | ⟨hdet, hcurblock, hconsensus, hindices⟩
    · intro index hindex
      rw [hnone] at hindex
      cases hindex
    · obtain ⟨hcount, hN, hE, hO⟩ := hscanned.agreement_eq hdet.found
      have hsized := hsize _ hread
        ⟨hcount ▸ hdet.found, hN ▸ hdet.N, hE ▸ hdet.E, by rw [← hN, ← hcount]; exact hdet.sufficient,
          hO ▸ hdet.O, by rw [← hO, ← hN, ← hE]; exact hdet.offset⟩
      unfold StatHandle.InBounds
      rw [hindices, hcurblock, hconsensus,
        translations_inBounds_iff (hscanned.curblock_pos hdet.found) hdet.O hdet.offset, hN, hE, hO]
      exact hsized

def twoBlocks (i : Nat) : StatBlock :=
  if i < 2 then
    { minfo := some
        { N := 1, E := 1, O := 0, partsz := 4, versz := 8, blocksz := 8, crcsum := i, totsz := 4 }
      data := true }
  else { minfo := none, data := false }

/-- All three of them are looked at, and there are two states. -/
theorem twoBlocks_not_inBounds : ∃ handle, neStat 3 twoBlocks = some handle ∧ ¬ handle.InBounds := by
  have hindices : (neStat 3 twoBlocks).map (fun handle => (handle.indices, handle.consensus)) =
      some ([(0, 0), (1, 1), (2, 0)], (scanBlocks 3 twoBlocks).consensus) := by decide
  obtain ⟨handle, hhandle, hpair⟩ := Option.map_eq_some_iff.1 hindices
  obtain ⟨hindices, hconsensus⟩ := Prod.mk.inj hpair
  refine ⟨handle, hhandle, fun h => ?_⟩
  have hthird := (h (2, 0) (by rw [hindices]; decide)).1.2
  rw [hconsensus] at hthird
  revert hthird
  decide

end Marfs.Ne
