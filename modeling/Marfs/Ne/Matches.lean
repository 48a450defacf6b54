import Marfs.Dal.MetaInfo
import Marfs.Search.Tally
import Mathlib.Order.Nat

/-!
# The consensus of the blocks

`check_matches` takes the metadata of the blocks that could be read and elects a value for each field,
apart from the checksum; its result tells how many blocks agree on the number of data and parity
blocks.
-/

namespace Marfs.Ne

open Dal Search

/-! ## The votes -/

/-- `COUNT_MATCH_AT_INDEX` between two bounds. -/
def votedBetween (minVal maxVal failure : Int) (h : failure < minVal) (prefer : Int → Int → Prop)
    [decidablePrefer : DecidableRel prefer] : Ballot Int where
  valid v := minVal ≤ v ∧ v ≤ maxVal
  prefer := prefer
  failure := failure
  decidableValid := fun _ => inferInstance
  decidablePrefer := decidablePrefer
  failure_not_valid := fun hvalid => absurd hvalid.1 (Int.not_le.2 h)

/-- `COUNT_MATCH_AT_INDEX` with no maximum. -/
def votedFrom (minVal failure : Int) (h : failure < minVal) (prefer : Int → Int → Prop)
    [decidablePrefer : DecidableRel prefer] : Ballot Int where
  valid v := minVal ≤ v
  prefer := prefer
  failure := failure
  decidableValid := fun _ => inferInstance
  decidablePrefer := decidablePrefer
  failure_not_valid := fun hvalid => absurd hvalid (Int.not_le.2 h)

inductive MetaField where
  | N
  | E
  | O
  | partsz
  | versz
  | blocksz
  | totsz
  deriving DecidableEq, Repr

namespace MetaField

def val : MetaField → MetaInfo → Int
  | N, minfo => minfo.N
  | E, minfo => minfo.E
  | O, minfo => minfo.O
  | partsz, minfo => minfo.partsz
  | versz, minfo => minfo.versz
  | blocksz, minfo => minfo.blocksz
  | totsz, minfo => minfo.totsz

/-- If two values are tied, the larger one is preferred for N and E, the smaller one for the total size,
and the first one for the other fields. -/
def ballot (maxBlocks : Int) : MetaField → Ballot Int
  | N => votedBetween 1 maxBlocks 0 (by decide) (· > ·)
  | E => votedBetween 0 (maxBlocks - 1) (-1) (by decide) (· > ·)
  | O => votedBetween 0 (maxBlocks - 1) (-1) (by decide) fun _ _ => False
  | partsz => votedFrom 1 0 (by decide) fun _ _ => False
  | versz => votedFrom 0 (-1) (by decide) fun _ _ => False
  | blocksz => votedFrom 0 (-1) (by decide) fun _ _ => False
  | totsz => votedFrom 0 (-1) (by decide) (· < ·)

/-- All of them. -/
def all : List MetaField := [N, E, O, partsz, versz, blocksz, totsz]

theorem mem_all (field : MetaField) : field ∈ all := by cases field <;> decide

end MetaField

section

variable (minfos : List MetaInfo) (maxBlocks : Int)

def fieldVotes (field : MetaField) (i : Nat) : Int := ((minfos.map field.val)[i]?).getD 0

/-- The value with the most matches. -/
def electField (field : MetaField) : Int :=
  (field.ballot maxBlocks).elect (fieldVotes minfos field) minfos.length

def fieldMatches (field : MetaField) : Nat :=
  (field.ballot maxBlocks).count (fieldVotes minfos field) minfos.length

/-- `check_matches`: the result, and what is in the struct that is populated. -/
def checkMatches (retBuf : MetaInfo) : Int × MetaInfo :=
  if minfos.length < 1 then
    (0, { retBuf with N := 0, E := -1, O := -1, partsz := 0, versz := -1, blocksz := -1, totsz := -1 })
  else
    let consensus := { retBuf with
      N := electField minfos maxBlocks .N
      E := electField minfos maxBlocks .E
      O := electField minfos maxBlocks .O
      partsz := electField minfos maxBlocks .partsz
      versz := electField minfos maxBlocks .versz
      blocksz := electField minfos maxBlocks .blocksz
      totsz := electField minfos maxBlocks .totsz }
    let anyvalid := MetaField.all.any fun field => decide (fieldMatches minfos maxBlocks field ≠ 0)
    let retval : Int := min (fieldMatches minfos maxBlocks .N) (fieldMatches minfos maxBlocks .E)
    -- no meta info values are valid at all
    if retval = 0 ∧ anyvalid = false then (-1, consensus) else (retval, consensus)

/-- How many entries have a value in a field, if it is in range. -/
def occurrences (field : MetaField) (v : Int) : Nat :=
  minfos.countP fun minfo => (field.ballot maxBlocks).valid (field.val minfo) ∧ field.val minfo = v

end

/-! ## The consensus -/

section Consensus

variable {minfos : List MetaInfo} {maxBlocks : Int} {retBuf : MetaInfo} {field : MetaField}

theorem map_fieldVotes (minfos : List MetaInfo) (field : MetaField) :
    (List.range minfos.length).map (fieldVotes minfos field) = minfos.map field.val := by
  apply List.ext_getElem
  · simp
  · intro i hi hi'
    rw [List.length_map] at hi'
    simp [fieldVotes, hi']

theorem count_fieldVotes (p : Int → Prop) [DecidablePred p] :
    Nat.count (fun i => p (fieldVotes minfos field i)) minfos.length =
      minfos.countP fun minfo => p (field.val minfo) := by
  have hmap := congrArg (List.countP fun v => decide (p v)) (map_fieldVotes minfos field)
  rw [List.countP_map, List.countP_map] at hmap
  exact hmap

theorem validCount_fieldVotes (v : Int) :
    validCount (field.ballot maxBlocks).valid (fieldVotes minfos field) minfos.length v =
      occurrences minfos maxBlocks field v :=
  count_fieldVotes fun w => (field.ballot maxBlocks).valid w ∧ w = v

theorem fieldMatches_eq : fieldMatches minfos maxBlocks field =
    occurrences minfos maxBlocks field (electField minfos maxBlocks field) := by
  rw [← validCount_fieldVotes]
  exact (field.ballot maxBlocks).count_eq _ _

theorem occurrences_le_electField (v : Int) : occurrences minfos maxBlocks field v ≤
    occurrences minfos maxBlocks field (electField minfos maxBlocks field) := by
  rw [← validCount_fieldVotes, ← validCount_fieldVotes]
  exact (field.ballot maxBlocks).validCount_le_elect _ _ v

theorem checkMatches_consensus (field : MetaField) :
    field.val (checkMatches minfos maxBlocks retBuf).2 = electField minfos maxBlocks field := by
  unfold checkMatches
  split
  · rename_i hnone
    obtain rfl := List.eq_nil_of_length_eq_zero (Nat.lt_one_iff.1 hnone)
    cases field <;> rfl
  · dsimp only
    split <;> cases field <;> rfl

def NoneValid (minfos : List MetaInfo) (maxBlocks : Int) : Prop :=
  minfos ≠ [] ∧ ∀ minfo ∈ minfos, ∀ field ∈ MetaField.all,
    ¬ (field.ballot maxBlocks).valid (field.val minfo)

instance (minfos : List MetaInfo) (maxBlocks : Int) : Decidable (NoneValid minfos maxBlocks) :=
  inferInstanceAs (Decidable (_ ∧ _))

theorem fieldMatches_eq_zero_iff : fieldMatches minfos maxBlocks field = 0 ↔
    ∀ minfo ∈ minfos, ¬ (field.ballot maxBlocks).valid (field.val minfo) := by
  rw [fieldMatches_eq]
  constructor
  · intro hzero minfo hmem hvalid
    have hle := @occurrences_le_electField minfos maxBlocks field (field.val minfo)
    rw [hzero, Nat.le_zero, occurrences, List.countP_eq_zero] at hle
    exact hle minfo hmem (decide_eq_true ⟨hvalid, rfl⟩)
  · intro hnone
    rw [occurrences, List.countP_eq_zero]
    intro minfo hmem hvalid
    exact hnone minfo hmem (of_decide_eq_true hvalid).1

theorem noneValid_iff (hne : minfos ≠ []) : NoneValid minfos maxBlocks ↔
    MetaField.all.any (fun field => decide (fieldMatches minfos maxBlocks field ≠ 0)) = false := by
  rw [List.any_eq_false]
  constructor
  · intro h field hfield hmatch
    exact of_decide_eq_true hmatch
      (fieldMatches_eq_zero_iff.2 fun minfo hmem => h.2 minfo hmem field hfield)
  · intro h
    refine ⟨hne, fun minfo hmem field hfield => ?_⟩
    have hzero := h field hfield
    rw [decide_eq_true_eq, not_not] at hzero
    exact fieldMatches_eq_zero_iff.1 hzero minfo hmem

theorem checkMatches_result : (checkMatches minfos maxBlocks retBuf).1 =
    if NoneValid minfos maxBlocks then -1
    else (min (fieldMatches minfos maxBlocks .N) (fieldMatches minfos maxBlocks .E) : Int) := by
  unfold checkMatches
  split
  · rename_i hnone
    obtain rfl := List.eq_nil_of_length_eq_zero (Nat.lt_one_iff.1 hnone)
    rw [if_neg fun h => h.1 rfl]
    rfl
  · rename_i hsome
    have hne : minfos ≠ [] := by
      rintro rfl
      exact hsome Nat.zero_lt_one
    dsimp only
    by_cases h : NoneValid minfos maxBlocks
    · have hzero := fun field => fieldMatches_eq_zero_iff.2 fun minfo hmem =>
        h.2 minfo hmem field field.mem_all
      rw [if_pos ⟨by rw [hzero, hzero]; rfl, (noneValid_iff hne).1 h⟩, if_pos h]
    · rw [if_neg fun hboth => h ((noneValid_iff hne).2 hboth.2), if_neg h]

theorem lt_checkMatches_iff {n : Nat} : (n : Int) < (checkMatches minfos maxBlocks retBuf).1 ↔
    n < fieldMatches minfos maxBlocks .N ∧ n < fieldMatches minfos maxBlocks .E := by
  rw [checkMatches_result]
  split
  · rename_i hnone
    have hzero : fieldMatches minfos maxBlocks .N = 0 :=
      fieldMatches_eq_zero_iff.2 fun minfo hmem => hnone.2 minfo hmem .N (MetaField.mem_all _)
    omega
  · omega

theorem fieldMatches_append {minfos' : List MetaInfo} :
    fieldMatches minfos maxBlocks field ≤ fieldMatches (minfos ++ minfos') maxBlocks field := by
  rw [fieldMatches_eq, fieldMatches_eq]
  apply le_trans _ (occurrences_le_electField (electField minfos maxBlocks field))
  unfold occurrences
  rw [List.countP_append]
  exact Nat.le_add_right _ _

end Consensus

end Marfs.Ne
