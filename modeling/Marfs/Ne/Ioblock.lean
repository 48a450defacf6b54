import Mathlib.Algebra.Order.Group.Nat
import Mathlib.Data.List.Basic

/-!
# I/O blocks of a writer

The bytes of an erasure block go to its thread in ioblocks of one size, `split_threshold`, that need
not fit the parts of the stripes: a part is put at the end of the current ioblock, and before the
next part everything over the threshold is moved on to a new one.  A block that is written has no
errors, so that its `error_end` stays zero.

`Holds` says which bytes of an erasure block the queue and the current ioblock make up.  Where the
queue ends is settled by where the last part starts (`Settled.unique`).
-/

namespace Marfs.Ne

open List

def crcBytes : Nat := 4

structure Ioqueue where
  splitThreshold : Nat
  blocksz : Nat
  deriving DecidableEq, Repr

def createIoqueue (iosz partsz : Nat) : Ioqueue :=
  { splitThreshold := iosz - crcBytes
    blocksz := iosz - crcBytes + crcBytes + partsz }

/-- `reserve_ioblock`: the current ioblock, and the full one to push; `none` for a buffer overrun. -/
def reserveIoblock (ioq : Ioqueue) : Option (List UInt8) →
    Option (List UInt8 × Option (List UInt8))
  | none => some ([], none)
  | some block =>
    if block.length < ioq.splitThreshold then some (block, none)
    else if block.length > ioq.splitThreshold && block.length > ioq.blocksz then none
    else some (block.drop ioq.splitThreshold, some (block.take ioq.splitThreshold))

/-! ## The bytes of a block -/

section Holds

variable {α : Type} {threshold partsz : Nat} {cur cur' : Option (List α)}
  {queued queued' : List (List α)} {content : List α}

/-- The current ioblock, after those that are queued, holds the end of `content`. -/
structure Holds (threshold : Nat) (cur : Option (List α)) (queued : List (List α))
    (content : List α) : Prop where
  queued_length : ∀ block ∈ queued, block.length = threshold
  content_eq : content = queued.flatten ++ cur.getD []
  cur_none : cur = none → content = []

/-- The last part starts in the current ioblock, or right behind it. -/
structure Settled (threshold partsz : Nat) (cur : Option (List α)) (queued : List (List α))
    (content : List α) : Prop extends Holds threshold cur queued content where
  content_nil : content = [] → cur = none
  queued_le : queued.length * threshold ≤ (content.length - 1) / partsz * partsz
  lt_queued : (content.length - 1) / partsz * partsz < (queued.length + 1) * threshold

theorem length_flatten_eq (h : ∀ block ∈ queued, block.length = threshold) :
    queued.flatten.length = queued.length * threshold := by
  induction queued with
  | nil => simp
  | cons block queued ih =>
    have hblock := h block (mem_cons_self ..)
    have hrest := ih fun b hb => h b (mem_cons_of_mem _ hb)
    rw [flatten_cons, length_append, hblock, hrest, length_cons, Nat.succ_mul,
      Nat.add_comm]

theorem flatten_append_inj {rest rest' : List α} (hlen : queued.length = queued'.length)
    (h : ∀ block ∈ queued, block.length = threshold) (h' : ∀ block ∈ queued', block.length = threshold)
    (heq : queued.flatten ++ rest = queued'.flatten ++ rest') : queued = queued' ∧ rest = rest' := by
  induction queued generalizing queued' with
  | nil =>
    obtain rfl := eq_nil_of_length_eq_zero hlen.symm
    exact ⟨rfl, by simpa using heq⟩
  | cons block queued ih =>
    cases queued' with
    | nil => simp at hlen
    | cons block' queued' =>
      have hblock := h block (mem_cons_self ..)
      have hblock' := h' block' (mem_cons_self ..)
      simp only [flatten_cons, append_assoc] at heq
      obtain ⟨rfl, htail⟩ := append_inj heq (hblock.trans hblock'.symm)
      obtain ⟨rfl, rfl⟩ := ih (by simpa using hlen)
        (fun b hb => h b (mem_cons_of_mem _ hb))
        (fun b hb => h' b (mem_cons_of_mem _ hb)) htail
      exact ⟨rfl, rfl⟩

theorem Settled.length_eq (h : Settled threshold partsz cur queued content) :
    content.length = queued.length * threshold + (cur.getD []).length := by
  rw [h.content_eq, length_append, length_flatten_eq h.queued_length]

theorem Settled.length_le (h : Settled threshold partsz cur queued content) (hpsz : 0 < partsz) :
    (cur.getD []).length ≤ threshold + partsz := by
  have hlen := h.length_eq
  have hlt := h.lt_queued
  have hdiv := Nat.div_add_mod (content.length - 1) partsz
  have hmod := Nat.mod_lt (content.length - 1) hpsz
  rw [Nat.mul_comm] at hdiv
  rw [Nat.succ_mul] at hlt
  omega

theorem Settled.unique (h : Settled threshold partsz cur queued content)
    (h' : Settled threshold partsz cur' queued' content) : cur = cur' ∧ queued = queued' := by
  have hlen : queued.length = queued'.length := by
    have hlt := h.queued_le.trans_lt h'.lt_queued
    have hlt' := h'.queued_le.trans_lt h.lt_queued
    have := Nat.lt_of_mul_lt_mul_right hlt
    have := Nat.lt_of_mul_lt_mul_right hlt'
    omega
  obtain ⟨rfl, hcur⟩ := flatten_append_inj hlen h.queued_length h'.queued_length
    (h.content_eq.symm.trans h'.content_eq)
  refine ⟨?_, rfl⟩
  cases cur with
  | none =>
    have hnil := h.cur_none rfl
    exact (h'.content_nil hnil).symm
  | some block =>
    cases cur' with
    | none =>
      have hnil := h'.cur_none rfl
      exact absurd (h.content_nil hnil) (by simp)
    | some block' => exact congrArg some hcur

/-- Nothing was written. -/
theorem settled_nil (h : 0 < threshold) :
    Settled threshold partsz (none : Option (List α)) [] [] where
  queued_length := by simp
  content_eq := rfl
  cur_none _ := rfl
  content_nil _ := rfl
  queued_le := by simp
  lt_queued := by simpa using h

theorem partStart_append {len f n : Nat} (hlen : len % partsz = f) (hn : 0 < n) (hfit : f + n ≤ partsz) :
    (len + n - 1) / partsz * partsz = len - f := by
  have hdiv := Nat.div_add_mod len partsz
  rw [hlen] at hdiv
  have hquot : (len + n - 1) / partsz = len / partsz := by
    apply Nat.div_eq_of_lt_le
    · rw [Nat.mul_comm]
      omega
    · rw [Nat.succ_mul, Nat.mul_comm]
      omega
  rw [hquot, Nat.mul_comm]
  omega

theorem Holds.fill {block piece : List α} (h : Holds threshold (some block) queued content)
    (hroom : block.length < threshold) (hst : content.length % partsz = 0) (hne : 0 < piece.length)
    (hfit : piece.length ≤ partsz) :
    Settled threshold partsz (some (block ++ piece)) queued (content ++ piece) := by
  have hpart := partStart_append hst hne (by omega)
  have hlen : content.length = queued.length * threshold + block.length := by
    rw [h.content_eq, length_append, length_flatten_eq h.queued_length]
    rfl
  refine ⟨⟨h.queued_length, ?_, nofun⟩, ?_, ?_, ?_⟩
  · rw [h.content_eq]
    simp
  · intro hnil
    rw [(List.append_eq_nil_iff.1 hnil).2] at hne
    exact absurd hne (lt_irrefl 0)
  · rw [length_append, hpart]
    omega
  · rw [length_append, hpart, Nat.succ_mul]
    omega

theorem Settled.fill {block piece : List α} {f : Nat}
    (h : Settled threshold partsz (some block) queued content) (hst : content.length % partsz = f)
    (hf : 0 < f) (hne : 0 < piece.length) (hfit : f + piece.length ≤ partsz) :
    Settled threshold partsz (some (block ++ piece)) queued (content ++ piece) := by
  have hpart := partStart_append hst hne hfit
  have hold : (content.length - 1) / partsz * partsz = content.length - f := by
    have hmod : (content.length - f) % partsz = 0 := by
      rw [← hst]
      exact Nat.sub_mod_eq_zero_of_mod_eq (by simp)
    have hle := Nat.mod_le content.length partsz
    have hprev := partStart_append hmod hf (by omega)
    rwa [show content.length - f + f - 1 = content.length - 1 by omega, Nat.sub_zero] at hprev
  have hle := h.queued_le
  have hlt := h.lt_queued
  rw [hold] at hle hlt
  refine ⟨⟨h.queued_length, ?_, nofun⟩, ?_, ?_, ?_⟩
  · rw [h.content_eq]
    simp
  · intro hnil
    rw [(List.append_eq_nil_iff.1 hnil).2] at hne
    exact absurd hne (lt_irrefl 0)
  · rw [length_append, hpart]
    exact hle
  · rw [length_append, hpart]
    exact hlt

theorem Settled.last {part : List α} (hpsz : 0 < partsz)
    (h : Settled threshold partsz cur queued (content ++ part)) (hst : content.length % partsz = 0)
    (hpart : part.length = partsz) :
    ∃ block, cur = some (block ++ part) ∧ ∀ part' : List α, part'.length = partsz →
      Settled threshold partsz (some (block ++ part')) queued (content ++ part') := by
  have hstarts := partStart_append hst hpsz (by omega)
  cases cur with
  | none =>
    have hnil := (List.append_eq_nil_iff.1 (h.cur_none rfl)).2
    rw [hnil] at hpart
    exact absurd hpart.symm hpsz.ne'
  | some last =>
    have hle := h.queued_le
    have hlt := h.lt_queued
    have heq := h.content_eq
    rw [length_append, hpart, hstarts] at hle hlt
    rw [Option.getD_some] at heq
    have hflat := length_flatten_eq h.queued_length
    obtain ⟨block, hcont, hlast⟩ : ∃ block, content = queued.flatten ++ block ∧
        last = block ++ part := by
      rcases List.append_eq_append_iff.1 heq with ⟨block, hqueued, hrest⟩ | ⟨block, hqueued, hrest⟩
      · have hnil : block = [] := by
          have := congrArg List.length hqueued
          rw [length_append] at this
          exact eq_nil_of_length_eq_zero (by omega)
        subst hnil
        exact ⟨[], by simpa using hqueued.symm, by simpa using hrest.symm⟩
      · exact ⟨block, hqueued, hrest⟩
    subst hlast
    refine ⟨block, rfl, fun part' hpart' => ⟨⟨h.queued_length, ?_, nofun⟩, ?_, ?_, ?_⟩⟩
    · rw [hcont]
      simp
    · intro hnil
      rw [(List.append_eq_nil_iff.1 hnil).2] at hpart'
      exact absurd hpart'.symm hpsz.ne'
    · rw [length_append, hpart', hstarts]
      exact hle
    · rw [length_append, hpart', hstarts]
      exact hlt

end Holds

end Marfs.Ne
