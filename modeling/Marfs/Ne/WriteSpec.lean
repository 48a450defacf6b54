import Mathlib.Algebra.BigOperators.Group.Finset.Piecewise
import Marfs.Ne.Write

/-!
# The write path does not see where calls end

What a handle holds is a function of the bytes that were written (`Represents.unique`): the complete
stripes, a part of each block and its parity, and the bytes of the stripe that is open.  Two ways to
cut a string into calls leave the same handle, and closing it leaves every thread with the parts of
the string filled up with zeros (`neClose_neWrites`).
-/

namespace Marfs.Ne

open List

namespace Erasure

variable (e : Erasure)

def part (k : Nat) (stripe : List UInt8) : List UInt8 := (stripe.drop (k * e.partsz)).take e.partsz

def blockPart (k : Nat) (stripe : List UInt8) : List UInt8 :=
  if k < e.N then e.part k stripe
  else e.ecEncodeData ((List.range e.N).map fun j => e.part j stripe) (k - e.N)

def openPart (stale : UInt8) (rest : List UInt8) (outblock k : Nat) : List UInt8 :=
  if k < e.N then e.part k rest
  else if k < outblock then replicate e.partsz stale
  else []

/-- The bytes of a block: the parts of the complete stripes, and what the open one has put there. -/
def content (stale : UInt8) (done : List (List UInt8)) (rest : List UInt8) (outblock k : Nat) :
    List UInt8 :=
  done.flatMap (e.blockPart k) ++ e.openPart stale rest outblock k

variable {e}

theorem splitThreshold_pos : 0 < e.ioq.splitThreshold := Nat.sub_pos_of_lt e.iosz_gt

theorem le_blocksz {n : Nat} (h : n ≤ e.ioq.splitThreshold + e.partsz) : n ≤ e.ioq.blocksz :=
  h.trans (Nat.add_le_add_right (Nat.le_add_right _ _) _)

theorem stripesz_pos : 0 < e.stripesz := Nat.mul_pos e.N_pos e.partsz_pos

variable {k f : Nat} {stripe rest piece : List UInt8}

theorem part_eq_nil (h : stripe.length ≤ k * e.partsz) : e.part k stripe = [] := by
  simp [part, drop_eq_nil_of_le h]

theorem length_part (h : (k + 1) * e.partsz ≤ stripe.length) : (e.part k stripe).length = e.partsz := by
  rw [Nat.succ_mul] at h
  simp only [part, length_take, length_drop]
  omega

theorem part_append (hrest : rest.length = k * e.partsz + f) (hfit : f + piece.length ≤ e.partsz) :
    e.part k (rest ++ piece) = e.part k rest ++ piece := by
  have hdrop : (rest ++ piece).drop (k * e.partsz) = rest.drop (k * e.partsz) ++ piece :=
    drop_append_of_le_length (by omega)
  have hlen : (rest.drop (k * e.partsz)).length = f := by
    rw [length_drop]
    omega
  rw [part, part, hdrop, take_of_length_le (by rw [length_append]; omega),
    take_of_length_le (by omega)]

theorem part_append_of_lt (h : (k + 1) * e.partsz ≤ rest.length) :
    e.part k (rest ++ piece) = e.part k rest := by
  rw [Nat.succ_mul] at h
  rw [part, part, drop_append_of_le_length (by omega),
    take_append_of_le_length (by rw [length_drop]; omega)]

theorem length_part_open (hrest : rest.length = k * e.partsz + f) (hf : f ≤ e.partsz) :
    (e.part k rest).length = f := by
  simp only [part, length_take, length_drop]
  omega

theorem length_ecEncodeData (parts : List (List UInt8)) (row : Nat) :
    (e.ecEncodeData parts row).length = e.partsz := by
  simp [ecEncodeData]

theorem length_blockPart (h : stripe.length = e.stripesz) : (e.blockPart k stripe).length = e.partsz := by
  unfold blockPart
  split
  · apply length_part
    rw [h]
    exact Nat.mul_le_mul_right _ ‹_›
  · exact length_ecEncodeData _ _

theorem length_flatMap_blockPart {done : List (List UInt8)} (h : ∀ stripe ∈ done, stripe.length = e.stripesz)
    (k : Nat) : (done.flatMap (e.blockPart k)).length = done.length * e.partsz := by
  have hparts : ∀ block ∈ done.map (e.blockPart k), block.length = e.partsz := by
    intro block hblock
    obtain ⟨stripe, hstrp, rfl⟩ := List.mem_map.1 hblock
    exact length_blockPart (h stripe hstrp)
  rw [flatMap_def, length_flatten_eq hparts, length_map]

end Erasure

open Marfs.Ne.Erasure

/-! ## The invariant of the loop -/

variable {e : Erasure} {stale : UInt8}

/-- A handle that was given the stripes `done` and the open stripe `rest`, which has come to byte
`f` of block `outblock`.  Only the current ioblock of that block may still be full, while the loop
pushes it. -/
structure Writing (e : Erasure) (stale : UInt8) (done : List (List UInt8)) (rest : List UInt8)
    (f : Nat) (st : WriteState) : Prop where
  done_length : ∀ stripe ∈ done, stripe.length = e.stripesz
  outblock_le : st.outblock ≤ e.N + e.E
  rest_length : rest.length = min st.outblock e.N * e.partsz + f
  f_lt : f < e.partsz
  f_data : e.N ≤ st.outblock → f = 0
  subOffset : st.handle.subOffset = done.length * e.stripesz + rest.length
  totsz : st.handle.totsz = done.length * e.stripesz + rest.length
  toWrite : st.busy e → st.toWrite = e.partsz - f
  settled : ∀ k < e.N + e.E, k ≠ st.outblock →
    Settled e.ioq.splitThreshold e.partsz (st.handle.iob k) (st.handle.queued k)
      (e.content stale done rest st.outblock k)
  holds : st.outblock < e.N + e.E →
    Holds e.ioq.splitThreshold (st.handle.iob st.outblock) (st.handle.queued st.outblock)
      (e.content stale done rest st.outblock st.outblock)
  fits : st.outblock < e.N + e.E →
    ((st.handle.iob st.outblock).getD []).length ≤ e.ioq.blocksz
  current : st.outblock < e.N + e.E → 0 < f ∨ ¬ st.busy e →
    Settled e.ioq.splitThreshold e.partsz (st.handle.iob st.outblock) (st.handle.queued st.outblock)
      (e.content stale done rest st.outblock st.outblock)
  unused : ∀ k, e.N + e.E ≤ k → st.handle.iob k = none ∧ st.handle.queued k = []

namespace Writing

variable {done : List (List UInt8)} {rest : List UInt8} {f : Nat} {st : WriteState}

/-- The size of a block. -/
theorem length_content (h : Writing e stale done rest f st) {k : Nat} (hk : k < e.N + e.E) :
    (e.content stale done rest st.outblock k).length = done.length * e.partsz +
      if k < st.outblock then e.partsz else if k = st.outblock then f else 0 := by
  have hrest := h.rest_length
  have hf := h.f_lt
  have hdata := h.f_data
  rw [content, length_append, length_flatMap_blockPart h.done_length, openPart]
  congr 1
  by_cases hkN : k < e.N
  · rw [if_pos hkN]
    rcases lt_trichotomy k st.outblock with hlt | rfl | hgt
    · rw [if_pos hlt]
      apply length_part
      have hmin : k + 1 ≤ min st.outblock e.N := by omega
      have := Nat.mul_le_mul_right e.partsz hmin
      omega
    · rw [if_neg (lt_irrefl _), if_pos rfl]
      rw [Nat.min_eq_left hkN.le] at hrest
      exact length_part_open hrest hf.le
    · rw [if_neg (by omega), if_neg (by omega), part_eq_nil]
      · rfl
      · rw [Nat.min_eq_left (by omega)] at hrest
        have hle : st.outblock + 1 ≤ k := hgt
        have := Nat.mul_le_mul_right e.partsz hle
        rw [Nat.succ_mul] at this
        omega
  · rw [if_neg hkN]
    split
    · simp
    · by_cases heq : k = st.outblock
      · have hzero := hdata (by omega)
        simp [hzero]
      · simp [heq]

/-- While the current block waits for its part, its queue and its ioblock can be cut in another
way. -/
theorem setCurrent (h : Writing e stale done rest f st) (ho : st.outblock < e.N + e.E)
    (hf : f = 0) (hbusy : st.busy e) {block : List UInt8} {queued : List (List UInt8)}
    (hholds : Holds e.ioq.splitThreshold (some block) queued
      (e.content stale done rest st.outblock st.outblock)) (hfits : block.length ≤ e.ioq.blocksz) :
    Writing e stale done rest f { st with
      handle := { st.handle with
        iob := Function.update st.handle.iob st.outblock (some block)
        queued := Function.update st.handle.queued st.outblock queued } } where
  done_length := h.done_length
  outblock_le := h.outblock_le
  rest_length := h.rest_length
  f_lt := h.f_lt
  f_data := h.f_data
  subOffset := h.subOffset
  totsz := h.totsz
  toWrite := h.toWrite
  settled k hk hne := by
    simpa only [Function.update_of_ne hne] using h.settled k hk hne
  holds _ := by simpa only [Function.update_self] using hholds
  fits _ := by simpa only [Function.update_self, Option.getD_some] using hfits
  current _ hdone := by
    rcases hdone with hpos | hidle
    · omega
    · exact absurd hbusy hidle
  unused k hk := by
    have hne : k ≠ st.outblock := by omega
    simpa only [Function.update_of_ne hne] using h.unused k hk

end Writing

def Ready (e : Erasure) (stale : UInt8) (done : List (List UInt8)) (rest : List UInt8) (f : Nat)
    (st : WriteState) : Prop :=
  ∃ block, st.handle.iob st.outblock = some block ∧
    ∀ piece : List UInt8, 0 < piece.length → f + piece.length ≤ e.partsz →
      Settled e.ioq.splitThreshold e.partsz (some (block ++ piece))
        (st.handle.queued st.outblock)
        (e.content stale done rest st.outblock st.outblock ++ piece)

namespace Writing

variable {done : List (List UInt8)} {rest : List UInt8} {f : Nat} {st : WriteState}

theorem mod_content (h : Writing e stale done rest f st) (ho : st.outblock < e.N + e.E) :
    (e.content stale done rest st.outblock st.outblock).length % e.partsz = f := by
  rw [h.length_content ho, if_neg (lt_irrefl _), if_pos rfl, Nat.mul_comm, Nat.mul_add_mod,
    Nat.mod_eq_of_lt h.f_lt]

/-- A part that was begun goes on in its ioblock. -/
theorem ready_of_pos (h : Writing e stale done rest f st) (ho : st.outblock < e.N + e.E)
    (hf : 0 < f) : Ready e stale done rest f st := by
  have hset := h.current ho (.inl hf)
  have hmod := h.mod_content ho
  cases hcur : st.handle.iob st.outblock with
  | none =>
    rw [hcur] at hset
    rw [hset.cur_none rfl, length_nil, Nat.zero_mod] at hmod
    omega
  | some block =>
    rw [hcur] at hset
    exact ⟨block, hcur, fun piece hne hfit => hset.fill hmod hf hne hfit⟩

/-- A part begins in an ioblock with room. -/
theorem ready_of_lt (h : Writing e stale done rest f st) (ho : st.outblock < e.N + e.E)
    (hf : f = 0) {block : List UInt8} (hcur : st.handle.iob st.outblock = some block)
    (hroom : block.length < e.ioq.splitThreshold) : Ready e stale done rest f st := by
  have hholds := h.holds ho
  have hmod := h.mod_content ho
  rw [hcur] at hholds
  subst hf
  refine ⟨block, hcur, fun piece hne hfit => hholds.fill hroom hmod hne ?_⟩
  rwa [Nat.zero_add] at hfit

end Writing

/-! ## Filling a part -/

section Fill

variable {done : List (List UInt8)} {rest piece : List UInt8} {f k o o' : Nat}

theorem content_data (ho : o < e.N) (hrest : rest.length = o * e.partsz + f)
    (hfit : f + piece.length ≤ e.partsz) (ho' : o' ≤ e.N) :
    e.content stale done (rest ++ piece) o' k =
      if k = o then e.content stale done rest o k ++ piece else e.content stale done rest o k := by
  unfold content openPart
  by_cases hkN : k < e.N
  · rw [if_pos hkN, if_pos hkN]
    rcases lt_trichotomy k o with hlt | rfl | hgt
    · have hle : (k + 1) * e.partsz ≤ o * e.partsz := Nat.mul_le_mul_right _ hlt
      rw [if_neg hlt.ne, part_append_of_lt (by omega)]
    · rw [if_pos rfl, part_append hrest hfit, append_assoc]
    · have hle : (o + 1) * e.partsz ≤ k * e.partsz := Nat.mul_le_mul_right _ hgt
      rw [Nat.succ_mul] at hle
      rw [if_neg hgt.ne', part_eq_nil (by rw [length_append]; omega), part_eq_nil (by omega)]
  · rw [if_neg hkN, if_neg hkN, if_neg (by omega), if_neg (by omega), if_neg (by omega)]

theorem content_parity (ho : e.N ≤ o) :
    e.content stale done rest (o + 1) k =
      if k = o then e.content stale done rest o k ++ replicate e.partsz stale
      else e.content stale done rest o k := by
  unfold content openPart
  by_cases hkN : k < e.N
  · rw [if_pos hkN, if_pos hkN, if_neg (by omega)]
  · rw [if_neg hkN, if_neg hkN]
    rcases lt_trichotomy k o with hlt | rfl | hgt
    · rw [if_pos (by omega), if_pos hlt, if_neg hlt.ne]
    · rw [if_pos (by omega), if_neg (lt_irrefl _), if_pos rfl, List.append_nil]
    · rw [if_neg (by omega), if_neg hgt.ne', if_neg (by omega)]

end Fill

theorem held_setIob (h : Handle) (block : List UInt8) {k : Nat} (hk : k < e.N + e.E) :
    (h.setIob k block).held e + ((h.iob k).getD []).length = h.held e + block.length := by
  have hupdate : (fun i => (((h.setIob k block).iob i).getD []).length) =
      Function.update (fun i => ((h.iob i).getD []).length) k block.length := by
    funext i
    by_cases hi : i = k
    · subst hi
      simp [Handle.setIob]
    · simp [Handle.setIob, hi]
  have hmem := Finset.mem_range.2 hk
  unfold Handle.held
  rw [hupdate, Finset.sum_update_of_mem hmem,
    ← Finset.sum_erase_add _ (fun i => ((h.iob i).getD []).length) hmem, Finset.sdiff_singleton_eq_erase]
  omega

namespace Writing

variable {done : List (List UInt8)} {rest : List UInt8} {f : Nat} {st : WriteState}

theorem fillData (h : Writing e stale done rest f st) (ho : st.outblock < e.N) {block piece : List UInt8}
    (hfit : f + piece.length ≤ e.partsz) (hset : Settled e.ioq.splitThreshold e.partsz (some (block ++ piece))
      (st.handle.queued st.outblock) (e.content stale done rest st.outblock st.outblock ++ piece))
    (o' f' toWrite : Nat) (buffer : List UInt8)
    (hnext : o' = st.outblock ∧ f' = f + piece.length ∧ f' < e.partsz ∧ buffer = [] ∨
      o' = st.outblock + 1 ∧ f' = 0 ∧ f + piece.length = e.partsz ∧ toWrite = e.partsz) :
    Writing e stale done (rest ++ piece) f'
      { handle := { st.handle.setIob st.outblock (block ++ piece) with
          subOffset := st.handle.subOffset + piece.length
          totsz := st.handle.totsz + piece.length }
        outblock := o', toWrite := toWrite, buffer := buffer } := by
  have hrest := h.rest_length
  rw [Nat.min_eq_left ho.le] at hrest
  have ho' : o' ≤ e.N := by omega
  have hblk : ∀ k < e.N + e.E, Settled e.ioq.splitThreshold e.partsz
      ((st.handle.setIob st.outblock (block ++ piece)).iob k) (st.handle.queued k)
      (e.content stale done (rest ++ piece) o' k) := by
    intro k hk
    rw [content_data ho hrest hfit ho']
    by_cases hkeq : k = st.outblock
    · subst hkeq
      simpa [Handle.setIob] using hset
    · simpa [Handle.setIob, hkeq] using h.settled k hk hkeq
  have hmul : (st.outblock + 1) * e.partsz = st.outblock * e.partsz + e.partsz := Nat.succ_mul _ _
  exact
    { done_length := h.done_length
      outblock_le := ho'.trans (Nat.le_add_right _ _)
      rest_length := by
        rw [length_append, hrest, Nat.min_eq_left ho']
        rcases hnext with ⟨rfl, rfl, -⟩ | ⟨rfl, rfl, hfull, -⟩ <;> omega
      f_lt := by
        have := e.partsz_pos
        omega
      f_data := by
        intro hN
        rcases hnext with ⟨rfl, -⟩ | ⟨-, hzero, -⟩
        · exact absurd ho (Nat.not_lt.2 hN)
        · exact hzero
      subOffset := by
        rw [length_append, ← Nat.add_assoc, ← h.subOffset]
      totsz := by
        rw [length_append, ← Nat.add_assoc, ← h.totsz]
      toWrite := by
        intro hbusy
        rcases hnext with ⟨rfl, -, -, rfl⟩ | ⟨-, rfl, -, hto⟩
        · rcases hbusy with hbuffer | hN
          · exact absurd rfl hbuffer
          · exact absurd ho (Nat.not_lt.2 hN)
        · exact hto
      settled := fun k hk _ => hblk k hk
      holds := fun hlt => (hblk o' hlt).toHolds
      fits := fun hlt => le_blocksz ((hblk o' hlt).length_le e.partsz_pos)
      current := fun hlt _ => hblk o' hlt
      unused := by
        intro k hk
        have hne : k ≠ st.outblock := by omega
        simpa [Handle.setIob, hne] using h.unused k hk }

end Writing

/-- Every byte of the caller pays for the parity parts of a stripe. -/
theorem turns_data_lt (held c : Nat) {buffer n : Nat} (hn : 0 < n) (hle : n ≤ buffer) :
    held + n + (c + 2) * (buffer - n) + c < held + (c + 2) * buffer := by
  obtain ⟨m, rfl⟩ := Nat.exists_eq_add_of_le hle
  have hmul : c ≤ c * n := Nat.le_mul_of_pos_right _ hn
  have hspl : (c + 2) * (n + m) = c * n + 2 * n + (c + 2) * m := by
    rw [Nat.mul_add, Nat.add_mul]
  rw [Nat.add_sub_cancel_left, hspl]
  omega

namespace Writing

variable {done : List (List UInt8)} {rest : List UInt8} {f : Nat} {st : WriteState}

theorem writePart_data (h : Writing e stale done rest f st) (hrdy : Ready e stale done rest f st)
    (ho : st.outblock < e.N) (hbuffer : st.buffer ≠ []) :
    ∃ st' n f', writePart e stale st = some st' ∧
      Writing e stale done (rest ++ st.buffer.take n) f' st' ∧
      st'.buffer = st.buffer.drop n ∧ st'.turns e < st.turns e := by
  obtain ⟨block, hcur, hfill⟩ := hrdy
  have hto := h.toWrite (.inl hbuffer)
  have hf := h.f_lt
  have hpos : 0 < st.buffer.length := List.length_pos_iff.2 hbuffer
  unfold writePart
  rw [if_pos ho]
  dsimp only
  obtain ⟨n, hn⟩ : ∃ n, n = min st.toWrite st.buffer.length := ⟨_, rfl⟩
  rw [← hn]
  have hlen : (st.buffer.take n).length = n := length_take_of_le (by omega)
  have hdrop : (st.buffer.drop n).length = st.buffer.length - n := length_drop
  have hfit : f + (st.buffer.take n).length ≤ e.partsz := by omega
  have hset := hfill (st.buffer.take n) (by omega) hfit
  have hheld := held_setIob st.handle (block ++ st.buffer.take n)
    (show st.outblock < e.N + e.E by omega)
  rw [hcur, Option.getD_some, length_append, hlen] at hheld
  have hturns := turns_data_lt (st.handle.held e) (e.E * (e.partsz + 1))
    (show 0 < n by omega) (show n ≤ st.buffer.length by omega)
  have hfilled : st.handle.fill st.outblock (st.buffer.take n) =
      some (st.handle.setIob st.outblock (block ++ st.buffer.take n)) := by
    rw [Handle.fill, hcur]
    rfl
  rw [hfilled, Option.map_some]
  have hnext := h.fillData ho hfit hset
  rw [hlen] at hnext
  by_cases hcomp : st.toWrite ≤ st.buffer.length
  · rw [if_pos hcomp]
    refine ⟨_, n, 0, rfl, hnext _ _ _ _ (.inr ⟨rfl, rfl, by omega, rfl⟩), rfl, ?_⟩
    have hdue : (if e.N ≤ st.outblock + 1 then
        (e.N + e.E - (st.outblock + 1)) * (e.partsz + 1) else 0) ≤ e.E * (e.partsz + 1) := by
      split
      · apply Nat.mul_le_mul_right
        omega
      · exact Nat.zero_le _
    simp only [WriteState.turns, hdrop, Handle.held] at hheld hturns ⊢
    rw [if_neg (Nat.not_le.2 ho)]
    omega
  · rw [if_neg hcomp]
    have hnil : st.buffer.drop n = [] := drop_eq_nil_of_le (by omega)
    refine ⟨_, n, f + n, rfl, hnext _ _ _ _ (.inl ⟨rfl, rfl, by omega, hnil⟩), rfl, ?_⟩
    simp only [WriteState.turns, hdrop, Handle.held] at hheld hturns ⊢
    rw [if_neg (Nat.not_le.2 ho)]
    omega

theorem writePart_parity (h : Writing e stale done rest f st) (hrdy : Ready e stale done rest f st)
    (hN : e.N ≤ st.outblock) (ho : st.outblock < e.N + e.E) :
    ∃ st', writePart e stale st = some st' ∧ Writing e stale done rest 0 st' ∧
      st'.buffer = st.buffer ∧ st'.turns e < st.turns e := by
  obtain ⟨block, hcur, hfill⟩ := hrdy
  have hzero := h.f_data hN
  have hrest := h.rest_length
  rw [Nat.min_eq_right hN] at hrest
  have hlen : (replicate e.partsz stale).length = e.partsz := length_replicate
  have hset := hfill (replicate e.partsz stale) (by rw [hlen]; exact e.partsz_pos) (by omega)
  have hheld := held_setIob st.handle (block ++ replicate e.partsz stale) ho
  rw [hcur, Option.getD_some, length_append, hlen] at hheld
  have hblk : ∀ k < e.N + e.E, Settled e.ioq.splitThreshold e.partsz
      ((st.handle.setIob st.outblock (block ++ replicate e.partsz stale)).iob k)
      (st.handle.queued k) (e.content stale done rest (st.outblock + 1) k) := by
    intro k hk
    rw [content_parity hN]
    by_cases hkeq : k = st.outblock
    · subst hkeq
      simpa [Handle.setIob] using hset
    · simpa [Handle.setIob, hkeq] using h.settled k hk hkeq
  unfold writePart
  rw [if_neg (Nat.not_lt.2 hN), Handle.fill, hcur, Option.map_some, Option.map_some]
  refine ⟨_, rfl, ?_, rfl, ?_⟩
  · exact
      { done_length := h.done_length
        outblock_le := ho
        rest_length := by
          rw [hrest, hzero, Nat.min_eq_right (hN.trans (Nat.le_succ _))]
        f_lt := e.partsz_pos
        f_data := fun _ => rfl
        subOffset := h.subOffset
        totsz := h.totsz
        toWrite := fun _ => by rw [← hzero]; exact h.toWrite (.inr hN)
        settled := fun k hk _ => hblk k hk
        holds := fun hlt => (hblk _ hlt).toHolds
        fits := fun hlt => le_blocksz ((hblk _ hlt).length_le e.partsz_pos)
        current := fun hlt _ => hblk _ hlt
        unused := by
          intro k hk
          have hne : k ≠ st.outblock := by omega
          simpa [Handle.setIob, hne] using h.unused k hk }
  · have hdue : (e.N + e.E - st.outblock) * (e.partsz + 1) =
        (e.N + e.E - (st.outblock + 1)) * (e.partsz + 1) + (e.partsz + 1) := by
      rw [← Nat.succ_mul, show (e.N + e.E - (st.outblock + 1)).succ = e.N + e.E - st.outblock by omega]
    simp only [WriteState.turns, Handle.held] at hheld ⊢
    rw [if_pos hN, if_pos (hN.trans (Nat.le_succ _)), hdue]
    omega

end Writing

/-! ## Completing a stripe -/

namespace Writing

variable {done : List (List UInt8)} {rest : List UInt8} {f : Nat} {st : WriteState}

variable {k : Nat}

theorem content_full (h : Writing e stale done rest f st) (ho : st.outblock = e.N + e.E)
    (hk : k < e.N + e.E) :
    ∃ part, part.length = e.partsz ∧ (k < e.N → part = e.part k rest) ∧
      e.content stale done rest st.outblock k = done.flatMap (e.blockPart k) ++ part := by
  have hlen := h.length_content hk
  rw [if_pos (by omega), content, length_append, length_flatMap_blockPart h.done_length] at hlen
  refine ⟨_, Nat.add_left_cancel hlen, ?_, rfl⟩
  intro hkN
  rw [openPart, if_pos hkN]

theorem mod_flatMap (h : Writing e stale done rest f st) (k : Nat) :
    (done.flatMap (e.blockPart k)).length % e.partsz = 0 := by
  rw [length_flatMap_blockPart h.done_length]
  exact Nat.mul_mod_left _ _

theorem length_rest (h : Writing e stale done rest f st) (ho : st.outblock = e.N + e.E) :
    rest.length = e.stripesz := by
  have hzero := h.f_data (by omega)
  have hrest := h.rest_length
  rwa [hzero, Nat.min_eq_right (by omega), Nat.add_zero] at hrest

theorem last_part (h : Writing e stale done rest f st) (ho : st.outblock = e.N + e.E) (hk : k < e.N + e.E) :
    ∃ block part, st.handle.iob k = some (block ++ part) ∧ part.length = e.partsz ∧
      (k < e.N → part = e.part k rest) ∧
      ∀ part' : List UInt8, part'.length = e.partsz →
        Settled e.ioq.splitThreshold e.partsz (some (block ++ part')) (st.handle.queued k)
          (done.flatMap (e.blockPart k) ++ part') := by
  obtain ⟨part, hlen, hdata, hcont⟩ := h.content_full ho hk
  have hset := h.settled k hk (by omega)
  rw [hcont] at hset
  obtain ⟨block, hcur, hreplace⟩ := hset.last e.partsz_pos (h.mod_flatMap k) hlen
  exact ⟨block, part, hcur, hlen, hdata, hreplace⟩

theorem lastPart_append {block part : List UInt8} (hlen : part.length = e.partsz) :
    lastPart e (block ++ part) = part := by
  have hsub : (block ++ part).length - e.partsz = block.length := by
    rw [length_append]
    omega
  rw [lastPart, hsub, drop_left]

theorem parts_eq (h : Writing e stale done rest f st) (ho : st.outblock = e.N + e.E) :
    ((List.range e.N).map fun k => lastPart e ((st.handle.iob k).getD [])) =
      (List.range e.N).map fun j => e.part j rest := by
  apply map_congr_left
  intro k hk
  have hkN := List.mem_range.1 hk
  obtain ⟨block, part, hcur, hlen, hdata, -⟩ := h.last_part ho (show k < e.N + e.E by omega)
  rw [hcur, Option.getD_some, lastPart_append hlen, hdata hkN]

/-- With its parity, the stripe is complete. -/
theorem iob_generate (h : Writing e stale done rest f st) (ho : st.outblock = e.N + e.E)
    (hk : k < e.N + e.E) :
    ∃ block, (generate e st.handle).iob k = some (block ++ e.blockPart k rest) ∧
      ((st.handle.iob k).getD []).length = (block ++ e.blockPart k rest).length ∧
      Settled e.ioq.splitThreshold e.partsz (some (block ++ e.blockPart k rest))
        (st.handle.queued k) (done.flatMap (e.blockPart k) ++ e.blockPart k rest) := by
  obtain ⟨block, part, hcur, hlen, hdata, hreplace⟩ := h.last_part ho hk
  have hpart := length_blockPart (k := k) (h.length_rest ho)
  refine ⟨block, ?_, ?_, hreplace _ hpart⟩
  · unfold generate
    dsimp only
    rw [h.parts_eq ho, hcur]
    by_cases hkN : k < e.N
    · rw [if_neg (by omega), hdata hkN, blockPart, if_pos hkN]
    · have hsub : (block ++ part).length - e.partsz = block.length := by
        rw [length_append]
        omega
      rw [if_pos (by omega), Option.map_some, hsub, take_left, blockPart, if_neg hkN]
  · rw [hcur, Option.getD_some, length_append, length_append, hlen, hpart]

theorem content_next (k : Nat) :
    e.content stale (done ++ [rest]) [] 0 k =
      done.flatMap (e.blockPart k) ++ e.blockPart k rest := by
  have hopen : e.openPart stale [] 0 k = [] := by
    unfold openPart
    split
    · exact part_eq_nil (Nat.zero_le _)
    · rfl
  rw [content, hopen, flatMap_append]
  simp

theorem completed (h : Writing e stale done rest f st) (ho : st.outblock = e.N + e.E) :
    Writing e stale (done ++ [rest]) [] 0 (finishStripe e st) ∧
      (finishStripe e st).turns e = st.turns e := by
  have hzero := h.f_data (by omega)
  have hrest := h.length_rest ho
  have hset : ∀ k < e.N + e.E, Settled e.ioq.splitThreshold e.partsz
      ((generate e st.handle).iob k) (st.handle.queued k)
      (e.content stale (done ++ [rest]) [] 0 k) := by
    intro k hk
    obtain ⟨block, hcur, -, hset⟩ := h.iob_generate ho hk
    rwa [hcur, content_next]
  have hsize : (done ++ [rest]).length * e.stripesz + ([] : List UInt8).length =
      done.length * e.stripesz + rest.length := by
    rw [length_append, length_singleton, Nat.succ_mul, hrest]
    rfl
  unfold finishStripe
  rw [if_pos ho]
  refine ⟨?_, ?_⟩
  · exact
      { done_length := by
          intro stripe hstrp
          rcases List.mem_append.1 hstrp with hold | hnew
          · exact h.done_length stripe hold
          · rw [List.mem_singleton.1 hnew]
            exact hrest
        outblock_le := Nat.zero_le _
        rest_length := by simp
        f_lt := e.partsz_pos
        f_data := fun _ => rfl
        subOffset := by rw [hsize]; exact h.subOffset
        totsz := by rw [hsize]; exact h.totsz
        toWrite := fun _ => by
          have hto := h.toWrite (.inr (by omega))
          rwa [hzero] at hto
        settled := fun k hk _ => hset k hk
        holds := fun hlt => (hset 0 hlt).toHolds
        fits := fun hlt => le_blocksz ((hset 0 hlt).length_le e.partsz_pos)
        current := fun hlt _ => hset 0 hlt
        unused := by
          intro k hk
          have hnone := h.unused k hk
          refine ⟨?_, hnone.2⟩
          unfold generate
          dsimp only
          rw [if_neg (by omega)]
          exact hnone.1 }
  · have hheld : (generate e st.handle).held e = st.handle.held e := by
      apply Finset.sum_congr rfl
      intro k hk
      obtain ⟨block, hcur, hlen, -⟩ := h.iob_generate ho (Finset.mem_range.1 hk)
      rw [hcur, hlen]
      rfl
    have hN := e.N_pos
    simp only [WriteState.turns, hheld, ho]
    rw [if_neg (by omega), if_pos (by omega), Nat.sub_self, Nat.zero_mul]

end Writing

/-! ## A turn of the loop -/

/-- The loop at its head, with all that was written and what is left of the buffer. -/
structure Running (e : Erasure) (stale : UInt8) (data : List UInt8) (st : WriteState) : Prop where
  outblock_lt : st.outblock < e.N + e.E
  writing : ∃ done rest f, Writing e stale done rest f st ∧
    done.flatten ++ rest ++ st.buffer = data

namespace Running

variable {data : List UInt8} {st st' : WriteState}

theorem of_writing {done : List (List UInt8)} {rest : List UInt8} {f : Nat}
    (h : Writing e stale done rest f st) (hdata : done.flatten ++ rest ++ st.buffer = data) :
    Running e stale data (finishStripe e st) ∧ (finishStripe e st).turns e = st.turns e := by
  by_cases ho : st.outblock = e.N + e.E
  · obtain ⟨hwr, hturns⟩ := h.completed ho
    have hN := e.N_pos
    have hfinish : finishStripe e st = { st with handle := generate e st.handle, outblock := 0 } :=
      if_pos ho
    refine ⟨⟨?_, done ++ [rest], [], 0, hwr, ?_⟩, hturns⟩
    · rw [hfinish]
      dsimp only
      omega
    · rw [hfinish, ← hdata]
      simp
  · have hfinish : finishStripe e st = st := if_neg ho
    have hle := h.outblock_le
    rw [hfinish]
    exact ⟨⟨by omega, done, rest, f, h, hdata⟩, rfl⟩

theorem fill (h : Running e stale data st) (hbusy : st.busy e)
    (hrdy : ∀ done rest f, Writing e stale done rest f st → Ready e stale done rest f st) :
    ∃ st', (writePart e stale st).map (finishStripe e) = some st' ∧ Running e stale data st' ∧
      st'.turns e < st.turns e := by
  obtain ⟨ho, done, rest, f, hwr, hdata⟩ := h
  have hrdy := hrdy done rest f hwr
  by_cases hN : st.outblock < e.N
  · have hbuffer : st.buffer ≠ [] := hbusy.resolve_right (Nat.not_le.2 hN)
    obtain ⟨st', n, f', hpart, hnext, hrest, hturns⟩ := hwr.writePart_data hrdy hN hbuffer
    have hdata' : done.flatten ++ (rest ++ st.buffer.take n) ++ st'.buffer = data := by
      rw [hrest, ← hdata]
      simp
    obtain ⟨hrun, hsame⟩ := of_writing hnext hdata'
    refine ⟨finishStripe e st', by rw [hpart]; rfl, hrun, ?_⟩
    rwa [hsame]
  · obtain ⟨st', hpart, hnext, hrest, hturns⟩ :=
      hwr.writePart_parity hrdy (Nat.not_lt.1 hN) ho
    have hdata' : done.flatten ++ rest ++ st'.buffer = data := by
      rw [hrest]
      exact hdata
    obtain ⟨hrun, hsame⟩ := of_writing hnext hdata'
    refine ⟨finishStripe e st', by rw [hpart]; rfl, hrun, ?_⟩
    rwa [hsame]

theorem setCurrent (h : Running e stale data st) (hbusy : st.busy e)
    (hto : ¬ st.toWrite < e.partsz) (block : List UInt8) (queued : List (List UInt8))
    (hcut : ∀ content, Holds e.ioq.splitThreshold (st.handle.iob st.outblock)
      (st.handle.queued st.outblock) content → Holds e.ioq.splitThreshold (some block) queued content)
    (hfits : block.length ≤ e.ioq.blocksz) :
    Running e stale data { st with
      handle := { st.handle with
        iob := Function.update st.handle.iob st.outblock (some block)
        queued := Function.update st.handle.queued st.outblock queued } } := by
  obtain ⟨ho, done, rest, f, hwr, hdata⟩ := h
  have hto' := hwr.toWrite hbusy
  have hf := hwr.f_lt
  exact ⟨ho, done, rest, f, hwr.setCurrent ho (by omega) hbusy (hcut _ (hwr.holds ho)) hfits,
    hdata⟩

theorem fillReserved (h : Running e stale data st) (hbusy : st.busy e) (hto : ¬ st.toWrite < e.partsz)
    (block : List UInt8) (hcut : ∀ content, Holds e.ioq.splitThreshold (st.handle.iob st.outblock)
      (st.handle.queued st.outblock) content →
        Holds e.ioq.splitThreshold (some block) (st.handle.queued st.outblock) content)
    (hsame : block = (st.handle.iob st.outblock).getD []) (hroom : block.length < e.ioq.splitThreshold) :
    ∃ st', (writePart e stale { st with handle := st.handle.setIob st.outblock block }).map
        (finishStripe e) = some st' ∧ Running e stale data st' ∧ st'.turns e < st.turns e := by
  have hreserved := h.setCurrent hbusy hto block _ hcut (le_blocksz (by omega))
  rw [Function.update_eq_self] at hreserved
  obtain ⟨st', hpart, hrun, hturns⟩ := hreserved.fill hbusy fun done rest f hwr => by
    have hto' : st.toWrite = e.partsz - f := hwr.toWrite hbusy
    have hf := hwr.f_lt
    exact hwr.ready_of_lt h.outblock_lt (by omega) (Function.update_self ..) hroom
  refine ⟨st', hpart, hrun, hturns.trans_eq ?_⟩
  have hheld := held_setIob st.handle block h.outblock_lt
  rw [← hsame, Nat.add_right_cancel_iff] at hheld
  simp only [WriteState.turns, Handle.held, Handle.setIob] at hheld ⊢
  rw [hheld]

/-- The current ioblock is full. -/
theorem push (h : Running e stale data st) (hbusy : st.busy e) (hto : ¬ st.toWrite < e.partsz)
    {block : List UInt8} (hcur : st.handle.iob st.outblock = some block)
    (hfull : ¬ block.length < e.ioq.splitThreshold) :
    ∃ st', writeTurn e stale st = some st' ∧ Running e stale data st' ∧
      st'.turns e < st.turns e := by
  have hle : block.length ≤ e.ioq.blocksz := by
    obtain ⟨ho, done, rest, f, hwr, -⟩ := h
    have hfits := hwr.fits ho
    rwa [hcur] at hfits
  have hpush := h.setCurrent hbusy hto (block.drop e.ioq.splitThreshold)
    (st.handle.queued st.outblock ++ [block.take e.ioq.splitThreshold])
    (fun content hholds => ?_) (by rw [length_drop]; omega)
  · unfold writeTurn reserveIoblock
    rw [if_neg hto, hcur]
    dsimp only
    rw [if_neg hfull, if_neg (by simp [hle])]
    refine ⟨_, rfl, hpush, ?_⟩
    have hheld := held_setIob st.handle (block.drop e.ioq.splitThreshold) h.outblock_lt
    have hpos := splitThreshold_pos (e := e)
    rw [hcur, Option.getD_some, length_drop] at hheld
    simp only [WriteState.turns, Handle.held, Handle.setIob, Handle.enqueue] at hheld ⊢
    omega
  · rw [hcur] at hholds
    refine ⟨?_, ?_, nofun⟩
    · intro b hb
      rcases List.mem_append.1 hb with hold | hnew
      · exact hholds.queued_length b hold
      · rw [List.mem_singleton.1 hnew, length_take]
        omega
    · rw [hholds.content_eq]
      simp

theorem turn (h : Running e stale data st) (hbusy : st.busy e) :
    ∃ st', writeTurn e stale st = some st' ∧ Running e stale data st' ∧
      st'.turns e < st.turns e := by
  by_cases hto : st.toWrite < e.partsz
  · -- a part that was begun
    obtain ⟨st', hpart, hnext⟩ := h.fill hbusy fun done rest f hwr => by
      have hto' := hwr.toWrite hbusy
      exact hwr.ready_of_pos h.outblock_lt (by omega)
    exact ⟨st', by rw [writeTurn, if_pos hto, hpart], hnext⟩
  · cases hcur : st.handle.iob st.outblock with
    | none =>
      obtain ⟨st', hpart, hnext⟩ := h.fillReserved hbusy hto []
        (fun content hholds => ⟨hholds.queued_length, by rw [hholds.content_eq, hcur]; rfl, nofun⟩)
        (by rw [hcur]; rfl) splitThreshold_pos
      exact ⟨st', by rw [writeTurn, if_neg hto, hcur]; exact hpart, hnext⟩
    | some block =>
      by_cases hroom : block.length < e.ioq.splitThreshold
      · obtain ⟨st', hpart, hnext⟩ := h.fillReserved hbusy hto block
          (fun content hholds => by rwa [hcur] at hholds) (by rw [hcur]; rfl) hroom
        refine ⟨st', ?_, hnext⟩
        rw [writeTurn, if_neg hto, hcur, reserveIoblock, if_pos hroom]
        exact hpart
      · exact h.push hbusy hto hcur hroom

theorem loop (fuel : Nat) (h : Running e stale data st) (hfuel : st.turns e < fuel) :
    ∃ st', writeLoop e stale fuel st = some st' ∧ Running e stale data st' ∧ ¬ st'.busy e := by
  induction fuel generalizing st with
  | zero => exact absurd hfuel (Nat.not_lt_zero _)
  | succ fuel ih =>
    by_cases hbusy : st.busy e
    · obtain ⟨st', hturn, hrun, hless⟩ := h.turn hbusy
      obtain ⟨st'', hloop, hend⟩ := ih hrun (by omega)
      refine ⟨st'', ?_, hend⟩
      rw [writeLoop, if_pos hbusy, hturn]
      exact hloop
    · exact ⟨st, by rw [writeLoop, if_neg hbusy], h, hbusy⟩

end Running

/-! ## Calls -/

def Erasure.blockContent (e : Erasure) (done : List (List UInt8)) (rest : List UInt8) (k : Nat) :
    List UInt8 :=
  done.flatMap (e.blockPart k) ++ if k < e.N then e.part k rest else []

variable {done : List (List UInt8)}

theorem content_eq_blockContent {rest : List UInt8} {o : Nat} (ho : o < e.N) (k : Nat) :
    e.content stale done rest o k = e.blockContent done rest k := by
  unfold content openPart blockContent
  congr 1
  split
  · rfl
  · exact if_neg (by omega)

structure Represents (e : Erasure) (data : List UInt8) (h : Handle) : Prop where
  subOffset : h.subOffset = data.length
  blocks : ∃ done rest, data = done.flatten ++ rest ∧
    (∀ stripe ∈ done, stripe.length = e.stripesz) ∧ rest.length < e.stripesz ∧
    ∀ k < e.N + e.E, Settled e.ioq.splitThreshold e.partsz (h.iob k) (h.queued k)
      (e.blockContent done rest k)
  unused : ∀ k, e.N + e.E ≤ k → h.iob k = none ∧ h.queued k = []

namespace Represents

variable {data : List UInt8} {h h' : Handle}

theorem stripes_unique {done done' : List (List UInt8)} {rest rest' : List UInt8}
    (heq : done.flatten ++ rest = done'.flatten ++ rest')
    (hdone : ∀ stripe ∈ done, stripe.length = e.stripesz)
    (hdone' : ∀ stripe ∈ done', stripe.length = e.stripesz) (hrest : rest.length < e.stripesz)
    (hrest' : rest'.length < e.stripesz) : done = done' ∧ rest = rest' := by
  have hlen := congrArg List.length heq
  rw [length_append, length_append, length_flatten_eq hdone,
    length_flatten_eq hdone'] at hlen
  have hcnt : done.length = done'.length := by
    have hpos := stripesz_pos (e := e)
    calc done.length = (done.length * e.stripesz + rest.length) / e.stripesz := by
          rw [Nat.mul_comm, Nat.mul_add_div hpos, Nat.div_eq_of_lt hrest, Nat.add_zero]
      _ = (done'.length * e.stripesz + rest'.length) / e.stripesz := by rw [hlen]
      _ = done'.length := by
          rw [Nat.mul_comm, Nat.mul_add_div hpos, Nat.div_eq_of_lt hrest', Nat.add_zero]
  exact flatten_append_inj hcnt hdone hdone' heq

theorem unique (hd : Represents e data h) (hd' : Represents e data h') :
    h.iob = h'.iob ∧ h.queued = h'.queued ∧ h.subOffset = h'.subOffset := by
  obtain ⟨done, rest, hdata, hdone, hrest, hblk⟩ := hd.blocks
  obtain ⟨done', rest', hdata', hdone', hrest', hblk'⟩ := hd'.blocks
  obtain ⟨rfl, rfl⟩ := stripes_unique (hdata.symm.trans hdata') hdone hdone' hrest hrest'
  have hboth : ∀ k, h.iob k = h'.iob k ∧ h.queued k = h'.queued k := by
    intro k
    by_cases hk : k < e.N + e.E
    · exact (hblk k hk).unique (hblk' k hk)
    · have hnone := hd.unused k (Nat.not_lt.1 hk)
      have hnone' := hd'.unused k (Nat.not_lt.1 hk)
      exact ⟨hnone.1.trans hnone'.1.symm, hnone.2.trans hnone'.2.symm⟩
  exact ⟨funext fun k => (hboth k).1, funext fun k => (hboth k).2,
    hd.subOffset.trans hd'.subOffset.symm⟩

theorem eq_of_totsz (hd : Represents e data h) (hd' : Represents e data h')
    (hsize : h.totsz = h'.totsz) : h = h' := by
  obtain ⟨hiob, hqueued, hoff⟩ := hd.unique hd'
  obtain ⟨iob, queued, subOffset, totsz⟩ := h
  obtain ⟨iob', queued', subOffset', totsz'⟩ := h'
  dsimp only at hiob hqueued hoff hsize
  rw [hiob, hqueued, hoff, hsize]

theorem init : Represents e [] .init where
  subOffset := rfl
  blocks := by
    refine ⟨[], [], rfl, by simp, stripesz_pos, fun k hk => ?_⟩
    have hnil : e.blockContent [] [] k = [] := by
      unfold blockContent
      split
      · exact part_eq_nil (Nat.zero_le _)
      · rfl
    rw [hnil]
    exact settled_nil splitThreshold_pos
  unused k _ := ⟨rfl, rfl⟩

theorem running (hd : Represents e data h) (stale : UInt8) (hsize : h.totsz = data.length)
    (buffer : List UInt8) :
    Running e stale (data ++ buffer)
      { handle := h, outblock := h.subOffset % e.stripesz / e.partsz
        toWrite := e.partsz - h.subOffset % e.partsz, buffer := buffer } := by
  obtain ⟨done, rest, rfl, hdone, hrest, hblk⟩ := hd.blocks
  have hlen : (done.flatten ++ rest).length = done.length * e.stripesz + rest.length := by
    rw [length_append, length_flatten_eq hdone]
  have hoff := hd.subOffset.trans hlen
  have hstrp : h.subOffset % e.stripesz = rest.length := by
    rw [hoff, Nat.mul_comm, Nat.mul_add_mod, Nat.mod_eq_of_lt hrest]
  have hpart : h.subOffset % e.partsz = rest.length % e.partsz := by
    rw [hoff, stripesz, ← Nat.mul_assoc, Nat.mul_comm _ e.partsz, Nat.mul_add_mod]
  have ho : rest.length / e.partsz < e.N := Nat.div_lt_of_lt_mul (by rwa [Nat.mul_comm])
  have hlt : rest.length / e.partsz < e.N + e.E := Nat.lt_add_right _ ho
  have hset : ∀ k < e.N + e.E, Settled e.ioq.splitThreshold e.partsz (h.iob k) (h.queued k)
      (e.content stale done rest (rest.length / e.partsz) k) := by
    intro k hk
    rw [content_eq_blockContent ho]
    exact hblk k hk
  rw [hstrp, hpart]
  refine ⟨hlt, done, rest, rest.length % e.partsz, ?_, rfl⟩
  exact
    { done_length := hdone
      outblock_le := hlt.le
      rest_length := by
        rw [Nat.min_eq_left ho.le, Nat.mul_comm]
        exact (Nat.div_add_mod _ _).symm
      f_lt := Nat.mod_lt _ e.partsz_pos
      f_data := fun hN => absurd ho (Nat.not_lt.2 hN)
      subOffset := hoff
      totsz := hsize.trans hlen
      toWrite := fun _ => rfl
      settled := fun k hk _ => hset k hk
      holds := fun _ => (hset _ hlt).toHolds
      fits := fun _ => le_blocksz ((hset _ hlt).length_le e.partsz_pos)
      current := fun _ _ => hset _ hlt
      unused := hd.unused }

theorem neWrite (hd : Represents e data h) (stale : UInt8) (hsize : h.totsz = data.length)
    {buffer : List UInt8} (hbuffer : buffer.length ≤ uintMax) :
    ∃ h', neWrite e stale h buffer = some h' ∧ Represents e (data ++ buffer) h' ∧
      h'.totsz = (data ++ buffer).length := by
  obtain ⟨st, hloop, ⟨ho, done, rest, f, hwr, hdata⟩, hidle⟩ :=
    (hd.running stale hsize buffer).loop _ (Nat.lt_succ_self _)
  refine ⟨st.handle, ?_, ?_⟩
  · unfold Ne.neWrite
    rw [if_neg (Nat.not_lt.2 hbuffer)]
    dsimp only
    rw [hloop]
    rfl
  · obtain ⟨hnil, hN⟩ := not_or.1 hidle
    rw [Classical.not_not.1 hnil, List.append_nil] at hdata
    have hlt := Nat.not_le.1 hN
    have hlen : data.length + buffer.length = done.length * e.stripesz + rest.length := by
      rw [← length_append, ← hdata, length_append, length_flatten_eq hwr.done_length]
    have hrest := hwr.rest_length
    have hf := hwr.f_lt
    have hmul : (st.outblock + 1) * e.partsz ≤ e.stripesz := Nat.mul_le_mul_right _ hlt
    rw [Nat.succ_mul] at hmul
    rw [Nat.min_eq_left hlt.le] at hrest
    refine ⟨⟨?_, ⟨done, rest, hdata.symm, hwr.done_length, by omega, ?_⟩, hwr.unused⟩, ?_⟩
    · rw [hwr.subOffset, length_append, hlen]
    · intro k hk
      rw [show e.blockContent done rest k = e.content stale done rest st.outblock k from
        (content_eq_blockContent hlt k).symm]
      by_cases hkeq : k = st.outblock
      · subst hkeq
        exact hwr.current hk (.inr hidle)
      · exact hwr.settled k hk hkeq
    · rw [hwr.totsz, length_append, hlen]

theorem neWrites (stale : UInt8) {buffers : List (List UInt8)}
    (hbuffers : ∀ buffer ∈ buffers, buffer.length ≤ uintMax) :
    ∀ {data h}, Represents e data h → h.totsz = data.length →
      ∃ h', neWrites e stale h buffers = some h' ∧ Represents e (data ++ buffers.flatten) h' ∧
        h'.totsz = (data ++ buffers.flatten).length := by
  induction buffers with
  | nil =>
    intro data h hd hsize
    refine ⟨h, rfl, ?_⟩
    rw [flatten_nil, List.append_nil]
    exact ⟨hd, hsize⟩
  | cons buffer buffers ih =>
    intro data h hd hsize
    obtain ⟨h₁, hcall, hd₁, hsize₁⟩ := hd.neWrite stale hsize (hbuffers buffer (mem_cons_self ..))
    obtain ⟨h₂, hcalls, hd₂, hsize₂⟩ :=
      ih (fun b hb => hbuffers b (mem_cons_of_mem _ hb)) hd₁ hsize₁
    rw [flatten_cons, ← append_assoc]
    refine ⟨h₂, ?_, hd₂, hsize₂⟩
    unfold Ne.neWrites at hcalls ⊢
    rw [foldlM_cons, hcall]
    exact hcalls

end Represents

/-! ## Closing -/

theorem terminateThread_spec (fuel : Nat) :
    ∀ {iob : List UInt8}, iob.length < fuel → iob.length ≤ e.ioq.blocksz →
      ∃ blocks, terminateThread e fuel iob = some blocks ∧ blocks.flatten = iob := by
  induction fuel with
  | zero => exact fun hfuel => absurd hfuel (Nat.not_lt_zero _)
  | succ fuel ih =>
    intro iob hfuel hfits
    have hpos := splitThreshold_pos (e := e)
    unfold terminateThread reserveIoblock
    dsimp only
    by_cases hroom : iob.length < e.ioq.splitThreshold
    · rw [if_pos hroom]
      refine ⟨_, rfl, ?_⟩
      cases iob <;> simp
    · rw [if_neg hroom, if_neg (by simp [hfits])]
      have hlen : (iob.drop e.ioq.splitThreshold).length = iob.length - e.ioq.splitThreshold :=
        length_drop
      obtain ⟨blocks, hblk, hflat⟩ := ih (show (iob.drop e.ioq.splitThreshold).length < fuel by omega)
        (by omega)
      refine ⟨iob.take e.ioq.splitThreshold :: blocks, by simp only [hblk, Option.map_some], ?_⟩
      rw [flatten_cons, hflat, take_append_drop]

/-- The zeros that are missing in the last stripe of a string. -/
def Erasure.fillSize (e : Erasure) (len : Nat) : Nat :=
  if len % e.stripesz = 0 then 0 else e.stripesz - len % e.stripesz

theorem fillSize_spec (len : Nat) :
    e.fillSize len < e.stripesz ∧ (len + e.fillSize len) % e.stripesz = 0 := by
  have hpos := stripesz_pos (e := e)
  have hmod := Nat.mod_lt len hpos
  unfold fillSize
  split
  · exact ⟨hpos, ‹_›⟩
  · rename_i hpartial
    refine ⟨by omega, ?_⟩
    have hdiv := Nat.div_add_mod len e.stripesz
    rw [show len + (e.stripesz - len % e.stripesz) = e.stripesz * (len / e.stripesz) + e.stripesz by
      omega]
    simp

def Erasure.stripes (e : Erasure) (data : List UInt8) : List (List UInt8) :=
  (List.range (data.length / e.stripesz)).map fun s => (data.drop (s * e.stripesz)).take e.stripesz

theorem stripes_flatten (hdone : ∀ stripe ∈ done, stripe.length = e.stripesz) :
    e.stripes done.flatten = done := by
  have hpos := stripesz_pos (e := e)
  have hcnt : done.flatten.length / e.stripesz = done.length := by
    rw [length_flatten_eq hdone, Nat.mul_div_cancel _ hpos]
  unfold stripes
  rw [hcnt]
  clear hcnt
  induction done with
  | nil => rfl
  | cons stripe done ih =>
    have hlen := hdone stripe (mem_cons_self ..)
    have htail := ih fun s hs => hdone s (mem_cons_of_mem _ hs)
    rw [length_cons, range_succ_eq_map, map_cons, map_map, flatten_cons]
    congr 1
    · rw [Nat.zero_mul, drop_zero, ← hlen, take_left]
    · refine Eq.trans (map_congr_left fun s _ => ?_) htail
      rw [Function.comp_apply, Nat.succ_mul, Nat.add_comm, ← drop_drop, drop_left' hlen]

namespace Represents

variable {data : List UInt8} {h : Handle}

variable {k : Nat}

theorem remaining (hd : Represents e data h) (hk : k < e.N + e.E) :
    ∃ blocks, remaining e h k = some blocks ∧ blocks.flatten = (h.iob k).getD [] := by
  obtain ⟨done, rest, -, -, -, hblk⟩ := hd.blocks
  have hfits := le_blocksz ((hblk k hk).length_le e.partsz_pos)
  unfold Ne.remaining
  cases hcur : h.iob k with
  | none => exact ⟨[], rfl, rfl⟩
  | some iob =>
    rw [hcur] at hfits
    exact terminateThread_spec _ (Nat.lt_succ_self _) hfits

theorem blocks_of_dvd (hd : Represents e data h) (hdvd : data.length % e.stripesz = 0) (hk : k < e.N + e.E) :
    (h.queued k).flatten ++ (h.iob k).getD [] = (e.stripes data).flatMap (e.blockPart k) := by
  obtain ⟨done, rest, hdata, hdone, hrest, hblk⟩ := hd.blocks
  have hnil : rest = [] := by
    rw [hdata, length_append, length_flatten_eq hdone, Nat.mul_comm, Nat.mul_add_mod,
      Nat.mod_eq_of_lt hrest] at hdvd
    exact eq_nil_of_length_eq_zero hdvd
  subst hnil
  have hpart : (if k < e.N then e.part k [] else []) = [] := by
    split
    · exact part_eq_nil (Nat.zero_le _)
    · rfl
  rw [hdata, List.append_nil, stripes_flatten hdone, ← (hblk k hk).content_eq, blockContent,
    hpart, List.append_nil]

theorem zeroFill (hd : Represents e data h) (stale : UInt8) (hsize : h.totsz = data.length) :
    (uintMax < e.fillSize data.length → zeroFill e stale h = none) ∧
      (e.fillSize data.length ≤ uintMax → ∃ filled, zeroFill e stale h = some filled ∧
        Represents e (data ++ replicate (e.fillSize data.length) 0) filled ∧
        filled.totsz = data.length) := by
  unfold Ne.zeroFill fillSize
  rw [hsize]
  dsimp only
  split
  · refine ⟨fun hlt => absurd hlt (Nat.not_lt_zero _), fun _ => ⟨h, rfl, ?_, hsize⟩⟩
    simpa using hd
  · refine ⟨fun hlt => ?_, fun hle => ?_⟩
    · unfold Ne.neWrite
      rw [if_pos (by simpa using hlt)]
      rfl
    · obtain ⟨filled, hcall, hfilled, hfilledsize⟩ := hd.neWrite stale hsize
        (show (replicate (e.stripesz - data.length % e.stripesz) (0 : UInt8)).length ≤ uintMax by
          simpa using hle)
      refine ⟨{ filled with totsz := filled.totsz - (e.stripesz - data.length % e.stripesz) },
        by rw [hcall]; rfl, ⟨hfilled.subOffset, hfilled.blocks, hfilled.unused⟩, ?_⟩
      rw [length_append, length_replicate] at hfilledsize
      dsimp only
      omega

/-- What the memory held does not matter to the zero-fill. -/
theorem neClose_stale (hd : Represents e data h) (hsize : h.totsz = data.length)
    (stale stale' : UInt8) : Ne.neClose e stale h = Ne.neClose e stale' h := by
  have hfilled : Ne.zeroFill e stale h = Ne.zeroFill e stale' h := by
    obtain ⟨href, hfill⟩ := hd.zeroFill stale hsize
    obtain ⟨href', hfill'⟩ := hd.zeroFill stale' hsize
    by_cases hle : e.fillSize data.length ≤ uintMax
    · obtain ⟨filled, hcall, hd₁, hsize₁⟩ := hfill hle
      obtain ⟨filled', hcall', hd₂, hsize₂⟩ := hfill' hle
      rw [hcall, hcall', hd₁.eq_of_totsz hd₂ (hsize₁.trans hsize₂.symm)]
    · rw [href (Nat.not_le.1 hle), href' (Nat.not_le.1 hle)]
  unfold Ne.neClose
  rw [hfilled]

theorem neClose (hd : Represents e data h) (stale : UInt8) (hsize : h.totsz = data.length) :
    if e.fillSize data.length ≤ uintMax then
      ∃ closed, neClose e stale h = some closed ∧ closed.totsz = data.length ∧
        closed.minfoTotsz = data.length ∧
        ∀ k < e.N + e.E, (closed.queued k).flatten =
          (e.stripes (data ++ replicate (e.fillSize data.length) 0)).flatMap (e.blockPart k)
    else neClose e stale h = none := by
  obtain ⟨href, hfill⟩ := hd.zeroFill stale hsize
  split
  · rename_i hle
    obtain ⟨filled, hcall, hfilled, hfilledsize⟩ := hfill hle
    have hall : ((List.range (e.N + e.E)).all fun k => (Ne.remaining e filled k).isSome) = true := by
      apply List.all_eq_true.2
      intro k hk
      obtain ⟨blocks, hblk, -⟩ := hfilled.remaining (List.mem_range.1 hk)
      rw [hblk]
      rfl
    unfold Ne.neClose
    rw [hcall, Option.bind_some, if_pos hall]
    refine ⟨_, rfl, hfilledsize, hsize, ?_⟩
    intro k hk
    have hdvd := (fillSize_spec (e := e) data.length).2
    have hlen : (data ++ replicate (e.fillSize data.length) (0 : UInt8)).length =
        data.length + e.fillSize data.length := by
      rw [length_append, length_replicate]
    obtain ⟨blocks, hblk, hflat⟩ := hfilled.remaining hk
    rw [← hlen] at hdvd
    rw [← hfilled.blocks_of_dvd hdvd hk, ← hflat]
    dsimp only
    rw [hblk, Option.getD_some, flatten_append]
  · rename_i hlt
    unfold Ne.neClose
    rw [href (Nat.not_le.1 hlt)]
    rfl

end Represents

/-- Two ways to cut a string into calls leave the same handle: the same ioblocks were queued, the
same bytes wait, and the size is that of the string.  Closing it queues for every block the parts of
the stripes of the string, of which zeros complete the last one, and leaves the size alone; it only
fails if the zeros are too many for one call. -/
theorem neClose_neWrites (stale stale' : UInt8) {buffers buffers' : List (List UInt8)}
    (hsame : buffers.flatten = buffers'.flatten) (hbuffers : ∀ buffer ∈ buffers, buffer.length ≤ uintMax)
    (hbuffers' : ∀ buffer ∈ buffers', buffer.length ≤ uintMax) :
    ∃ h, neWrites e stale .init buffers = some h ∧ neWrites e stale' .init buffers' = some h ∧
      h.totsz = buffers.flatten.length ∧
      e.fillSize buffers.flatten.length < e.stripesz ∧
      (buffers.flatten.length + e.fillSize buffers.flatten.length) % e.stripesz = 0 ∧
      ∃ outcome, (∀ stale, neClose e stale h = outcome) ∧
        if e.fillSize buffers.flatten.length ≤ uintMax then
          ∃ closed, outcome = some closed ∧ closed.totsz = buffers.flatten.length ∧
            closed.minfoTotsz = buffers.flatten.length ∧
            ∀ k < e.N + e.E, (closed.queued k).flatten =
              (e.stripes (buffers.flatten ++
                replicate (e.fillSize buffers.flatten.length) 0)).flatMap (e.blockPart k)
        else outcome = none := by
  obtain ⟨h, hcalls, hd, hsize⟩ := Represents.init.neWrites stale hbuffers rfl
  obtain ⟨h', hcalls', hd', hsize'⟩ := (Represents.init (e := e)).neWrites stale' hbuffers' rfl
  rw [nil_append] at hd hd' hsize hsize'
  rw [← hsame] at hd' hsize'
  have heq : h = h' := hd.eq_of_totsz hd' (hsize.trans hsize'.symm)
  rw [← heq] at hcalls'
  obtain ⟨hlt, hdvd⟩ := fillSize_spec (e := e) buffers.flatten.length
  exact ⟨h, hcalls, hcalls', hsize, hlt, hdvd, neClose e stale h,
    fun other => hd.neClose_stale hsize other stale, hd.neClose stale hsize⟩

def sampleErasure : Erasure :=
  { N := 2, E := 1, partsz := 3, iosz := 8, encode := fun _ bytes => bytes.foldl (· ^^^ ·) 0
    N_pos := by decide, partsz_pos := by decide, iosz_gt := by decide }

theorem sampleErasure_calls :
    ∃ h, neWrites sampleErasure 0 .init [[1, 2], [], [3, 4, 5, 6, 7]] = some h ∧
      neWrites sampleErasure 9 .init [[1, 2, 3, 4], [5, 6], [7]] = some h := by
  obtain ⟨h, hcalls, hcalls', -⟩ := neClose_neWrites (e := sampleErasure) 0 9
    (show [[1, 2], [], [3, 4, 5, 6, 7]].flatten = [[1, 2, 3, 4], [5, 6], [7]].flatten from rfl)
    (by decide) (by decide)
  exact ⟨h, hcalls, hcalls'⟩

/-- The size is seven, five zeros complete the second stripe, and the parity is over them too. -/
example : ((neWrites sampleErasure 0 .init [[1, 2, 3, 4], [5, 6], [7]]).bind
    (neClose sampleErasure 0)).map (fun closed => (closed.totsz, (List.range 3).map closed.queued)) =
      some (7, [[[1, 2, 3, 7], [0, 0]], [[4, 5, 6, 0], [0, 0]], [[5, 7, 5, 7], [0, 0]]]) := by
  decide +kernel

end Marfs.Ne
