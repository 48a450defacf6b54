import Marfs.Ne.ReadStripes

/-!
# Decode tables

The tables for the flagged blocks below `m` regenerate the data parts among the flagged blocks below any
other `n`, as long as both leave enough sources: the sources are the same, and so are the rows of the data
parts.
-/

namespace Marfs.Ne.Stripes

open Marfs.Erasure List

/-! ## Flags -/

def flagged (prevInErr : List Bool) (m : Nat) : List Nat :=
  (List.range m).filter fun b => prevInErr.getD b false

/-- The blocks below `m` that are not. -/
def unflagged (prevInErr : List Bool) (m : Nat) : List Nat :=
  (List.range m).filter fun b => !prevInErr.getD b false

section Flags

variable {prevInErr : List Bool} {m n : Nat}

theorem mem_flagged {b : Nat} : b ∈ flagged prevInErr m ↔ b < m ∧ prevInErr.getD b false = true := by
  rw [flagged, mem_filter, mem_range]

theorem mem_unflagged {b : Nat} : b ∈ unflagged prevInErr m ↔ b < m ∧ prevInErr.getD b false = false := by
  rw [unflagged, mem_filter, mem_range, Bool.not_eq_true']

theorem nodup_flagged : (flagged prevInErr m).Nodup := List.nodup_range.filter _

theorem prefix_range_le (h : m ≤ n) : List.range m <+: List.range n := by
  refine ⟨(List.range (n - m)).map (m + ·), ?_⟩
  rw [← range_add, Nat.add_sub_cancel' h]

variable (prevInErr) in
theorem prefix_flagged_le (h : m ≤ n) : flagged prevInErr m <+: flagged prevInErr n :=
  (prefix_range_le h).filter _

variable (prevInErr) in
theorem prefix_unflagged_le (h : m ≤ n) : unflagged prevInErr m <+: unflagged prevInErr n :=
  (prefix_range_le h).filter _

variable (prevInErr m) in
theorem length_flagged_add : (flagged prevInErr m).length + (unflagged prevInErr m).length = m := by
  have hspl : (List.range m).length = _ :=
    length_eq_length_filter_add fun b => prevInErr.getD b false
  rw [length_range] at hspl
  exact hspl.symm

theorem flagged_append (h : m ≤ n) : flagged prevInErr n = flagged prevInErr m ++
    ((List.range (n - m)).map (m + ·)).filter fun b => prevInErr.getD b false := by
  rw [flagged, flagged, ← filter_append, ← range_add, Nat.add_sub_cancel' h]

theorem getElem?_flagged_of_lt {p e : Nat} (h : m ≤ n) (hp : (flagged prevInErr n)[p]? = some e)
    (he : e < m) : (flagged prevInErr m)[p]? = some e := by
  rw [flagged_append h] at hp
  by_cases hlt : p < (flagged prevInErr m).length
  · rwa [List.getElem?_append_left hlt] at hp
  · rw [List.getElem?_append_right (Nat.le_of_not_lt hlt)] at hp
    have hmem := (List.mem_filter.1 (mem_of_getElem? hp)).1
    obtain ⟨b, -, rfl⟩ := List.mem_map.1 hmem
    omega

theorem flagged_eq_iff (h : m ≤ n) : flagged prevInErr n = flagged prevInErr m ↔
    ∀ b, b < n → prevInErr.getD b false = true → b < m := by
  constructor
  · intro heq b hb hflag
    have hmem : b ∈ flagged prevInErr n := mem_flagged.2 ⟨hb, hflag⟩
    rw [heq] at hmem
    exact (mem_flagged.1 hmem).1
  · intro hbelow
    rw [flagged_append h, append_right_eq_self, filter_eq_nil_iff]
    intro b hb hflag
    obtain ⟨c, hc, rfl⟩ := List.mem_map.1 hb
    have hlt := List.mem_range.1 hc
    have := hbelow (m + c) (by omega) hflag
    omega

theorem take_prefix_eq {α : Type} {l l' : List α} (h : l <+: l') {k : Nat} (hk : k ≤ l.length) :
    l'.take k = l.take k := by
  obtain ⟨rest, rfl⟩ := h
  exact take_append_of_le_length hk

end Flags

/-! ## The sources -/

theorem survivors_eq (errs : List Nat) : ∀ fuel k r,
    survivors errs fuel k r = ((range' r fuel).filter fun b => decide (b ∉ errs)).take k := by
  intro fuel
  induction fuel with
  | zero =>
    intro k r
    rw [survivors, range'_zero, filter_nil, take_nil]
  | succ fuel ih =>
    intro k r
    cases k with
    | zero => rw [survivors, take_zero]
    | succ k =>
      rw [survivors, range'_succ]
      by_cases hr : r ∈ errs
      · rw [if_pos hr, ih, filter_cons_of_neg (by simpa using hr)]
      · rw [if_neg hr, ih, filter_cons_of_pos (by simpa using hr), take_succ_cons]

/-- Where enough blocks below `m` are not flagged, the sources are the first blocks that are not, whatever
lies behind `m`. -/
theorem survivors_flagged {prevInErr : List Bool} {k m n : Nat} (hcnt : k + (flagged prevInErr m).length ≤ m)
    (hm : m ≤ n) : survivors (flagged prevInErr m) n k 0 = (unflagged prevInErr n).take k := by
  have hlen := length_flagged_add prevInErr m
  have hbelow : (List.range m).filter (fun b => decide (b ∉ flagged prevInErr m)) =
      unflagged prevInErr m := by
    apply filter_congr
    intro b hb
    have hiff : b ∈ flagged prevInErr m ↔ _ := mem_flagged
    rw [and_iff_right (List.mem_range.1 hb)] at hiff
    cases hflag : prevInErr.getD b false with
    | true => simp [hiff.2 hflag]
    | false =>
      rw [hflag] at hiff
      simp [hiff]
  have hpre := (prefix_range_le hm).filter fun b => decide (b ∉ flagged prevInErr m)
  rw [hbelow] at hpre
  rw [survivors_eq, ← range_eq_range', take_prefix_eq hpre (by omega),
    take_prefix_eq (prefix_unflagged_le prevInErr hm) (by omega)]

section Sources

variable {N n m : Nat} {prevInErr : List Bool}

theorem source_mem (hcnt : N + (flagged prevInErr m).length ≤ m) (hm : m ≤ n) (i : Fin N) :
    indexOf ((unflagged prevInErr n).take N) N i ∈ unflagged prevInErr m := by
  have hlen := length_flagged_add prevInErr m
  rw [take_prefix_eq (prefix_unflagged_le prevInErr hm) (by omega)]
  have hi : i.val < ((unflagged prevInErr m).take N).length := by
    rw [length_take]
    omega
  rw [indexOf, List.getD_eq_getElem?_getD, List.getElem?_eq_getElem hi, Option.getD_some]
  exact mem_of_mem_take (getElem_mem hi)

theorem source_injective (hcnt : N + (flagged prevInErr m).length ≤ m) (hm : m ≤ n) :
    Function.Injective (indexOf ((unflagged prevInErr n).take N) N) := by
  have hlen := length_flagged_add prevInErr m
  have hlonger := (prefix_unflagged_le prevInErr hm).length_le
  have hnodup : ((unflagged prevInErr n).take N).Nodup :=
    (List.nodup_range.filter _).sublist (take_sublist _ _)
  have hi (i : Fin N) : i.val < ((unflagged prevInErr n).take N).length := by
    rw [length_take]
    omega
  intro i j hij
  rw [indexOf, indexOf, List.getD_eq_getElem?_getD, List.getD_eq_getElem?_getD,
    List.getElem?_eq_getElem (hi i), List.getElem?_eq_getElem (hi j)] at hij
  exact Fin.ext (hnodup.getElem_inj_iff.1 hij)

end Sources

/-! ## The erasure library -/

/-- The matrices of the erasure library: the first rows are those of the identity, any `N` of the first `n`
rows are invertible, and an inverse is found where there is one. -/
structure Isal.Lawful {F : Type} {N : Nat} [Field F] (isal : Isal F N) (n : Nat) : Prop where
  systematic : Systematic isal.encode
  mds : Mds isal.encode n
  invert_mul : ∀ b c, isal.invert b = some c → c * b = 1
  invert_isUnit : ∀ b, IsUnit b → ∃ c, isal.invert b = some c

section Tables

variable {F V : Type} {N : Nat} [Field F] [AddCommGroup V] [Module F V] {isal : Isal F N} {epat : Epat}
  {prevInErr : List Bool} {m : Nat}

theorem exists_genTables (hlaw : isal.Lawful (N + epat.E)) (hcnt : N + (flagged prevInErr m).length ≤ m)
    (hm : m ≤ N + epat.E) : ∃ tables, genTables isal epat (flagged prevInErr m) = some tables := by
  have hunit := hlaw.mds _ (source_injective hcnt hm) fun i =>
    Nat.lt_of_lt_of_le (mem_unflagged.1 (source_mem hcnt hm i)).1 hm
  obtain ⟨inv, hinv⟩ := hlaw.invert_isUnit _ hunit
  rw [genTables, survivors_flagged hcnt hm, hinv]
  exact ⟨_, rfl⟩

theorem genTables_errs {errs : List Nat} {tables : Tables F N}
    (h : genTables isal epat errs = some tables) : tables.errs = errs := by
  obtain ⟨inv, -, rfl⟩ := Option.map_eq_some_iff.1 h
  rfl

theorem genTables_decodeIndex {tables : Tables F N}
    (hgen : genTables isal epat (flagged prevInErr m) = some tables)
    (hcnt : N + (flagged prevInErr m).length ≤ m) (hm : m ≤ N + epat.E) :
    tables.decodeIndex = (unflagged prevInErr (N + epat.E)).take N := by
  obtain ⟨inv, -, rfl⟩ := Option.map_eq_some_iff.1 hgen
  exact survivors_flagged hcnt hm

theorem ecEncodeData_flagged {n : Nat} {tables : Tables F N} (hlaw : isal.Lawful (N + epat.E))
    (hgen : genTables isal epat (flagged prevInErr m) = some tables)
    (hcnt : N + (flagged prevInErr m).length ≤ m) (hn : N ≤ n) {data : Fin N → V} {recov : Fin N → V}
    (hrecov : ∀ i, recov i = part isal.encode data (indexOf tables.decodeIndex N i)) {p e : Nat}
    (hp : (flagged prevInErr n)[p]? = some e) (he : e < N) :
    (ecEncodeData tables.gTbls recov (flagged prevInErr n).length)[p]? =
      some (part isal.encode data e) := by
  have hlt : p < (flagged prevInErr n).length := (List.getElem?_eq_some_iff.1 hp).1
  have herr : (flagged prevInErr m)[p]? = some e := by
    obtain ⟨rest, hrest⟩ := prefix_flagged_le prevInErr (show N ≤ m by omega)
    have hdata := getElem?_flagged_of_lt hn hp he
    rw [← hrest, List.getElem?_append_left (List.getElem?_eq_some_iff.1 hdata).1]
    exact hdata
  have hlt' : p < (flagged prevInErr m).length := (List.getElem?_eq_some_iff.1 herr).1
  obtain ⟨inv, hinv, rfl⟩ := Option.map_eq_some_iff.1 hgen
  have hrow := recoverRow_smul hlaw.systematic (hlaw.invert_mul _ _ hinv) data e
  rw [ecEncodeData, List.getElem?_map, List.getElem?_take_of_lt hlt,
    List.getElem?_append_left (by simpa using hlt'), List.getElem?_map, herr]
  simp only [Option.map_some, hrecov]
  rw [← hrow]

end Tables

end Marfs.Ne.Stripes
