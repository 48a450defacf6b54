import Marfs.Rman.Resourceinput

/-!
# The barrier of the resource input

Every input is passed out exactly once (`Inputs.Consumed`), and the end of the input is a barrier for
its producers (`Inputs.Barrier`): the first of them to finish does so when none of them has anything
left and there is nothing to get.

The barrier rests on the one counter that `resourceinput_term` uses twice.  While `prepterm` is below
`2` it counts the clients that are not waiting yet; from there on, those that are gone (`Synced`).
-/

namespace Marfs.Rman

open List

/-! ## Passing out -/

namespace Resourceinput

variable {opens : Nat → Bool} {n refindex : Nat}

theorem nextdir_some {found : Nat} (h : (nextdir opens n refindex).1 = some found) :
    refindex ≤ found ∧ found < refindex + n ∧ (nextdir opens n refindex).2 = found + 1 ∧
      opens found = true ∧ ∀ index, refindex ≤ index → index < found → opens index = false := by
  induction n generalizing refindex with
  | zero => cases h
  | succ n ih =>
    unfold nextdir at h ⊢
    split at h
    next hopens =>
      cases h
      rw [if_pos hopens]
      exact ⟨Nat.le_refl _, by omega, rfl, hopens, fun index h₁ h₂ => absurd h₁ (by omega)⟩
    next hopens =>
      rw [if_neg hopens]
      obtain ⟨h₁, h₂, h₃, h₄, h₅⟩ := ih h
      refine ⟨by omega, by omega, h₃, h₄, fun index h₆ h₇ => ?_⟩
      rcases Nat.eq_or_lt_of_le h₆ with rfl | h₆
      · exact Bool.eq_false_iff.2 hopens
      · exact h₅ index h₆ h₇

theorem nextdir_none (h : (nextdir opens n refindex).1 = none) :
    (nextdir opens n refindex).2 = refindex + n ∧
      ∀ index, refindex ≤ index → index < refindex + n → opens index = false := by
  induction n generalizing refindex with
  | zero => exact ⟨rfl, fun index h₁ h₂ => absurd h₁ (by omega)⟩
  | succ n ih =>
    unfold nextdir at h ⊢
    split at h
    next => cases h
    next hopens =>
      rw [if_neg hopens]
      obtain ⟨h₁, h₂⟩ := ih h
      refine ⟨by omega, fun index h₃ h₄ => ?_⟩
      rcases Nat.eq_or_lt_of_le h₃ with rfl | h₃
      · exact Bool.eq_false_iff.2 hopens
      · exact h₂ index h₃ (by omega)

@[simp] theorem getnext_refmax (opens : Nat → Bool) (rin : Resourceinput) :
    (rin.getnext opens).1.refmax = rin.refmax := by unfold getnext; split <;> rfl

@[simp] theorem getnext_prepterm (opens : Nat → Bool) (rin : Resourceinput) :
    (rin.getnext opens).1.prepterm = rin.prepterm := by unfold getnext; split <;> rfl

@[simp] theorem getnext_clientcount (opens : Nat → Bool) (rin : Resourceinput) :
    (rin.getnext opens).1.clientcount = rin.clientcount := by unfold getnext; split <;> rfl

theorem getnext_cases (opens : Nat → Bool) (rin : Resourceinput) :
    (∃ nextop ops, rin.rlog = some (nextop :: ops) ∧ (rin.getnext opens).1.rlog = some ops ∧
      (rin.getnext opens).1.refindex = rin.refindex ∧ (rin.getnext opens).2 = .op nextop) ∨
    (rin.rlog.getD [] = [] ∧ (rin.getnext opens).1.rlog = none ∧
      ∃ found, rin.refindex ≤ found ∧ found < rin.refmax ∧
        (rin.getnext opens).1.refindex = found + 1 ∧ opens found = true ∧
        (∀ index, rin.refindex ≤ index → index < found → opens index = false) ∧
        (rin.getnext opens).2 = .dir found) ∨
    (rin.rlog.getD [] = [] ∧ (rin.getnext opens).1.Exhausted ∧
      (∀ index, rin.refindex ≤ index → index < rin.refmax → opens index = false) ∧
      (rin.getnext opens).2 = if rin.prepterm ≠ 0 then .prepare else .empty) := by
  have hle := rin.refindex_le
  unfold getnext
  split
  next nextop ops hlog => exact .inl ⟨nextop, ops, hlog, rfl, rfl, rfl⟩
  next hlog =>
    have hops : rin.rlog.getD [] = [] := by
      match hrlog : rin.rlog with
      | none => rfl
      | some [] => rfl
      | some (nextop :: ops) => exact absurd hrlog (hlog nextop ops)
    right
    cases hnext : (nextdir opens (rin.refmax - rin.refindex) rin.refindex).1 with
    | some found =>
      obtain ⟨h₁, h₂, h₃, h₄, h₅⟩ := nextdir_some hnext
      exact .inl ⟨hops, rfl, found, h₁, by omega, h₃, h₄, h₅, rfl⟩
    | none =>
      obtain ⟨h₁, h₂⟩ := nextdir_none hnext
      refine .inr ⟨hops, ⟨rfl, ?_⟩, fun index h₃ h₄ => h₂ index h₃ (by omega), rfl⟩
      dsimp only
      omega

theorem Exhausted.getnext {rin : Resourceinput} (h : rin.Exhausted) (opens : Nat → Bool) :
    (rin.getnext opens).1.Exhausted ∧
      (rin.getnext opens).2 = if rin.prepterm ≠ 0 then .prepare else .empty := by
  obtain ⟨hlog, hmax⟩ := h
  rcases getnext_cases opens rin with ⟨_, _, h₁, _⟩ | ⟨_, _, found, h₁, h₂, _⟩ | ⟨_, h₁, _, h₂⟩
  · rw [hlog] at h₁
    cases h₁
  · omega
  · exact ⟨h₁, h₂⟩

end Resourceinput

namespace Inputs

variable {stop : Nat} {s : Inputs}

theorem range'_split {start found : Nat} (h₁ : start ≤ found) (h₂ : found < stop) :
    range' start (stop - start) =
      range' start (found - start) ++ found :: range' (found + 1) (stop - (found + 1)) := by
  have hfound : start + (found - start) = found := by omega
  calc range' start (stop - start)
      = range' start (found - start + (stop - found)) := by congr 1; omega
    _ = range' start (found - start) ++ range' found (stop - found) := by
        rw [← range'_append_1, hfound]
    _ = range' start (found - start) ++ found :: range' (found + 1) (stop - (found + 1)) := by
        rw [← range'_succ]
        congr 2
        omega

@[simp] theorem skipped_index (opens : Nat → Bool) (refindex stop : Nat) :
    (skipped opens refindex stop).map Passed.index = range' refindex (stop - refindex) := by
  unfold skipped
  rw [map_map]
  exact map_id _

theorem skipped_receiver {opens : Nat → Bool} {refindex : Nat}
    (h : ∀ index, refindex ≤ index → index < stop → opens index = false) :
    ∀ passed ∈ skipped opens refindex stop, passed.receiver.isSome = passed.opened := by
  intro passed hmem
  obtain ⟨index, hidx, rfl⟩ := List.mem_map.1 hmem
  have := List.mem_range'_1.1 hidx
  exact (h index (by omega) (by omega)).symm

/-- What was set is what was passed out, in order, followed by what the input still holds; and an index
went to a producer if its directory was there. -/
structure Consumed (s : Inputs) : Prop where
  dirs : s.setdirs =
    s.passed.map Passed.index ++ range' s.rin.refindex (s.rin.refmax - s.rin.refindex)
  ops : s.setops = s.returned.map Prod.fst ++ s.rin.rlog.getD []
  receivers : ∀ passed ∈ s.passed, passed.receiver.isSome = passed.opened

/-- Nothing that was set is left. -/
theorem Consumed.all (hs : s.Consumed) (h : s.rin.Exhausted) :
    s.passed.map Passed.index = s.setdirs ∧ s.returned.map Prod.fst = s.setops := by
  obtain ⟨hlog, hmax⟩ := h
  constructor
  · rw [hs.dirs, hmax, Nat.sub_self, range'_zero, List.append_nil]
  · rw [hs.ops, hlog, Option.getD_none, List.append_nil]

theorem Consumed.getnext (hs : s.Consumed) (i : Nat) (producer : Producer) (opens : Nat → Bool) :
    (s.getnext i producer opens).Consumed := by
  have hle := s.rin.refindex_le
  obtain ⟨hdirs, hops, hrecv⟩ := hs
  rcases Resourceinput.getnext_cases opens s.rin with
    ⟨nextop, ops, hlog, hlog', hidx, hnext⟩ | ⟨hlog, hlog', found, h₁, h₂, hidx, hopen, hmiss, hnext⟩
      | ⟨hlog, ⟨hlog', hidx⟩, hmiss, hnext⟩
  · refine ⟨?_, ?_, ?_⟩
    · simp only [Inputs.getnext, hnext, hidx, dirsPassed, Resourceinput.getnext_refmax]
      simpa [skipped] using hdirs
    · simp only [Inputs.getnext, hnext, hlog', opsReturned]
      rw [hops, hlog]
      simp
    · simp only [Inputs.getnext, hnext, hidx, dirsPassed]
      simpa [skipped] using hrecv
  · refine ⟨?_, ?_, ?_⟩
    · simp only [Inputs.getnext, hnext, hidx, dirsPassed, Resourceinput.getnext_refmax]
      rw [hdirs, range'_split h₁ h₂, map_append, map_append, skipped_index, append_assoc,
        append_assoc]
      rfl
    · simp only [Inputs.getnext, hnext, hlog', opsReturned]
      rw [hops, hlog]
      simp
    · simp only [Inputs.getnext, hnext, dirsPassed]
      intro passed hmem
      rcases List.mem_append.1 hmem with hmem | hmem
      · exact hrecv passed hmem
      rcases List.mem_append.1 hmem with hmem | hmem
      · exact skipped_receiver hmiss passed hmem
      · cases List.mem_singleton.1 hmem
        exact hopen.symm
  · have hrefs : (s.rin.getnext opens).1.refindex = s.rin.refmax := by
      rw [hidx, Resourceinput.getnext_refmax]
    have hpass : dirsPassed opens i s.rin.refindex (s.rin.getnext opens).1 (s.rin.getnext opens).2 =
        skipped opens s.rin.refindex s.rin.refmax := by
      rw [hnext, ← hrefs]
      split <;> rfl
    have hret : opsReturned i (s.rin.getnext opens).2 = [] := by
      rw [hnext]
      split <;> rfl
    refine ⟨?_, ?_, ?_⟩
    · simp only [Inputs.getnext, hpass, hrefs, Resourceinput.getnext_refmax]
      rw [hdirs]
      simp
    · simp only [Inputs.getnext, hret, hlog']
      rw [hops, hlog]
      simp
    · simp only [Inputs.getnext, hpass]
      intro passed hmem
      rcases List.mem_append.1 hmem with hmem | hmem
      · exact hrecv passed hmem
      · exact skipped_receiver hmiss passed hmem

end Inputs

/-! ## Synchronizing -/

def Place.Allowed (prepterm : Nat) : Place → Prop
  | .producing | .updating => prepterm ≤ 1
  | .terminating diddec => prepterm = 1 ∨ prepterm = 2 ∧ diddec = true
  | .finished => 2 ≤ prepterm

def Master.Allowed (clients prepterm : Nat) : Master → Prop
  | .idle | .completing | .completed => prepterm = 0
  | .synchronizing origclientcount => prepterm = 1 ∧ origclientcount = clients
  | .exiting origclientcount => prepterm = 2 ∧ origclientcount = clients
  | .terminated => prepterm = 3

def placed (place : Place) (producers : List Producer) : Nat :=
  producers.countP fun producer => producer.place = place

variable {producers : List Producer} {place : Place}

theorem placed_set {i : Nat} {producer : Producer} (h : producers[i]? = some producer) (place : Place)
    (producer' : Producer) :
    placed place (producers.set i producer') + (if producer.place = place then 1 else 0) =
      placed place producers + (if producer'.place = place then 1 else 0) := by
  obtain ⟨hi, rfl⟩ := List.getElem?_eq_some_iff.1 h
  unfold placed
  rw [countP_set hi]
  by_cases hplc : producers[i].place = place
  · have : 0 < producers.countP fun producer => producer.place = place :=
      List.countP_pos_iff.2 ⟨_, getElem_mem hi, by simp [hplc]⟩
    simp [hplc]
    omega
  · simp [hplc]

theorem placed_eq_zero : placed place producers = 0 ↔ ∀ producer ∈ producers, producer.place ≠ place := by
  simp [placed, countP_eq_zero]

theorem placed_eq_length :
    placed place producers = producers.length ↔ ∀ producer ∈ producers, producer.place = place := by
  simp [placed, countP_eq_length]

theorem placed_le (place : Place) (producers : List Producer) :
    placed place producers ≤ producers.length := countP_le_length

/-- The input, its master and its producers agree on the phase of the termination, and the client
count is what the phase takes it for. -/
structure Synced (clients : Nat) (rin : Resourceinput) (master : Master)
    (producers : List Producer) : Prop where
  length : producers.length = clients
  places : ∀ producer ∈ producers, producer.place.Allowed rin.prepterm
  phase : master.Allowed clients rin.prepterm
  empty : ∀ producer ∈ producers, producer.place ≠ .producing → producer.Empty
  exhausted : rin.prepterm ≠ 0 ∨ master = .completed → rin.Exhausted
  waiting : rin.prepterm ≤ 1 → rin.clientcount + placed (.terminating true) producers = clients
  exited : 2 ≤ rin.prepterm → rin.clientcount = placed .finished producers

namespace Synced

variable {clients : Nat} {rin : Resourceinput} {master : Master} {producers : List Producer}

theorem init (refnodecount clients : Nat) :
    Synced clients (.init refnodecount clients) .idle (replicate clients {}) := by
  have hmem {producer : Producer} (h : producer ∈ replicate clients ({} : Producer)) :
      producer.place = .producing := by rw [eq_of_mem_replicate h]
  refine ⟨length_replicate, ?_, rfl, ?_, ?_, ?_, ?_⟩
  · intro producer h
    rw [hmem h]
    exact Nat.zero_le 1
  · intro producer h hplc
    exact absurd (hmem h) hplc
  · intro
    exact ⟨rfl, rfl⟩
  · intro
    have : placed (.terminating true) (replicate clients {}) = 0 :=
      placed_eq_zero.2 fun producer h => by rw [hmem h]; nofun
    rw [this]
    rfl
  · intro (hle : 2 ≤ 0)
    omega

theorem none_waiting (h : Synced clients rin master producers) (hprep : rin.prepterm = 0) :
    placed (.terminating true) producers = 0 := by
  refine placed_eq_zero.2 fun producer hmem hplc => ?_
  have := h.places producer hmem
  rw [hplc, hprep] at this
  rcases this with this | ⟨this, -⟩ <;> cases this

/-! ### The master -/

variable {rin' : Resourceinput} {i : Nat} {producer : Producer}

/-- A new input, before the end. -/
theorem set (h : Synced clients rin master producers) (hfree : rin.prepterm = 0) (hprep : rin'.prepterm = 0)
    (hcnt : rin'.clientcount = rin.clientcount) : Synced clients rin' .idle producers := by
  refine ⟨h.length, ?_, hprep, h.empty, ?_, ?_, ?_⟩
  · rw [hprep, ← hfree]
    exact h.places
  · rintro (hne | hmaster)
    · exact absurd hprep hne
    · cases hmaster
  · intro
    rw [hcnt]
    exact h.waiting (by omega)
  · intro
    omega

theorem waitforcomp (h : Synced clients rin master producers) (hfree : rin.prepterm = 0) :
    Synced clients rin (Rman.waitforcomp rin) producers := by
  refine ⟨h.length, h.places, ?_, h.empty, ?_, h.waiting, h.exited⟩
  · unfold Rman.waitforcomp
    split <;> exact hfree
  · rintro (hne | hmaster)
    · exact absurd hfree hne
    · unfold Rman.waitforcomp at hmaster
      split at hmaster
      · assumption
      · cases hmaster

/-- The second wait: the master goes once every client is gone. -/
theorem awaitExit (h : Synced clients rin (.exiting clients) producers) :
    Synced clients (Rman.awaitExit rin clients).1 (Rman.awaitExit rin clients).2 producers := by
  have hprep : rin.prepterm = 2 := h.phase.1
  unfold Rman.awaitExit
  split
  next => exact h
  next hgone =>
    have hcnt := h.exited (by omega)
    have hall : ∀ producer ∈ producers, producer.place = .finished := by
      apply placed_eq_length.1
      have := placed_le .finished producers
      have := h.length
      omega
    refine ⟨h.length, ?_, rfl, h.empty, ?_, ?_, ?_⟩
    · intro producer hmem
      rw [hall producer hmem]
      show 2 ≤ 3
      omega
    · intro
      exact h.exhausted (.inl (by omega))
    · intro (hle : 3 ≤ 1)
      omega
    · intro
      exact hcnt

/-- The first wait: the master signals the exit once every client is waiting. -/
theorem awaitClients (h : Synced clients rin (.synchronizing clients) producers) :
    Synced clients (Rman.awaitClients rin clients).1 (Rman.awaitClients rin clients).2 producers := by
  have hprep : rin.prepterm = 1 := h.phase.1
  unfold Rman.awaitClients
  split
  next => exact h
  next hall =>
    have hcnt : rin.clientcount = 0 := by omega
    have hwait : ∀ producer ∈ producers, producer.place = .terminating true := by
      apply placed_eq_length.1
      have := h.waiting (by omega)
      rw [h.length]
      omega
    have hmax : max rin.prepterm 2 = 2 := by omega
    apply awaitExit
    refine ⟨h.length, ?_, ⟨hmax, rfl⟩, h.empty, ?_, ?_, ?_⟩
    · intro producer hmem
      rw [hwait producer hmem]
      exact .inr ⟨hmax, rfl⟩
    · intro
      exact h.exhausted (.inl (by omega))
    · intro hle
      dsimp only at hle
      omega
    · intro
      have : placed .finished producers = 0 :=
        placed_eq_zero.2 fun producer hmem => by rw [hwait producer hmem]; nofun
      rw [this]
      exact hcnt

theorem resourceinputTerm {master' : Master} (h : Synced clients rin master producers)
    (hfree : rin.prepterm = 0) (hterm : Rman.resourceinputTerm rin = some (rin', master')) :
    Synced clients rin' master' producers := by
  unfold Rman.resourceinputTerm at hterm
  split at hterm
  next => cases hterm
  next hex =>
    have hwait := h.none_waiting hfree
    have hclients := h.waiting (by omega)
    have hmax : max rin.prepterm 1 = 1 := by omega
    have hcnt : rin.clientcount = clients := by omega
    have hsync : Synced clients { rin with prepterm := max rin.prepterm 1 }
        (.synchronizing clients) producers := by
      refine ⟨h.length, ?_, ⟨hmax, rfl⟩, h.empty, ?_, ?_, ?_⟩
      · intro producer hmem
        have := h.places producer hmem
        dsimp only
        rw [hfree] at this
        rw [hmax]
        cases hplc : producer.place with
        | producing => exact Nat.le_refl 1
        | updating => exact Nat.le_refl 1
        | terminating diddec => exact .inl rfl
        | finished =>
          rw [hplc] at this
          exact absurd this (Nat.not_succ_le_zero 1)
      · intro
        exact Decidable.not_not.1 fun hne => hex (.inl hne)
      · intro
        exact hclients
      · intro hle
        dsimp only at hle
        omega
    have hawait := hsync.awaitClients
    rw [← hcnt, Option.some.inj hterm, hcnt] at hawait
    exact hawait

/-! ### A producer -/

variable {producer' : Producer}

theorem producer_step (h : Synced clients rin master producers) (hprep : rin'.prepterm = rin.prepterm)
    (hex : rin.Exhausted → rin'.Exhausted) (hplc : producer'.place.Allowed rin.prepterm)
    (hemp : producer'.place ≠ .producing → producer'.Empty) (hwait : rin.prepterm ≤ 1 → rin'.clientcount +
      placed (.terminating true) (producers.set i producer') = clients)
    (hexit : 2 ≤ rin.prepterm → rin'.clientcount = placed .finished (producers.set i producer')) :
    Synced clients rin' master (producers.set i producer') := by
  refine ⟨?_, ?_, ?_, ?_, ?_, ?_, ?_⟩
  · rw [length_set, h.length]
  · intro other hmem
    rw [hprep]
    rcases mem_or_eq_of_mem_set hmem with hmem | rfl
    · exact h.places other hmem
    · exact hplc
  · rw [hprep]
    exact h.phase
  · intro other hmem
    rcases mem_or_eq_of_mem_set hmem with hmem | rfl
    · exact h.empty other hmem
    · exact hemp
  · rw [hprep]
    intro hor
    exact hex (h.exhausted hor)
  · rw [hprep]
    exact hwait
  · rw [hprep]
    exact hexit

theorem producer_free (h : Synced clients rin master producers) (hi : producers[i]? = some producer)
    (hprep : rin'.prepterm = rin.prepterm) (hcnt : rin'.clientcount = rin.clientcount)
    (hex : rin.Exhausted → rin'.Exhausted) (hplc : producer'.place.Allowed rin.prepterm)
    (hemp : producer'.place ≠ .producing → producer'.Empty)
    (hwait : producer.place = .terminating true ↔ producer'.place = .terminating true)
    (hexit : producer.place = .finished ↔ producer'.place = .finished) :
    Synced clients rin' master (producers.set i producer') := by
  refine h.producer_step hprep hex hplc hemp ?_ ?_
  · intro hle
    have h₁ := placed_set hi (.terminating true) producer'
    have h₂ := h.waiting hle
    simp only [hwait] at h₁
    omega
  · intro hle
    have h₁ := placed_set hi .finished producer'
    have h₂ := h.exited hle
    simp only [hexit] at h₁
    omega

theorem getnext (h : Synced clients rin master producers) (hi : producers[i]? = some producer)
    (hplc : producer.place = .producing) (hemp : producer.Empty) (opens : Nat → Bool) :
    Synced clients (rin.getnext opens).1 master
      (producers.set i (producer.take (rin.getnext opens).2)) := by
  have hallow := h.places producer (mem_of_getElem? hi)
  rw [hplc] at hallow
  have hprep : rin.prepterm ≤ 1 := hallow
  have hex (hex : rin.Exhausted) := (hex.getnext opens).1
  cases hnext : (rin.getnext opens).2 with
  | empty =>
    exact h.producer_free hi (by simp) (by simp) hex hprep (fun _ => hemp)
      (by simp [Producer.take, hplc]) (by simp [Producer.take, hplc])
  | op nextop =>
    refine h.producer_free hi (by simp) (by simp) hex ?_ (fun hne => absurd hplc hne)
      (by simp [Producer.take]) (by simp [Producer.take])
    show producer.place.Allowed rin.prepterm
    rw [hplc]
    exact hprep
  | dir refindex =>
    refine h.producer_free hi (by simp) (by simp) hex ?_ (fun hne => absurd hplc hne)
      (by simp [Producer.take]) (by simp [Producer.take])
    show producer.place.Allowed rin.prepterm
    rw [hplc]
    exact hprep
  | prepare =>
    have hone : rin.prepterm = 1 := by
      -- only an input that is being ended tells its clients to prepare
      rcases Resourceinput.getnext_cases opens rin with
        ⟨_, _, _, _, _, h₁⟩ | ⟨_, _, _, _, _, _, _, _, h₁⟩ | ⟨_, _, _, h₁⟩
      · rw [hnext] at h₁
        cases h₁
      · rw [hnext] at h₁
        cases h₁
      · rw [hnext] at h₁
        split at h₁
        · omega
        · cases h₁
    exact h.producer_free hi (by simp) (by simp) hex (.inl hone) (fun _ => hemp)
      (by simp [Producer.take, hplc]) (by simp [Producer.take, hplc])

theorem useOwn (h : Synced clients rin master producers) (hi : producers[i]? = some producer)
    (hplc : producer.place = .producing) {sighting : Sighting}
    (hown : producer.useOwn sighting = some producer') :
    Synced clients rin master (producers.set i producer') := by
  have hsame : producer'.place = producer.place := by
    unfold Producer.useOwn at hown
    split at hown
    next =>
      cases hown
      rfl
    next =>
      split at hown
      · split at hown <;> cases hown <;> rfl
      · split at hown
        · split at hown <;> cases hown <;> rfl
        · cases hown
  refine h.producer_free hi rfl rfl id ?_ (fun hne => absurd (hsame.trans hplc) hne)
    (by rw [hsame]) (by rw [hsame])
  rw [hsame]
  exact h.places producer (mem_of_getElem? hi)

theorem update (h : Synced clients rin master producers) (hi : producers[i]? = some producer)
    (hplc : producer.place = .updating) :
    Synced clients rin master (producers.set i { producer with place := .producing }) := by
  have hallow := h.places producer (mem_of_getElem? hi)
  rw [hplc] at hallow
  exact h.producer_free hi rfl rfl id hallow (fun hne => absurd rfl hne) (by simp [hplc])
    (by simp [hplc])

theorem waitforterm {diddec : Bool} (h : Synced clients rin master producers)
    (hi : producers[i]? = some producer) (hplc : producer.place = .terminating diddec) :
    Synced clients (Rman.waitforterm rin diddec).1 master
      (producers.set i { producer with place := (Rman.waitforterm rin diddec).2 }) := by
  have hmem := mem_of_getElem? hi
  have hallow := h.places producer hmem
  rw [hplc] at hallow
  have hemp := h.empty producer hmem (by rw [hplc]; nofun)
  unfold Rman.waitforterm
  split
  next hlt =>
    split
    next hdec =>
      -- the client shows that it is waiting
      simp only [Bool.and_eq_true, Bool.not_eq_true', decide_eq_true_eq] at hdec
      obtain ⟨⟨rfl, hone⟩, hne⟩ := hdec
      refine h.producer_step rfl id (.inl hone) (fun _ => hemp) ?_ ?_
      · intro hle
        have h₁ := placed_set hi (.terminating true) { producer with place := .terminating true }
        have h₂ := h.waiting hle
        simp only [hplc] at h₁
        simp at h₁ ⊢
        omega
      · intro hle
        omega
    next =>
      refine h.producer_free hi rfl rfl id hallow (fun _ => hemp) ?_ ?_
      · rw [hplc]
      · rw [hplc]
  next hge =>
    have htwo : rin.prepterm = 2 := by
      rcases hallow with hone | ⟨htwo, -⟩
      · omega
      · exact htwo
    rw [if_pos htwo]
    -- the client shows that it is exiting
    refine h.producer_step rfl id ?_ (fun _ => hemp) ?_ ?_
    · show 2 ≤ rin.prepterm
      omega
    · intro hle
      omega
    · intro hle
      have h₁ := placed_set hi .finished { producer with place := .finished }
      have h₂ := h.exited hle
      simp only [hplc] at h₁
      simp at h₁ ⊢
      omega

end Synced

/-! ### The inputs meanwhile -/

def Resourceinput.SameInputs (rin rin' : Resourceinput) : Prop :=
  rin.rlog = rin'.rlog ∧ rin.refindex = rin'.refindex ∧ rin.refmax = rin'.refmax

theorem Resourceinput.SameInputs.refl (rin : Resourceinput) : rin.SameInputs rin := ⟨rfl, rfl, rfl⟩

theorem waitforterm_same (rin : Resourceinput) (diddec : Bool) :
    (waitforterm rin diddec).1.SameInputs rin := by
  unfold waitforterm
  split
  · split <;> exact ⟨rfl, rfl, rfl⟩
  · split <;> exact ⟨rfl, rfl, rfl⟩

theorem awaitExit_same (rin : Resourceinput) (origclientcount : Nat) :
    (awaitExit rin origclientcount).1.SameInputs rin := by
  unfold awaitExit
  split <;> exact ⟨rfl, rfl, rfl⟩

theorem awaitClients_same (rin : Resourceinput) (origclientcount : Nat) :
    (awaitClients rin origclientcount).1.SameInputs rin := by
  unfold awaitClients
  split
  · exact ⟨rfl, rfl, rfl⟩
  · exact awaitExit_same { rin with prepterm := max rin.prepterm 2 } origclientcount

theorem resourceinputTerm_same {rin rin' : Resourceinput} {master : Master}
    (h : resourceinputTerm rin = some (rin', master)) : rin'.SameInputs rin := by
  unfold resourceinputTerm at h
  split at h
  next => cases h
  next =>
    have hsame := awaitClients_same { rin with prepterm := max rin.prepterm 1 } rin.clientcount
    rw [Option.some.inj h] at hsame
    exact hsame

/-! ## Every run -/

namespace Inputs

/-- Nothing is set, passed out or returned any more, and no producer has anything left or reaches for
more. -/
structure Over (s : Inputs) : Prop where
  dirs : s.passed.map Passed.index = s.setdirs
  ops : s.returned.map Prod.fst = s.setops
  drained : ∀ producer ∈ s.producers, producer.Empty ∧
    (producer.place = .finished ∨ ∃ diddec, producer.place = .terminating diddec)
  closed : ∀ action s', s.step action = some s' →
    s'.setdirs = s.setdirs ∧ s'.setops = s.setops ∧ s'.passed = s.passed ∧ s'.returned = s.returned

/-- `resourceinput_waitforcomp` returns once all inputs are passed out; the first producer to finish
does so when all is over; and `resourceinput_term` returns once every producer has finished. -/
structure Barrier (s : Inputs) : Prop where
  completed : s.master = .completed → s.rin.Exhausted ∧
    s.passed.map Passed.index = s.setdirs ∧ s.returned.map Prod.fst = s.setops
  finished : ∀ producer ∈ s.producers, producer.place = .finished → s.Over
  terminated : s.master = .terminated → ∀ producer ∈ s.producers, producer.place = .finished

/-- The invariant of every run. -/
structure Good (clients : Nat) (s : Inputs) : Prop where
  consumed : s.Consumed
  synced : Synced clients s.rin s.master s.producers

namespace Good

variable {clients : Nat} {s s' : Inputs}

theorem prepterm_of_free (hs : s.Good clients) (hfree : s.Free) : s.rin.prepterm = 0 := by
  have hphase := hs.synced.phase
  rcases hfree with h | h <;> rw [h] at hphase <;> exact hphase

theorem init (refnodecount clients : Nat) : (Inputs.init refnodecount clients).Good clients :=
  ⟨⟨rfl, rfl, fun _ h => nomatch h⟩, .init refnodecount clients⟩

theorem setrange {start stop : Nat} (hs : s.Good clients)
    (h : s.step (.setrange start stop) = some s') : s'.Good clients := by
  simp only [step] at h
  split at h
  next hfree =>
    have hprep := hs.prepterm_of_free hfree
    split at h
    next =>
      cases h
      exact hs
    next rin hset =>
      cases h
      unfold Resourceinput.setrange at hset
      split at hset
      next => cases hset
      next hok =>
        cases hset
        have hmax : s.rin.refmax = s.rin.refindex := by omega
        refine ⟨⟨?_, hs.consumed.ops, hs.consumed.receivers⟩, hs.synced.set hprep hprep rfl⟩
        have hdirs := hs.consumed.dirs
        rw [hmax, Nat.sub_self, range'_zero, List.append_nil] at hdirs
        rw [hdirs]
  next => cases h

theorem setlogpath {ops : List (List Opinfo)} (hs : s.Good clients)
    (h : s.step (.setlogpath ops) = some s') : s'.Good clients := by
  simp only [step] at h
  split at h
  next hfree =>
    have hprep := hs.prepterm_of_free hfree
    split at h
    next =>
      cases h
      exact hs
    next rin hset =>
      cases h
      unfold Resourceinput.setlogpath at hset
      split at hset
      next => cases hset
      next hok =>
        cases hset
        have hlog : s.rin.rlog = none := by
          rw [← Option.not_isSome_iff_eq_none]
          exact fun hsome => hok (.inl hsome)
        refine ⟨⟨hs.consumed.dirs, ?_, hs.consumed.receivers⟩, hs.synced.set hprep hprep rfl⟩
        have hops := hs.consumed.ops
        rw [hlog, Option.getD_none, List.append_nil] at hops
        rw [hops]
        rfl
  next => cases h

theorem waitforcomp (hs : s.Good clients) (h : s.step .waitforcomp = some s') : s'.Good clients := by
  simp only [step] at h
  split at h
  next hfree =>
    cases h
    exact ⟨⟨hs.consumed.dirs, hs.consumed.ops, hs.consumed.receivers⟩,
      hs.synced.waitforcomp (hs.prepterm_of_free hfree)⟩
  next => cases h

/-- A section that hands nothing out. -/
theorem of_synced {rin : Resourceinput} {master : Master} {producers : List Producer}
    (hs : s.Good clients) (hsame : rin.SameInputs s.rin) (hsync : Synced clients rin master producers) :
    Inputs.Good clients { s with rin := rin, master := master, producers := producers } := by
  obtain ⟨hlog, hidx, hmax⟩ := hsame
  refine ⟨⟨?_, ?_, hs.consumed.receivers⟩, hsync⟩
  · rw [hidx, hmax]
    exact hs.consumed.dirs
  · rw [hlog]
    exact hs.consumed.ops

theorem term (hs : s.Good clients) (h : s.step .term = some s') : s'.Good clients := by
  simp only [step] at h
  split at h
  next hfree =>
    split at h
    next =>
      cases h
      exact hs
    next rin master hterm =>
      cases h
      exact hs.of_synced (resourceinputTerm_same hterm)
        (hs.synced.resourceinputTerm (hs.prepterm_of_free hfree) hterm)
  next => cases h

theorem wake (hs : s.Good clients) (h : s.step .wake = some s') : s'.Good clients := by
  have hsync := hs.synced
  simp only [step] at h
  split at h
  next hmaster =>
    cases h
    have hphase := hsync.phase
    rw [hmaster] at hphase
    exact hs.of_synced (.refl _) (hsync.waitforcomp hphase)
  next origclientcount hmaster =>
    cases h
    rw [hmaster] at hsync
    obtain rfl := hsync.phase.2
    exact hs.of_synced (awaitClients_same _ _) hsync.awaitClients
  next origclientcount hmaster =>
    cases h
    rw [hmaster] at hsync
    obtain rfl := hsync.phase.2
    exact hs.of_synced (awaitExit_same _ _) hsync.awaitExit
  next => cases h

variable {i : Nat}

theorem turn {opens : Nat → Bool} {sighting : Sighting} (hs : s.Good clients)
    (h : s.step (.turn i opens sighting) = some s') : s'.Good clients := by
  simp only [step, Option.bind_eq_bind, Option.bind_eq_some_iff] at h
  obtain ⟨producer, hi, h⟩ := h
  split at h
  next => cases h
  next hplc =>
    have hplc : producer.place = .producing := Decidable.not_not.1 hplc
    split at h
    next hemp =>
      cases h
      exact ⟨hs.consumed.getnext i producer opens, hs.synced.getnext hi hplc hemp opens⟩
    next =>
      obtain ⟨producer', hown, rfl⟩ := Option.map_eq_some_iff.1 h
      exact hs.of_synced (.refl _) (hs.synced.useOwn hi hplc hown)

theorem resume (hs : s.Good clients) (h : s.step (.resume i) = some s') : s'.Good clients := by
  simp only [step, Option.bind_eq_bind, Option.bind_eq_some_iff] at h
  obtain ⟨producer, hi, h⟩ := h
  split at h
  next hplc =>
    split at h
    next =>
      cases h
      exact hs
    next =>
      cases h
      exact hs.of_synced (.refl _) (hs.synced.update hi hplc)
  next diddec hplc =>
    cases h
    exact hs.of_synced (waitforterm_same _ _) (hs.synced.waitforterm hi hplc)
  next => cases h

theorem step (hs : s.Good clients) {action : Action} (h : s.step action = some s') : s'.Good clients := by
  cases action with
  | setrange start stop => exact hs.setrange h
  | setlogpath ops => exact hs.setlogpath h
  | waitforcomp => exact hs.waitforcomp h
  | term => exact hs.term h
  | wake => exact hs.wake h
  | turn i opens sighting => exact hs.turn h
  | resume i => exact hs.resume h

/-- Past the first barrier nothing is passed out. -/
theorem all_over (hs : s.Good clients) (hprep : 2 ≤ s.rin.prepterm) : s.Over := by
  have hall := hs.consumed.all (hs.synced.exhausted (.inl (by omega)))
  have hplc : ∀ producer ∈ s.producers,
      producer.place = .finished ∨ ∃ diddec, producer.place = .terminating diddec := by
    intro producer hmem
    have hallow := hs.synced.places producer hmem
    cases hplc : producer.place with
    | producing =>
      rw [hplc] at hallow
      exact absurd hallow (by show ¬ s.rin.prepterm ≤ 1; omega)
    | updating =>
      rw [hplc] at hallow
      exact absurd hallow (by show ¬ s.rin.prepterm ≤ 1; omega)
    | terminating diddec => exact .inr ⟨diddec, rfl⟩
    | finished => exact .inl rfl
  refine ⟨hall.1, hall.2, fun producer hmem => ⟨?_, hplc producer hmem⟩, ?_⟩
  · apply hs.synced.empty producer hmem
    rcases hplc producer hmem with h | ⟨diddec, h⟩ <;> rw [h] <;> nofun
  · intro action s' h
    have hbusy : ¬ s.Free := fun hfree => by
      have := hs.prepterm_of_free hfree
      omega
    cases action with
    | setrange start stop => simp [Inputs.step, hbusy] at h
    | setlogpath ops => simp [Inputs.step, hbusy] at h
    | waitforcomp => simp [Inputs.step, hbusy] at h
    | term => simp [Inputs.step, hbusy] at h
    | wake =>
      simp only [Inputs.step] at h
      split at h <;> cases h <;> exact ⟨rfl, rfl, rfl, rfl⟩
    | turn i opens sighting =>
      simp only [Inputs.step, Option.bind_eq_bind, Option.bind_eq_some_iff] at h
      obtain ⟨producer, hi, h⟩ := h
      rcases hplc producer (mem_of_getElem? hi) with hp | ⟨diddec, hp⟩ <;>
        simp [hp] at h
    | resume i =>
      simp only [Inputs.step, Option.bind_eq_bind, Option.bind_eq_some_iff] at h
      obtain ⟨producer, hi, h⟩ := h
      split at h
      · split at h <;> cases h <;> exact ⟨rfl, rfl, rfl, rfl⟩
      · cases h
        exact ⟨rfl, rfl, rfl, rfl⟩
      · cases h

theorem barrier (hs : s.Good clients) : s.Barrier := by
  refine ⟨?_, ?_, ?_⟩
  · intro hmaster
    have hex := hs.synced.exhausted (.inr hmaster)
    exact ⟨hex, hs.consumed.all hex⟩
  · intro producer hmem hplc
    have hallow := hs.synced.places producer hmem
    rw [hplc] at hallow
    exact hs.all_over hallow
  · intro hmaster producer hmem
    have hphase := hs.synced.phase
    rw [hmaster] at hphase
    have hprep : s.rin.prepterm = 3 := hphase
    have hallow := hs.synced.places producer hmem
    rw [hprep] at hallow
    cases hplc : producer.place with
    | producing =>
      rw [hplc] at hallow
      exact absurd hallow (by show ¬ 3 ≤ 1; omega)
    | updating =>
      rw [hplc] at hallow
      exact absurd hallow (by show ¬ 3 ≤ 1; omega)
    | terminating diddec =>
      rw [hplc] at hallow
      rcases hallow with h | ⟨h, -⟩ <;> cases h
    | finished => rfl

end Good

theorem Reaches.good {refnodecount clients : Nat} {s : Inputs} (h : Reaches refnodecount clients s) :
    s.Good clients := by
  induction h with
  | init => exact .init refnodecount clients
  | step h action hstep ih => exact ih.step hstep

end Inputs

end Marfs.Rman
