import Marfs.Config.LinkChain
import Marfs.Config.MountExact
import Marfs.Config.Reserved
import Marfs.Path.Fronts

/-!
# Replacing the rest of a path

`config_validatemnt` and `config_shiftns` look at a path element by element.  Where they stop, the rest of
the path can be replaced by another text, and they stop there again or go on from there.  There is one
exception: a scanner that finds itself at the global root, when the mountpoint is there, looks at one more
element.
-/

namespace Marfs.Config

open Marfs.Path List

def NamesEntry (path : List Char) : Prop :=
  ∃ name ∈ (named '/' ['.'] path).head?, name ≠ ['.', '.']

section NamesEntry

variable {path : List Char}

theorem namesEntry_iff (hhead : path.head? ≠ some '/') (hne : path ≠ []) :
    NamesEntry path ↔
      if firstElem '/' path = ['.'] then NamesEntry (nextElem '/' path)
      else firstElem '/' path ≠ ['.', '.'] := by
  unfold NamesEntry
  rw [named_cons hhead hne]
  by_cases hhere : firstElem '/' path = ['.']
  · rw [if_pos hhere, if_pos hhere]
  · rw [if_neg hhere, if_neg hhere]
    simp

theorem BeginsWithName.namesEntry (hhead : path.head? ≠ some '/') (h : BeginsWithName path) :
    NamesEntry path := by
  obtain ⟨hne, hup, hhere⟩ := (beginsWithName_iff hhead).1 h
  rw [namesEntry_iff hhead hne, if_neg hhere]
  exact hup

theorem not_namesEntry_nil : ¬NamesEntry [] := by
  rintro ⟨name, hname, -⟩
  rw [named_nil] at hname
  cases hname

end NamesEntry

/-! ## The mountpoint -/

section Validate

variable {config : MarfsConfig} {cur : Cursor} {fuel fuel' : Nat} {path front rest other : List Char}

/-- A text that can stand for the rest of a path. -/
structure Replaces (other rest : List Char) : Prop where
  ne_nil : other ≠ []
  head : other.head? ≠ some '/'
  rest_ne_nil : rest ≠ []

theorem Replaces.append (h : Replaces other rest) (hhead : (front ++ rest).head? ≠ some '/') :
    (front ++ other).head? ≠ some '/' := by
  cases front with
  | nil => exact h.head
  | cons c front => exact hhead

theorem Replaces.next (h : Replaces other rest) (hsuf : rest <:+ nextElem '/' (front ++ rest)) :
    ∃ front', nextElem '/' (front ++ rest) = front' ++ rest ∧
      firstElem '/' (front ++ other) = firstElem '/' (front ++ rest) ∧
        nextElem '/' (front ++ other) = front' ++ other ∧ front'.length < front.length := by
  obtain ⟨front', hfront'⟩ := hsuf
  have hne : nextElem '/' (front ++ rest) ≠ [] := by
    rw [← hfront']
    exact append_ne_nil_of_right_ne_nil _ h.rest_ne_nil
  have hhead : (front' ++ rest).head? ≠ some '/' := hfront' ▸ nextElem_head _
  obtain ⟨first, hpath, hlast, hreplace⟩ := exists_front hne
  rw [← hfront', ← append_assoc] at hpath
  obtain rfl := append_cancel_right hpath
  have hfst := hreplace (front' ++ other)
  rw [← append_assoc] at hfst
  refine ⟨front', hfront'.symm, hfst.1, hfst.2 (h.append hhead), ?_⟩
  have hpos : 0 < first.length := by
    apply length_pos_of_ne_nil
    rintro rfl
    cases hlast
  rw [length_append]
  omega

/-- At the global root, a path is returned from its first name on. -/
theorem validateLoop_names (hend : cur.after = []) (hhead : other.head? ≠ some '/')
    (hnames : NamesEntry other) (hfuel : other.length ≤ fuel) :
    ∃ other', validateLoop fuel cur other = some other' ∧ Dots '/' ['.'] other other' ∧
      other' ≠ [] := by
  induction fuel generalizing other with
  | zero =>
    obtain rfl := List.length_eq_zero_iff.1 (Nat.le_zero.1 hfuel)
    exact absurd hnames not_namesEntry_nil
  | succ fuel ih =>
    have hnil : other ≠ [] := by
      rintro rfl
      exact not_namesEntry_nil hnames
    have hlt := nextElem_length_lt hhead hnil
    rw [namesEntry_iff hhead hnil] at hnames
    rw [validateLoop, if_neg hnil]
    by_cases hhere : firstElem '/' other = ['.']
    · rw [if_pos hhere] at hnames
      obtain ⟨other', hvalid, hdots, hne⟩ := ih (nextElem_head other) hnames (by omega)
      refine ⟨other', ?_, Relation.ReflTransGen.head ⟨hhere, rfl⟩ hdots, hne⟩
      rw [if_neg (here_ne_up hhere), if_pos hhere, hvalid]
    · rw [if_neg hhere] at hnames
      exact ⟨other, by rw [if_neg hnames, if_neg hhere, if_pos hend], .refl, hnil⟩

theorem validateLoop_begins (hend : cur.after = []) (hprev : configPrevpathelem cur = none)
    (hhead : path.head? ≠ some '/') (h : validateLoop fuel cur path = some rest) : BeginsWithName rest := by
  induction fuel generalizing path with
  | zero => cases h
  | succ fuel ih =>
    rw [validateLoop, hprev] at h
    split_ifs at h with hnil hup hhere
    · exact ih (nextElem_head path) h
    · obtain rfl := Option.some.inj h
      exact (beginsWithName_iff hhead).2 ⟨hnil, hup, hhere⟩

theorem validateLoop_replace (hrepl : Replaces other rest)
    (hglob : (∃ k, OnChain config.mountpoint cur k ∧ k < config.mount.length) ∨ NamesEntry other)
    (hfuel : (front ++ other).length ≤ fuel') (h : validateLoop fuel cur (front ++ rest) = some rest) :
    ∃ other', validateLoop fuel' cur (front ++ other) = some other' ∧ Dots '/' ['.'] other other' ∧
      other' ≠ [] := by
  induction fuel generalizing cur front fuel' with
  | zero => cases h
  | succ fuel ih =>
    have hne : front ++ other ≠ [] := append_ne_nil_of_right_ne_nil _ hrepl.ne_nil
    have hpos : 0 < (front ++ other).length := length_pos_of_ne_nil hne
    obtain ⟨fuel', rfl⟩ := Nat.exists_eq_add_one_of_ne_zero (Nat.ne_of_gt (hpos.trans_le hfuel))
    -- the first element of both paths, and what follows it
    have hnext : rest <:+ nextElem '/' (front ++ rest) → ∃ front',
        nextElem '/' (front ++ rest) = front' ++ rest ∧
        firstElem '/' (front ++ other) = firstElem '/' (front ++ rest) ∧
        nextElem '/' (front ++ other) = front' ++ other ∧ (front' ++ other).length ≤ fuel' := by
      intro hsuf
      obtain ⟨front', hrest, hfst, hoth, hlt⟩ := hrepl.next hsuf
      rw [length_append] at hfuel
      exact ⟨front', hrest, hfst, hoth, by rw [length_append]; omega⟩
    rw [validateLoop] at h
    split_ifs at h with hnil hup hhere hroot hoth hent
    · -- up
      cases hprev : configPrevpathelem cur with
      | none =>
        rw [hprev] at h
        cases h
      | some prev =>
        rw [hprev] at h
        obtain ⟨front', hrest, hfst, hrest', hlen⟩ := hnext (validateLoop_suffix h)
        rw [hrest] at h
        rw [validateLoop, if_neg hne, hfst, if_pos hup, hrest', hprev]
        refine ih ?_ hlen h
        refine hglob.imp_left ?_
        rintro ⟨k, hchain, hk⟩
        rcases hchain.prev with ⟨-, hnone⟩ | ⟨prev', hprev', -, hchain'⟩
        · rw [hnone] at hprev
          cases hprev
        · obtain rfl := Option.some.inj (hprev'.symm.trans hprev)
          exact ⟨k - 1, hchain', by omega⟩
    · -- here
      obtain ⟨front', hrest, hfst, hrest', hlen⟩ := hnext (validateLoop_suffix h)
      rw [hrest] at h
      rw [validateLoop, if_neg hne, hfst, if_neg hup, if_pos hhere, hrest']
      exact ih hglob hlen h
    · -- at the global root
      have hrest := Option.some.inj h
      have hfront : front = [] := List.self_eq_append_left.1 hrest.symm
      subst hfront
      rcases hglob with ⟨k, hchain, hk⟩ | hnames
      · exact absurd (hchain.after_eq_nil.1 hroot) hk.ne
      · exact validateLoop_names hroot hrepl.head hnames hfuel
    · -- at the mountpoint
      have hrest := Option.some.inj h
      obtain ⟨front', hrest', hfst, hoth', -⟩ := hnext ⟨[], hrest.symm⟩
      have hfront : front' = [] := List.self_eq_append_left.1 (hrest.symm.trans hrest')
      subst hfront
      refine ⟨other, ?_, .refl, hrepl.ne_nil⟩
      rw [validateLoop, if_neg hne, hfst, if_neg hup, if_neg hhere, if_neg hroot, if_neg hoth,
        if_pos hent, hoth']
      rfl
    · -- to the next element
      obtain ⟨front', hrest, hfst, hrest', hlen⟩ := hnext (validateLoop_suffix h)
      rw [hrest] at h
      rw [validateLoop, if_neg hne, hfst, if_neg hup, if_neg hhere, if_neg hroot, if_neg hoth,
        if_neg hent, hrest']
      refine ih ?_ hlen h
      refine hglob.imp_left ?_
      rintro ⟨k, hchain, hk⟩
      have hchain' := (hchain.next hroot).1
      have hlast : k + 1 ≠ config.mount.length := fun heq => hent (hchain'.after_eq_nil.2 heq)
      exact ⟨k + 1, hchain', by omega⟩

variable {tgtns : Option NsRef}

theorem validatemnt_replace (habs : config.mountpoint = [] ∨ config.mountpoint.head? = some '/')
    (hrepl : Replaces other rest) (hrest : rest.head? ≠ some '/')
    (hglob : config.mount = [] → NamesEntry other)
    (h : configValidatemnt config tgtns (front ++ rest) = some rest) :
    ∃ other', configValidatemnt config tgtns (front ++ other) = some other' ∧
      Dots '/' ['.'] other other' ∧ other' ≠ [] := by
  have hchain : ∀ {cur : Cursor} {k : Nat}, OnChain config.mountpoint cur k →
      (config.mount ≠ [] → k < config.mount.length) →
      (∃ k, OnChain config.mountpoint cur k ∧ k < config.mount.length) ∨ NamesEntry other := by
    intro cur k hchain hk
    by_cases hmount : config.mount = []
    · exact Or.inr (hglob hmount)
    · exact Or.inl ⟨k, hchain, hk hmount⟩
  cases tgtns with
  | none =>
    unfold configValidatemnt at h ⊢
    dsimp only at h ⊢
    rw [skipSep_append hrest] at h
    rw [skipSep_append hrepl.head]
    refine validateLoop_replace hrepl (hchain (onChain_first habs) fun hmount => ?_) le_rfl h
    exact List.length_pos_iff.2 hmount
  | some tgtns =>
    unfold configValidatemnt at h ⊢
    refine validateLoop_replace hrepl (hchain (onChain_last habs) fun hmount => ?_) le_rfl h
    have hpos : 0 < config.mount.length := List.length_pos_iff.2 hmount
    have hlt : config.mount.length - 1 < config.mount.length := by omega
    exact hlt

theorem validatemnt_begins (habs : config.mountpoint = [] ∨ config.mountpoint.head? = some '/')
    (hmount : config.mount = []) (hhead : tgtns ≠ none → path.head? ≠ some '/')
    (h : configValidatemnt config tgtns path = some rest) : BeginsWithName rest := by
  have hlen : (components '/' config.mountpoint).length = 0 := congrArg List.length hmount
  have hroot : ∀ {cur : Cursor}, OnChain config.mountpoint cur 0 →
      cur.after = [] ∧ configPrevpathelem cur = none := by
    intro cur hchain
    rcases hchain.prev with ⟨-, hnone⟩ | ⟨-, -, hpos, -⟩
    · exact ⟨hchain.after_eq_nil.2 hlen.symm, hnone⟩
    · exact absurd hpos (Nat.lt_irrefl 0)
  cases tgtns with
  | none =>
    obtain ⟨hend, hprev⟩ := hroot (onChain_first habs)
    exact validateLoop_begins hend hprev (skipSep_head path) h
  | some tgtns =>
    have hchain := onChain_last habs
    rw [hlen] at hchain
    obtain ⟨hend, hprev⟩ := hroot hchain
    exact validateLoop_begins hend hprev (hhead (Option.some_ne_none tgtns)) h

end Validate

end Marfs.Config
