import Marfs.Config.Resolve

/-!
# The mountpoint

`config_validatemnt` compares a path with the chain of directories that leads to the mountpoint, and
follows a path on that chain.  It returns what is left of the path behind the mountpoint.
-/

namespace Marfs.Config

open Marfs.Path List

/-! ## The code -/

/-- A pointer into a string: the text before it, the last character first, and the text from it on. -/
structure Cursor where
  before : List Char
  after : List Char
  deriving DecidableEq, Repr

/-- The first loop of `config_prevpathelem`: back over separators and one more character. -/
def skipBack : List Char → List Char → Cursor
  | [], after => ⟨[], after⟩
  | c :: before, after => if c = '/' then skipBack before (c :: after) else ⟨before, c :: after⟩

/-- The second loop: back to a separator. -/
def elemBack : List Char → List Char → Cursor
  | [], after => ⟨[], after⟩
  | c :: before, after => if c = '/' then ⟨c :: before, after⟩ else elemBack before (c :: after)

def configPrevpathelem (curpath : Cursor) : Option Cursor :=
  let curpath := skipBack curpath.before curpath.after
  let curpath := elemBack curpath.before curpath.after
  if curpath.before = [] then none else some curpath

def Cursor.next (cur : Cursor) : Cursor :=
  let seps := (skipElem '/' cur.after).takeWhile (· = '/')
  ⟨seps.reverse ++ (firstElem '/' cur.after).reverse ++ cur.before, nextElem '/' cur.after⟩

def validateLoop : Nat → Cursor → List Char → Option (List Char)
  | 0, _, _ => none
  | fuel + 1, mntelem, pathelem =>
    if pathelem = [] then none
    else if firstElem '/' pathelem = ['.', '.'] then
      match configPrevpathelem mntelem with
      | none => none
      | some mntelem => validateLoop fuel mntelem (nextElem '/' pathelem)
    else if firstElem '/' pathelem = ['.'] then validateLoop fuel mntelem (nextElem '/' pathelem)
    -- mounted at the global root
    else if mntelem.after = [] then some pathelem
    else if firstElem '/' pathelem ≠ firstElem '/' mntelem.after then none
    else if mntelem.next.after = [] then some (nextElem '/' pathelem)
    else validateLoop fuel mntelem.next (nextElem '/' pathelem)

def configValidatemnt (config : MarfsConfig) (tgtns : Option NsRef) (subpath : List Char) :
    Option (List Char) :=
  match tgtns with
  | some _ =>
    let mntparse : Cursor := ⟨config.mountpoint.reverse, []⟩
    validateLoop subpath.length ((configPrevpathelem mntparse).getD mntparse) subpath
  | none =>
    let seps := config.mountpoint.takeWhile (· = '/')
    let parsepath := skipSep '/' subpath
    validateLoop parsepath.length ⟨seps.reverse, skipSep '/' config.mountpoint⟩ parsepath

/-! ## The previous element -/

section Previous

variable {before after name front : List Char}

theorem skipBack_seps {seps : List Char} (hseps : ∀ c ∈ seps, c = '/') (before after : List Char) :
    skipBack (seps ++ before) after = skipBack before (seps.reverse ++ after) := by
  induction seps generalizing after with
  | nil => rfl
  | cons c seps ih =>
    rw [cons_append, skipBack, if_pos (hseps c mem_cons_self),
      ih fun d hd => hseps d (mem_cons_of_mem c hd), reverse_cons, append_assoc]
    rfl

theorem elemBack_name (hname : '/' ∉ name) (front after : List Char) :
    elemBack (name ++ '/' :: front) after = ⟨'/' :: front, name.reverse ++ after⟩ := by
  induction name generalizing after with
  | nil => rw [nil_append, elemBack, if_pos rfl, reverse_nil, nil_append]
  | cons c name ih =>
    have hc : c ≠ '/' := fun heq => hname (heq ▸ mem_cons_self)
    rw [cons_append, elemBack, if_neg hc, ih fun hmem => hname (mem_cons_of_mem c hmem),
      reverse_cons, append_assoc]
    rfl

theorem prevpathelem_none (hseps : ∀ c ∈ before, c = '/') :
    configPrevpathelem ⟨before, after⟩ = none := by
  have h := skipBack_seps hseps [] after
  rw [List.append_nil] at h
  rw [configPrevpathelem]
  simp only [h, skipBack, elemBack, if_true]

theorem prevpathelem_some {seps : List Char} (hseps : ∀ c ∈ seps, c = '/') (hne : name ≠ [])
    (hname : '/' ∉ name) :
    configPrevpathelem ⟨seps ++ (name ++ '/' :: front), after⟩ =
      some ⟨'/' :: front, name.reverse ++ (seps.reverse ++ after)⟩ := by
  cases name with
  | nil => exact absurd rfl hne
  | cons c name =>
    have hc : c ≠ '/' := fun heq => hname (heq ▸ mem_cons_self)
    have hrest : '/' ∉ name := fun hmem => hname (mem_cons_of_mem c hmem)
    rw [configPrevpathelem]
    simp only [skipBack_seps hseps, cons_append, skipBack, if_neg hc, elemBack_name hrest]
    rw [if_neg (cons_ne_nil _ _), reverse_cons, append_assoc]
    rfl

/-- The text before a pointer into an absolute path, read backwards: separators only, or separators, a
name and a separator. -/
theorem before_cases (habs : before = [] ∨ before.getLast? = some '/') :
    (∀ c ∈ before, c = '/') ∨ ∃ seps name front, before = seps ++ (name ++ '/' :: front) ∧
      (∀ c ∈ seps, c = '/') ∧ name ≠ [] ∧ '/' ∉ name := by
  have hseps : ∀ c ∈ before.takeWhile (· = '/'), c = '/' := fun c hc => by
    simpa using List.all_eq_true.1 all_takeWhile c hc
  have hspl : before.takeWhile (· = '/') ++ skipSep '/' before = before :=
    takeWhile_append_dropWhile
  by_cases hnil : skipSep '/' before = []
  · rw [hnil, List.append_nil] at hspl
    exact Or.inl (hspl ▸ hseps)
  · have hhead : (skipSep '/' before).head? ≠ some '/' := skipSep_head before
    rcases skipElem_cases '/' (skipSep '/' before) with hend | ⟨front, hfront⟩
    · -- then the name would be at the head of the path
      exfalso
      have hname := firstElem_append '/' (skipSep '/' before)
      rw [hend, List.append_nil] at hname
      have hlast : before.getLast? = (skipSep '/' before).getLast? := by
        rw [← hspl, List.getLast?_append_of_ne_nil _ hnil]
        rw [hspl]
      rcases habs with rfl | habs
      · exact hnil rfl
      · rw [hlast] at habs
        have hmem := mem_of_getLast? habs
        rw [← hname] at hmem
        exact sep_notMem_firstElem _ hmem
    · refine Or.inr ⟨_, firstElem '/' (skipSep '/' before), front, ?_, hseps,
        firstElem_ne_nil hhead hnil, sep_notMem_firstElem _⟩
      rw [← hfront, firstElem_append, hspl]

end Previous

/-! ## The chain to the mountpoint -/

/-- A pointer is at the `k`-th element of a mountpoint. -/
structure OnChain (mountpoint : List Char) (cur : Cursor) (k : Nat) : Prop where
  before : components '/' cur.before.reverse = (components '/' mountpoint).take k
  after : components '/' cur.after = (components '/' mountpoint).drop k
  le : k ≤ (components '/' mountpoint).length
  head : cur.after.head? ≠ some '/'
  abs : cur.before = [] ∧ cur.after = [] ∨ cur.before.getLast? = some '/'
  edge : cur.after = [] ∨ cur.before.head? = some '/'

section Chain

variable {mountpoint : List Char} {cur : Cursor} {k : Nat}

theorem components_seps {seps : List Char} (h : ∀ c ∈ seps, c = '/') (path : List Char) :
    components '/' (seps ++ path) = components '/' path := by
  induction seps with
  | nil => rfl
  | cons c seps ih =>
    rw [h c mem_cons_self, cons_append, components_sep,
      ih fun d hd => h d (mem_cons_of_mem c hd)]

/-- Nothing is left behind the last element. -/
theorem OnChain.after_eq_nil (h : OnChain mountpoint cur k) :
    cur.after = [] ↔ k = (components '/' mountpoint).length := by
  have hafter := h.after
  constructor
  · intro hnil
    rw [hnil, components_nil] at hafter
    exact Nat.le_antisymm h.le (List.drop_eq_nil_iff.1 hafter.symm)
  · intro hk
    rw [hk, drop_length] at hafter
    by_contra hne
    exact components_ne_nil h.head hne hafter

theorem take_append_singleton {names : List (List Char)} {name : List Char}
    {l : List (List Char)} (hle : k ≤ l.length) (h : names ++ [name] = l.take k) :
    0 < k ∧ names = l.take (k - 1) ∧ l.drop (k - 1) = name :: l.drop k := by
  have hlen := congrArg List.length h
  rw [length_append, length_singleton, length_take, Nat.min_eq_left hle] at hlen
  obtain ⟨j, rfl⟩ : ∃ j, k = j + 1 := ⟨names.length, hlen.symm⟩
  have hj : j < l.length := hle
  rw [take_succ_eq_append_getElem hj] at h
  obtain ⟨hnames, hname⟩ := append_inj' h rfl
  obtain rfl := List.singleton_inj.1 hname
  exact ⟨j.succ_pos, hnames, drop_eq_getElem_cons hj⟩

theorem OnChain.prev (h : OnChain mountpoint cur k) :
    (k = 0 ∧ configPrevpathelem cur = none) ∨
      ∃ prev, configPrevpathelem cur = some prev ∧ 0 < k ∧ OnChain mountpoint prev (k - 1) := by
  obtain ⟨before, after⟩ := cur
  obtain ⟨hbef, hafter, hle, hhead, habs, hedge⟩ := h
  rcases before_cases (habs.imp_left And.left) with hseps | ⟨seps, name, front, rfl, hseps, hne, hname⟩
  · left
    have hnone := components_seps (fun c hc => hseps c (List.mem_reverse.1 hc)) []
    rw [List.append_nil, components_nil] at hnone
    rw [hnone] at hbef
    have hk := congrArg List.length hbef
    rw [length_nil, length_take, Nat.min_eq_left hle] at hk
    exact ⟨hk.symm, prevpathelem_none hseps⟩
  · right
    have hreverse : (seps ++ (name ++ '/' :: front)).reverse =
        ('/' :: front).reverse ++ (name.reverse ++ seps.reverse) := by
      simp
    have hsepsafter : seps.reverse ++ after = [] ∨ ∃ path, seps.reverse ++ after = '/' :: path := by
      cases hrev : seps.reverse with
      | nil =>
        rw [List.reverse_eq_nil_iff.1 hrev, nil_append] at hedge
        rcases hedge with hnil | hslash
        · exact Or.inl hnil
        · rw [List.head?_append_of_ne_nil _ hne] at hslash
          exact absurd (mem_of_head? hslash) hname
      | cons c rest =>
        have hc := hseps c (List.mem_reverse.1 (hrev ▸ mem_cons_self))
        exact Or.inr ⟨rest ++ after, by rw [hc, cons_append]⟩
    have hsepsend : seps.reverse = [] ∨ ∃ path, seps.reverse = '/' :: path := by
      cases hrev : seps.reverse with
      | nil => exact Or.inl rfl
      | cons c rest =>
        exact Or.inr ⟨rest, by rw [hseps c (List.mem_reverse.1 (hrev ▸ mem_cons_self))]⟩
    have hnone := components_seps (fun c hc => hseps c (List.mem_reverse.1 hc)) []
    rw [List.append_nil, components_nil] at hnone
    have helem : components '/' name.reverse = [name.reverse] :=
      components_elem (by simpa using hne) (by simpa using hname)
    have hfront : components '/' ('/' :: front).reverse ++ [name.reverse] =
        (components '/' mountpoint).take k := by
      rw [← hbef]
      dsimp only
      rw [hreverse, reverse_cons, append_assoc, singleton_append, components_append_sep,
        components_append_sep, components_append hsepsend, helem, hnone, components_nil,
        List.append_nil, List.append_nil]
    obtain ⟨hk, htake, hdrop⟩ := take_append_singleton hle hfront
    refine ⟨_, prevpathelem_some hseps hne hname, hk, ?_⟩
    constructor
    · exact htake
    · rw [hdrop, ← hafter]
      dsimp only
      rw [components_append hsepsafter, helem,
        components_seps (fun c hc => hseps c (List.mem_reverse.1 hc))]
      rfl
    · omega
    · intro hslash
      rw [List.head?_append_of_ne_nil _ (by simpa using hne)] at hslash
      exact hname (List.mem_reverse.1 (mem_of_head? hslash))
    · right
      rcases habs with ⟨hnil, -⟩ | habs
      · simp at hnil
      · rw [List.getLast?_append_of_ne_nil _ (by simp), List.getLast?_append_of_ne_nil _ (by simp)]
          at habs
        exact habs
    · exact Or.inr rfl

theorem OnChain.next (h : OnChain mountpoint cur k) (hne : cur.after ≠ []) :
    OnChain mountpoint cur.next (k + 1) ∧
      (components '/' mountpoint)[k]? = some (firstElem '/' cur.after) := by
  obtain ⟨hbef, hafter, hle, hhead, habs, hedge⟩ := h
  have helem := components_elem (firstElem_ne_nil hhead hne) (sep_notMem_firstElem cur.after)
  have hseps : ∀ c ∈ (skipElem '/' cur.after).takeWhile (· = '/'), c = '/' := fun c hc => by
    simpa using List.all_eq_true.1 all_takeWhile c hc
  rw [components_eq_cons hhead hne] at hafter
  have hk : k < (components '/' mountpoint).length := by
    by_contra hge
    rw [drop_eq_nil_of_le (Nat.le_of_not_lt hge)] at hafter
    cases hafter
  rw [drop_eq_getElem_cons hk] at hafter
  obtain ⟨hname, hrest⟩ := List.cons.inj hafter
  have hreverse : cur.next.before.reverse = cur.before.reverse ++ (firstElem '/' cur.after ++
      (skipElem '/' cur.after).takeWhile (· = '/')) := by
    simp [Cursor.next]
  have hsepsend : (skipElem '/' cur.after).takeWhile (· = '/') = [] ∨
      ∃ path, (skipElem '/' cur.after).takeWhile (· = '/') = '/' :: path := by
    cases hcase : (skipElem '/' cur.after).takeWhile (· = '/') with
    | nil => exact Or.inl rfl
    | cons c rest => exact Or.inr ⟨rest, by rw [hseps c (hcase ▸ mem_cons_self)]⟩
  have hnone := components_seps hseps []
  rw [List.append_nil, components_nil] at hnone
  have hfront : ∀ path, components '/' (cur.before.reverse ++ path) =
      components '/' cur.before.reverse ++ components '/' path := by
    intro path
    rcases hedge with hnil | hslash
    · exact absurd hnil hne
    · cases hcase : cur.before with
      | nil => rw [hcase] at hslash; cases hslash
      | cons c front =>
        rw [hcase] at hslash
        rw [Option.some.inj hslash, reverse_cons, append_assoc, singleton_append,
          components_append_sep, components_append_sep, components_nil, List.append_nil]
  refine ⟨?_, by rw [List.getElem?_eq_getElem hk, hname]⟩
  constructor
  · rw [hreverse, hfront, components_append hsepsend, hbef, helem, hnone, List.append_nil, hname,
      take_append_getElem hk]
  · exact hrest
  · exact hk
  · exact nextElem_head cur.after
  · right
    rcases habs with ⟨-, hnil⟩ | habs
    · exact absurd hnil hne
    · have hbef' : cur.before ≠ [] := fun hnil => by rw [hnil] at habs; cases habs
      rw [Cursor.next, List.getLast?_append_of_ne_nil _ hbef', habs]
  · rcases skipElem_cases '/' cur.after with hnil | ⟨rest, hrest⟩
    · left
      rw [Cursor.next, nextElem, hnil]
      rfl
    · right
      rcases hsepsend with hnil | ⟨path, hpath⟩
      · rw [hrest, takeWhile_cons_of_pos (by simp)] at hnil
        cases hnil
      · have hall := fun c hc => hseps c (List.mem_reverse.1 hc)
        rw [hpath] at hall
        cases hrev : ('/' :: path).reverse with
        | nil => simp at hrev
        | cons c front =>
          rw [hrev] at hall
          rw [Cursor.next]
          dsimp only
          rw [hpath, hrev, append_assoc, cons_append, hall c mem_cons_self]
          rfl

/-- The pointer at which a path that leaves the root namespace begins. -/
theorem onChain_last (habs : mountpoint = [] ∨ mountpoint.head? = some '/') :
    OnChain mountpoint ((configPrevpathelem ⟨mountpoint.reverse, []⟩).getD ⟨mountpoint.reverse, []⟩)
      ((components '/' mountpoint).length - 1) := by
  have hend : OnChain mountpoint ⟨mountpoint.reverse, []⟩ (components '/' mountpoint).length := by
    refine ⟨?_, ?_, le_rfl, nofun, ?_, Or.inl rfl⟩
    · rw [take_length, reverse_reverse]
    · rw [drop_length, components_nil]
    · rcases habs with rfl | habs
      · exact Or.inl ⟨rfl, rfl⟩
      · exact Or.inr (by rw [List.getLast?_reverse, habs])
  rcases hend.prev with ⟨hk, hnone⟩ | ⟨prev, hprev, -, hchain⟩
  · rw [hnone, hk]
    rw [hk] at hend
    exact hend
  · rw [hprev]
    exact hchain

/-- The pointer at which an absolute path begins. -/
theorem onChain_first (habs : mountpoint = [] ∨ mountpoint.head? = some '/') :
    OnChain mountpoint ⟨(mountpoint.takeWhile (· = '/')).reverse, skipSep '/' mountpoint⟩ 0 := by
  have hseps : ∀ c ∈ mountpoint.takeWhile (· = '/'), c = '/' := fun c hc => by
    simpa using List.all_eq_true.1 all_takeWhile c hc
  have hnone := components_seps hseps []
  rw [List.append_nil, components_nil] at hnone
  refine ⟨?_, components_skipSep _, Nat.zero_le _, skipSep_head _, ?_, ?_⟩
  · rw [reverse_reverse, hnone, take_zero]
  · rcases habs with rfl | habs
    · exact Or.inl ⟨rfl, rfl⟩
    · right
      cases mountpoint with
      | nil => cases habs
      | cons c rest =>
        rw [List.getLast?_reverse, Option.some.inj habs, takeWhile_cons_of_pos (by simp)]
        rfl
  · rcases habs with rfl | habs
    · exact Or.inl rfl
    · right
      rw [List.head?_reverse]
      have hne : mountpoint.takeWhile (· = '/') ≠ [] := by
        cases mountpoint with
        | nil => cases habs
        | cons c rest =>
          rw [Option.some.inj habs, takeWhile_cons_of_pos (by simp)]
          exact cons_ne_nil _ _
      rw [List.getLast?_eq_some_getLast hne, hseps _ (getLast_mem hne)]

end Chain

/-! ## The loop -/

section Loop

variable {config : MarfsConfig} {cur : Cursor} {fuel k : Nat} {path rest : List Char}

theorem settle_take (hk : k < config.mount.length) :
    config.settle (config.mount.take k) = .outside (config.mount.take k) := by
  refine if_neg fun heq => ?_
  have hlen := congrArg List.length heq
  rw [length_take] at hlen
  omega

theorem settle_mount : config.settle config.mount = .within config.rootns [] := if_pos rfl

theorem walk_up (location : Location) : config.walk location ['.', '.'] = config.parent location :=
  if_pos rfl

theorem walk_here (location : Location) : config.walk location ['.'] = location := by
  rw [MarfsConfig.walk, if_neg (by decide), if_pos rfl]

theorem walk_entry {name : List Char} (hup : name ≠ ['.', '.']) (hhere : name ≠ ['.'])
    (location : Location) : config.walk location name = config.entry name location := by
  rw [MarfsConfig.walk, if_neg hup, if_neg hhere]

theorem walk_mount {name : List Char} (hname : config.mount[k]? = some name) (hup : name ≠ ['.', '.'])
    (hhere : name ≠ ['.']) :
    config.walk (config.settle (config.mount.take k)) name =
      config.settle (config.mount.take (k + 1)) := by
  obtain ⟨hlt, heq⟩ := List.getElem?_eq_some_iff.1 hname
  rw [walk_entry hup hhere, settle_take hlt, MarfsConfig.entry, ← heq, take_append_getElem hlt]

theorem not_enters_settle {location : Location} {name : List Char} {dir : List (List Char)}
    (h : config.walk location name = config.settle dir) :
    ¬∃ ns' dir', config.walk location name = .within ns' dir' ∧ ns' ≠ config.rootns := by
  rintro ⟨ns', dir', hwalk, hne⟩
  rw [h, MarfsConfig.settle] at hwalk
  split at hwalk
  · exact hne (Location.within.inj hwalk).1.symm
  · cases hwalk

theorem validateLoop_resolve (hchain : OnChain config.mountpoint cur k)
    (hk : k < config.mount.length ∨ config.mount.length = 0) (hhead : path.head? ≠ some '/')
    (h : validateLoop fuel cur path = some rest) :
    ∃ names, components '/' path = names ++ components '/' rest ∧
      config.resolve (config.settle (config.mount.take k)) names = .within config.rootns [] ∧
      ¬config.Enters config.rootns (config.settle (config.mount.take k)) names ∧
      rest.head? ≠ some '/' := by
  induction fuel generalizing cur k path with
  | zero => cases h
  | succ fuel ih =>
    rw [validateLoop] at h
    split_ifs at h with hnil hup hhere hglob hoth hent
    · -- up
      rw [components_eq_cons hhead hnil, hup]
      rcases hchain.prev with ⟨-, hnone⟩ | ⟨prev, hprev, hpos, hchain'⟩
      · rw [hnone] at h
        cases h
      · rw [hprev] at h
        have hlt : k < config.mount.length := by
          have hle : k ≤ config.mount.length := hchain.le
          omega
        have hwalk : config.walk (config.settle (config.mount.take k)) ['.', '.'] =
            config.settle (config.mount.take (k - 1)) := by
          rw [walk_up, settle_take hlt, MarfsConfig.parent, dropLast_take hlt]
        obtain ⟨names, hnames, hresol, henters, hrest⟩ :=
          ih hchain' (Or.inl (by omega)) (nextElem_head path) h
        refine ⟨['.', '.'] :: names, by rw [hnames]; rfl, by rw [resolve_cons, hwalk, hresol], ?_,
          hrest⟩
        rintro (henter | henter)
        · exact not_enters_settle hwalk henter
        · exact henters (hwalk ▸ henter)
    · -- here
      rw [components_eq_cons hhead hnil, hhere]
      obtain ⟨names, hnames, hresol, henters, hrest⟩ := ih hchain hk (nextElem_head path) h
      have hwalk : config.walk (config.settle (config.mount.take k)) ['.'] =
          config.settle (config.mount.take k) := walk_here _
      refine ⟨['.'] :: names, by rw [hnames]; rfl, by rw [resolve_cons, hwalk, hresol], ?_,
        hrest⟩
      rintro (henter | henter)
      · exact not_enters_settle hwalk henter
      · exact henters (hwalk ▸ henter)
    · -- below the global root
      obtain rfl := Option.some.inj h
      have hlen : k = config.mount.length := hchain.after_eq_nil.1 hglob
      refine ⟨[], rfl, ?_, id, hhead⟩
      rw [resolve_nil, hlen, take_length, settle_mount]
    · -- into the mountpoint
      obtain rfl := Option.some.inj h
      obtain ⟨hchain', hname⟩ := hchain.next hglob
      have hlast : k + 1 = config.mount.length := hchain'.after_eq_nil.1 hent
      have hwalk := walk_mount ((not_not.1 hoth) ▸ hname) hup hhere
      rw [hlast, take_length] at hwalk
      refine ⟨[firstElem '/' path], components_eq_cons hhead hnil, ?_, ?_, nextElem_head path⟩
      · rw [resolve_cons, hwalk, resolve_nil, settle_mount]
      · rintro (henter | henter)
        · exact not_enters_settle hwalk henter
        · exact henter
    · -- to the next element
      obtain ⟨hchain', hname⟩ := hchain.next hglob
      have hlt : k < config.mount.length := (List.getElem?_eq_some_iff.1 hname).1
      have hlt' : k + 1 < config.mount.length := by
        have hne : k + 1 ≠ config.mount.length := fun heq => hent (hchain'.after_eq_nil.2 heq)
        omega
      have hwalk := walk_mount ((not_not.1 hoth) ▸ hname) hup hhere
      rw [components_eq_cons hhead hnil]
      obtain ⟨names, hnames, hresol, henters, hrest⟩ :=
        ih hchain' (Or.inl hlt') (nextElem_head path) h
      refine ⟨firstElem '/' path :: names, by rw [hnames]; rfl, by rw [resolve_cons, hwalk, hresol], ?_,
        hrest⟩
      rintro (henter | henter)
      · exact not_enters_settle hwalk henter
      · exact henters (hwalk ▸ henter)

theorem validateLoop_suffix (h : validateLoop fuel cur path = some rest) : rest <:+ path := by
  induction fuel generalizing cur path with
  | zero => cases h
  | succ fuel ih =>
    rw [validateLoop] at h
    split_ifs at h
    · split at h
      · cases h
      · exact (ih h).trans (nextElem_suffix path)
    · exact (ih h).trans (nextElem_suffix path)
    · exact Option.some.inj h ▸ suffix_rfl
    · exact Option.some.inj h ▸ nextElem_suffix path
    · exact (ih h).trans (nextElem_suffix path)

/-- Repeated separators do not count. -/
theorem validateLoop_same {fuel' : Nat} {path' : List Char} (hsame : Same '/' path path')
    (hfuel : path.length ≤ fuel) (hfuel' : path'.length ≤ fuel') :
    Option.Rel (Same '/') (validateLoop fuel cur path) (validateLoop fuel' cur path') := by
  induction fuel generalizing fuel' cur path path' with
  | zero =>
    obtain rfl := List.length_eq_zero_iff.1 (Nat.le_zero.1 hfuel)
    obtain rfl := hsame.eq_nil.1 rfl
    cases fuel' with
    | zero => exact .none
    | succ fuel' =>
      rw [validateLoop, validateLoop, if_pos rfl]
      exact .none
  | succ fuel ih =>
    by_cases hnil : path = []
    · obtain rfl := hsame.eq_nil.1 hnil
      rw [validateLoop, if_pos hnil]
      cases fuel' with
      | zero => exact .none
      | succ fuel' =>
        rw [validateLoop, if_pos rfl]
        exact .none
    · have hnil' : path' ≠ [] := fun h => hnil (hsame.eq_nil.2 h)
      obtain ⟨fuel', rfl⟩ := Nat.exists_eq_add_one_of_ne_zero
        (Nat.ne_of_gt ((length_pos_of_ne_nil hnil').trans_le hfuel'))
      obtain ⟨hfst, hnext⟩ := hsame.cons hnil
      have hlt := nextElem_length_lt hsame.head hnil
      have hlt' := nextElem_length_lt hsame.head' hnil'
      have ihnext : ∀ cur, Option.Rel (Same '/') (validateLoop fuel cur (nextElem '/' path))
          (validateLoop fuel' cur (nextElem '/' path')) := fun cur =>
        ih hnext (by omega) (by omega)
      rw [validateLoop, validateLoop, if_neg hnil, if_neg hnil', hfst]
      split_ifs
      · cases configPrevpathelem cur with
        | none => exact .none
        | some prev => exact ihnext prev
      · exact ihnext cur
      · exact .some hsame
      · exact .none
      · exact .some hnext
      · exact ihnext cur.next

end Loop

/-! ## The result -/

section Validate

variable {config : MarfsConfig} {path path' rest : List Char}

/-- What is left of a path that a walk from some directory outside brings to the mountpoint. -/
structure Reaches (config : MarfsConfig) (dir : List (List Char)) (path rest : List Char) : Prop where
  resolves : ∃ names, components '/' path = names ++ components '/' rest ∧
    config.resolve (config.settle dir) names = .within config.rootns [] ∧
    ¬config.Enters config.rootns (config.settle dir) names
  head : rest.head? ≠ some '/'

theorem validatemnt_absolute
    (habs : config.mountpoint = [] ∨ config.mountpoint.head? = some '/')
    (h : configValidatemnt config none path = some rest) : Reaches config [] path rest := by
  obtain ⟨names, hnames, hresol, hent, hhead⟩ := validateLoop_resolve
    (onChain_first habs) (Nat.eq_zero_or_pos _).symm (skipSep_head path) h
  rw [components_skipSep] at hnames
  exact ⟨⟨names, hnames, hresol, hent⟩, hhead⟩

theorem validatemnt_relative {tgtns : NsRef}
    (habs : config.mountpoint = [] ∨ config.mountpoint.head? = some '/')
    (hhead : path.head? ≠ some '/') (h : configValidatemnt config (some tgtns) path = some rest) :
    Reaches config config.mount.dropLast path rest := by
  have hk : config.mount.length - 1 < config.mount.length ∨ config.mount.length = 0 := by omega
  obtain ⟨names, hnames, hresol, hent, hrest⟩ :=
    validateLoop_resolve (onChain_last habs) hk hhead h
  have htake : config.mount.take (config.mount.length - 1) = config.mount.dropLast :=
    List.dropLast_eq_take.symm
  rw [show (components '/' config.mountpoint).length = config.mount.length from rfl, htake]
    at hresol hent
  exact ⟨⟨names, hnames, hresol, hent⟩, hrest⟩

theorem validatemnt_suffix {tgtns : Option NsRef} (h : configValidatemnt config tgtns path = some rest) :
    rest <:+ path := by
  cases tgtns with
  | none => exact (validateLoop_suffix h).trans (dropWhile_suffix _)
  | some tgtns => exact validateLoop_suffix h

theorem validatemnt_same {tgtns : Option NsRef}
    (hsame : components '/' path = components '/' path')
    (hhead : tgtns ≠ none → path.head? ≠ some '/' ∧ path'.head? ≠ some '/') :
    Option.Rel (Same '/') (configValidatemnt config tgtns path)
      (configValidatemnt config tgtns path') := by
  cases tgtns with
  | none =>
    refine validateLoop_same ⟨?_, skipSep_head path, skipSep_head path'⟩ le_rfl le_rfl
    rw [components_skipSep, components_skipSep, hsame]
  | some tgtns =>
    obtain ⟨hhead, hhead'⟩ := hhead (Option.some_ne_none tgtns)
    exact validateLoop_same ⟨hsame, hhead, hhead'⟩ le_rfl le_rfl

end Validate

end Marfs.Config
