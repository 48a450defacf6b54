import Marfs.Tagging.RtagString
import Mathlib.Logic.Function.Basic

/-!
# The health arrays of a rebuild tag

`rtag_initstr` writes the health flags of a string where they are going to stay: the arrays the struct
has are written in place if they have the right length.  Here the parser is modelled with what it
leaves behind in the struct when it fails.

A health list is read flag by flag.  Nothing looks how many blocks it has, as long as there are not too
many, and without a separator two flags are for one block.
-/

namespace Marfs.Tagging

open Cstring List

/-! ## The parser -/

inductive HealthKind where
  | datahealth
  | metahealth
  deriving DecidableEq, Repr

def healthHeader (s : List Char) : Option (HealthKind × List Char) :=
  match skipHeader datahealthHeader s with
  | some s => some (.datahealth, s)
  | none => (skipHeader metahealthHeader s).map (.metahealth, ·)

def Rtag.status (rtag : Rtag) : HealthKind → List Bool
  | .datahealth => rtag.stripestate.dataStatus
  | .metahealth => rtag.stripestate.metaStatus

/-- The loop over the flags of a stanza: the array it leaves, and what follows the stanza, if it is
closed. -/
def flagLoop (stripewidth : Nat) : (hindex : Nat) → List Char → (healthlist : List Bool) →
    List Bool × Option (List Char)
  | _, [], healthlist => (healthlist, none)
  | hindex, c :: parse, healthlist =>
    if c = ')' then (healthlist, some parse)
    else if hindex < stripewidth && (c = '0' || c = '1') then
      let healthlist := healthlist.set hindex (c == '1')
      match parse with
      | '-' :: parse => flagLoop stripewidth (hindex + 1) parse healthlist
      | parse => flagLoop stripewidth hindex parse healthlist
    else (healthlist, none)

structure HealthArrays where
  status : HealthKind → List Bool
  found : HealthKind → Bool

def HealthArrays.write (arrays : HealthArrays) (kind : HealthKind) (healthlist : List Bool) :
    HealthArrays :=
  { status := Function.update arrays.status kind healthlist
    found := Function.update arrays.found kind true }

/-- The loop over the health stanzas: the arrays it leaves, and whether it got to the end of the
string. -/
def stanzaLoop (stripewidth : Nat) : Nat → List Char → HealthArrays → HealthArrays × Bool
  | _, [], arrays => (arrays, true)
  | 0, _ :: _, arrays => (arrays, false)
  | fuel + 1, c :: parse, arrays =>
    match healthHeader (c :: parse) with
    | none => (arrays, false)
    | some (kind, parse) =>
      if arrays.found kind then (arrays, false)
      else
        match flagLoop stripewidth 0 parse (arrays.status kind) with
        | (healthlist, none) => (arrays.write kind healthlist, false)
        | (healthlist, some parse) => stanzaLoop stripewidth fuel parse (arrays.write kind healthlist)

def parseTimestamp (rtagstr : List Char) : Option (Nat × List Char) := do
  let s ← skipHeader rtagVersionHeader rtagstr
  let s ← exactNumber rtagCurrentMajorversion '.' s
  let s ← exactNumber rtagCurrentMinorversion ')' s
  let s ← skipHeader timestampHeader s
  match strtoull s with
  | (createtime, ')' :: s) => some (createtime, s)
  | _ => none

def parseStripeinfo (s : List Char) : Option (Stripe × List Char) := do
  let s ← skipHeader stripeinfoHeader s
  let (stripe, _, s) ← parseValues '|' storeStripe s.length s
    { stripewidth := 0, versz := 0, blocksz := 0, totsz := 0 } 0
  if stripe.stripewidth = 0 || stripe.versz = 0 || stripe.blocksz = 0 || stripe.totsz = 0 then none
  else some (stripe, s)

/-- The array of the struct is written in place. -/
def Rtag.reuses (rtag : Rtag) (stripewidth : Nat) (kind : HealthKind) : Bool :=
  rtag.stripewidth = stripewidth && !(rtag.status kind).isEmpty

def Rtag.arrays (rtag : Rtag) (stripewidth : Nat) : HealthArrays :=
  { status := fun kind => statusArray rtag stripewidth (rtag.status kind)
    found := fun _ => false }

/-- The tag after a failure: its own arrays are what was written to them, new ones are freed. -/
def Rtag.afterFailure (rtag : Rtag) (stripewidth : Nat) (arrays : HealthArrays) : Rtag :=
  let left := fun kind =>
    if rtag.reuses stripewidth kind then arrays.status kind else rtag.status kind
  { rtag with
    stripestate := { rtag.stripestate with
      dataStatus := left .datahealth, metaStatus := left .metahealth } }

/-- The tag that the values of a string are stored in. -/
def Rtag.parsed (createtime : Nat) (stripe : Stripe) (status : HealthKind → List Bool) : Rtag :=
  { majorversion := rtagCurrentMajorversion, minorversion := rtagCurrentMinorversion
    createtime := toTime createtime, stripewidth := stripe.stripewidth
    stripestate :=
      { versz := stripe.versz, blocksz := stripe.blocksz, totsz := stripe.totsz
        metaStatus := status .metahealth, dataStatus := status .datahealth } }

/-- `rtag_initstr`: whether it succeeds, and the tag it leaves.  `alloc` is whether a new array is
allocated. -/
def rtagInitstrIn (alloc : HealthKind → Bool) (rtag : Rtag) (rtagstr : List Char) : Bool × Rtag :=
  match parseTimestamp rtagstr with
  | none => (false, rtag)
  | some (createtime, s) =>
    if s.isEmpty then
      (true, .parsed createtime { stripewidth := 0, versz := 0, blocksz := 0, totsz := 0 } fun _ => [])
    else
      match parseStripeinfo s with
      | none => (false, rtag)
      | some (stripe, s) =>
        if !(rtag.reuses stripe.stripewidth .datahealth || alloc .datahealth) then (false, rtag)
        else if !(rtag.reuses stripe.stripewidth .metahealth || alloc .metahealth) then (false, rtag)
        else
          let (arrays, ended) :=
            stanzaLoop stripe.stripewidth s.length s (rtag.arrays stripe.stripewidth)
          if ended && arrays.found .metahealth && arrays.found .datahealth then
            (true, .parsed createtime stripe arrays.status)
          else (false, rtag.afterFailure stripe.stripewidth arrays)

/-- The stripe sizes of a string and its health part, where the parser gets there with arrays to parse
the health part into. -/
def healthPart (alloc : HealthKind → Bool) (rtag : Rtag) (rtagstr : List Char) :
    Option (Nat × Stripe × List Char) := do
  let (createtime, s) ← parseTimestamp rtagstr
  let (stripe, s) ← parseStripeinfo s
  if (rtag.reuses stripe.stripewidth .datahealth || alloc .datahealth) &&
      (rtag.reuses stripe.stripewidth .metahealth || alloc .metahealth) then
    some (createtime, stripe, s)
  else none

section Parser

variable {alloc : HealthKind → Bool} {rtag : Rtag} {rtagstr s : List Char} {createtime : Nat}
  {stripe : Stripe}

theorem rtagInitstrIn_of_none (h : healthPart alloc rtag rtagstr = none) :
    rtagInitstrIn alloc rtag rtagstr = (false, rtag) ∨
      ∃ createtime, rtagInitstrIn alloc rtag rtagstr = (true, .parsed createtime
        { stripewidth := 0, versz := 0, blocksz := 0, totsz := 0 } fun _ => []) := by
  unfold rtagInitstrIn
  cases htime : parseTimestamp rtagstr with
  | none => exact .inl rfl
  | some time =>
    obtain ⟨createtime, s⟩ := time
    dsimp only
    split
    · exact .inr ⟨createtime, rfl⟩
    cases hstrp : parseStripeinfo s with
    | none => exact .inl rfl
    | some stripeinfo =>
      obtain ⟨stripe, s⟩ := stripeinfo
      simp only [healthPart, htime, hstrp, Option.bind_eq_bind, Option.bind_some] at h
      left
      dsimp only
      split
      · rfl
      · next hdata =>
        rw [if_pos]
        simp only [Bool.not_eq_true', Bool.not_eq_false] at hdata
        simpa [hdata] using h

theorem parseStripeinfo_width (h : healthPart alloc rtag rtagstr = some (createtime, stripe, s)) :
    stripe.stripewidth ≠ 0 := by
  simp only [healthPart, Option.bind_eq_bind] at h
  obtain ⟨⟨createtime', t⟩, -, h⟩ := Option.bind_eq_some_iff.1 h
  obtain ⟨⟨stripe', t'⟩, hstrp, h⟩ := Option.bind_eq_some_iff.1 h
  dsimp only at hstrp h
  split at h
  · cases h
    simp only [parseStripeinfo, Option.bind_eq_bind] at hstrp
    obtain ⟨t₁, -, hstrp⟩ := Option.bind_eq_some_iff.1 hstrp
    obtain ⟨⟨stripe', found, t₂⟩, -, hstrp⟩ := Option.bind_eq_some_iff.1 hstrp
    split at hstrp
    · cases hstrp
    · next hzero =>
      cases hstrp
      simp only [Bool.or_eq_true, decide_eq_true_eq, not_or] at hzero
      exact hzero.1.1.1
  · cases h

theorem rtagInitstrIn_of_some (h : healthPart alloc rtag rtagstr = some (createtime, stripe, s)) :
    rtagInitstrIn alloc rtag rtagstr =
      let (arrays, ended) := stanzaLoop stripe.stripewidth s.length s (rtag.arrays stripe.stripewidth)
      if ended && arrays.found .metahealth && arrays.found .datahealth then
        (true, .parsed createtime stripe arrays.status)
      else (false, rtag.afterFailure stripe.stripewidth arrays) := by
  simp only [healthPart, Option.bind_eq_bind] at h
  obtain ⟨⟨createtime', t⟩, htime, h⟩ := Option.bind_eq_some_iff.1 h
  obtain ⟨⟨stripe', t'⟩, hstrp, h⟩ := Option.bind_eq_some_iff.1 h
  dsimp only at hstrp h
  split at h
  · next hallocs =>
    cases h
    have hne : t.isEmpty = false := by
      cases t with
      | nil => cases hstrp
      | cons c t => rfl
    simp only [Bool.and_eq_true] at hallocs
    simp only [rtagInitstrIn, htime, hne, hstrp, hallocs, Bool.not_true, Bool.false_eq_true, if_false]
  · cases h

end Parser

/-! ## The same parser without what a failure leaves -/

theorem flagLoop_eq (stripewidth : Nat) (s : List Char) (hidx : Nat) (healthlist : List Bool) :
    parseHealth stripewidth hidx s healthlist =
      (flagLoop stripewidth hidx s healthlist).2.map
        ((flagLoop stripewidth hidx s healthlist).1, ·) := by
  induction s using flags_induction generalizing hidx healthlist with
  | nil => rfl
  | cons c s ihsep ih =>
    rw [parseHealth, flagLoop]
    by_cases hc : c = ')'
    · rw [if_pos hc, if_pos hc]
      rfl
    rw [if_neg hc, if_neg hc]
    by_cases hflag : (hidx < stripewidth && (c = '0' || c = '1')) = true
    · rw [if_pos hflag, if_pos hflag]
      by_cases hs : ∃ s', s = '-' :: s'
      · obtain ⟨s', rfl⟩ := hs
        exact ihsep s' rfl _ _
      · have hsep (s' : List Char) (h : s = '-' :: s') : False := hs ⟨s', h⟩
        simp only
        exact ih _ _
    · rw [if_neg hflag, if_neg hflag]
      rfl

/-- The arrays of a loop over the stanzas, in the form the parser on lists has them. -/
def HealthArrays.health (arrays : HealthArrays) : Health :=
  { dataStatus := arrays.status .datahealth, metaStatus := arrays.status .metahealth
    datahval := arrays.found .datahealth, metahval := arrays.found .metahealth }

@[simp] theorem HealthArrays.status_write (arrays : HealthArrays) (kind : HealthKind)
    (healthlist : List Bool) : (arrays.write kind healthlist).status kind = healthlist :=
  Function.update_self ..

variable {kind : HealthKind} {arrays : HealthArrays} {healthlist healths : List Bool}
  {stripewidth fuel hidx : Nat} {s rest list : List Char} {rtag : Rtag}

variable {kind' : HealthKind} {c : Char} {flag : Nat × Bool} {alloc : HealthKind → Bool}
  {rtagstr : List Char} {status : List Bool}

theorem HealthArrays.status_write_of_ne (arrays : HealthArrays) (h : kind' ≠ kind) (healthlist : List Bool) :
    (arrays.write kind healthlist).status kind' = arrays.status kind' :=
  Function.update_of_ne h ..

theorem HealthArrays.ne_of_found_write (h : (arrays.write kind healthlist).found kind' = false) :
    kind' ≠ kind ∧ arrays.found kind' = false := by
  have hne : kind' ≠ kind := by
    rintro rfl
    have htrue : (arrays.write kind' healthlist).found kind' = true := Function.update_self ..
    rw [htrue] at h
    cases h
  have hsame : (arrays.write kind healthlist).found kind' = arrays.found kind' :=
    Function.update_of_ne hne ..
  exact ⟨hne, hsame.symm.trans h⟩

/-- One stanza. -/
theorem parseHealths_header {parse : List Char} (hhdr : healthHeader s = some (kind, parse)) (hs : s ≠ [])
    (arrays : HealthArrays) :
    parseHealths stripewidth (fuel + 1) s arrays.health =
      if arrays.found kind then none
      else
        (parseHealth stripewidth 0 parse (arrays.status kind)).bind fun (healthlist, parse) =>
          parseHealths stripewidth fuel parse (arrays.write kind healthlist).health := by
  rw [parseHealths]
  · unfold healthHeader at hhdr
    cases hdata : skipHeader datahealthHeader s with
    | some parse' =>
      rw [hdata] at hhdr
      cases hhdr
      rfl
    | none =>
      rw [hdata] at hhdr
      obtain ⟨parse', hmeta, hhdr⟩ := Option.map_eq_some_iff.1 hhdr
      cases hhdr
      rw [hmeta]
      rfl
  · exact hs

theorem parseHealths_noHeader (hhdr : healthHeader s = none) (hs : s ≠ []) (health : Health) :
    parseHealths stripewidth (fuel + 1) s health = none := by
  rw [parseHealths]
  · unfold healthHeader at hhdr
    cases hdata : skipHeader datahealthHeader s with
    | some parse' =>
      rw [hdata] at hhdr
      cases hhdr
    | none =>
      rw [hdata] at hhdr
      rw [Option.map_eq_none_iff.1 hhdr]
      rfl
  · exact hs

theorem stanzaLoop_eq (stripewidth fuel : Nat) (s : List Char) (arrays : HealthArrays) :
    parseHealths stripewidth fuel s arrays.health =
      if (stanzaLoop stripewidth fuel s arrays).2 then
        some (stanzaLoop stripewidth fuel s arrays).1.health
      else none := by
  fun_induction stanzaLoop stripewidth fuel s arrays with
  | case1 fuel arrays => cases fuel <;> rfl
  | case2 => rfl
  | case3 fuel c parse arrays hhdr =>
    rw [parseHealths_noHeader hhdr (by simp)]
    rfl
  | case4 fuel c s arrays kind parse hhdr hfound =>
    rw [parseHealths_header hhdr (by simp), if_pos hfound]
    rfl
  | case5 fuel c s arrays kind parse hhdr hfound healthlist hlist =>
    rw [parseHealths_header hhdr (by simp), if_neg hfound, flagLoop_eq, hlist]
    rfl
  | case6 fuel c s arrays kind parse hhdr hfound healthlist rest hlist ih =>
    rw [parseHealths_header hhdr (by simp), if_neg hfound, flagLoop_eq, hlist]
    exact ih

theorem parseStripe_eq (rtag : Rtag) (s : List Char) :
    parseStripe rtag s = (parseStripeinfo s).bind fun (stripe, s) =>
      (parseHealths stripe.stripewidth s.length s (rtag.arrays stripe.stripewidth).health).bind
        fun health => if health.datahval && health.metahval then some (stripe, health) else none := by
  simp only [parseStripe, parseStripeinfo, Option.bind_eq_bind, Option.bind_assoc]
  congr 1
  funext s
  congr 1
  funext entry
  obtain ⟨stripe, found, s⟩ := entry
  dsimp only
  split <;> rfl

theorem rtagInitstr_eq (rtag : Rtag) (rtagstr : List Char) :
    rtagInitstr rtag rtagstr = (parseTimestamp rtagstr).bind fun (createtime, s) =>
      if s.isEmpty then
        some { majorversion := rtagCurrentMajorversion, minorversion := rtagCurrentMinorversion
               createtime := toTime createtime, stripewidth := 0
               stripestate :=
                { versz := 0, blocksz := 0, totsz := 0, metaStatus := [], dataStatus := [] } }
      else
        (parseStripe rtag s).bind fun (stripe, health) =>
          some { majorversion := rtagCurrentMajorversion, minorversion := rtagCurrentMinorversion
                 createtime := toTime createtime, stripewidth := stripe.stripewidth
                 stripestate :=
                   { versz := stripe.versz, blocksz := stripe.blocksz, totsz := stripe.totsz
                     metaStatus := health.metaStatus, dataStatus := health.dataStatus } } := by
  simp only [rtagInitstr, parseTimestamp, Option.bind_eq_bind, Option.bind_assoc]
  congr 1
  funext s
  congr 1
  funext s
  congr 1
  funext s
  congr 1
  funext s
  rcases strtoull s with ⟨createtime, _ | ⟨c, rest⟩⟩
  · rfl
  by_cases hclose : c = ')'
  · subst hclose
    rfl
  · simp [hclose]

/-- Where every allocation succeeds, the parser succeeds with the tag that the parser on lists
returns. -/
theorem rtagInitstrIn_eq (rtag : Rtag) (rtagstr : List Char) :
    rtagInitstr rtag rtagstr =
      if (rtagInitstrIn (fun _ => true) rtag rtagstr).1 then
        some (rtagInitstrIn (fun _ => true) rtag rtagstr).2
      else none := by
  rw [rtagInitstr_eq]
  cases htime : parseTimestamp rtagstr with
  | none => simp only [rtagInitstrIn, htime, Option.bind_none, Bool.false_eq_true, if_false]
  | some time =>
    obtain ⟨createtime, s⟩ := time
    rw [Option.bind_some]
    dsimp only
    split
    · next hemp => simp only [rtagInitstrIn, htime, hemp, if_true, Rtag.parsed]
    next hne =>
    rw [parseStripe_eq]
    cases hstrp : parseStripeinfo s with
    | none =>
      simp only [rtagInitstrIn, htime, hne, hstrp, Option.bind_none, Bool.false_eq_true, if_false]
    | some stripeinfo =>
      obtain ⟨stripe, s'⟩ := stripeinfo
      have hpart : healthPart (fun _ => true) rtag rtagstr = some (createtime, stripe, s') := by
        simp only [healthPart, htime, hstrp, Option.bind_eq_bind, Option.bind_some, Bool.or_true,
          Bool.and_true, if_true]
      rw [rtagInitstrIn_of_some hpart, Option.bind_some]
      dsimp only
      rw [stanzaLoop_eq]
      obtain ⟨arrays, ended⟩ :=
        stanzaLoop stripe.stripewidth s'.length s' (rtag.arrays stripe.stripewidth)
      cases ended
      · rfl
      obtain hmeta | hmeta := Bool.eq_false_or_eq_true (arrays.found .metahealth) <;>
        obtain hdata | hdata := Bool.eq_false_or_eq_true (arrays.found .datahealth) <;>
        simp [HealthArrays.health, hmeta, hdata, Rtag.parsed]

/-! ## What is written -/

/-- The flags that a health list gives, each with its block, up to where it is not read any further;
and what follows the stanza, if it is closed. -/
def listFlags (stripewidth : Nat) : (hindex : Nat) → List Char →
    List (Nat × Bool) × Option (List Char)
  | _, [] => ([], none)
  | hindex, c :: parse =>
    if c = ')' then ([], some parse)
    else if hindex < stripewidth && (c = '0' || c = '1') then
      match parse with
      | '-' :: parse =>
        ((hindex, c == '1') :: (listFlags stripewidth (hindex + 1) parse).1,
          (listFlags stripewidth (hindex + 1) parse).2)
      | parse =>
        ((hindex, c == '1') :: (listFlags stripewidth hindex parse).1,
          (listFlags stripewidth hindex parse).2)
    else ([], none)

def stanzaFlags (stripewidth : Nat) : Nat → List Char → (found : HealthKind → Bool) →
    List (HealthKind × List (Nat × Bool))
  | _, [], _ => []
  | 0, _ :: _, _ => []
  | fuel + 1, c :: parse, found =>
    match healthHeader (c :: parse) with
    | none => []
    | some (kind, parse) =>
      if found kind then []
      else
        match listFlags stripewidth 0 parse with
        | (flags, none) => [(kind, flags)]
        | (flags, some parse) =>
          (kind, flags) :: stanzaFlags stripewidth fuel parse (Function.update found kind true)

def flagsOf (kind : HealthKind) (stanzas : List (HealthKind × List (Nat × Bool))) :
    List (Nat × Bool) :=
  (stanzas.filter (·.1 = kind)).flatMap (·.2)

def setFlags (healthlist : List Bool) (flags : List (Nat × Bool)) : List Bool :=
  flags.foldl (fun healthlist flag => healthlist.set flag.1 flag.2) healthlist

theorem setFlags_append (healthlist : List Bool) (flags flags' : List (Nat × Bool)) :
    setFlags healthlist (flags ++ flags') = setFlags (setFlags healthlist flags) flags' :=
  foldl_append

@[simp] theorem setFlags_length (healthlist : List Bool) (flags : List (Nat × Bool)) :
    (setFlags healthlist flags).length = healthlist.length := by
  induction flags generalizing healthlist with
  | nil => rfl
  | cons flag flags ih => exact (ih _).trans length_set

theorem listFlags_close (stripewidth hidx : Nat) (parse : List Char) :
    listFlags stripewidth hidx (')' :: parse) = ([], some parse) := by
  unfold listFlags
  simp

theorem listFlags_stop (parse : List Char) (hc : c ≠ ')')
    (hflag : ¬(hidx < stripewidth && (c = '0' || c = '1')) = true) :
    listFlags stripewidth hidx (c :: parse) = ([], none) := by
  unfold listFlags
  rw [if_neg hc, if_neg hflag]

theorem flagLoop_listFlags (stripewidth hidx : Nat) (s : List Char) (healthlist : List Bool) :
    flagLoop stripewidth hidx s healthlist =
      (setFlags healthlist (listFlags stripewidth hidx s).1, (listFlags stripewidth hidx s).2) := by
  induction s using flags_induction generalizing hidx healthlist with
  | nil => rfl
  | cons c s ihsep ih =>
    rw [flagLoop]
    by_cases hc : c = ')'
    · subst hc
      rw [if_pos rfl, listFlags_close]
      rfl
    rw [if_neg hc]
    by_cases hflag : (hidx < stripewidth && (c = '0' || c = '1')) = true
    · unfold listFlags
      rw [if_pos hflag, if_neg hc, if_pos hflag]
      split
      · next s' => exact ihsep s' rfl _ _
      · exact ih _ _
    · rw [if_neg hflag, listFlags_stop _ hc hflag]
      rfl

theorem flagsOf_cons (kind kind' : HealthKind) (flags : List (Nat × Bool))
    (stanzas : List (HealthKind × List (Nat × Bool))) :
    flagsOf kind ((kind', flags) :: stanzas) =
      (if kind' = kind then flags else []) ++ flagsOf kind stanzas := by
  unfold flagsOf
  by_cases h : kind' = kind
  · rw [filter_cons_of_pos (by simpa using h), if_pos h]
    rfl
  · rw [filter_cons_of_neg (by simpa using h), if_neg h]
    rfl

theorem HealthArrays.status_write_flags (arrays : HealthArrays) (kind kind' : HealthKind)
    (flags : List (Nat × Bool)) :
    (arrays.write kind' (setFlags (arrays.status kind') flags)).status kind =
      setFlags (arrays.status kind) (if kind' = kind then flags else []) := by
  by_cases h : kind' = kind
  · subst h
    rw [status_write, if_pos rfl]
  · rw [status_write_of_ne _ (Ne.symm h), if_neg h]
    rfl

theorem stanzaLoop_status (stripewidth fuel : Nat) (s : List Char) (arrays : HealthArrays)
    (kind : HealthKind) :
    (stanzaLoop stripewidth fuel s arrays).1.status kind =
      setFlags (arrays.status kind)
        (flagsOf kind (stanzaFlags stripewidth fuel s arrays.found)) := by
  fun_induction stanzaLoop stripewidth fuel s arrays with
  | case1 fuel arrays => cases fuel <;> rfl
  | case2 => rfl
  | case3 fuel c parse arrays hhdr =>
    rw [stanzaFlags, hhdr]
    rfl
  | case4 fuel c s arrays kind' parse hhdr hfound =>
    rw [stanzaFlags, hhdr]
    dsimp only
    rw [if_pos hfound]
    rfl
  | case5 fuel c s arrays kind' parse hhdr hfound healthlist hlist =>
    obtain ⟨⟨flags, closed⟩, hflags⟩ : ∃ list, listFlags stripewidth 0 parse = list := ⟨_, rfl⟩
    rw [flagLoop_listFlags, hflags] at hlist
    cases hlist
    rw [stanzaFlags, hhdr]
    dsimp only
    rw [if_neg hfound, hflags, arrays.status_write_flags]
    dsimp only
    rw [flagsOf_cons]
    simp [flagsOf]
  | case6 fuel c s arrays kind' parse hhdr hfound healthlist rest hlist ih =>
    obtain ⟨⟨flags, closed⟩, hflags⟩ : ∃ list, listFlags stripewidth 0 parse = list := ⟨_, rfl⟩
    rw [flagLoop_listFlags, hflags] at hlist
    cases hlist
    rw [ih, stanzaFlags, hhdr]
    dsimp only
    rw [if_neg hfound, hflags, arrays.status_write_flags, ← setFlags_append]
    dsimp only
    rw [flagsOf_cons]
    rfl

theorem listFlags_lt (h : flag ∈ (listFlags stripewidth hidx s).1) : flag.1 < stripewidth := by
  induction s using flags_induction generalizing hidx with
  | nil => cases h
  | cons c s ihsep ih =>
    unfold listFlags at h
    split_ifs at h with hc hflag
    · cases h
    · simp only [Bool.and_eq_true, decide_eq_true_eq] at hflag
      split at h
      · next s' =>
        rcases List.mem_cons.1 h with rfl | h
        · exact hflag.1
        · exact ihsep s' rfl h
      · rcases List.mem_cons.1 h with rfl | h
        · exact hflag.1
        · exact ih h
    · cases h

theorem stanzaFlags_lt {found : HealthKind → Bool} {stanza : HealthKind × List (Nat × Bool)}
    (h : stanza ∈ stanzaFlags stripewidth fuel s found) : ∀ flag ∈ stanza.2, flag.1 < stripewidth := by
  intro flag hflag
  fun_induction stanzaFlags stripewidth fuel s found with
  | case1 => cases h
  | case2 => cases h
  | case3 => cases h
  | case4 => cases h
  | case5 fuel c s found kind parse hhdr hfound flags hlist =>
    cases List.mem_singleton.1 h
    apply @listFlags_lt stripewidth 0 parse
    rw [hlist]
    exact hflag
  | case6 fuel c s found kind parse hhdr hfound flags rest hlist ih =>
    rcases List.mem_cons.1 h with rfl | h
    · apply @listFlags_lt stripewidth 0 parse
      rw [hlist]
      exact hflag
    · exact ih h

theorem getElem?_setFlags (flags : List (Nat × Bool)) :
    ∀ {healthlist : List Bool} {hidx : Nat}, hidx < healthlist.length →
      (setFlags healthlist flags)[hidx]? =
        (flags.reverse.lookup hidx).or healthlist[hidx]? := by
  induction flags with
  | nil =>
    intro healthlist hidx _
    rfl
  | cons flag flags ih =>
    intro healthlist hidx hlt
    obtain ⟨block, health⟩ := flag
    change (setFlags (healthlist.set block health) flags)[hidx]? = _
    rw [ih (by simpa using hlt), reverse_cons, lookup_append, Option.or_assoc]
    congr 1
    rw [List.getElem?_set, lookup_cons]
    by_cases heq : block = hidx
    · subst heq
      simp [hlt]
    · have hne : (hidx == block) = false := beq_eq_false_iff_ne.2 (Ne.symm heq)
      simp [heq, hne]

theorem setFlags_eq_self_iff {flags : List (Nat × Bool)} (h : ∀ flag ∈ flags, flag.1 < healthlist.length) :
    setFlags healthlist flags = healthlist ↔
      ∀ hidx health, flags.reverse.lookup hidx = some health →
        healthlist[hidx]? = some health := by
  constructor
  · intro hself hidx health hlook
    have hlt : hidx < healthlist.length := by
      obtain ⟨l₁, l₂, heq, -⟩ := List.lookup_eq_some_iff.1 hlook
      apply h (hidx, health)
      rw [← mem_reverse, heq]
      simp
    have hget := getElem?_setFlags flags hlt
    rwa [hself, hlook] at hget
  · intro hsame
    apply ext_getElem?
    intro hidx
    by_cases hlt : hidx < healthlist.length
    · rw [getElem?_setFlags flags hlt]
      cases hlook : flags.reverse.lookup hidx with
      | none => rfl
      | some health => exact (hsame _ _ hlook).symm
    · rw [List.getElem?_eq_none (by simpa using hlt), List.getElem?_eq_none (by omega)]

/-! ## What a failure leaves -/

/-- The flags that a health part gives to the blocks of an array, up to where it is not read any
further. -/
def givenFlags (stripewidth : Nat) (s : List Char) (kind : HealthKind) : List (Nat × Bool) :=
  flagsOf kind (stanzaFlags stripewidth s.length s fun _ => false)

theorem givenFlags_lt (h : flag ∈ givenFlags stripewidth s kind) : flag.1 < stripewidth := by
  obtain ⟨stanza, hstanza, hflag⟩ := List.mem_flatMap.1 h
  exact stanzaFlags_lt (List.mem_filter.1 hstanza).1 flag hflag

/-- A string gives no block of an array that is written in place another flag than the one it has; of
several flags for a block, the last one counts. -/
def Rtag.Redundant (rtag : Rtag) (alloc : HealthKind → Bool) (rtagstr : List Char) : Prop :=
  ∀ createtime stripe s, healthPart alloc rtag rtagstr = some (createtime, stripe, s) →
    ∀ kind, rtag.reuses stripe.stripewidth kind →
      ∀ hindex health,
        (givenFlags stripe.stripewidth s kind).reverse.lookup hindex = some health →
          (rtag.status kind)[hindex]? = some health

theorem Rtag.Allocated.length_of_reuses (h : rtag.Allocated) (hreuse : rtag.reuses stripewidth kind) :
    (rtag.status kind).length = stripewidth := by
  simp only [reuses, Bool.and_eq_true, decide_eq_true_eq, Bool.not_eq_true', isEmpty_eq_false_iff]
    at hreuse
  cases kind with
  | datahealth => exact (h.dataStatus hreuse.2).trans hreuse.1
  | metahealth => exact (h.metaStatus hreuse.2).trans hreuse.1

theorem Rtag.afterFailure_eq_self_iff :
    rtag.afterFailure stripewidth arrays = rtag ↔
      ∀ kind, rtag.reuses stripewidth kind → arrays.status kind = rtag.status kind := by
  have hleft : ∀ kind, (if rtag.reuses stripewidth kind then arrays.status kind
      else rtag.status kind) = rtag.status kind ↔
        (rtag.reuses stripewidth kind → arrays.status kind = rtag.status kind) := by
    intro kind
    split
    · next hreuse => exact ⟨fun h _ => h, fun h => h hreuse⟩
    · next hreuse => exact iff_of_true rfl fun h => absurd h hreuse
  constructor
  · intro h kind
    apply (hleft kind).1
    cases kind with
    | datahealth => exact congrArg (·.status .datahealth) h
    | metahealth => exact congrArg (·.status .metahealth) h
  · intro h
    unfold afterFailure
    dsimp only
    rw [(hleft _).2 (h _), (hleft _).2 (h _)]
    rfl

/-- A failure leaves the tag as it was where every flag that was read is the one that was there. -/
theorem unchanged_on_failure_iff (h : rtag.Allocated) (hfail : (rtagInitstrIn alloc rtag rtagstr).1 = false) :
    (rtagInitstrIn alloc rtag rtagstr).2 = rtag ↔ rtag.Redundant alloc rtagstr := by
  cases hpart : healthPart alloc rtag rtagstr with
  | none =>
    have hredundant : rtag.Redundant alloc rtagstr := by
      intro createtime stripe s hsome
      rw [hpart] at hsome
      cases hsome
    rcases rtagInitstrIn_of_none hpart with hsame | ⟨createtime, hparsed⟩
    · rw [hsame]
      exact iff_of_true rfl hredundant
    · rw [hparsed] at hfail
      cases hfail
  | some part =>
    obtain ⟨createtime, stripe, s⟩ := part
    rw [rtagInitstrIn_of_some hpart] at hfail ⊢
    dsimp only at hfail ⊢
    split at hfail
    · cases hfail
    next hfails =>
    rw [if_neg hfails, Rtag.afterFailure_eq_self_iff]
    have hwritten : ∀ kind, rtag.reuses stripe.stripewidth kind →
        ((stanzaLoop stripe.stripewidth s.length s (rtag.arrays stripe.stripewidth)).1.status kind =
          rtag.status kind ↔ ∀ hindex health,
            (givenFlags stripe.stripewidth s kind).reverse.lookup hindex = some health →
              (rtag.status kind)[hindex]? = some health) := by
      intro kind hreuses
      have harray : (rtag.arrays stripe.stripewidth).status kind = rtag.status kind := by
        simp only [Rtag.reuses, Bool.and_eq_true, decide_eq_true_eq, Bool.not_eq_true'] at hreuses
        apply if_neg
        rw [hreuses.1, hreuses.2]
        simp
      rw [stanzaLoop_status, harray]
      apply setFlags_eq_self_iff
      intro flag hflag
      rw [h.length_of_reuses hreuses]
      exact givenFlags_lt hflag
    constructor
    · intro hsame createtime' stripe' s' hpart' kind hreuses
      rw [hpart] at hpart'
      cases hpart'
      exact (hwritten kind hreuses).1 (hsame kind hreuses)
    · intro hredundant kind hreuses
      exact (hwritten kind hreuses).2 (hredundant createtime stripe s hpart kind hreuses)

/-- A string that ends after a flag of the second block is set. -/
def unfinishedString : List Char := "VER(0.001)TIME(7)STP(w2|v1|b1|t1)DHLTH(0-1".toList

/-- The second block had its flag set before. -/
theorem unfinishedString_unchanged :
    (rtagInitstrIn (fun _ => true) (.sample [true, true] [false, true]) unfinishedString).2 =
        .sample [true, true] [false, true] ↔
      Rtag.Redundant (.sample [true, true] [false, true]) (fun _ => true) unfinishedString :=
  unchanged_on_failure_iff ⟨fun _ => rfl, fun _ => rfl⟩ (by decide +kernel)

/-- A failure marks a healthy block. -/
theorem unfinishedString_changes :
    Rtag.Allocated (.sample [true, true] [false, false]) ∧
      (rtagInitstrIn (fun _ => true) (.sample [true, true] [false, false]) unfinishedString).1 = false ∧
      (rtagInitstrIn (fun _ => true) (.sample [true, true] [false, false]) unfinishedString).2 ≠
        .sample [true, true] [false, false] := by
  refine ⟨⟨fun _ => rfl, fun _ => rfl⟩, ?_, ?_⟩ <;> decide +kernel

/-! ## The health lists of an accepted string -/

def healthStanza (kind : HealthKind) (list : List Char) : List Char :=
  (match kind with
  | .datahealth => datahealthHeader
  | .metahealth => metahealthHeader) ++ (list ++ [')'])

def healthLists : Nat → List Char → List (HealthKind × List Char)
  | 0, _ => []
  | fuel + 1, s =>
    match healthHeader s with
    | none => []
    | some (kind, parse) =>
      (kind, parse.takeWhile (· ≠ ')')) :: healthLists fuel (parse.dropWhile (· ≠ ')')).tail

/-- Every list of a string that has a health part has a flag for each block: there are as many flags as
blocks, and every flag but the last is followed by a separator. -/
def Separated (alloc : HealthKind → Bool) (rtag : Rtag) (rtagstr : List Char) : Prop :=
  ∀ createtime stripe s, healthPart alloc rtag rtagstr = some (createtime, stripe, s) →
    ∀ stanza ∈ healthLists s.length s,
      stanza.2.length + 1 = 2 * stripe.stripewidth ∧
        stanza.2.count '-' + 1 = stripe.stripewidth ∧ stanza.2.getLast? ≠ some '-'

/-- The health arrays of a tag are those of the string: the two lists have a flag for each block, with
separators between them, and the flags are those of the arrays.  Without a stripe there are none. -/
structure HealthExact (alloc : HealthKind → Bool) (rtag : Rtag) (rtagstr : List Char)
    (parsed : Rtag) : Prop where
  length : ∀ kind, (parsed.status kind).length = parsed.stripewidth
  stanzas : ∀ createtime stripe s, healthPart alloc rtag rtagstr = some (createtime, stripe, s) →
    parsed.stripewidth = stripe.stripewidth ∧ ∃ first second, first ≠ second ∧
      s = healthStanza first (healthValues (parsed.status first)) ++
        healthStanza second (healthValues (parsed.status second))

/-- What a closed list can be: flags, of which some are followed by a separator. -/
inductive FlagText : List Char → Prop
  | nil : FlagText []
  | next {c : Char} {s : List Char} : c = '0' ∨ c = '1' → FlagText s → FlagText (c :: s)
  | separated {c : Char} {s : List Char} : c = '0' ∨ c = '1' → FlagText s → FlagText (c :: '-' :: s)

theorem flagLoop_closed {healthlist' : List Bool}
    (h : flagLoop stripewidth hidx s healthlist = (healthlist', some rest)) :
    ∃ list, FlagText list ∧ s = list ++ ')' :: rest := by
  induction s using flags_induction generalizing hidx healthlist with
  | nil => cases h
  | cons c s ihsep ih =>
    rw [flagLoop] at h
    split_ifs at h with hc hflag
    · cases h
      exact ⟨[], .nil, hc ▸ rfl⟩
    · simp only [Bool.and_eq_true, Bool.or_eq_true, decide_eq_true_eq] at hflag
      split at h
      · next s' =>
        obtain ⟨list, htext, rfl⟩ := ihsep s' rfl h
        exact ⟨c :: '-' :: list, .separated hflag.2 htext, rfl⟩
      · obtain ⟨list, htext, rfl⟩ := ih h
        exact ⟨c :: list, .next hflag.2 htext, rfl⟩
    · cases h

theorem FlagText.not_mem (h : FlagText s) : ')' ∉ s := by
  induction h with
  | nil => simp
  | next hc _ ih => rcases hc with rfl | rfl <;> simpa using ih
  | separated hc _ ih => rcases hc with rfl | rfl <;> simpa using ih

theorem healthFlag_beq (h : c = '0' ∨ c = '1') : healthFlag (c == '1') = c := by
  rcases h with rfl | rfl <;> rfl

theorem healthValues_cons (h : healths ≠ []) (health : Bool) :
    healthValues (health :: healths) = healthFlag health :: '-' :: healthValues healths := by
  cases healths with
  | nil => exact absurd rfl h
  | cons next healths => rfl

theorem FlagText.eq_healthValues (h : FlagText s) :
    s ≠ [] → s.getLast? ≠ some '-' → 2 * s.count '-' + 1 ≤ s.length ∧
      (2 * s.count '-' + 1 = s.length →
        ∃ healths : List Bool, s = healthValues healths ∧ healths.length = s.count '-' + 1) := by
  induction h with
  | nil =>
    intro hne
    exact absurd rfl hne
  | @next c s hc hs ih =>
    intro _ hlast
    have hcnt : (c :: s).count '-' = s.count '-' := by
      apply count_cons_of_ne
      rcases hc with rfl | rfl <;> decide
    cases s with
    | nil =>
      rw [hcnt]
      exact ⟨le_rfl, fun _ => ⟨[c == '1'], by rw [healthValues, healthFlag_beq hc], rfl⟩⟩
    | cons d s =>
      rw [List.getLast?_cons_cons] at hlast
      obtain ⟨hle, -⟩ := ih (by simp) hlast
      rw [hcnt, length_cons]
      exact ⟨by omega, fun heq => by omega⟩
  | @separated c s hc hs ih =>
    intro _ hlast
    have hcnt : (c :: '-' :: s).count '-' = s.count '-' + 1 := by
      rw [count_cons_of_ne (by rcases hc with rfl | rfl <;> decide), count_cons_self]
    cases s with
    | nil => exact absurd rfl hlast
    | cons d s =>
      rw [List.getLast?_cons_cons, List.getLast?_cons_cons] at hlast
      obtain ⟨hle, heq⟩ := ih (by simp) hlast
      rw [hcnt, length_cons, length_cons]
      refine ⟨by omega, fun heq' => ?_⟩
      obtain ⟨healths, hs, hlen⟩ := heq (by omega)
      have hne : healths ≠ [] := by
        intro hnil
        rw [hnil] at hlen
        cases hlen
      refine ⟨(c == '1') :: healths, ?_, by rw [length_cons, hlen]⟩
      rw [healthValues_cons hne, healthFlag_beq hc, ← hs]

theorem healthValues_counts (h : healths ≠ []) :
    (healthValues healths).length + 1 = 2 * healths.length ∧
      (healthValues healths).count '-' + 1 = healths.length ∧
      (healthValues healths).getLast? ≠ some '-' := by
  have hflag : ∀ health, healthFlag health ≠ '-' := by decide
  induction healths with
  | nil => exact absurd rfl h
  | cons health healths ih =>
    cases healths with
    | nil =>
      refine ⟨rfl, ?_, ?_⟩
      · rw [healthValues, count_cons_of_ne (hflag health)]
        rfl
      · intro hlast
        exact hflag health (Option.some.inj hlast)
    | cons next healths =>
      obtain ⟨hlen, hcnt, hlast⟩ := ih (by simp)
      rw [healthValues_cons (by simp)]
      refine ⟨?_, ?_, ?_⟩
      · simp only [length_cons] at hlen ⊢
        omega
      · rw [count_cons_of_ne (hflag health), count_cons_self, hcnt]
        rfl
      · have hne' : healthValues (next :: healths) ≠ [] := by
          intro hnil
          rw [hnil] at hlen
          cases hlen
        obtain ⟨c, s, hs⟩ := exists_cons_of_ne_nil hne'
        rw [hs] at hlast ⊢
        rwa [List.getLast?_cons_cons, List.getLast?_cons_cons]

theorem healthValues_not_mem (healths : List Bool) : ')' ∉ healthValues healths := by
  induction healths with
  | nil => simp [healthValues]
  | cons health healths ih =>
    have hflag : ')' ≠ healthFlag health := (healthFlag_spec health).1.symm
    by_cases hne : healths = []
    · subst hne
      simp [healthValues, hflag]
    · rw [healthValues_cons hne]
      simp [hflag, ih]

theorem healthHeader_stanza (kind : HealthKind) (list rest : List Char) :
    healthHeader (healthStanza kind list ++ rest) = some (kind, list ++ ')' :: rest) := by
  cases kind with
  | datahealth =>
    rw [healthStanza, append_assoc, append_assoc, healthHeader, skipHeader_append]
    rfl
  | metahealth =>
    rw [healthStanza, append_assoc, append_assoc, healthHeader]
    have hskip : skipHeader datahealthHeader (metahealthHeader ++ (list ++ ([')'] ++ rest))) = none := rfl
    rw [hskip, skipHeader_append]
    rfl

theorem healthHeader_eq_some
    (h : healthHeader s = some (kind, list ++ ')' :: rest)) : s = healthStanza kind list ++ rest := by
  unfold healthHeader at h
  split at h
  · next hdata =>
    cases h
    rw [skipHeader_eq_some hdata]
    simp [healthStanza]
  · obtain ⟨parse, hmeta, h⟩ := Option.map_eq_some_iff.1 h
    cases h
    rw [skipHeader_eq_some hmeta]
    simp [healthStanza]

theorem healthLists_stanza (h : ')' ∉ list) (fuel : Nat) (kind : HealthKind)
    (rest : List Char) :
    healthLists (fuel + 1) (healthStanza kind list ++ rest) =
      (kind, list) :: healthLists fuel rest := by
  have hall : ∀ c ∈ list, decide (c ≠ ')') = true := by
    intro c hc
    rw [decide_eq_true_eq]
    intro heq
    exact h (heq ▸ hc)
  rw [healthLists, healthHeader_stanza]
  dsimp only
  rw [takeWhile_append_of_pos hall, dropWhile_append_of_pos hall]
  simp

theorem healthLists_both {list' : List Char} (h : ')' ∉ list) (h' : ')' ∉ list')
    (first second : HealthKind) :
    healthLists (healthStanza first list ++ healthStanza second list').length
        (healthStanza first list ++ healthStanza second list') =
      [(first, list), (second, list')] := by
  have hlen : ∀ kind list, 1 ≤ (healthStanza kind list).length := by
    intro kind list
    simp only [healthStanza, length_append, length_singleton]
    omega
  obtain ⟨fuel, hfuel⟩ : ∃ fuel, (healthStanza first list ++ healthStanza second list').length =
      fuel + 1 + 1 := by
    have hfst := hlen first list
    have hsecond := hlen second list'
    rw [length_append]
    exact ⟨_, (Nat.sub_add_cancel (show 2 ≤ _ by omega)).symm⟩
  have hnil : healthLists fuel [] = [] := by cases fuel <;> rfl
  rw [hfuel, healthLists_stanza h, ← List.append_nil (healthStanza second list'),
    healthLists_stanza h', hnil]

theorem stanzaLoop_ended {arrays' : HealthArrays}
    (h : stanzaLoop stripewidth fuel s arrays = (arrays', true)) (hs : s ≠ []) :
    ∃ fuel' kind list rest healthlist, s = healthStanza kind list ++ rest ∧ FlagText list ∧
      arrays.found kind = false ∧
      flagLoop stripewidth 0 (list ++ ')' :: rest) (arrays.status kind) = (healthlist, some rest) ∧
      stanzaLoop stripewidth fuel' rest (arrays.write kind healthlist) = (arrays', true) := by
  fun_induction stanzaLoop stripewidth fuel s arrays with
  | case1 => exact absurd rfl hs
  | case2 => cases h
  | case3 => cases h
  | case4 => cases h
  | case5 => cases h
  | case6 fuel c s arrays kind parse hhdr hfound healthlist rest hlist _ =>
    obtain ⟨list, htext, rfl⟩ := flagLoop_closed hlist
    exact ⟨fuel, kind, list, rest, healthlist, healthHeader_eq_some hhdr, htext,
      Bool.eq_false_iff.2 hfound, hlist, h⟩

@[simp] theorem stanzaLoop_nil (stripewidth fuel : Nat) (arrays : HealthArrays) :
    stanzaLoop stripewidth fuel [] arrays = (arrays, true) := by
  cases fuel <;> rfl

theorem stanzaLoop_both {status : HealthKind → List Bool}
    (h : stanzaLoop stripewidth fuel s { status := status, found := fun _ => false } = (arrays, true))
    (hfound : ∀ kind, arrays.found kind) :
    ∃ first second list list', first ≠ second ∧ FlagText list ∧ FlagText list' ∧
      s = healthStanza first list ++ healthStanza second list' ∧
      (∃ rest, flagLoop stripewidth 0 (list ++ ')' :: rest) (status first) =
        (arrays.status first, some rest)) ∧
      ∃ rest, flagLoop stripewidth 0 (list' ++ ')' :: rest) (status second) =
        (arrays.status second, some rest) := by
  have hne : s ≠ [] := by
    rintro rfl
    rw [stanzaLoop_nil] at h
    cases h
    cases hfound .datahealth
  obtain ⟨fuel₁, first, list, s, flags, rfl, htext, -, hlist, h⟩ := stanzaLoop_ended h hne
  have hne : s ≠ [] := by
    rintro rfl
    rw [stanzaLoop_nil] at h
    cases h
    cases first with
    | datahealth => cases hfound .metahealth
    | metahealth => cases hfound .datahealth
  obtain ⟨fuel₂, second, list', s, flags', rfl, htext', hfresh, hlist', h⟩ := stanzaLoop_ended h hne
  have hkinds : second ≠ first := (HealthArrays.ne_of_found_write hfresh).1
  have hnil : s = [] := by
    by_contra hne
    obtain ⟨_, third, _, _, _, _, _, hfresh', _⟩ := stanzaLoop_ended h hne
    obtain ⟨hsecond, hfresh'⟩ := HealthArrays.ne_of_found_write hfresh'
    have hfst := (HealthArrays.ne_of_found_write hfresh').1
    -- there is no third kind
    revert hkinds hsecond hfst
    cases first <;> cases second <;> cases third <;> simp
  subst hnil
  rw [stanzaLoop_nil] at h
  cases h
  rw [HealthArrays.status_write_of_ne _ hkinds] at hlist'
  rw [List.append_nil] at hlist ⊢
  refine ⟨first, second, list, list', hkinds.symm, htext, htext', rfl, ⟨healthStanza second list', ?_⟩, ⟨[], ?_⟩⟩
  · rw [HealthArrays.status_write_of_ne _ hkinds.symm, HealthArrays.status_write]
    exact hlist
  · rw [HealthArrays.status_write]
    exact hlist'

theorem flagLoop_values (hne : healths ≠ [])
    (h : healths.length = stripewidth) (hstat : status.length = stripewidth) (rest : List Char) :
    flagLoop stripewidth 0 (healthValues healths ++ ')' :: rest) status = (healths, some rest) := by
  have hprs := @parseHealth_values stripewidth healths 0 status hne (by omega) hstat rest
  rw [flagLoop_eq, drop_eq_nil_of_le (by omega)] at hprs
  obtain ⟨rest', hrest, heq⟩ := Option.map_eq_some_iff.1 hprs
  simp only [take_zero, nil_append, List.append_nil, Prod.mk.injEq] at heq
  obtain ⟨hhealths, rfl⟩ := heq
  exact Prod.ext hhealths hrest

theorem FlagText.values (h : FlagText list)
    (hcnts : list.length + 1 = 2 * stripewidth ∧ list.count '-' + 1 = stripewidth ∧
      list.getLast? ≠ some '-') (hstat : status.length = stripewidth)
    (hloop : flagLoop stripewidth 0 (list ++ ')' :: rest) status = (healthlist, some rest)) :
    list = healthValues healthlist ∧ healthlist.length = stripewidth := by
  obtain ⟨hlen, hcnt, hlast⟩ := hcnts
  have hne : list ≠ [] := by
    rintro rfl
    simp only [length_nil, count_nil] at hlen hcnt
    omega
  obtain ⟨healths, rfl, hwidth⟩ := (h.eq_healthValues hne hlast).2 (by omega)
  have hhealths : healths ≠ [] := by
    rintro rfl
    exact hne rfl
  rw [flagLoop_values hhealths (hwidth.trans hcnt) hstat] at hloop
  cases hloop
  exact ⟨rfl, hwidth.trans hcnt⟩

theorem Rtag.status_parsed (createtime : Nat) (stripe : Stripe) (status : HealthKind → List Bool)
    (kind : HealthKind) : (Rtag.parsed createtime stripe status).status kind = status kind := by
  cases kind <;> rfl

/-- The arrays that a string is accepted with are those of its lists where these have a flag for each
block. -/
theorem healthExact_iff (h : rtag.Allocated) (haccepted : (rtagInitstrIn alloc rtag rtagstr).1 = true) :
    HealthExact alloc rtag rtagstr (rtagInitstrIn alloc rtag rtagstr).2 ↔
      Separated alloc rtag rtagstr := by
  cases hpart : healthPart alloc rtag rtagstr with
  | none =>
    have hnone : ∀ {P : Nat → Stripe → List Char → Prop} createtime stripe s,
        healthPart alloc rtag rtagstr = some (createtime, stripe, s) → P createtime stripe s := by
      intro P createtime stripe s hsome
      rw [hpart] at hsome
      cases hsome
    refine iff_of_true ⟨?_, hnone⟩ hnone
    rcases rtagInitstrIn_of_none hpart with hsame | ⟨createtime, hparsed⟩
    · rw [hsame] at haccepted
      cases haccepted
    · intro kind
      rw [hparsed, Rtag.status_parsed]
      rfl
  | some part =>
    obtain ⟨createtime, stripe, s⟩ := part
    rw [rtagInitstrIn_of_some hpart] at haccepted ⊢
    have hstatus : ∀ kind, ((rtag.arrays stripe.stripewidth).status kind).length = stripe.stripewidth := by
      intro kind
      cases kind with
      | datahealth => exact statusArray_length h.dataStatus
      | metahealth => exact statusArray_length h.metaStatus
    obtain ⟨⟨arrays, ended⟩, hloop⟩ : ∃ r, stanzaLoop stripe.stripewidth s.length s
      (rtag.arrays stripe.stripewidth) = r := ⟨_, rfl⟩
    rw [hloop] at haccepted ⊢
    dsimp only at haccepted ⊢
    split at haccepted
    swap
    · cases haccepted
    next hends =>
    rw [if_pos hends]
    simp only [Bool.and_eq_true] at hends
    obtain ⟨⟨rfl, hmeta⟩, hdata⟩ := hends
    have hfound : ∀ kind, arrays.found kind := by
      intro kind
      cases kind with
      | datahealth => exact hdata
      | metahealth => exact hmeta
    obtain ⟨first, second, list, list', hkinds, htext, htext', hs, ⟨rest, hfirst⟩, ⟨rest', hsecond⟩⟩ :=
      stanzaLoop_both hloop hfound
    constructor
    · intro hexact createtime' stripe' s' hpart' stanza hstanza
      obtain ⟨-, first', second', -, hs'⟩ := hexact.stanzas createtime' stripe' s' hpart'
      rw [hpart] at hpart'
      cases hpart'
      have hcounts : ∀ kind, (healthValues (arrays.status kind)).length + 1 = 2 * stripe.stripewidth ∧
          (healthValues (arrays.status kind)).count '-' + 1 = stripe.stripewidth ∧
          (healthValues (arrays.status kind)).getLast? ≠ some '-' := by
        intro kind
        have hlength := hexact.length kind
        rw [Rtag.status_parsed] at hlength
        change _ = stripe.stripewidth at hlength
        rw [← hlength]
        apply healthValues_counts
        intro hnil
        rw [hnil] at hlength
        exact parseStripeinfo_width hpart hlength.symm
      rw [Rtag.status_parsed, Rtag.status_parsed] at hs'
      rw [hs', healthLists_both (healthValues_not_mem _) (healthValues_not_mem _)] at hstanza
      rcases List.mem_cons.1 hstanza with rfl | hstanza
      · exact hcounts first'
      · cases List.mem_singleton.1 hstanza
        exact hcounts second'
    · intro hseparated
      have hlists := hseparated createtime stripe s hpart
      rw [hs, healthLists_both htext.not_mem htext'.not_mem] at hlists
      obtain ⟨hlist, hwidth⟩ := htext.values (hlists (first, list) (by simp)) (hstatus first) hfirst
      obtain ⟨hlist', hwidth'⟩ :=
        htext'.values (hlists (second, list') (by simp)) (hstatus second) hsecond
      refine ⟨?_, ?_⟩
      · intro kind
        rw [Rtag.status_parsed]
        have hkind : kind = first ∨ kind = second := by
          revert hkinds
          cases kind <;> cases first <;> cases second <;> simp
        rcases hkind with rfl | rfl
        · exact hwidth
        · exact hwidth'
      · intro createtime' stripe' s' hpart'
        rw [hpart] at hpart'
        cases hpart'
        refine ⟨rfl, first, second, hkinds, ?_⟩
        rw [Rtag.status_parsed, Rtag.status_parsed, ← hlist, ← hlist']
        exact hs

def doubledString : List Char := "VER(0.001)TIME(7)STP(w2|v1|b1|t1)DHLTH(1-0)MHLTH(10)".toList

def healthString : List Char := "VER(0.001)TIME(7)STP(w2|v1|b1|t1)DHLTH(1-0)MHLTH(0-0)".toList

theorem healthString_exact :
    HealthExact (fun _ => true) .zeroed healthString
        (rtagInitstrIn (fun _ => true) .zeroed healthString).2 ↔
      Separated (fun _ => true) .zeroed healthString :=
  healthExact_iff Rtag.zeroed_allocated (by decide +kernel)

/-- Both flags are for the first block; what the second one has is left over from the struct. -/
theorem doubledString_accepted : Rtag.Allocated (.sample [false, true] [false, false]) ∧
    (rtagInitstrIn (fun _ => true) (.sample [false, true] [false, false]) doubledString).1 = true ∧
    (rtagInitstrIn (fun _ => true) (.sample [false, true] [false, false]) doubledString).2.status
      .metahealth = [false, true] ∧
    ¬ HealthExact (fun _ => true) (.sample [false, true] [false, false]) doubledString
      (rtagInitstrIn (fun _ => true) (.sample [false, true] [false, false]) doubledString).2 := by
  refine ⟨⟨fun _ => rfl, fun _ => rfl⟩, by decide +kernel, by decide +kernel, ?_⟩
  intro hexact
  have hpart : healthPart (fun _ => true) (.sample [false, true] [false, false]) doubledString =
      some (7, { stripewidth := 2, versz := 1, blocksz := 1, totsz := 1 },
        "DHLTH(1-0)MHLTH(10)".toList) := by
    decide +kernel
  obtain ⟨-, first, second, -, hs⟩ := hexact.stanzas _ _ _ hpart
  revert hs
  cases first <;> cases second <;> decide +kernel

end Marfs.Tagging
