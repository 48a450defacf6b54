import Marfs.Tagging.FtagString
import Marfs.Tagging.Rtag

/-!
# RTAG strings

`rtag_tostr` prints a rebuild tag: its version and its creation time, and, if it has a stripe, the
sizes of the stripe and the health of every block.  A tag that `rtag_initstr` built comes back
unchanged (`rtagInitstr_toStr`).
-/

namespace Marfs.Tagging

open Cstring List

/-! ## Headers -/

def rtagCurrentMajorversion : Nat := 0

def rtagCurrentMinorversion : Nat := 1

def rtagVersionHeader : List Char := "VER(".toList

def timestampHeader : List Char := "TIME(".toList

def stripeinfoHeader : List Char := "STP(".toList

def datahealthHeader : List Char := "DHLTH(".toList

def metahealthHeader : List Char := "MHLTH(".toList

/-! ## Printing -/

def healthFlag (health : Bool) : Char := if health then '1' else '0'

def healthValues : List Bool → List Char
  | [] => []
  | [health] => [healthFlag health]
  | health :: healths => healthFlag health :: '-' :: healthValues healths

namespace Rtag

def versionStanza (rtag : Rtag) : List Char :=
  rtagVersionHeader ++ (decimal rtag.majorversion ++ '.' :: (padded 3 rtag.minorversion ++ [')']))

def timestampStanza (rtag : Rtag) : List Char :=
  timestampHeader ++ (decimal (toUll rtag.createtime) ++ [')'])

def stripeStanza (rtag : Rtag) : List Char :=
  stripeinfoHeader ++ 'w' :: (decimal rtag.stripewidth ++ '|' ::
    'v' :: (decimal rtag.stripestate.versz ++ '|' :: 'b' :: (decimal rtag.stripestate.blocksz ++
    '|' :: 't' :: (decimal rtag.stripestate.totsz ++ [')']))))

def healthStanzas (rtag : Rtag) : List Char :=
  datahealthHeader ++ (healthValues (rtag.stripestate.dataStatus.take rtag.stripewidth) ++ ')' ::
    (metahealthHeader ++
      (healthValues (rtag.stripestate.metaStatus.take rtag.stripewidth) ++ [')'])))

def toStr (rtag : Rtag) : List Char :=
  rtag.versionStanza ++ (rtag.timestampStanza ++
    if rtag.stripewidth = 0 then [] else rtag.stripeStanza ++ rtag.healthStanzas)

end Rtag

/-- `rtag_tostr`: the string the buffer is filled with, which it holds if it is large enough; `none`
for a stripe without status arrays. -/
def rtagTostr (rtag : Rtag) : Option (List Char) :=
  if rtag.stripewidth ≠ 0 &&
      (rtag.stripestate.metaStatus.isEmpty || rtag.stripestate.dataStatus.isEmpty) then none
  else some rtag.toStr

/-! ## Parsing -/

def toTime (n : Nat) : Int := Int.bmod n (2 ^ 64)

def exactNumber (expected : Nat) (stop : Char) (s : List Char) : Option (List Char) :=
  match strtoull s with
  | (val, c :: rest) => if c = stop && val = expected then some rest else none
  | (_, []) => none

/-- The stripe sizes; zero until they are found. -/
structure Stripe where
  stripewidth : Nat
  versz : Nat
  blocksz : Nat
  totsz : Nat
  deriving DecidableEq, Repr

def storeStripe (tag : Char) (val : Nat) (stripe : Stripe) : Option Stripe :=
  if val = 0 then none
  else
    match tag with
    | 'w' => some { stripe with stripewidth := val }
    | 'v' => some { stripe with versz := val }
    | 'b' => some { stripe with blocksz := val }
    | 't' => some { stripe with totsz := val }
    | _ => none

/-- The flags of a health stanza, from block `hindex` of `stripewidth` on.  Without a separator the
next flag is one of the same block. -/
def parseHealth (stripewidth : Nat) : Nat → List Char → List Bool → Option (List Bool × List Char)
  | _, [], _ => none
  | hindex, c :: rest, status =>
    if c = ')' then some (status, rest)
    else if hindex < stripewidth && (c = '0' || c = '1') then
      let status := status.set hindex (c == '1')
      match rest with
      | '-' :: rest => parseHealth stripewidth (hindex + 1) rest status
      | rest => parseHealth stripewidth hindex rest status
    else none

structure Health where
  dataStatus : List Bool
  metaStatus : List Bool
  datahval : Bool
  metahval : Bool

/-- The loop over the health stanzas, until the end of the string; a stanza is found once at most. -/
def parseHealths (stripewidth : Nat) : Nat → List Char → Health → Option Health
  | _, [], health => some health
  | 0, _ :: _, _ => none
  | fuel + 1, s, health =>
    match skipHeader datahealthHeader s with
    | some s =>
      if health.datahval then none
      else
        (parseHealth stripewidth 0 s health.dataStatus).bind fun (status, s) =>
          parseHealths stripewidth fuel s { health with dataStatus := status, datahval := true }
    | none =>
      (skipHeader metahealthHeader s).bind fun s =>
        if health.metahval then none
        else
          (parseHealth stripewidth 0 s health.metaStatus).bind fun (status, s) =>
            parseHealths stripewidth fuel s { health with metaStatus := status, metahval := true }

/-- The status array the flags are parsed into: the old one if it has the right length. -/
def statusArray (rtag : Rtag) (stripewidth : Nat) (status : List Bool) : List Bool :=
  if rtag.stripewidth ≠ stripewidth || status.isEmpty then replicate stripewidth false
  else status

def parseStripe (rtag : Rtag) (s : List Char) : Option (Stripe × Health) := do
  let s ← skipHeader stripeinfoHeader s
  let (stripe, _, s) ← parseValues '|' storeStripe s.length s
    { stripewidth := 0, versz := 0, blocksz := 0, totsz := 0 } 0
  if stripe.stripewidth = 0 || stripe.versz = 0 || stripe.blocksz = 0 || stripe.totsz = 0 then none
  else
    let health ← parseHealths stripe.stripewidth s.length s
      { dataStatus := statusArray rtag stripe.stripewidth rtag.stripestate.dataStatus
        metaStatus := statusArray rtag stripe.stripewidth rtag.stripestate.metaStatus
        datahval := false, metahval := false }
    if health.datahval && health.metahval then some (stripe, health) else none

def rtagInitstr (rtag : Rtag) (rtagstr : List Char) : Option Rtag := do
  let s ← skipHeader rtagVersionHeader rtagstr
  let s ← exactNumber rtagCurrentMajorversion '.' s
  let s ← exactNumber rtagCurrentMinorversion ')' s
  let s ← skipHeader timestampHeader s
  match strtoull s with
  | (createtime, ')' :: s) =>
    if s.isEmpty then
      some { majorversion := rtagCurrentMajorversion, minorversion := rtagCurrentMinorversion
             createtime := toTime createtime, stripewidth := 0
             stripestate := { versz := 0, blocksz := 0, totsz := 0, metaStatus := [], dataStatus := [] } }
    else do
      let (stripe, health) ← parseStripe rtag s
      some { majorversion := rtagCurrentMajorversion, minorversion := rtagCurrentMinorversion
             createtime := toTime createtime, stripewidth := stripe.stripewidth
             stripestate :=
               { versz := stripe.versz, blocksz := stripe.blocksz, totsz := stripe.totsz
                 metaStatus := health.metaStatus, dataStatus := health.dataStatus } }
  | _ => none

def Rtag.zeroed : Rtag :=
  { majorversion := 0, minorversion := 0, createtime := 0, stripewidth := 0
    stripestate := { versz := 0, blocksz := 0, totsz := 0, metaStatus := [], dataStatus := [] } }

/-! ## Reading the flags back -/

theorem healthFlag_spec (health : Bool) :
    healthFlag health ≠ ')' ∧ (healthFlag health = '0' ∨ healthFlag health = '1') ∧
      (healthFlag health == '1') = health := by
  cases health <;> decide

section ParseHealth

variable {stripewidth hindex : Nat} {status : List Bool} {rest : List Char}

theorem parseHealth_close :
    parseHealth stripewidth hindex (')' :: rest) status = some (status, rest) := by
  unfold parseHealth
  simp

theorem parseHealth_next (hlt : hindex < stripewidth) (health : Bool) :
    parseHealth stripewidth hindex (healthFlag health :: '-' :: rest) status =
      parseHealth stripewidth (hindex + 1) rest (status.set hindex health) := by
  obtain ⟨hparen, hflag, hval⟩ := healthFlag_spec health
  conv_lhs => unfold parseHealth
  simp [hparen, hlt, hflag, hval]

theorem parseHealth_last (hlt : hindex < stripewidth) (health : Bool) :
    parseHealth stripewidth hindex (healthFlag health :: ')' :: rest) status =
      some (status.set hindex health, rest) := by
  obtain ⟨hparen, hflag, hval⟩ := healthFlag_spec health
  conv_lhs => unfold parseHealth
  simp [hparen, hlt, hflag, hval, parseHealth_close]

end ParseHealth

variable {stripewidth : Nat} {s : List Char} {health : Health} {rtag : Rtag}

theorem parseHealth_values (healths : List Bool) :
    ∀ {hindex : Nat} {status : List Bool}, healths ≠ [] →
      hindex + healths.length ≤ stripewidth → status.length = stripewidth →
      ∀ rest, parseHealth stripewidth hindex (healthValues healths ++ ')' :: rest) status =
        some (status.take hindex ++ healths ++ status.drop (hindex + healths.length), rest) := by
  induction healths with
  | nil =>
    intro hindex status hne
    exact absurd rfl hne
  | cons health healths ih =>
    intro hindex status _ hle hlen rest
    have hlt : hindex < stripewidth := by
      simp only [length_cons] at hle
      omega
    have hset : status.set hindex health =
        status.take hindex ++ health :: status.drop (hindex + 1) :=
      List.set_eq_take_append_cons_drop.trans (if_pos (by omega))
    cases healths with
    | nil =>
      change parseHealth stripewidth hindex (healthFlag health :: ')' :: rest) status = _
      rw [parseHealth_last hlt, hset]
      simp
    | cons next healths =>
      change parseHealth stripewidth hindex
        (healthFlag health :: '-' :: (healthValues (next :: healths) ++ ')' :: rest)) status = _
      have hwide : hindex + 1 + (next :: healths).length ≤ stripewidth := by
        simp only [length_cons] at hle ⊢
        omega
      rw [parseHealth_next hlt, ih (by simp) hwide (by simp [hlen]) rest]
      have htake : (status.set hindex health).take (hindex + 1) = status.take hindex ++ [health] := by
        rw [hset, take_append, length_take, Nat.min_eq_left (by omega), take_take,
          Nat.min_eq_right (Nat.le_succ _)]
        simp
      have hdrop : (status.set hindex health).drop (hindex + 1 + (next :: healths).length) =
          status.drop (hindex + (health :: next :: healths).length) := by
        rw [drop_set_of_lt (by omega)]
        congr 1
        simp only [length_cons]
        omega
      rw [htake, hdrop]
      simp

/-! ## The round trip -/

/-- What `rtag_initstr` makes of a string. -/
structure Rtag.Accepted (rtag : Rtag) : Prop where
  majorversion : rtag.majorversion = rtagCurrentMajorversion
  minorversion : rtag.minorversion = rtagCurrentMinorversion
  createtime : -2 ^ 63 ≤ rtag.createtime ∧ rtag.createtime < 2 ^ 63
  stripe : if rtag.stripewidth = 0 then rtag.stripestate = Rtag.zeroed.stripestate
    else rtag.stripewidth ≤ ullongMax ∧
      (0 < rtag.stripestate.versz ∧ rtag.stripestate.versz ≤ ullongMax) ∧
      (0 < rtag.stripestate.blocksz ∧ rtag.stripestate.blocksz ≤ ullongMax) ∧
      (0 < rtag.stripestate.totsz ∧ rtag.stripestate.totsz ≤ ullongMax) ∧
      rtag.stripestate.dataStatus.length = rtag.stripewidth ∧
      rtag.stripestate.metaStatus.length = rtag.stripewidth

theorem toTime_toUll {n : Int} (h : -2 ^ 63 ≤ n ∧ n < 2 ^ 63) : toTime (toUll n) = n := by
  have hmod : ((2 ^ 64 : Nat) : Int) = 18446744073709551616 := by decide
  have hval : ((toUll n : Nat) : Int) = n % 18446744073709551616 :=
    Int.toNat_of_nonneg (Int.emod_nonneg _ (by decide))
  unfold toTime
  rw [hval, Int.bmod_def, hmod, Int.emod_emod]
  split <;> omega

theorem toUll_le (n : Int) : toUll n ≤ ullongMax := by
  have hmax : ullongMax = 18446744073709551615 := by decide
  rw [hmax, toUll]
  omega

variable {fuel n : Nat} {rest : List Char} {status : List Bool} {dest : Rtag} {stripe : Stripe}

theorem parseHealths_data (h : health.datahval = false) :
    parseHealths stripewidth (fuel + 1) (datahealthHeader ++ s) health =
      (parseHealth stripewidth 0 s health.dataStatus).bind fun (status, s) =>
        parseHealths stripewidth fuel s { health with dataStatus := status, datahval := true } := by
  rw [parseHealths]
  · simp only [skipHeader_append, h, Bool.false_eq_true, if_false]
  · nofun

theorem parseHealths_meta (h : health.metahval = false) :
    parseHealths stripewidth (fuel + 1) (metahealthHeader ++ s) health =
      (parseHealth stripewidth 0 s health.metaStatus).bind fun (status, s) =>
        parseHealths stripewidth fuel s { health with metaStatus := status, metahval := true } := by
  have hskip : skipHeader datahealthHeader (metahealthHeader ++ s) = none := rfl
  rw [parseHealths]
  · simp only [hskip, skipHeader_append, h, Bool.false_eq_true, if_false, Option.bind_some]
  · nofun

theorem parseHealths_stanzas (hwidth : rtag.stripewidth ≠ 0)
    (hdata : rtag.stripestate.dataStatus.length = rtag.stripewidth)
    (hmeta : rtag.stripestate.metaStatus.length = rtag.stripewidth)
    (hdata' : health.dataStatus.length = rtag.stripewidth)
    (hmeta' : health.metaStatus.length = rtag.stripewidth) (hdataval : health.datahval = false)
    (hmetaval : health.metahval = false) (hfuel : 2 ≤ fuel) :
    parseHealths rtag.stripewidth fuel rtag.healthStanzas health =
      some { dataStatus := rtag.stripestate.dataStatus, metaStatus := rtag.stripestate.metaStatus
             datahval := true, metahval := true } := by
  obtain ⟨fuel, rfl⟩ := Nat.exists_eq_add_of_le' hfuel
  have hne : rtag.stripestate.dataStatus ≠ [] := by
    intro h
    rw [h] at hdata
    exact hwidth hdata.symm
  have hne' : rtag.stripestate.metaStatus ≠ [] := by
    intro h
    rw [h] at hmeta
    exact hwidth hmeta.symm
  have hdrop : health.dataStatus.drop (0 + rtag.stripestate.dataStatus.length) = [] :=
    drop_eq_nil_of_le (by omega)
  have hdrop' : health.metaStatus.drop (0 + rtag.stripestate.metaStatus.length) = [] :=
    drop_eq_nil_of_le (by omega)
  rw [Rtag.healthStanzas, take_of_length_le hdata.le, take_of_length_le hmeta.le,
    parseHealths_data hdataval, parseHealth_values _ hne (by omega) hdata', Option.bind_some]
  dsimp only
  rw [parseHealths_meta (by exact hmetaval), parseHealth_values _ hne' (by omega) (by exact hmeta'),
    Option.bind_some]
  dsimp only
  rw [hdrop, hdrop', parseHealths]
  simp

theorem exactNumber_append {digits : List Char} {stop : Char} (h : Prints digits n)
    (hstop : stop.isDigit = false) : exactNumber n stop (digits ++ stop :: rest) = some rest := by
  unfold exactNumber
  rw [h _ (stops_cons.2 hstop)]
  simp

theorem storeStripe_of_pos (h : 0 < n) (tag : Char) (stripe : Stripe) :
    storeStripe tag n stripe =
      match tag with
      | 'w' => some { stripe with stripewidth := n }
      | 'v' => some { stripe with versz := n }
      | 'b' => some { stripe with blocksz := n }
      | 't' => some { stripe with totsz := n }
      | _ => none := by
  unfold storeStripe
  rw [if_neg (by omega)]

structure Rtag.Allocated (rtag : Rtag) : Prop where
  dataStatus : rtag.stripestate.dataStatus ≠ [] →
    rtag.stripestate.dataStatus.length = rtag.stripewidth
  metaStatus : rtag.stripestate.metaStatus ≠ [] →
    rtag.stripestate.metaStatus.length = rtag.stripewidth

theorem Rtag.zeroed_allocated : Rtag.zeroed.Allocated :=
  ⟨fun h => absurd rfl h, fun h => absurd rfl h⟩

theorem statusArray_length (h : status ≠ [] → status.length = rtag.stripewidth) :
    (statusArray rtag stripewidth status).length = stripewidth := by
  unfold statusArray
  split
  · exact length_replicate
  · next hreuse =>
    -- the array is there, and it has the right length
    simp only [Bool.or_eq_true, decide_eq_true_eq, not_or, not_not, List.isEmpty_iff] at hreuse
    exact (h hreuse.2).trans hreuse.1

theorem parseStripe_toStr (h : rtag.Accepted) (hdest : dest.Allocated) (hwidth : rtag.stripewidth ≠ 0) :
    parseStripe dest (rtag.stripeStanza ++ rtag.healthStanzas) =
      some ({ stripewidth := rtag.stripewidth, versz := rtag.stripestate.versz
              blocksz := rtag.stripestate.blocksz, totsz := rtag.stripestate.totsz },
        { dataStatus := rtag.stripestate.dataStatus, metaStatus := rtag.stripestate.metaStatus
          datahval := true, metahval := true }) := by
  have hstrp := h.stripe
  rw [if_neg hwidth] at hstrp
  obtain ⟨hle, hvsz, hbsz, htotsz, hdata, hmeta⟩ := hstrp
  have hlen : 2 ≤ rtag.healthStanzas.length := by
    have hhdr : datahealthHeader.length = 6 := by decide
    rw [Rtag.healthStanzas, length_append, hhdr]
    omega
  simp only [parseStripe, Rtag.stripeStanza, append_assoc, cons_append, nil_append,
    skipHeader_append, Option.bind_eq_bind, Option.bind_some]
  refine Option.bind_eq_some_iff.2 ⟨_, parseValues_next (prints_decimal hle) rfl
    (storeStripe_of_pos (by omega) 'w' _) (parseValues_next (prints_decimal hvsz.2) rfl
      (storeStripe_of_pos hvsz.1 'v' _) (parseValues_next (prints_decimal hbsz.2) rfl
        (storeStripe_of_pos hbsz.1 'b' _) (parseValues_last (prints_decimal htotsz.2) (by decide)
          (storeStripe_of_pos htotsz.1 't' _)))) _ le_rfl, ?_⟩
  dsimp only
  rw [if_neg (by simp; omega), parseHealths_stanzas hwidth hdata hmeta
    (statusArray_length hdest.dataStatus) (statusArray_length hdest.metaStatus) rfl rfl hlen]
  rfl

theorem rtagInitstr_toStr_of_allocated (h : rtag.Accepted) (hdest : dest.Allocated) :
    rtagInitstr dest rtag.toStr = some rtag := by
  have hmaj : Prints (decimal rtag.majorversion) rtagCurrentMajorversion := by
    rw [h.majorversion]
    exact prints_decimal (by decide)
  have hmin : Prints (padded 3 rtag.minorversion) rtagCurrentMinorversion := by
    rw [h.minorversion]
    exact prints_padded (by decide)
  have htime := prints_decimal (toUll_le rtag.createtime)
  have hstrp := h.stripe
  simp only [rtagInitstr, Rtag.toStr, Rtag.versionStanza, Rtag.timestampStanza, append_assoc,
    cons_append, nil_append, skipHeader_append, Option.bind_eq_bind, Option.bind_some]
  rw [exactNumber_append hmaj (by decide), Option.bind_some,
    exactNumber_append hmin (by decide), Option.bind_some, skipHeader_append, Option.bind_some,
    htime _ (stops_cons.2 rfl)]
  have hrtag := h.majorversion
  have hrtag' := h.minorversion
  have hcreat := toTime_toUll h.createtime
  obtain ⟨majorversion, minorversion, createtime, stripewidth, versz, blocksz, totsz, metaStatus,
    dataStatus⟩ := rtag
  dsimp only at hrtag hrtag' hcreat hstrp ⊢
  by_cases hwidth : stripewidth = 0
  · rw [if_pos hwidth] at hstrp ⊢
    obtain ⟨rfl, rfl, rfl, rfl, rfl⟩ := NeState.mk.inj hstrp
    subst hrtag hrtag' hwidth
    simp only [isEmpty_nil, if_true, hcreat]
  · have hstanza := parseStripe_toStr h hdest hwidth
    rw [if_neg hwidth] at hstrp ⊢
    subst hrtag hrtag'
    simp only [Rtag.stripeStanza, append_assoc, stripeinfoHeader] at hstanza ⊢
    simp only [hstanza, Option.bind_some, hcreat]
    simp

theorem rtagInitstr_toStr (h : rtag.Accepted) : rtagInitstr .zeroed rtag.toStr = some rtag :=
  rtagInitstr_toStr_of_allocated h Rtag.zeroed_allocated

theorem rtagTostr_accepted (h : rtag.Accepted) : rtagTostr rtag = some rtag.toStr := by
  have hstrp := h.stripe
  unfold rtagTostr
  apply if_neg
  intro hfail
  simp only [Bool.and_eq_true, Bool.or_eq_true, List.isEmpty_iff, decide_eq_true_eq] at hfail
  rw [if_neg hfail.1] at hstrp
  obtain ⟨-, -, -, -, hdata, hmeta⟩ := hstrp
  rcases hfail.2 with hemp | hemp
  · rw [hemp] at hmeta
    exact hfail.1 hmeta.symm
  · rw [hemp] at hdata
    exact hfail.1 hdata.symm

/-- A tag that can be printed: the sizes of a stripe are positive, and it has all its flags. -/
structure Rtag.Printable (rtag : Rtag) : Prop where
  majorversion : rtag.majorversion = rtagCurrentMajorversion
  minorversion : rtag.minorversion = rtagCurrentMinorversion
  createtime : -2 ^ 63 ≤ rtag.createtime ∧ rtag.createtime < 2 ^ 63
  stripe : rtag.stripewidth ≠ 0 → rtag.stripewidth ≤ ullongMax ∧
    (0 < rtag.stripestate.versz ∧ rtag.stripestate.versz ≤ ullongMax) ∧
    (0 < rtag.stripestate.blocksz ∧ rtag.stripestate.blocksz ≤ ullongMax) ∧
    (0 < rtag.stripestate.totsz ∧ rtag.stripestate.totsz ≤ ullongMax) ∧
    rtag.stripestate.dataStatus.length = rtag.stripewidth ∧
    rtag.stripestate.metaStatus.length = rtag.stripewidth

def Rtag.printed (rtag : Rtag) : Rtag :=
  if rtag.stripewidth = 0 then { rtag with stripestate := Rtag.zeroed.stripestate } else rtag

theorem Rtag.Printable.accepted (h : rtag.Printable) : rtag.printed.Accepted := by
  unfold Rtag.printed
  split
  · next hwidth => exact ⟨h.majorversion, h.minorversion, h.createtime, by simp [hwidth]⟩
  · next hwidth =>
    refine ⟨h.majorversion, h.minorversion, h.createtime, ?_⟩
    rw [if_neg hwidth]
    exact h.stripe hwidth

theorem rtagTostr_printed (rtag : Rtag) : rtagTostr rtag.printed = rtagTostr rtag := by
  unfold Rtag.printed
  split
  · next hwidth =>
    simp [rtagTostr, Rtag.toStr, Rtag.versionStanza, Rtag.timestampStanza, hwidth]
  · rfl

/-- Every tag can be read back, whatever status arrays the struct held before: all of it if it has a
stripe, else its version and creation time. -/
theorem rtagInitstr_rtagTostr (h : rtag.Printable) (hdest : dest.Allocated) :
    ∃ str, rtagTostr rtag = some str ∧ rtagInitstr dest str = some rtag.printed := by
  have haccepted := h.accepted
  refine ⟨rtag.printed.toStr, ?_, rtagInitstr_toStr_of_allocated haccepted hdest⟩
  rw [← rtagTostr_printed]
  exact rtagTostr_accepted haccepted

def Rtag.sample (metaStatus dataStatus : List Bool) : Rtag :=
  { majorversion := 0, minorversion := 1, createtime := -1, stripewidth := 2
    stripestate :=
      { versz := 4096, blocksz := 8192, totsz := 100, metaStatus := metaStatus
        dataStatus := dataStatus } }

/-- The flags of a struct are replaced. -/
theorem rtagInitstr_sample : ∃ str, rtagTostr (.sample [true, false] [false, false]) = some str ∧
    rtagInitstr (.sample [true, true] []) str = some (.sample [true, false] [false, false]) :=
  rtagInitstr_rtagTostr ⟨rfl, rfl, by decide, fun _ => by decide⟩
    ⟨fun h => absurd rfl h, fun _ => rfl⟩

def Rtag.stripeless : Rtag :=
  { Rtag.zeroed with minorversion := 1, stripestate := { Rtag.zeroed.stripestate with versz := 1 } }

/-- Its size is not printed. -/
theorem stripeless_not_reproduced : Rtag.stripeless.Printable ∧ Rtag.zeroed.Allocated ∧
    ∃ str, rtagTostr .stripeless = some str ∧ rtagInitstr .zeroed str ≠ some .stripeless := by
  refine ⟨⟨rfl, rfl, by decide, fun h => absurd rfl h⟩, Rtag.zeroed_allocated,
    Rtag.stripeless.toStr, rfl, ?_⟩
  decide +kernel

/-! ## What the parser accepts -/

theorem toTime_bounds (n : Nat) : -2 ^ 63 ≤ toTime n ∧ toTime n < 2 ^ 63 := by
  have hmod : ((2 ^ 64 : Nat) : Int) = 18446744073709551616 := by decide
  unfold toTime
  rw [Int.bmod_def, hmod]
  constructor <;> split <;> omega

theorem flags_induction {motive : List Char → Prop} (nil : motive [])
    (cons : ∀ c s, (∀ s', s = '-' :: s' → motive s') → motive s → motive (c :: s)) (s : List Char) :
    motive s := by
  induction hlen : s.length using Nat.strong_induction_on generalizing s with
  | _ n ih =>
    subst hlen
    cases s with
    | nil => exact nil
    | cons c s =>
      refine cons c s (fun s' hs => ih _ ?_ s' rfl) (ih _ (Nat.lt_succ_self _) s rfl)
      rw [hs, length_cons, length_cons]
      omega

theorem parseHealth_length {hindex : Nat} {status' : List Bool}
    (h : parseHealth stripewidth hindex s status = some (status', rest)) :
    status'.length = status.length := by
  induction s using flags_induction generalizing hindex status with
  | nil => cases h
  | cons c s ihsep ih =>
    rw [parseHealth] at h
    split_ifs at h with hc hflag
    · cases h
      rfl
    · split at h
      · next s' => exact (ihsep s' rfl h).trans length_set
      · exact (ih h).trans length_set

theorem parseHealths_length (fuel : Nat) :
    ∀ {s : List Char} {health health' : Health},
      parseHealths stripewidth fuel s health = some health' →
      health'.dataStatus.length = health.dataStatus.length ∧
        health'.metaStatus.length = health.metaStatus.length := by
  induction fuel with
  | zero =>
    intro s health health' h
    cases s with
    | nil =>
      cases h
      exact ⟨rfl, rfl⟩
    | cons c s => cases h
  | succ fuel ih =>
    intro s health health' h
    cases s with
    | nil =>
      cases h
      exact ⟨rfl, rfl⟩
    | cons c s =>
      rw [parseHealths] at h
      · split at h
        · split at h
          · cases h
          · obtain ⟨⟨status, rest⟩, hhealth, h⟩ := Option.bind_eq_some_iff.1 h
            obtain ⟨hdata, hmeta⟩ := ih h
            exact ⟨hdata.trans (parseHealth_length hhealth), hmeta⟩
        · obtain ⟨t, -, h⟩ := Option.bind_eq_some_iff.1 h
          split at h
          · cases h
          · obtain ⟨⟨status, rest⟩, hhealth, h⟩ := Option.bind_eq_some_iff.1 h
            obtain ⟨hdata, hmeta⟩ := ih h
            exact ⟨hdata, hmeta.trans (parseHealth_length hhealth)⟩
      · nofun

/-- The sizes of a stripe are values of their C types. -/
structure Stripe.Representable (stripe : Stripe) : Prop where
  stripewidth : stripe.stripewidth ≤ ullongMax
  versz : stripe.versz ≤ ullongMax
  blocksz : stripe.blocksz ≤ ullongMax
  totsz : stripe.totsz ≤ ullongMax

theorem storeStripe_representable {tag : Char} {stripe' : Stripe} (hn : n ≤ ullongMax)
    (hrep : stripe.Representable) (h : storeStripe tag n stripe = some stripe') : stripe'.Representable := by
  unfold storeStripe at h
  split at h
  · cases h
  split at h
  · cases h
    exact { hrep with stripewidth := hn }
  · cases h
    exact { hrep with versz := hn }
  · cases h
    exact { hrep with blocksz := hn }
  · cases h
    exact { hrep with totsz := hn }
  · cases h

theorem parseStripe_eq_some (h : parseStripe .zeroed s = some (stripe, health)) :
    stripe.stripewidth ≠ 0 ∧ stripe.Representable ∧
      0 < stripe.versz ∧ 0 < stripe.blocksz ∧ 0 < stripe.totsz ∧
      health.dataStatus.length = stripe.stripewidth ∧
      health.metaStatus.length = stripe.stripewidth := by
  simp only [parseStripe, Option.bind_eq_bind, Option.bind_eq_some_iff] at h
  obtain ⟨t, -, ⟨stripe', found, rest⟩, hvals, h⟩ := h
  have hrep : stripe'.Representable :=
    parseValues_invariant (fun _ _ _ _ hn hP hnext => storeStripe_representable hn hP hnext) _
      ⟨Nat.zero_le _, Nat.zero_le _, Nat.zero_le _, Nat.zero_le _⟩ hvals
  split at h
  · cases h
  rename_i hzero
  simp only [Bool.or_eq_true, decide_eq_true_eq, not_or] at hzero
  obtain ⟨health', hhealths, h⟩ := Option.bind_eq_some_iff.1 h
  split at h
  · obtain ⟨rfl, rfl⟩ := Prod.mk.inj (Option.some.inj h)
    obtain ⟨hdata, hmeta⟩ := parseHealths_length _ hhealths
    exact ⟨hzero.1.1.1, hrep, Nat.pos_of_ne_zero hzero.1.1.2, Nat.pos_of_ne_zero hzero.1.2,
      Nat.pos_of_ne_zero hzero.2, hdata.trans (statusArray_length fun h => absurd rfl h),
      hmeta.trans (statusArray_length fun h => absurd rfl h)⟩
  · cases h

theorem rtagInitstr_accepted {str : List Char} (h : rtagInitstr .zeroed str = some rtag) : rtag.Accepted := by
  simp only [rtagInitstr, Option.bind_eq_bind, Option.bind_eq_some_iff] at h
  obtain ⟨s₁, -, s₂, -, s₃, -, s₄, -, h⟩ := h
  split at h
  · rename_i createtime s heq
    have hbnds := toTime_bounds createtime
    generalize toTime createtime = time at h hbnds
    split at h
    · cases h
      exact ⟨rfl, rfl, hbnds, by rw [if_pos rfl]; rfl⟩
    · obtain ⟨⟨stripe, health⟩, hstrp, h⟩ := Option.bind_eq_some_iff.1 h
      cases h
      obtain ⟨hwidth, hrep, hvsz, hbsz, htotsz, hdata, hmeta⟩ := parseStripe_eq_some hstrp
      refine ⟨rfl, rfl, hbnds, ?_⟩
      rw [if_neg hwidth]
      exact ⟨hrep.stripewidth, ⟨hvsz, hrep.versz⟩, ⟨hbsz, hrep.blocksz⟩, ⟨htotsz, hrep.totsz⟩,
        hdata, hmeta⟩
  · cases h

end Marfs.Tagging
