import Marfs.Cstring.Strto
import Marfs.Recovery.Finfo

/-!
# The search for recovery info

`locate_finfo_start` walks backwards from the last character of a record.  It checks the tail, looks
for the type string, and takes the first one it meets for that of the record; what stands before it has
to be the head.  The path of the record is met first: if the type string is seen in it, the search ends
there (`locateFinfoStart_of_clear`, `locateFinfoStart_of_hidden`).
-/

namespace Marfs.Recovery

open Cstring List

/-! ## The search -/

/-- `section`: the string that is compared with. -/
inductive FinfoSection where
  | tail
  | type
  | head
  deriving DecidableEq, Repr

def FinfoSection.cmpstr : FinfoSection → List Char
  | .tail => msgTail
  | .type => finfoType
  | .head => msgHead

def FinfoSection.next : FinfoSection → Option FinfoSection
  | .tail => some .type
  | .type => some .head
  | .head => none

/-- Where the comparison with a string starts: at its last character. -/
def FinfoSection.last (sec : FinfoSection) : Nat := sec.cmpstr.length - 1

/-- The loop of `locate_finfo_start`.  `before` holds the characters from `parse` on, backwards; the
value is the number of characters that `parse` was moved by. -/
def locateLoop : FinfoSection → (cmpto : Nat) → (before : List Char) → (parsed : Nat) → Option Nat
  | _, _, [], _ => none
  | sec, cmpto, c :: before, parsed =>
    if sec.cmpstr[cmpto]? = some c then
      if cmpto ≠ 0 then locateLoop sec (cmpto - 1) before (parsed + 1)
      else
        match sec.next with
        | none => some parsed
        | some sec' => locateLoop sec' sec'.last before (parsed + 1)
    else if sec ≠ .type then none
    else locateLoop sec sec.last before (parsed + 1)

def locateFinfoStart (before : List Char) : Option Nat :=
  locateLoop .tail FinfoSection.tail.last before 0

/-! ## The type string in a text -/

/-- How far the type string is seen in a text that is walked backwards: `none` once it is seen as a
whole.  A character that does not fit is not compared again. -/
def scanType : (cmpto : Nat) → List Char → Option Nat
  | cmpto, [] => some cmpto
  | cmpto, c :: before =>
    if FinfoSection.type.cmpstr[cmpto]? = some c then
      if cmpto ≠ 0 then scanType (cmpto - 1) before else none
    else scanType FinfoSection.type.last before

def HidesStart (path : List Char) : Prop := scanType FinfoSection.type.last path.reverse = none

instance (path : List Char) : Decidable (HidesStart path) := inferInstanceAs (Decidable (_ = _))

theorem scanType_append (x y : List Char) :
    ∀ cmpto, scanType cmpto (x ++ y) = (scanType cmpto x).bind fun cmpto => scanType cmpto y := by
  induction x with
  | nil => exact fun _ => rfl
  | cons c x ih =>
    intro cmpto
    rw [cons_append, scanType, scanType]
    split
    · split
      · exact ih _
      · rfl
    · exact ih _

variable {x before : List Char} {finfo : RecoveryFinfo}

theorem locateLoop_scan :
    ∀ {cmpto cmpto' : Nat}, scanType cmpto x = some cmpto' → ∀ (before : List Char) (parsed : Nat),
      locateLoop .type cmpto (x ++ before) parsed =
        locateLoop .type cmpto' before (parsed + x.length) := by
  induction x with
  | nil =>
    intro cmpto cmpto' h before parsed
    obtain rfl := Option.some.inj h
    rfl
  | cons c x ih =>
    intro cmpto cmpto' h before parsed
    have hlen : parsed + (c :: x).length = parsed + 1 + x.length := by
      rw [length_cons]
      omega
    rw [scanType] at h
    rw [cons_append, locateLoop, hlen]
    split at h
    · rename_i hc
      rw [if_pos hc]
      split at h
      · rename_i hne
        rw [if_pos hne]
        exact ih h before _
      · cases h
    · rename_i hc
      rw [if_neg hc, if_neg (by simp)]
      exact ih h before _

theorem locateLoop_seen :
    ∀ {cmpto : Nat}, scanType cmpto x = none → ∀ (before : List Char) (parsed : Nat),
      ∃ seen left, x = seen ++ left ∧ locateLoop .type cmpto (x ++ before) parsed =
        locateLoop .head FinfoSection.head.last (left ++ before) (parsed + seen.length) := by
  induction x with
  | nil => exact fun h => nomatch h
  | cons c x ih =>
    intro cmpto h before parsed
    rw [scanType] at h
    have hnext : ∀ {cmpto' : Nat}, scanType cmpto' x = none →
        locateLoop .type cmpto (c :: x ++ before) parsed =
          locateLoop .type cmpto' (x ++ before) (parsed + 1) →
        ∃ seen left, c :: x = seen ++ left ∧ locateLoop .type cmpto (c :: x ++ before) parsed =
          locateLoop .head FinfoSection.head.last (left ++ before) (parsed + seen.length) := by
      intro cmpto' hscan hstep
      obtain ⟨seen, left, rfl, hloop⟩ := ih hscan before (parsed + 1)
      refine ⟨c :: seen, left, rfl, ?_⟩
      rw [hstep, hloop, length_cons, Nat.add_assoc, Nat.add_comm 1]
    split at h
    · rename_i hc
      split at h
      · rename_i hne
        refine hnext h ?_
        rw [cons_append, locateLoop, if_pos hc, if_pos hne]
      · rename_i hzero
        refine ⟨[c], x, rfl, ?_⟩
        rw [cons_append, locateLoop, if_pos hc, if_neg hzero]
        rfl
    · rename_i hc
      refine hnext h ?_
      rw [cons_append, locateLoop, if_neg hc, if_neg (by simp)]

/-! ## The search in a record -/

theorem scanType_skip {c : Char} (hc : c ∉ finfoType) (cmpto : Nat) (x : List Char) :
    scanType cmpto (c :: x) = scanType FinfoSection.type.last x := by
  rw [scanType, if_neg]
  intro h
  exact hc (mem_of_getElem? h)

theorem scanType_of_not_mem (hx : 'O' ∉ x) :
    ∀ {cmpto : Nat}, 4 ≤ cmpto → ∃ cmpto', scanType cmpto x = some cmpto' := by
  induction x with
  | nil => exact fun _ => ⟨_, rfl⟩
  | cons c x ih =>
    intro cmpto hle
    rw [mem_cons, not_or] at hx
    have hlast : 4 ≤ FinfoSection.type.last := by decide
    rw [scanType]
    split
    · rename_i hc
      have hne : cmpto ≠ 4 := by
        rintro rfl
        exact hx.1 (Option.some.inj hc)
      rw [if_pos (by omega)]
      exact ih hx.2 (by omega)
    · exact ih hx.2 hlast

/-- What stands between the type string and the path, but for the first letter and the colon. -/
def RecoveryFinfo.middle (finfo : RecoveryFinfo) : List Char :=
  decimal finfo.inode ++ "|m0".toList ++ octal finfo.mode ++ "|o".toList ++ decimal finfo.owner ++
    "|g".toList ++ decimal finfo.group ++ "|s".toList ++ padded sizeDigits finfo.size ++
    "|t".toList ++ padded sizeDigits finfo.mtimeSec ++ '.' :: padded sizeDigits finfo.mtimeNsec ++
    "|e".toList ++ decimal finfo.eof.toNat ++ "|p".toList ++ decimal finfo.path.length

theorem recoveryFinfotostr_middle (finfo : RecoveryFinfo) :
    recoveryFinfotostr finfo = msgHead ++ (finfoType ++ ('i' :: (finfo.middle ++
      ':' :: (finfo.path ++ msgTail)))) := by
  unfold recoveryFinfotostr RecoveryFinfo.middle
  simp only [append_assoc, cons_append]

/-- There are no capital letters in the numbers. -/
theorem upper_not_mem_middle (finfo : RecoveryFinfo) : 'O' ∉ finfo.middle := by
  have hnum : ∀ n, 'O' ∉ decimal n := by
    intro n hmem
    cases isDigit_of_mem_decimal hmem
  have hpadded : ∀ n, 'O' ∉ padded sizeDigits n := by
    intro n hmem
    cases isDigit_of_mem_padded hmem
  have hoctal : 'O' ∉ octal finfo.mode := by
    intro hmem
    cases Nat.isDigit_of_mem_toDigits (by decide) (by decide) hmem
  unfold RecoveryFinfo.middle
  simp [hnum, hpadded, hoctal]

theorem locateLoop_tail (before : List Char) :
    locateLoop .tail FinfoSection.tail.last (msgTail.reverse ++ before) 0 =
      locateLoop .type FinfoSection.type.last before 2 := rfl

theorem locateLoop_type_head (before : List Char) (parsed : Nat) :
    locateLoop .type FinfoSection.type.last (finfoType.reverse ++ (msgHead.reverse ++ before)) parsed =
      some (parsed + 13) := rfl

theorem locateFinfoStart_record (finfo : RecoveryFinfo) (before : List Char) :
    locateFinfoStart ((recoveryFinfotostr finfo).reverse ++ before) =
      locateLoop .type FinfoSection.type.last (finfo.path.reverse ++
        (':' :: (finfo.middle.reverse ++ ('i' :: (finfoType.reverse ++
          (msgHead.reverse ++ before)))))) 2 := by
  have htext : (recoveryFinfotostr finfo).reverse ++ before = msgTail.reverse ++
      (finfo.path.reverse ++ (':' :: (finfo.middle.reverse ++ ('i' :: (finfoType.reverse ++
        (msgHead.reverse ++ before)))))) := by
    rw [recoveryFinfotostr_middle]
    simp only [reverse_append, reverse_cons, append_assoc, cons_append,
      nil_append]
  unfold locateFinfoStart
  rw [htext, locateLoop_tail]

theorem locateFinfoStart_of_clear (h : ¬ HidesStart finfo.path) (before : List Char) :
    locateFinfoStart ((recoveryFinfotostr finfo).reverse ++ before) =
      some ((recoveryFinfotostr finfo).length - 1) := by
  obtain ⟨cmpto, hpath⟩ := Option.ne_none_iff_exists'.1 h
  -- the colon behind the numbers starts the comparison anew, and so does the letter before them
  have hcolon : ':' ∉ finfoType := by decide
  have hletter : 'i' ∉ finfoType := by decide
  have hupper : 'O' ∉ finfo.middle.reverse := by
    rw [mem_reverse]
    exact upper_not_mem_middle finfo
  obtain ⟨cmpto', hmiddle⟩ := scanType_of_not_mem hupper (show 4 ≤ FinfoSection.type.last by decide)
  have hscan : scanType FinfoSection.type.last
      (finfo.path.reverse ++ (':' :: (finfo.middle.reverse ++ ['i']))) =
        some FinfoSection.type.last := by
    rw [scanType_append, hpath, Option.bind_some, scanType_skip hcolon, scanType_append, hmiddle,
      Option.bind_some, scanType_skip hletter]
    rfl
  have htext : finfo.path.reverse ++ (':' :: (finfo.middle.reverse ++ ('i' :: (finfoType.reverse ++
      (msgHead.reverse ++ before))))) =
      finfo.path.reverse ++ (':' :: (finfo.middle.reverse ++ ['i'])) ++
        (finfoType.reverse ++ (msgHead.reverse ++ before)) := by
    simp only [append_assoc, cons_append, nil_append]
  have htype : finfoType.length = 7 := rfl
  have hhead : msgHead.length = 7 := rfl
  have htail : msgTail.length = 2 := rfl
  rw [locateFinfoStart_record, htext, locateLoop_scan hscan, locateLoop_type_head,
    recoveryFinfotostr_middle]
  simp only [length_append, length_cons, length_reverse, length_nil, htype, hhead,
    htail, Option.some.injEq]
  omega

theorem locateLoop_head_lt {left : List Char} :
    ∀ {cmpto parsed n : Nat}, locateLoop .head cmpto (left ++ ':' :: before) parsed = some n →
      n < parsed + left.length := by
  induction left with
  | nil =>
    intro cmpto parsed n h
    have hcolon : FinfoSection.head.cmpstr[cmpto]? ≠ some ':' := by
      intro hc
      exact absurd (mem_of_getElem? hc) (by decide)
    rw [nil_append, locateLoop, if_neg hcolon, if_pos (by simp)] at h
    cases h
  | cons c left ih =>
    intro cmpto parsed n h
    rw [cons_append, locateLoop] at h
    rw [length_cons]
    split at h
    · split at h
      · have hlt := ih h
        omega
      · obtain rfl := Option.some.inj h
        omega
    · cases h

theorem locateFinfoStart_of_hidden (h : HidesStart finfo.path) {n : Nat}
    (hfound : locateFinfoStart ((recoveryFinfotostr finfo).reverse ++ before) = some n) :
    n < finfo.path.length + msgTail.length := by
  rw [locateFinfoStart_record] at hfound
  obtain ⟨seen, left, hpath, hloop⟩ := locateLoop_seen h
    (':' :: (finfo.middle.reverse ++ ('i' :: (finfoType.reverse ++ (msgHead.reverse ++ before))))) 2
  rw [hloop] at hfound
  have hlt := locateLoop_head_lt hfound
  have hlen := congrArg List.length hpath
  have htail : msgTail.length = 2 := rfl
  rw [length_reverse, length_append] at hlen
  omega

end Marfs.Recovery
