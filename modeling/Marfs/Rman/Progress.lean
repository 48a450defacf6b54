import Mathlib.Data.List.Forall2
import Marfs.Rman.Resourcelog

/-!
# What the progress flag summarises

A ledger follows a resource log: it keeps, for every op in progress, what was logged for it, what
was completed, and whether a completion carried an error.  The log itself keeps the difference and
the last error (`LogReaches.balanced`).  A positive flag means that the leading segment of the chain is
complete without an error, unless the error is on another op than the one the message ends on, or
the message passes the leading segment by (`progress_justified`).
-/

namespace Marfs.Rman

open Tagging List

variable {lookup : List Char → Nat} {log : Resourcelog}

/-! ## The ledger -/

/-- What happened to an op since its chain was logged. -/
structure Account where
  total : Nat
  completed : Nat
  failed : Bool
  deriving DecidableEq, Repr

def Account.fresh (op : Opinfo) : Account := { total := op.count, completed := 0, failed := false }

def Account.complete (account : Account) (op : Opinfo) : Account :=
  { account with
    completed := account.completed + op.count
    failed := account.failed || op.errval ≠ 0 }

/-- Another start: what remains is at least the count that is logged now. -/
def Account.restart (account : Account) (op : Opinfo) : Account :=
  { account with total := max account.total (account.completed + op.count) }

def Account.Settled (account : Account) : Prop :=
  account.completed = account.total ∧ account.failed = false

instance (account : Account) : Decidable account.Settled := by
  unfold Account.Settled; infer_instance

def book (post : Account → Opinfo → Account) : List Opinfo → List Account → List Account
  | op :: ops, account :: accounts => post account op :: book post ops accounts
  | _, accounts => accounts

/-- How many ops of a completion message the log takes note of: it stops at an op that is counted
too high, is not complete yet, or does not match. -/
def noted : List Opinfo → List Opinfo → Nat
  | op :: ops, old :: olds =>
    if op.count > old.count then 0
    else if op.count ≠ old.count then 1
    else
      match ops, olds with
      | nextop :: ops, nextold :: olds =>
        if ftagCmp nextop.ftag nextold.ftag || nextop.type ≠ nextold.type then 1
        else 1 + noted (nextop :: ops) (nextold :: olds)
      | _, _ => 1
  | _, _ => 0

def Found.bookCompletion (found : Found) (newop : List Opinfo) (accounts : List Account) :
    List Account :=
  accounts.take found.pre.length ++
    book Account.complete (newop.take (noted newop found.tail)) (accounts.drop found.pre.length)

/-- The accounts of the matching chain after a start message. -/
def Found.bookRestart (found : Found) (newop : List Opinfo) (accounts : List Account) :
    List Account :=
  accounts.take found.pre.length ++ book Account.restart newop (accounts.drop found.pre.length)

abbrev Ledger := Nat → List (List Account)

def Found.update (found : Found) (accounts : List (List Account))
    (change : List Account → Option (List Account)) : List (List Account) :=
  accounts.take found.before.length ++
    ((change (accounts.getD found.before.length [])).toList ++
      accounts.drop (found.before.length + 1))

def Ledger.setNode (ledger : Ledger) (node : Nat) (accounts : List (List Account)) : Ledger :=
  fun i => if i = node then accounts else ledger i

def Ledger.message (ledger : Ledger) (lookup : List Char → Nat) (log : Resourcelog)
    (newop : List Opinfo) : Ledger :=
  match newop with
  | [] => ledger
  | op :: _ =>
    if newop.any fun finop => finop.start ≠ op.start then ledger
    else
      let node := lookup op.ftag.streamid
      match searchNode op (log.inprogress node) with
      | none =>
        if op.start then ledger.setNode node (ledger node ++ [newop.map Account.fresh]) else ledger
      | some found =>
        if op.start then
          match restartOps log.outstandingcnt newop found.tail with
          | none => ledger
          | some _ => ledger.setNode node <| found.update (ledger node) fun accounts =>
            some (found.bookRestart newop accounts)
        else
          ledger.setNode node <| found.update (ledger node) fun accounts =>
            if found.finishes (completeOps log newop found.tail).2.2 then none
            else some (found.bookCompletion newop accounts)

/-- The runs of a `MODIFY` log, whoever sends the messages and in whatever order. -/
inductive LogReaches (lookup : List Char → Nat) : Resourcelog → Ledger → Prop
  | init : LogReaches lookup (Resourcelog.init .modify) fun _ => []
  | message {log ledger} (h : LogReaches lookup log ledger) (newop : List Opinfo) :
      LogReaches lookup (processopinfo lookup log newop).log (ledger.message lookup log newop)

def runMessages (lookup : List Char → Nat) (state : Resourcelog × Ledger) :
    List (List Opinfo) → Resourcelog × Ledger
  | [] => state
  | newop :: messages =>
    runMessages lookup ((processopinfo lookup state.1 newop).log,
      state.2.message lookup state.1 newop) messages

theorem LogReaches.run {ledger : Ledger} (h : LogReaches lookup log ledger) (messages : List (List Opinfo)) :
    LogReaches lookup (runMessages lookup (log, ledger) messages).1
      (runMessages lookup (log, ledger) messages).2 := by
  induction messages generalizing log ledger with
  | nil => exact h
  | cons newop messages ih => exact ih (.message h newop)

/-! ## The log and the ledger agree -/

/-- The op keeps what is left of its account, and an error if there was one. -/
structure Balances (account : Account) (op : Opinfo) : Prop where
  count_add : op.count + account.completed = account.total
  errval_ne : account.failed = true → op.errval ≠ 0

def BalancedNode : List (List Account) → List (List Opinfo) → Prop := Forall₂ (Forall₂ Balances)

theorem Balances.complete {account : Account} {old op : Opinfo} (h : Balances account old)
    (hle : op.count ≤ old.count) : Balances (account.complete op) (old.complete op) where
  count_add := by
    have := h.count_add
    simp only [Opinfo.complete, Account.complete]
    omega
  errval_ne hfail := by
    simp only [Account.complete, Bool.or_eq_true, decide_eq_true_eq] at hfail
    simp only [Opinfo.complete]
    split
    · assumption
    · exact h.errval_ne (hfail.resolve_right (by assumption))

theorem balances_fresh (op : Opinfo) : Balances (.fresh op) op :=
  ⟨rfl, fun h => by cases h⟩

theorem completeOps_balances (newop : List Opinfo) :
    ∀ (log : Resourcelog) (index : List Opinfo) (accounts : List Account),
      Forall₂ Balances accounts index →
      Forall₂ Balances (book Account.complete (newop.take (noted newop index)) accounts)
        (completeOps log newop index).2.1 := by
  induction newop with
  | nil =>
    intro log index accounts h
    simpa [noted, completeOps, book] using h
  | cons op ops ih =>
    intro log index accounts h
    cases h with
    | nil => exact .nil
    | @cons account old accounts olds hhead hrest =>
      unfold completeOps noted
      by_cases hexc : op.count > old.count
      · simpa [hexc, book] using ⟨hhead, hrest⟩
      · have hc := hhead.complete (by omega : op.count ≤ old.count)
        simp only [if_neg hexc]
        by_cases hne : op.count ≠ old.count
        · have hleft : (old.complete op).count ≠ 0 := by simp only [Opinfo.complete]; omega
          rw [if_pos hne, if_pos hleft]
          exact .cons hc (by simpa [book] using hrest)
        · have hdone : ¬ (old.complete op).count ≠ 0 := by simp only [Opinfo.complete]; omega
          rw [if_neg hne, if_neg hdone]
          cases ops with
          | nil => exact .cons hc (by simpa [book] using hrest)
          | cons nextop ops =>
            cases hrest with
            | nil => exact .cons hc .nil
            | @cons nextaccount nextold accounts olds hnext hrest =>
              by_cases hcmp : (ftagCmp nextop.ftag nextold.ftag || nextop.type ≠ nextold.type) = true
              · simp only [hcmp, if_true]
                exact .cons hc (.cons hnext (by simpa [book] using hrest))
              · have hnext' := ih { log.noteCompletion op with
                    outstandingcnt := (log.noteCompletion op).outstandingcnt - 1 }
                  (nextold :: olds) (nextaccount :: accounts) (.cons hnext hrest)
                simp only [hcmp, Bool.false_eq_true, if_false, Nat.add_comm 1, take_succ_cons]
                exact .cons hc hnext'

theorem Balances.restart {account : Account} {old op : Opinfo} (h : Balances account old) :
    Balances (account.restart op)
      (if op.count > old.count then { old with count := op.count } else old) where
  count_add := by
    have := h.count_add
    simp only [Account.restart]
    split
    · dsimp only
      omega
    · omega
  errval_ne hfail := by
    have := h.errval_ne hfail
    split <;> exact this

theorem restartOps_balances (newop : List Opinfo) :
    ∀ {outstandingcnt outstandingcnt' : Int} {index tail : List Opinfo} {accounts : List Account},
      restartOps outstandingcnt newop index = some (outstandingcnt', tail) →
      Forall₂ Balances accounts index → Forall₂ Balances (book Account.restart newop accounts) tail := by
  induction newop with
  | nil =>
    intro _ _ index tail accounts hst h
    simp only [restartOps, Option.some.injEq, Prod.mk.injEq] at hst
    rw [← hst.2]
    simpa [book] using h
  | cons op ops ih =>
    intro _ _ index tail accounts hst h
    cases h with
    | nil => cases hst
    | cons hhead hrest =>
      simp only [restartOps, Option.bind_eq_bind, Option.bind_eq_some_iff, Option.some.injEq,
        Prod.mk.injEq] at hst
      obtain ⟨⟨cnt, olds⟩, holds, -, rfl⟩ := hst
      have hnew : Balances _ (if op.count > _ then _ else _) := hhead.restart
      exact .cons (by simpa using hnew) (ih holds hrest)

/-! ## The search -/

/-- What the search says about the match: if everything before it in the chain is of its type, and
nothing alike is active, then all of that is complete. -/
structure Found.Located (found : Found) (newop : Opinfo) : Prop where
  tail_eq : ∃ old olds, found.tail = old :: olds ∧ old.type = newop.type
  alike : (∀ old ∈ found.pre, old.type = newop.type) → found.activealike = false →
    ∀ old ∈ found.pre, old.count = 0

theorem searchChain_some {newop : Opinfo} {found : Found} (ops : List Opinfo) :
    ∀ {pre : List Opinfo} {activechain activealike : Bool},
      searchChain newop pre activechain activealike ops = some found →
      found.before = [] ∧ found.chain = pre ++ ops ∧
        (∃ old olds, found.tail = old :: olds ∧ old.type = newop.type) ∧
        ∃ mid, found.pre = pre ++ mid ∧ ((∀ old ∈ mid, old.type = newop.type) →
          found.activealike = false → activealike = false ∧ ∀ old ∈ mid, old.count = 0) := by
  induction ops with
  | nil =>
    intro pre activechain activealike h
    cases h
  | cons op ops ih =>
    intro pre activechain activealike h
    unfold searchChain at h
    split at h
    · rename_i hmatch
      obtain rfl := Option.some.inj h
      simp only [Opinfo.matches, Bool.and_eq_true, beq_iff_eq] at hmatch
      exact ⟨rfl, rfl, ⟨op, ops, rfl, hmatch.2⟩, [], by simp, fun _ hno => ⟨hno, by simp⟩⟩
    · obtain ⟨hbef, hchain, htail, mid, hpre, halk⟩ := ih h
      refine ⟨hbef, by simpa using hchain, htail, op :: mid, by simpa using hpre,
        fun htypes hno => ?_⟩
      obtain ⟨hact, hmid⟩ := halk (fun old hold => htypes old (mem_cons_of_mem _ hold)) hno
      rw [if_neg (by simp [htypes op (mem_cons_self ..)])] at hact
      simp only [Bool.or_eq_false_iff, decide_eq_false_iff_not, not_not] at hact
      refine ⟨hact.1, fun old hold => ?_⟩
      rcases mem_cons.1 hold with rfl | hold
      · exact hact.2
      · exact hmid old hold

theorem searchNode_some {newop : Opinfo} {found : Found} (chains : List (List Opinfo)) :
    searchNode newop chains = some found →
      chains = found.before ++ found.chain :: found.after ∧ found.Located newop := by
  induction chains generalizing found with
  | nil =>
    intro h
    cases h
  | cons chain chains ih =>
    intro h
    unfold searchNode at h
    split at h
    · rename_i found' hsrch
      obtain rfl := Option.some.inj h
      split at hsrch
      · obtain ⟨hbef, hchain, htail, mid, hpre, halk⟩ := searchChain_some chain hsrch
        rw [nil_append] at hchain hpre
        refine ⟨?_, htail, ?_⟩
        · change chain :: chains = found'.before ++ found'.chain :: chains
          rw [hbef, hchain]
          rfl
        · intro htypes hno
          simp only [hpre] at htypes ⊢
          exact (halk htypes hno).2
      · cases hsrch
    · obtain ⟨found', hsrch, rfl⟩ := Option.map_eq_some_iff.1 h
      obtain ⟨hch, hlocated⟩ := ih hsrch
      exact ⟨by rw [hch]; rfl, hlocated.tail_eq, hlocated.alike⟩

/-! ## A step of the ledger -/

theorem BalancedNode.found {accounts : List (List Account)} {before after : List (List Opinfo)}
    {chain : List Opinfo} (h : BalancedNode accounts (before ++ chain :: after)) :
    BalancedNode (accounts.take before.length) before ∧
      Forall₂ Balances (accounts.getD before.length []) chain ∧
      BalancedNode (accounts.drop (before.length + 1)) after := by
  refine ⟨forall₂_take_append _ _ _ h, ?_⟩
  have hdrop := forall₂_drop_append _ _ _ h
  rw [← tail_drop, getD_eq_getElem?_getD, ← head?_drop]
  cases hd : accounts.drop before.length with
  | nil =>
    rw [hd] at hdrop
    cases hdrop
  | cons chainaccounts rest =>
    rw [hd] at hdrop
    cases hdrop with
    | cons hchain hafter => exact ⟨hchain, hafter⟩

def Found.accounts (found : Found) (accounts : List (List Account)) : List Account :=
  accounts.getD found.before.length []

theorem Found.completion_balances {found : Found} {newop : List Opinfo} {accounts : List Account}
    (h : Forall₂ Balances accounts found.chain) (log : Resourcelog) :
    Forall₂ Balances (found.bookCompletion newop accounts)
      (found.pre ++ (completeOps log newop found.tail).2.1) :=
  rel_append (forall₂_take_append _ _ _ h)
    (completeOps_balances newop log _ _ (forall₂_drop_append _ _ _ h))

theorem Found.restart_balances {found : Found} {newop : List Opinfo} {accounts : List Account}
    {outstandingcnt outstandingcnt' : Int} {tail : List Opinfo} (h : Forall₂ Balances accounts found.chain)
    (hst : restartOps outstandingcnt newop found.tail = some (outstandingcnt', tail)) :
    Forall₂ Balances (found.bookRestart newop accounts) (found.pre ++ tail) :=
  rel_append (forall₂_take_append _ _ _ h)
    (restartOps_balances newop hst (forall₂_drop_append _ _ _ h))

def Balanced (ledger : Ledger) (log : Resourcelog) : Prop :=
  ∀ node, BalancedNode (ledger node) (log.inprogress node)

theorem Balanced.setNode {ledger : Ledger} {log log' : Resourcelog} (h : Balanced ledger log)
    (hlog : log'.inprogress = log.inprogress) {node : Nat} {accounts : List (List Account)}
    {chains : List (List Opinfo)} (hnode : BalancedNode accounts chains) :
    Balanced (ledger.setNode node accounts) (log'.setNode node chains) := by
  intro i
  by_cases hi : i = node
  · simpa [Ledger.setNode, Resourcelog.setNode, hi] using hnode
  · simpa [Ledger.setNode, Resourcelog.setNode, hi, hlog] using h i

theorem completeOps_frame (newop : List Opinfo) :
    ∀ (log : Resourcelog) (index : List Opinfo),
      (completeOps log newop index).1.inprogress = log.inprogress ∧
        (completeOps log newop index).1.type = log.type := by
  induction newop with
  | nil => exact fun log index => ⟨rfl, rfl⟩
  | cons op ops ih =>
    intro log index
    cases index with
    | nil => exact ⟨rfl, rfl⟩
    | cons old olds =>
      unfold completeOps
      split
      · exact ⟨rfl, rfl⟩
      · dsimp only
        split
        · exact ⟨rfl, rfl⟩
        · cases ops with
          | nil => exact ⟨rfl, rfl⟩
          | cons nextop ops =>
            cases olds with
            | nil => exact ⟨rfl, rfl⟩
            | cons nextold olds =>
              dsimp only
              split
              · exact ⟨rfl, rfl⟩
              · exact ih _ _

theorem processopinfo_type (lookup : List Char → Nat) (log : Resourcelog) (newop : List Opinfo) :
    (processopinfo lookup log newop).log.type = log.type := by
  cases newop with
  | nil => rfl
  | cons op ops =>
    unfold processopinfo
    dsimp only
    split
    · rfl
    cases searchNode op (log.inprogress (lookup op.ftag.streamid)) with
    | none =>
      dsimp only
      unfold processNew
      split
      · rfl
      · cases log.type <;> rfl
    | some found =>
      dsimp only
      split
      · unfold processRestart
        cases restartOps log.outstandingcnt (op :: ops) found.tail <;> rfl
      · exact (completeOps_frame _ _ _).2

theorem Balanced.message {ledger : Ledger} (h : Balanced ledger log)
    (htype : log.type = .modify) (newop : List Opinfo) :
    Balanced (ledger.message lookup log newop) (processopinfo lookup log newop).log := by
  cases newop with
  | nil => exact h
  | cons op ops =>
    by_cases hany : ((op :: ops).any fun finop => finop.start ≠ op.start) = true
    · simp only [Ledger.message, processopinfo, if_pos hany]
      exact h
    simp only [Ledger.message, processopinfo, if_neg hany]
    cases hsrch : searchNode op (log.inprogress (lookup op.ftag.streamid)) with
    | none =>
      dsimp only
      unfold processNew
      cases op.start with
      | false => exact h
      | true =>
        simp only [Bool.not_true, Bool.false_eq_true, if_false, if_true, htype]
        refine h.setNode rfl (rel_append (h _) (.cons ?_ .nil))
        rw [forall₂_map_left_iff]
        exact forall₂_same.2 fun op _ => balances_fresh op
    | some found =>
      obtain ⟨hch, hlocated⟩ := searchNode_some _ hsrch
      have hnode := h (lookup op.ftag.streamid)
      rw [hch] at hnode
      obtain ⟨hbef, hchain, hafter⟩ := hnode.found
      dsimp only
      cases hst : op.start with
      | true =>
        simp only [if_true, processRestart]
        cases hrestart : restartOps log.outstandingcnt (op :: ops) found.tail with
        | none => exact h
        | some result =>
          refine h.setNode rfl ?_
          exact rel_append hbef (.cons (Found.restart_balances hchain hrestart) hafter)
      | false =>
        simp only [Bool.false_eq_true, if_false, processCompletion]
        refine h.setNode (completeOps_frame _ _ _).1 ?_
        split
        · exact rel_append hbef hafter
        · exact rel_append hbef (.cons (Found.completion_balances hchain log) hafter)

theorem LogReaches.balanced {ledger : Ledger} (h : LogReaches lookup log ledger) :
    log.type = .modify ∧ Balanced ledger log := by
  induction h with
  | init => exact ⟨rfl, fun _ => .nil⟩
  | message h newop ih =>
    exact ⟨(processopinfo_type lookup _ newop).trans ih.1, ih.2.message ih.1 newop⟩

/-! ## What a positive flag stands for -/

/-- A completion message that settles the op it ends on: it completes the first ops of the chain
from the match on, and what follows decides the flag. -/
structure Settles (newop index tail : List Opinfo) (errval : Int) (activealike last : Bool) : Prop where
  spec : ∃ cur rest, index = cur ++ rest ∧ tail = List.zipWith Opinfo.complete cur newop ++ rest ∧
    Forall₂ (fun op old => op.count = old.count) newop cur ∧
    Forall₂ (fun op old => op.type = old.type) newop.tail cur.tail ∧
    last = rest.isEmpty ∧
    ∃ fin ∈ (newop.zip cur).getLast?, activealike = alikeActive fin.1.type rest ∧
      errval = (fin.2.complete fin.1).errval

theorem completeOps_settled (newop : List Opinfo) :
    ∀ {log log' : Resourcelog} {index tail : List Opinfo} {errval : Int} {activealike last : Bool},
      completeOps log newop index = (log', tail, .settled errval activealike last) →
      Settles newop index tail errval activealike last := by
  induction newop with
  | nil =>
    intro log log' index tail errval activealike last h
    simp [completeOps] at h
  | cons op ops ih =>
    intro log log' index tail errval activealike last h
    cases index with
    | nil => simp [completeOps] at h
    | cons old olds =>
      unfold completeOps at h
      split at h
      · simp at h
      rename_i hle
      dsimp only at h
      split at h
      · split at h <;> simp at h
      rename_i hdone
      have hcnt : op.count = old.count := by
        simp only [Opinfo.complete] at hdone
        omega
      cases ops with
      | nil =>
        simp only [Prod.mk.injEq, Completion.settled.injEq] at h
        obtain ⟨-, rfl, rfl, rfl, rfl⟩ := h
        exact ⟨[old], olds, rfl, rfl, .cons hcnt .nil, .nil, rfl, (op, old), rfl, rfl, rfl⟩
      | cons nextop ops =>
        cases olds with
        | nil => simp at h
        | cons nextold olds =>
          dsimp only at h
          split at h
          · simp at h
          rename_i hsame
          simp only [Bool.or_eq_true, decide_eq_true_eq, not_or, not_not] at hsame
          simp only [Prod.mk.injEq] at h
          obtain ⟨-, rfl, hset⟩ := h
          obtain ⟨cur, rest, hidx, htail, hcnts, htypes, hlast, fin, hfin, halk, herr⟩ :=
            (ih (Prod.ext rfl (Prod.ext rfl hset))).spec
          cases hcnts with
          | @cons _ cur₁ _ cur hc hcnts =>
            obtain ⟨rfl, rfl⟩ := List.cons.inj hidx
            refine ⟨old :: nextold :: cur, rest, rfl, congrArg (old.complete op :: ·) htail,
              .cons hcnt (.cons hc hcnts), .cons hsame.2 htypes, hlast, fin, hfin, halk, herr⟩

/-- The leading segment of a chain: its first ops, as long as they have one type. -/
def leading : List Opinfo → List Opinfo
  | [] => []
  | op :: ops => (op :: ops).takeWhile fun old => old.type == op.type

/-- The leading segment of the chain is complete, for the whole count of each of its ops and without
an error, once the message is noted. -/
def Found.SegmentDone (found : Found) (newop : List Opinfo) (accounts : List (List Account)) : Prop :=
  ∀ account ∈ (found.bookCompletion newop (found.accounts accounts)).take
    (leading found.chain).length, account.Settled

/-- The flag is not set to a positive value anyway: alike ops of the segment of the message stay
active, one of its ops is not complete, or the op it ends on has an error, recorded or reported. -/
def Found.Withheld (found : Found) (newop : List Opinfo) : Prop :=
  found.activealike = true ∨
    (∃ pair ∈ newop.zip found.tail, pair.1.count ≠ pair.2.count) ∨
    ∃ fin ∈ (newop.zip found.tail).getLast?,
      alikeActive fin.1.type (found.tail.drop newop.length) = true ∨ fin.1.errval ≠ 0 ∨
        fin.2.errval ≠ 0

def Found.StartsLeading (found : Found) (op : Opinfo) : Prop := ∀ old ∈ found.pre, old.type = op.type

/-- No op of the leading segment has an error recorded, or reported by a message that starts in it;
a message that starts behind it finds it complete. -/
structure Found.LeadingClean (found : Found) (op : Opinfo) (ops : List Opinfo) : Prop where
  recorded : ∀ old ∈ leading found.chain, old.errval = 0
  reported : found.StartsLeading op → ∀ new ∈ leading (op :: ops), new.errval = 0
  reached : ¬ found.StartsLeading op → ∀ old ∈ leading found.chain, old.count = 0

section Leading

variable {type : OperationType}

theorem leading_eq {ops : List Opinfo} (h : ∀ op ∈ ops.head?, op.type = type) :
    leading ops = ops.takeWhile fun op => op.type == type := by
  cases ops with
  | nil => rfl
  | cons op ops => rw [leading, h op rfl]

theorem mem_takeWhile_append {α : Type} {p : α → Bool} {l₁ l₂ : List α} {x : α} :
    x ∈ (l₁ ++ l₂).takeWhile p ↔
      x ∈ l₁.takeWhile p ∨ (∀ y ∈ l₁, p y = true) ∧ x ∈ l₂.takeWhile p := by
  induction l₁ with
  | nil => simp
  | cons y l₁ ih =>
    cases hy : p y with
    | false => simp [hy]
    | true => simp [hy, ih, or_assoc]

@[simp] theorem Opinfo.type_complete (old op : Opinfo) : (old.complete op).type = old.type := rfl

theorem mem_takeWhile_complete {newop cur : List Opinfo} {done : Opinfo}
    (hcnts : Forall₂ (fun op old => op.count = old.count) newop cur)
    (htypes : Forall₂ (fun op old => op.type = old.type) newop cur)
    (h : done ∈ (List.zipWith Opinfo.complete cur newop).takeWhile fun op => op.type == type) :
    ∃ op ∈ newop.takeWhile fun op => op.type == type,
      ∃ old ∈ cur.takeWhile fun op => op.type == type,
        done = old.complete op ∧ op.count = old.count := by
  induction hcnts with
  | nil => cases h
  | @cons op old ops olds hcnt hcnts ih =>
    cases htypes with
    | cons htype htypes =>
      cases heq : (old.type == type) with
      | false => simp [heq] at h
      | true =>
        simp only [List.zipWith_cons_cons, takeWhile_cons, Opinfo.type_complete, heq, if_true,
          htype, mem_cons] at h ⊢
        rcases h with rfl | h
        · exact ⟨op, .inl rfl, old, .inl rfl, rfl, hcnt⟩
        · obtain ⟨op', hop', old', hold', hdone⟩ := ih htypes h
          exact ⟨op', .inr hop', old', .inr hold', hdone⟩

theorem type_of_complete {newop cur : List Opinfo}
    (htypes : Forall₂ (fun op old => op.type = old.type) newop cur)
    (h : ∀ done ∈ List.zipWith Opinfo.complete cur newop, done.type = type) :
    (∀ op ∈ newop, op.type = type) ∧ ∀ old ∈ cur, old.type = type := by
  induction htypes with
  | nil => simp
  | @cons op old ops olds htype htypes ih =>
    simp only [List.zipWith_cons_cons, mem_cons, forall_eq_or_imp, Opinfo.type_complete] at h ⊢
    obtain ⟨hops, holds⟩ := ih h.2
    exact ⟨⟨htype.trans h.1, hops⟩, h.1, holds⟩

end Leading

theorem Found.LeadingClean.done {found : Found} {op : Opinfo} {ops tail : List Opinfo} {errval : Int}
    {last : Bool} (h : found.LeadingClean op ops) (hlocated : found.Located op)
    (hs : Settles (op :: ops) found.tail tail errval false last) (halk : found.activealike = false) :
    ∀ old ∈ leading (found.pre ++ tail), old.count = 0 ∧ old.errval = 0 := by
  obtain ⟨cur, rest, htail, hdone, hcnts, htypes, -, fin, hfin, hafter, -⟩ := hs.spec
  obtain ⟨first, firsts, hfst, hfirsttype⟩ := hlocated.tail_eq
  cases hcnts with
  | @cons _ cur₁ _ curs hcnt hcnts =>
  obtain ⟨rfl, -⟩ := List.cons.inj (htail.symm.trans hfst)
  have htypes' : Forall₂ (fun op old => op.type = old.type) (op :: ops) (cur₁ :: curs) :=
    .cons hfirsttype.symm htypes
  -- both chains have the type of the same first op
  obtain ⟨type, hbef, hdonetype⟩ : ∃ type, (∀ x ∈ found.chain.head?, x.type = type) ∧
      ∀ x ∈ (found.pre ++ tail).head?, x.type = type := by
    rw [Found.chain, htail, hdone]
    cases found.pre with
    | nil => exact ⟨cur₁.type, by simp, by simp⟩
    | cons x pre => exact ⟨x.type, by simp, by simp⟩
  intro old hold
  have hrec := h.recorded
  have hreached := h.reached
  rw [leading_eq hbef, Found.chain, htail] at hrec hreached
  rw [leading_eq hdonetype, hdone, mem_takeWhile_append, mem_takeWhile_append] at hold
  rcases hold with hpre | ⟨hall, hcur | ⟨hallcur, hrest⟩⟩
  · have hmem : old ∈ (found.pre ++ (cur₁ :: curs ++ rest)).takeWhile fun op => op.type == type :=
      mem_takeWhile_append.2 (.inl hpre)
    refine ⟨?_, hrec old hmem⟩
    by_cases hst : found.StartsLeading op
    · exact hlocated.alike hst halk old (takeWhile_subset _ hpre)
    · exact hreached hst old hmem
  · -- an op the message completes
    obtain ⟨new, hnew, idx, hidx, rfl, hsame⟩ := mem_takeWhile_complete (.cons hcnt hcnts) htypes' hcur
    have hoptype : op.type = type := by
      rw [← hfirsttype]
      by_contra hne
      rw [takeWhile_cons, if_neg (by simpa using hne)] at hidx
      cases hidx
    have hst : found.StartsLeading op := fun old hold => by
      rw [hoptype]
      simpa using hall old hold
    have hnewerr := h.reported hst new (by rwa [leading_eq (by simpa using hoptype)])
    have hiderr := hrec idx (mem_takeWhile_append.2
      (.inr ⟨hall, mem_takeWhile_append.2 (.inl hidx)⟩))
    refine ⟨?_, ?_⟩
    · simp only [Opinfo.complete, hsame, Nat.sub_self]
    · simp only [Opinfo.complete, hnewerr, ne_eq, not_true_eq_false, if_false, hiderr]
  · -- an op behind the ones it completes
    obtain ⟨hopstype, hcurtype⟩ := type_of_complete htypes' fun done hdone => by
      simpa using hallcur done hdone
    refine ⟨?_, hrec old (mem_takeWhile_append.2
      (.inr ⟨hall, mem_takeWhile_append.2 (.inr ⟨by simpa using hcurtype, hrest⟩)⟩))⟩
    rw [alikeActive, hopstype fin.1 (of_mem_zip (mem_of_mem_getLast? hfin)).1] at hafter
    have hquiet := List.any_eq_false.1 hafter.symm old hrest
    simpa using hquiet

theorem zip_of_forall₂ {R : Opinfo → Opinfo → Prop} {newop cur : List Opinfo}
    (h : Forall₂ R newop cur) (rest : List Opinfo) : newop.zip (cur ++ rest) = newop.zip cur := by
  induction h with
  | nil => simp
  | cons _ _ ih => simp [ih]

theorem Settles.not_withheld {found : Found} {newop tail : List Opinfo} {last : Bool}
    (hs : Settles newop found.tail tail 0 false last) (halk : found.activealike = false) :
    ¬ found.Withheld newop := by
  obtain ⟨cur, rest, htail, -, hcnts, -, -, fin, hfin, hafter, herr⟩ := hs.spec
  have hlen := hcnts.length_eq
  have hzip : newop.zip found.tail = newop.zip cur := by rw [htail, zip_of_forall₂ hcnts]
  have hdrop : found.tail.drop newop.length = rest := by rw [htail, hlen, drop_left]
  rintro (hact | ⟨pair, hpair, hne⟩ | ⟨fin', hfin', hbad⟩)
  · rw [halk] at hact
    cases hact
  · rw [hzip] at hpair
    exact hne ((forall₂_iff_zip.1 hcnts).2 hpair)
  · rw [hzip] at hfin'
    obtain rfl := Option.some.inj (hfin.symm.trans hfin')
    rw [hdrop] at hbad
    rcases hbad with hact | hnew | hold
    · rw [← hafter] at hact
      cases hact
    · simp only [Opinfo.complete, if_pos hnew] at herr
      exact hnew herr.symm
    · simp only [Opinfo.complete] at herr
      split at herr
      · exact absurd herr.symm (by assumption)
      · exact hold herr.symm

theorem leading_isPrefix (ops : List Opinfo) : leading ops <+: ops := by
  cases ops with
  | nil => exact prefix_rfl
  | cons op ops => exact List.takeWhile_prefix _

theorem leading_length_congr {ops ops' : List Opinfo} (h : ops.map Opinfo.type = ops'.map Opinfo.type) :
    (leading ops).length = (leading ops').length := by
  have hmap : ∀ ops : List Opinfo, (leading ops).length = match ops.map Opinfo.type with
      | [] => 0
      | type :: types => ((type :: types).takeWhile fun t => t == type).length := by
    intro ops
    cases ops with
    | nil => rfl
    | cons op ops =>
      change _ = (((op :: ops).map Opinfo.type).takeWhile fun t => t == op.type).length
      rw [takeWhile_map, length_map]
      rfl
  rw [hmap, hmap, h]

theorem Settles.types {newop index tail : List Opinfo} {errval : Int} {activealike last : Bool}
    (hs : Settles newop index tail errval activealike last) :
    tail.map Opinfo.type = index.map Opinfo.type := by
  obtain ⟨cur, rest, rfl, rfl, hcnts, -⟩ := hs.spec
  rw [map_append, map_append]
  congr 1
  clear hs
  induction hcnts with
  | nil => rfl
  | cons _ _ ih => simpa using ih

theorem exists_balances {accounts : List Account} {ops : List Opinfo} (h : Forall₂ Balances accounts ops)
    {account : Account} (hmem : account ∈ accounts) : ∃ op ∈ ops, Balances account op := by
  induction h with
  | nil => cases hmem
  | cons hhead _ ih =>
    rcases mem_cons.1 hmem with rfl | hmem
    · exact ⟨_, mem_cons_self .., hhead⟩
    · obtain ⟨op, hop, hb⟩ := ih hmem
      exact ⟨op, mem_cons_of_mem _ hop, hb⟩

theorem Settles.segmentDone {found : Found} {op : Opinfo} {ops tail : List Opinfo} {last : Bool}
    {accounts : List (List Account)} {log log' : Resourcelog}
    (hcomp : completeOps log (op :: ops) found.tail = (log', tail, .settled 0 false last))
    (hlocated : found.Located op) (halk : found.activealike = false) (hclean : found.LeadingClean op ops)
    (hbalanced : Forall₂ Balances (found.accounts accounts) found.chain) :
    found.SegmentDone (op :: ops) accounts := by
  have hs := completeOps_settled _ hcomp
  have hdone := hclean.done hlocated hs halk
  have hafter : Forall₂ Balances (found.bookCompletion (op :: ops) (found.accounts accounts))
      (found.pre ++ (completeOps log (op :: ops) found.tail).2.1) :=
    Found.completion_balances hbalanced log
  rw [hcomp] at hafter
  have hlen : (leading found.chain).length = (leading (found.pre ++ tail)).length := by
    refine leading_length_congr ?_
    rw [Found.chain, map_append, map_append, hs.types]
  intro account haccount
  rw [hlen] at haccount
  have htake := forall₂_take (leading (found.pre ++ tail)).length hafter
  rw [← prefix_iff_eq_take.1 (leading_isPrefix _)] at htake
  obtain ⟨old, hold, hb⟩ := exists_balances htake haccount
  obtain ⟨hcnt, herr⟩ := hdone old hold
  have := hb.count_add
  refine ⟨by omega, ?_⟩
  by_contra hfail
  exact hb.errval_ne (by simpa using hfail) herr

theorem progress_pos {newop : List Opinfo} {progress : Int}
    (h : (processopinfo lookup log newop).progress = some progress) (hpos : 0 < progress) :
    ∃ op ops found, newop = op :: ops ∧
      searchNode op (log.inprogress (lookup op.ftag.streamid)) = some found ∧
      found.activealike = false ∧ ∃ log' tail last,
        completeOps log newop found.tail = (log', tail, .settled 0 false last) := by
  cases newop with
  | nil => cases h
  | cons op ops =>
    unfold processopinfo at h
    dsimp only at h
    split at h
    · cases h
    cases hsrch : searchNode op (log.inprogress (lookup op.ftag.streamid)) with
    | none =>
      rw [hsrch] at h
      dsimp only [processNew] at h
      split at h
      · cases h
      · cases htype : log.type <;> (rw [htype] at h; cases h)
    | some found =>
      refine ⟨op, ops, found, rfl, hsrch, ?_⟩
      rw [hsrch] at h
      dsimp only at h
      split at h
      · unfold processRestart at h
        split at h <;> cases h
      · unfold processCompletion at h
        rcases hc : completeOps log (op :: ops) found.tail with ⟨log', tail, completion⟩
        rw [hc] at h
        change found.progress completion = some progress at h
        cases completion with
        | failed => cases h
        | incomplete =>
          obtain rfl := Option.some.inj h
          cases hpos
        | settled errval alike last =>
          have h' := Option.some.inj h
          split at h'
          · omega
          rename_i hquiet
          split at h'
          · rename_i herr
            simp only [Bool.or_eq_true, not_or, Bool.not_eq_true] at hquiet
            obtain ⟨hact, rfl⟩ := hquiet
            obtain rfl := herr
            exact ⟨hact, log', tail, last, rfl⟩
          · omega

/-- A completion message whose flag is positive, if it is, found or made the leading segment of its
chain complete and free of errors. -/
def Justified (lookup : List Char → Nat) (log : Resourcelog) (ledger : Ledger)
    (newop : List Opinfo) : Prop :=
  ∃ op ops found, newop = op :: ops ∧
    searchNode op (log.inprogress (lookup op.ftag.streamid)) = some found ∧
    found.SegmentDone newop (ledger (lookup op.ftag.streamid))

/-- The state of the log before a message: the flag is withheld, or the leading segment of the chain
that the message is for is clean. -/
def Orderly (lookup : List Char → Nat) (log : Resourcelog) (newop : List Opinfo) : Prop :=
  ∀ op ops found, newop = op :: ops →
    searchNode op (log.inprogress (lookup op.ftag.streamid)) = some found →
    found.Withheld newop ∨ found.LeadingClean op ops

theorem justified_of_progress {ledger : Ledger} (h : LogReaches lookup log ledger)
    {newop : List Opinfo} (hcond : Orderly lookup log newop) {progress : Int}
    (hflag : (processopinfo lookup log newop).progress = some progress) (hpos : 0 < progress) :
    Justified lookup log ledger newop := by
  obtain ⟨op, ops, found, rfl, hsrch, halk, log', tail, last, hcomp⟩ :=
    progress_pos hflag hpos
  obtain ⟨hch, hlocated⟩ := searchNode_some _ hsrch
  have hs := completeOps_settled _ hcomp
  have hclean := (hcond op ops found rfl hsrch).resolve_left (hs.not_withheld halk)
  have hnode := h.balanced.2 (lookup op.ftag.streamid)
  rw [hch] at hnode
  exact ⟨op, ops, found, rfl, hsrch,
    Settles.segmentDone hcomp hlocated halk hclean hnode.found.2.1⟩

theorem resourcelogProcessop_progress (printed : Bool) (op : List Opinfo) :
    (resourcelogProcessop lookup printed log op).progress =
      (processopinfo lookup log op).progress := by
  unfold resourcelogProcessop
  dsimp only
  split <;> rfl

theorem executeTurn_next {printed : Bool} {execute : List Opinfo → List Opinfo}
    {ops newop nextop rest : List Opinfo} (hmsg : turnMessage execute false ops = some (newop, nextop))
    (h : (executeTurn lookup printed execute log ops false).2 = .next rest false) :
    ∃ progress, (processopinfo lookup log newop).progress = some progress ∧ 0 < progress := by
  unfold executeTurn at h
  rw [hmsg] at h
  dsimp only at h
  rw [resourcelogProcessop_progress] at h
  split at h
  · cases h
  split at h
  · cases h
  rename_i hne
  simp only [Bool.false_or, Turn.next.injEq, decide_eq_false_iff_not] at h
  cases hflag : (processopinfo lookup log newop).progress with
  | none => exact absurd (by rw [hflag]; rfl) hne
  | some progress =>
    rw [hflag, Option.getD_some] at h hne
    exact ⟨progress, rfl, by omega⟩

/-- The deletion of one object. -/
def sampleDelobj (objno : Nat) (start : Bool) (errval : Int) : Opinfo :=
  { extendedinfo := .delobj { offset := 0 }, start := start, count := 1, errval := errval
    ftag := sampleFtag 1 objno false }

/-- The deletion of one reference. -/
def sampleDelref (start : Bool) : Opinfo :=
  { extendedinfo := .delref { prevActiveIndex := 0, delzero := false, eos := false }
    start := start, count := 1, errval := 0, ftag := sampleFtag 1 1 false }

/-- A chain of two object deletions and a reference deletion was logged, and the first completed
with an error, or without one. -/
def sampleRun (errval : Int) : List (List Opinfo) :=
  [[sampleDelobj 0 true 0, sampleDelobj 1 true 0, sampleDelref true], [sampleDelobj 0 false errval]]

def sampleState (errval : Int) : Resourcelog × Ledger :=
  runMessages (fun _ => 0) (Resourcelog.init .modify, fun _ => []) (sampleRun errval)

/-- The second object deletion completes without an error: the thread goes on to delete the
reference although the first one failed. -/
theorem failed_deletion_progresses :
    LogReaches (fun _ => 0) (sampleState 5).1 (sampleState 5).2 ∧
      (processopinfo (fun _ => 0) (sampleState 5).1
        [sampleDelobj 1 false 0]).progress = some 1 ∧
      (executeTurn (fun _ => 0) true (fun ops => ops.map fun op => { op with start := false })
        (sampleState 5).1 [sampleDelobj 1 true 0, sampleDelref true]
        false).2 = .next [sampleDelref true] false ∧
      ¬ Justified (fun _ => 0) (sampleState 5).1 (sampleState 5).2 [sampleDelobj 1 false 0] := by
  refine ⟨LogReaches.init.run _, by decide, by decide, ?_⟩
  rintro ⟨op, ops, found, hnew, hsearch, hdone⟩
  obtain ⟨rfl, rfl⟩ := List.cons.inj hnew
  obtain rfl := Option.some.inj hsearch
  revert hdone
  unfold Found.SegmentDone
  decide

/-- In every run of a `MODIFY` log, whose messages come in any order and from anyone: a message gets
a positive flag, and a turn of `process_executeoperation` goes on to the next segment, only if the
leading segment of the chain is complete and no completion of it carried an error — as long as the
message finds the segment clean, or the flag withheld. -/
theorem progress_justified {ledger : Ledger} (h : LogReaches lookup log ledger) {newop : List Opinfo}
    (hcond : Orderly lookup log newop) :
    (∀ progress, (processopinfo lookup log newop).progress = some progress → 0 < progress →
        Justified lookup log ledger newop) ∧
      ∀ (printed : Bool) (execute : List Opinfo → List Opinfo) (ops nextop rest : List Opinfo),
        turnMessage execute false ops = some (newop, nextop) →
        (executeTurn lookup printed execute log ops false).2 = .next rest false →
        Justified lookup log ledger newop := by
  refine ⟨fun progress hflag hpos => justified_of_progress h hcond hflag hpos, ?_⟩
  intro printed execute ops nextop rest hmessage hturn
  obtain ⟨progress, hflag, hpos⟩ := executeTurn_next hmessage hturn
  exact justified_of_progress h hcond hflag hpos

/-- Without the error the flag is justified. -/
theorem sampleRun_justified :
    Justified (fun _ => 0) (sampleState 0).1 (sampleState 0).2 [sampleDelobj 1 false 0] := by
  refine (progress_justified (LogReaches.init.run _) ?_).1 1 (by decide) (by decide)
  intro op ops found hnew hsearch
  obtain ⟨rfl, rfl⟩ := List.cons.inj hnew
  obtain rfl := Option.some.inj hsearch
  refine .inr ⟨by decide, fun _ => by decide, fun hnot => absurd ?_ hnot⟩
  unfold Found.StartsLeading
  decide

end Marfs.Rman
