/-
  What a host owes a guest.

  The account of a log says which memory has been taken and is still to be given back, the
  last taken first (`Account.post`). Memory is given back as it was taken, in the reverse
  order; only a result that a batch filter has described goes out of turn, and it goes
  next. A call that does not return shuts the account, and nothing may be asked after it. A
  log that breaks these rules has no account. From an account that owes nothing to one that
  owes nothing a log is nested like brackets (`nested_of_audit`).
-/
import PathSieve.Proofs.Host.Watch

namespace PathSieve

/-- Memory that has to be given back. -/
structure Debt where
  ptr : Int32
  size : Int32
  deriving DecidableEq, Repr

/-- What is owed to a guest. -/
inductive Account where
  /-- The memory that has been taken, the last first. -/
  | open (owed : List Debt)
  /-- A described result has to be given back before anything else. -/
  | due (result : Debt) (owed : List Debt)
  /-- A call has not returned; the guest is not entered again. -/
  | shut
  deriving DecidableEq, Repr

namespace Account

/-- The account with which an action begins. -/
def start (tainted : Bool) : Account :=
  if tainted then .shut else .open []

/-- The account after a call, which is shut if the call has not returned. -/
def settle (account : Account) (returned : Bool) : Account :=
  if returned then account else .shut

/-- The result that has to be given back when a batch filter has counted kept paths and its
    descriptor can be read. -/
def resultOf (count : Int32) (described : Option Span) : Option Debt :=
  match described with
  | none => none
  | some s => if 0 < count && !s.isNull then some ⟨s.ptr.toInt32, s.len.toInt32⟩ else none

/-- The account after a batch filter that has returned. -/
def reported (owed : List Debt) (count : Int32) (described : Option Span) : Account :=
  match resultOf count described with
  | none => .open owed
  | some result => .due result owed

/-- The account after one thing more, if that was allowed. -/
def post : Account → Record → Option Account
  | .open owed, .alloc size ptr? =>
    match ptr? with
    | none => some .shut
    | some ptr => some (.open (if ptr = 0 then owed else ⟨ptr, size⟩ :: owed))
  | .open (debt :: owed), .dealloc ptr size returned =>
    if debt = ⟨ptr, size⟩ then some ((Account.open owed).settle returned) else none
  | .due result owed, .dealloc ptr size returned =>
    if result = ⟨ptr, size⟩ then some ((Account.open owed).settle returned) else none
  | .open owed, .batchFilter count? described =>
    match count? with
    | none => some .shut
    | some count => some (reported owed count described)
  | .open owed, .other _ returned => some ((Account.open owed).settle returned)
  | .open owed, .store start len size => if start + len ≤ size then some (.open owed) else none
  | _, _ => none

/-- The account after a log, if all of it was allowed. -/
def audit (account : Account) (log : List Record) : Option Account :=
  log.foldlM post account

@[simp] theorem audit_nil (account : Account) : account.audit [] = some account := rfl

@[simp] theorem audit_cons (account : Account) (r : Record) (log : List Record) :
    account.audit (r :: log) = (account.post r).bind (·.audit log) := rfl

theorem audit_append (account : Account) (log log' : List Record) :
    account.audit (log ++ log') = (account.audit log).bind (·.audit log') :=
  List.foldlM_append

/-- A shut account stays as it is, and nothing is asked any more. -/
theorem audit_shut_eq_some {log : List Record} {account : Account}
    (h : Account.shut.audit log = some account) : log = [] ∧ account = .shut := by
  cases log with
  | nil => exact ⟨rfl, (Option.some.inj h).symm⟩
  | cons r log => simp [post] at h

end Account

/-! ## What an account says of a log -/

namespace Record

/-- Has the call returned? Writing always does. -/
def returned : Record → Bool
  | .alloc _ ptr? => ptr?.isSome
  | .dealloc _ _ returned => returned
  | .batchFilter count? _ => count?.isSome
  | .other _ returned => returned
  | .store .. => true

/-- Does nothing have to be given back for a thing that has been asked? -/
def owesNothing : Record → Bool
  | .alloc _ ptr? => ptr? = some 0
  | .dealloc .. => false
  | .batchFilter count? described =>
    count?.any fun count => (Account.resultOf count described).isNone
  | .other _ returned => returned
  | .store start len size => start + len ≤ size

end Record

/-- Logs in which every piece of memory that is taken is given back once, the last taken
    first, and nothing else is given back but described results. -/
inductive Nested : List Record → Prop
  | nil : Nested []
  | alone {r : Record} {log : List Record} (h : r.owesNothing) (hlog : Nested log) :
    Nested (r :: log)
  | block {size ptr : Int32} {inner log : List Record} (hptr : ptr ≠ 0) (hinner : Nested inner)
    (hlog : Nested log) :
    Nested (.alloc size (some ptr) :: inner ++ .dealloc ptr size true :: log)
  | result {count : Int32} {described : Option Span} {result : Debt} {log : List Record}
    (h : Account.resultOf count described = some result) (hlog : Nested log) :
    Nested (.batchFilter (some count) described :: .dealloc result.ptr result.size true :: log)

namespace Account

theorem eq_shut_of_not_returned {account next : Account} {r : Record}
    (h : account.post r = some next) (hr : r.returned = false) : next = .shut := by
  cases account with
  | shut => simp [post] at h
  | due result owed =>
    cases r with
    | dealloc ptr size returned =>
      obtain rfl : returned = false := hr
      simp only [post, settle, Bool.false_eq_true, if_false, Option.ite_none_right_eq_some,
        Option.some.injEq] at h
      exact h.2.symm
    | _ => simp [post] at h
  | «open» owed =>
    cases r with
    | alloc size ptr? =>
      obtain rfl : ptr? = none := by simpa [Record.returned] using hr
      simpa [post, eq_comm] using h
    | dealloc ptr size returned =>
      obtain rfl : returned = false := hr
      cases owed with
      | nil => simp [post] at h
      | cons debt owed =>
        simp only [post, settle, Bool.false_eq_true, if_false, Option.ite_none_right_eq_some,
          Option.some.injEq] at h
        exact h.2.symm
    | batchFilter count? described =>
      obtain rfl : count? = none := by simpa [Record.returned] using hr
      simpa [post, eq_comm] using h
    | other entry returned =>
      obtain rfl : returned = false := hr
      simpa [post, settle, eq_comm] using h
    | store start len size => simp [Record.returned] at hr

/-- A call that has not returned is the last thing in a log. -/
theorem eq_nil_of_not_returned {account account' : Account} {front rest : List Record}
    {r : Record} (h : account.audit (front ++ r :: rest) = some account')
    (hr : r.returned = false) : rest = [] := by
  rw [audit_append] at h
  obtain ⟨mid, -, h⟩ := Option.bind_eq_some_iff.mp h
  rw [audit_cons] at h
  obtain ⟨next, hpost, hrest⟩ := Option.bind_eq_some_iff.mp h
  obtain rfl := eq_shut_of_not_returned hpost hr
  exact (audit_shut_eq_some hrest).1

/-- Logs that give back what is owed, the first thing first, each after a nested log. -/
def Repays : List Debt → List Record → Prop
  | [], log => Nested log
  | debt :: owed, log =>
    ∃ inner rest, log = inner ++ .dealloc debt.ptr debt.size true :: rest ∧ Nested inner ∧
      Repays owed rest

theorem Repays.prepend {owed : List Debt} {front log : List Record}
    (hfront : ∀ log, Nested log → Nested (front ++ log)) (h : Repays owed log) :
    Repays owed (front ++ log) := by
  cases owed with
  | nil => exact hfront log h
  | cons debt owed =>
    obtain ⟨inner, rest, rfl, hinner, hrest⟩ := h
    exact ⟨front ++ inner, rest, by rw [List.append_assoc], hfront inner hinner, hrest⟩

theorem Repays.alone {owed : List Debt} {r : Record} {log : List Record}
    (hr : r.owesNothing) (h : Repays owed log) : Repays owed (r :: log) := by
  show Repays owed ([r] ++ log)
  exact h.prepend fun _ => Nested.alone hr

/-- Logs that bring an account to one that owes nothing. -/
def Repaid : Account → List Record → Prop
  | .open owed, log => Repays owed log
  | .due result owed, log =>
    ∃ rest, log = .dealloc result.ptr result.size true :: rest ∧ Repays owed rest
  | .shut, _ => False

theorem Repaid.not_shut {returned : Bool} {account : Account} {log : List Record}
    (h : (account.settle returned).Repaid log) : returned = true ∧ account.Repaid log := by
  cases returned with
  | false => exact absurd h id
  | true => exact ⟨rfl, h⟩

theorem Repaid.cons_alloc {owed : List Debt} {size : Int32} {ptr? : Option Int32}
    {next : Account} {log : List Record}
    (hpost : (Account.open owed).post (.alloc size ptr?) = some next) (h : next.Repaid log) :
    Repays owed (.alloc size ptr? :: log) := by
  cases ptr? with
  | none =>
    obtain rfl := Option.some.inj hpost
    exact absurd h id
  | some ptr =>
    obtain rfl := Option.some.inj hpost
    by_cases hptr : ptr = 0
    · rw [if_pos hptr] at h
      exact Repays.alone (by simp [Record.owesNothing, hptr]) h
    · rw [if_neg hptr] at h
      obtain ⟨inner, rest, rfl, hinner, hrest⟩ := h
      have hblock : ∀ log, Nested log →
          Nested ((.alloc size (some ptr) :: inner ++ [.dealloc ptr size true]) ++ log) := by
        intro log hlog
        rw [List.append_assoc]
        exact Nested.block hptr hinner hlog
      have hrepays := hrest.prepend hblock
      rwa [List.append_assoc] at hrepays

theorem Repaid.cons_dealloc {owed : List Debt} {ptr size : Int32} {returned : Bool}
    {next : Account} {log : List Record}
    (hpost : (Account.open owed).post (.dealloc ptr size returned) = some next)
    (h : next.Repaid log) : Repays owed (.dealloc ptr size returned :: log) := by
  cases owed with
  | nil => simp [post] at hpost
  | cons debt owed =>
    simp only [post, Option.ite_none_right_eq_some, Option.some.injEq] at hpost
    obtain ⟨rfl, rfl⟩ := hpost
    obtain ⟨rfl, h⟩ := h.not_shut
    exact ⟨[], log, rfl, Nested.nil, h⟩

theorem Repaid.cons_batchFilter {owed : List Debt} {count? : Option Int32}
    {described : Option Span} {next : Account} {log : List Record}
    (hpost : (Account.open owed).post (.batchFilter count? described) = some next)
    (h : next.Repaid log) : Repays owed (.batchFilter count? described :: log) := by
  cases count? with
  | none =>
    obtain rfl := Option.some.inj hpost
    exact absurd h id
  | some count =>
    cases hresult : resultOf count described with
    | none =>
      simp only [post, reported, hresult, Option.some.injEq] at hpost
      obtain rfl := hpost
      exact Repays.alone (by simp [Record.owesNothing, hresult]) h
    | some result =>
      simp only [post, reported, hresult, Option.some.injEq] at hpost
      obtain rfl := hpost
      obtain ⟨rest, rfl, hrest⟩ := h
      show Repays owed
        ([.batchFilter (some count) described, .dealloc result.ptr result.size true] ++ rest)
      exact hrest.prepend fun _ => Nested.result hresult

/-- What repays the account after one thing more repays it before, with that thing. -/
theorem Repaid.cons {account next : Account} {r : Record} {log : List Record}
    (hpost : account.post r = some next) (h : next.Repaid log) : account.Repaid (r :: log) := by
  cases account with
  | shut => simp [post] at hpost
  | due result owed =>
    cases r with
    | dealloc ptr size returned =>
      simp only [post, Option.ite_none_right_eq_some, Option.some.injEq] at hpost
      obtain ⟨rfl, rfl⟩ := hpost
      obtain ⟨rfl, h⟩ := h.not_shut
      exact ⟨log, rfl, h⟩
    | _ => simp [post] at hpost
  | «open» owed =>
    cases r with
    | alloc size ptr? => exact cons_alloc hpost h
    | dealloc ptr size returned => exact cons_dealloc hpost h
    | batchFilter count? described => exact cons_batchFilter hpost h
    | other entry returned =>
      obtain rfl := Option.some.inj hpost
      obtain ⟨rfl, h⟩ := h.not_shut
      exact Repays.alone rfl h
    | store start len size =>
      simp only [post, Option.ite_none_right_eq_some, Option.some.injEq] at hpost
      obtain ⟨hin, rfl⟩ := hpost
      exact Repays.alone (by simpa [Record.owesNothing] using hin) h

/-- A log that leads to an account that owes nothing gives back all that was owed. -/
theorem repaid_of_audit {account : Account} {log : List Record}
    (h : account.audit log = some (.open [])) : account.Repaid log := by
  induction log generalizing account with
  | nil =>
    obtain rfl := Option.some.inj h
    exact Nested.nil
  | cons r log ih =>
    rw [audit_cons] at h
    obtain ⟨next, hpost, hrest⟩ := Option.bind_eq_some_iff.mp h
    exact (ih hrest).cons hpost

/-- A log that leads from an account that owes nothing to one that owes nothing is nested. -/
theorem nested_of_audit {log : List Record} (h : (Account.open []).audit log = some (.open [])) :
    Nested log :=
  repaid_of_audit h

end Account

end PathSieve
