/-
  The host gives back what it takes, whatever the guest does.

  A guest may answer with any numbers, name any places and cut any call short; the host
  must neither unwind nor lose account. Each action is looked at on a watched guest, from
  an account that is open to the same account again (`Balanced`), or to one that is shut
  because the guest has broken down. Placing bytes adds to what is owed, giving them back
  takes it off, and everything else is put together from these.
-/
import PathSieve.Proofs.Host.Account
import PathSieve.Proofs.Sandbox.Words

namespace PathSieve

/-- No call into a guest unwinds. -/
structure Backend.Calm (σ : Type) [Backend σ] : Prop where
  alloc : ∀ (g : σ) size text, (Backend.alloc g size).1 ≠ .panicked text
  dealloc : ∀ (g : σ) ptr size text, (Backend.dealloc g ptr size).1 ≠ .panicked text
  createMatcher : ∀ (g : σ) ptr len text, (Backend.createMatcher g ptr len).1 ≠ .panicked text
  destroyMatcher : ∀ (g : σ) handle text, (Backend.destroyMatcher g handle).1 ≠ .panicked text
  isMatch : ∀ (g : σ) handle ptr len isDir text,
    (Backend.isMatch g handle ptr len isDir).1 ≠ .panicked text
  batchFilter : ∀ (g : σ) handle ptr len info text,
    (Backend.batchFilter g handle ptr len info).1 ≠ .panicked text

namespace Instance

open PathSieve.Action

variable {σ α : Type} {start account account' : Account} {inst : Instance (Watched σ)}

/-- From the account `start`, the log of an instance has come to `account`, or has been shut
    together with the instance. -/
def At (start account : Account) (inst : Instance (Watched σ)) : Prop :=
  start.audit inst.guest.log = some (if inst.tainted then .shut else account)

namespace At

theorem of_tainted (h : At start account inst) (ht : inst.tainted = true) :
    At start account' inst := by
  unfold At at h ⊢
  rwa [if_pos ht] at h ⊢

/-- The account after something has been written down. -/
theorem record (h : At start account inst) (ht : inst.tainted = false) {r : Record}
    (hpost : account.post r = some account') (g : σ) :
    At start account' { inst with guest := ⟨g, inst.guest.log ++ [r]⟩ } := by
  unfold At at h ⊢
  simp only [ht, Bool.false_eq_true, if_false] at h ⊢
  rw [Account.audit_append, h]
  simp [hpost]

/-- The account after a call that has not returned. -/
theorem cut (h : At start account inst) (ht : inst.tainted = false) {r : Record}
    (hpost : account.post r = some .shut) (g : σ) :
    At start account'
      { inst with guest := ⟨g, inst.guest.log ++ [r]⟩, tainted := true } := by
  unfold At at h ⊢
  simp only [ht, Bool.false_eq_true, if_false, if_true] at h ⊢
  rw [Account.audit_append, h]
  simp [hpost]

end At

/-- What a call of a watched guest does to the account, where `ok` says what it comes to
    when it returns. -/
theorem meets_enter {entry : EntryPoint} {f : σ → Reply α × σ} {record : Reply α → σ → Record}
    {ok : α → Instance (Watched σ) → Prop} (hcalm : ∀ g text, (f g).1 ≠ .panicked text)
    (hok : ∀ (inst : Instance (Watched σ)) a g, At start account inst → inst.tainted = false →
      ok a { inst with guest := ⟨g, inst.guest.log ++ [record (.returned a) g]⟩ })
    (hcut : ∀ trap g, account.post (record (.trapped trap) g) = some .shut) :
    Meets (At start account) (call entry fun w : Watched σ => w.enter f record) ok
      (At start account') := by
  refine meets_call (fun _ h ht => h.of_tainted ht) fun inst h ht => ?_
  have hcalm' := hcalm inst.guest.guest
  unfold Watched.enter
  rcases hf : f inst.guest.guest with ⟨_ | _ | text, g⟩ <;> rw [hf] at hcalm'
  · exact hok inst _ g h ht
  · exact h.cut ht (hcut _ g) g
  · exact hcalm' text rfl

/-- Does an action come back to the open account it has begun with? -/
def Balanced (a : Action (Watched σ) α) : Prop :=
  ∀ start owed, Meets (At start (.open owed)) a (fun _ => At start (.open owed))
    (At start (.open owed))

variable {β : Type}

theorem balanced_pure (x : α) : Balanced (σ := σ) (pure x) := fun _ _ => meets_pure fun _ h => h

theorem balanced_fail (e : Error) : Balanced (σ := σ) (fail e : Action _ α) :=
  fun _ _ => meets_fail fun _ h => h

theorem balanced_bind {a : Action (Watched σ) α} {f : α → Action (Watched σ) β}
    (ha : Balanced a) (hf : ∀ x, Balanced (f x)) : Balanced (a >>= f) :=
  fun start owed => meets_bind (ha start owed) fun x => hf x start owed

theorem balanced_get_bind {f : Instance (Watched σ) → Action (Watched σ) α}
    (h : ∀ inst, Balanced (f inst)) : Balanced (get >>= f) := by
  intro start owed
  refine meets_get_bind fun inst => ?_
  intro next hinst
  obtain ⟨rfl, hat⟩ := hinst
  exact h _ start owed _ hat

theorem balanced_ite {c : Prop} [Decidable c] {a b : Action (Watched σ) α} (ha : Balanced a)
    (hb : Balanced b) : Balanced (if c then a else b) := by
  split
  · exact ha
  · exact hb

theorem balanced_quietly {a : Action (Watched σ) Unit} (ha : Balanced a) (start : Account)
    (owed : List Debt) :
    Meets (At start (.open owed)) a.quietly (fun _ => At start (.open owed)) fun _ => False :=
  meets_quietly (ha start owed)

theorem balanced_ensuring {a : Action (Watched σ) α} {b : Action (Watched σ) Unit}
    (ha : Balanced a) (hb : Balanced b) : Balanced (a.ensuring b.quietly) :=
  fun start owed => meets_ensuring (ha start owed) (balanced_quietly hb start owed)

theorem balanced_rawOf (h : Handle) : Balanced (σ := σ) (rawOf h) :=
  balanced_get_bind fun _ => balanced_ite (balanced_pure _) (balanced_fail _)

/-- A call that takes no memory and gives none back is balanced. -/
theorem balanced_other {entry : EntryPoint} {f : σ → Reply α × σ}
    (hcalm : ∀ g text, (f g).1 ≠ .panicked text) :
    Balanced (call entry fun w : Watched σ =>
      w.enter f fun r _ => .other entry r.value?.isSome) :=
  fun _ _ => meets_enter hcalm (fun _ _ g h ht => h.record ht rfl g) fun _ _ => rfl

variable [Backend σ]

theorem balanced_give (result : Except Error α) : Balanced (σ := σ) (give result) :=
  fun _ _ => meets_give (fun _ _ _ h => h) fun _ _ _ h => h

/-! ## Placing bytes and giving them back -/

/-- What is owed for a range in which bytes have been placed. -/
def debts (s : Span) : List Debt :=
  if s.isNull then [] else [⟨s.ptr.toInt32, s.len.toInt32⟩]

/-- Memory is given back that the account says is next. -/
theorem meets_freeBytes (hcalm : Backend.Calm σ) {s : Span} {owed : List Debt}
    (hs : s.isNull = false) (hpost : ∀ returned,
      account.post (.dealloc s.ptr.toInt32 s.len.toInt32 returned) =
        some ((Account.open owed).settle returned)) :
    Meets (At start account) (freeBytes s : Action (Watched σ) Unit)
      (fun _ => At start (.open owed)) fun _ => False := by
  refine meets_ite (fun h => ?_) fun _ => meets_quietly ?_
  · rw [hs] at h
    exact absurd h (by decide)
  · exact meets_enter (fun g => hcalm.dealloc g _ _) (fun _ _ g h ht => h.record ht (hpost true) g)
      fun _ _ => hpost false

theorem meets_freeBytes_debts (hcalm : Backend.Calm σ) (s : Span) (owed : List Debt) :
    Meets (At start (.open (debts s ++ owed))) (freeBytes s : Action (Watched σ) Unit)
      (fun _ => At start (.open owed)) fun _ => False := by
  unfold debts
  cases hs : s.isNull with
  | true =>
    refine meets_ite (fun _ => meets_pure fun _ h => h) fun h => ?_
    exact absurd hs h
  | false => exact meets_freeBytes hcalm hs fun _ => if_pos rfl

theorem meets_alloc (hcalm : Backend.Calm σ) (size : Nat) (owed : List Debt) :
    Meets (At start (.open owed)) (alloc size : Action (Watched σ) UInt32)
      (fun ptr inst => inst.tainted = false ∧ size ≤ maxAllocation ∧ At start
        (.open (if ptr = 0 then owed else ⟨ptr.toInt32, Int32.ofNat size⟩ :: owed)) inst)
      (At start (.open owed)) := by
  refine meets_ite (fun _ => meets_fail fun _ h => h) fun hmax => ?_
  have hcall : Meets (At start (.open owed))
      (call .alloc fun w : Watched σ => Backend.alloc w (Int32.ofNat size))
      (fun p inst => inst.tainted = false ∧
        At start (.open (if p = 0 then owed else ⟨p, Int32.ofNat size⟩ :: owed)) inst)
      (At start (.open owed)) :=
    meets_enter (fun g => hcalm.alloc g _) (fun _ _ g h ht => ⟨ht, h.record ht rfl g⟩)
      fun _ _ => rfl
  refine meets_bind hcall fun p => meets_pure ?_
  intro inst hinst
  obtain ⟨ht, h⟩ := hinst
  simp only [toUInt32_eq_zero_iff, Int32.toInt32_toUInt32]
  exact ⟨ht, Nat.le_of_not_lt hmax, h⟩

/-- What is known of a range in which bytes have been placed. -/
structure Placed (bytes : List UInt8) (s : Span) : Prop where
  len_eq : s.len = UInt32.ofNat bytes.length
  isNull_eq : s.isNull = bytes.isEmpty

theorem placed_of_alloc {bytes : List UInt8} {ptr : UInt32} (hne : bytes ≠ [])
    (hptr : ptr ≠ 0) (hmax : bytes.length ≤ maxAllocation) :
    Placed bytes ⟨ptr, UInt32.ofNat bytes.length⟩ := by
  simp only [maxAllocation] at hmax
  have hlen : UInt32.ofNat bytes.length ≠ 0 := by
    rw [Ne, uint32_ofNat_eq_zero_iff (by omega)]
    exact mt List.length_eq_zero_iff.mp hne
  exact ⟨rfl, by simp [Span.isNull, hptr, hlen, hne]⟩

theorem meets_writeBytes (hcalm : Backend.Calm σ) (bytes : List UInt8) (owed : List Debt) :
    Meets (At start (.open owed)) (writeBytes bytes : Action (Watched σ) Span)
      (fun s inst => Placed bytes s ∧ At start (.open (debts s ++ owed)) inst)
      (At start (.open owed)) := by
  refine meets_ite (fun hempty => meets_pure fun _ h => ?_) fun hne => ?_
  · obtain rfl := List.isEmpty_iff.mp hempty
    exact ⟨⟨rfl, rfl⟩, h⟩
  have hne' : bytes ≠ [] := by simpa using hne
  refine meets_bind (meets_alloc hcalm bytes.length owed) fun ptr => ?_
  refine meets_ite (fun hptr => meets_fail ?_) fun hptr => ?_
  · intro inst hinst
    obtain ⟨-, -, h⟩ := hinst
    rwa [if_pos hptr] at h
  -- from here on the memory is owed
  have hspan : ∀ inst : Instance (Watched σ), inst.tainted = false ∧
      bytes.length ≤ maxAllocation ∧ At start (.open (if ptr = 0 then owed
        else ⟨ptr.toInt32, Int32.ofNat bytes.length⟩ :: owed)) inst →
      Placed bytes ⟨ptr, UInt32.ofNat bytes.length⟩ ∧
        At start (.open (debts ⟨ptr, UInt32.ofNat bytes.length⟩ ++ owed)) inst := by
    intro inst hinst
    obtain ⟨-, hmax, h⟩ := hinst
    have hplaced := placed_of_alloc hne' hptr hmax
    rw [if_neg hptr] at h
    unfold debts
    rw [hplaced.isNull_eq, if_neg hne]
    exact ⟨hplaced, h⟩
  refine meets_get_bind fun inst => ?_
  refine meets_ite (fun _ => meets_bind ?_ fun _ => meets_fail fun _ h => h) fun hin => ?_
  · exact meets_mono (meets_freeBytes_debts hcalm _ owed) (fun _ h => (hspan _ h.2).2)
      (fun _ _ h => h) fun _ h => False.elim h
  · have hin' : ptr.toNat + bytes.length ≤ inst.memorySize := Nat.le_of_not_lt hin
    intro next hinst
    obtain ⟨rfl, ht, h⟩ := hinst
    obtain ⟨hplaced, hat⟩ := hspan _ ⟨ht, h⟩
    rw [perform_bind, perform_store hin']
    refine ⟨hplaced, hat.record ht ?_ _⟩
    exact if_pos hin'

theorem balanced_withBuffer (hcalm : Backend.Calm σ) (bytes : List UInt8)
    {body : Span → Action (Watched σ) α} (hbody : ∀ s, Placed bytes s → Balanced (body s)) :
    Balanced (withBuffer bytes body) := by
  intro start owed
  refine meets_bind (meets_writeBytes hcalm bytes owed) fun s => ?_
  intro inst hinst
  obtain ⟨hplaced, h⟩ := hinst
  exact meets_ensuring (hbody s hplaced start (debts s ++ owed))
    (meets_freeBytes_debts hcalm s owed) inst h

/-! ## Compiling and asking -/

theorem balanced_destroyMatcher (hcalm : Backend.Calm σ) (h : Handle) :
    Balanced (σ := σ) (destroyMatcher h) :=
  balanced_bind (balanced_rawOf h) fun _ => balanced_other fun g => hcalm.destroyMatcher g _

theorem balanced_compile (hcalm : Backend.Calm σ) (rules : String) :
    Balanced (σ := σ) (compile rules) :=
  balanced_bind
    (balanced_withBuffer hcalm _ fun _ _ => balanced_other fun g => hcalm.createMatcher g _ _)
    fun _ => balanced_get_bind fun _ => balanced_give _

theorem balanced_ask (hcalm : Backend.Calm σ) (h : Handle) (path : List UInt8) (isDir : Bool) :
    Balanced (σ := σ) (ask h path isDir) :=
  balanced_bind
    (balanced_withBuffer hcalm _ fun _ _ => balanced_bind (balanced_rawOf h) fun _ =>
      balanced_other fun g => hcalm.isMatch g _ _ _ _)
    fun _ => balanced_give _

theorem balanced_withCompiled (hcalm : Backend.Calm σ) (rules : String)
    {body : Handle → Action (Watched σ) α} (hbody : ∀ h, Balanced (body h)) :
    Balanced (withCompiled rules body) :=
  balanced_bind (balanced_compile hcalm rules) fun h =>
    balanced_ensuring (hbody h) (balanced_destroyMatcher hcalm h)

/-! ## Filtering -/

/-- Reading never unwinds and changes nothing. -/
theorem meets_readBytes {P : Instance σ → Prop} (s : Span) :
    Meets P (readBytes s) (fun _ => P) P := by
  refine meets_ite (fun _ => meets_pure fun _ h => h) fun _ => meets_get_bind fun inst => ?_
  refine meets_ite (fun _ => meets_fail fun _ h => h.2) fun hin => ?_
  intro next hinst
  obtain ⟨rfl, h⟩ := hinst
  rw [perform_load (Nat.le_of_not_lt hin)]
  exact h

/-- A descriptor is read as it tells of a range. -/
theorem perform_readBytes_descriptor {info : Span} (hnull : info.isNull = false)
    (hlen : info.len.toNat = descriptorSize) (inst : Instance σ) :
    match describedAt inst.guest info.ptr with
    | none => ∃ e, (readBytes info).perform inst = (.error (.error e), inst)
    | some s => ∃ bytes, (readBytes info).perform inst = (.ok bytes, inst) ∧
        (spanOf bytes : Action σ Span) = pure s := by
  unfold readBytes describedAt
  simp only [perform_ite, hnull, Bool.false_eq_true, if_false, perform_bind, perform_get, hlen]
  by_cases h : inst.memorySize < info.ptr.toNat + descriptorSize
  · rw [if_pos h, if_pos (show Backend.memorySize inst.guest < _ from h)]
    exact ⟨_, rfl⟩
  · rw [if_neg h, if_neg (show ¬ Backend.memorySize inst.guest < _ from h),
      perform_load (Nat.le_of_not_lt h)]
    exact ⟨_, rfl, rfl⟩

/-- A batch filter has returned, and its result has to be given back if it has described
    one. -/
structure Reported (start : Account) (owed : List Debt) (code : Int32) (info : UInt32)
    (inst : Instance (Watched σ)) : Prop where
  tainted_eq : inst.tainted = false
  at_reported :
    At start (.reported owed code (describedAt inst.guest.guest info)) inst

theorem meets_batchFilter (hcalm : Backend.Calm σ) (h : Handle) (ptr len info : UInt32)
    (owed : List Debt) :
    Meets (At start (.open owed)) (batchFilter h ptr len info : Action (Watched σ) Int32)
      (fun code => Reported start owed code info) (At start (.open owed)) := by
  refine meets_bind (balanced_rawOf h start owed) fun raw => ?_
  refine meets_enter (fun g => hcalm.batchFilter g _ _ _ _) (fun _ code g hat ht => ?_)
    fun _ _ => rfl
  exact ⟨ht, hat.record ht rfl g⟩

theorem reported_of_not_pos {code : Int32} (h : ¬ 0 < code) (owed : List Debt)
    (described : Option Span) : Account.reported owed code described = .open owed := by
  cases described <;> simp [Account.reported, Account.resultOf, h]

theorem countOfCode_of_pos {code : Int32} (h : 0 < code) :
    ∃ n, countOfCode code = .ok (n + 1) := by
  have hcode : 0 < code.toInt := by
    rwa [Int32.lt_iff_toInt_lt] at h
  have hne : ∀ c : Int32, c < 0 → code ≠ c := by
    intro c hc heq
    subst heq
    rw [Int32.lt_iff_toInt_lt] at hc
    have : (0 : Int32).toInt = 0 := rfl
    omega
  refine ⟨code.toInt.toNat - 1, ?_⟩
  unfold countOfCode
  rw [if_neg (hne _ (by decide)), if_neg (hne _ (by decide)), if_neg (hne _ (by decide)),
    if_neg (hne _ (by decide)), if_neg (hne _ (by decide)), if_neg, Nat.sub_add_cancel (by omega)]
  rw [Int32.lt_iff_toInt_lt]
  have : (0 : Int32).toInt = 0 := rfl
  omega

theorem eq_zero_of_countOfCode {code : Int32} (h : ¬ 0 < code) {n : Nat}
    (hn : countOfCode code = .ok n) : n = 0 := by
  unfold countOfCode at hn
  iterate 6
    split at hn
    · simp at hn
  obtain rfl := Except.ok.inj hn
  rw [Int32.lt_iff_toInt_lt] at h
  have : (0 : Int32).toInt = 0 := rfl
  omega

/-- A described result is given back, whatever comes of reading it. -/
theorem meets_fetchResult (hcalm : Backend.Calm σ) {info : Span} (hnull : info.isNull = false)
    (hlen : info.len.toNat = descriptorSize) {code : Int32} (hpos : 0 < code) (count : Nat)
    (owed : List Debt) :
    Meets (Reported start owed code info.ptr)
      (fetchResult count info : Action (Watched σ) (List String))
      (fun _ => At start (.open owed)) (At start (.open owed)) := by
  intro inst hinst
  obtain ⟨ht, hat⟩ := hinst
  have hread := perform_readBytes_descriptor hnull hlen inst
  rw [Watched.describedAt_eq] at hread
  unfold fetchResult
  cases hdescribed : describedAt inst.guest.guest info.ptr with
  | none =>
    rw [hdescribed] at hread hat
    obtain ⟨e, he⟩ := hread
    simp only [perform_bind, he]
    simpa [Account.reported, Account.resultOf] using hat
  | some s =>
    rw [hdescribed] at hread hat
    obtain ⟨bytes, hbytes, hspan⟩ := hread
    simp only [perform_bind, hbytes, hspan, perform_pure]
    cases hs : s.isNull with
    | true =>
      simp only [if_true, perform_fail]
      simpa [Account.reported, Account.resultOf, hs] using hat
    | false =>
      have hdue : At start (.due ⟨s.ptr.toInt32, s.len.toInt32⟩ owed) inst := by
        simpa [Account.reported, Account.resultOf, hs, hpos] using hat
      simp only [Bool.false_eq_true, if_false]
      have hfree : Meets (At start (.due ⟨s.ptr.toInt32, s.len.toInt32⟩ owed))
          (freeBytes s : Action (Watched σ) Unit) (fun _ => At start (.open owed))
          fun _ => False := meets_freeBytes hcalm hs fun _ => if_pos rfl
      refine meets_bind (meets_ensuring (meets_readBytes s) hfree) (fun bytes => ?_) inst hdue
      split
      · exact meets_pure fun _ h => h
      · exact meets_fail fun _ h => h

theorem balanced_filterPlaced (hcalm : Backend.Calm σ) (h : Handle) (text : Span) {info : Span}
    (hnull : info.isNull = false) (hlen : info.len.toNat = descriptorSize) :
    Balanced (σ := σ) (filterPlaced h text info) := by
  intro start owed
  refine meets_bind (meets_batchFilter hcalm h _ _ _ owed) fun code => ?_
  by_cases hpos : 0 < code
  · obtain ⟨n, hn⟩ := countOfCode_of_pos hpos
    rw [hn]
    exact meets_fetchResult hcalm hnull hlen hpos (n + 1) owed
  · have hopen : ∀ inst : Instance (Watched σ), Reported start owed code info.ptr inst →
        At start (.open owed) inst := by
      intro inst hr
      have := hr.at_reported
      rwa [reported_of_not_pos hpos] at this
    cases hcount : countOfCode code with
    | error e => exact hopen
    | ok n =>
      obtain rfl := eq_zero_of_countOfCode hpos hcount
      exact hopen

theorem balanced_filter (hcalm : Backend.Calm σ) (h : Handle) (paths : List String) :
    Balanced (σ := σ) (filter h paths) := by
  rw [filter_eq]
  refine balanced_ite (balanced_pure _) (balanced_withBuffer hcalm _ fun text _ =>
    balanced_withBuffer hcalm _ fun info hinfo => ?_)
  refine balanced_filterPlaced hcalm h text hinfo.isNull_eq ?_
  rw [hinfo.len_eq]
  rfl

end Instance

end PathSieve
