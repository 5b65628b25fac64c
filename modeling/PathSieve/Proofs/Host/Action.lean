/-
  Actions of the host, step by step.

  An action is opened with the equations for `perform`: one for each way to put actions
  together. What holds of an instance before an action and after it, however the action
  ends, is stated with `Keeps`; what an action comes to that never unwinds, with a value or
  with an error, is stated with `Meets`. Both follow from the same for the parts.
-/
import PathSieve.Host.Matching

namespace PathSieve.Action

variable {σ α β : Type}

/-! ## How an action is performed -/

@[simp] theorem perform_pure (a : α) (inst : Instance σ) :
    (pure a : Action σ α).perform inst = (.ok a, inst) := rfl

@[simp] theorem perform_bind (a : Action σ α) (f : α → Action σ β) (inst : Instance σ) :
    (a >>= f).perform inst =
      match a.perform inst with
      | (.ok x, inst) => (f x).perform inst
      | (.error failure, inst) => (.error failure, inst) := by
  simp only [perform, bind, ExceptT.bind, ExceptT.mk, ExceptT.run, StateT.run, StateT.bind, Id.run]
  cases h : a inst with
  | mk result next => cases result <;> rfl

/-- What is made of a value has no part in what the action does. -/
theorem snd_perform_bind_pure (a : Action σ α) (f : α → β) (inst : Instance σ) :
    ((a >>= fun x => pure (f x)).perform inst).2 = (a.perform inst).2 := by
  rw [perform_bind]
  rcases a.perform inst with ⟨_ | _, next⟩ <;> rfl

@[simp] theorem perform_get (inst : Instance σ) :
    (get : Action σ (Instance σ)).perform inst = (.ok inst, inst) := rfl

@[simp] theorem perform_set (inst next : Instance σ) :
    (set next : Action σ PUnit).perform inst = (.ok (), next) := rfl

@[simp] theorem perform_fail (e : Error) (inst : Instance σ) :
    (fail e : Action σ α).perform inst = (.error (.error e), inst) := rfl

@[simp] theorem perform_unwind (text : String) (inst : Instance σ) :
    (unwind text : Action σ α).perform inst = (.error (.panic text), inst) := rfl

@[simp] theorem perform_ite (c : Prop) [Decidable c] (a b : Action σ α) (inst : Instance σ) :
    (if c then a else b).perform inst = if c then a.perform inst else b.perform inst := by
  split <;> rfl

@[simp] theorem perform_ensuring (a : Action σ α) (cleanup : Action σ Unit)
    (inst : Instance σ) :
    (a.ensuring cleanup).perform inst =
      (endWith (a.perform inst).1 (cleanup.perform (a.perform inst).2).1,
        (cleanup.perform (a.perform inst).2).2) := rfl

@[simp] theorem perform_quietly (a : Action σ Unit) (inst : Instance σ) :
    a.quietly.perform inst =
      match a.perform inst with
      | (.error (.error _), inst) => (.ok (), inst)
      | done => done := rfl

/-- A clean-up that goes well leaves the end of the action as it is. -/
@[simp] theorem endWith_ok (result : Except Failure α) : endWith result (.ok ()) = result := by
  rcases result with (_ | _) | _ <;> rfl

@[simp] theorem perform_give (result : Except Error α) [Backend σ] (inst : Instance σ) :
    (Instance.give result : Action σ α).perform inst = (result.mapError .error, inst) := by
  cases result <;> rfl

/-! ## What an action keeps -/

/-- However the action ends, what holds of the instance before it holds after it. -/
def Keeps (P : Instance σ → Prop) (a : Action σ α) : Prop :=
  ∀ inst, P inst → P (a.perform inst).2

variable {P : Instance σ → Prop}

theorem keeps_pure (a : α) : Keeps P (pure a : Action σ α) := fun _ h => h

theorem keeps_get : Keeps P (get : Action σ (Instance σ)) := fun _ h => h

theorem keeps_fail (e : Error) : Keeps P (fail e : Action σ α) := fun _ h => h

theorem keeps_unwind (text : String) : Keeps P (unwind text : Action σ α) := fun _ h => h

theorem keeps_bind {a : Action σ α} {f : α → Action σ β} (ha : Keeps P a)
    (hf : ∀ x, Keeps P (f x)) : Keeps P (a >>= f) := by
  intro inst h
  have h' := ha inst h
  rw [perform_bind]
  cases hp : a.perform inst with
  | mk result next =>
    rw [hp] at h'
    cases result with
    | ok x => exact hf x next h'
    | error failure => exact h'

theorem keeps_ite {c : Prop} [Decidable c] {a b : Action σ α} (ha : Keeps P a)
    (hb : Keeps P b) : Keeps P (if c then a else b) := by
  split
  · exact ha
  · exact hb

theorem keeps_ensuring {a : Action σ α} {cleanup : Action σ Unit} (ha : Keeps P a)
    (hc : Keeps P cleanup) : Keeps P (a.ensuring cleanup) :=
  fun inst h => hc _ (ha inst h)

theorem keeps_quietly {a : Action σ Unit} (ha : Keeps P a) : Keeps P a.quietly := by
  intro inst h
  have h' := ha inst h
  rw [perform_quietly]
  rcases hp : a.perform inst with ⟨(_ | _) | _, next⟩ <;> rw [hp] at h' <;> exact h'

theorem keeps_give [Backend σ] (result : Except Error α) :
    Keeps P (Instance.give result : Action σ α) := by
  intro inst h
  rw [perform_give]
  exact h

/-! ## What an action comes to -/

/-- From an instance as `pre` says, the action ends with a value as `ok` says or with an
    error as `err` says, and does not unwind. -/
def Meets (pre : Instance σ → Prop) (a : Action σ α) (ok : α → Instance σ → Prop)
    (err : Instance σ → Prop) : Prop :=
  ∀ inst, pre inst →
    match a.perform inst with
    | (.ok x, next) => ok x next
    | (.error (.error _), next) => err next
    | (.error (.panic _), _) => False

variable {pre mid err : Instance σ → Prop} {ok : α → Instance σ → Prop}

theorem meets_pure {x : α} (h : ∀ inst, pre inst → ok x inst) : Meets pre (pure x) ok err := h

theorem meets_fail {e : Error} (h : ∀ inst, pre inst → err inst) :
    Meets pre (fail e : Action σ α) ok err := h

theorem meets_mono {pre' err' : Instance σ → Prop} {ok' : α → Instance σ → Prop}
    {a : Action σ α} (ha : Meets pre' a ok' err') (hpre : ∀ inst, pre inst → pre' inst)
    (hok : ∀ x inst, ok' x inst → ok x inst) (herr : ∀ inst, err' inst → err inst) :
    Meets pre a ok err := by
  intro inst h
  have h' := ha inst (hpre inst h)
  rcases hp : a.perform inst with ⟨(_ | _) | x, next⟩ <;> rw [hp] at h'
  · exact herr next h'
  · exact h'
  · exact hok x next h'

theorem meets_bind {f : α → Action σ β} {a : Action σ α} {ok' : β → Instance σ → Prop}
    (ha : Meets pre a ok err) (hf : ∀ x, Meets (ok x) (f x) ok' err) :
    Meets pre (a >>= f) ok' err := by
  intro inst h
  have h' := ha inst h
  rw [perform_bind]
  rcases hp : a.perform inst with ⟨(_ | _) | x, next⟩ <;> rw [hp] at h'
  · exact h'
  · exact h'
  · exact hf x next h'

theorem meets_get_bind {f : Instance σ → Action σ α}
    (h : ∀ inst, Meets (fun i => i = inst ∧ pre i) (f inst) ok err) :
    Meets pre (get >>= f) ok err := by
  intro inst hpre
  rw [perform_bind, perform_get]
  exact h inst inst ⟨rfl, hpre⟩

theorem meets_ite {c : Prop} [Decidable c] {a b : Action σ α} (ha : c → Meets pre a ok err)
    (hb : ¬ c → Meets pre b ok err) : Meets pre (if c then a else b) ok err := by
  split
  · next h => exact ha h
  · next h => exact hb h

theorem meets_quietly {a : Action σ Unit} (ha : Meets pre a (fun _ => mid) mid) :
    Meets pre a.quietly (fun _ => mid) fun _ => False := by
  intro inst h
  have h' := ha inst h
  rw [perform_quietly]
  rcases hp : a.perform inst with ⟨(_ | _) | _, next⟩ <;> rw [hp] at h' <;> exact h'

/-- A clean-up that does not fail leads on from whatever end the action comes to. -/
theorem meets_ensuring {post : Instance σ → Prop} {a : Action σ α} {cleanup : Action σ Unit}
    (ha : Meets pre a (fun _ => mid) mid)
    (hc : Meets mid cleanup (fun _ => post) fun _ => False) :
    Meets pre (a.ensuring cleanup) (fun _ => post) post := by
  intro inst h
  have h' := ha inst h
  rw [perform_ensuring]
  rcases hp : a.perform inst with ⟨(e | text) | x, next⟩ <;> rw [hp] at h'
  · have hc' := hc next h'
    rcases hq : cleanup.perform next with ⟨(_ | _) | _, done⟩ <;> rw [hq] at hc'
    · exact absurd hc' id
    · exact absurd hc' id
    · exact hc'
  · exact absurd h' id
  · have hc' := hc next h'
    rcases hq : cleanup.perform next with ⟨(_ | _) | _, done⟩ <;> rw [hq] at hc'
    · exact absurd hc' id
    · exact absurd hc' id
    · exact hc'

theorem meets_give [Backend σ] {result : Except Error α}
    (hok : ∀ x, result = .ok x → ∀ inst, pre inst → ok x inst)
    (herr : ∀ e, result = .error e → ∀ inst, pre inst → err inst) :
    Meets pre (Instance.give result : Action σ α) ok err := by
  cases result with
  | ok x => exact meets_pure (hok x rfl)
  | error e => exact meets_fail (herr e rfl)

end PathSieve.Action

namespace PathSieve.Instance

open PathSieve.Action

variable {σ α : Type}

/-! ## Entering the guest -/

/-- A tainted instance is not entered. -/
theorem perform_call_of_tainted {inst : Instance σ} (h : inst.tainted = true)
    (entry : EntryPoint) (f : σ → Reply α × σ) :
    (call entry f).perform inst =
      (.error (.error (.transport entry (.tainted inst.name))), inst) := by
  simp [call, h]

/-- What comes of entering the guest of an instance that is not tainted. -/
theorem perform_call {inst : Instance σ} (h : inst.tainted = false) (entry : EntryPoint)
    (f : σ → Reply α × σ) :
    (call entry f).perform inst =
      match f inst.guest with
      | (.returned a, g) => (.ok a, { inst with guest := g })
      | (.trapped trap, g) =>
        (.error (.error (.transport entry (.trapped trap))),
          { inst with guest := g, tainted := true })
      | (.panicked text, g) => (.error (.panic text), { inst with guest := g }) := by
  unfold call
  simp only [perform_bind, perform_get, h, Bool.false_eq_true, if_false]
  rcases f inst.guest with ⟨_ | _ | _, g⟩ <;>
    simp only [perform_bind, perform_set, perform_pure, perform_fail, perform_unwind, taint]

/-- What lies inside the memory can be written. -/
theorem perform_store [Backend σ] {start : Nat} {bytes : List UInt8} {inst : Instance σ}
    (h : start + bytes.length ≤ inst.memorySize) :
    (store start bytes).perform inst =
      (.ok (), { inst with guest := Backend.store inst.guest start bytes }) := by
  unfold store
  simp only [perform_bind, perform_get, perform_set, if_neg (Nat.not_lt.mpr h)]

theorem perform_store_of_lt [Backend σ] {start : Nat} {bytes : List UInt8} {inst : Instance σ}
    (h : inst.memorySize < start + bytes.length) :
    ((store start bytes).perform inst).2 = inst := by
  unfold store
  simp only [perform_bind, perform_get, perform_unwind, if_pos h]

/-- What lies inside the memory can be read. -/
theorem perform_load [Backend σ] {start len : Nat} {inst : Instance σ}
    (h : start + len ≤ inst.memorySize) :
    (load start len).perform inst =
      (.ok ((List.range' start len).map (Backend.byteAt inst.guest)), inst) := by
  unfold load
  simp only [perform_bind, perform_get, perform_pure, if_neg (Nat.not_lt.mpr h)]

/-- Only a handle of this instance has a number on it. -/
theorem perform_rawOf (h : Handle) (inst : Instance σ) :
    (rawOf h).perform inst =
      if h.instanceId = inst.id then (.ok h.raw, inst)
      else (.error (.error .invalidHandle), inst) := by
  unfold rawOf
  simp only [perform_bind, perform_get, perform_ite, perform_pure, perform_fail]

/-- What a call comes to: on a tainted instance nothing happens, and else the guest says. -/
theorem meets_call {f : σ → Reply α × σ} {entry : EntryPoint} {pre err : Instance σ → Prop}
    {ok : α → Instance σ → Prop} (htaint : ∀ inst, pre inst → inst.tainted = true → err inst)
    (hcall : ∀ inst, pre inst → inst.tainted = false →
      match f inst.guest with
      | (.returned a, g) => ok a { inst with guest := g }
      | (.trapped _, g) => err { inst with guest := g, tainted := true }
      | (.panicked _, _) => False) :
    Meets pre (call entry f) ok err := by
  intro inst h
  cases ht : inst.tainted with
  | true =>
    rw [perform_call_of_tainted ht]
    exact htaint inst h ht
  | false =>
    have h' := hcall inst h ht
    rw [perform_call ht]
    rcases hf : f inst.guest with ⟨_ | _ | _, g⟩ <;> rw [hf] at h' <;> exact h'

/-- What is done between the placing of a path list and the giving back. -/
def filterPlaced [Backend σ] (h : Handle) (text descriptor : Span) :
    Action σ (List String) := do
  let code ← batchFilter h text.ptr text.len descriptor.ptr
  let count ← give (countOfCode code)
  if count = 0 then pure [] else fetchResult count descriptor

theorem filter_eq [Backend σ] (h : Handle) (paths : List String) :
    (filter h paths : Action σ (List String)) =
      if paths.isEmpty then pure []
      else
        withBuffer (Text.Utf8.encode (Text.unlines paths)) fun text =>
          withBuffer (List.replicate descriptorSize 0) (filterPlaced h text) := rfl

end PathSieve.Instance
