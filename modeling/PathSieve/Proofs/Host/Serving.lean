/-
  Calls of the host, one after the other, on any guest.

  Whatever a guest answers, as long as it does not unwind itself, no call of the host does,
  and the log of all calls stays in account: from one call to the next nothing is owed, or
  the guest has broken down and is not entered any more (`accounted`). The log is that of a
  watched guest, but the calls end as they do when nobody watches.
-/
import PathSieve.Proofs.Host.Balance
import PathSieve.Sandbox.Guest

namespace PathSieve

/-- What a host does with an instance. -/
inductive HostCall where
  | compile (rules : String)
  | ask (h : Handle) (path : List UInt8) (isDir : Bool)
  | filter (h : Handle) (paths : List String)
  /-- A handle goes out of scope. -/
  | drop (h : Handle)
  /-- A handle is in scope for the length of one filter. -/
  | work (rules : String) (paths : List String)

/-- What comes of a call that does not fail. -/
inductive HostValue where
  | handle (h : Handle)
  | verdict (v : Verdict)
  | lines (kept : List String)
  | done

namespace HostCall

variable {σ : Type}

/-- The action that a call stands for. -/
def action [Backend σ] : HostCall → Action σ HostValue
  | .compile rules => do
    let h ← Instance.compile rules
    pure (.handle h)
  | .ask h path isDir => do
    let v ← Instance.ask h path isDir
    pure (.verdict v)
  | .filter h paths => do
    let kept ← Instance.filter h paths
    pure (.lines kept)
  | .drop h => do
    (Instance.destroy h).quietly
    pure .done
  | .work rules paths => do
    let kept ← Instance.withCompiled rules fun h => Instance.filter h paths
    pure (.lines kept)

/-- A call ends on a guest that carries something on top as on the guest itself. -/
theorem follows_action {τ : Type} [Backend τ] [Backend σ] {f : τ → σ}
    (hf : Backend.Reflects f) (call : HostCall) :
    Instance.Follows f call.action call.action := by
  cases call with
  | compile rules =>
    exact Instance.follows_bind (hf.follows_compile rules) fun _ => Instance.follows_pure _
  | ask h path isDir =>
    exact Instance.follows_bind (hf.follows_ask h path isDir) fun _ => Instance.follows_pure _
  | filter h paths =>
    exact Instance.follows_bind (hf.follows_filter h paths) fun _ => Instance.follows_pure _
  | drop h =>
    exact Instance.follows_bind (Instance.follows_quietly (hf.follows_destroyMatcher h))
      fun _ => Instance.follows_pure _
  | work rules paths =>
    exact Instance.follows_bind
      (hf.follows_withCompiled rules fun h => hf.follows_filter h paths)
      fun _ => Instance.follows_pure _

end HostCall

namespace Instance

open PathSieve.Action

variable {σ : Type} [Backend σ]

/-- Do calls one after the other, whatever comes of each: how they end, and the instance
    after them. -/
def serve (inst : Instance σ) : List HostCall → List (Except Failure HostValue) × Instance σ
  | [] => ([], inst)
  | call :: calls =>
    let (result, next) := call.action.perform inst
    let (results, done) := next.serve calls
    (result :: results, done)

theorem mirrors_action (call : HostCall) : Mirrors (σ := σ) call.action call.action :=
  mirrors_of_follows (call.follows_action Watched.reflects_guest)

theorem balanced_action (hcalm : Backend.Calm σ) (call : HostCall) :
    Balanced (σ := σ) call.action := by
  cases call with
  | compile rules => exact balanced_bind (balanced_compile hcalm rules) fun _ => balanced_pure _
  | ask h path isDir =>
    exact balanced_bind (balanced_ask hcalm h path isDir) fun _ => balanced_pure _
  | filter h paths =>
    exact balanced_bind (balanced_filter hcalm h paths) fun _ => balanced_pure _
  | drop h =>
    refine balanced_bind (fun start owed => ?_) fun _ => balanced_pure _
    exact meets_mono (balanced_quietly (balanced_destroyMatcher hcalm h) start owed)
      (fun _ h => h) (fun _ _ h => h) fun _ h => False.elim h
  | work rules paths =>
    exact balanced_bind (balanced_withCompiled hcalm rules fun h => balanced_filter hcalm h paths)
      fun _ => balanced_pure _

theorem serve_plain (calls : List HostCall) (inst : Instance (Watched σ)) :
    inst.plain.serve calls = ((inst.serve calls).1, (inst.serve calls).2.plain) := by
  induction calls generalizing inst with
  | nil => rfl
  | cons call calls ih =>
    unfold serve
    simp only [mirrors_action call inst, ih]

/-- Calls come back to the account they have begun with, and none of them unwinds. -/
theorem at_serve (hcalm : Backend.Calm σ) {start : Account} (calls : List HostCall)
    {inst : Instance (Watched σ)} (h : At start (.open []) inst) :
    At start (.open []) (inst.serve calls).2 ∧
      ∀ result ∈ (inst.serve calls).1, ∀ text, result ≠ .error (.panic text) := by
  induction calls generalizing inst with
  | nil => exact ⟨h, fun _ hr => absurd hr List.not_mem_nil⟩
  | cons call calls ih =>
    have hcall := balanced_action hcalm call start [] inst h
    unfold serve
    rcases hp : (call.action.perform inst) with ⟨(e | text) | v, next⟩ <;>
      simp only [hp] at hcall ⊢
    · obtain ⟨hat, hall⟩ := ih hcall
      exact ⟨hat, List.forall_mem_cons.mpr ⟨fun _ => by simp, hall⟩⟩
    · obtain ⟨hat, hall⟩ := ih hcall
      exact ⟨hat, List.forall_mem_cons.mpr ⟨fun _ => by simp, hall⟩⟩

/-- Calls of the host on an instance are safe and balanced: this is said with the log of the
    same calls on the watched instance. -/
structure Accounted (inst : Instance σ) (calls : List HostCall) : Prop where
  /-- The log is that of the calls themselves. -/
  plain_eq : inst.serve calls =
    ((inst.watched.serve calls).1, (inst.watched.serve calls).2.plain)
  /-- No call unwinds. Reading or writing outside the memory would. -/
  calm : ∀ result ∈ (inst.serve calls).1, ∀ text, result ≠ .error (.panic text)
  /-- Nothing is owed before the calls or after them, unless the guest has broken down. -/
  audit_eq : (Account.start inst.tainted).audit (inst.watched.serve calls).2.guest.log =
    some (Account.start (inst.serve calls).2.tainted)
  /-- What is taken is given back once, the last taken first, and nothing else is given back
      but described results. -/
  nested : (inst.serve calls).2.tainted = false →
    Nested (inst.watched.serve calls).2.guest.log
  /-- When the guest has broken down it is not entered again. -/
  last : ∀ front r rest, (inst.watched.serve calls).2.guest.log = front ++ r :: rest →
    r.returned = false → rest = []

/-- Any calls of the host on any guest that does not unwind are safe and balanced. Of a list
    of one call this says that the call gives back what it takes before it ends. -/
theorem accounted_of_calm (hcalm : Backend.Calm σ) (inst : Instance σ) (calls : List HostCall) :
    inst.Accounted calls := by
  have hplain := serve_plain calls inst.watched
  rw [plain_watched] at hplain
  have hstart : At (Account.start inst.tainted) (.open []) inst.watched := by
    unfold At Account.start
    rfl
  obtain ⟨hat, hall⟩ := at_serve hcalm calls hstart
  have haudit : (Account.start inst.tainted).audit (inst.watched.serve calls).2.guest.log =
      some (Account.start (inst.serve calls).2.tainted) := by
    rw [hplain]
    exact hat
  refine ⟨hplain, ?_, haudit, ?_, ?_⟩
  · rw [hplain]
    exact hall
  · intro ht
    rw [ht] at haudit
    cases hi : inst.tainted with
    | true =>
      rw [hi] at haudit
      exact absurd (Account.audit_shut_eq_some haudit).2 (by decide)
    | false =>
      rw [hi] at haudit
      exact Account.nested_of_audit haudit
  · intro front r rest hlog hr
    rw [hlog] at haudit
    exact Account.eq_nil_of_not_returned haudit hr

theorem ofExcept_ne_panicked {α : Type} (r : Except Trap α) (text : String) :
    Reply.ofExcept r ≠ .panicked text := by
  cases r <;> simp [Reply.ofExcept]

theorem settle_ne_panicked {α : Type} (g : Guest) (r : Except Trap (α × Guest)) (text : String) :
    (g.settle r).1 ≠ .panicked text := by
  cases r <;> simp [Guest.settle]

/-- The guest that evaluates rule sets does not unwind. -/
theorem calm_guest : Backend.Calm Guest where
  alloc _ _ _ := by simp [Backend.alloc]
  dealloc g _ _ text := settle_ne_panicked g _ text
  createMatcher g _ _ text := settle_ne_panicked g _ text
  destroyMatcher _ _ _ := by simp [Backend.destroyMatcher]
  isMatch _ _ _ _ _ text := ofExcept_ne_panicked _ text
  batchFilter _ _ _ _ _ text := ofExcept_ne_panicked _ text

/-- An instance before anything has been asked of it. -/
def untouched : Instance Guest :=
  { id := 1, poolId := 1, name := "matcher_1", guest := Guest.fresh "matcher_1" 1 1 }

theorem accounted_untouched : Backend.Calm Guest ∧
    untouched.Accounted [.compile "b", .filter ⟨1, 1⟩ ["a", "b"]] ∧
    (untouched.watched.serve [.compile "b", .filter ⟨1, 1⟩ ["a", "b"]]).2.guest.log =
      [.alloc 1 (some 16), .store 16 1 65536, .other .createMatcher true, .dealloc 16 1 true,
        .alloc 3 (some 16), .store 16 3 65536, .alloc 8 (some 24), .store 24 8 65536,
        .batchFilter (some 1) (some ⟨32, 1⟩), .dealloc 32 1 true, .dealloc 24 8 true,
        .dealloc 16 3 true] :=
  ⟨calm_guest, accounted_of_calm calm_guest untouched _, by decide +kernel⟩

end Instance

end PathSieve
