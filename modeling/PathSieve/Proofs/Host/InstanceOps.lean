/-
  Whatever a holder of an instance does with it.

  An operation on an instance is a touch, bytes brought into the memory, read there or given
  back, or a call of the host. During an operation a guest is asked what it is asked when
  somebody listens (`Instance.heard`). The instance is tainted after it if it was before, if
  the operation is the taint, or if one of the calls has trapped, and for no other reason
  (`tainted_work`); and nothing is heard of a tainted instance (`heard_of_tainted`). A trail
  are operations on one instance, one after the other, with all that has happened on the way.
-/
import PathSieve.Proofs.Host.Overheard
import PathSieve.Proofs.Host.Serving
import PathSieve.Proofs.Pool.Ledger

namespace PathSieve

/-- An operation on an instance. -/
inductive InstanceOp where
  | touch (t : Touch)
  | write (bytes : List UInt8)
  | read (s : Span)
  | free (s : Span)
  | call (c : HostCall)

namespace InstanceOp

variable {τ σ : Type} [Backend τ] [Backend σ]

/-- The action that an operation stands for. -/
def action : InstanceOp → Action σ HostValue
  | .touch t => do
    t.action
    pure .done
  | .write bytes => do
    let _ ← Instance.writeBytes bytes
    pure .done
  | .read s => do
    let _ ← Instance.readBytes s
    pure .done
  | .free s => do
    Instance.freeBytes s
    pure .done
  | .call c => c.action

/-- Is it the taint? -/
def isTaint : InstanceOp → Bool
  | .touch .taint => true
  | _ => false

theorem eq_of_isTaint {c : InstanceOp} (h : c.isTaint = true) : c = .touch .taint := by
  unfold isTaint at h
  split at h
  · rfl
  · cases h

open Instance in
theorem follows_touch {f : τ → σ} (hf : Backend.Reflects f) (t : Touch) :
    Follows f t.action t.action := by
  cases t with
  | alloc size => exact follows_bind (hf.follows_alloc size) fun _ => follows_pure _
  | dealloc ptr len => exact hf.follows_dealloc ptr len
  | createMatcher ptr len =>
    exact follows_bind (hf.follows_createMatcher ptr len) fun _ => follows_pure _
  | destroyMatcher h => exact hf.follows_destroyMatcher h
  | isMatch h ptr len isDir =>
    exact follows_bind (hf.follows_isMatch h ptr len isDir) fun _ => follows_pure _
  | batchFilter h ptr len info =>
    exact follows_bind (hf.follows_batchFilter h ptr len info) fun _ => follows_pure _
  | store start bytes => exact hf.follows_store start bytes
  | taint => exact follows_get_bind fun inst => follows_set inst.taint

open Instance in
/-- An operation ends on a guest that carries something on top as on the guest itself. -/
theorem follows_action {f : τ → σ} (hf : Backend.Reflects f) (c : InstanceOp) :
    Follows f c.action c.action := by
  cases c with
  | touch t => exact follows_bind (follows_touch hf t) fun _ => follows_pure _
  | write bytes => exact follows_bind (hf.follows_writeBytes bytes) fun _ => follows_pure _
  | read s => exact follows_bind (hf.follows_readBytes s) fun _ => follows_pure _
  | free s => exact follows_bind (hf.follows_freeBytes s) fun _ => follows_pure _
  | call c => exact c.follows_action hf

end InstanceOp

namespace Instance

open PathSieve.Action

variable {σ : Type} [Backend σ] {inst : Instance σ} {P : Instance σ → Prop}

/-- The instance after an operation. -/
def work (inst : Instance σ) (c : InstanceOp) : Instance σ :=
  (c.action.perform inst).2

/-- The calls that reach the guest during an operation. -/
def heard (inst : Instance σ) (c : InstanceOp) : List Crossing :=
  (inst.overheard.work c).guest.heard

theorem work_touch (inst : Instance σ) (t : Touch) : inst.work (.touch t) = inst.touch t := by
  rw [touch_eq_perform]
  exact snd_perform_bind_pure ..

theorem work_compile (inst : Instance σ) (rules : String) :
    inst.work (.call (.compile rules)) = ((compile rules).perform inst).2 :=
  snd_perform_bind_pure ..

theorem work_ask (inst : Instance σ) (h : Handle) (path : List UInt8) (isDir : Bool) :
    inst.work (.call (.ask h path isDir)) = ((ask h path isDir).perform inst).2 :=
  snd_perform_bind_pure ..

theorem work_filter (inst : Instance σ) (h : Handle) (paths : List String) :
    inst.work (.call (.filter h paths)) = ((filter h paths).perform inst).2 :=
  snd_perform_bind_pure ..

theorem work_drop (inst : Instance σ) (h : Handle) :
    inst.work (.call (.drop h)) = ((destroy h).quietly.perform inst).2 :=
  snd_perform_bind_pure ..

theorem work_work (inst : Instance σ) (rules : String) (paths : List String) :
    inst.work (.call (.work rules paths)) =
      ((withCompiled rules fun h => filter h paths).perform inst).2 :=
  snd_perform_bind_pure ..

/-- To let a handle go is to have its rule set forgotten, whatever comes of it. -/
theorem work_drop_eq_touch (inst : Instance σ) (h : Handle) :
    inst.work (.call (.drop h)) = inst.touch (.destroyMatcher h) := by
  rw [work_drop, perform_quietly]
  show _ = ((destroy h).perform inst).2
  rcases (destroy h).perform inst with ⟨(_ | _) | _, next⟩ <;> rfl

namespace Steady

theorem hostCall (hP : Steady P) (c : HostCall) : Keeps P c.action := by
  cases c with
  | compile rules => exact keeps_bind (hP.compile rules) fun _ => keeps_pure _
  | ask h path isDir => exact keeps_bind (hP.ask h path isDir) fun _ => keeps_pure _
  | filter h paths => exact keeps_bind (hP.filter h paths) fun _ => keeps_pure _
  | drop h => exact keeps_bind (keeps_quietly (hP.destroy h)) fun _ => keeps_pure _
  | work rules paths =>
    exact keeps_bind (hP.withCompiled rules fun h => hP.filter h paths) fun _ => keeps_pure _

/-- What no touch but the taint makes untrue, no operation but the taint does. -/
theorem work (hP : Steady P) (inst : Instance σ) {c : InstanceOp} (hc : c.isTaint = false)
    (h : P inst) : P (inst.work c) := by
  cases c with
  | touch t =>
    rw [work_touch]
    refine hP inst t ?_ h
    rintro rfl
    cases hc
  | write bytes => exact keeps_bind (hP.inMemory.writeBytes bytes) (fun _ => keeps_pure _) inst h
  | read s => exact keeps_bind (keeps_readBytes s) (fun _ => keeps_pure _) inst h
  | free s => exact keeps_bind (hP.inMemory.freeBytes s) (fun _ => keeps_pure _) inst h
  | call c => exact hP.hostCall c inst h

end Steady

theorem Invariant.work (hP : Invariant P) (c : InstanceOp) (h : P inst) : P (inst.work c) := by
  cases hc : c.isTaint with
  | false => exact hP.steady.work inst hc h
  | true =>
    obtain rfl := InstanceOp.eq_of_isTaint hc
    rw [work_touch]
    exact hP inst .taint h

@[simp] theorem identity_work (inst : Instance σ) (c : InstanceOp) :
    (inst.work c).identity = inst.identity :=
  (invariant_identity inst.identity).work c rfl

/-- Listening changes nothing. -/
theorem work_eq_mapGuest (inst : Instance σ) (c : InstanceOp) :
    inst.work c = (inst.overheard.work c).mapGuest Overheard.guest :=
  congrArg Prod.snd (c.follows_action Overheard.reflects_guest inst.overheard)

/-- An instance is tainted by the taint and by calls that trap, and by nothing else. -/
theorem tainted_work (inst : Instance σ) (c : InstanceOp) :
    (inst.work c).tainted =
      (inst.tainted || c.isTaint || (inst.heard c).any (·.ending == .trapped)) := by
  rw [work_eq_mapGuest]
  show (inst.overheard.work c).tainted = _
  cases hc : c.isTaint with
  | true =>
    obtain rfl := InstanceOp.eq_of_isTaint hc
    simp [work_touch, touch, taint]
  | false =>
    have hsteady : Steady fun i : Instance (Overheard σ) =>
        i.tainted = (inst.tainted || i.guest.heard.any (·.ending == .trapped)) := by
      refine steady_of_hears (fun i start bytes h => h) fun i c h _ => ?_
      simp only [heard_hears, tainted_hears, List.any_append, List.any_cons, List.any_nil,
        Bool.or_false, h, Bool.or_assoc]
    simpa [heard] using hsteady.work inst.overheard hc (by simp [overheard])

/-- A tainted instance is not entered. -/
theorem heard_of_tainted (ht : inst.tainted = true) (c : InstanceOp) : inst.heard c = [] := by
  cases hc : c.isTaint with
  | true =>
    obtain rfl := InstanceOp.eq_of_isTaint hc
    rw [heard, work_touch]
    rfl
  | false =>
    have hsteady : Steady fun i : Instance (Overheard σ) =>
        i.tainted = true ∧ i.guest.heard = [] := by
      refine steady_of_hears (fun i start bytes h => h) fun i c h hfalse => ?_
      rw [hfalse] at h
      exact absurd h.1 (by decide)
    exact (hsteady.work inst.overheard hc ⟨ht, rfl⟩).2

/-- After a call that has trapped nothing is heard any more. -/
theorem pairwise_heard (inst : Instance σ) (c : InstanceOp) :
    (inst.heard c).Pairwise fun x _ => x.ending ≠ .trapped := by
  cases hc : c.isTaint with
  | true =>
    obtain rfl := InstanceOp.eq_of_isTaint hc
    rw [heard, work_touch]
    exact .nil
  | false =>
    have hsteady : Steady fun i : Instance (Overheard σ) =>
        i.guest.heard.Pairwise (fun x _ => x.ending ≠ .trapped) ∧
          (i.tainted = false → ∀ x ∈ i.guest.heard, x.ending ≠ .trapped) := by
      refine steady_of_hears (fun i start bytes h => h) fun i c ⟨hpairs, hnone⟩ hfalse => ⟨?_, ?_⟩
      · rw [heard_hears]
        refine List.pairwise_append.mpr ⟨hpairs, List.pairwise_singleton _ _, ?_⟩
        exact fun x hx _ _ => hnone hfalse x hx
      · intro ht x hx
        rw [tainted_hears, hfalse, Bool.false_or, beq_eq_false_iff_ne] at ht
        rw [heard_hears] at hx
        rcases List.mem_append.mp hx with hx | hx
        · exact hnone hfalse x hx
        · exact List.mem_singleton.mp hx ▸ ht
    exact (hsteady.work inst.overheard hc ⟨.nil, fun _ _ hx => by cases hx⟩).1

/-! ## Handles -/

omit [Backend σ] in
theorem instanceId_of_handleOfCode {id : Nat} {code : Int32} {h : Handle}
    (heq : handleOfCode id code = .ok h) : h.instanceId = id := by
  unfold handleOfCode at heq
  split at heq
  · cases heq
  · split at heq
    · cases heq
    · split at heq
      · next h' hcode =>
        obtain rfl := Except.ok.inj heq
        unfold Handle.ofCode? at hcode
        split at hcode
        · exact congrArg Handle.instanceId (Option.some.inj hcode).symm
        · cases hcode
      · cases heq

/-- A handle that comes out of a compile is one of the instance. -/
theorem instanceId_of_compile {rules : String} {h : Handle}
    (heq : ((compile rules).perform inst).1 = .ok h) : h.instanceId = inst.id := by
  have hidentity := invariant_identity (σ := σ) inst.identity
  have hkeeps : Keeps (fun i => i.identity = inst.identity)
      (withBuffer (Text.Utf8.encode rules) fun text => createMatcher text.ptr text.len) :=
    hidentity.steady.inMemory.withBuffer _ fun text i =>
      hidentity i (.createMatcher text.ptr text.len)
  have hsame := hkeeps inst rfl
  unfold compile at heq
  rw [perform_bind] at heq
  split at heq
  · next code after hcode =>
    rw [hcode] at hsame
    rw [perform_bind, perform_get] at heq
    simp only [perform_give] at heq
    cases hc : handleOfCode after.id code with
    | error e =>
      rw [hc] at heq
      cases heq
    | ok h' =>
      rw [hc] at heq
      obtain rfl := Except.ok.inj heq
      exact (instanceId_of_handleOfCode hc).trans (congrArg Identity.id hsame)
  · cases heq

/-- An untainted instance is asked to forget what one of its own handles stands for. -/
theorem heard_drop {h : Handle} (ht : inst.tainted = false) (hown : h.instanceId = inst.id) :
    ∃ ending, inst.heard (.call (.drop h)) = [⟨.destroyMatcher h.raw, ending⟩] := by
  have hcall : (Touch.destroyMatcher h).call? inst.overheard.id =
      some (.destroyMatcher h.raw) := if_pos hown
  have htainted : inst.overheard.tainted = false := ht
  rw [heard, work_drop_eq_touch, touch_eq_perform, perform_touch_of_call? hcall, perform_run,
    htainted, if_neg (by decide), heard_hears]
  exact ⟨_, rfl⟩

end Instance

/-- What can happen to an instance that is of interest later. -/
inductive Incident where
  /-- A call has reached the guest. -/
  | crossed (c : Crossing)
  /-- The instance has been tainted on purpose. -/
  | marked
  deriving DecidableEq, Repr

/-- Does an incident taint the instance? -/
def Incident.taints : Incident → Bool
  | .crossed c => c.ending == .trapped
  | .marked => true

namespace Instance

variable {σ : Type} [Backend σ] {start inst : Instance σ} {past : List Incident}

/-- What happens to an instance during an operation. -/
def incidents (inst : Instance σ) (c : InstanceOp) : List Incident :=
  (inst.heard c).map .crossed ++ if c.isTaint then [.marked] else []

theorem tainted_work_eq_any (inst : Instance σ) (c : InstanceOp) :
    (inst.work c).tainted = (inst.tainted || (inst.incidents c).any Incident.taints) := by
  rw [tainted_work, incidents, List.any_append, List.any_map, Bool.or_assoc,
    Bool.or_comm c.isTaint]
  cases c.isTaint <;> rfl

/-- Operations lead from one instance to another, and this is what has happened meanwhile. -/
inductive Trail (start : Instance σ) : List Incident → Instance σ → Prop where
  | nil : Trail start [] start
  | snoc {past : List Incident} {inst : Instance σ} (h : Trail start past inst) (c : InstanceOp) :
    Trail start (past ++ inst.incidents c) (inst.work c)

namespace Trail

theorem invariant {P : Instance σ → Prop} (hP : Invariant P) (h : Trail start past inst)
    (hstart : P start) : P inst := by
  induction h with
  | nil => exact hstart
  | snoc _ c ih => exact hP.work c ih

theorem identity_eq (h : Trail start past inst) : inst.identity = start.identity :=
  h.invariant (invariant_identity start.identity) rfl

theorem id_eq (h : Trail start past inst) : inst.id = start.id :=
  congrArg Identity.id h.identity_eq

/-- The taint is there from the first incident on that brings it, and never before. -/
theorem tainted_eq (h : Trail start past inst) :
    inst.tainted = (start.tainted || past.any Incident.taints) := by
  induction h with
  | nil => simp
  | snoc _ c ih => rw [tainted_work_eq_any, ih, List.any_append, Bool.or_assoc]

/-- After an incident that taints nothing is heard any more. -/
theorem pairwise (h : Trail start past inst) :
    past.Pairwise fun i j => i.taints = true → ∀ c, j ≠ .crossed c := by
  have hmark (inst : Instance σ) (c : InstanceOp) :
      ∀ i ∈ (if c.isTaint then [Incident.marked] else []), ∀ x, i ≠ .crossed x := by
    cases c.isTaint <;> simp
  induction h with
  | nil => exact .nil
  | @snoc past inst h c ih =>
    refine List.pairwise_append.mpr ⟨ih, List.pairwise_append.mpr ⟨?_, ?_, ?_⟩, ?_⟩
    · refine List.pairwise_map.mpr ((inst.pairwise_heard c).imp fun {x _} hx ht => ?_)
      exact absurd (beq_iff_eq.mp ht) hx
    · cases c.isTaint <;> simp
    · exact fun i _ j hj _ => hmark inst c j hj
    · intro i hi j hj ht
      have htainted : inst.tainted = true := by
        rw [h.tainted_eq, List.any_eq_true.mpr ⟨i, hi, ht⟩, Bool.or_true]
      rw [incidents, heard_of_tainted htainted] at hj
      exact hmark inst c j hj

end Trail

end Instance

end PathSieve
