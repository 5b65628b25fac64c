/-
  What the steps at the global slot do.

  An event says what a step has done; `SlotEvent.Does` ties it to the operation that it is a
  step of: where it ends a call it does what the whole operation would do in the world that it
  finds. What there is to find and to do is told once (`SlotEvent.Effect`), and all else goes
  by its cases.

  Every run keeps `SlotSystem.Sound`: the steps of the history lead from the first world to the
  present one, and the second step of a call comes after its first one.
-/
import PathSieve.Proofs.Pool.SlotSystem

namespace PathSieve

variable {μ σ : Type}

namespace World

variable {w w' : World μ σ}

@[simp] theorem globalSlot_addPool (w : World μ σ) (module : μ) (config : Config) :
    (w.addPool module config).2.globalSlot = w.globalSlot :=
  rfl

@[simp] theorem globalSlot_installGlobal (w : World μ σ) (pool : Nat) :
    (w.installGlobal pool).2.globalSlot = some pool :=
  rfl

@[simp] theorem globalSlot_resetGlobal (w : World μ σ) : w.resetGlobal.2.globalSlot = none :=
  rfl

@[simp] theorem globalSlot_settle (w : World μ σ) (l : Lending μ σ) :
    (w.settle l).globalSlot = w.globalSlot :=
  rfl

/-- The pools have ids of their own, and the slot holds one of them or none. -/
structure Orderly (w : World μ σ) : Prop where
  numbered : w.Numbered
  slot : ∀ pool ∈ w.globalSlot, pool ∈ w.ids

end World

/-! ## Events -/

namespace SlotEvent

variable [Compiled μ] {w w' : World μ σ} {d : SlotEvent}

/-- What an event does to the world: what the operation does as a whole, where it ends a
    call. -/
def Does (w w' : World μ σ) : SlotEvent → Prop
  | look => w.globalSlot = none ∧ w' = w
  | answer result => w.globalPool = (result, w')
  | build config pool => w.openPool config = (.ok pool, w')
  | refuse config e => w.configureGlobal config = (.error e, w')
  | install pool previous => pool ∈ w.ids ∧ w.installGlobal pool = (previous, w')
  | reset previous => w.resetGlobal = (previous, w')
  | openPool pool => ∃ module config, w.addPool module config = (pool, w')
  | use => ∃ l, w' = w.settle l

/-- What an event can have found and done. -/
inductive Effect (w : World μ σ) : SlotEvent → World μ σ → Prop
  | looked (hslot : w.globalSlot = none) : Effect w look w
  | found {pool : Nat} (hslot : w.globalSlot = some pool) : Effect w (answer (.ok pool)) w
  | filled {module : μ} (hslot : w.globalSlot = none) (hmodule : Compiled.compile {} = .ok module) :
    Effect w (answer (.ok w.nextPoolId)) ((w.addPool module {}).2.installGlobal w.nextPoolId).2
  | unfilled {e : Error} (hslot : w.globalSlot = none)
    (hmodule : (Compiled.compile {} : Except Error μ) = .error e) :
    Effect w (answer (.error e)) w
  | built (config : Config) (module : μ) :
    Effect w (build config w.nextPoolId) (w.addPool module config).2
  | refused (config : Config) (e : Error) : Effect w (refuse config e) w
  | installed {pool : Nat} (hpool : pool ∈ w.ids) :
    Effect w (install pool w.globalSlot) (w.installGlobal pool).2
  | emptied : Effect w (reset w.globalSlot) w.resetGlobal.2
  | opened (module : μ) (config : Config) :
    Effect w (openPool w.nextPoolId) (w.addPool module config).2
  | used (l : Lending μ σ) : Effect w use (w.settle l)

theorem Does.effect (h : d.Does w w') : d.Effect w w' := by
  cases d with
  | look =>
    obtain ⟨hslot, rfl⟩ := h
    exact .looked hslot
  | answer result =>
    cases hslot : w.globalSlot with
    | some pool =>
      rw [Does, World.globalPool_of_some hslot] at h
      cases h
      exact .found hslot
    | none =>
      rw [Does, World.globalPool_of_none hslot] at h
      cases hmodule : (Compiled.compile {} : Except Error μ) with
      | ok module =>
        rw [World.configureGlobal_ok hmodule] at h
        cases h
        exact .filled hslot hmodule
      | error e =>
        rw [World.configureGlobal_error hmodule] at h
        cases h
        exact .unfilled hslot hmodule
  | build config pool =>
    cases hmodule : (Compiled.compile config : Except Error μ) with
    | ok module =>
      rw [Does, World.openPool_ok hmodule] at h
      cases h
      exact .built config module
    | error e =>
      rw [Does, World.openPool_error hmodule] at h
      cases h
  | refuse config e =>
    cases hmodule : (Compiled.compile config : Except Error μ) with
    | ok module =>
      rw [Does, World.configureGlobal_ok hmodule] at h
      cases h
    | error e =>
      rw [Does, World.configureGlobal_error hmodule] at h
      cases h
      exact .refused config e
  | install pool previous =>
    obtain ⟨hpool, h⟩ := h
    cases h
    exact .installed hpool
  | reset previous =>
    cases h
    exact .emptied
  | openPool pool =>
    obtain ⟨module, config, h⟩ := h
    cases h
    exact .opened module config
  | use =>
    obtain ⟨l, rfl⟩ := h
    exact .used l

namespace Effect

theorem grows (h : d.Effect w w') : w.Grows w' := by
  cases h with
  | filled | built | opened => exact .inr ⟨rfl, rfl⟩
  | used l => exact .inl ⟨w.ids_settle l, rfl⟩
  | _ => exact .inl ⟨rfl, rfl⟩

theorem orderly (h : d.Effect w w') (hw : w.Orderly) : w'.Orderly := by
  refine ⟨hw.numbered.grows h.grows, ?_⟩
  have hkept := fun pool hpool => h.grows.subset (hw.slot pool hpool)
  cases h with
  | filled hslot hmodule =>
    intro pool hpool
    obtain rfl : w.nextPoolId = pool := Option.some.inj hpool
    exact List.mem_cons_self
  | installed hpool =>
    intro pool hpool'
    obtain rfl := Option.some.inj hpool'
    exact hpool
  | emptied =>
    intro pool hpool
    cases hpool
  | _ => exact hkept

end Effect

/-- The second step of a call, by its first one. -/
inductive Follows : SlotEvent → SlotEvent → Prop
  | answer (result : Except Error Nat) : Follows look (answer result)
  | install (config : Config) (pool : Nat) (previous : Option Nat) :
    Follows (build config pool) (install pool previous)

/-- Configuring fails in the first step or not at all. -/
theorem not_follows_refuse {d : SlotEvent} {config : Config} {e : Error} :
    ¬ d.Follows (refuse config e) := by
  intro h
  cases h

end SlotEvent

/-! ## Callers -/

namespace Caller

/-- The first step of a call under way, with its place. -/
@[simp] def first? : Caller → Option (Nat × SlotEvent)
  | ready => none
  | looked began => some (began, .look)
  | opened began config pool => some (began, .build config pool)

/-- The pool that a caller has opened and not installed yet. -/
@[simp] def pool? : Caller → Option Nat
  | opened _ _ pool => some pool
  | _ => none

end Caller

namespace World

variable [Compiled μ] {w w' : World μ σ} {d : SlotEvent} {stage : Caller}

/-- What a first step has done, and what the caller keeps of it. -/
theorem begin?_spec {now : Nat} {call : SlotCall μ σ}
    (h : w.begin? now call = some (d, stage, w')) :
    d.Does w w' ∧ (∀ p ∈ stage.first?, p = (now, d)) ∧ ∀ pool ∈ stage.pool?, pool ∈ w'.ids := by
  cases call with
  | ask =>
    cases hslot : w.globalSlot with
    | some pool =>
      cases (begin?_ask_of_some hslot now).symm.trans h
      exact ⟨globalPool_of_some hslot, by simp, by simp⟩
    | none =>
      cases (begin?_ask_of_none hslot now).symm.trans h
      exact ⟨⟨hslot, rfl⟩, fun p hp => (Option.some.inj hp).symm, by simp⟩
  | configure config =>
    cases hmodule : (Compiled.compile config : Except Error μ) with
    | ok module =>
      cases (begin?_configure_ok hmodule w now).symm.trans h
      refine ⟨openPool_ok hmodule w, fun p hp => (Option.some.inj hp).symm, fun pool hpool => ?_⟩
      obtain rfl : w.nextPoolId = pool := Option.some.inj hpool
      exact List.mem_cons_self
    | error e =>
      cases (begin?_configure_error hmodule w now).symm.trans h
      exact ⟨configureGlobal_error hmodule w, by simp, by simp⟩
  | install pool =>
    simp only [begin?] at h
    split at h
    case isTrue hpool =>
      cases h
      exact ⟨⟨hpool, rfl⟩, by simp, by simp⟩
    case isFalse => cases h
  | reset =>
    cases h
    exact ⟨rfl, by simp, by simp⟩
  | openPool module config =>
    cases h
    exact ⟨⟨module, config, rfl⟩, by simp, by simp⟩
  | use l =>
    cases h
    exact ⟨⟨l, rfl⟩, by simp, by simp⟩

/-- What a second step has done, and which first step it follows. -/
theorem resume?_spec {began : Nat} (hpools : ∀ pool ∈ stage.pool?, pool ∈ w.ids)
    (h : w.resume? stage = some (began, d, w')) :
    d.Does w w' ∧ ∃ first, stage.first? = some (began, first) ∧ first.Follows d := by
  cases stage with
  | ready => cases h
  | looked =>
    cases h
    exact ⟨(fillGlobal_eq_globalPool w).symm, _, rfl, .answer _⟩
  | opened _ config pool =>
    cases h
    exact ⟨⟨hpools pool rfl, rfl⟩, _, rfl, .install config pool _⟩

end World

/-! ## The history -/

namespace SlotSystem

/-- The step at a place of a history begins a call, or is the second one of a call. -/
def Begun (h : List (SlotStep μ σ)) (i : Nat) (m : SlotStep μ σ) : Prop :=
  m.began = i ∨ m.began < i ∧ ∃ first, h[m.began]? = some first ∧
    first.caller = m.caller ∧ first.began = m.began ∧ first.event.Follows m.event

theorem Begun.le {h : List (SlotStep μ σ)} {i : Nat} {m : SlotStep μ σ} (hm : Begun h i m) :
    m.began ≤ i := by
  obtain hfirst | ⟨hlt, -⟩ := hm
  · exact Nat.le_of_eq hfirst
  · exact Nat.le_of_lt hlt

theorem getElem?_append_of_some {h h' : List (SlotStep μ σ)} {i : Nat} {m : SlotStep μ σ}
    (hm : h[i]? = some m) : (h ++ h')[i]? = some m := by
  rw [List.getElem?_append_left (List.getElem?_eq_some_iff.mp hm).1, hm]

theorem Begun.append {h : List (SlotStep μ σ)} {i : Nat} {m : SlotStep μ σ} (hm : Begun h i m)
    (h' : List (SlotStep μ σ)) : Begun (h ++ h') i m := by
  refine hm.imp_right fun hsecond => ?_
  obtain ⟨hlt, first, hfirst, hcall⟩ := hsecond
  exact ⟨hlt, first, getElem?_append_of_some hfirst, hcall⟩

variable [Compiled μ]

/-- A history leads from one world to another: each step finds the world that the one before
    it has left. -/
def Leads : World μ σ → List (SlotStep μ σ) → World μ σ → Prop
  | w, [], w' => w' = w
  | w, m :: ms, w' => m.before = w ∧ m.event.Does w m.after ∧ Leads m.after ms w'

theorem leads_append {w w' : World μ σ} {ms ms' : List (SlotStep μ σ)} :
    Leads w (ms ++ ms') w' ↔ ∃ middle, Leads w ms middle ∧ Leads middle ms' w' := by
  induction ms generalizing w with
  | nil => simp [Leads]
  | cons m ms ih => simp [Leads, ih, and_assoc]

theorem Leads.does {w w' : World μ σ} {ms : List (SlotStep μ σ)} {m : SlotStep μ σ}
    (h : Leads w ms w') (hm : m ∈ ms) : m.event.Does m.before m.after := by
  induction ms generalizing w with
  | nil => cases hm
  | cons m' ms ih =>
    obtain ⟨rfl, hdoes, hrest⟩ := h
    rcases List.mem_cons.mp hm with rfl | hm
    · exact hdoes
    · exact ih hrest hm

/-- What a caller keeps of its call is in the history, and the pool that it has opened is there. -/
structure Stands (s : SlotSystem μ σ) (caller : Nat) (stage : Caller) : Prop where
  first : ∀ began d, stage.first? = some (began, d) → ∃ m, s.history[began]? = some m ∧
    m.caller = caller ∧ m.began = began ∧ m.event = d
  pool : ∀ pool ∈ stage.pool?, pool ∈ s.world.ids

/-- What every run keeps. -/
structure Sound (s : SlotSystem μ σ) : Prop where
  leads : Leads {} s.history s.world
  begun : ∀ i m, s.history[i]? = some m → Begun s.history i m
  callers : ∀ caller stage, s.callers[caller]? = some stage → s.Stands caller stage
  orderly : s.world.Orderly

theorem sound_ofCallers (count : Nat) : (ofCallers count : SlotSystem μ σ).Sound where
  leads := rfl
  begun i m h := by simp [ofCallers] at h
  callers caller stage h := by
    obtain ⟨-, rfl⟩ := List.mem_replicate.mp (List.mem_of_getElem? h)
    exact ⟨by simp, by simp⟩
  orderly := ⟨⟨List.nodup_nil, by simp [ofCallers]⟩, by simp [ofCallers]⟩

/-- A step keeps a system sound if it does what it says, belongs to a call, and leaves the
    caller with what it needs for the next one. -/
theorem Sound.note {s : SlotSystem μ σ} {caller began : Nat} {d : SlotEvent} {stage : Caller}
    {w : World μ σ} (hs : s.Sound) (hdoes : d.Does s.world w)
    (hbegun : Begun s.history s.history.length ⟨caller, began, d, s.world, w⟩)
    (hfirst : ∀ p ∈ stage.first?, p = (began, d) ∧ began = s.history.length)
    (hpool : ∀ pool ∈ stage.pool?, pool ∈ w.ids) : (s.note caller began d stage w).Sound where
  leads := leads_append.mpr ⟨s.world, hs.leads, rfl, hdoes, rfl⟩
  begun i m hm := by
    rcases Nat.lt_trichotomy i s.history.length with hi | rfl | hi
    · rw [SlotSystem.note, List.getElem?_append_left hi] at hm
      exact (hs.begun i m hm).append _
    · rw [SlotSystem.note, List.getElem?_concat_length] at hm
      cases hm
      exact hbegun.append _
    · have := (List.getElem?_eq_some_iff.mp hm).1
      simp only [SlotSystem.note, List.length_append, List.length_singleton] at this
      omega
  callers other stage' hother := by
    rw [SlotSystem.note, List.getElem?_set] at hother
    split at hother
    case isTrue heq =>
      split at hother
      case isFalse => cases hother
      cases hother
      subst heq
      refine ⟨fun place d' hd' => ?_, hpool⟩
      obtain ⟨heq, hplace⟩ := hfirst _ hd'
      cases heq
      subst hplace
      exact ⟨_, List.getElem?_concat_length, rfl, rfl, rfl⟩
    case isFalse =>
      have hstands := hs.callers other stage' hother
      refine ⟨fun place d' hd' => ?_, fun pool hp => ?_⟩
      · obtain ⟨m, hm, hcall⟩ := hstands.first place d' hd'
        exact ⟨m, getElem?_append_of_some hm, hcall⟩
      · exact hdoes.effect.grows.subset (hstands.pool pool hp)
  orderly := hdoes.effect.orderly hs.orderly

/-! ## What every run keeps -/

theorem Sound.turn {s : SlotSystem μ σ} (hs : s.Sound) (t : Turn μ σ) : (s.turn t).Sound := by
  cases t with
  | start caller call =>
    cases hstage : s.callers[caller]? with
    | none => simpa only [SlotSystem.turn, hstage] using hs
    | some stage =>
      cases stage with
      | ready =>
        cases hbegin : s.world.begin? s.history.length call with
        | none => simpa only [SlotSystem.turn, hstage, hbegin] using hs
        | some step =>
          obtain ⟨d, stage, w⟩ := step
          obtain ⟨hdoes, hfirst, hpool⟩ := World.begin?_spec hbegin
          rw [turn_start hstage hbegin]
          exact hs.note hdoes (.inl rfl) (fun p hp => ⟨hfirst p hp, rfl⟩) hpool
      | looked | opened => simpa only [SlotSystem.turn, hstage] using hs
  | go caller =>
    cases hresume : s.callers[caller]?.bind s.world.resume? with
    | none => simpa only [SlotSystem.turn, hresume] using hs
    | some step =>
      obtain ⟨began, d, w⟩ := step
      obtain ⟨stage, hstage, hresume⟩ := Option.bind_eq_some_iff.mp hresume
      have hstands := hs.callers caller stage hstage
      obtain ⟨hdoes, first, hfirst, hfollows⟩ := World.resume?_spec hstands.pool hresume
      obtain ⟨m, hm, hcaller, hbegan, rfl⟩ := hstands.first began first hfirst
      rw [turn_go hstage hresume]
      refine hs.note hdoes (.inr ⟨?_, m, hm, hcaller, hbegan, hfollows⟩) (by simp) (by simp)
      exact (List.getElem?_eq_some_iff.mp hm).1

theorem Sound.run {s : SlotSystem μ σ} (hs : s.Sound) (turns : List (Turn μ σ)) :
    (s.run turns).Sound := by
  induction turns generalizing s with
  | nil => exact hs
  | cons t turns ih => exact ih (hs.turn t)

end SlotSystem

end PathSieve
