/-
  Every step of a thread is fair.

  One lemma for each step of a call says that it changes its scene fairly. So no turn
  makes the books wrong, and no run of turns does (`Books.run`).
-/
import PathSieve.Proofs.Pool.Books

namespace PathSieve

open List

variable {μ σ : Type}

namespace Scene

variable {c : Scene μ σ} {inst : Instance σ}

/-- A step that makes nothing and draws no id: it moves instances from one place to another,
    and moves the counters with them. -/
structure Moves (c c' : Scene μ σ) : Prop where
  made_eq : c'.ledger.made = c.ledger.made
  nextId_eq : c'.lending.nextId = c.lending.nextId
  ids_eq : c'.stage.ids = c.stage.ids
  proper : c.alone.Proper → c'.alone.Proper
  placed : ∀ q, c'.alone.placed.countP q = c.alone.placed.countP q
  leased : ∀ id, c'.alone.tally (·.leased) id + c.ledger.out id =
    c.alone.tally (·.leased) id + c'.ledger.out id
  created : ∀ id, c'.alone.tally (·.created) id + c'.alone.uncounted id =
    c.alone.tally (·.created) id + c.alone.uncounted id
  discarded : ∀ id, c'.alone.tally (·.discarded) id + c.ledger.droppedOf id =
    c.alone.tally (·.discarded) id + c'.ledger.droppedOf id

namespace Moves

theorem refl (c : Scene μ σ) : c.Moves c :=
  ⟨rfl, rfl, rfl, id, fun _ => rfl, fun _ => rfl, fun _ => rfl, fun _ => rfl⟩

theorem fair {c' : Scene μ σ} (h : c.Moves c') : ThreadedSystem.Fair c.alone c'.alone where
  proper := h.proper
  placed q := by
    simp only [ledger_alone, h.placed q, h.made_eq]
  issued n := by
    simp only [issued_alone, nextInstanceId_alone, h.made_eq, h.ids_eq, h.nextId_eq, Nat.le_refl]
  named b hb := .inl (h.made_eq ▸ hb)
  leased := h.leased
  created id := by
    simp only [ledger_alone, h.created id, Ledger.madeBy, h.made_eq]
  discarded := h.discarded

theorem pop (h : c.stage = .ready) (hpool : c.lending.pool.Proper) : c.Moves c.pop := by
  unfold Scene.pop Pool.popIdle?
  cases hidle : c.lending.pool.idle with
  | nil =>
    exact {
      made_eq := rfl
      nextId_eq := rfl
      ids_eq := by simp [h]
      proper := fun _ => (proper_alone _).mpr ⟨hpool, by simp [Stage.Proper]⟩
      placed := by simp [h]
      leased := by simp
      created := by simp [h]
      discarded := by simp }
  | cons inst rest =>
    have hinst := hpool inst (by simp [hidle])
    have hrest : Pool.Proper { c.lending.pool with idle := rest } := fun i hi =>
      hpool i (hidle ▸ mem_cons_of_mem inst hi)
    exact {
      made_eq := rfl
      nextId_eq := rfl
      ids_eq := by simp [h]
      proper := fun _ => (proper_alone _).mpr ⟨hrest, by simp [Stage.Proper, hinst.1]⟩
      placed := by
        intro q
        simp only [placed_alone, h, hidle, Stage.hands, map_cons, map_nil, countP_append,
          countP_cons, countP_nil]
        omega
      leased := by simp
      created := by simp [h]
      discarded := by simp }

theorem giveBack (h : c.stage = .ready) (hpool : c.lending.pool.Proper) (place : Nat) :
    c.Moves (c.giveBack place) := by
  unfold Scene.giveBack
  cases hh : c.ledger.held[place]? with
  | none => exact refl c
  | some held =>
    have hplaced := fun q => Ledger.countP_placed_yield hh q
    have hout := fun id => Ledger.out_yield hh id
    dsimp only
    split
    · exact refl c
    · split
      · exact {
          made_eq := rfl
          nextId_eq := rfl
          ids_eq := rfl
          proper := fun _ => (proper_alone _).mpr ⟨hpool, by simp [h, Stage.Proper]⟩
          placed := by simp [hplaced]
          leased := by simp [hout]
          created := by simp
          discarded := by simp }
      · rename_i hown
        have hown := not_not.mp hown
        exact {
          made_eq := rfl
          nextId_eq := rfl
          ids_eq := by simp [h]
          proper := fun _ => (proper_alone _).mpr ⟨hpool, by simp [Stage.Proper, hown]⟩
          placed := by simp [Pool.countReturned, h, hplaced, countP_cons, Nat.add_comm]
          leased := by
            intro id
            simp only [Pool.countReturned, tally_alone, hout, hown, Int.natCast_add]
            split <;> omega
          created := by simp [Pool.countReturned, h]
          discarded := by simp [Pool.countReturned] }

theorem split (h : c.stage = .ready) (hpool : c.lending.pool.Proper) (keep : Nat) :
    c.Moves (c.split keep) where
  made_eq := rfl
  nextId_eq := rfl
  ids_eq := by simp [h, Scene.split]
  proper _ := (proper_alone _).mpr
    ⟨fun i hi => hpool i (mem_of_mem_drop hi),
      fun i hi => congrArg some (hpool i (mem_of_mem_take hi)).1.symm⟩
  placed q := by
    have hcut := congrArg (countP q) (take_append_drop
      (c.lending.pool.idle.length - keep) (c.lending.pool.idle.map Instance.identity))
    simp only [countP_append] at hcut
    simp only [placed_alone, Scene.split, Pool.splitIdle, h, Stage.hands, countP_append, map_take,
      map_drop, map_nil, countP_nil]
    omega
  leased := by simp [Scene.split, Pool.splitIdle]
  created := by simp [h, Scene.split, Pool.splitIdle]
  discarded := by simp [Scene.split, Pool.splitIdle]

theorem countCreated {pool : Nat} (h : c.stage = .made pool inst)
    (hown : inst.poolId = c.lending.pool.id) (hpool : c.lending.pool.Proper) :
    c.Moves (c.countCreated pool inst) where
  made_eq := rfl
  nextId_eq := rfl
  ids_eq := by simp [h, Scene.countCreated]
  proper hp := (proper_alone _).mpr
    ⟨hpool, by simpa [Stage.Proper, h, Scene.countCreated] using ((proper_alone _).mp hp).2⟩
  placed := by simp [Scene.countCreated, Pool.countCreated, h]
  leased := by simp [Scene.countCreated, Pool.countCreated]
  created id := by
    simp only [Scene.countCreated, Pool.countCreated, tally_alone, uncounted_alone, h,
      Stage.uncounted, map_cons, map_nil, countP_cons, countP_nil, Instance.identity, hown,
      decide_eq_true_eq]
    split <;> omega
  discarded := by simp [Scene.countCreated, Pool.countCreated]

theorem countLeased {pool : Nat} (h : c.stage = .taken pool inst)
    (hown : inst.poolId = c.lending.pool.id) (hpool : c.lending.pool.Proper) :
    c.Moves (c.countLeased pool inst) where
  made_eq := rfl
  nextId_eq := rfl
  ids_eq := by simp [h, Scene.countLeased]
  proper _ := (proper_alone _).mpr ⟨hpool, by simp [Scene.countLeased, Stage.Proper]⟩
  placed := by simp [Scene.countLeased, Pool.countLeased, h, countP_cons, Nat.add_comm]
  leased id := by
    simp only [Scene.countLeased, Pool.countLeased, tally_alone, Ledger.out_hold, hown,
      Int.natCast_add]
    split <;> omega
  created := by simp [Scene.countLeased, Pool.countLeased, h]
  discarded := by simp [Scene.countLeased, Pool.countLeased]

theorem keep {pool : Nat} (h : c.stage = .returned pool inst)
    (hown : inst.poolId = c.lending.pool.id) (hpool : c.lending.pool.Proper) :
    c.Moves (c.keep inst) := by
  unfold Scene.keep
  cases ht : inst.tainted with
  | true =>
    exact {
      made_eq := rfl
      nextId_eq := rfl
      ids_eq := by simp [h]
      proper := fun _ => (proper_alone _).mpr ⟨hpool, by simp [Stage.Proper]⟩
      placed := by simp [Pool.countDiscarded, h, countP_cons, Nat.add_comm]
      leased := by simp [Pool.countDiscarded]
      created := by simp [Pool.countDiscarded, h]
      discarded := by
        intro id
        simp only [if_true, Pool.countDiscarded, tally_alone, Ledger.droppedOf_drop, hown,
          countP_cons, countP_nil, decide_eq_true_eq]
        split <;> omega }
  | false =>
    have hkept : (c.lending.pool.pushIdle inst).Proper := by
      intro i hi
      rcases mem_cons.mp hi with rfl | hi
      · exact ⟨hown, ht⟩
      · exact hpool i hi
    exact {
      made_eq := rfl
      nextId_eq := rfl
      ids_eq := by simp [h]
      proper := fun _ => (proper_alone _).mpr ⟨hkept, by simp [Stage.Proper]⟩
      placed := by
        intro q
        simp only [Bool.false_eq_true, if_false, Pool.pushIdle, placed_alone, h, Stage.hands,
          map_cons, map_nil, countP_append, countP_cons, countP_nil]
        omega
      leased := by simp [Pool.pushIdle]
      created := by simp [Pool.pushIdle, h]
      discarded := by simp [Pool.pushIdle] }

theorem countSplit {pool : Nat} {gone : List (Instance σ)} (h : c.stage = .split pool gone)
    (hown : ∀ inst ∈ gone, inst.poolId = c.lending.pool.id) (hpool : c.lending.pool.Proper) :
    c.Moves (c.countSplit gone) where
  made_eq := rfl
  nextId_eq := rfl
  ids_eq := by simp [h, Scene.countSplit]
  proper _ := (proper_alone _).mpr ⟨hpool, by simp [Scene.countSplit, Stage.Proper]⟩
  placed q := by
    simp only [placed_alone, Scene.countSplit, Pool.countDiscarded, h, Stage.hands, map_nil,
      countP_append, countP_nil, Ledger.countP_placed_drop]
    omega
  leased := by simp [Scene.countSplit, Pool.countDiscarded]
  created := by simp [Scene.countSplit, Pool.countDiscarded, h]
  discarded id := by
    have hgone : (gone.countP (·.poolId = id) : Int) =
        if c.lending.pool.id = id then (gone.length : Int) else 0 := by
      split
      · rename_i heq
        exact congrArg Nat.cast (countP_eq_length.mpr fun i hi => by simp [hown i hi, heq])
      · rename_i hne
        exact congrArg Nat.cast (countP_eq_zero.mpr fun i hi => by simp [hown i hi, hne])
    simp only [Scene.countSplit, Pool.countDiscarded, tally_alone, Ledger.droppedOf_drop,
      Int.natCast_add, hgone]
    split <;> omega

end Moves

theorem fair_draw {pool : Nat} (h : c.stage = .missed pool) (hpool : c.lending.pool.Proper) :
    ThreadedSystem.Fair c.alone (c.draw pool).alone where
  proper _ := (proper_alone _).mpr ⟨hpool, by simp [draw, Stage.Proper]⟩
  placed q := by simp [draw, h]
  issued n := by
    simp only [issued_alone, draw, h, Stage.ids, nextInstanceId_alone, range_succ, count_append,
      count_nil]
    omega
  named b hb := .inl hb
  leased id := by simp [draw]
  created id := by simp [draw, h]
  discarded id := by simp [draw]

theorem fair_instantiate [Module μ σ] {pool id : Nat} (h : c.stage = .drawn pool id)
    (hpool : c.lending.pool.Proper) : ThreadedSystem.Fair c.alone (c.instantiate id).alone := by
  unfold instantiate
  dsimp only
  rcases Module.instantiate c.lending.pool.module (Lending.instanceName id) with ⟨guest, module⟩
  cases guest with
  | error e =>
    exact {
      proper := fun _ => (proper_alone _).mpr ⟨hpool, by simp [Stage.Proper]⟩
      placed := by simp [h]
      issued := by
        intro n
        simp [h, count_append]
      named := fun b hb => .inl hb
      leased := by simp
      created := by simp [h]
      discarded := by simp }
  | ok guest =>
    exact {
      proper := fun _ => (proper_alone _).mpr ⟨hpool, by simp [Stage.Proper]⟩
      placed := by
        intro q
        simp only [placed_alone, ledger_alone, h, Stage.hands, map_cons, map_nil, countP_append,
          countP_cons, countP_nil, Ledger.placed_make, Ledger.made_make]
        omega
      issued := by
        intro n
        simp [h, count_append, Instance.identity, count_cons, Nat.add_comm]
      named := by
        intro b hb
        rcases mem_cons.mp hb with rfl | hb
        · exact .inr rfl
        · exact .inl hb
      leased := by simp
      created := by
        intro id
        simp only [tally_alone, uncounted_alone, ledger_alone, h, Stage.uncounted, map_cons,
          map_nil, countP_cons, countP_nil, Instance.identity, decide_eq_true_eq,
          Ledger.madeBy_make]
        omega
      discarded := by simp }

theorem fair_start (h : c.stage = .ready) (hpool : c.lending.pool.Proper) (call : PoolCall) :
    ThreadedSystem.Fair c.alone (c.start call).alone := by
  cases call with
  | acquire => exact (Moves.pop h hpool).fair
  | release place => exact (Moves.giveBack h hpool place).fair
  | shrinkTo keep => exact (Moves.split h hpool keep).fair

theorem fair_go [Module μ σ] (hp : c.alone.Proper)
    (hat : c.stage.pool? = some c.lending.pool.id) : ThreadedSystem.Fair c.alone c.go.alone := by
  obtain ⟨hpool, hstage⟩ := (proper_alone c).mp hp
  have hown : ∀ inst ∈ c.stage.hands, inst.poolId = c.lending.pool.id := fun inst hi =>
    Option.some.inj ((hstage inst hi).symm.trans hat)
  unfold go
  cases h : c.stage with
  | ready => simp [h] at hat
  | missed pool => exact fair_draw h hpool
  | drawn pool id => exact fair_instantiate h hpool
  | made pool inst => exact (Moves.countCreated h (hown inst (by simp [h])) hpool).fair
  | taken pool inst => exact (Moves.countLeased h (hown inst (by simp [h])) hpool).fair
  | returned pool inst => exact (Moves.keep h (hown inst (by simp [h])) hpool).fair
  | split pool gone => exact (Moves.countSplit h (by simpa [h] using hown) hpool).fair

theorem pool_id_start (c : Scene μ σ) (call : PoolCall) :
    (c.start call).lending.pool.id = c.lending.pool.id := by
  cases call with
  | acquire =>
    simp only [start, pop, Pool.popIdle?]
    cases c.lending.pool.idle <;> rfl
  | release place =>
    simp only [start, giveBack]
    cases c.ledger.held[place]? with
    | none => rfl
    | some held =>
      dsimp only
      split
      · rfl
      · split <;> rfl
  | shrinkTo keep => rfl

theorem pool_id_go [Module μ σ] (c : Scene μ σ) : c.go.lending.pool.id = c.lending.pool.id := by
  unfold go
  cases c.stage with
  | drawn pool id =>
    simp only [instantiate]
    rcases Module.instantiate c.lending.pool.module (Lending.instanceName id) with ⟨_ | _, _⟩ <;>
      rfl
  | returned pool inst =>
    simp only [keep]
    split <;> rfl
  | _ => rfl

end Scene

namespace ThreadedSystem

variable {s : ThreadedSystem μ σ}

variable [Module μ σ] [Backend σ]

/-- No turn makes the books wrong. -/
theorem Books.turn (h : s.Books) (t : Turn μ) : (s.turn t).Books := by
  cases t with
  | openPool module config =>
    exact h.fair (fair_openPool module config) (h.numbered.addPool module config)
  | start thread pool call =>
    unfold ThreadedSystem.turn
    dsimp only
    split
    · rename_i l ledger hc
      refine h.play hc (Scene.pool_id_start _ _) fun hp => ?_
      exact Scene.fair_start rfl ((Scene.proper_alone _).mp hp).1 call
    · exact h
  | go thread =>
    unfold ThreadedSystem.turn
    dsimp only
    split
    · rename_i c hc
      obtain ⟨pool, hpool, hc⟩ := Option.bind_eq_some_iff.mp hc
      obtain ⟨stage, hstage, hat⟩ := Option.bind_eq_some_iff.mp hpool
      obtain ⟨hstage', hlending, -⟩ := scene?_eq_some hc
      obtain rfl := Option.some.inj (hstage.symm.trans hstage')
      refine h.play hc (Scene.pool_id_go c) fun hp => Scene.fair_go hp ?_
      rw [hat, (World.lending?_eq_some hlending).2.1]
    · exact h
  | unwrap place => exact h.fair (fair_modify place fun _ => rfl) h.numbered
  | lose place => exact h.fair (fair_loseAt place) h.numbered
  | touch place t =>
    exact h.fair (fair_modify place fun held => Instance.identity_touch held.inst t) h.numbered

theorem Books.run (h : s.Books) (turns : List (Turn μ)) : (s.run turns).Books := by
  unfold ThreadedSystem.run
  induction turns generalizing s with
  | nil => exact h
  | cons t turns ih => exact ih (h.turn t)

end ThreadedSystem

end PathSieve
