import Mathlib.Algebra.BigOperators.Group.List.Basic
import Mathlib.Algebra.GroupWithZero.Nat

/-!
# Transition systems

A system has a first state and takes a step for an event where it can; no step models an event that
cannot happen there. `Run C` are its runs whose steps all meet a condition `C`, so that one notion
serves both for statements about every run and for statements about the runs in which something does
not happen. `Run.invariant` and `Run.cost_le` carry over whole runs what each step preserves and
what each step uses up, `Reach.relyGuarantee` puts together the invariants of agents that step in
turn, `Run.simulate` matches the runs of one system by those of another, and `addGhost` lets a
system be watched without changing what it does.
-/

namespace Foundations

/-- A first state, and the state after an event where the event can happen. -/
structure System (σ ε : Type) where
  init : σ
  step : σ → ε → Option σ

namespace System

variable {σ ε ω : Type}

section Run

variable (M : System σ ε)

/-- A run from one state through a list of events to another one, all of whose steps meet `C`. -/
inductive Run (C : σ → ε → Prop) (s : σ) : List ε → σ → Prop
  | nil : Run C s [] s
  | snoc {es s' e s''} : Run C s es s' → C s' e → M.step s' e = some s'' →
      Run C s (es ++ [e]) s''

/-- A state that is reached from the first one through steps that meet `C`. -/
def Reach (C : σ → ε → Prop) (s : σ) : Prop := ∃ es, M.Run C M.init es s

/-- No condition on the steps. -/
def Any : σ → ε → Prop := fun _ _ => True

/-- Take the events of a list one after the other, as long as the steps meet `C`. -/
def exec (C : σ → ε → Prop) [∀ s e, Decidable (C s e)] : σ → List ε → Option σ
  | s, [] => some s
  | s, e :: es => if C s e then (M.step s e).bind fun s' => exec C s' es else none

end Run

variable {M : System σ ε} {C D : σ → ε → Prop} {s s' s'' : σ} {es es' : List ε}

instance : ∀ (s : σ) (e : ε), Decidable (Any s e) := fun _ _ => inferInstanceAs (Decidable True)

theorem Run.append (h : M.Run C s es s') (h' : M.Run C s' es' s'') :
    M.Run C s (es ++ es') s'' := by
  induction h' with
  | nil => rwa [List.append_nil]
  | snoc _ hc hstep ih =>
    rw [← List.append_assoc]
    exact ih.snoc hc hstep

/-- What `exec` computes is a run. -/
theorem run_of_exec [∀ s e, Decidable (C s e)] (h : M.exec C s es = some s') :
    M.Run C s es s' := by
  induction es generalizing s with
  | nil =>
    obtain rfl : s = s' := Option.some.inj h
    exact .nil
  | cons e es ih =>
    rw [exec] at h
    split at h
    · rename_i hc
      obtain ⟨s₁, hstep, hrest⟩ := Option.bind_eq_some_iff.mp h
      exact Run.append (Run.nil.snoc hc hstep) (ih hrest)
    · exact nomatch h

theorem reach_of_exec [∀ s e, Decidable (C s e)] (es : List ε) (h : M.exec C M.init es = some s) :
    M.Reach C s := ⟨es, run_of_exec h⟩

/-- What `exec` computes and then tests is the end of a run that passes the test. -/
theorem exists_run_of_exec [∀ s e, Decidable (C s e)] {P : σ → Prop} [DecidablePred P]
    (h : (M.exec C s es).any (fun s => decide (P s)) = true) : ∃ s', M.Run C s es s' ∧ P s' := by
  rcases hexec : M.exec C s es with _ | s'
  · rw [hexec] at h
    exact nomatch h
  · rw [hexec] at h
    exact ⟨s', run_of_exec hexec, of_decide_eq_true h⟩

/-- What `exec` computes and then tests is a state reached that passes the test. -/
theorem exists_reach_of_exec [∀ s e, Decidable (C s e)] (es : List ε) {P : σ → Prop}
    [DecidablePred P] (h : (M.exec C M.init es).any (fun s => decide (P s)) = true) :
    ∃ s, M.Reach C s ∧ P s := by
  obtain ⟨s, hrun, hs⟩ := exists_run_of_exec h
  exact ⟨s, ⟨es, hrun⟩, hs⟩

/-- A condition that each event of a run meets in every state. -/
theorem Run.of_forall_mem (h : M.Run C s es s') (hD : ∀ e ∈ es, ∀ s, D s e) : M.Run D s es s' := by
  induction h with
  | nil => exact .nil
  | @snoc es s' e s'' _ _ hstep ih =>
    exact (ih fun e he => hD e (List.mem_append_left _ he)).snoc
      (hD e (List.mem_append_right _ List.mem_cons_self) s') hstep

/-- The last step of a run. -/
theorem run_append_singleton_iff {e : ε} :
    M.Run C s (es ++ [e]) s'' ↔ ∃ s', M.Run C s es s' ∧ C s' e ∧ M.step s' e = some s'' := by
  constructor
  · intro h
    generalize hes : es ++ [e] = es' at h
    cases h with
    | nil => exact absurd hes (by simp)
    | snoc hrun hc hstep =>
      obtain ⟨rfl, hlast⟩ := List.append_inj' hes rfl
      obtain rfl := List.singleton_inj.mp hlast
      exact ⟨_, hrun, hc, hstep⟩
  · rintro ⟨s', hrun, hc, hstep⟩
    exact hrun.snoc hc hstep

/-- The events of a run determine where it ends. -/
theorem Run.unique {s₁ s₂ : σ} (h₁ : M.Run C s es s₁) (h₂ : M.Run D s es s₂) : s₁ = s₂ := by
  induction h₁ generalizing s₂ with
  | nil =>
    generalize hes : [] = es at h₂
    cases h₂ with
    | nil => rfl
    | snoc => exact absurd hes (by simp)
  | snoc _ _ hstep ih =>
    obtain ⟨s', hrun, -, hstep'⟩ := run_append_singleton_iff.mp h₂
    obtain rfl := ih hrun
    exact Option.some.inj (hstep.symm.trans hstep')

/-! ## Invariants -/

/-- What each step preserves, a run preserves. -/
theorem Run.invariant {I : σ → Prop} (h : M.Run C s es s')
    (hstep : ∀ s e s', I s → C s e → M.step s e = some s' → I s') (hs : I s) : I s' := by
  induction h with
  | nil => exact hs
  | snoc _ hc hnext ih => exact hstep _ _ _ ih hc hnext

/-- What holds at first and is preserved by each step holds in every state reached. -/
theorem Reach.invariant {I : σ → Prop} (h : M.Reach C s) (hinit : I M.init)
    (hstep : ∀ s e s', I s → C s e → M.step s e = some s' → I s') : I s := by
  obtain ⟨es, hrun⟩ := h
  exact hrun.invariant hstep hinit

/-- If the steps that do not meet `C` are exactly those that lose `P`, then `P` holds at the end of
exactly those runs whose steps all meet `C`. -/
theorem Run.iff_of_step {I P : σ → Prop} (h : M.Run Any s es s')
    (hstep : ∀ s e s', I s → M.step s e = some s' → I s' ∧ (P s' ↔ P s ∧ C s e))
    (hI : I s) (hP : P s) : P s' ↔ M.Run C s es s' := by
  have hboth : I s' ∧ (P s' ↔ M.Run C s es s') := by
    induction h with
    | nil => exact ⟨hI, iff_of_true hP .nil⟩
    | snoc hrun _ hnext ih =>
      obtain ⟨hI', hiff⟩ := ih
      obtain ⟨hI'', hiff'⟩ := hstep _ _ _ hI' hnext
      refine ⟨hI'', ?_⟩
      rw [hiff', hiff, run_append_singleton_iff]
      constructor
      · rintro ⟨hrun', hc⟩
        exact ⟨_, hrun', hc, hnext⟩
      · rintro ⟨s₁, hrun', hc, -⟩
        obtain rfl := hrun.unique hrun'
        exact ⟨hrun', hc⟩
  exact hboth.2

/-- Each step is taken by an agent, which keeps its own invariant and changes no more than it is
allowed to, and the invariants of the other agents do not depend on what it is allowed to change.
Then the invariants of all agents hold in every state reached. -/
theorem Reach.relyGuarantee {τ : Type} (agent : ε → τ) (I : τ → σ → Prop) (G : τ → σ → σ → Prop)
    (h : M.Reach C s) (hinit : ∀ t, I t M.init)
    (hown : ∀ s e s', (∀ t, I t s) → C s e → M.step s e = some s' →
      I (agent e) s' ∧ G (agent e) s s')
    (hstable : ∀ t u s s', t ≠ u → (∀ t, I t s) → G u s s' → I t s') : ∀ t, I t s := by
  apply h.invariant (I := fun s => ∀ t, I t s) hinit
  intro s e s' hI hc hstep t
  obtain ⟨hI', hG⟩ := hown s e s' hI hc hstep
  by_cases ht : t = agent e
  · rw [ht]
    exact hI'
  · exact hstable t (agent e) s s' ht hI hG

/-- As `Reach.invariant`, where the proof for a step may use that its state is reached. -/
theorem Reach.invariant_of_reach {I : σ → Prop} (h : M.Reach C s) (hinit : I M.init)
    (hstep : ∀ s e s', M.Reach C s → I s → C s e → M.step s e = some s' → I s') : I s := by
  obtain ⟨es, hrun⟩ := h
  induction hrun with
  | nil => exact hinit
  | snoc hrun hc hnext ih => exact hstep _ _ _ ⟨_, hrun⟩ ih hc hnext

/-- If each step uses up at least its cost of a measure, a run uses up at least its total cost. -/
theorem Run.cost_le {I : σ → Prop} (m : σ → ℕ) (cost : ε → ℕ) (h : M.Run C s es s')
    (hstep : ∀ s e s', I s → C s e → M.step s e = some s' → I s' ∧ m s' + cost e ≤ m s)
    (hs : I s) : I s' ∧ m s' + (es.map cost).sum ≤ m s := by
  induction h with
  | nil => exact ⟨hs, by simp⟩
  | @snoc es s' e s'' _ hc hnext ih =>
    obtain ⟨hI, hle⟩ := ih
    obtain ⟨hI', hle'⟩ := hstep _ _ _ hI hc hnext
    refine ⟨hI', ?_⟩
    rw [List.map_append, List.sum_append, List.map_singleton, List.sum_singleton]
    omega

/-! ## Simulation -/

/-- If each step of a system is matched by steps of another one in which the same can be observed,
so is each run. -/
theorem Run.simulate {σ' ε' : Type} {N : System σ' ε'} {D : σ' → ε' → Prop} {R : σ → σ' → Prop}
    {obs : ε → Option ω} {obs' : ε' → Option ω} {d : σ'} (h : M.Run C s es s')
    (hstep : ∀ s e s' d, R s d → C s e → M.step s e = some s' →
      ∃ es' d', N.Run D d es' d' ∧ R s' d' ∧ es'.filterMap obs' = [e].filterMap obs)
    (hs : R s d) :
    ∃ es' d', N.Run D d es' d' ∧ R s' d' ∧ es'.filterMap obs' = es.filterMap obs := by
  induction h with
  | nil => exact ⟨[], d, .nil, hs, rfl⟩
  | @snoc es s' e s'' _ hc hnext ih =>
    obtain ⟨es₁, d₁, hrun₁, hR₁, hobs₁⟩ := ih
    obtain ⟨es₂, d₂, hrun₂, hR₂, hobs₂⟩ := hstep s' e s'' d₁ hR₁ hc hnext
    refine ⟨es₁ ++ es₂, d₂, hrun₁.append hrun₂, hR₂, ?_⟩
    rw [List.filterMap_append, List.filterMap_append, hobs₁, hobs₂]

/-! ## Ghost state -/

/-- The system together with notes that are taken of its steps. -/
def addGhost (M : System σ ε) (start : ω) (note : ω → σ → ε → ω) : System (σ × ω) ε where
  init := (M.init, start)
  step p e := (M.step p.1 e).map fun s' => (s', note p.2 p.1 e)

variable {start : ω} {note : ω → σ → ε → ω}

/-- A step of the watched system is a step of the system. -/
theorem addGhost_step_eq_some {p p' : σ × ω} {e : ε} :
    (M.addGhost start note).step p e = some p' ↔
      M.step p.1 e = some p'.1 ∧ p'.2 = note p.2 p.1 e := by
  obtain ⟨s', g'⟩ := p'
  simp only [addGhost, Option.map_eq_some_iff, Prod.mk.injEq]
  constructor
  · rintro ⟨s₁, hstep, rfl, rfl⟩
    exact ⟨hstep, rfl⟩
  · rintro ⟨hstep, rfl⟩
    exact ⟨s', hstep, rfl, rfl⟩

/-- A run of the watched system is a run of the system. -/
theorem Run.of_addGhost {p p' : σ × ω}
    (h : (M.addGhost start note).Run (fun p e => C p.1 e) p es p') : M.Run C p.1 es p'.1 := by
  induction h with
  | nil => exact .nil
  | snoc _ hc hstep ih => exact ih.snoc hc (addGhost_step_eq_some.mp hstep).1

theorem Reach.of_addGhost {p : σ × ω} (h : (M.addGhost start note).Reach (fun p e => C p.1 e) p) :
    M.Reach C p.1 := by
  obtain ⟨es, hrun⟩ := h
  exact ⟨es, hrun.of_addGhost⟩

/-- Every run of the system can be watched. -/
theorem Run.exists_addGhost (h : M.Run C s es s') (g : ω) :
    ∃ g', (M.addGhost start note).Run (fun p e => C p.1 e) (s, g) es (s', g') := by
  induction h with
  | nil => exact ⟨g, .nil⟩
  | @snoc es s' e s'' _ hc hstep ih =>
    obtain ⟨g', hrun⟩ := ih
    exact ⟨note g' s' e, hrun.snoc hc (addGhost_step_eq_some.mpr ⟨hstep, rfl⟩)⟩

end System

end Foundations
