import FwLoader.Foundations.Transition
import Mathlib.Data.Nat.Init
import Mathlib.Order.Lattice
import Mathlib.Order.Nat

/-!
# Fair runs

What comes about in the end is a matter of runs without an end. An `EndlessRun` may let time go by
without an event, so that it can also be a run that comes to a halt. It is `Fair` to a kind of
events if they occur again and again unless there comes a time from which on they cannot occur, and
`LeadsTo` says that one thing is followed by another. `Approach` is a variant: what every event
preserves while the events of one kind come nearer to the goal. `leadsTo_of_approach` is the rule
that turns it into `LeadsTo`, where the events of that kind only have to be possible again and
again.
-/

namespace Foundations.System

variable {σ ε : Type} {M : System σ ε}

/-- An event of this kind can occur. -/
def Can (M : System σ ε) (A : ε → Prop) (s : σ) : Prop := ∃ e, A e ∧ ∃ s', M.step s e = some s'

/-- A run without an end. Where there is no event, nothing changes. -/
structure EndlessRun (M : System σ ε) where
  state : ℕ → σ
  event : ℕ → Option ε
  start : state 0 = M.init
  next : ∀ n, (event n).elim (state (n + 1) = state n)
    fun e => M.step (state n) e = some (state (n + 1))

/-- What every event preserves and an event of one kind brings nearer to the goal `Q`. -/
structure Approach (M : System σ ε) (A : ε → Prop) (P Q : σ → Prop) (m : σ → ℕ) : Prop where
  stays : ∀ s e s', M.Reach Any s → P s → M.step s e = some s' → Q s' ∨ P s' ∧ m s' ≤ m s
  nears : ∀ s e s', M.Reach Any s → P s → A e → M.step s e = some s' → Q s' ∨ P s' ∧ m s' < m s

namespace EndlessRun

variable {r : M.EndlessRun} {A : ε → Prop} {P Q R : σ → Prop} {n : ℕ}

/-- Events of this kind occur again and again, if they can occur again and again. -/
def Fair (r : M.EndlessRun) (A : ε → Prop) : Prop :=
  (∀ n, ∃ k, n ≤ k ∧ M.Can A (r.state k)) → ∀ n, ∃ k, n ≤ k ∧ ∃ e, r.event k = some e ∧ A e

/-- Whenever `P` holds, `Q` holds then or later. -/
def LeadsTo (r : M.EndlessRun) (P Q : σ → Prop) : Prop :=
  ∀ n, P (r.state n) → ∃ k, n ≤ k ∧ Q (r.state k)

/-! ## Steps -/

theorem next_of_some {e : ε} (h : r.event n = some e) :
    M.step (r.state n) e = some (r.state (n + 1)) := by
  have hnext := r.next n
  rw [h] at hnext
  exact hnext

theorem next_of_none (h : r.event n = none) : r.state (n + 1) = r.state n := by
  have hnext := r.next n
  rw [h] at hnext
  exact hnext

/-- The states of a run are reached. -/
theorem reach (r : M.EndlessRun) (n : ℕ) : M.Reach Any (r.state n) := by
  induction n with
  | zero =>
    rw [r.start]
    exact ⟨[], .nil⟩
  | succ n ih =>
    cases he : r.event n with
    | none =>
      rw [next_of_none he]
      exact ih
    | some e =>
      obtain ⟨es, hrun⟩ := ih
      exact ⟨es ++ [e], hrun.snoc trivial (next_of_some he)⟩

/-- What each event preserves or ends, lasts or comes to its end. -/
theorem lasts (hstays : ∀ s e s', M.Reach Any s → P s → M.step s e = some s' → Q s' ∨ P s')
    (hP : P (r.state n)) {k : ℕ} (hk : n ≤ k) :
    (∃ j, n ≤ j ∧ j ≤ k ∧ Q (r.state j)) ∨ P (r.state k) := by
  induction k, hk using Nat.le_induction with
  | base => exact .inr hP
  | succ k hk ih =>
    rcases ih with ⟨j, hj, hjk, hQ⟩ | hPk
    · exact .inl ⟨j, hj, Nat.le_succ_of_le hjk, hQ⟩
    · cases he : r.event k with
      | none =>
        rw [next_of_none he]
        exact .inr hPk
      | some e =>
        rcases hstays _ e _ (r.reach k) hPk (next_of_some he) with hQ | hP'
        · exact .inl ⟨k + 1, Nat.le_succ_of_le hk, Nat.le_refl _, hQ⟩
        · exact .inr hP'

/-- What comes to an end does so by an event. -/
theorem exists_event_of_not {k : ℕ} (hk : n ≤ k) (hP : P (r.state n)) (hnot : ¬P (r.state k)) :
    ∃ j e, n ≤ j ∧ r.event j = some e ∧ P (r.state j) ∧ ¬P (r.state (j + 1)) := by
  induction k, hk using Nat.le_induction with
  | base => exact absurd hP hnot
  | succ k hk ih =>
    by_cases hPk : P (r.state k)
    · cases he : r.event k with
      | none => exact absurd (next_of_none he ▸ hPk) hnot
      | some e => exact ⟨k, e, hk, he, hPk, hnot⟩
    · exact ih hPk

/-! ## What leads to what -/

namespace LeadsTo

theorem of_imp (h : ∀ s, M.Reach Any s → P s → Q s) : r.LeadsTo P Q :=
  fun n hP => ⟨n, Nat.le_refl n, h _ (r.reach n) hP⟩

theorem trans (h : r.LeadsTo P Q) (h' : r.LeadsTo Q R) : r.LeadsTo P R := by
  intro n hP
  obtain ⟨k, hk, hQ⟩ := h n hP
  obtain ⟨j, hj, hR⟩ := h' k hQ
  exact ⟨j, Nat.le_trans hk hj, hR⟩

theorem or {P' : σ → Prop} (h : r.LeadsTo P Q) (h' : r.LeadsTo P' Q) :
    r.LeadsTo (fun s => P s ∨ P' s) Q :=
  fun n hP => hP.elim (h n) (h' n)

theorem mono {P' Q' : σ → Prop} (h : r.LeadsTo P Q) (hP : ∀ s, M.Reach Any s → P' s → P s)
    (hQ : ∀ s, M.Reach Any s → Q s → Q' s) : r.LeadsTo P' Q' :=
  (of_imp hP).trans (h.trans (of_imp hQ))

/-- What lasts until its end still holds when something else comes about before. -/
theorem and_of_stays (h : r.LeadsTo P R)
    (hstays : ∀ s e s', M.Reach Any s → P s → M.step s e = some s' → Q s' ∨ P s') :
    r.LeadsTo P fun s => Q s ∨ P s ∧ R s := by
  intro n hP
  obtain ⟨k, hk, hR⟩ := h n hP
  rcases lasts hstays hP hk with ⟨j, hj, -, hQ⟩ | hPk
  · exact ⟨j, hj, .inl hQ⟩
  · exact ⟨k, hk, .inr ⟨hPk, hR⟩⟩

end LeadsTo

/-- What fair events bring nearer comes about, if these events are possible again and again. -/
theorem leadsTo_of_approach {m : σ → ℕ} (hfair : r.Fair A) (h : Approach M A P Q m)
    (hcan : r.LeadsTo P fun s => Q s ∨ M.Can A s) : r.LeadsTo P Q := by
  intro n hP
  induction hm : m (r.state n) using Nat.strong_induction_on generalizing n with
  | _ v ih =>
    by_contra hnever
    -- as long as the goal is not there, the variant holds and does not grow
    have hlasts : ∀ k, n ≤ k → P (r.state k) ∧ m (r.state k) ≤ v := by
      intro k hk
      refine (lasts (P := fun s => P s ∧ m s ≤ v) (Q := Q) (fun s e s' hreach hPs hstep => ?_)
        ⟨hP, hm.le⟩ hk).resolve_left fun ⟨j, hj, _, hQ⟩ => hnever ⟨j, hj, hQ⟩
      exact (h.stays s e s' hreach hPs.1 hstep).imp_right fun h' => ⟨h'.1, h'.2.trans hPs.2⟩
    have hagain : ∀ j, ∃ k, j ≤ k ∧ M.Can A (r.state k) := by
      intro j
      obtain ⟨k, hk, hQ | hA⟩ := hcan (max n j) (hlasts _ (le_max_left n j)).1
      · exact absurd ⟨k, (le_max_left n j).trans hk, hQ⟩ hnever
      · exact ⟨k, (le_max_right n j).trans hk, hA⟩
    obtain ⟨k, hk, e, he, hA⟩ := hfair hagain n
    obtain ⟨hPk, hmk⟩ := hlasts k hk
    rcases h.nears _ e _ (r.reach k) hPk hA (next_of_some he) with hQ | ⟨hP', hm'⟩
    · exact hnever ⟨k + 1, by omega, hQ⟩
    · obtain ⟨j, hj, hQ⟩ := ih _ (hm'.trans_le hmk) (k + 1) hP' rfl
      exact hnever ⟨j, by omega, hQ⟩

/-! ## Runs that come to a halt -/

/-- Each run is the beginning of an endless one that comes to a halt behind it. -/
theorem exists_halting {es : List ε} {s : σ} (h : M.Run Any M.init es s) :
    ∃ r : M.EndlessRun, (∀ n, r.event n = es[n]?) ∧ ∀ n, es.length ≤ n → r.state n = s := by
  induction h with
  | nil => exact ⟨⟨fun _ => M.init, fun _ => none, rfl, fun _ => rfl⟩, fun _ => rfl, fun _ _ => rfl⟩
  | @snoc es s' e s'' hrun _ hstep ih =>
    obtain ⟨r, hevent, hstate⟩ := ih
    refine ⟨⟨fun n => if n ≤ es.length then r.state n else s'', fun n => (es ++ [e])[n]?, ?_,
      fun n => ?_⟩, fun _ => rfl, fun n hn => ?_⟩
    · rw [if_pos (Nat.zero_le _), r.start]
    · rcases Nat.lt_trichotomy n es.length with hlt | rfl | hgt
      · rw [List.getElem?_append_left hlt, ← hevent n, if_pos hlt.le,
          if_pos (show n + 1 ≤ es.length from hlt)]
        exact r.next n
      · rw [List.getElem?_concat_length, if_neg (by omega), if_pos (Nat.le_refl _),
          hstate _ (Nat.le_refl _)]
        exact hstep
      · rw [List.getElem?_eq_none (by simp; omega), if_neg (by omega), if_neg (by omega)]
        rfl
    · rw [List.length_append, List.length_singleton] at hn
      exact if_neg (by omega)

/-- The events of a list and nothing behind them lead through the states of a run. -/
theorem run_of_event {es : List ε} (hevent : ∀ n, r.event n = es[n]?) (n : ℕ) :
    M.Run Any M.init (es.take n) (r.state n) := by
  induction n with
  | zero =>
    rw [r.start]
    exact .nil
  | succ n ih =>
    rw [List.take_add_one]
    cases he : es[n]? with
    | none =>
      rw [next_of_none ((hevent n).trans he), Option.toList_none, List.append_nil]
      exact ih
    | some e => exact ih.snoc trivial (next_of_some ((hevent n).trans he))

/-- Where events of a kind can no longer occur, they need not. -/
theorem fair_of_halt {s : σ} {k : ℕ} (hhalt : ∀ n, k ≤ n → r.state n = s) (hA : ¬M.Can A s) :
    r.Fair A := by
  intro hagain
  obtain ⟨n, hn, hcan⟩ := hagain k
  rw [hhalt n hn] at hcan
  exact absurd hcan hA

end EndlessRun

end Foundations.System
