import FwLoader.Foundations.Interfaces
import Mathlib.Data.List.Infix

/-!
# Protocols of calls

A protocol says in which order calls may be made. It is an automaton that reads the events of a
program and has no next state where an event is not allowed. `Follows` says that a program keeps to a
protocol whatever its calls answer, and what state it leaves the protocol in.

`Follows.run_eq_eval` is what a protocol is good for: an environment that answers like an oracle as
long as a protocol is kept to is as good as the oracle for every program that keeps to it. `watch` is
the protocol that counts something of the events and bounds it at each of them.
-/

namespace Foundations

variable {E E' : Interface} {α β γ ρ σ : Type}

/-- The state behind an event, where the event is allowed. -/
structure Protocol (E : Interface) (ρ : Type) where
  step : ρ → Event E → Option ρ

namespace Protocol

/-- Go through events, as long as they are allowed. -/
def exec (M : Protocol E ρ) : ρ → List (Event E) → Option ρ
  | q, [] => some q
  | q, e :: es => (M.step q e).bind fun q' => exec M q' es

theorem exec_append (M : Protocol E ρ) (q : ρ) (es es' : List (Event E)) :
    M.exec q (es ++ es') = (M.exec q es).bind fun q' => M.exec q' es' := by
  induction es generalizing q with
  | nil => rfl
  | cons e es ih =>
    rw [List.cons_append, exec, exec, Option.bind_assoc]
    exact congrArg _ (funext fun q' => ih q')

/-- The events in front of an allowed one, and that event, are allowed. -/
theorem exists_step_of_exec {M : Protocol E ρ} {q q'' : ρ} {es es' : List (Event E)} {e : Event E}
    (h : M.exec q (es ++ e :: es') = some q'') :
    ∃ q₁ q₂, M.exec q es = some q₁ ∧ M.step q₁ e = some q₂ ∧ M.exec q₂ es' = some q'' := by
  rw [exec_append] at h
  obtain ⟨q₁, hes, hrest⟩ := Option.bind_eq_some_iff.mp h
  obtain ⟨q₂, he, hes'⟩ := Option.bind_eq_some_iff.mp hrest
  exact ⟨q₁, q₂, hes, he, hes'⟩

/-- The protocol of two interfaces that share its states. -/
def sum (M : Protocol E ρ) (N : Protocol E' ρ) : Protocol (E.sum E') ρ where
  step
    | q, ⟨.inl c, r⟩ => M.step q ⟨c, r⟩
    | q, ⟨.inr c, r⟩ => N.step q ⟨c, r⟩

/-- All events are allowed. -/
def free : Protocol E ρ where
  step q _ := some q

/-- Events are watched, and allowed as long as what has been seen satisfies `ok`. -/
def watch (next : ρ → Event E → ρ) (ok : ρ → Prop) [DecidablePred ok] : Protocol E ρ where
  step q e := if ok (next q e) then some (next q e) else none

section

variable {next : ρ → Event E → ρ} {ok : ρ → Prop} [DecidablePred ok]

theorem step_watch {q : ρ} {e : Event E} (h : ok (next q e)) :
    (watch next ok).step q e = some (next q e) := if_pos h

/-- What has been seen was satisfactory at all times. -/
theorem ok_of_exec_watch {q q' : ρ} {es : List (Event E)} (hq : ok q)
    (h : (watch next ok).exec q es = some q') :
    q' = es.foldl next q ∧ ∀ es', es' <+: es → ok (es'.foldl next q) := by
  induction es generalizing q with
  | nil =>
    obtain rfl := Option.some.inj h
    refine ⟨rfl, fun es' hes' => ?_⟩
    rw [List.prefix_nil.mp hes']
    exact hq
  | cons e es ih =>
    obtain ⟨q₁, he, hes⟩ := Option.bind_eq_some_iff.mp h
    obtain ⟨hok, hq₁⟩ := Option.ite_none_right_eq_some.mp he
    obtain rfl : next q e = q₁ := Option.some.inj hq₁
    obtain ⟨hq', hall⟩ := ih hok hes
    refine ⟨hq', fun es' hes' => ?_⟩
    cases es' with
    | nil => exact hq
    | cons e' es' =>
      obtain ⟨rfl, htail⟩ := List.cons_prefix_cons.mp hes'
      exact hall es' htail

end

/-- Without the events of a free interface the others are as allowed as they are with them. -/
theorem exec_sum_free (M : Protocol E ρ) (q : ρ) (es : List (Event (E.sum E'))) :
    (M.sum free).exec q es = M.exec q (es.filterMap Event.left?) := by
  induction es generalizing q with
  | nil => rfl
  | cons e es ih =>
    obtain ⟨c | c, r⟩ := e
    · exact congrArg _ (funext fun q' => ih q')
    · exact ih q

end Protocol

namespace Prog

/-- Whatever its calls answer, a program makes allowed calls from the state `q` on and leaves a
result and a state that satisfy `Q`. -/
def Follows (M : Protocol E ρ) (Q : α → ρ → Prop) : ρ → Prog E α → Prop
  | q, ret a => Q a q
  | q, call c k => ∀ r, ∃ q', M.step q ⟨c, r⟩ = some q' ∧ Follows M Q q' (k r)

namespace Follows

variable {M : Protocol E ρ} {q : ρ} {p p' : Prog E α} {Q Q' : α → ρ → Prop}

theorem pure {a : α} (h : Q a q) : Follows M Q q (pure a) := h

/-- A call goes on from the state behind it. -/
theorem perform_bind {c : E.Call} {f : E.Answer c → Prog E α}
    (h : ∀ r, ∃ q', M.step q ⟨c, r⟩ = some q' ∧ Follows M Q q' (f r)) :
    Follows M Q q (perform c >>= f) := h

theorem ite {c : Prop} [Decidable c] (hp : c → Follows M Q q p) (hp' : ¬c → Follows M Q q p') :
    Follows M Q q (if c then p else p') := by
  split
  · exact hp ‹_›
  · exact hp' ‹_›

theorem mono (h : Follows M Q q p) (hQ : ∀ a q', Q a q' → Q' a q') : Follows M Q' q p := by
  induction p generalizing q with
  | ret a => exact hQ a q h
  | call c k ih =>
    intro r
    obtain ⟨q', hstep, hk⟩ := h r
    exact ⟨q', hstep, ih r hk⟩

theorem bind {R : β → ρ → Prop} {f : α → Prog E β} (h : Follows M Q q p)
    (hf : ∀ a q', Q a q' → Follows M R q' (f a)) : Follows M R q (p >>= f) := by
  induction p generalizing q with
  | ret a => exact hf a q h
  | call c k ih =>
    intro r
    obtain ⟨q', hstep, hk⟩ := h r
    exact ⟨q', hstep, ih r hk⟩

/-- What follows a program that leaves the protocol as it was. -/
theorem bind_eq {q' : ρ} {R : β → ρ → Prop} {f : α → Prog E β}
    (h : Follows M (fun _ q₁ => q₁ = q') q p) (hf : ∀ a, Follows M R q' (f a)) :
    Follows M R q (p >>= f) := by
  apply h.bind
  rintro a _ rfl
  exact hf a

/-- A program that makes only calls that leave the protocol as it is. -/
theorem of_onlyCalls (h : p.OnlyCalls fun c => ∀ r, M.step q ⟨c, r⟩ = some q) :
    Follows M (fun _ q' => q' = q) q p := by
  induction p with
  | ret a => rfl
  | call c k ih => exact fun r => ⟨q, h.1 r, ih r (h.2 r)⟩

/-- A `while` loop, each round of which takes the invariant one further or leaves. -/
theorem loop_count {body : β → Prog E (β ⊕ γ)} {I : ℕ → β → ρ → Prop} {X : γ → ρ → Prop}
    (hround : ∀ i b q, I i b q →
      Follows M (fun res q' => Sum.elim (I (i + 1) · q') (X · q') res) q (body b))
    (n : ℕ) {i : ℕ} {b : β} (hI : I i b q) :
    Follows M (fun res q' => Option.elim res (∃ b', I (i + n) b' q') (X · q')) q
      (loop body n b) := by
  induction n generalizing i b q with
  | zero => exact ⟨b, hI⟩
  | succ n ih =>
    apply (hround i b q hI).bind
    intro res q' hres
    cases res with
    | inl b' =>
      have hi : i + (n + 1) = i + 1 + n := by omega
      rw [hi]
      exact ih hres
    | inr c => exact hres

/-- A `while` loop, each round of which keeps the invariant or leaves. -/
theorem loop {body : β → Prog E (β ⊕ γ)} {I : β → ρ → Prop} {R : Option γ → ρ → Prop}
    (hround : ∀ b q, I b q →
      Follows M (fun res q' => Sum.elim (I · q') (fun c => R (some c) q') res) q (body b))
    (hnone : ∀ b q, I b q → R none q) {n : ℕ} {b : β} (hI : I b q) :
    Follows M R q (loop body n b) := by
  apply (loop_count (I := fun _ => I) (fun _ => hround) n (i := 0) hI).mono
  intro res q' hres
  cases res with
  | none =>
    obtain ⟨b', hb'⟩ := hres
    exact hnone b' q' hb'
  | some c => exact hres

/-- A `while` loop, each round of which leaves the protocol as it was. -/
theorem loop_eq {body : β → Prog E (β ⊕ γ)}
    (hround : ∀ b, Follows M (fun _ q' => q' = q) q (body b)) (n : ℕ) (b : β) :
    Follows M (fun _ q' => q' = q) q (Prog.loop body n b) := by
  refine loop (I := fun _ q' => q' = q) ?_ (fun _ _ h => h) rfl
  rintro b _ rfl
  apply (hround b).mono
  rintro (_ | _) _ rfl
  · rfl
  · rfl

/-- A `for` loop, each round of which takes the invariant one further or leaves. -/
theorem times {body : β → Prog E (β ⊕ γ)} {I : ℕ → β → ρ → Prop} {X : γ → ρ → Prop} (n : ℕ) {i : ℕ}
    (hround : ∀ j b q, j < i + n → I j b q →
      Follows M (fun res q' => Sum.elim (I (j + 1) · q') (X · q') res) q (body b))
    {b : β} (hI : I i b q) :
    Follows M (fun res q' => Sum.elim (I (i + n) · q') (X · q') res) q (times body n b) := by
  induction n generalizing i b q with
  | zero => exact hI
  | succ n ih =>
    apply (hround i b q (by omega) hI).bind
    intro res q' hres
    cases res with
    | inl b' =>
      have hi : i + (n + 1) = i + 1 + n := by omega
      rw [hi]
      exact ih (fun j b q hj => hround j b q (by omega)) hres
    | inr c => exact hres

/-- The second interface does not matter to a program that leaves it alone. -/
theorem inl {N : Protocol E' ρ} (h : Follows M Q q p) : Follows (M.sum N) Q q p.inl := by
  induction p generalizing q with
  | ret a => exact h
  | call c k ih =>
    intro r
    obtain ⟨q', hstep, hk⟩ := h r
    exact ⟨q', hstep, ih r hk⟩

/-- In each environment a program that keeps to a protocol makes allowed calls. -/
theorem run (h : Follows M Q q p) (H : Handler E σ) (s : σ) :
    ∃ q', M.exec q (p.trace H s) = some q' ∧ Q (p.run H s).1 q' := by
  induction p generalizing q s with
  | ret a => exact ⟨q, rfl, h⟩
  | call c k ih =>
    obtain ⟨q₁, hstep, hk⟩ := h (H.answer s c)
    obtain ⟨q', hexec, hQ⟩ := ih (H.answer s c) hk (H.next s c)
    refine ⟨q', ?_, hQ⟩
    rw [trace, Protocol.exec, hstep, Option.bind_some, hexec]

/-- An environment is as good as an oracle if it answers allowed calls like the oracle. `J` says how
the states of the protocol and of the environment belong together. -/
theorem run_eq_eval {H : Handler E σ} {O : Oracle E} {J : ρ → σ → Prop}
    (hagree : ∀ q s c q', J q s → M.step q ⟨c, H.answer s c⟩ = some q' →
      H.answer s c = O c ∧ J q' (H.next s c))
    (h : Follows M Q q p) {s : σ} (hJ : J q s) :
    (p.run H s).1 = p.eval O ∧ ∃ q', Q (p.run H s).1 q' ∧ J q' (p.run H s).2 := by
  induction p generalizing q s with
  | ret a => exact ⟨rfl, q, h, hJ⟩
  | call c k ih =>
    obtain ⟨q₁, hstep, hk⟩ := h (H.answer s c)
    obtain ⟨hanswer, hJ'⟩ := hagree q s c q₁ hJ hstep
    obtain ⟨heval, hend⟩ := ih (H.answer s c) hk hJ'
    refine ⟨?_, hend⟩
    rw [Prog.run, heval, eval, hanswer]

end Follows

end Prog

end Foundations
