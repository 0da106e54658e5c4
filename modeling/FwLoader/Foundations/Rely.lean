import FwLoader.Foundations.Interleaving
import FwLoader.Foundations.Transition
import Mathlib.Logic.Relation

/-!
# Programs that rely on their environment

Before each call of a program and behind the last one, its environment may change the shared state
by any number of steps of a relation `R`. `Secures` is what a program then ensures of its result and
the shared state; its rules work with assertions that `R` preserves. `amid` is the system of a
program and its environment, and `secures_of_reach` carries `Secures` over to all its runs.
-/

namespace Foundations

variable {E : Interface} {α β σ ω ε : Type}

/-- An assertion that the environment preserves. -/
def Stable (R : σ → σ → Prop) (P : σ → Prop) : Prop := ∀ s s', P s → R s s' → P s'

theorem Stable.reflTransGen {R : σ → σ → Prop} {P : σ → Prop} (h : Stable R P) {s s' : σ}
    (hs : P s) (hR : Relation.ReflTransGen R s s') : P s' := by
  induction hR with
  | refl => exact hs
  | tail _ hstep ih => exact h _ _ ih hstep

namespace Prog

/-- Whatever the environment does, the result and the shared state at the end satisfy `Q`. -/
def Secures (S : Semantics E σ ω) (R : σ → σ → Prop) (Q : α → σ → Prop) : Prog E α → σ → Prop
  | ret a, s => ∀ s', Relation.ReflTransGen R s s' → Q a s'
  | call c k, s => ∀ s', Relation.ReflTransGen R s s' → ∀ o r, S.answer s' o c = some r →
      Secures S R Q (k r) (S.effect s' c r)

namespace Secures

variable {S : Semantics E σ ω} {R : σ → σ → Prop} {Q Q' : α → σ → Prop} {p p' : Prog E α} {s s' : σ}
variable {P : σ → Prop}

/-- A stable assertion at the end. -/
theorem pure {a : α} (hstable : Stable R P) (hs : P s) (hQ : ∀ s', P s' → Q a s') :
    Secures S R Q (pure a : Prog E α) s := fun s' hR => hQ s' (hstable.reflTransGen hs hR)

/-- A call is made somewhere where a stable assertion still holds. -/
theorem perform_bind {c : E.Call} {f : E.Answer c → Prog E α} (hstable : Stable R P) (hs : P s)
    (h : ∀ s' o r, P s' → S.answer s' o c = some r → Secures S R Q (f r) (S.effect s' c r)) :
    Secures S R Q (perform c >>= f) s :=
  fun s' hR o r hr => h s' o r (hstable.reflTransGen hs hR) hr

/-- A call of which nothing has to be known. -/
theorem perform_bind_any {c : E.Call} {f : E.Answer c → Prog E α}
    (h : ∀ s' r, Secures S R Q (f r) (S.effect s' c r)) : Secures S R Q (perform c >>= f) s :=
  fun s' _ _ r _ => h s' r

theorem ite {c : Prop} [Decidable c] (hp : c → Secures S R Q p s)
    (hp' : ¬c → Secures S R Q p' s) : Secures S R Q (if c then p else p') s := by
  split
  · exact hp ‹_›
  · exact hp' ‹_›

theorem mono (h : Secures S R Q p s) (hQ : ∀ a s', Q a s' → Q' a s') : Secures S R Q' p s := by
  induction p generalizing s with
  | ret a => exact fun s' hR => hQ a s' (h s' hR)
  | call c k ih => exact fun s' hR o r hr => ih r (h s' hR o r hr)

theorem bind {Q' : β → σ → Prop} {f : α → Prog E β} (h : Secures S R Q p s)
    (hf : ∀ a s', Q a s' → Secures S R Q' (f a) s') : Secures S R Q' (p >>= f) s := by
  induction p generalizing s with
  | ret a => exact hf a s (h s .refl)
  | call c k ih => exact fun s' hR o r hr => ih r (h s' hR o r hr)

/-- What the environment does first. -/
theorem of_rely (h : Secures S R Q p s) (hR : R s s') : Secures S R Q p s' := by
  cases p with
  | ret a => exact fun s'' h' => h s'' (.head hR h')
  | call c k => exact fun s'' h' => h s'' (.head hR h')

theorem advance {o : ω} (h : Secures S R Q p s) (hp : p.advance S s o = some (s', p')) :
    Secures S R Q p' s' := by
  cases p with
  | ret a => exact nomatch hp
  | call c k =>
    obtain ⟨r, hr, hnext⟩ := Option.map_eq_some_iff.mp hp
    obtain ⟨rfl, rfl⟩ := Prod.mk.inj hnext
    exact h s .refl o r hr

/-- The end of a program. -/
theorem of_hasEnded (h : Secures S R Q p s) (hp : p.hasEnded = true) : ∃ a, Q a s := by
  cases p with
  | ret a => exact ⟨a, h s .refl⟩
  | call c k => exact nomatch hp

end Secures

/-- A program and its environment: its calls and the events of the environment come in any order. -/
def amid (p : Prog E α) (S : Semantics E σ ω) (others : σ → ε → σ) (s : σ) :
    System (σ × Prog E α) (ω ⊕ ε) where
  init := (s, p)
  step q
    | .inl o => q.2.advance S q.1 o
    | .inr e => some (others q.1 e, q.2)

/-- What a program secures holds at each end of its runs. -/
theorem secures_of_reach {p : Prog E α} {S : Semantics E σ ω} {others : σ → ε → σ} {s : σ}
    {Q : α → σ → Prop} {q : σ × Prog E α}
    (h : (p.amid S others s).Reach System.Any q)
    (hp : Secures S (fun s s' => ∃ e, others s e = s') Q p s) (hend : q.2.hasEnded = true) :
    ∃ a, Q a q.1 := by
  have hq : Secures S (fun s s' => ∃ e, others s e = s') Q q.2 q.1 := by
    apply h.invariant (I := fun q => Secures S (fun s s' => ∃ e, others s e = s') Q q.2 q.1) hp
    rintro ⟨s₁, p₁⟩ (o | e) q' hq - hstep
    · exact hq.advance hstep
    · obtain rfl := Option.some.inj hstep
      exact hq.of_rely ⟨e, rfl⟩
  exact hq.of_hasEnded hend

end Prog

end Foundations
