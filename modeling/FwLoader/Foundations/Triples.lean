import FwLoader.Foundations.Effects

/-!
# Pre- and postconditions

`Triple H P p Q` says what a program does in one environment: from a state that satisfies `P` it
comes to a result and a state that satisfy `Q`. The rules follow the program. In those for loops,
the invariant counts the rounds, and `Stays J X` is what holds behind a program that either goes on,
as `J` says, or leaves, as `X` says.
-/

namespace Foundations.Prog

variable {E : Interface} {α β γ σ : Type} {H : Handler E σ}

/-- From a state that satisfies `P`, the program comes to a result and a state that satisfy `Q`. -/
def Triple (H : Handler E σ) (P : σ → Prop) (p : Prog E α) (Q : α → σ → Prop) : Prop :=
  ∀ s, P s → Q (p.run H s).1 (p.run H s).2

/-- A program that goes on satisfies `J`, one that leaves satisfies `X`. -/
def Stays (J : β → σ → Prop) (X : γ → σ → Prop) : β ⊕ γ → σ → Prop
  | .inl b => J b
  | .inr c => X c

namespace Triple

variable {P P' : σ → Prop} {Q Q' : α → σ → Prop} {p q : Prog E α}

theorem pure {a : α} (h : ∀ s, P s → Q a s) : Triple H P (pure a : Prog E α) Q := h

theorem perform {c : E.Call} {Q : E.Answer c → σ → Prop}
    (h : ∀ s, P s → Q (H.answer s c) (H.next s c)) : Triple H P (perform c) Q := h

theorem conseq (h : Triple H P p Q) (hP : ∀ s, P' s → P s) (hQ : ∀ a s, Q a s → Q' a s) :
    Triple H P' p Q' := fun s hs => hQ _ _ (h s (hP s hs))

theorem bind {R : β → σ → Prop} {f : α → Prog E β} (h : Triple H P p Q)
    (hf : ∀ a, Triple H (Q a) (f a) R) : Triple H P (p >>= f) R := by
  intro s hs
  rw [run_bind]
  exact hf _ _ (h s hs)

/-- The branch may rely on what the test says. -/
theorem ite {c : Prop} [Decidable c] (hp : c → Triple H P p Q) (hq : ¬c → Triple H P q Q) :
    Triple H P (if c then p else q) Q := by
  split
  · exact hp ‹_›
  · exact hq ‹_›

theorem goOn {p : Prog E (α ⊕ γ)} {f : α → Prog E (β ⊕ γ)} {J : α → σ → Prop} {J' : β → σ → Prop}
    {X : γ → σ → Prop} (h : Triple H P p (Stays J X))
    (hf : ∀ a, Triple H (J a) (f a) (Stays J' X)) :
    Triple H P (p.goOn f) (Stays J' X) :=
  h.bind fun
    | .inl a => hf a
    | .inr _ => fun _ hs => hs

section

variable {body : β → Prog E (β ⊕ γ)} {I : ℕ → β → σ → Prop} {X : γ → σ → Prop}

/-- A `for` loop, of which each round takes the invariant one further. -/
theorem times (hround : ∀ i b, Triple H (I i b) (body b) (Stays (I (i + 1)) X)) (n i : ℕ) (b : β) :
    Triple H (I i b) (times body n b) (Stays (I (i + n)) X) := by
  induction n generalizing i b with
  | zero => exact fun s hs => hs
  | succ n ih =>
    have hi : i + (n + 1) = i + 1 + n := by omega
    rw [hi]
    exact (hround i b).goOn (ih (i + 1))

/-- A `while` loop has returned, or has gone through all the rounds that it was given. -/
theorem loop (hround : ∀ i b, Triple H (I i b) (body b) (Stays (I (i + 1)) X)) (n i : ℕ) (b : β) :
    Triple H (I i b) (loop body n b)
      fun res s => res.elim (∃ b', I (i + n) b' s) fun c => X c s := by
  induction n generalizing i b with
  | zero => exact fun s hs => ⟨b, hs⟩
  | succ n ih =>
    have hi : i + (n + 1) = i + 1 + n := by omega
    rw [hi]
    refine (hround i b).bind fun res => ?_
    cases res with
    | inl b' => exact ih (i + 1) b'
    | inr c => exact fun s hs => hs

end

end Triple

end Foundations.Prog
