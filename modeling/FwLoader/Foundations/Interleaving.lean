import FwLoader.Foundations.Interfaces

/-!
# Programs that run interleaved

Several programs share a state, and each call is a step of its own: between two calls of one program
the others may have done anything to what is shared. `Semantics` says what a call answers in a
shared state and what it does to it, and `advance` makes the next call of a program.

A `Machine` describes a thread by its places. `Tracks` says that a program stays in step with a
machine, whatever the others do between its calls: each call is a step of the machine or changes
nothing. So the rules for `Tracks` follow the text of a single program, and `Tracks.advance` is what
a simulation between the interleavings of programs and of machines needs of each of them.
-/

namespace Foundations

variable {E E' : Interface} {α β γ π σ ω ι : Type}

/-- What calls do to the shared state `σ`. A call is answered with the help of the environment `ω`;
it has no answer where it waits, or if it does not return. -/
structure Semantics (E : Interface) (σ ω : Type) where
  answer : σ → ω → (c : E.Call) → Option (E.Answer c)
  effect : σ → (c : E.Call) → E.Answer c → σ

/-- The calls of the first interface. -/
def Semantics.left (S : Semantics (E.sum E') σ ω) : Semantics E σ ω where
  answer s o c := S.answer s o (Sum.inl c)
  effect s c r := S.effect s (Sum.inl c) r

/-- A thread with its places `π`: what a step makes of the shared state and where it leads. `ι` is
what the places leave open. -/
structure Machine (π σ ι : Type) where
  step : π → σ → ι → Option (σ × π)

namespace Prog

/-- The program has come to its end. -/
def hasEnded : Prog E α → Bool
  | ret _ => true
  | call _ _ => false

/-- Make the next call. -/
def advance (S : Semantics E σ ω) (s : σ) (o : ω) : Prog E α → Option (σ × Prog E α)
  | ret _ => none
  | call c k => (S.answer s o c).map fun r => (S.effect s c r, k r)

/-- Wherever the shared state is at its calls, the program stays in step with the machine from the
place `pc` on, and its result and the place at its end satisfy `Q`. -/
def Tracks (S : Semantics E σ ω) (M : Machine π σ ι) (Q : α → π → Prop) : π → Prog E α → Prop
  | pc, ret a => Q a pc
  | pc, call c k => ∀ s o r, S.answer s o c = some r →
      S.effect s c r = s ∧ Tracks S M Q pc (k r) ∨
        ∃ i pc', M.step pc s i = some (S.effect s c r, pc') ∧ Tracks S M Q pc' (k r)

namespace Tracks

variable {S : Semantics E σ ω} {M : Machine π σ ι} {pc : π} {p p' : Prog E α} {Q Q' : α → π → Prop}

theorem pure {a : α} (h : Q a pc) : Tracks S M Q pc (pure a) := h

/-- A call that the machine does not see. -/
theorem skip {c : E.Call} {f : E.Answer c → Prog E α} (heffect : ∀ s r, S.effect s c r = s)
    (hf : ∀ r, Tracks S M Q pc (f r)) : Tracks S M Q pc (perform c >>= f) :=
  fun s _ r _ => .inl ⟨heffect s r, hf r⟩

/-- A call that is a step of the machine. -/
theorem step {c : E.Call} {f : E.Answer c → Prog E α}
    (h : ∀ s o r, S.answer s o c = some r →
      ∃ i pc', M.step pc s i = some (S.effect s c r, pc') ∧ Tracks S M Q pc' (f r)) :
    Tracks S M Q pc (perform c >>= f) := fun s o r hr => .inr (h s o r hr)

theorem ite {c : Prop} [Decidable c] (hp : c → Tracks S M Q pc p)
    (hp' : ¬c → Tracks S M Q pc p') : Tracks S M Q pc (if c then p else p') := by
  split
  · exact hp ‹_›
  · exact hp' ‹_›

theorem mono (h : Tracks S M Q pc p) (hQ : ∀ a pc', Q a pc' → Q' a pc') : Tracks S M Q' pc p := by
  induction p generalizing pc with
  | ret a => exact hQ a pc h
  | call c k ih =>
    intro s o r hr
    rcases h s o r hr with ⟨heffect, hk⟩ | ⟨i, pc', hstep, hk⟩
    · exact .inl ⟨heffect, ih r hk⟩
    · exact .inr ⟨i, pc', hstep, ih r hk⟩

theorem bind {R : β → π → Prop} {f : α → Prog E β} (h : Tracks S M Q pc p)
    (hf : ∀ a pc', Q a pc' → Tracks S M R pc' (f a)) : Tracks S M R pc (p >>= f) := by
  induction p generalizing pc with
  | ret a => exact hf a pc h
  | call c k ih =>
    intro s o r hr
    rcases h s o r hr with ⟨heffect, hk⟩ | ⟨i, pc', hstep, hk⟩
    · exact .inl ⟨heffect, ih r hk⟩
    · exact .inr ⟨i, pc', hstep, ih r hk⟩

/-- What follows a program that leads to one place. -/
theorem bind_eq {pc' : π} {R : β → π → Prop} {f : α → Prog E β}
    (h : Tracks S M (fun _ pc₁ => pc₁ = pc') pc p) (hf : ∀ a, Tracks S M R pc' (f a)) :
    Tracks S M R pc (p >>= f) := by
  apply h.bind
  rintro a _ rfl
  exact hf a

/-- The machine does not see a program whose calls all change nothing. -/
theorem of_onlyCalls (h : p.OnlyCalls fun c => ∀ s r, S.effect s c r = s) :
    Tracks S M (fun _ pc' => pc' = pc) pc p := by
  induction p with
  | ret a => rfl
  | call c k ih => exact fun s _ r _ => .inl ⟨h.1 s r, ih r (h.2 r)⟩

/-- A `while` loop, each round of which keeps the invariant or leaves. -/
theorem loop {body : β → Prog E (β ⊕ γ)} {I : β → π → Prop} {R : Option γ → π → Prop}
    (hround : ∀ b pc, I b pc →
      Tracks S M (fun res pc' => Sum.elim (I · pc') (fun c => R (some c) pc') res) pc (body b))
    (hnone : ∀ b pc, I b pc → R none pc) {n : ℕ} {b : β} (hI : I b pc) :
    Tracks S M R pc (loop body n b) := by
  induction n generalizing b pc with
  | zero => exact hnone b pc hI
  | succ n ih =>
    apply (hround b pc hI).bind
    intro res pc' hres
    cases res with
    | inl b' => exact ih hres
    | inr c => exact hres

/-- The second interface does not matter to a program that leaves it alone. -/
theorem inl {S : Semantics (E.sum E') σ ω} (h : Tracks S.left M Q pc p) :
    Tracks S M Q pc p.inl := by
  induction p generalizing pc with
  | ret a => exact h
  | call c k ih =>
    intro s o r hr
    rcases h s o r hr with ⟨heffect, hk⟩ | ⟨i, pc', hstep, hk⟩
    · exact .inl ⟨heffect, ih r hk⟩
    · exact .inr ⟨i, pc', hstep, ih r hk⟩

/-- The next call of a program is a step of the machine or changes nothing. -/
theorem advance {s s' : σ} {o : ω} (h : Tracks S M Q pc p)
    (hp : p.advance S s o = some (s', p')) :
    s' = s ∧ Tracks S M Q pc p' ∨
      ∃ i pc', M.step pc s i = some (s', pc') ∧ Tracks S M Q pc' p' := by
  cases p with
  | ret a => exact nomatch hp
  | call c k =>
    obtain ⟨r, hr, hnext⟩ := Option.map_eq_some_iff.mp hp
    obtain ⟨rfl, rfl⟩ := Prod.mk.inj hnext
    exact h s o r hr

/-- Where a program has ended. -/
theorem of_hasEnded (h : Tracks S M Q pc p) (hp : p.hasEnded = true) : ∃ a, Q a pc := by
  cases p with
  | ret a => exact ⟨a, h⟩
  | call c k => exact nomatch hp

end Tracks

end Prog

end Foundations
