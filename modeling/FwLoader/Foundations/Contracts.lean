import FwLoader.Foundations.Effects

/-!
# Contracts that hold in every environment

`Ensures Q p` says that `p` ends with a result that satisfies `Q`, whatever its calls answer, and
`OnlyCalls P p` that it makes no other calls than those that satisfy `P`. `Relates Q p` compares the
result with the calls that were made and their answers. All of them are proved along the text of the
program, without an environment, and carried over to the runs in one.
-/

namespace Foundations.Prog

variable {E : Interface} {α β σ : Type}

/-- Whatever the calls answer, the result satisfies `Q`. -/
def Ensures (Q : α → Prop) : Prog E α → Prop
  | ret a => Q a
  | call _ k => ∀ r, (k r).Ensures Q

/-- Whatever the calls answer, each of them satisfies `P`. -/
def OnlyCalls (P : E.Call → Prop) : Prog E α → Prop
  | ret _ => True
  | call c k => P c ∧ ∀ r, (k r).OnlyCalls P

/-- Whatever the calls answer, `Q` holds of the calls with these answers and the result. -/
def Relates (Q : List (Event E) → α → Prop) : Prog E α → Prop
  | ret a => Q [] a
  | call c k => ∀ r, (k r).Relates fun es a => Q (⟨c, r⟩ :: es) a

section

variable {P : E.Call → Prop} {Q : α → Prop} {p q : Prog E α}

theorem onlyCalls_pure (a : α) : (pure a : Prog E α).OnlyCalls P := trivial

theorem ensures_perform_bind {c : E.Call} {f : E.Answer c → Prog E α}
    (h : ∀ r, (f r).Ensures Q) : (perform c >>= f).Ensures Q := h

theorem onlyCalls_perform_bind {c : E.Call} {f : E.Answer c → Prog E α} (hc : P c)
    (h : ∀ r, (f r).OnlyCalls P) : (perform c >>= f).OnlyCalls P := ⟨hc, h⟩

theorem ensures_true (p : Prog E α) : p.Ensures fun _ => True := by
  induction p with
  | ret a => trivial
  | call c k ih => exact ih

theorem ensures_ite {c : Prop} [Decidable c] (hp : c → p.Ensures Q) (hq : ¬c → q.Ensures Q) :
    (if c then p else q).Ensures Q := by
  split
  · exact hp ‹_›
  · exact hq ‹_›

theorem onlyCalls_ite {c : Prop} [Decidable c] (hp : c → p.OnlyCalls P)
    (hq : ¬c → q.OnlyCalls P) : (if c then p else q).OnlyCalls P := by
  split
  · exact hp ‹_›
  · exact hq ‹_›

/-- What follows a program may rely on what the program ensures. -/
theorem Ensures.bind {R : β → Prop} {f : α → Prog E β} (h : p.Ensures Q)
    (hf : ∀ a, Q a → (f a).Ensures R) : (p >>= f).Ensures R := by
  induction p with
  | ret a => exact hf a h
  | call c k ih => exact fun r => ih r (h r)

theorem OnlyCalls.bind {f : α → Prog E β} (h : p.OnlyCalls P) (hf : ∀ a, (f a).OnlyCalls P) :
    (p >>= f).OnlyCalls P := by
  induction p with
  | ret a => exact hf a
  | call c k ih => exact ⟨h.1, fun r => ih r (h.2 r)⟩

/-- A loop makes the calls that its rounds make. -/
theorem OnlyCalls.times {γ : Type} {body : β → Prog E (β ⊕ γ)} (h : ∀ b, (body b).OnlyCalls P)
    (n : ℕ) (b : β) : (times body n b).OnlyCalls P := by
  induction n generalizing b with
  | zero => trivial
  | succ n ih =>
    apply (h b).bind
    intro res
    cases res with
    | inl b' => exact ih b'
    | inr c => trivial

theorem OnlyCalls.loop {γ : Type} {body : β → Prog E (β ⊕ γ)} (h : ∀ b, (body b).OnlyCalls P)
    (n : ℕ) (b : β) : (loop body n b).OnlyCalls P := by
  induction n generalizing b with
  | zero => trivial
  | succ n ih =>
    apply (h b).bind
    intro res
    cases res with
    | inl b' => exact ih b'
    | inr c => trivial

theorem OnlyCalls.mono {P' : E.Call → Prop} (h : p.OnlyCalls P) (hP : ∀ c, P c → P' c) :
    p.OnlyCalls P' := by
  induction p with
  | ret a => trivial
  | call c k ih => exact ⟨hP c h.1, fun r => ih r (h.2 r)⟩

theorem onlyCalls_true (p : Prog E α) : p.OnlyCalls fun _ => True := by
  induction p with
  | ret a => trivial
  | call c k ih => exact ⟨trivial, ih⟩

/-- What follows a program is allowed its calls only for the results that the program ensures. -/
theorem OnlyCalls.bind_ensures {f : α → Prog E β} (h : p.OnlyCalls P) (he : p.Ensures Q)
    (hf : ∀ a, Q a → (f a).OnlyCalls P) : (p >>= f).OnlyCalls P := by
  induction p with
  | ret a => exact hf a he
  | call c k ih => exact ⟨h.1, fun r => ih r (h.2 r) (he r)⟩

/-- What a program ensures holds of its result in each environment. -/
theorem Ensures.run (h : p.Ensures Q) (H : Handler E σ) (s : σ) : Q (p.run H s).1 := by
  induction p generalizing s with
  | ret a => exact h
  | call c k ih => exact ih _ (h _) _

/-- The calls that a program makes in an environment are among those it is allowed. -/
theorem OnlyCalls.trace (h : p.OnlyCalls P) (H : Handler E σ) (s : σ) :
    ∀ e ∈ p.trace H s, P e.call := by
  induction p generalizing s with
  | ret a => exact fun e he => absurd he List.not_mem_nil
  | call c k ih =>
    intro e he
    rcases List.mem_cons.mp he with rfl | he
    · exact h.1
    · exact ih _ (h.2 _) _ e he

end

/-! ## Results and calls together -/

section

variable {Q Q' : List (Event E) → α → Prop} {p q : Prog E α}

theorem relates_pure {a : α} (h : Q [] a) : (pure a : Prog E α).Relates Q := h

theorem relates_perform_bind {c : E.Call} {f : E.Answer c → Prog E α}
    (h : ∀ r, (f r).Relates fun es a => Q (⟨c, r⟩ :: es) a) : (perform c >>= f).Relates Q := h

theorem Relates.mono (h : p.Relates Q) (hQ : ∀ es a, Q es a → Q' es a) : p.Relates Q' := by
  induction p generalizing Q Q' with
  | ret a => exact hQ [] a h
  | call c k ih => exact fun r => ih r (h r) fun es a => hQ (⟨c, r⟩ :: es) a

theorem relates_true (p : Prog E α) : p.Relates fun _ _ => True := by
  induction p with
  | ret a => trivial
  | call c k ih => exact ih

theorem relates_ite {c : Prop} [Decidable c] (hp : c → p.Relates Q) (hq : ¬c → q.Relates Q) :
    (if c then p else q).Relates Q := by
  split
  · exact hp ‹_›
  · exact hq ‹_›

/-- What follows a program goes on with its calls. -/
theorem Relates.bind {R : List (Event E) → β → Prop} {f : α → Prog E β} (h : p.Relates Q)
    (hf : ∀ es a, Q es a → (f a).Relates fun es' b => R (es ++ es') b) : (p >>= f).Relates R := by
  induction p generalizing Q R with
  | ret a => exact hf [] a h
  | call c k ih => exact fun r => ih r (h r) fun es a hQ => hf (⟨c, r⟩ :: es) a hQ

/-- In each environment the calls of a run and its result are related. -/
theorem Relates.run (h : p.Relates Q) (H : Handler E σ) (s : σ) :
    Q (p.trace H s) (p.run H s).1 := by
  induction p generalizing Q s with
  | ret a => exact h
  | call c k ih => exact ih _ (h _) _

/-- Runs with the same calls and answers come to the same result. -/
theorem run_eq_of_trace_eq {τ : Type} {H : Handler E σ} {H' : Handler E τ} {s : σ} {s' : τ}
    (h : p.trace H s = p.trace H' s') : (p.run H s).1 = (p.run H' s').1 := by
  induction p generalizing s s' with
  | ret a => rfl
  | call c k ih =>
    obtain ⟨hevent, htrace⟩ := List.cons.inj h
    have hanswer : H.answer s c = H'.answer s' c := eq_of_heq (Event.mk.inj hevent).2
    rw [← hanswer] at htrace
    show ((k _).run H _).1 = ((k _).run H' _).1
    rw [← hanswer]
    exact ih _ htrace

/-- A loop whose invariant relates all calls so far to the loop state. -/
theorem relates_loop {γ : Type} {body : β → Prog E (β ⊕ γ)} {I : List (Event E) → β → Prop}
    {R : List (Event E) → Option γ → Prop}
    (hround : ∀ es b, I es b → (body b).Relates fun es' =>
      Sum.elim (I (es ++ es')) fun c => R (es ++ es') (some c))
    (hnone : ∀ es, R es none) {n : ℕ} {es : List (Event E)} {b : β} (hI : I es b) :
    (loop body n b).Relates fun es' res => R (es ++ es') res := by
  induction n generalizing es b with
  | zero => exact relates_pure (hnone _)
  | succ n ih =>
    apply (hround es b hI).bind
    intro es₁ res hres
    cases res with
    | inl b' =>
      apply (ih hres).mono
      intro es₂ res' h
      rwa [List.append_assoc] at h
    | inr c => exact relates_pure (by rwa [List.append_nil])

end

end Foundations.Prog
