import FwLoader.Foundations.Contracts
import Mathlib.Data.List.Infix

/-!
# Programs that act out a script

A program can be watched through some of its calls. `Acts` says that one sees the same script of it
in every environment. A program that may leave early is told apart by its result: `ActsUntil` says
that it acts out the script if it goes on, and that otherwise it leaves the script behind a call at
which that is allowed, and closes with calls of its own. `times` and `loop` act out the script of
their body over and over.
-/

namespace Foundations

variable {E : Interface} {α β γ ω : Type}

/-- What is seen of a script `w`: all of it or, where it has been left, a part that ends at `stop`
and then `close`. -/
def Played (stop : ω) (close w : List ω) (left : Bool) (v : List ω) : Prop :=
  if left then ∃ u, u ++ [stop] <+: w ∧ v = u ++ stop :: close else v = w

namespace Played

variable {stop : ω} {close w v : List ω} {left : Bool}

/-- What has been left does not go on. -/
theorem append_right (h : Played stop close w true v) (w' : List ω) :
    Played stop close (w ++ w') true v := by
  obtain ⟨u, hu, rfl⟩ := h
  exact ⟨u, hu.trans (List.prefix_append w w'), rfl⟩

/-- A script that has been acted out before. -/
theorem append_left (h : Played stop close w left v) (w' : List ω) :
    Played stop close (w' ++ w) left (w' ++ v) := by
  cases left with
  | false => exact congrArg (w' ++ ·) h
  | true =>
    obtain ⟨u, hu, rfl⟩ := h
    refine ⟨w' ++ u, ?_, (List.append_assoc _ _ _).symm⟩
    rw [List.append_assoc]
    exact (List.prefix_append_right_inj w').mpr hu

end Played

namespace Prog

/-- What is seen of the calls of a program. -/
def seen {σ : Type} (f : Event E → Option ω) (H : Handler E σ) (p : Prog E α) (s : σ) : List ω :=
  (p.trace H s).filterMap f

/-- In every environment the script `w` is seen of the program. -/
def Acts (f : Event E → Option ω) (w : List ω) (p : Prog E α) : Prop :=
  ∀ (σ : Type) (H : Handler E σ) (s : σ), p.seen f H s = w

/-- In every environment the script `w` is seen of the program, unless it leaves. -/
def ActsUntil (f : Event E → Option ω) (stop : ω) (close w : List ω) (p : Prog E (α ⊕ γ)) : Prop :=
  ∀ (σ : Type) (H : Handler E σ) (s : σ),
    Played stop close w (p.run H s).1.isRight (p.seen f H s)

section

variable {σ : Type} {f : Event E → Option ω} {H : Handler E σ} {s : σ}

@[simp] theorem seen_pure (a : α) : (pure a : Prog E α).seen f H s = [] := rfl

@[simp] theorem seen_bind (p : Prog E α) (k : α → Prog E β) :
    (p >>= k).seen f H s = p.seen f H s ++ (k (p.run H s).1).seen f H (p.run H s).2 := by
  rw [seen, trace_bind, List.filterMap_append]
  rfl

@[simp] theorem seen_ite (c : Prop) [Decidable c] (p q : Prog E α) :
    (if c then p else q).seen f H s = if c then p.seen f H s else q.seen f H s := by
  split <;> rfl

end

variable {f : Event E → Option ω} {w w' : List ω}

namespace Acts

variable {p : Prog E α}

theorem pure (a : α) : Acts f [] (pure a : Prog E α) := fun _ _ _ => rfl

/-- A call that is not seen. -/
theorem perform_unseen {c : E.Call} (h : ∀ r, f ⟨c, r⟩ = none) : Acts f [] (perform c) := by
  intro σ H s
  show List.filterMap f [⟨c, H.answer s c⟩] = []
  rw [List.filterMap_cons_none (h _), List.filterMap_nil]

/-- A call that is seen. -/
theorem perform_seen {c : E.Call} {o : ω} (h : ∀ r, f ⟨c, r⟩ = some o) :
    Acts f [o] (perform c) := by
  intro σ H s
  show List.filterMap f [⟨c, H.answer s c⟩] = [o]
  rw [List.filterMap_cons_some (h _), List.filterMap_nil]

/-- A program of which nothing is seen. -/
theorem of_onlyCalls (h : p.OnlyCalls fun c => ∀ r, f ⟨c, r⟩ = none) : Acts f [] p := by
  intro σ H s
  apply List.filterMap_eq_nil_iff.mpr
  rintro ⟨c, r⟩ he
  exact h.trace H s _ he r

theorem bind {k : α → Prog E β} (hp : Acts f w p) (hk : ∀ a, Acts f w' (k a)) :
    Acts f (w ++ w') (p >>= k) := by
  intro σ H s
  rw [seen_bind, hp, hk]

theorem ite {c : Prop} [Decidable c] {p' : Prog E α} (hp : Acts f w p) (hp' : Acts f w p') :
    Acts f w (if c then p else p') := by
  split
  · exact hp
  · exact hp'

end Acts

namespace ActsUntil

variable {stop : ω} {close : List ω}

/-- What comes first is not left. -/
theorem bind {p : Prog E α} {k : α → Prog E (β ⊕ γ)} (hp : Acts f w p)
    (hk : ∀ a, ActsUntil f stop close w' (k a)) :
    ActsUntil f stop close (w ++ w') (p >>= k) := by
  intro σ H s
  rw [run_bind, seen_bind, hp]
  exact (hk _ σ H _).append_left w

theorem goOn {p : Prog E (α ⊕ γ)} {k : α → Prog E (β ⊕ γ)} (hp : ActsUntil f stop close w p)
    (hk : ∀ a, ActsUntil f stop close w' (k a)) :
    ActsUntil f stop close (w ++ w') (p.goOn k) := by
  intro σ H s
  have hfirst := hp σ H s
  rw [Prog.goOn, run_bind, seen_bind]
  cases hres : (p.run H s).1 with
  | inl a =>
    rw [hres] at hfirst
    have hseen : p.seen f H s = w := hfirst
    rw [hseen]
    exact (hk a σ H _).append_left w
  | inr c =>
    rw [hres] at hfirst
    simp only [seen_pure, List.append_nil]
    exact hfirst.append_right w'

section

variable {body : β → Prog E (β ⊕ γ)}

/-- A `for` loop acts out the script of its body once in each round. -/
theorem times (hbody : ∀ b, ActsUntil f stop close w (body b)) (n : ℕ) (b : β) :
    ActsUntil f stop close (List.replicate n w).flatten (times body n b) := by
  induction n generalizing b with
  | zero => exact fun _ _ _ => rfl
  | succ n ih =>
    rw [List.replicate_succ, List.flatten_cons]
    exact (hbody b).goOn ih

/-- So does a `while` loop until it leaves. -/
theorem loop (hbody : ∀ b, ActsUntil f stop close w (body b)) {σ : Type} (H : Handler E σ) (s : σ)
    (n : ℕ) (b : β) :
    Played stop close (List.replicate n w).flatten ((loop body n b).run H s).1.isSome
      ((loop body n b).seen f H s) := by
  induction n generalizing b s with
  | zero => rfl
  | succ n ih =>
    have hfirst := hbody b σ H s
    rw [List.replicate_succ, List.flatten_cons, Prog.loop, run_bind, seen_bind]
    cases hres : ((body b).run H s).1 with
    | inl b' =>
      rw [hres] at hfirst
      have hseen : (body b).seen f H s = w := hfirst
      rw [hseen]
      exact (ih _ b').append_left w
    | inr c =>
      rw [hres] at hfirst
      simp only [seen_pure, List.append_nil]
      exact hfirst.append_right _

end

end ActsUntil

end Prog

end Foundations
