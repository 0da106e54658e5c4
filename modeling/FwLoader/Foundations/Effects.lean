import Mathlib.Data.Nat.Notation

/-!
# Programs over an interface of external calls

A program that drives a device is a tree of calls: `Prog E α` makes calls of the interface `E` and
ends with an `α`. What the calls answer is not part of the program. A `Handler` answers them from a
state of its own; an `Oracle` is a handler without state. `run` and `trace` give the result of a
program under a handler and the calls it made, with their answers.

`eval_eq_of_agree` compares two oracles that differ only on calls that are not made. `times` is a
`for` loop and `loop` a `while` loop cut off after a number of rounds. The rules of `loop` carry over
to it what is known of one round: `loop_returns` (a measure that drops), `run_loop_consume` (rounds
that use up a list) and `loop_sim` (two loops whose bodies stay in step). `rounds` are the states at
which the rounds of a loop begin.
-/

namespace Foundations

/-- An interface: its calls and, for each call, the type of its answer. -/
structure Interface where
  Call : Type
  Answer : Call → Type

/-- A program that makes calls of the interface `E` and ends with an `α`. -/
inductive Prog (E : Interface) (α : Type) : Type
  | ret (a : α)
  | call (c : E.Call) (k : E.Answer c → Prog E α)

/-- What the environment of a program does: it answers each call from its state `σ` and moves on. -/
structure Handler (E : Interface) (σ : Type) where
  answer : σ → (c : E.Call) → E.Answer c
  next : σ → E.Call → σ

/-- An environment whose answers do not change. -/
abbrev Oracle (E : Interface) := (c : E.Call) → E.Answer c

/-- A call together with the answer it got. -/
structure Event (E : Interface) where
  call : E.Call
  answer : E.Answer call

namespace Prog

variable {E E' : Interface} {α β γ σ τ : Type}

/-- Run the first program, then the one its result selects. -/
protected def bind : Prog E α → (α → Prog E β) → Prog E β
  | ret a, f => f a
  | call c k, f => call c fun r => (k r).bind f

instance : Monad (Prog E) where
  pure := ret
  bind := Prog.bind

/-- Make one call and return its answer. -/
def perform (c : E.Call) : Prog E (E.Answer c) := call c ret

/-! ## Running a program -/

/-- The result of a program and the state it leaves the handler in. -/
def run (H : Handler E σ) : Prog E α → σ → α × σ
  | ret a, s => (a, s)
  | call c k, s => (k (H.answer s c)).run H (H.next s c)

/-- The calls a program makes, in order, with their answers. -/
def trace (H : Handler E σ) : Prog E α → σ → List (Event E)
  | ret _, _ => []
  | call c k, s => ⟨c, H.answer s c⟩ :: (k (H.answer s c)).trace H (H.next s c)

section Run

variable (H : Handler E σ) (s : σ)

@[simp] theorem run_pure (a : α) : (pure a : Prog E α).run H s = (a, s) := rfl

@[simp] theorem trace_pure (a : α) : (pure a : Prog E α).trace H s = [] := rfl

theorem run_perform (c : E.Call) : (perform c).run H s = (H.answer s c, H.next s c) := rfl

@[simp] theorem run_bind (p : Prog E α) (f : α → Prog E β) :
    (p >>= f).run H s = (f (p.run H s).1).run H (p.run H s).2 := by
  induction p generalizing s with
  | ret a => rfl
  | call c k ih => exact ih _ _

@[simp] theorem trace_bind (p : Prog E α) (f : α → Prog E β) :
    (p >>= f).trace H s = p.trace H s ++ (f (p.run H s).1).trace H (p.run H s).2 := by
  induction p generalizing s with
  | ret a => rfl
  | call c k ih => exact congrArg (_ :: ·) (ih _ _)

@[simp] theorem run_ite (c : Prop) [Decidable c] (p q : Prog E α) :
    (if c then p else q).run H s = if c then p.run H s else q.run H s := by
  split <;> rfl

@[simp] theorem trace_ite (c : Prop) [Decidable c] (p q : Prog E α) :
    (if c then p else q).trace H s = if c then p.trace H s else q.trace H s := by
  split <;> rfl

end Run

/-! ## Oracles -/

/-- The result of a program whose calls an oracle answers. -/
def eval (O : Oracle E) : Prog E α → α
  | ret a => a
  | call c k => (k (O c)).eval O

/-- The calls a program makes of an oracle, in order. -/
def calls (O : Oracle E) : Prog E α → List E.Call
  | ret _ => []
  | call c k => c :: (k (O c)).calls O

section Eval

variable (O : Oracle E)

@[simp] theorem eval_pure (a : α) : (pure a : Prog E α).eval O = a := rfl

@[simp] theorem calls_pure (a : α) : (pure a : Prog E α).calls O = [] := rfl

@[simp] theorem eval_bind (p : Prog E α) (f : α → Prog E β) :
    (p >>= f).eval O = (f (p.eval O)).eval O := by
  induction p with
  | ret a => rfl
  | call c k ih => exact ih _

@[simp] theorem calls_bind (p : Prog E α) (f : α → Prog E β) :
    (p >>= f).calls O = p.calls O ++ (f (p.eval O)).calls O := by
  induction p with
  | ret a => rfl
  | call c k ih => exact congrArg (c :: ·) (ih _)

@[simp] theorem eval_ite (c : Prop) [Decidable c] (p q : Prog E α) :
    (if c then p else q).eval O = if c then p.eval O else q.eval O := by
  split <;> rfl

@[simp] theorem calls_ite (c : Prop) [Decidable c] (p q : Prog E α) :
    (if c then p else q).calls O = if c then p.calls O else q.calls O := by
  split <;> rfl

end Eval

/-- An oracle as a handler. -/
def handler (O : Oracle E) : Handler E Unit where
  answer _ c := O c
  next _ _ := ()

theorem run_handler (O : Oracle E) (p : Prog E α) (s : Unit) :
    p.run (handler O) s = (p.eval O, ()) := by
  induction p with
  | ret a => rfl
  | call c k ih => exact ih _

theorem calls_eq_map_trace (O : Oracle E) (p : Prog E α) (s : Unit) :
    p.calls O = (p.trace (handler O) s).map Event.call := by
  induction p with
  | ret a => rfl
  | call c k ih => exact congrArg (c :: ·) (ih _)

/-- Oracles that agree on the calls a program makes of the first give it the same result, through
the same calls. -/
theorem eval_eq_of_agree {O O' : Oracle E} (p : Prog E α) (h : ∀ c ∈ p.calls O, O c = O' c) :
    p.eval O = p.eval O' ∧ p.calls O = p.calls O' := by
  induction p with
  | ret a => exact ⟨rfl, rfl⟩
  | call c k ih =>
    have hc : O c = O' c := h c (by simp [calls])
    obtain ⟨h₁, h₂⟩ := ih (O c) fun d hd => h d (by simp [calls, hd])
    simp only [eval, calls]
    rw [← hc]
    exact ⟨h₁, congrArg _ h₂⟩

/-! ## Loops -/

/-- A `while` loop, at most `n` rounds of it: each round goes on with a new loop state or leaves the
loop with a result. `none` if the rounds are used up. -/
def loop (body : β → Prog E (β ⊕ γ)) : ℕ → β → Prog E (Option γ)
  | 0, _ => pure none
  | n + 1, b => body b >>= fun
    | .inl b' => loop body n b'
    | .inr c => pure (some c)

/-- Go on with `f`, unless `p` has left with a result. -/
def goOn (p : Prog E (α ⊕ γ)) (f : α → Prog E (β ⊕ γ)) : Prog E (β ⊕ γ) := p >>= fun
  | .inl a => f a
  | .inr c => pure (.inr c)

/-- A `for` loop of `n` rounds, each of which may leave it with a result. -/
def times (body : β → Prog E (β ⊕ γ)) : ℕ → β → Prog E (β ⊕ γ)
  | 0, b => pure (.inl b)
  | n + 1, b => (body b).goOn (times body n)

section Loop

variable {body : β → Prog E (β ⊕ γ)} {n : ℕ} {b b' : β} {c : γ}

/-- A round that goes on. -/
theorem run_loop_inl {H : Handler E σ} {s s' : σ} (h : (body b).run H s = (.inl b', s')) :
    (loop body (n + 1) b).run H s = (loop body n b').run H s' := by
  simp only [loop, run_bind, h]

/-- A round that leaves the loop. -/
theorem run_loop_inr {H : Handler E σ} {s s' : σ} (h : (body b).run H s = (.inr c, s')) :
    (loop body (n + 1) b).run H s = (some c, s') := by
  simp only [loop, run_bind, h, run_pure]

theorem trace_loop_inl {H : Handler E σ} {s s' : σ} (h : (body b).run H s = (.inl b', s')) :
    (loop body (n + 1) b).trace H s = (body b).trace H s ++ (loop body n b').trace H s' := by
  simp only [loop, trace_bind, h]

theorem trace_loop_inr {H : Handler E σ} {s s' : σ} (h : (body b).run H s = (.inr c, s')) :
    (loop body (n + 1) b).trace H s = (body b).trace H s := by
  simp only [loop, trace_bind, h, trace_pure, List.append_nil]

theorem eval_loop_inl {O : Oracle E} (h : (body b).eval O = .inl b') :
    (loop body (n + 1) b).eval O = (loop body n b').eval O := by
  simp only [loop, eval_bind, h]

theorem eval_loop_inr {O : Oracle E} (h : (body b).eval O = .inr c) :
    (loop body (n + 1) b).eval O = some c := by
  simp only [loop, eval_bind, h, eval_pure]

theorem calls_loop_inl {O : Oracle E} (h : (body b).eval O = .inl b') :
    (loop body (n + 1) b).calls O = (body b).calls O ++ (loop body n b').calls O := by
  simp only [loop, calls_bind, h]

theorem calls_loop_inr {O : Oracle E} (h : (body b).eval O = .inr c) :
    (loop body (n + 1) b).calls O = (body b).calls O := by
  simp only [loop, calls_bind, h, calls_pure, List.append_nil]

/-- What holds of the calls of every round holds of the calls of the loop. -/
theorem forall_mem_calls_loop {O : Oracle E} {P : E.Call → Prop}
    (h : ∀ b, ∀ c ∈ (body b).calls O, P c) : ∀ c ∈ (loop body n b).calls O, P c := by
  induction n generalizing b with
  | zero => exact fun c hc => absurd hc List.not_mem_nil
  | succ n ih =>
    intro c hc
    rw [loop, calls_bind] at hc
    rcases List.mem_append.mp hc with hc | hc
    · exact h b c hc
    · split at hc
      · exact ih c hc
      · exact absurd hc List.not_mem_nil

/-- A loop returns if a measure drops in each round that goes on and starts below the number of
rounds. -/
theorem loop_returns {O : Oracle E} (I : β → Prop) (m : β → ℕ)
    (hround : ∀ b b', I b → (body b).eval O = .inl b' → I b' ∧ m b' < m b)
    (hI : I b) (hn : m b < n) : ∃ c, (loop body n b).eval O = some c := by
  induction n generalizing b with
  | zero => exact absurd hn (Nat.not_lt_zero _)
  | succ n ih =>
    cases heval : (body b).eval O with
    | inl b' =>
      obtain ⟨hI', hm⟩ := hround b b' hI heval
      rw [eval_loop_inl heval]
      exact ih hI' (by omega)
    | inr c => exact ⟨c, eval_loop_inr heval⟩

/-- A loop that passes one element of a list in each round: what holds of the calls of a round holds
of all calls made until the list is used up. -/
theorem run_loop_consume {ι : Type} {H : Handler E σ} (I : β → σ → List ι → Prop)
    (P : Event E → Prop)
    (hround : ∀ b s x xs, I b s (x :: xs) → ∃ b' s', (body b).run H s = (.inl b', s') ∧
      I b' s' xs ∧ ∀ e ∈ (body b).trace H s, P e)
    {xs : List ι} {s : σ} (hI : I b s xs) :
    ∃ b' s' es, I b' s' [] ∧ (∀ e ∈ es, P e) ∧
      (loop body (xs.length + n) b).run H s = (loop body n b').run H s' ∧
      (loop body (xs.length + n) b).trace H s = es ++ (loop body n b').trace H s' := by
  induction xs generalizing b s with
  | nil => exact ⟨b, s, [], hI, by simp, by simp, by simp⟩
  | cons x xs ih =>
    obtain ⟨b₁, s₁, hrun, hI₁, hP⟩ := hround b s x xs hI
    obtain ⟨b', s', es, hI', hes, hrun', htrace'⟩ := ih hI₁
    have hn : (x :: xs).length + n = (xs.length + n) + 1 := by
      rw [List.length_cons]
      omega
    refine ⟨b', s', (body b).trace H s ++ es, hI', ?_, ?_, ?_⟩
    · intro e he
      exact (List.mem_append.mp he).elim (hP e) (hes e)
    · rw [hn, run_loop_inl hrun, hrun']
    · rw [hn, trace_loop_inl hrun, htrace', List.append_assoc]

/-- The same for a loop whose calls an oracle answers. -/
theorem eval_loop_consume {ι : Type} {O : Oracle E} (I : β → List ι → Prop) (P : E.Call → Prop)
    (hround : ∀ b x xs, I b (x :: xs) →
      ∃ b', (body b).eval O = .inl b' ∧ I b' xs ∧ ∀ c ∈ (body b).calls O, P c)
    {xs : List ι} (hI : I b xs) :
    ∃ b' cs, I b' [] ∧ (∀ c ∈ cs, P c) ∧
      (loop body (xs.length + n) b).eval O = (loop body n b').eval O ∧
      (loop body (xs.length + n) b).calls O = cs ++ (loop body n b').calls O := by
  have hround' : ∀ b (s : Unit) x xs, I b (x :: xs) → ∃ b' s',
      (body b).run (handler O) s = (.inl b', s') ∧ I b' xs ∧
        ∀ e ∈ (body b).trace (handler O) s, P e.call := by
    intro b s x xs h
    obtain ⟨b', heval, hI', hP⟩ := hround b x xs h
    refine ⟨b', (), by rw [run_handler, heval], hI', fun e he => hP e.call ?_⟩
    rw [calls_eq_map_trace]
    exact List.mem_map_of_mem he
  obtain ⟨b', s', es, hI', hes, hrun, htrace⟩ :=
    run_loop_consume (n := n) (fun b _ xs => I b xs) (fun e => P e.call) hround' (s := ()) hI
  refine ⟨b', es.map Event.call, hI', by simpa using hes, ?_, ?_⟩
  · rw [run_handler, run_handler] at hrun
    exact congrArg Prod.fst hrun
  · rw [calls_eq_map_trace, htrace, List.map_append, ← calls_eq_map_trace]

/-- Two loops over the same loop state come to the same result if their rounds do, as long as the
calls of the second one satisfy `P`. -/
theorem loop_sim {E' : Interface} {H : Handler E σ} {O : Oracle E'} {body' : β → Prog E' (β ⊕ γ)}
    (I : β → σ → Prop) (P : E'.Call → Prop)
    (hround : ∀ b s, I b s → (∀ c ∈ (body' b).calls O, P c) →
      ((body b).run H s).1 = (body' b).eval O ∧
        ∀ b', (body' b).eval O = .inl b' → I b' ((body b).run H s).2)
    {s : σ} (hI : I b s) (hP : ∀ c ∈ (loop body' n b).calls O, P c) :
    ((loop body n b).run H s).1 = (loop body' n b).eval O := by
  induction n generalizing b s with
  | zero => rfl
  | succ n ih =>
    have hcalls : ∀ c ∈ (body' b).calls O, P c := by
      intro c hc
      refine hP c ?_
      rw [loop, calls_bind]
      exact List.mem_append_left _ hc
    obtain ⟨heq, hnext⟩ := hround b s hI hcalls
    have hrun : (body b).run H s = ((body' b).eval O, ((body b).run H s).2) := by rw [← heq]
    cases heval : (body' b).eval O with
    | inl b' =>
      rw [heval] at hrun
      rw [calls_loop_inl heval] at hP
      rw [run_loop_inl hrun, eval_loop_inl heval]
      exact ih (hnext b' heval) fun c hc => hP c (List.mem_append_right _ hc)
    | inr c =>
      rw [heval] at hrun
      rw [run_loop_inr hrun, eval_loop_inr heval]

/-! ## The rounds of a loop -/

/-- The loop states at which the rounds begin, with the states of the handler there. -/
def rounds (body : β → Prog E (β ⊕ γ)) (H : Handler E σ) : ℕ → β → σ → List (β × σ)
  | 0, _, _ => []
  | n + 1, b, s => (b, s) :: match (body b).run H s with
    | (.inl b', s') => rounds body H n b' s'
    | (.inr _, _) => []

variable {H : Handler E σ} {s s' : σ}

theorem rounds_inl (h : (body b).run H s = (.inl b', s')) :
    rounds body H (n + 1) b s = (b, s) :: rounds body H n b' s' := by
  rw [rounds, h]

theorem rounds_inr (h : (body b).run H s = (.inr c, s')) :
    rounds body H (n + 1) b s = [(b, s)] := by
  rw [rounds, h]

/-- The loop makes the calls of its rounds. -/
theorem trace_loop_eq_flatMap_rounds :
    (loop body n b).trace H s =
      (rounds body H n b s).flatMap fun r => (body r.1).trace H r.2 := by
  induction n generalizing b s with
  | zero => rfl
  | succ n ih =>
    rcases hrun : (body b).run H s with ⟨b' | c, s'⟩
    · rw [trace_loop_inl hrun, rounds_inl hrun, List.flatMap_cons, ih]
    · rw [trace_loop_inr hrun, rounds_inr hrun, List.flatMap_singleton]

/-- What holds at first and is preserved by each round that goes on holds at every round. -/
theorem forall_mem_rounds {I : β → Prop} (hI : I b)
    (hround : ∀ b s b' s', I b → (body b).run H s = (.inl b', s') → I b') :
    ∀ r ∈ rounds body H n b s, I r.1 := by
  induction n generalizing b s with
  | zero => exact fun r hr => absurd hr List.not_mem_nil
  | succ n ih =>
    intro r hr
    rcases hrun : (body b).run H s with ⟨b' | c, s'⟩
    · rw [rounds_inl hrun, List.mem_cons] at hr
      rcases hr with rfl | hr
      · exact hI
      · exact ih (hround b s b' s' hI hrun) r hr
    · rw [rounds_inr hrun, List.mem_singleton] at hr
      rw [hr]
      exact hI

/-- A loop that takes fewer rounds than it is given returns. -/
theorem run_loop_of_length_rounds_lt (h : (rounds body H n b s).length < n) :
    ∃ c, ((loop body n b).run H s).1 = some c := by
  induction n generalizing b s with
  | zero => exact absurd h (Nat.not_lt_zero _)
  | succ n ih =>
    rcases hrun : (body b).run H s with ⟨b' | c, s'⟩
    · rw [rounds_inl hrun, List.length_cons, Nat.succ_lt_succ_iff] at h
      rw [run_loop_inl hrun]
      exact ih h
    · exact ⟨c, by rw [run_loop_inr hrun]⟩

end Loop

end Prog

end Foundations
