import FwLoader.Foundations.Contracts

/-!
# Programs over two interfaces

`E.sum E'` offers the calls of two interfaces. A program over one of them is also a program over
both; `run_inl`, `run_inr` and `trace_inl` say that it runs as it did. `interpret` puts a program
over the second interface in place of each call of the first one, and `run_interpret` says that this
runs as the first program does in the environment that these programs make up.
-/

namespace Foundations

variable {E E' : Interface} {α σ : Type}

/-- The calls of both interfaces. -/
abbrev Interface.sum (E E' : Interface) : Interface where
  Call := E.Call ⊕ E'.Call
  Answer
    | .inl c => E.Answer c
    | .inr c => E'.Answer c

/-- The part of an environment that answers the calls of the first interface. -/
def Handler.left (H : Handler (E.sum E') σ) : Handler E σ where
  answer s c := H.answer s (Sum.inl c)
  next s c := H.next s (Sum.inl c)

/-- The part of an environment that answers the calls of the second interface. -/
def Handler.right (H : Handler (E.sum E') σ) : Handler E' σ where
  answer s c := H.answer s (Sum.inr c)
  next s c := H.next s (Sum.inr c)

/-- Two interfaces to one environment. -/
def Handler.both (H : Handler E σ) (H' : Handler E' σ) : Handler (E.sum E') σ where
  answer s
    | .inl c => H.answer s c
    | .inr c => H'.answer s c
  next s
    | .inl c => H.next s c
    | .inr c => H'.next s c

@[simp] theorem Handler.left_both (H : Handler E σ) (H' : Handler E' σ) : (H.both H').left = H :=
  rfl

@[simp] theorem Handler.right_both (H : Handler E σ) (H' : Handler E' σ) : (H.both H').right = H' :=
  rfl

/-- An environment with a second interface that has no state. -/
def Handler.sum (H : Handler E σ) (O : Oracle E') : Handler (E.sum E') σ where
  answer s
    | .inl c => H.answer s c
    | .inr c => O c
  next s
    | .inl c => H.next s c
    | .inr _ => s

@[simp] theorem Handler.left_sum (H : Handler E σ) (O : Oracle E') : (H.sum O).left = H := rfl

namespace Event

/-- An event of the first interface. -/
def inl (e : Event E) : Event (E.sum E') := ⟨Sum.inl e.call, e.answer⟩

/-- The event of the first interface that this is, if it is one. -/
def left? : Event (E.sum E') → Option (Event E)
  | ⟨.inl c, r⟩ => some ⟨c, r⟩
  | ⟨.inr _, _⟩ => none

theorem inl_injective : Function.Injective (inl : Event E → Event (E.sum E')) := by
  rintro ⟨c, r⟩ ⟨c', r'⟩ h
  cases h
  rfl

theorem filterMap_left?_map_inl (es : List (Event E)) :
    (es.map inl : List (Event (E.sum E'))).filterMap left? = es := by
  induction es with
  | nil => rfl
  | cons e es ih => exact congrArg (e :: ·) ih

end Event

namespace Prog

/-- A program that leaves the second interface alone. -/
def inl : Prog E α → Prog (E.sum E') α
  | ret a => ret a
  | call c k => call (E := E.sum E') (Sum.inl c) fun r => (k r).inl

/-- A program that leaves the first interface alone. -/
def inr : Prog E' α → Prog (E.sum E') α
  | ret a => ret a
  | call c k => call (E := E.sum E') (Sum.inr c) fun r => (k r).inr

@[simp] theorem run_inl (p : Prog E α) (H : Handler (E.sum E') σ) (s : σ) :
    p.inl.run H s = p.run H.left s := by
  induction p generalizing s with
  | ret a => rfl
  | call c k ih => exact ih _ _

@[simp] theorem run_inr (p : Prog E' α) (H : Handler (E.sum E') σ) (s : σ) :
    p.inr.run H s = p.run H.right s := by
  induction p generalizing s with
  | ret a => rfl
  | call c k ih => exact ih _ _

@[simp] theorem trace_inl (p : Prog E α) (H : Handler (E.sum E') σ) (s : σ) :
    p.inl.trace H s = (p.trace H.left s).map Event.inl := by
  induction p generalizing s with
  | ret a => rfl
  | call c k ih => exact congrArg (_ :: ·) (ih _ _)

@[simp] theorem eval_inl (p : Prog E α) (O : Oracle (E.sum E')) :
    p.inl.eval O = p.eval fun c => O (Sum.inl c) := by
  induction p with
  | ret a => rfl
  | call c k ih => exact ih _

theorem OnlyCalls.inl {P : (E.sum E').Call → Prop} {p : Prog E α}
    (h : p.OnlyCalls fun c => P (Sum.inl c)) : p.inl.OnlyCalls P := by
  induction p with
  | ret a => trivial
  | call c k ih => exact ⟨h.1, fun r => ih r (h.2 r)⟩

theorem Ensures.inl {Q : α → Prop} {p : Prog E α} (h : p.Ensures Q) :
    (p.inl : Prog (E.sum E') α).Ensures Q := by
  induction p with
  | ret a => exact h
  | call c k ih => exact fun r => ih r (h r)

/-- What relates the calls of a program to its result relates the calls of the first interface. -/
theorem Relates.inl {Q : List (Event E) → α → Prop} {p : Prog E α} (h : p.Relates Q) :
    (p.inl : Prog (E.sum E') α).Relates fun es a => Q (es.filterMap Event.left?) a := by
  induction p generalizing Q with
  | ret a => exact h
  | call c k ih => exact fun r => ih r (h r)

/-! ## Calls that programs carry out -/

/-- The program that runs another one in place of each call. -/
def interpret (f : (c : E.Call) → Prog E' (E.Answer c)) : Prog E α → Prog E' α
  | ret a => ret a
  | call c k => f c >>= fun r => (k r).interpret f

end Prog

/-- The environment that programs in place of the calls make up. -/
def Handler.through (H : Handler E' σ) (f : (c : E.Call) → Prog E' (E.Answer c)) :
    Handler E σ where
  answer s c := ((f c).run H s).1
  next s c := ((f c).run H s).2

namespace Prog

variable {f : (c : E.Call) → Prog E' (E.Answer c)} {H : Handler E' σ}

theorem run_interpret (p : Prog E α) (s : σ) :
    (p.interpret f).run H s = p.run (H.through f) s := by
  induction p generalizing s with
  | ret a => rfl
  | call c k ih =>
    rw [interpret, run_bind]
    exact ih _ _

end Prog

end Foundations
