namespace Attestation

/-- Computations that put questions to what is around them and go on from the answers. `R q` is the
type of the answers to the question `q`. -/
inductive Dialogue {Q : Type} (R : Q → Type) (α : Type) where
  | done (a : α)
  | ask (q : Q) (next : R q → Dialogue R α)

namespace Dialogue

variable {Q : Type} {R : Q → Type} {α β : Type}

def bind : Dialogue R α → (α → Dialogue R β) → Dialogue R β
  | .done a, f => f a
  | .ask q next, f => .ask q fun r => (next r).bind f

instance : Monad (Dialogue R) where
  pure := .done
  bind := bind

def question (q : Q) : Dialogue R (R q) := .ask q .done

@[simp] theorem pure_eq (a : α) : (pure a : Dialogue R α) = .done a := rfl

@[simp] theorem done_bind (a : α) (f : α → Dialogue R β) : Dialogue.done a >>= f = f a := rfl

@[simp] theorem ask_bind (q : Q) (next : R q → Dialogue R α) (f : α → Dialogue R β) :
    Dialogue.ask q next >>= f = .ask q fun r => next r >>= f := rfl

def run {m : Type → Type} [Monad m] (answer : (q : Q) → m (R q)) : Dialogue R α → m α
  | .done a => pure a
  | .ask q next => do (next (← answer q)).run answer

end Dialogue

end Attestation
