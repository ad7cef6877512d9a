import Arboretum.Error

/-!
Computations that change a state and may fail. A failure does not undo anything: what was changed
before it stays changed. That a failed edit leaves its state alone is therefore a fact about the
edit and not about the way it is run.
-/

namespace Arboretum

/-- A computation that changes a state in `σ` and ends with a value in `α` or with an error. -/
abbrev Edit (σ α : Type) := ExceptT Error (StateM σ) α

namespace Edit

variable {σ α β : Type}

/-- Run an edit: how it ends, and the state that it leaves behind. -/
def apply (edit : Edit σ α) (state : σ) : Result α × σ := (ExceptT.run edit).run state

@[simp] theorem apply_pure (a : α) (s : σ) : apply (pure a) s = (.ok a, s) := rfl

@[simp] theorem apply_throw (e : Error) (s : σ) : apply (throw e : Edit σ α) s = (.error e, s) :=
  rfl

@[simp] theorem apply_lift (r : Result α) (s : σ) : apply (liftM r : Edit σ α) s = (r, s) := rfl

@[simp] theorem apply_get (s : σ) : apply (get : Edit σ σ) s = (.ok s, s) := rfl

@[simp] theorem apply_set (s t : σ) : apply (set t : Edit σ PUnit) s = (.ok (), t) := rfl

@[simp] theorem apply_modify (f : σ → σ) (s : σ) :
    apply (modify f : Edit σ PUnit) s = (.ok (), f s) := rfl

/-- The second part of a sequence runs on what the first one leaves, unless that one fails. -/
theorem apply_bind (edit : Edit σ α) (next : α → Edit σ β) (s : σ) :
    apply (edit >>= next) s =
      match edit.apply s with
      | (.ok a, t) => (next a).apply t
      | (.error e, t) => (.error e, t) := by
  show (match edit.apply s with
    | (r, t) => (ExceptT.bindCont next r : StateM σ (Except Error β)) t) = _
  rcases edit.apply s with ⟨_ | _, _⟩ <;> rfl

end Edit

end Arboretum
