import Arboretum.Edit
import Arboretum.Proofs.Result

/-!
Edits that keep their state where they fail. Most edits check first and change afterwards; such an
edit refuses, or it leads where the changes behind its checks lead.
-/

namespace Arboretum.Edit

variable {σ α β : Type}

theorem apply_bind_eq_ok {edit : Edit σ α} {next : α → Edit σ β} {s t : σ} {b : β} :
    (edit >>= next).apply s = (.ok b, t) ↔
      ∃ a middle, edit.apply s = (.ok a, middle) ∧ (next a).apply middle = (.ok b, t) := by
  rw [apply_bind]
  rcases edit.apply s with ⟨_ | a, middle⟩
  · simp
  · constructor
    · intro h
      exact ⟨a, middle, rfl, h⟩
    · rintro ⟨_, _, ⟨⟩, h⟩
      exact h

def Refuses (edit : Edit σ α) (s : σ) : Prop := ∃ e, edit.apply s = (.error e, s)

/-- An edit that changes nothing where it fails, and otherwise reaches the goal. -/
def Leads (edit : Edit σ α) (s : σ) (goal : α → σ → Prop) : Prop :=
  edit.Refuses s ∨ ∃ a after, edit.apply s = (.ok a, after) ∧ goal a after

namespace Leads

variable {s : σ} {goal : β → σ → Prop}

theorem of_eq {edit : Edit σ β} {b : β} {after : σ} (h : edit.apply s = (.ok b, after))
    (hgoal : goal b after) : edit.Leads s goal :=
  .inr ⟨b, after, h, hgoal⟩

theorem goal_of_ok {edit : Edit σ β} {b : β} {after : σ} (h : edit.Leads s goal)
    (hok : edit.apply s = (.ok b, after)) : goal b after := by
  rcases h with ⟨e, he⟩ | ⟨_, _, hgoal, hb⟩
  · rw [he] at hok
    cases hok
  · rw [hgoal] at hok
    cases hok
    exact hb

theorem mono {weaker : β → σ → Prop} {edit : Edit σ β} (h : edit.Leads s goal)
    (hgoal : ∀ b after, goal b after → weaker b after) : edit.Leads s weaker := by
  rcases h with hrefused | ⟨b, after, hafter, hb⟩
  · exact .inl hrefused
  · exact .inr ⟨b, after, hafter, hgoal b after hb⟩

theorem and {edit : Edit σ β} {other : β → σ → Prop} (h : edit.Leads s goal)
    (h' : edit.Leads s other) : edit.Leads s fun b after => goal b after ∧ other b after := by
  rcases h with hrefused | ⟨b, after, hafter, hb⟩
  · exact .inl hrefused
  · exact .inr ⟨b, after, hafter, hb, h'.goal_of_ok hafter⟩

/-- What holds before an edit and wherever it leads holds of what it leaves behind. -/
theorem left {edit : Edit σ β} {p : σ → Prop} (h : edit.Leads s goal) (hs : p s)
    (hgoal : ∀ b after, goal b after → p after) : p (edit.apply s).2 := by
  rcases h with ⟨e, he⟩ | ⟨b, after, hafter, hb⟩
  · rw [he]
    exact hs
  · rw [hafter]
    exact hgoal b after hb

/-- The same of a sequence, when what follows keeps it from wherever its first part leads. -/
theorem left_bind {edit : Edit σ α} {next : α → Edit σ β} {goal : α → σ → Prop} {p : σ → Prop}
    (h : edit.Leads s goal) (hs : p s)
    (hnext : ∀ a middle, goal a middle → p ((next a).apply middle).2) :
    p ((edit >>= next).apply s).2 := by
  rw [apply_bind]
  rcases h with ⟨e, he⟩ | ⟨a, middle, hmiddle, ha⟩
  · rw [he]
    exact hs
  · rw [hmiddle]
    exact hnext a middle ha

/-- What follows an edit that has changed something must not fail any more. -/
theorem bind {edit : Edit σ α} {next : α → Edit σ β}
    (h : edit.Leads s fun a middle => ∃ b after,
      (next a).apply middle = (.ok b, after) ∧ goal b after) :
    (edit >>= next).Leads s goal := by
  rw [Leads, Refuses, apply_bind]
  rcases h with ⟨e, he⟩ | ⟨a, middle, ha, hnext⟩
  · rw [he]
    exact .inl ⟨e, rfl⟩
  · rw [ha]
    exact .inr hnext

/-- What follows a check may still fail, since the check has changed nothing. -/
theorem check_bind {check : Edit σ α} {next : α → Edit σ β}
    (h : check.Leads s fun a middle => middle = s ∧ (next a).Leads s goal) :
    (check >>= next).Leads s goal := by
  rw [Leads, Refuses, apply_bind]
  rcases h with ⟨e, he⟩ | ⟨a, _, ha, rfl, hnext⟩
  · rw [he]
    exact .inl ⟨e, rfl⟩
  · rw [ha]
    exact hnext

theorem get_bind {next : σ → Edit σ β} (h : (next s).Leads s goal) :
    ((get : Edit σ σ) >>= next).Leads s goal :=
  check_bind (.of_eq (apply_get s) ⟨rfl, h⟩)

theorem lift {r : Result β} (h : ∀ b, r = .ok b → goal b s) :
    (liftM r : Edit σ β).Leads s goal := by
  cases r with
  | error e => exact .inl ⟨e, rfl⟩
  | ok b => exact .of_eq (apply_lift (.ok b) s) (h b rfl)

theorem lift_bind {r : Result α} {next : α → Edit σ β}
    (h : ∀ a, r = .ok a → (next a).Leads s goal) :
    ((liftM r : Edit σ α) >>= next).Leads s goal :=
  check_bind (.lift fun a ha => ⟨rfl, h a ha⟩)

theorem require {p : Prop} {_ : Decidable p} {e : Error} {goal : Unit → σ → Prop}
    (h : p → goal () s) : (liftM (Arboretum.require p e) : Edit σ Unit).Leads s goal :=
  lift fun _ hp => h (require_eq_ok.mp hp)

theorem require_bind {p : Prop} {_ : Decidable p} {e : Error} {next : Unit → Edit σ β}
    (h : p → (next ()).Leads s goal) :
    ((liftM (Arboretum.require p e) : Edit σ Unit) >>= next).Leads s goal :=
  check_bind (.require fun hp => ⟨rfl, h hp⟩)

end Leads

def Succeeds (edit : Edit σ α) (s : σ) : Prop := ∃ a after, edit.apply s = (.ok a, after)

namespace Succeeds

variable {s : σ} {next : α → Edit σ β}

theorem of_fst {edit : Edit σ α} {a : α} (h : (edit.apply s).1 = .ok a) : edit.Succeeds s :=
  ⟨a, _, Prod.ext h rfl⟩

theorem reaches {edit : Edit σ α} {goal : α → σ → Prop} (h : edit.Succeeds s)
    (hleads : edit.Leads s goal) : ∃ a after, edit.apply s = (.ok a, after) ∧ goal a after := by
  obtain ⟨a, after, hok⟩ := h
  exact ⟨a, after, hok, hleads.goal_of_ok hok⟩

theorem bind {edit : Edit σ α} (h : edit.Succeeds s)
    (hnext : ∀ a after, edit.apply s = (.ok a, after) → (next a).Succeeds after) :
    (edit >>= next).Succeeds s := by
  obtain ⟨a, middle, ha⟩ := h
  obtain ⟨b, after, hb⟩ := hnext a middle ha
  exact ⟨b, after, apply_bind_eq_ok.mpr ⟨a, middle, ha, hb⟩⟩

theorem get_bind {next : σ → Edit σ β} (h : (next s).Succeeds s) :
    ((get : Edit σ σ) >>= next).Succeeds s := by
  obtain ⟨b, after, hb⟩ := h
  exact ⟨b, after, apply_bind_eq_ok.mpr ⟨s, s, rfl, hb⟩⟩

theorem lift_bind {r : Result α} {a : α} (hr : r = .ok a) (h : (next a).Succeeds s) :
    ((liftM r : Edit σ α) >>= next).Succeeds s := by
  obtain ⟨b, after, hb⟩ := h
  exact ⟨b, after, apply_bind_eq_ok.mpr ⟨a, s, by rw [hr]; rfl, hb⟩⟩

theorem require_bind {p : Prop} {_ : Decidable p} {e : Error} {next : Unit → Edit σ β} (hp : p)
    (h : (next ()).Succeeds s) :
    ((liftM (Arboretum.require p e) : Edit σ Unit) >>= next).Succeeds s :=
  lift_bind (require_eq_ok.mpr hp) h

end Succeeds

end Arboretum.Edit
