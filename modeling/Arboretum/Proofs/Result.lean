import Arboretum.Error

/-!
When a chain of checks succeeds and where it fails. A check is a `Result`; the lemmas here turn the
success of a composed one into the success of its parts, and its failure into that of one of them.
-/

namespace Arboretum

variable {α β : Type}

@[simp] theorem require_eq_ok {p : Prop} [Decidable p] {e : Error} :
    require p e = .ok () ↔ p := by
  unfold require
  split <;> simp_all

theorem require_eq_error {p : Prop} [Decidable p] {e e' : Error} :
    require p e = .error e' ↔ ¬ p ∧ e = e' := by
  unfold require
  split <;> simp_all

theorem bind_eq_ok {ε : Type} {x : Except ε α} {f : α → Except ε β} {b : β} :
    (x >>= f) = .ok b ↔ ∃ a, x = .ok a ∧ f a = .ok b := by
  cases x with
  | error e => simp [bind, Except.bind]
  | ok a => simp [bind, Except.bind]

theorem then_eq_ok {ε : Type} {x : Except ε Unit} {f : Unit → Except ε β} {b : β} :
    (x >>= f) = .ok b ↔ x = .ok () ∧ f () = .ok b := by
  rw [bind_eq_ok]
  constructor
  · rintro ⟨_, hx, hf⟩
    exact ⟨hx, hf⟩
  · rintro ⟨hx, hf⟩
    exact ⟨(), hx, hf⟩

/-- A check followed by more fails where it does, or else where what follows does. -/
theorem then_eq_error {ε : Type} {x : Except ε Unit} {f : Unit → Except ε β} {e : ε} :
    (x >>= f) = .error e ↔ x = .error e ∨ x = .ok () ∧ f () = .error e := by
  cases x with
  | error e => simp [bind, Except.bind]
  | ok a => simp [bind, Except.bind]

@[simp] theorem ok_bind {ε : Type} (a : α) (f : α → Except ε β) : (Except.ok a >>= f) = f a := rfl

@[simp] theorem pure_eq_ok {ε : Type} (a : α) : (pure a : Except ε α) = .ok a := rfl

theorem forM_eq_ok {l : List α} {f : α → Result Unit} :
    l.forM f = .ok () ↔ ∀ a ∈ l, f a = .ok () := by
  induction l with
  | nil => simp [pure, Except.pure]
  | cons a l ih =>
    simp only [List.forM_eq_forM] at ih
    rw [List.forM_eq_forM, List.forM_cons, then_eq_ok, ih, List.forall_mem_cons]

/-- A check of the entries of two columns, side by side, succeeds when every pair passes it. -/
theorem forM_pairs_eq_ok {xs : Array α} {ys : Array β} {f : (α × β) × Nat → Result Unit} :
    (xs.toList.zip ys.toList).zipIdx.forM f = .ok () ↔
      ∀ (i : Nat) (x : α) (y : β), xs[i]? = some x → ys[i]? = some y → f ((x, y), i) = .ok () := by
  simp only [forM_eq_ok, Prod.forall, List.mem_zipIdx_iff_getElem?, List.getElem?_zip_eq_some,
    Array.getElem?_toList]
  exact ⟨fun h i x y hx hy => h x y i ⟨hx, hy⟩, fun h x y i hi => h i x y hi.1 hi.2⟩

theorem exists_of_forM_eq_error {l : List α} {f : α → Result Unit} {e : Error}
    (h : l.forM f = .error e) : ∃ a ∈ l, f a = .error e := by
  induction l with
  | nil => cases h
  | cons a l ih =>
    rw [List.forM_eq_forM, List.forM_cons, then_eq_error] at h
    rcases h with h | ⟨-, h⟩
    · exact ⟨a, List.mem_cons_self, h⟩
    · obtain ⟨b, hb, hf⟩ := ih (by rwa [List.forM_eq_forM])
      exact ⟨b, List.mem_cons_of_mem a hb, hf⟩

theorem mapM_eq_ok {ε : Type} {l : List α} {f : α → Except ε β} {g : α → β}
    (h : ∀ a ∈ l, f a = .ok (g a)) : l.mapM f = .ok (l.map g) := by
  induction l with
  | nil => rfl
  | cons a l ih =>
    rw [List.mapM_cons, h a (by simp), ok_bind, ih fun b hb => h b (by simp [hb])]
    rfl

theorem mem_of_mapM_eq_ok {ε : Type} {l : List α} {f : α → Except ε β} {out : List β}
    (h : l.mapM f = .ok out) :
    (∀ a ∈ l, ∃ b ∈ out, f a = .ok b) ∧ ∀ b ∈ out, ∃ a ∈ l, f a = .ok b := by
  induction l generalizing out with
  | nil =>
    cases h
    simp
  | cons a l ih =>
    rw [List.mapM_cons, bind_eq_ok] at h
    obtain ⟨b, hb, h⟩ := h
    obtain ⟨rest, hrest, h⟩ := bind_eq_ok.mp h
    cases h
    obtain ⟨hto, hfrom⟩ := ih hrest
    constructor
    · rw [List.forall_mem_cons]
      refine ⟨⟨b, by simp, hb⟩, fun a ha => ?_⟩
      obtain ⟨c, hc, hac⟩ := hto a ha
      exact ⟨c, List.mem_cons_of_mem _ hc, hac⟩
    · rw [List.forall_mem_cons]
      refine ⟨⟨a, by simp, hb⟩, fun c hc => ?_⟩
      obtain ⟨a, ha, hac⟩ := hfrom c hc
      exact ⟨a, List.mem_cons_of_mem _ ha, hac⟩

/-- Checking all members before their values are taken is the same as taking them one by one. -/
theorem forM_then_filterMap {ε : Type} (l : List α) (f : α → Except ε β) :
    ((l.forM fun a => (f a).map fun _ => ()) >>= fun _ =>
      pure (l.filterMap fun a => (f a).toOption)) = l.mapM f := by
  induction l with
  | nil => rfl
  | cons a l ih =>
    rw [List.forM_eq_forM] at ih ⊢
    rw [List.mapM_cons, List.forM_cons, List.filterMap_cons, ← ih]
    cases f a with
    | error e => rfl
    | ok value => cases forM l fun a => (f a).map fun _ => () <;> rfl

end Arboretum
