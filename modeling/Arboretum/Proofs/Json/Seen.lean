import Arboretum.Proofs.Json.Compact
import Mathlib.Data.List.Forall2
import Mathlib.Data.Option.Basic

/-!
Two JSON values without infinities that are seen alike. Such values agree member by member and item
by item, and optional members can be told to be there by their keys.
-/

namespace Arboretum

namespace Json

mutual

/-- Every floating-point number in the value is finite. -/
def Finite : Json → Prop
  | single x => FloatWord.IsFinite x
  | double x => FloatWord.IsFinite x
  | array items => FiniteItems items
  | object members => FiniteMembers members
  | _ => True

def FiniteItems : List Json → Prop
  | [] => True
  | item :: rest => item.Finite ∧ FiniteItems rest

def FiniteMembers : List (String × Json) → Prop
  | [] => True
  | (_, value) :: rest => value.Finite ∧ FiniteMembers rest

end

mutual

def decideFinite : (value : Json) → Decidable value.Finite
  | null | bool _ | integer _ | string _ => isTrue trivial
  | single x => inferInstanceAs (Decidable (FloatWord.IsFinite x))
  | double x => inferInstanceAs (Decidable (FloatWord.IsFinite x))
  | array items => decideFiniteItems items
  | object members => decideFiniteMembers members

def decideFiniteItems : (items : List Json) → Decidable (FiniteItems items)
  | [] => isTrue trivial
  | item :: rest => @instDecidableAnd _ _ (decideFinite item) (decideFiniteItems rest)

def decideFiniteMembers : (members : List (String × Json)) → Decidable (FiniteMembers members)
  | [] => isTrue trivial
  | (_, value) :: rest => @instDecidableAnd _ _ (decideFinite value) (decideFiniteMembers rest)

end

instance : DecidablePred Finite := decideFinite

private theorem finiteItems_iff {items : List Json} :
    FiniteItems items ↔ ∀ item ∈ items, item.Finite := by
  induction items with
  | nil => simp [FiniteItems]
  | cons item rest ih => rw [FiniteItems, ih, List.forall_mem_cons]

private theorem finiteMembers_iff {members : List (String × Json)} :
    FiniteMembers members ↔ ∀ member ∈ members, member.2.Finite := by
  induction members with
  | nil => simp [FiniteMembers]
  | cons member rest ih => rw [FiniteMembers, ih, List.forall_mem_cons]

/-- Finite values that have one text. -/
structure SeenAs (a b : Json) : Prop where
  finite : a.Finite
  finite' : b.Finite
  printed_eq : a.printed = b.printed

theorem SeenAs.of_compactText {a b : Json} (ha : a.Finite) (hb : b.Finite)
    (h : a.compactText = b.compactText) : a.SeenAs b :=
  ⟨ha, hb, printed_eq_of_compactText h⟩

def MemberSeenAs (a b : String × Json) : Prop := a.1 = b.1 ∧ a.2.SeenAs b.2

private theorem forall₂_of_map_eq {α β γ : Type} {f : α → γ} {g : β → γ} {xs : List α} {ys : List β}
    (h : xs.map f = ys.map g) : List.Forall₂ (fun x y => f x = g y) xs ys := by
  have heq : List.Forall₂ (· = ·) (xs.map f) (ys.map g) := by rw [List.forall₂_eq_eq_eq, h]
  rwa [List.forall₂_map_left_iff, List.forall₂_map_right_iff] at heq

theorem forall₂_with {α β : Type} {R : α → β → Prop} {P : α → Prop} {Q : β → Prop} {xs : List α}
    {ys : List β} (h : List.Forall₂ R xs ys) (hP : ∀ x ∈ xs, P x) (hQ : ∀ y ∈ ys, Q y) :
    List.Forall₂ (fun x y => P x ∧ Q y ∧ R x y) xs ys := by
  rw [List.forall₂_and_left]
  refine ⟨hP, List.Forall₂.flip ?_⟩
  have hflip : List.Forall₂ (fun y x => Q y ∧ R x y) ys xs := by
    rw [List.forall₂_and_left]
    exact ⟨hQ, h.flip⟩
  exact hflip

theorem seenAs_array {items items' : List Json} (h : (array items).SeenAs (array items')) :
    List.Forall₂ SeenAs items items' :=
  (forall₂_with (forall₂_of_map_eq (printed_array.mp h.printed_eq)) (finiteItems_iff.mp h.finite)
    (finiteItems_iff.mp h.finite')).imp fun _ _ ⟨hfinite, hfinite', hsame⟩ =>
      ⟨hfinite, hfinite', hsame⟩

theorem seenAs_object {members members' : List (String × Json)}
    (h : (object members).SeenAs (object members')) : List.Forall₂ MemberSeenAs members members' :=
  (forall₂_with (forall₂_of_map_eq (printed_object.mp h.printed_eq))
    (finiteMembers_iff.mp h.finite) (finiteMembers_iff.mp h.finite')).imp
    fun _ _ ⟨hfinite, hfinite', hsame⟩ =>
      ⟨(Prod.mk.inj hsame).1, hfinite, hfinite', (Prod.mk.inj hsame).2⟩

/-- Values of a type that are written as JSON are equal where they are seen alike. -/
def Tells {α : Type} (write : α → Json) : Prop := ∀ x y, (write x).SeenAs (write y) → x = y

private theorem tells_integer : Tells integer := fun _ _ h => printed_integer.mp h.printed_eq

theorem tells_bool : Tells bool := fun _ _ h => printed_bool.mp h.printed_eq

theorem tells_string : Tells string := fun _ _ h => printed_string.mp h.printed_eq

theorem tells_single : Tells single := fun _ _ h =>
  (printed_single h.finite h.finite').mp h.printed_eq

theorem tells_double : Tells double := fun _ _ h =>
  (printed_double h.finite h.finite').mp h.printed_eq

theorem Tells.comp {α β : Type} {write : β → Json} (h : Tells write) {f : α → β}
    (hf : Function.Injective f) : Tells fun x => write (f x) := fun _ _ hseen => hf (h _ _ hseen)

theorem tells_uint32 : Tells fun n : UInt32 => integer n.toNat :=
  tells_integer.comp fun _ _ h => UInt32.toNat_inj.mp (Int.ofNat.inj h)

theorem tells_uint64 : Tells fun n : UInt64 => integer n.toNat :=
  tells_integer.comp fun _ _ h => UInt64.toNat_inj.mp (Int.ofNat.inj h)

theorem tells_int32 : Tells fun n : Int32 => integer n.toInt :=
  tells_integer.comp fun _ _ h => Int32.toInt_inj.mp h

theorem Tells.array {α : Type} {write : α → Json} (h : Tells write) :
    Tells fun values : Array α => .array (values.toList.map write) := by
  intro xs ys hseen
  have hall := seenAs_array hseen
  rw [List.forall₂_map_left_iff, List.forall₂_map_right_iff] at hall
  have heq := hall.imp h
  rw [List.forall₂_eq_eq_eq] at heq
  exact Array.toList_inj.mp heq

theorem optional_key {α : Type} {write : α → Json} {key key' : String} (h : key' ≠ key)
    (x : Option α) :
    ∀ member ∈ (x.map fun value => (key', write value)).toList, member.1 ≠ key := by
  cases x with
  | none => exact List.forall_mem_nil _
  | some x => exact List.forall_mem_singleton.mpr h

/-- A member that is there in one of two objects is there in the other, if no later member has its
name. -/
theorem seenAs_optional {α : Type} {write : α → Json} (h : Tells write) {key : String}
    {x y : Option α} {rest rest' : List (String × Json)}
    (hkey : ∀ member ∈ rest, member.1 ≠ key) (hkey' : ∀ member ∈ rest', member.1 ≠ key)
    (hseen : List.Forall₂ MemberSeenAs
      ((x.map fun value => (key, write value)).toList ++ rest)
      ((y.map fun value => (key, write value)).toList ++ rest')) :
    x = y ∧ List.Forall₂ MemberSeenAs rest rest' := by
  cases x with
  | none =>
    cases y with
    | none => exact ⟨rfl, hseen⟩
    | some y =>
      obtain ⟨member, _, hhead, -, rfl⟩ := List.forall₂_cons_right_iff.mp hseen
      exact absurd hhead.1 (hkey member (List.mem_cons_self ..))
  | some x =>
    cases y with
    | none =>
      obtain ⟨member, _, hhead, -, rfl⟩ := List.forall₂_cons_left_iff.mp hseen
      exact absurd hhead.1.symm (hkey' member (List.mem_cons_self ..))
    | some y =>
      obtain ⟨hhead, htail⟩ := List.forall₂_cons.mp hseen
      exact ⟨congrArg some (h x y hhead.2), htail⟩

end Json

end Arboretum
