import Arboretum.Proofs.Json.Literals
import Mathlib.Data.String.Basic

/-!
What the reader of JSON values can give: integers that 64 bits hold, objects with their keys in
ascending order, nothing nested deeper than allowed, and no number of single precision.
-/

namespace Arboretum

namespace Json

/-- The members of an object by their keys, none of them twice. -/
def Ascending (members : List (String × Json)) : Prop :=
  members.Pairwise fun member next => member.1 < next.1

/-- A value that a text may hold, with the container levels that it may still open. -/
inductive Readable : Nat → Json → Prop where
  | null {depth : Nat} : Readable depth .null
  | bool {depth : Nat} (value : Bool) : Readable depth (.bool value)
  | integer {depth : Nat} {value : Int} (hlow : -2 ^ 63 ≤ value) (hhigh : value < 2 ^ 64) :
    Readable depth (.integer value)
  | double {depth : Nat} (value : Double) : Readable depth (.double value)
  | string {depth : Nat} (text : String) : Readable depth (.string text)
  | array {depth : Nat} {items : List Json} (hitems : ∀ item ∈ items, Readable depth item) :
    Readable (depth + 1) (.array items)
  | object {depth : Nat} {members : List (String × Json)} (hkeys : Ascending members)
    (hmembers : ∀ member ∈ members, Readable depth member.2) :
    Readable (depth + 1) (.object members)

theorem Readable.mono {depth depth' : Nat} {v : Json} (h : Readable depth v)
    (hle : depth ≤ depth') : Readable depth' v := by
  induction h generalizing depth' with
  | null => exact .null
  | bool value => exact .bool value
  | integer hlow hhigh => exact .integer hlow hhigh
  | double value => exact .double value
  | string text => exact .string text
  | array hitems ih =>
    obtain ⟨deeper, rfl⟩ := Nat.exists_eq_add_of_le' (Nat.le_of_add_left_le hle)
    exact .array fun item hitem => ih item hitem (Nat.le_of_add_le_add_right hle)
  | object hkeys hmembers ih =>
    obtain ⟨deeper, rfl⟩ := Nat.exists_eq_add_of_le' (Nat.le_of_add_left_le hle)
    exact .object hkeys fun member hmember => ih member hmember (Nat.le_of_add_le_add_right hle)

end Json

namespace JsonReader

open Json

variable {depth : Nat} {key : String} {v : Json} {sorted : List (String × Json)}

private theorem mem_insertMember {member : String × Json} (h : member ∈ insertMember key v sorted) :
    member = (key, v) ∨ member ∈ sorted := by
  fun_induction insertMember key v sorted with
  | case1 => exact .inl (List.mem_singleton.mp h)
  | case2 old rest =>
    exact (List.mem_cons.mp h).imp_right (List.mem_cons_of_mem _)
  | case3 other old rest hne hlt => exact List.mem_cons.mp h
  | case4 other old rest hne hge ih =>
    rcases List.mem_cons.mp h with rfl | h
    · exact .inr List.mem_cons_self
    · exact (ih h).imp_right (List.mem_cons_of_mem _)

theorem insertMember_ascending (h : Ascending sorted) : Ascending (insertMember key v sorted) := by
  fun_induction insertMember key v sorted with
  | case1 => exact List.pairwise_singleton _ _
  | case2 old rest => exact List.pairwise_cons.mpr (List.pairwise_cons.mp h)
  | case3 other old rest hne hlt =>
    obtain ⟨hfirst, -⟩ := List.pairwise_cons.mp h
    refine List.pairwise_cons.mpr ⟨List.forall_mem_cons.mpr ⟨hlt, fun member hmember => ?_⟩, h⟩
    exact lt_trans hlt (hfirst member hmember)
  | case4 other old rest hne hge ih =>
    obtain ⟨hfirst, hrest⟩ := List.pairwise_cons.mp h
    refine List.pairwise_cons.mpr ⟨fun member hmember => ?_, ih hrest⟩
    rcases mem_insertMember hmember with rfl | hmember
    · exact lt_of_le_of_ne (not_lt.mp hge) (Ne.symm hne)
    · exact hfirst member hmember

theorem insertMember_last (h : ∀ member ∈ sorted, member.1 < key) :
    insertMember key v sorted = sorted ++ [(key, v)] := by
  induction sorted with
  | nil => rfl
  | cons member rest ih =>
    obtain ⟨hfirst, hrest⟩ := List.forall_mem_cons.mp h
    rw [insertMember, if_neg hfirst.ne', if_neg hfirst.le.not_gt, ih hrest]
    rfl

mutual

theorem readable_of_value : ∀ {depth : Nat} {raw : RawJson} {v : Json},
    value depth raw = some v → Readable depth v
  | _, .null, _, h => by
    cases h
    exact .null
  | _, .bool b, _, h => by
    cases h
    exact .bool b
  | _, .number literal, _, h => by
    rw [value] at h
    obtain ⟨n | x, hvalue, rfl⟩ := Option.map_eq_some_iff.mp h
    · obtain ⟨hlow, hhigh⟩ := bounds_of_value? hvalue
      exact .integer hlow hhigh
    · exact .double x
  | _, .string parts, _, h => by
    rw [value] at h
    obtain ⟨text, -, rfl⟩ := Option.map_eq_some_iff.mp h
    exact .string text
  | 0, .array _, _, h => by
    rw [value] at h
    cases h
  | depth + 1, .array items, _, h => by
    rw [value] at h
    obtain ⟨items, hitems, rfl⟩ := Option.map_eq_some_iff.mp h
    exact .array (readable_of_values hitems)
  | 0, .object _, _, h => by
    rw [value] at h
    cases h
  | depth + 1, .object entries, _, h => by
    rw [value] at h
    obtain ⟨members, hmembers, rfl⟩ := Option.map_eq_some_iff.mp h
    obtain ⟨hkeys, hreadable⟩ := readable_of_members hmembers .nil fun _ hmember => nomatch hmember
    exact .object hkeys hreadable

private theorem readable_of_values : ∀ {depth : Nat} {raws : List RawJson} {items : List Json},
    values depth raws = some items → ∀ item ∈ items, Readable depth item
  | _, [], _, h => by
    cases h
    exact fun _ hitem => nomatch hitem
  | depth, raw :: raws, _, h => by
    rw [values] at h
    split at h
    case h_2 => cases h
    case h_1 item rest hitem hrest =>
      cases h
      exact List.forall_mem_cons.mpr ⟨readable_of_value hitem, readable_of_values hrest⟩

private theorem readable_of_members : ∀ {depth : Nat} {entries : List (List StringPart × RawJson)}
    {sorted merged : List (String × Json)}, members depth sorted entries = some merged →
    Ascending sorted → (∀ member ∈ sorted, Readable depth member.2) →
    Ascending merged ∧ ∀ member ∈ merged, Readable depth member.2
  | _, [], _, _, h, hkeys, hreadable => by
    cases h
    exact ⟨hkeys, hreadable⟩
  | depth, (key, raw) :: entries, _, _, h, hkeys, hreadable => by
    rw [members] at h
    split at h
    case h_2 => cases h
    case h_1 key v _ hv =>
      refine readable_of_members h (insertMember_ascending hkeys) fun member hmember => ?_
      rcases mem_insertMember hmember with rfl | hmember
      · exact readable_of_value hv
      · exact hreadable member hmember

end

theorem readable_of_run {text : String} (h : value.run text = some v) : v.Readable maxDepth := by
  obtain ⟨raw, -, hvalue⟩ := Option.bind_eq_some_iff.mp h
  exact readable_of_value hvalue

end JsonReader

end Arboretum
