import Arboretum.Proofs.Encoding.Frames

/-!
Truncated input. A reader that looks only at what it takes does the same on longer input, unless it
runs into the end; so the first part of a stored model can neither be read as another model nor be
refused for anything but its end.
-/

namespace Arboretum

def EndsEarly {β : Type} (result : Result β) : Prop :=
  ∃ missing, result = .error (.format (.unexpectedEnd missing))

/-- A source of items, behind which others can be put. -/
class ItemSource (σ : Type) where
  Item : Type
  items : σ → List Item
  longer : σ → List Item → σ
  items_longer (source : σ) (more : List Item) : items (longer source more) = items source ++ more

open ItemSource

instance : ItemSource ByteSource where
  Item := UInt8
  items := ByteSource.rest
  longer source more := ⟨source.rest ++ more⟩
  items_longer _ _ := rfl

instance : ItemSource FrameSource where
  Item := Frame
  items := FrameSource.rest
  longer source more := ⟨source.index, source.rest ++ more⟩
  items_longer _ _ := rfl

section

variable {σ : Type} [ItemSource σ] {β γ : Type}

/-- A reader that runs into the end of its source, or does not care what stands behind it. -/
def Stable (reader : StateT σ Result β) : Prop :=
  ∀ source (more : List (Item σ)), EndsEarly (reader.run source) ∨
    reader.run (longer source more) =
      (reader.run source).map fun (value, rest) => (value, longer rest more)

namespace Stable

theorem pure (value : β) : Stable (Pure.pure value : StateT σ Result β) :=
  fun _ _ => .inr rfl

theorem lift (result : Result β) : Stable (liftM result : StateT σ Result β) := by
  intro source more
  cases result with
  | error e => exact .inr rfl
  | ok value => exact .inr rfl

theorem bind {reader : StateT σ Result β} {next : β → StateT σ Result γ} (h : Stable reader)
    (hnext : ∀ value, Stable (next value)) : Stable (reader >>= next) := by
  intro source more
  rw [StateT.run_bind, StateT.run_bind]
  rcases h source more with ⟨missing, hends⟩ | hmore
  · rw [hends]
    exact .inl ⟨missing, rfl⟩
  · rw [hmore]
    cases reader.run source with
    | error e => exact .inr rfl
    | ok read => exact hnext read.1 read.2 more

theorem throw (e : Error) : Stable (MonadExcept.throw e : StateT σ Result β) :=
  fun _ _ => .inr rfl

theorem ite {p : Prop} [Decidable p] {reader other : StateT σ Result β} (h : Stable reader)
    (hother : Stable other) : Stable (if p then reader else other) := by
  split
  · exact h
  · exact hother

end Stable

/-- A source all of whose readers are stable. -/
class StableSource (σ : Type) [FieldSource σ] [ItemSource σ] : Prop where
  scalar {α : Type} [Element α] (name : String) :
    Stable (FieldSource.scalar name : StateT σ Result α)
  column {α : Type} [Element α] (name : String) :
    Stable (FieldSource.column name : StateT σ Result (Array α))
  text (name : String) : Stable (FieldSource.text name : StateT σ Result String)
  skip : Stable (FieldSource.skip : StateT σ Result Unit)

end

namespace ByteSource

private theorem run_take (count : Nat) (name : String) (source : ByteSource) :
    (take count name).run source =
      if count ≤ source.rest.length then
        .ok (source.rest.take count, ⟨source.rest.drop count⟩)
      else .error (.format (.unexpectedEnd (.field name))) := by
  have hlength : (source.rest.take count).length = count ↔ count ≤ source.rest.length := by
    rw [List.length_take]
    omega
  exact if_congr hlength rfl rfl

theorem stable_take (count : Nat) (name : String) : Stable (take count name) := by
  intro source more
  rw [run_take, run_take]
  by_cases h : count ≤ source.rest.length
  · have hlonger : count ≤ (source.rest ++ more).length := by
      rw [List.length_append]
      omega
    right
    rw [if_pos h]
    refine (if_pos hlonger).trans ?_
    simp only [longer, List.take_append_of_le_length h, List.drop_append_of_le_length h]
    rfl
  · left
    rw [if_neg h]
    exact ⟨_, rfl⟩

private theorem stable_count (name : String) : Stable (count name) :=
  .bind (stable_take 8 name) fun _ => .pure _

private theorem stable_decode {α : Type} (decoded : Except FormatFault α) :
    Stable (decode decoded : StateT ByteSource Result α) := by
  cases decoded with
  | error fault => exact .throw _
  | ok value => exact .pure value

private theorem stable_scalar {α : Type} [Element α] (name : String) :
    Stable (scalar name : StateT ByteSource Result α) :=
  .bind (stable_take _ name) fun _ => stable_decode _

private theorem stable_column {α : Type} [Element α] (name : String) :
    Stable (column name : StateT ByteSource Result (Array α)) := by
  refine .bind (stable_count name) fun _ => .ite (.throw _) ?_
  exact .bind (stable_take _ name) fun _ => stable_decode _

private theorem stable_text (name : String) : Stable (text name) :=
  .bind (stable_count name) fun _ => .bind (stable_take _ name) fun _ => stable_decode _

private theorem stable_skip : Stable skip := by
  refine .bind (stable_text _) fun _ => .bind (stable_count _) fun _ => .bind (stable_count _) ?_
  exact fun _ => .ite (.throw _) (.bind (stable_take _ _) fun _ => .pure ())

instance : StableSource ByteSource := ⟨stable_scalar, stable_column, stable_text, stable_skip⟩

end ByteSource

namespace FrameSource

private theorem stable_next (name : String) : Stable (next name) := by
  rintro ⟨index, frames⟩ more
  cases frames with
  | nil => exact .inl ⟨_, rfl⟩
  | cons frame frames =>
    right
    change (if frame.itemSize * frame.items = frame.data.length then _ else _) =
      (if frame.itemSize * frame.items = frame.data.length then _ else _ : Result _).map _
    by_cases h : frame.itemSize * frame.items = frame.data.length
    · rw [if_pos h, if_pos h]
      rfl
    · rw [if_neg h, if_neg h]
      rfl

private theorem stable_nextOf (name format : String) (itemSize : Nat) :
    Stable (nextOf name format itemSize) :=
  .bind (stable_next name) fun _ => .ite (.pure _) (.throw _)

private theorem stable_decode {α : Type} (decoded : Except FormatFault α) :
    Stable (decode decoded : StateT FrameSource Result α) := by
  cases decoded with
  | error fault => exact .throw _
  | ok value => exact .pure value

private theorem stable_scalar {α : Type} [Element α] (name : String) :
    Stable (scalar name : StateT FrameSource Result α) :=
  .bind (stable_nextOf name _ _) fun _ => .ite (.throw _) (stable_decode _)

private theorem stable_column {α : Type} [Element α] (name : String) :
    Stable (column name : StateT FrameSource Result (Array α)) :=
  .bind (stable_nextOf name _ _) fun _ => stable_decode _

private theorem stable_text (name : String) : Stable (text name) :=
  .bind (stable_nextOf name _ _) fun _ => stable_decode _

private theorem stable_skip : Stable skip :=
  .bind (stable_text _) fun _ => .bind (stable_next _) fun _ => .pure ()

instance : StableSource FrameSource := ⟨stable_scalar, stable_column, stable_text, stable_skip⟩

end FrameSource

namespace FieldSource

variable {σ : Type} [FieldSource σ] [ItemSource σ] [StableSource σ]

private theorem stable_skipMany (count : Nat) : Stable (skipMany count : StateT σ Result Unit) := by
  induction count with
  | zero => exact .pure ()
  | succ count ih => exact .bind StableSource.skip fun _ => ih

private theorem stable_skipOptional (slot : String) (count : Int32) :
    Stable (skipOptional slot count : StateT σ Result Unit) :=
  .ite (.throw _) (stable_skipMany _)

variable {T L : Type} [Element T] [Element L]

theorem stable_tree : Stable (tree : StateT σ Result (Tree T L)) := by
  rw [tree]
  refine .bind (StableSource.scalar _) fun _ => .bind (StableSource.scalar _) fun _ => ?_
  iterate 21 refine .bind (StableSource.column _) fun _ => ?_
  refine .bind (StableSource.scalar _) fun _ => .bind (stable_skipOptional _ _) fun _ =>
    .bind (StableSource.scalar _) fun _ => .bind (stable_skipOptional _ _) fun _ => ?_
  exact .bind (.lift _) fun _ => .pure _

theorem stable_trees (count : Nat) (found : Array (Tree T L)) :
    Stable (trees count found : StateT σ Result (Array (Tree T L))) := by
  induction count generalizing found with
  | zero => exact .pure found
  | succ count ih => exact .bind stable_tree fun next => ih (found.push next)

theorem stable_model : Stable (model : StateT σ Result Model) := by
  rw [model]
  iterate 3 refine .bind (StableSource.scalar _) fun _ => ?_
  refine .bind (.lift _) fun _ => .bind (StableSource.scalar _) fun _ =>
    .bind (StableSource.scalar _) fun _ => .bind (.lift _) fun _ => ?_
  iterate 5 refine .bind (StableSource.scalar _) fun _ => ?_
  iterate 4 refine .bind (StableSource.column _) fun _ => ?_
  refine .bind (StableSource.text _) fun _ => .bind (StableSource.scalar _) fun _ =>
    .bind (StableSource.scalar _) fun _ => .bind (StableSource.column _) fun _ =>
    .bind (StableSource.text _) fun _ => .bind (StableSource.scalar _) fun _ => ?_
  exact .bind (stable_skipOptional _ _) fun _ => .bind (stable_trees _ _) fun _ => .pure _

end FieldSource

/-- Where all items are read, no reading of the first ones alone gets through. -/
theorem Stable.endsEarly {σ β : Type} [ItemSource σ] {reader : StateT σ Result β} {source rest : σ}
    {more : List (Item σ)} {value : β} (h : Stable reader)
    (hread : reader.run (longer source more) = .ok (value, rest)) (hend : items rest = [])
    (hmore : more ≠ []) : EndsEarly (reader.run source) := by
  rcases h source more with hends | hlonger
  · exact hends
  · rw [hread] at hlonger
    cases hrun : reader.run source with
    | error e =>
      rw [hrun] at hlonger
      cases hlonger
    | ok read =>
      rw [hrun] at hlonger
      cases hlonger
      rw [items_longer] at hend
      exact absurd (List.append_eq_nil_iff.mp hend).2 hmore

namespace Model

variable {model : Model}

theorem ofBytes_endsEarly (hfits : model.Addressable)
    (hvalid : ∀ tree ∈ model.trees, tree.validate = .ok ()) {bytes more : List UInt8}
    (hbytes : bytes ++ more = model.toBytes) (hmore : more ≠ []) : EndsEarly (ofBytes bytes) := by
  have hread := refreshed_yields (σ := ByteSource) hfits.numTree _ _
    (ByteSource.holds_bytes (refreshed_addressable hfits) [])
  rw [Tree.forM_validate_eq_ok.mpr hvalid, List.append_nil, ← toBytes, ← hbytes] at hread
  obtain ⟨missing, hends⟩ : EndsEarly (FieldSource.model.run (⟨bytes⟩ : ByteSource)) :=
    FieldSource.stable_model.endsEarly hread rfl hmore
  rw [ofBytes, hends]
  exact ⟨missing, rfl⟩

theorem ofFrames_endsEarly (hsize : model.numTree < UInt64.size)
    (hvalid : ∀ tree ∈ model.trees, tree.validate = .ok ()) {frames more : List Frame}
    (hframes : frames ++ more = model.toFrames) (hmore : more ≠ []) :
    EndsEarly (ofFrames frames) := by
  have hread := refreshed_yields (σ := FrameSource) hsize _ _
    (FrameSource.holds_frames model.refreshed.fields 0 [])
  rw [Tree.forM_validate_eq_ok.mpr hvalid, List.append_nil, ← toFrames, ← hframes] at hread
  obtain ⟨missing, hends⟩ : EndsEarly (FieldSource.model.run (⟨0, frames⟩ : FrameSource)) :=
    FieldSource.stable_model.endsEarly hread rfl hmore
  rw [ofFrames, hends]
  exact ⟨missing, rfl⟩

/-- A model that is cut off is refused. A strict part of its bytes, or of its frames, from the first
one on is no other model, and what it is refused for is its end. -/
theorem strict_prefix_refused (model : Model) (hfits : model.Addressable)
    (hvalid : ∀ tree ∈ model.trees, tree.validate = .ok ()) :
    (∀ bytes, bytes <+: model.toBytes → bytes ≠ model.toBytes →
      ∃ e, ofBytes bytes = .error e ∧ e.category = "format" ∧
        ∃ missing, e = .format (.unexpectedEnd missing)) ∧
    ∀ frames, frames <+: model.toFrames → frames ≠ model.toFrames →
      ∃ e, ofFrames frames = .error e ∧ e.category = "format" ∧
        ∃ missing, e = .format (.unexpectedEnd missing) := by
  constructor
  · rintro bytes ⟨more, hmore⟩ hne
    obtain ⟨missing, hends⟩ := ofBytes_endsEarly hfits hvalid hmore fun hnil =>
      hne (by rw [← hmore, hnil, List.append_nil])
    exact ⟨_, hends, rfl, missing, rfl⟩
  · rintro frames ⟨more, hmore⟩ hne
    obtain ⟨missing, hends⟩ := ofFrames_endsEarly hfits.numTree hvalid hmore fun hnil =>
      hne (by rw [← hmore, hnil, List.append_nil])
    exact ⟨_, hends, rfl, missing, rfl⟩

/-- One byte or one frame less is noticed, also behind the last tree. -/
theorem strict_prefix_refused_memento :
    (∃ e, ofBytes memento.toBytes.dropLast = .error e ∧ e.category = "format") ∧
    ∃ e, ofFrames memento.toFrames.dropLast = .error e ∧ e.category = "format" := by
  obtain ⟨hbytes, hframes⟩ := strict_prefix_refused memento memento_addressable memento_valid
  obtain ⟨e, hends, hcategory, -⟩ :=
    hbytes _ (List.dropLast_prefix _) (by decide +kernel)
  obtain ⟨e', hends', hcategory', -⟩ :=
    hframes _ (List.dropLast_prefix _) (by decide +kernel)
  exact ⟨⟨e, hends, hcategory⟩, e', hends', hcategory'⟩

end Model

end Arboretum
