import Arboretum.Encoding.Stream
import Arboretum.Proofs.Encoding.RoundTrip

/-!
The byte stream is canonical. What the reader accepts is split without loss: every field that it
reads would be written with the very bytes that it was read from, so a stream without optional
fields is the only one that holds its model, apart from the version at its head.
-/

namespace Arboretum

open FieldSource

/-- What a reader that succeeds has consumed, and what it has made of it. -/
def Consumes {β : Type} (reader : StateT ByteSource Result β) (goal : List UInt8 → β → Prop) :
    Prop :=
  ∀ source value after, reader.run source = .ok (value, after) →
    ∃ used, source.rest = used ++ after.rest ∧ goal used value

namespace Consumes

variable {β γ : Type} {goal : List UInt8 → γ → Prop}

theorem pure {value : γ} (h : goal [] value) :
    Consumes (Pure.pure value : StateT ByteSource Result γ) goal := by
  intro source _ _ hrun
  cases hrun
  exact ⟨[], rfl, h⟩

theorem bind {reader : StateT ByteSource Result β} {next : β → StateT ByteSource Result γ}
    {first : List UInt8 → β → Prop} (hfirst : Consumes reader first)
    (hnext : ∀ used value, first used value →
      Consumes (next value) fun more result => goal (used ++ more) result) :
    Consumes (reader >>= next) goal := by
  intro source result after hrun
  rw [StateT.run_bind] at hrun
  obtain ⟨⟨value, middle⟩, hreader, hrun⟩ := bind_eq_ok.mp hrun
  obtain ⟨used, hused, hvalue⟩ := hfirst source value middle hreader
  obtain ⟨more, hmore, hgoal⟩ := hnext used value hvalue middle result after hrun
  exact ⟨used ++ more, by rw [hused, hmore, List.append_assoc], hgoal⟩

theorem mono {weaker : List UInt8 → γ → Prop} {reader : StateT ByteSource Result γ}
    (h : Consumes reader goal) (hgoal : ∀ used value, goal used value → weaker used value) :
    Consumes reader weaker := by
  intro source value after hrun
  obtain ⟨used, hused, hvalue⟩ := h source value after hrun
  exact ⟨used, hused, hgoal used value hvalue⟩

theorem check {checked : Result β} {next : β → StateT ByteSource Result γ}
    (h : ∀ value, checked = .ok value → Consumes (next value) goal) :
    Consumes ((liftM checked : StateT ByteSource Result β) >>= next) goal := by
  intro source result after hrun
  cases hchecked : checked with
  | error e =>
    rw [hchecked] at hrun
    cases hrun
  | ok value =>
    rw [hchecked] at hrun
    exact h value hchecked source result after hrun

private theorem refusal {p : Prop} [Decidable p] {e : Error}
    {refused next : StateT ByteSource Result γ}
    (hrefused : refused = throw e) (h : ¬p → Consumes next goal) :
    Consumes (if p then refused else next) goal := by
  split
  · intro source value after hrun
    rw [hrefused] at hrun
    cases hrun
  · exact h ‹¬p›

theorem take (count : Nat) (name : String) :
    Consumes (ByteSource.take count name) fun used bytes =>
      used = bytes ∧ bytes.length = count := by
  intro source bytes after hrun
  change (if (source.rest.take count).length = count then _ else _) = _ at hrun
  split at hrun
  · cases hrun
    exact ⟨source.rest.take count, (List.take_append_drop count source.rest).symm, rfl, ‹_›⟩
  · cases hrun

/-- A count that is read is written with the same bytes. -/
theorem count (name : String) :
    Consumes (ByteSource.count name) fun used items => used = countBytes items := by
  refine bind (take 8 name) ?_
  rintro used bytes ⟨rfl, hlength⟩
  refine pure ?_
  rw [List.append_nil, countBytes, ← hlength, LittleEndian.bytes_number]

theorem decode {decoded : Except FormatFault γ} (h : ∀ value, decoded = .ok value → goal [] value) :
    Consumes (ByteSource.decode decoded) goal := by
  cases decoded with
  | error fault =>
    intro source value after hrun
    cases hrun
  | ok value => exact pure (h value rfl)

section Fields

variable {α : Type} [Element α] [StrictElement α]

private theorem readScalar (name : String) :
    Consumes (ByteSource.scalar name) fun used (value : α) =>
    used = Field.bytes (.scalar value) := by
  refine bind (take (Element.width α) name) ?_
  rintro used bytes ⟨rfl, hlength⟩
  refine decode fun value hvalue => ?_
  rw [List.append_nil]
  exact (Element.encode_of_decode hlength hvalue).symm

private theorem readColumn [LawfulElement α] (name : String) :
    Consumes (ByteSource.column name) fun used (values : Array α) =>
      used = Field.bytes (.column values) := by
  refine bind (count name) ?_
  rintro used items rfl
  refine refusal rfl fun _ => bind (take (items * Element.width α) name) ?_
  rintro used bytes ⟨rfl, hlength⟩
  refine decode fun values hvalues => ?_
  obtain ⟨hsize, hbytes⟩ := Element.encode_of_decodeAll LawfulElement.width_pos hlength hvalues
  rw [List.append_nil, Field.bytes, hsize, hbytes]

theorem scalar {name : String} {next : α → StateT ByteSource Result γ}
    (h : ∀ value, Consumes (next value) fun more => goal (Field.bytes (.scalar value) ++ more)) :
    Consumes (FieldSource.scalar name >>= next) goal := by
  refine bind (readScalar name) ?_
  rintro _ value rfl
  exact h value

theorem column [LawfulElement α] {name : String} {next : Array α → StateT ByteSource Result γ}
    (h : ∀ values, Consumes (next values) fun more => goal (Field.bytes (.column values) ++ more)) :
    Consumes (FieldSource.column name >>= next) goal := by
  refine bind (readColumn name) ?_
  rintro _ values rfl
  exact h values

end Fields

private theorem readText (name : String) :
    Consumes (ByteSource.text name) fun used value => used = Field.bytes (.text value) := by
  refine bind (count name) ?_
  rintro used items rfl
  refine bind (take items name) ?_
  rintro used bytes ⟨rfl, hlength⟩
  refine decode fun value hvalue => ?_
  rw [List.append_nil, Field.bytes, textBytes_of_textOfBytes hvalue, hlength]

theorem text {name : String} {next : String → StateT ByteSource Result γ}
    (h : ∀ value, Consumes (next value) fun more => goal (Field.bytes (.text value) ++ more)) :
    Consumes (FieldSource.text name >>= next) goal := by
  refine bind (readText name) ?_
  rintro _ value rfl
  exact h value

theorem skip : Consumes ByteSource.skip fun _ _ => True := by
  refine bind (readText _) fun _ name _ => bind (count _) fun _ size _ => bind (count _) ?_
  intro _ items _
  dsimp only
  exact refusal rfl fun _ => bind (take _ _) fun _ _ _ => pure trivial

theorem skipMany (count : Nat) :
    Consumes (FieldSource.skipMany (σ := ByteSource) count) fun used _ =>
      count = 0 → used = [] := by
  induction count with
  | zero => exact pure fun _ => rfl
  | succ count ih => exact bind skip fun _ _ _ => ih.mono fun _ _ _ hzero => nomatch hzero

theorem skipOptional {slot : String} {announced : Int32}
    {next : Unit → StateT ByteSource Result γ}
    (h : ∀ skipped, (announced = 0 → skipped = []) →
      Consumes (next ()) fun more => goal (skipped ++ more)) :
    Consumes (FieldSource.skipOptional slot announced >>= next) goal := by
  have hskipped : Consumes (FieldSource.skipOptional (σ := ByteSource) slot announced)
      fun used _ => announced = 0 → used = [] := by
    refine refusal rfl fun _ => (skipMany announced.toInt.toNat).mono fun used _ hused hzero => ?_
    exact hused (by rw [hzero]; rfl)
  exact bind hskipped fun used _ => h used

end Consumes

namespace FieldSource

variable {T L : Type} [Element T] [Element L] [LawfulElement T] [LawfulElement L]
  [StrictElement T] [StrictElement L]

theorem tree_consumes : Consumes (FieldSource.tree : StateT ByteSource Result (Tree T L))
    fun used tree => tree.Plain → used = tree.fields.flatMap Field.bytes := by
  rw [FieldSource.tree]
  refine .scalar fun _ => .scalar fun _ => .column fun _ => .column fun _ => .column fun _ =>
    .column fun _ => .column fun _ => .column fun _ => .column fun _ => .column fun _ =>
    .column fun _ => .column fun _ => .column fun _ => .column fun _ => .column fun _ =>
    .column fun _ => .column fun _ => .column fun _ => .column fun _ => .column fun _ =>
    .column fun _ => .column fun _ => .column fun _ => ?_
  refine .scalar fun _ => .skipOptional fun skippedTree htree => .scalar fun _ =>
    .skipOptional fun skippedNode hnode => .check fun _ _ => .pure ?_
  rintro ⟨hplainTree, hplainNode⟩
  rw [htree hplainTree, hnode hplainNode]
  rfl

theorem trees_consumes (count : Nat) (found : Array (Tree T L)) :
    Consumes (FieldSource.trees count found : StateT ByteSource Result (Array (Tree T L)))
      fun used trees => ∃ new : List (Tree T L), trees = found ++ new.toArray ∧ new.length = count ∧
        ((∀ tree ∈ new, tree.Plain) → used = new.flatMap fun tree =>
          tree.fields.flatMap Field.bytes) := by
  induction count generalizing found with
  | zero => exact .pure ⟨[], by simp, rfl, fun _ => rfl⟩
  | succ count ih =>
    rw [FieldSource.trees]
    refine .bind tree_consumes fun used tree htree => (ih (found.push tree)).mono ?_
    rintro more trees ⟨new, rfl, hlength, hmore⟩
    refine ⟨tree :: new, by simp, by rw [List.length_cons, hlength], fun hplain => ?_⟩
    rw [List.forall_mem_cons] at hplain
    rw [List.flatMap_cons, htree hplain.1, hmore hplain.2]

theorem types_of_ofTypes {threshold leaf : ValueType} {p : Pairing}
    (h : Pairing.ofTypes threshold leaf = .ok p) :
    threshold = p.thresholdType ∧ leaf = p.leafType := by
  revert h
  cases threshold <;> cases leaf <;> rintro ⟨⟩ <;> exact ⟨rfl, rfl⟩

end FieldSource

private theorem Tree.stored_of_plain {T L : Type} {tree : Tree T L} (h : tree.Plain) :
    tree.stored = tree := by
  obtain ⟨htree, hnode⟩ := h
  cases tree
  cases htree
  cases hnode
  rfl

namespace Model

/-- No optional fields are announced for the model or a tree of it. -/
def Plain (model : Model) : Prop :=
  model.optionalFields = 0 ∧ ∀ tree ∈ model.trees, tree.Plain

theorem model_consumes : Consumes FieldSource.model fun used model =>
    model.Plain → used = model.fields.flatMap Field.bytes := by
  rw [FieldSource.model]
  refine .scalar fun major => .scalar fun minor => .scalar fun patch => .check fun _ _ =>
    .scalar fun thresholdType => .scalar fun leafType => .check fun pairing hpairing => ?_
  obtain ⟨rfl, rfl⟩ := types_of_ofTypes hpairing
  refine .scalar fun numTree => .scalar fun _ => .scalar fun _ => .scalar fun _ => .scalar fun _ =>
    .column fun _ => .column fun _ => .column fun _ => .column fun _ => .text fun _ =>
    .scalar fun _ => .scalar fun _ => .column fun _ => .text fun _ => .scalar fun _ =>
    .skipOptional fun skipped hskipped => .bind (trees_consumes numTree.toNat #[]) ?_
  rintro used trees ⟨new, rfl, hlength, hused⟩
  refine .pure ?_
  rintro ⟨hcount, hplain⟩
  have hnum : numTree = UInt64.ofNat new.toArray.size := by
    rw [List.size_toArray, hlength, UInt64.ofNat_toNat]
  have hnew : ∀ tree ∈ new, tree.Plain := by simpa using hplain
  rw [hskipped hcount, hused hnew, Model.fields, List.flatMap_append, List.flatMap_assoc,
    Array.empty_append, List.append_nil, hnum, headerFields]
  simp only [List.flatMap_cons, List.flatMap_nil, List.append_assoc, List.nil_append]
  rfl

def versionBytes (version : FormatVersion) : List UInt8 :=
  Element.encode version.major ++ (Element.encode version.minor ++ Element.encode version.patch)

private theorem length_versionBytes (version : FormatVersion) :
    (versionBytes version).length = 12 := by
  rw [versionBytes, List.length_append, List.length_append, Element.length_encode,
    Element.length_encode, Element.length_encode]
  rfl

def contentBytes (model : Model) : List UInt8 :=
  (model.headerFields.drop 3 ++ model.trees.toList.flatMap Tree.fields).flatMap Field.bytes

private theorem fields_bytes (model : Model) :
    model.fields.flatMap Field.bytes = versionBytes model.version ++ model.contentBytes := by
  have hheader : model.headerFields = .scalar model.version.major :: .scalar model.version.minor ::
      .scalar model.version.patch :: model.headerFields.drop 3 := rfl
  rw [fields, hheader, versionBytes, List.append_assoc, List.append_assoc]
  rfl

private theorem refreshed_of_plain {model : Model} (h : model.Plain) :
    model.refreshed = { model with version := .current } := by
  obtain ⟨pairing, trees, info, version, optionalFields⟩ := model
  obtain ⟨hcount, hplain⟩ := h
  have htrees : trees.map Tree.stored = trees := by
    refine (Array.map_congr_left fun tree htree => ?_).trans (Array.map_id' trees)
    exact Tree.stored_of_plain (hplain tree htree)
  cases hcount
  exact congrArg (fun trees => (⟨pairing, trees, info, .current, 0⟩ : Model)) htrees

private theorem toBytes_of_plain {model : Model} (h : model.Plain) :
    model.toBytes = versionBytes .current ++ model.contentBytes := by
  rw [toBytes, fields_bytes, refreshed_of_plain h]
  rfl

private theorem ofBytes_eq_ok_of_plain {bytes rest : List UInt8} {model : Model}
    (h : ofBytes bytes = .ok (model, rest)) (hplain : model.Plain) :
    bytes = versionBytes model.version ++ model.contentBytes ++ rest := by
  rw [ofBytes] at h
  cases hrun : FieldSource.model.run (⟨bytes⟩ : ByteSource) with
  | error e =>
    rw [hrun] at h
    cases h
  | ok read =>
    rw [hrun] at h
    cases h
    obtain ⟨used, hused, hbytes⟩ := model_consumes _ _ _ hrun
    rw [← fields_bytes, ← hbytes hplain]
    exact hused

/-- The stream is canonical. What is read from a byte string without optional fields is, behind the
twelve bytes of the version, what would be written; writing it again changes the version only; and
no other byte string without optional fields gives the same content. -/
theorem stream_canonical {bytes rest : List UInt8} {model : Model}
    (h : ofBytes bytes = .ok (model, rest)) (hplain : model.Plain) :
    ∃ consumed, bytes = consumed ++ rest ∧ consumed.take 12 = versionBytes model.version ∧
      consumed.drop 12 = model.toBytes.drop 12 ∧
      model.toBytes = versionBytes ⟨4, 0, 0⟩ ++ consumed.drop 12 ∧
      ∀ {otherConsumed otherRest : List UInt8} {other : Model},
        ofBytes (otherConsumed ++ otherRest) = .ok (other, otherRest) → other.Plain →
        other.refreshed = model.refreshed → otherConsumed.drop 12 = consumed.drop 12 := by
  have hwritten := toBytes_of_plain hplain
  refine ⟨versionBytes model.version ++ model.contentBytes, ofBytes_eq_ok_of_plain h hplain, ?_, ?_,
    ?_, ?_⟩
  · rw [List.take_left' (length_versionBytes _)]
  · rw [hwritten, List.drop_left' (length_versionBytes _), List.drop_left' (length_versionBytes _)]
  · rw [hwritten, List.drop_left' (length_versionBytes _)]
    rfl
  · intro otherConsumed otherRest other hother hotherPlain hsame
    have hsplit := List.append_cancel_right (ofBytes_eq_ok_of_plain hother hotherPlain)
    have hcontent : other.contentBytes = model.contentBytes := by
      rw [refreshed_of_plain hotherPlain, refreshed_of_plain hplain] at hsame
      exact (congrArg contentBytes hsame :)
    rw [hsplit, List.drop_left' (length_versionBytes _), List.drop_left' (length_versionBytes _),
      hcontent]

/-- A stream of the legacy version, with bytes of something else behind it. -/
def legacyStream : List UInt8 :=
  versionBytes ⟨3, 9, 7⟩ ++ memento.toBytes.drop 12 ++ [1, 2, 3]

theorem stream_canonical_legacy :
    ∃ model, ofBytes legacyStream = .ok (model, [1, 2, 3]) ∧ model.Plain ∧
      ∃ consumed, legacyStream = consumed ++ [1, 2, 3] ∧
        consumed.take 12 = versionBytes ⟨3, 9, 7⟩ ∧
        consumed.drop 12 = model.toBytes.drop 12 := by
  have hread : (match ofBytes legacyStream with
      | .ok (model, rest) => decide (rest = [1, 2, 3] ∧ model.version = ⟨3, 9, 7⟩ ∧
          model.optionalFields = 0 ∧ ∀ tree ∈ model.trees,
            tree.treeOptionalFields = 0 ∧ tree.nodeOptionalFields = 0)
      | .error _ => false) = true := by decide +kernel
  cases hbytes : ofBytes legacyStream with
  | error e =>
    rw [hbytes] at hread
    cases hread
  | ok read =>
    obtain ⟨model, rest⟩ := read
    rw [hbytes] at hread
    obtain ⟨rfl, hversion, hplain⟩ := of_decide_eq_true hread
    obtain ⟨consumed, hconsumed, htake, hdrop, -⟩ := stream_canonical hbytes hplain
    rw [hversion] at htake
    exact ⟨model, rfl, hplain, consumed, hconsumed, htake, hdrop⟩

end Model

end Arboretum
