import Arboretum.Builder.Document
import Arboretum.Model.Dump
import Arboretum.Proofs.Builder.Descriptors
import Arboretum.Proofs.Builder.Transcript
import Arboretum.Proofs.Json.RoundTrip

/-!
A builder from a document is the builder that its descriptors make directly. The document hands the
parameters of the post-processing function and the attributes on as text; what was read as a value
is written and read again, and nothing is lost on the way.
-/

namespace Arboretum

/-- What is given, if anything is, is an object. -/
def GivesObject : Option Json → Prop
  | none | some (.object _) => True
  | some _ => False

namespace JsonReader

variable {α : Type} {depth : Nat} {raw : RawJson} {field : Option (Option RawJson)}

private theorem exists_of_required {reader : JsonReader α} {a : α}
    (h : required reader depth field = some a) : ∃ raw, reader depth raw = some a := by
  unfold required at h
  split at h
  case h_1 raw => exact ⟨raw, h⟩
  case h_2 => cases h

private theorem exists_of_recordOf {fields : List (List String)} {closed : Bool} {a : α}
    {build : Nat → List (Option RawJson) → Option α}
    (h : recordOf fields closed build depth raw = some a) :
    ∃ deeper given, depth = deeper + 1 ∧ build deeper given = some a := by
  cases depth with
  | zero => cases h
  | succ deeper =>
    obtain ⟨given, -, hbuild⟩ := Option.bind_eq_some_iff.mp h
    exact ⟨deeper, given, rfl, hbuild⟩

private theorem readable_of_allowed {v : Json} (h : allowed value depth field = some (some v)) :
    v.Readable depth := by
  unfold allowed at h
  split at h
  case h_2 => cases h
  case h_1 raw =>
    unfold optional at h
    split at h
    · cases h
    · obtain ⟨_, hvalue, heq⟩ := Option.map_eq_some_iff.mp h
      cases heq
      exact readable_of_value hvalue

end JsonReader

namespace BuilderDocument

open JsonReader

variable {text : String} {document : BuilderDocument}

/-- The parameters of the post-processing function as text. -/
def configText (document : BuilderDocument) : String :=
  (document.config.map Json.compactText).getD noAttributes

/-- The builder that the descriptors of the document make with these parameters and attributes. -/
def create (document : BuilderDocument) (config : String) (attributes : Option String) :
    Result Builder :=
  Builder.create document.thresholdType document.leafType document.metadata document.routing
    ⟨document.postprocessor, config⟩ document.baseScores attributes

/-- The builder that the descriptors make with the texts of the values in the document. -/
def direct (document : BuilderDocument) : Result Builder :=
  document.create document.configText (document.attributes.map Json.compactText)

private theorem choice_eq_ok {choice : PostprocessorChoice} : document.choice = .ok choice ↔
    GivesObject document.config ∧ choice = ⟨document.postprocessor, document.configText⟩ := by
  rw [BuilderDocument.choice, configText]
  cases document.config with
  | none => simp [GivesObject, eq_comm]
  | some v => cases v <;> simp [GivesObject, eq_comm]

private theorem attributesText_eq_ok {attributes : Option String} :
    document.attributesText = .ok attributes ↔
      GivesObject document.attributes ∧ attributes = document.attributes.map Json.compactText := by
  rw [BuilderDocument.attributesText]
  cases document.attributes with
  | none => simp [GivesObject, eq_comm]
  | some v => cases v <;> simp [GivesObject, eq_comm]

private theorem readable_config {depth : Nat} {raw : RawJson} {name : String} {v : Json}
    (h : postprocessorReader depth raw = some (name, some v)) : v.Readable depth := by
  obtain ⟨deeper, given, rfl, hbuild⟩ := exists_of_recordOf h
  simp only [bind, Option.bind_eq_some_iff] at hbuild
  obtain ⟨_, -, _, hconfig, hboth⟩ := hbuild
  cases hboth
  exact (readable_of_allowed hconfig).mono (Nat.le_succ deeper)

theorem readable (h : reader.run text = some document) {v : Json}
    (hv : document.config = some v ∨ document.attributes = some v) : v.Readable maxDepth := by
  obtain ⟨raw, -, h⟩ := Option.bind_eq_some_iff.mp h
  obtain ⟨deeper, given, hdepth, h⟩ := exists_of_recordOf h
  have hle : deeper ≤ maxDepth := by omega
  obtain ⟨⟨name, config⟩, hconfig, h⟩ := Option.bind_eq_some_iff.mp h
  obtain ⟨_, hconfig⟩ := exists_of_required hconfig
  simp only [bind, Option.bind_eq_some_iff] at h
  obtain ⟨_, -, _, -, _, -, _, -, _, -, _, hattributes, heq⟩ := h
  cases heq
  rcases hv with rfl | rfl
  · exact (readable_config hconfig).mono hle
  · exact (readable_of_allowed hattributes).mono hle

end BuilderDocument

private theorem PostprocessorChoice.params_congr {name config config' : String}
    (h : JsonReader.value.run config = JsonReader.value.run config') :
    params ⟨name, config⟩ = params ⟨name, config'⟩ := by
  rw [params, params, h]

namespace Builder

variable {threshold leaf : ValueType} {metadata : Metadata} {routing : TreeRouting}
  {choice : PostprocessorChoice} {baseScores : Array Double} {text : String}

private theorem create_some :
    create threshold leaf metadata routing choice baseScores (some text) =
      create threshold leaf metadata routing choice baseScores none >>= fun b =>
        checkAttributes text >>= fun _ => .ok { b with info.attributes := text } := by
  simp only [create, bind_assoc]
  rfl

theorem create_congr {name config config' : String} {attributes : Option String}
    (h : JsonReader.value.run config = JsonReader.value.run config') :
    create threshold leaf metadata routing ⟨name, config⟩ baseScores attributes =
      create threshold leaf metadata routing ⟨name, config'⟩ baseScores attributes := by
  simp only [create, PostprocessorChoice.params_congr h]

private theorem checkAttributes_congr {text' : String}
    (h : JsonReader.value.run text = JsonReader.value.run text') :
    checkAttributes text = checkAttributes text' := by
  rw [checkAttributes, checkAttributes, h]

end Builder

namespace BuilderDocument

open JsonReader

variable {text : String} {document : BuilderDocument}

private theorem run_noAttributes : value.run noAttributes = some (.object []) := rfl

theorem run_text (h : reader.run text = some document) {given : Option Json}
    (hgiven : given = document.config ∨ given = document.attributes)
    (hdoubles : ∀ v ∈ given, ∀ x ∈ v.doubles, x.ReadsBack) :
    value.run ((given.map Json.compactText).getD noAttributes) =
      some (given.getD (.object [])) := by
  cases given with
  | none => exact run_noAttributes
  | some v =>
    exact (readable h (hgiven.imp Eq.symm Eq.symm)).run_compactText (hdoubles v rfl)

/-- Any texts of the values in a document make the same builder, but for the text of the attributes
on record. -/
theorem create_eq (h : reader.run text = some document)
    (hdoubles : ∀ v, document.config = some v ∨ document.attributes = some v →
      ∀ x ∈ v.doubles, x.ReadsBack) {config attributes : String}
    (hconfig : value.run config = some (document.config.getD (.object [])))
    (hattributes : value.run attributes = some (document.attributes.getD (.object []))) :
    document.create config (some attributes) =
      document.direct.map fun b => { b with info.attributes := attributes } := by
  have hsame := run_text h (.inl rfl) fun v hv => hdoubles v (.inl hv)
  have hsame' := run_text h (.inr rfl) fun v hv => hdoubles v (.inr hv)
  rw [create, direct, create, Builder.create_congr (hconfig.trans hsame.symm), Builder.create_some,
    configText]
  cases hgiven : document.attributes with
  | none =>
    have haccepted : Builder.checkAttributes attributes = .ok () := by
      rw [Builder.checkAttributes, hattributes, hgiven]
      rfl
    rw [haccepted, Option.map_none]
    rcases Builder.create _ _ _ _ _ _ none with _ | b <;> rfl
  | some v =>
    have hchecked := Builder.checkAttributes_congr (hattributes.trans hsame'.symm)
    rw [hgiven, Option.map_some, Option.getD_some] at hchecked
    rw [Option.map_some, Builder.create_some, hchecked]
    rcases Builder.create _ _ _ _ _ _ none with _ | b
    · rfl
    · rcases Builder.checkAttributes v.compactText with _ | _ <;> rfl

end BuilderDocument

namespace Builder

open BuilderDocument

variable {text : String} {document : BuilderDocument} {b : Builder}

/-- The checks in front of the descriptors refuse nothing that these would not refuse. -/
theorem ofDocument_eq_ok (h : reader.run text = some document) : ofDocument text = .ok b ↔
    GivesObject document.config ∧ GivesObject document.attributes ∧ document.direct = .ok b := by
  simp only [ofDocument, h]
  rw [then_eq_ok, then_eq_ok]
  simp only [bind_eq_ok, choice_eq_ok, attributesText_eq_ok]
  constructor
  · rintro ⟨-, -, _, ⟨hconfig, rfl⟩, _, ⟨hattributes, rfl⟩, hdirect⟩
    exact ⟨hconfig, hattributes, hdirect⟩
  · rintro ⟨hconfig, hattributes, hdirect⟩
    have hdescribed := create_described hdirect
    exact ⟨hdescribed.metadata_ok, hdescribed.routing_ok, _, ⟨hconfig, rfl⟩, _,
      ⟨hattributes, rfl⟩, hdirect⟩

/-- Let a text be read as a document. It makes a builder exactly if the configuration and the
attributes are objects where they are given and the descriptors make one directly. Both builders
answer all calls alike, and the models that they commit have the same dumps. If the floating-point
numbers in the configuration and the attributes read back, these can be handed over in any spelling:
the builder is the same, and has the attributes on record as they were spelled. -/
theorem ofDocument_agrees (hread : reader.run text = some document) :
    ((∃ b, ofDocument text = .ok b) ↔ GivesObject document.config ∧
      GivesObject document.attributes ∧ ∃ b, document.direct = .ok b) ∧
    (∀ b b', ofDocument text = .ok b → document.direct = .ok b' → ∀ requests,
      b.transcript requests = b'.transcript requests ∧
      ∀ (model model' : Model) (spent spent' : Builder),
        commit.apply (b.run requests) = (.ok model, spent) →
        commit.apply (b'.run requests) = (.ok model', spent') →
        ∀ pretty, model.dump pretty = model'.dump pretty) ∧
    ((∀ v, document.config = some v ∨ document.attributes = some v →
        ∀ x ∈ v.doubles, x.ReadsBack) → ∀ config attributes,
      JsonReader.value.run config = some (document.config.getD (.object [])) →
      JsonReader.value.run attributes = some (document.attributes.getD (.object [])) →
      document.create config (some attributes) =
        document.direct.map fun b => { b with info.attributes := attributes }) := by
  refine ⟨?_, fun b b' h h' requests => ?_, fun hdoubles config attributes hconfig hattributes =>
    document.create_eq hread hdoubles hconfig hattributes⟩
  · simp only [ofDocument_eq_ok hread, exists_and_left]
  · obtain ⟨-, -, hdirect⟩ := (ofDocument_eq_ok hread).mp h
    obtain rfl : b = b' := Except.ok.inj (hdirect.symm.trans h')
    refine ⟨rfl, fun model model' spent spent' hmodel hmodel' pretty => ?_⟩
    rw [hmodel] at hmodel'
    cases hmodel'
    rfl

def sampleDocument : String :=
  (Json.object
    [("threshold_type", .string "float32"), ("leaf_output_type", .string "float32"),
      ("metadata", Metadata.toJson ⟨2, .binaryClassification, false, 1, #[1], .scalar⟩),
      ("tree_annotation", TreeRouting.toJson ⟨1, #[0], #[0]⟩),
      ("postprocessor", .object
        [("name", .string "sigmoid"),
          ("config", .object [("sigmoid_alpha", .double ⟨0x3FE0000000000000⟩)])]),
      ("base_scores", .array [.double ⟨0⟩]),
      ("attributes", .object [("origin", .string "here")])]).compactText

/-- Other spellings of the configuration and the attributes of the document. -/
def respelledConfig : String := "\x7b \"sigmoid_alpha\" : 5e-1 \x7d"

def respelledAttributes : String := "\x7b\"origin\": \"\\u0068ere\"\x7d"

/-- What is computed of a text that ought to be read as some value. -/
def spells (text : String) (given : Option Json) : Bool :=
  (given.all fun v => v.doubles.all fun x => x.ReadsBack) &&
    (JsonReader.value.run text).any fun v =>
      v.compactText == (given.getD (.object [])).compactText && v.doubles.all fun x => x.ReadsBack

private theorem run_of_spells {given : Option Json}
    (hreadable : ∀ v ∈ given, v.Readable JsonReader.maxDepth) (h : spells text given = true) :
    JsonReader.value.run text = some (given.getD (.object [])) ∧
      ∀ v ∈ given, ∀ x ∈ v.doubles, x.ReadsBack := by
  simp only [spells, Bool.and_eq_true, Option.all_eq_true, Option.any_eq_true, List.all_eq_true,
    decide_eq_true_eq, beq_iff_eq] at h
  obtain ⟨hdoubles, v, hv, htext, hown⟩ := h
  refine ⟨?_, hdoubles⟩
  rw [hv]
  cases given with
  | none =>
    have hnone : (Json.object []).Readable JsonReader.maxDepth :=
      .object .nil (List.forall_mem_nil _)
    exact congrArg some ((JsonReader.readable_of_run hv).eq_of_compactText hnone hown
      (List.forall_mem_nil _) htext)
  | some w =>
    exact congrArg some ((JsonReader.readable_of_run hv).eq_of_compactText (hreadable w rfl) hown
      (hdoubles w rfl) htext)

private theorem exists_of_isOk {α : Type} {x : Result α} (h : x.isOk = true) : ∃ a, x = .ok a := by
  cases x with
  | error e => cases h
  | ok a => exact ⟨a, rfl⟩

/-- The document makes a builder, and the same builder is made with its configuration and its
attributes spelled in another way. -/
theorem ofDocument_agrees_respelled : ∃ document b b',
    reader.run sampleDocument = some document ∧ ofDocument sampleDocument = .ok b ∧
    document.direct = .ok b' ∧ (∀ requests, b.transcript requests = b'.transcript requests) ∧
    document.create respelledConfig (some respelledAttributes) =
      .ok { b' with info.attributes := respelledAttributes } := by
  have hsample : (reader.run sampleDocument).any (fun document =>
      document.choice.isOk && document.attributesText.isOk && document.direct.isOk &&
        spells respelledConfig document.config && spells respelledAttributes document.attributes) =
      true := by
    rw [JsonReader.run, RawJson.parse?, sampleDocument, Json.compactText, String.length_ofList,
      String.toList_ofList]
    decide +kernel
  obtain ⟨document, hread, hsample⟩ := (Option.any_eq_true _ _).mp hsample
  simp only [Bool.and_eq_true] at hsample
  obtain ⟨⟨⟨⟨hchoice, htext⟩, hdirect⟩, hspelled⟩, hspelled'⟩ := hsample
  obtain ⟨hagree, hanswers, hrespelled⟩ := ofDocument_agrees hread
  obtain ⟨hconfig, hdoubles⟩ := run_of_spells (fun v hv => readable hread (.inl hv)) hspelled
  obtain ⟨hattributes, hdoubles'⟩ := run_of_spells (fun v hv => readable hread (.inr hv)) hspelled'
  obtain ⟨b', hb'⟩ := exists_of_isOk hdirect
  obtain ⟨_, hchoice⟩ := exists_of_isOk hchoice
  obtain ⟨_, htext⟩ := exists_of_isOk htext
  obtain ⟨b, hb⟩ := hagree.mpr
    ⟨(choice_eq_ok.mp hchoice).1, (attributesText_eq_ok.mp htext).1, b', hb'⟩
  refine ⟨document, b, b', hread, hb, hb', fun requests => (hanswers b b' hb hb' requests).1, ?_⟩
  rw [hrespelled (fun v hv => hv.elim (hdoubles v) (hdoubles' v)) _ _ hconfig hattributes, hb']
  rfl

end Builder

end Arboretum
