import Arboretum.Proofs.Json.Readable

/-!
The compact text of a value that can be read is read as that value. Of a floating-point number this
has to be asked: the reader rounds a literal more than once, and a number that is not finite is
written as `null`. All other values come back whatever they hold, and so does a container whose
floating-point numbers do.
-/

namespace Arboretum

open Json RawJson
open Numeral hiding digits

/-- The text of the number is read as that number. -/
def Double.ReadsBack (x : Double) : Prop :=
  JsonReader.value.run (Json.double x).compactText = some (.double x)

namespace Json

def double? : Json → Option Double
  | double x => some x
  | _ => none

theorem double?_eq_some {v : Json} {x : Double} : v.double? = some x ↔ v = double x := by
  cases v <;> simp [double?]

instance (x : Double) : Decidable x.ReadsBack :=
  decidable_of_iff ((JsonReader.value.run (double x).compactText).bind double? = some x) <| by
    simp only [Option.bind_eq_some_iff, double?_eq_some, exists_eq_right]
    rfl

mutual

def doubles : Json → List Double
  | double x => [x]
  | array items => itemDoubles items
  | object members => memberDoubles members
  | _ => []

def itemDoubles : List Json → List Double
  | [] => []
  | item :: rest => item.doubles ++ itemDoubles rest

def memberDoubles : List (String × Json) → List Double
  | [] => []
  | (_, value) :: rest => value.doubles ++ memberDoubles rest

end

private theorem itemDoubles_eq (items : List Json) : itemDoubles items = items.flatMap doubles := by
  induction items with
  | nil => rfl
  | cons item rest ih => rw [itemDoubles, ih, List.flatMap_cons]

private theorem memberDoubles_eq (members : List (String × Json)) :
    memberDoubles members = members.flatMap fun member => member.2.doubles := by
  induction members with
  | nil => rfl
  | cons member rest ih => rw [memberDoubles, ih, List.flatMap_cons]

/-- Wherever the text of a value stands, it is read as that value. -/
def ReadsAt (depth : Nat) (v : Json) : Prop :=
  ∀ steps rest, Closes rest → v.compact.length ≤ steps →
    ∃ raw, value? steps (v.compact ++ rest) = some (raw, rest) ∧
      JsonReader.value depth raw = some v

end Json

section Heads

variable {steps : Nat} {c : Char} {text rest : List Char} {literal : NumberLiteral}

private theorem skipBlanks_cons (h : isBlank c = false) : skipBlanks (c :: text) = c :: text :=
  List.dropWhile_cons_of_neg (ne_true_of_eq_false h)

private theorem not_isBlank_of_isWordChar (h : isWordChar c = true) : isBlank c = false := by
  simp only [isBlank, Bool.or_eq_false_iff, beq_eq_false_iff_ne]
  refine ⟨⟨⟨?_, ?_⟩, ?_⟩, ?_⟩ <;> rintro rfl <;> cases h

private theorem skipBlanks_word (h : ∀ c ∈ text, isWordChar c = true) : skipBlanks text = text := by
  cases text with
  | nil => rfl
  | cons c text => exact skipBlanks_cons (not_isBlank_of_isWordChar (h c List.mem_cons_self))

theorem Printed.text_visible (p : Printed) : ∀ c ∈ p.text.head?, isBlank c = false := by
  cases p with
  | word w =>
    intro c hc
    exact not_isBlank_of_isWordChar (w.chars c (List.mem_of_mem_head? hc))
  | string s | array items | object members =>
    rintro c ⟨⟩
    rfl

private theorem Json.compact_head (v : Json) :
    ∃ c rest, v.compact = c :: rest ∧ isBlank c = false ∧ c ≠ ']' := by
  obtain ⟨c, rest, htext, hne, -⟩ := v.printed.text_head
  have hvisible := v.printed.text_visible c (by rw [htext]; rfl)
  exact ⟨c, rest, v.text_printed ▸ htext, hvisible, hne⟩

private theorem value?_number (h : number? text = some (literal, rest)) :
    value? (steps + 1) text = some (.number literal, rest) := by
  cases text with
  | nil => cases h
  | cons c tail =>
    -- a text that begins in another way holds no number
    have hplain : ∀ d : Char, d ≠ '-' → digit? d = none → c ≠ d := by
      rintro d hsign hdigit rfl
      have hnone : someDigits? (c :: tail) = none := by simp [someDigits?, RawJson.digits, hdigit]
      simp [number?_eq, sign, hsign, hnone] at h
    have hblank : isBlank c = false := by
      simp only [isBlank, Bool.or_eq_false_iff, beq_eq_false_iff_ne]
      exact ⟨⟨⟨hplain ' ' (by decide) rfl, hplain '\n' (by decide) rfl⟩,
        hplain '\t' (by decide) rfl⟩, hplain '\r' (by decide) rfl⟩
    rw [value?, skipBlanks_cons hblank]
    split
    case h_1 heq | h_2 heq | h_3 heq | h_4 heq | h_5 heq | h_6 heq =>
      exact absurd (List.cons.inj heq).1 (hplain _ (by decide) rfl)
    case h_7 => rw [h, Option.map_some]

private theorem number?_of_value? (h : value? steps text = some (.number literal, rest)) :
    number? (skipBlanks text) = some (literal, rest) := by
  cases steps with
  | zero => cases h
  | succ steps =>
    rw [value?] at h
    split at h
    case h_7 =>
      obtain ⟨⟨literal, rest⟩, hnumber, heq⟩ := Option.map_eq_some_iff.mp h
      cases heq
      exact hnumber
    case h_1 | h_2 | h_3 => cases h
    case h_4 =>
      obtain ⟨_, -, heq⟩ := Option.map_eq_some_iff.mp h
      cases heq
    case h_5 | h_6 =>
      split at h
      · cases h
      · obtain ⟨_, -, heq⟩ := Option.map_eq_some_iff.mp h
        cases heq

theorem exists_of_parse? {text : String} {raw : RawJson} (h : parse? text = some raw) :
    ∃ rest, value? (2 * text.length + 2) text.toList = some (raw, rest) ∧ skipBlanks rest = [] := by
  rw [parse?] at h
  split at h
  case h_2 => cases h
  case h_1 raw rest hread =>
    split at h
    case isFalse => cases h
    case isTrue hend =>
      cases h
      exact ⟨rest, hread, List.isEmpty_iff.mp hend⟩

end Heads

private theorem JsonReader.literal_of_value {depth : Nat} {raw : RawJson} {x : Double}
    (h : JsonReader.value depth raw = some (.double x)) :
    ∃ literal, raw = .number literal ∧ literal.value? = some (.double x) := by
  cases raw with
  | null | bool => cases h
  | number literal =>
    rw [value] at h
    obtain ⟨n | y, hvalue, heq⟩ := Option.map_eq_some_iff.mp h
    · cases heq
    · cases heq
      exact ⟨literal, rfl, hvalue⟩
  | string parts =>
    rw [value] at h
    obtain ⟨_, -, heq⟩ := Option.map_eq_some_iff.mp h
    cases heq
  | array | object =>
    cases depth with
    | zero =>
      rw [value] at h
      cases h
    | succ depth =>
      rw [value] at h
      obtain ⟨_, -, heq⟩ := Option.map_eq_some_iff.mp h
      cases heq

/-- A number that reads back is a literal of its own. -/
theorem Double.ReadsBack.literal {x : Double} (h : x.ReadsBack) :
    ∃ literal, number? (writeDouble x) = some (literal, []) ∧
      literal.value? = some (.double x) := by
  obtain ⟨raw, hparse, hvalue⟩ := Option.bind_eq_some_iff.mp h
  obtain ⟨literal, rfl, hliteral⟩ := JsonReader.literal_of_value hvalue
  refine ⟨literal, ?_, hliteral⟩
  obtain ⟨rest, hread, hend⟩ := exists_of_parse? hparse
  have hnumber := number?_of_value? hread
  have hchars := (isWord_writeDouble x).2
  rw [compactText, String.toList_ofList, compact, skipBlanks_word hchars] at hnumber
  -- what is left of a word is a word, so there is no blank in it
  have hrest : ∀ c ∈ rest, isWordChar c = true := fun c hc =>
    hchars c ((number?_stops _ _ _ hnumber).1.subset hc)
  rw [skipBlanks_word hrest] at hend
  rw [hnumber, hend]

namespace Json

section Values

variable {depth steps : Nat} {rest : List Char}

private theorem readsAt_null : ReadsAt depth .null := by
  rintro (_ | steps) rest - hsteps
  · cases hsteps
  · exact ⟨.null, rfl, rfl⟩

private theorem readsAt_bool (b : Bool) : ReadsAt depth (.bool b) := by
  rintro (_ | steps) rest - hsteps
  · cases b <;> cases hsteps
  · cases b
    · exact ⟨.bool false, rfl, rfl⟩
    · exact ⟨.bool true, rfl, rfl⟩

/-- A value that is written as a number literal is read as what the literal stands for. -/
theorem readsAt_literal {v : Json} {literal : NumberLiteral}
    (hnumber : number? v.compact = some (literal, []))
    (hvalue : JsonReader.value depth (.number literal) = some v) : ReadsAt depth v := by
  intro steps rest hrest hsteps
  obtain ⟨-, hstays⟩ := number?_stops _ _ _ hnumber
  obtain ⟨c, tail, hhead, -, -⟩ := v.compact_head
  rw [hhead, List.length_cons] at hsteps
  obtain ⟨steps, rfl⟩ := Nat.exists_eq_add_of_le' (Nat.le_of_add_left_le hsteps)
  exact ⟨.number literal, value?_number (hstays rest hrest), hvalue⟩

private theorem readsAt_integer {n : Int} (hlow : -2 ^ 63 ≤ n) (hhigh : n < 2 ^ 64) :
    ReadsAt depth (.integer n) := by
  refine readsAt_literal (number?_writeInt n) ?_
  rw [JsonReader.value, value?_integerLiteral hlow hhigh]
  rfl

private theorem readsAt_double {x : Double} (h : x.ReadsBack) : ReadsAt depth (.double x) := by
  obtain ⟨literal, hnumber, hvalue⟩ := h.literal
  refine readsAt_literal hnumber ?_
  rw [JsonReader.value, hvalue]
  rfl

private theorem readsAt_string (text : String) : ReadsAt depth (.string text) := by
  rintro (_ | steps) rest - hsteps
  · cases hsteps
  · refine ⟨.string (text.toList.map quotedPart), ?_, ?_⟩
    · rw [compact, quote, List.cons_append, List.append_assoc, value?, skipBlanks_cons rfl]
      simp only [List.singleton_append, stringBody?_quote, Option.map_some]
    · rw [JsonReader.value, text_quotedPart, Option.map_some]

section Steps

variable {text : List Char} {key : String} {raw : RawJson}

private theorem items?_last (h : value? steps text = some (raw, ']' :: rest)) :
    items? (steps + 1) text = some ([raw], rest) := by
  rw [items?, h]
  rfl

private theorem items?_more (h : value? steps text = some (raw, ',' :: rest)) :
    items? (steps + 1) text = (items? steps rest).map fun read => (raw :: read.1, read.2) := by
  rw [items?, h]
  rfl

private theorem members?_last (h : value? steps text = some (raw, '\x7d' :: rest)) :
    members? (steps + 1) (quote key ++ ':' :: text) =
      some ([(key.toList.map quotedPart, raw)], rest) := by
  rw [quote, List.cons_append, List.append_assoc, members?, skipBlanks_cons rfl]
  simp only [List.singleton_append, stringBody?_quote]
  rw [skipBlanks_cons rfl]
  simp only [h]
  rfl

private theorem members?_more (h : value? steps text = some (raw, ',' :: rest)) :
    members? (steps + 1) (quote key ++ ':' :: text) = (members? steps rest).map fun read =>
      ((key.toList.map quotedPart, raw) :: read.1, read.2) := by
  rw [quote, List.cons_append, List.append_assoc, members?, skipBlanks_cons rfl]
  simp only [List.singleton_append, stringBody?_quote]
  rw [skipBlanks_cons rfl]
  simp only [h]
  rfl

private theorem members_quoted {v : Json} {sorted : List (String × Json)}
    {entries : List (List StringPart × RawJson)} (h : JsonReader.value depth raw = some v) :
    JsonReader.members depth sorted ((key.toList.map quotedPart, raw) :: entries) =
      JsonReader.members depth (JsonReader.insertMember key v sorted) entries := by
  rw [JsonReader.members, text_quotedPart, h]

end Steps

/-- The items of an array up to its end, each read where it stands. -/
theorem items?_compact (rest : List Char) {items : List Json} (hne : items ≠ [])
    (hitems : ∀ item ∈ items, ReadsAt depth item)
    (hsteps : (commas (compactItems items)).length < steps) :
    ∃ raws, items? steps (commas (compactItems items) ++ ']' :: rest) = some (raws, rest) ∧
      JsonReader.values depth raws = some items := by
  induction items generalizing steps with
  | nil => exact absurd rfl hne
  | cons item items ih =>
    obtain ⟨hitem, hitems⟩ := List.forall_mem_cons.mp hitems
    obtain ⟨steps, rfl⟩ := Nat.exists_eq_succ_of_ne_zero (Nat.ne_zero_of_lt hsteps)
    cases items with
    | nil =>
      obtain ⟨raw, hread, hvalue⟩ := hitem steps (']' :: rest) (closes_cons rfl)
        (Nat.le_of_lt_succ hsteps)
      refine ⟨[raw], items?_last hread, ?_⟩
      rw [JsonReader.values, hvalue]
      rfl
    | cons next items =>
      have hcommas : commas (compactItems (item :: next :: items)) =
          item.compact ++ ',' :: commas (compactItems (next :: items)) := rfl
      rw [hcommas, List.length_append, List.length_cons] at hsteps
      obtain ⟨raw, hread, hvalue⟩ := hitem steps
        (',' :: (commas (compactItems (next :: items)) ++ ']' :: rest)) (closes_cons rfl) (by omega)
      obtain ⟨raws, hreads, hvalues⟩ := ih (List.cons_ne_nil next items) hitems
        (show (commas (compactItems (next :: items))).length < steps by omega)
      refine ⟨raw :: raws, ?_, ?_⟩
      · rw [hcommas, List.append_assoc, List.cons_append, items?_more hread, hreads]
        rfl
      · rw [JsonReader.values, hvalue, hvalues]

/-- The members of an object up to its end, each read where it stands and put behind those that
have been read. -/
theorem members?_compact (sorted : List (String × Json)) (rest : List Char)
    {members : List (String × Json)} (hne : members ≠ []) (hkeys : Ascending (sorted ++ members))
    (hmembers : ∀ member ∈ members, ReadsAt depth member.2)
    (hsteps : (commas (compactMembers members)).length < steps) :
    ∃ raws, members? steps (commas (compactMembers members) ++ '\x7d' :: rest) =
        some (raws, rest) ∧
      JsonReader.members depth sorted raws = some (sorted ++ members) := by
  induction members generalizing steps sorted with
  | nil => exact absurd rfl hne
  | cons member members ih =>
    obtain ⟨key, v⟩ := member
    obtain ⟨hmember, hmembers⟩ := List.forall_mem_cons.mp hmembers
    obtain ⟨steps, rfl⟩ := Nat.exists_eq_succ_of_ne_zero (Nat.ne_zero_of_lt hsteps)
    have hlast : JsonReader.insertMember key v sorted = sorted ++ [(key, v)] :=
      JsonReader.insertMember_last fun member hmember =>
        (List.pairwise_append.mp hkeys).2.2 member hmember _ List.mem_cons_self
    have happend : sorted ++ (key, v) :: members = sorted ++ [(key, v)] ++ members :=
      List.append_cons ..
    rw [happend] at hkeys ⊢
    cases members with
    | nil =>
      have hcommas : commas (compactMembers [(key, v)]) = quote key ++ ':' :: v.compact := rfl
      rw [hcommas, List.length_append, List.length_cons] at hsteps
      obtain ⟨raw, hread, hvalue⟩ := hmember steps ('\x7d' :: rest) (closes_cons rfl)
        (show v.compact.length ≤ steps by omega)
      refine ⟨[(key.toList.map quotedPart, raw)], ?_, ?_⟩
      · rw [hcommas, List.append_assoc, List.cons_append]
        exact members?_last hread
      · rw [members_quoted hvalue, hlast, List.append_nil]
        rfl
    | cons next members =>
      have hcommas : commas (compactMembers ((key, v) :: next :: members)) =
          quote key ++ ':' :: v.compact ++ ',' :: commas (compactMembers (next :: members)) := rfl
      rw [hcommas, List.length_append, List.length_append, List.length_cons,
        List.length_cons] at hsteps
      obtain ⟨raw, hread, hvalue⟩ := hmember steps
        (',' :: (commas (compactMembers (next :: members)) ++ '\x7d' :: rest)) (closes_cons rfl)
        (show v.compact.length ≤ steps by omega)
      obtain ⟨raws, hreads, hvalues⟩ := ih _ (List.cons_ne_nil next members) hkeys hmembers
        (show (commas (compactMembers (next :: members))).length < steps by omega)
      refine ⟨(key.toList.map quotedPart, raw) :: raws, ?_, ?_⟩
      · rw [hcommas, List.append_assoc, List.append_assoc, List.cons_append, List.cons_append,
          members?_more hread, hreads]
        rfl
      · rw [members_quoted hvalue, hlast, hvalues]

private theorem readsAt_array {items : List Json} (h : ∀ item ∈ items, ReadsAt depth item) :
    ReadsAt (depth + 1) (.array items) := by
  intro steps rest hrest hsteps
  rw [compact, List.length_cons, List.length_append, List.length_singleton] at hsteps
  obtain ⟨steps, rfl⟩ := Nat.exists_eq_succ_of_ne_zero (Nat.ne_zero_of_lt hsteps)
  rw [compact, List.cons_append, List.append_assoc, List.singleton_append]
  cases items with
  | nil => exact ⟨.array [], rfl, rfl⟩
  | cons item items =>
    obtain ⟨raws, hread, hvalues⟩ := items?_compact rest (List.cons_ne_nil item items) h
      (show (commas (compactItems (item :: items))).length < steps by omega)
    obtain ⟨c, tail, hhead, hblank, hne⟩ := item.compact_head
    rw [compactItems, commas_cons, hhead, List.cons_append, List.cons_append] at hread ⊢
    refine ⟨.array raws, ?_, ?_⟩
    · rw [value?, skipBlanks_cons rfl]
      simp only [skipBlanks_cons hblank]
      split
      case h_1 heq => exact absurd (List.cons.inj heq).1 hne
      case h_2 => rw [hread, Option.map_some]
    · rw [JsonReader.value, hvalues, Option.map_some]

private theorem readsAt_object {members : List (String × Json)} (hkeys : Ascending members)
    (h : ∀ member ∈ members, ReadsAt depth member.2) : ReadsAt (depth + 1) (.object members) := by
  intro steps rest hrest hsteps
  rw [compact, List.length_cons, List.length_append, List.length_singleton] at hsteps
  obtain ⟨steps, rfl⟩ := Nat.exists_eq_succ_of_ne_zero (Nat.ne_zero_of_lt hsteps)
  rw [compact, List.cons_append, List.append_assoc, List.singleton_append]
  cases members with
  | nil => exact ⟨.object [], rfl, rfl⟩
  | cons member members =>
    obtain ⟨raws, hread, hvalues⟩ := members?_compact [] rest (List.cons_ne_nil member members)
      hkeys h (show (commas (compactMembers (member :: members))).length < steps by omega)
    rw [compactMembers, commas_cons, quote, List.cons_append, List.cons_append,
      List.cons_append] at hread ⊢
    refine ⟨.object raws, ?_, ?_⟩
    · rw [value?, skipBlanks_cons rfl]
      simp only [skipBlanks_cons (show isBlank '"' = false from rfl)]
      split
      case h_1 heq => exact absurd (List.cons.inj heq).1 (by decide)
      case h_2 => rw [hread, Option.map_some]
    · rw [JsonReader.value, hvalues]
      rfl

/-- Values that can be read are read wherever their text stands, if their floating-point numbers
are. -/
theorem Readable.readsAt {v : Json} (h : Readable depth v)
    (hdoubles : ∀ x ∈ v.doubles, x.ReadsBack) : ReadsAt depth v := by
  induction h with
  | null => exact readsAt_null
  | bool value => exact readsAt_bool value
  | integer hlow hhigh => exact readsAt_integer hlow hhigh
  | double value => exact readsAt_double (hdoubles value List.mem_cons_self)
  | string text => exact readsAt_string text
  | array hitems ih =>
    rw [doubles, itemDoubles_eq] at hdoubles
    exact readsAt_array fun item hitem => ih item hitem fun x hx =>
      hdoubles x (List.mem_flatMap.mpr ⟨item, hitem, hx⟩)
  | object hkeys hmembers ih =>
    rw [doubles, memberDoubles_eq] at hdoubles
    exact readsAt_object hkeys fun member hmember => ih member hmember fun x hx =>
      hdoubles x (List.mem_flatMap.mpr ⟨member, hmember, hx⟩)

end Values

/-- The compact text of a value is read as that value. -/
theorem Readable.run_compactText {v : Json} (h : Readable JsonReader.maxDepth v)
    (hdoubles : ∀ x ∈ v.doubles, x.ReadsBack) : JsonReader.value.run v.compactText = some v := by
  obtain ⟨raw, hread, hvalue⟩ := h.readsAt hdoubles (2 * v.compactText.length + 2) []
    (fun _ hc => nomatch hc) (by rw [compactText, String.length_ofList]; omega)
  rw [List.append_nil] at hread
  have hparse : parse? v.compactText = some raw := by
    rw [parse?, compactText, String.toList_ofList, ← compactText, hread]
    rfl
  rw [JsonReader.run, hparse]
  exact hvalue

/-- So one compact text is that of one value. -/
theorem Readable.eq_of_compactText {v v' : Json} (h : Readable JsonReader.maxDepth v)
    (h' : Readable JsonReader.maxDepth v') (hdoubles : ∀ x ∈ v.doubles, x.ReadsBack)
    (hdoubles' : ∀ x ∈ v'.doubles, x.ReadsBack) (htext : v.compactText = v'.compactText) :
    v = v' := by
  have hread := h.run_compactText hdoubles
  rw [htext, h'.run_compactText hdoubles'] at hread
  exact (Option.some.inj hread).symm

end Json

end Arboretum
