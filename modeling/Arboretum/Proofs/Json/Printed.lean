import Arboretum.Proofs.Json.Quoted
import Arboretum.Proofs.Numeric.Numerals

/-!
What can be seen of a JSON value in its compact text. Numbers, truth values and null are words
without a structure; a string, an array and an object are seen as what they are. The text decides
all of this: it is a prefix code as long as no character of a word follows.
-/

namespace Arboretum

open Json Numeral

/-- A text without quotes, commas or brackets. -/
structure Word where
  text : List Char
  nonempty : text ≠ []
  chars : ∀ c ∈ text, isWordChar c = true

theorem Word.ext {w w' : Word} (h : w.text = w'.text) : w = w' := by
  cases w
  cases w'
  cases h
  rfl

/-- A value as its text shows it. -/
inductive Printed where
  | word (word : Word)
  | string (text : String)
  | array (items : List Printed)
  | object (members : List (String × Printed))

namespace Printed

mutual

def text : Printed → List Char
  | word w => w.text
  | string s => quote s
  | array items => '[' :: (commas (itemTexts items) ++ [']'])
  | object members => '\x7b' :: (commas (memberTexts members) ++ ['\x7d'])

def itemTexts : List Printed → List (List Char)
  | [] => []
  | item :: rest => item.text :: itemTexts rest

def memberTexts : List (String × Printed) → List (List Char)
  | [] => []
  | (key, value) :: rest => (quote key ++ ':' :: value.text) :: memberTexts rest

end

private theorem itemTexts_eq (items : List Printed) : itemTexts items = items.map text := by
  induction items with
  | nil => rfl
  | cons item rest ih => rw [itemTexts, ih, List.map_cons]

private theorem memberTexts_eq (members : List (String × Printed)) :
    memberTexts members = members.map fun member => quote member.1 ++ ':' :: member.2.text := by
  induction members with
  | nil => rfl
  | cons member rest ih => rw [memberTexts, ih, List.map_cons]

end Printed

/-- No word goes on here. -/
def Closes (text : List Char) : Prop := ∀ c ∈ text.head?, isWordChar c = false

theorem closes_cons {c : Char} {text : List Char} (h : isWordChar c = false) :
    Closes (c :: text) := by
  intro d hd
  cases hd
  exact h

private theorem takeWhile_word {word rest : List Char} (hword : ∀ c ∈ word, isWordChar c = true)
    (hrest : Closes rest) : (word ++ rest).takeWhile isWordChar = word := by
  rw [List.takeWhile_append_of_pos hword]
  cases rest with
  | nil => rw [List.takeWhile_nil, List.append_nil]
  | cons c rest =>
    rw [List.takeWhile_cons_of_neg (by rw [hrest c rfl]; exact Bool.false_ne_true), List.append_nil]

theorem commas_cons (text : List Char) (texts : List (List Char)) :
    commas (text :: texts) = text ++ texts.flatMap (',' :: ·) := by
  induction texts generalizing text with
  | nil => rw [commas, List.flatMap_nil, List.append_nil]
  | cons next texts ih =>
    rw [commas, ih, List.flatMap_cons, List.cons_append]
    exact List.cons_ne_nil next texts

section Separated

variable {α : Type} {text : α → List Char} {close : Char} {xs ys : List α} {s t : List Char}

private theorem closes_separated (hclose : isWordChar close = false) :
    Closes ((xs.map text).flatMap (',' :: ·) ++ close :: s) := by
  cases xs with
  | nil => exact closes_cons hclose
  | cons x xs => exact closes_cons rfl

/-- Texts behind commas can be told apart if what stands between two commas can. -/
theorem separated_inj (hclose : isWordChar close = false) (hcomma : close ≠ ',')
    (hinj : ∀ x ∈ xs, ∀ y s t, Closes s → Closes t → text x ++ s = text y ++ t → x = y ∧ s = t)
    (h : (xs.map text).flatMap (',' :: ·) ++ close :: s =
      (ys.map text).flatMap (',' :: ·) ++ close :: t) : xs = ys ∧ s = t := by
  induction xs generalizing ys with
  | nil =>
    cases ys with
    | nil => exact ⟨rfl, (List.cons.inj h).2⟩
    | cons y ys => exact absurd (List.cons.inj h).1 hcomma
  | cons x xs ih =>
    cases ys with
    | nil => exact absurd (List.cons.inj h).1.symm hcomma
    | cons y ys =>
      simp only [List.map_cons, List.flatMap_cons, List.cons_append, List.append_assoc,
        List.cons.injEq, true_and] at h
      obtain ⟨rfl, htail⟩ := hinj x (List.mem_cons_self ..) y _ _ (closes_separated hclose)
        (closes_separated hclose) h
      obtain ⟨rfl, hrest⟩ := ih (fun x hx => hinj x (List.mem_cons_of_mem _ hx)) htail
      exact ⟨rfl, hrest⟩

/-- The same without a comma in front of the first text, which must not begin like the end. -/
theorem commas_inj (hclose : isWordChar close = false) (hcomma : close ≠ ',')
    (hhead : ∀ x, ∃ c rest, text x = c :: rest ∧ c ≠ close)
    (hinj : ∀ x ∈ xs, ∀ y s t, Closes s → Closes t → text x ++ s = text y ++ t → x = y ∧ s = t)
    (h : commas (xs.map text) ++ close :: s = commas (ys.map text) ++ close :: t) :
    xs = ys ∧ s = t := by
  cases xs with
  | nil =>
    cases ys with
    | nil => exact ⟨rfl, (List.cons.inj h).2⟩
    | cons y ys =>
      obtain ⟨c, rest, hc, hne⟩ := hhead y
      rw [List.map_cons, commas_cons, hc] at h
      exact absurd (List.cons.inj h).1.symm hne
  | cons x xs =>
    cases ys with
    | nil =>
      obtain ⟨c, rest, hc, hne⟩ := hhead x
      rw [List.map_cons, commas_cons, hc] at h
      exact absurd (List.cons.inj h).1 hne
    | cons y ys =>
      -- A comma in front of both sides brings them under the lemma for separated texts.
      rw [List.map_cons, List.map_cons, commas_cons, commas_cons] at h
      exact separated_inj hclose hcomma hinj (congrArg (',' :: ·) h)

end Separated

namespace Printed

theorem text_head (p : Printed) :
    ∃ c rest, p.text = c :: rest ∧ c ≠ ']' ∧ c ≠ '}' := by
  cases p with
  | word w =>
    obtain ⟨c, rest, hw⟩ := List.exists_cons_of_ne_nil w.nonempty
    have hc := w.chars c (hw ▸ List.mem_cons_self ..)
    refine ⟨c, rest, hw, ?_, ?_⟩
    · rintro rfl
      cases hc
    · rintro rfl
      cases hc
  | string s => exact ⟨'"', _, rfl, by decide, by decide⟩
  | array items => exact ⟨'[', _, rfl, by decide, by decide⟩
  | object members => exact ⟨'{', _, rfl, by decide, by decide⟩

private theorem member_head (member : String × Printed) :
    ∃ c rest, quote member.1 ++ ':' :: member.2.text = c :: rest ∧ c ≠ '\x7d' :=
  ⟨'"', _, rfl, by decide⟩

private theorem word_ne {w : Word} {c : Char} {rest s : List Char} (hc : isWordChar c = false) :
    w.text ++ s ≠ c :: rest := by
  intro h
  obtain ⟨d, tail, hw⟩ := List.exists_cons_of_ne_nil w.nonempty
  have hd := w.chars d (hw ▸ List.mem_cons_self ..)
  rw [hw] at h
  rw [(List.cons.inj h).1, hc] at hd
  cases hd

/-- What is printed can be told from what follows it, as long as no word goes on there. -/
theorem text_append_inj (p q : Printed) {s t : List Char} (hs : Closes s) (ht : Closes t)
    (h : p.text ++ s = q.text ++ t) : p = q ∧ s = t := by
  match p, q with
  | word w, word w' =>
    have hword := congrArg (List.takeWhile isWordChar) h
    rw [text, text, takeWhile_word w.chars hs, takeWhile_word w'.chars ht] at hword
    obtain rfl := Word.ext hword
    exact ⟨rfl, List.append_cancel_left h⟩
  | string s, string s' =>
    obtain ⟨rfl, hrest⟩ := quote_append_inj h
    exact ⟨rfl, hrest⟩
  | array xs, array ys =>
    simp only [text, itemTexts_eq, List.cons_append, List.append_assoc, List.nil_append,
      List.cons.injEq, true_and] at h
    have hhead : ∀ p : Printed, ∃ c rest, p.text = c :: rest ∧ c ≠ ']' := fun p => by
      obtain ⟨c, rest, hp, hne, -⟩ := p.text_head
      exact ⟨c, rest, hp, hne⟩
    have hinj : ∀ x ∈ xs, ∀ y s t, Closes s → Closes t → text x ++ s = text y ++ t →
        x = y ∧ s = t := fun x hx y s t => text_append_inj x y
    obtain ⟨rfl, hrest⟩ := commas_inj rfl (by decide) hhead hinj h
    exact ⟨rfl, hrest⟩
  | object xs, object ys =>
    simp only [text, memberTexts_eq, List.cons_append, List.append_assoc, List.nil_append,
      List.cons.injEq, true_and] at h
    have hinj : ∀ x ∈ xs, ∀ (y : String × Printed) (s t : List Char), Closes s → Closes t →
        quote x.1 ++ ':' :: x.2.text ++ s = quote y.1 ++ ':' :: y.2.text ++ t →
        x = y ∧ s = t := by
      intro x hx y s t hs ht hxy
      rw [List.append_assoc, List.append_assoc] at hxy
      obtain ⟨hkey, hvalue⟩ := quote_append_inj hxy
      have hsmaller := List.sizeOf_lt_of_mem hx
      have hpart : sizeOf x.2 < sizeOf x := by
        cases x
        simp
      obtain ⟨hsame, hrest⟩ := text_append_inj x.2 y.2 hs ht (List.cons.inj hvalue).2
      exact ⟨Prod.ext hkey hsame, hrest⟩
    obtain ⟨rfl, hrest⟩ := commas_inj rfl (by decide) member_head hinj h
    exact ⟨rfl, hrest⟩
  | word w, string _ | word w, array _ | word w, object _ => exact absurd h (word_ne rfl)
  | string _, word w | array _, word w | object _, word w => exact absurd h.symm (word_ne rfl)
  | string _, array _ | string _, object _ | array _, string _ | array _, object _
  | object _, string _ | object _, array _ => cases (List.cons.inj h).1
termination_by p

end Printed

end Arboretum
