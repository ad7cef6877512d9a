import Arboretum.Json.Number

/-!
JSON text as a tree of uninterpreted tokens. The grammar is decided here; what a number or an
escape means, how deep a value may nest and what repeated keys do is left to those who read the
tree, since a field that nobody reads may hold a number out of range or half a surrogate pair.
-/

namespace Arboretum

/-- A character of a string literal: itself, or a UTF-16 unit given by its number. -/
inductive StringPart where
  | char (c : Char)
  | unit (code : Nat)
  deriving Repr

/-- The text of a string literal; nothing if surrogates do not come in pairs. -/
def unescape? : List StringPart → Option (List Char)
  | [] => some []
  | .char c :: rest => (unescape? rest).map (c :: ·)
  | .unit high :: rest =>
    if 0xD800 ≤ high ∧ high < 0xDC00 then
      match rest with
      | .unit low :: rest =>
        if 0xDC00 ≤ low ∧ low < 0xE000 then
          (unescape? rest).map (.ofNat (0x10000 + (high - 0xD800) * 0x400 + (low - 0xDC00)) :: ·)
        else none
      | _ => none
    else if 0xDC00 ≤ high ∧ high < 0xE000 then none
    else (unescape? rest).map (.ofNat high :: ·)

inductive RawJson where
  | null
  | bool (value : Bool)
  | number (literal : NumberLiteral)
  | string (parts : List StringPart)
  | array (items : List RawJson)
  | object (members : List (List StringPart × RawJson))
  deriving Repr, Inhabited

namespace RawJson

def isBlank (c : Char) : Bool := c == ' ' || c == '\n' || c == '\t' || c == '\r'

def skipBlanks (text : List Char) : List Char := text.dropWhile isBlank

def digit? (c : Char) : Option Nat := if '0' ≤ c ∧ c ≤ '9' then some (c.toNat - 48) else none

def hexDigit? (c : Char) : Option Nat :=
  if '0' ≤ c ∧ c ≤ '9' then some (c.toNat - 48)
  else if 'a' ≤ c ∧ c ≤ 'f' then some (c.toNat - 87)
  else if 'A' ≤ c ∧ c ≤ 'F' then some (c.toNat - 55)
  else none

/-- The digits at the head of the text, and the rest. -/
def digits : List Char → List Nat × List Char
  | [] => ([], [])
  | c :: rest =>
    match digit? c with
    | none => ([], c :: rest)
    | some digit =>
      let (more, rest) := digits rest
      (digit :: more, rest)

def someDigits? (text : List Char) : Option (List Nat × List Char) :=
  match digits text with
  | ([], _) => none
  | found => some found

def fraction? : List Char → Option (Option (List Nat) × List Char)
  | '.' :: text => (someDigits? text).map fun (digits, rest) => (some digits, rest)
  | text => some (none, text)

def exponent? : List Char → Option (Option (Bool × List Nat) × List Char)
  | c :: text =>
    if c = 'e' ∨ c = 'E' then
      let (negative, text) : Bool × List Char :=
        match text with
        | '-' :: text => (true, text)
        | '+' :: text => (false, text)
        | text => (false, text)
      (someDigits? text).map fun (digits, rest) => (some (negative, digits), rest)
    else some (none, c :: text)
  | [] => some (none, [])

/-- A number literal; a zero in front of another digit is no number. -/
def number? (text : List Char) : Option (NumberLiteral × List Char) := do
  let (negative, text) : Bool × List Char :=
    match text with
    | '-' :: text => (true, text)
    | text => (false, text)
  let (whole, text) ← someDigits? text
  if whole.head? = some 0 ∧ 1 < whole.length then none
  let (fraction, text) ← fraction? text
  let (exponent, text) ← exponent? text
  return (⟨negative, whole, fraction, exponent⟩, text)

def hexUnit? (a b c d : Char) : Option Nat := do
  return (((← hexDigit? a) * 16 + (← hexDigit? b)) * 16 + (← hexDigit? c)) * 16 + (← hexDigit? d)

/-- The rest of a string literal after its opening quote. -/
def stringBody? : List Char → Option (List StringPart × List Char)
  | [] => none
  | '"' :: rest => some ([], rest)
  | '\\' :: 'u' :: a :: b :: c :: d :: rest =>
    match hexUnit? a b c d, stringBody? rest with
    | some code, some (parts, rest) => some (.unit code :: parts, rest)
    | _, _ => none
  | '\\' :: c :: rest =>
    let plain : Option Char :=
      match c with
      | '"' => some '"'
      | '\\' => some '\\'
      | '/' => some '/'
      | 'b' => some (.ofNat 8)
      | 'f' => some (.ofNat 12)
      | 'n' => some '\n'
      | 'r' => some '\r'
      | 't' => some '\t'
      | _ => none
    match plain, stringBody? rest with
    | some c, some (parts, rest) => some (.char c :: parts, rest)
    | _, _ => none
  | c :: rest =>
    if c.toNat < 32 then none
    else (stringBody? rest).map fun (parts, rest) => (.char c :: parts, rest)

mutual

/-- A value at the head of the text, leading blanks allowed. The first argument bounds the steps;
twice the length of the text is always enough, since two steps use up a character. -/
def value? : Nat → List Char → Option (RawJson × List Char)
  | 0, _ => none
  | steps + 1, text =>
    match skipBlanks text with
    | 'n' :: 'u' :: 'l' :: 'l' :: rest => some (.null, rest)
    | 't' :: 'r' :: 'u' :: 'e' :: rest => some (.bool true, rest)
    | 'f' :: 'a' :: 'l' :: 's' :: 'e' :: rest => some (.bool false, rest)
    | '"' :: rest => (stringBody? rest).map fun (parts, rest) => (.string parts, rest)
    | '[' :: rest =>
      match skipBlanks rest with
      | ']' :: rest => some (.array [], rest)
      | rest => (items? steps rest).map fun (items, rest) => (.array items, rest)
    | '\x7b' :: rest =>
      match skipBlanks rest with
      | '\x7d' :: rest => some (.object [], rest)
      | rest => (members? steps rest).map fun (members, rest) => (.object members, rest)
    | text => (number? text).map fun (literal, rest) => (.number literal, rest)

def items? : Nat → List Char → Option (List RawJson × List Char)
  | 0, _ => none
  | steps + 1, text =>
    match value? steps text with
    | none => none
    | some (item, rest) =>
      match skipBlanks rest with
      | ']' :: rest => some ([item], rest)
      | ',' :: rest => (items? steps rest).map fun (items, rest) => (item :: items, rest)
      | _ => none

def members? : Nat → List Char → Option (List (List StringPart × RawJson) × List Char)
  | 0, _ => none
  | steps + 1, text =>
    match skipBlanks text with
    | '"' :: rest =>
      match stringBody? rest with
      | none => none
      | some (key, rest) =>
        match skipBlanks rest with
        | ':' :: rest =>
          match value? steps rest with
          | none => none
          | some (value, rest) =>
            match skipBlanks rest with
            | '\x7d' :: rest => some ([(key, value)], rest)
            | ',' :: rest =>
              (members? steps rest).map fun (members, rest) => ((key, value) :: members, rest)
            | _ => none
        | _ => none
    | _ => none

end

/-- A whole text as one value; only blanks may follow it. -/
def parse? (text : String) : Option RawJson :=
  match value? (2 * text.length + 2) text.toList with
  | some (value, rest) => if (skipBlanks rest).isEmpty then some value else none
  | none => none

end RawJson

end Arboretum
