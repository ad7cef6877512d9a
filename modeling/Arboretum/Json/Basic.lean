import Arboretum.Numeric.Scalar
import Arboretum.Numeric.Shortest

/-!
JSON values and their two printed forms. The members of an object keep the order they are given
in. Integers are exact; a floating-point number is written with the shortest digits that read back
at its own width.
-/

namespace Arboretum

inductive Json where
  | null
  | bool (value : Bool)
  | integer (value : Int)
  | single (value : Single)
  | double (value : Double)
  | string (value : String)
  | array (items : List Json)
  | object (members : List (String × Json))
  deriving Inhabited, Repr

namespace Json

/-- Doubles are positional from `1e-5` to below `1e16`. -/
def doubleLayout : DecimalLayout := ⟨-5, 15⟩

/-- Singles are positional from `1e-6` to below `1e13`. -/
def singleLayout : DecimalLayout := ⟨-6, 12⟩

def nullText : List Char := ['n', 'u', 'l', 'l']

def hexDigit (n : Nat) : Char :=
  if n < 10 then .ofNat (48 + n) else .ofNat (87 + n)

/-- Quotes, backslashes and control characters are escaped; all else stands as it is. -/
def escape (c : Char) : List Char :=
  if c = '"' then ['\\', '"']
  else if c = '\\' then ['\\', '\\']
  else if 32 ≤ c.toNat then [c]
  else match c.toNat with
    | 8 => ['\\', 'b']
    | 9 => ['\\', 't']
    | 10 => ['\\', 'n']
    | 12 => ['\\', 'f']
    | 13 => ['\\', 'r']
    | n => ['\\', 'u', '0', '0', hexDigit (n / 16), hexDigit (n % 16)]

def quote (text : String) : List Char := '"' :: (text.toList.flatMap escape ++ ['"'])

/-- A number without a sign of its own is written in decimal digits. -/
def writeInt (n : Int) : List Char :=
  if n < 0 then '-' :: Nat.toDigits 10 n.natAbs else Nat.toDigits 10 n.natAbs

/-- A number that is not finite is written as `null`. -/
def writeSingle (x : Single) : List Char :=
  (singleLayout.writeWord? .binary32 x.bits.toNat).getD nullText

def writeDouble (x : Double) : List Char :=
  (doubleLayout.writeWord? .binary64 x.bits.toNat).getD nullText

def commas : List (List Char) → List Char
  | [] => []
  | [text] => text
  | text :: rest => text ++ ',' :: commas rest

mutual

/-- Write a value without any blank. -/
def compact : Json → List Char
  | null => nullText
  | bool value => if value then ['t', 'r', 'u', 'e'] else ['f', 'a', 'l', 's', 'e']
  | integer n => writeInt n
  | single x => writeSingle x
  | double x => writeDouble x
  | string text => quote text
  | array items => '[' :: (commas (compactItems items) ++ [']'])
  | object members => '\x7b' :: (commas (compactMembers members) ++ ['\x7d'])

def compactItems : List Json → List (List Char)
  | [] => []
  | item :: rest => item.compact :: compactItems rest

def compactMembers : List (String × Json) → List (List Char)
  | [] => []
  | (key, value) :: rest => (quote key ++ ':' :: value.compact) :: compactMembers rest

end

/-- A line break and two blanks for each level of nesting. -/
def newline (depth : Nat) : List Char := '\n' :: List.replicate (2 * depth) ' '

/-- Wrap the items of a container, one a line; a container without items stays on its line. -/
def wrap (depth : Nat) (opening closing : Char) (texts : List (List Char)) : List Char :=
  if texts.isEmpty then [opening, closing]
  else opening :: (commas (texts.map (newline (depth + 1) ++ ·)) ++ newline depth ++ [closing])

mutual

/-- Write a value that stands inside `depth` containers with one item a line. -/
def pretty (depth : Nat) : Json → List Char
  | array items => wrap depth '[' ']' (prettyItems (depth + 1) items)
  | object members => wrap depth '\x7b' '\x7d' (prettyMembers (depth + 1) members)
  | value => value.compact

def prettyItems (depth : Nat) : List Json → List (List Char)
  | [] => []
  | item :: rest => item.pretty depth :: prettyItems depth rest

def prettyMembers (depth : Nat) : List (String × Json) → List (List Char)
  | [] => []
  | (key, value) :: rest =>
    (quote key ++ ':' :: ' ' :: value.pretty depth) :: prettyMembers depth rest

end

def compactText (value : Json) : String := .ofList value.compact

def prettyText (value : Json) : String := .ofList (value.pretty 0)

end Json

end Arboretum
