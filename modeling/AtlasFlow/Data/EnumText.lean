import Mathlib.Algebra.Group.Int.Defs

/-!
# Enumerations as text

`Enum.TryParse(text, ignoreCase: true, out value)` for an enumeration over `int`: a number, or the
names of members separated by commas, whose values are or-ed. Any number is accepted, whether or not
a member has it. The text is the list of its characters; a member is its name and its value.
-/

namespace EnumText

/-- `char.IsWhiteSpace`. -/
def isWhiteSpace (c : Char) : Bool :=
  let n := c.toNat
  (0x9 ≤ n && n ≤ 0xD) || n = 0x20 || n = 0x85 || n = 0xA0 || n = 0x1680 ||
    (0x2000 ≤ n && n ≤ 0x200A) || n = 0x2028 || n = 0x2029 || n = 0x202F || n = 0x205F || n = 0x3000

def trimStart (cs : List Char) : List Char := cs.dropWhile isWhiteSpace

def trim (cs : List Char) : List Char := (trimStart (trimStart cs).reverse).reverse

/-- `StringComparison.OrdinalIgnoreCase`, where one side is ASCII: no other character is equal to an
ASCII one under it. -/
def equalsIgnoreCase (a b : List Char) : Bool := a.map Char.toUpper = b.map Char.toUpper

/-! ## Numbers -/

inductive ParsingStatus
  | ok (value : Int)
  | failed
  | overflow

/-- What may follow the digits: blanks, then characters U+0000. -/
def trailing (cs : List Char) : Bool :=
  (cs.dropWhile fun c => c = ' ' || (0x9 ≤ c.toNat && c.toNat ≤ 0xD)).all fun c => c.toNat = 0

def number (digits : List Char) : Nat := digits.foldl (fun n c => 10 * n + (c.toNat - 48)) 0

/-- An `int` with `AllowLeadingSign` and `AllowTrailingWhite`. -/
def parseInt32 (cs : List Char) : ParsingStatus :=
  let negative := cs.head? = some '-'
  let unsigned := if negative || cs.head? = some '+' then cs.tail else cs
  let digits := unsigned.takeWhile Char.isDigit
  let value : Int := if negative then -(number digits : Int) else number digits
  if digits = [] || !trailing (unsigned.dropWhile Char.isDigit) then .failed
  else if -2 ^ 31 ≤ value && value < 2 ^ 31 then .ok value
  else .overflow

/-! ## Names -/

/-- The parts between commas; a comma at the very end is an error. The empty text has no parts. -/
def parts : List Char → List Char → Option (List (List Char))
  | [], [] => some []
  | part, [] => some [part.reverse]
  | part, c :: cs =>
    if c = ',' then
      if cs = [] then none else (parts [] cs).map (part.reverse :: ·)
    else parts (c :: part) cs

def tryParseByName (members : List (String × Nat)) (cs : List Char) : Option Int := do
  let names ← parts [] cs
  let values ← names.mapM fun name =>
    (members.find? fun m => equalsIgnoreCase (trim name) m.1.toList).map Prod.snd
  return (values.foldl Nat.lor 0 : Nat)

/-- `Enum.TryParse` over the members of an enumeration. -/
def tryParse (members : List (String × Nat)) (text : String) : Option Int :=
  match trimStart text.toList with
  | [] => none
  | c :: cs =>
    if c.isDigit || c = '-' || c = '+' then
      match parseInt32 (c :: cs) with
      | .ok value => some value
      | .failed => tryParseByName members (c :: cs)
      | .overflow => none
    else tryParseByName members (c :: cs)

end EnumText
