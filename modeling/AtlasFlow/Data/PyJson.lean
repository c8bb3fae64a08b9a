import AtlasFlow.Data.Json

/-!
# JSON texts as Python writes and reads them

`json.dumps` with its defaults and `json.loads`. The writer leaves only ASCII, with the code units of other
characters escaped; the reader takes a text apart from left to right. `loads_dumps` is the round trip, for
values without numbers.
-/

namespace PyJson

/-! ## Writing -/

/-- `'\\u{0:04x}'.format(unit)`. -/
def escapeUnit (unit : Nat) : List Char :=
  ['\\', 'u', Nat.digitChar (unit / 4096 % 16), Nat.digitChar (unit / 256 % 16), Nat.digitChar (unit / 16 % 16),
    Nat.digitChar (unit % 16)]

/-- What one character of a string is written as. -/
def escape (c : Char) : List Char :=
  if c = '"' then ['\\', '"']
  else if c = '\\' then ['\\', '\\']
  else if c = '\n' then ['\\', 'n']
  else if c = '\r' then ['\\', 'r']
  else if c = '\t' then ['\\', 't']
  else if c.toNat = 0x08 then ['\\', 'b']
  else if c.toNat = 0x0C then ['\\', 'f']
  else if 0x20 ≤ c.toNat ∧ c.toNat ≤ 0x7E then [c]
  else if c.toNat < 0x10000 then escapeUnit c.toNat
  else escapeUnit (0xD800 + (c.toNat - 0x10000) / 0x400) ++ escapeUnit (0xDC00 + (c.toNat - 0x10000) % 0x400)

def stringText (s : String) : List Char := '"' :: (s.toList.flatMap escape ++ ['"'])

mutual

def dumps : Json → List Char
  | .null => ['n', 'u', 'l', 'l']
  | .bool true => ['t', 'r', 'u', 'e']
  | .bool false => ['f', 'a', 'l', 's', 'e']
  | .num literal => literal.toList
  | .str s => stringText s
  | .arr items => '[' :: (dumpsItems items ++ [']'])
  | .obj members => '\x7b' :: (dumpsMembers members ++ ['\x7d'])

def dumpsItems : List Json → List Char
  | [] => []
  | [item] => dumps item
  | item :: item' :: items => dumps item ++ ',' :: ' ' :: dumpsItems (item' :: items)

def dumpsMembers : List (String × Json) → List Char
  | [] => []
  | [(key, value)] => stringText key ++ ':' :: ' ' :: dumps value
  | (key, value) :: member :: members =>
    stringText key ++ ':' :: ' ' :: (dumps value ++ ',' :: ' ' :: dumpsMembers (member :: members))

end

/-! ## Reading strings -/

def hexValue (c : Char) : Option Nat :=
  if c.isDigit then some (c.toNat - '0'.toNat)
  else if 'a' ≤ c ∧ c ≤ 'f' then some (c.toNat - 'a'.toNat + 10)
  else if 'A' ≤ c ∧ c ≤ 'F' then some (c.toNat - 'A'.toNat + 10)
  else none

/-- `_decode_uXXXX`. -/
def decodeUnit (a b c d : Char) : Option Nat := do
  return (((← hexValue a) * 16 + (← hexValue b)) * 16 + (← hexValue c)) * 16 + (← hexValue d)

/-- `BACKSLASH`. -/
def backslash : Char → Option Nat
  | '"' => some 0x22
  | '\\' => some 0x5C
  | '/' => some 0x2F
  | 'b' => some 0x08
  | 'f' => some 0x0C
  | 'n' => some 0x0A
  | 'r' => some 0x0D
  | 't' => some 0x09
  | _ => none

/-- The code units up to the closing quote, and what comes after it. A control character is refused. -/
def scan : List Char → Option (List Nat × List Char)
  | [] => none
  | '"' :: cs => some ([], cs)
  | '\\' :: 'u' :: a :: b :: c :: d :: cs =>
    (decodeUnit a b c d).bind fun unit => (scan cs).map fun (units, rest) => (unit :: units, rest)
  | '\\' :: c :: cs => (backslash c).bind fun unit => (scan cs).map fun (units, rest) => (unit :: units, rest)
  | c :: cs => if c.toNat < 0x20 then none else (scan cs).map fun (units, rest) => (c.toNat :: units, rest)

def isHigh (unit : Nat) : Bool := 0xD800 ≤ unit && unit ≤ 0xDBFF

def isLow (unit : Nat) : Bool := 0xDC00 ≤ unit && unit ≤ 0xDFFF

/-- A code unit that stands alone. Python keeps half of a pair as it is; no text of ours has one. -/
def charOf (unit : Nat) : Option Char := if unit.isValidChar then some (Char.ofNat unit) else none

/-- Two code units that are a pair are one character. -/
def join : List Nat → Option (List Char)
  | [] => some []
  | [unit] => (charOf unit).map fun c => [c]
  | high :: low :: units =>
    if isHigh high && isLow low then
      (join units).map (Char.ofNat (0x10000 + (high - 0xD800) * 0x400 + (low - 0xDC00)) :: ·)
    else (charOf high).bind fun c => (join (low :: units)).map (c :: ·)

/-- `scanstring`, after the opening quote. -/
def scanString (cs : List Char) : Option (String × List Char) :=
  (scan cs).bind fun (units, rest) => (join units).map fun cs => (String.ofList cs, rest)

/-! ## Reading values -/

def isSpace (c : Char) : Bool := c = ' ' || c = '\t' || c = '\n' || c = '\r'

def skip (cs : List Char) : List Char := cs.dropWhile isSpace

/-- The digits that a text begins with, at least one. -/
def digits (cs : List Char) : Option (List Char × List Char) :=
  if cs.takeWhile Char.isDigit = [] then none else some (cs.span Char.isDigit)

/-- `-?(?:0|[1-9]\d*)`. -/
def integerPart : List Char → Option (List Char × List Char)
  | '-' :: '0' :: cs => some (['-', '0'], cs)
  | '-' :: cs => (digits cs).map fun (ds, rest) => ('-' :: ds, rest)
  | '0' :: cs => some (['0'], cs)
  | cs => digits cs

/-- `(\.\d+)?`. -/
def fractionPart : List Char → List Char × List Char
  | '.' :: cs => match digits cs with
    | some (ds, rest) => ('.' :: ds, rest)
    | none => ([], '.' :: cs)
  | cs => ([], cs)

/-- `([eE][-+]?\d+)?`. -/
def exponentPart : List Char → List Char × List Char
  | e :: cs =>
    if e = 'e' ∨ e = 'E' then
      let (sign, body) := match cs with
        | '-' :: cs => (['-'], cs)
        | '+' :: cs => (['+'], cs)
        | cs => ([], cs)
      match digits body with
      | some (ds, rest) => (e :: (sign ++ ds), rest)
      | none => ([], e :: cs)
    else ([], e :: cs)
  | [] => ([], [])

def scanNumber (cs : List Char) : Option (Json × List Char) :=
  (integerPart cs).map fun (whole, cs) =>
    let (fraction, cs) := fractionPart cs
    let (exponent, cs) := exponentPart cs
    (.num (String.ofList (whole ++ fraction ++ exponent)), cs)

mutual

/-- `scan_once`. -/
def scanValue : Nat → List Char → Option (Json × List Char)
  | 0, _ => none
  | fuel + 1, cs =>
    match cs with
    | '"' :: cs => (scanString cs).map fun (s, rest) => (.str s, rest)
    | '\x7b' :: cs => match skip cs with
      | '\x7d' :: cs => some (.obj [], cs)
      | cs => (scanMembers fuel cs).map fun (members, rest) => (.obj members, rest)
    | '[' :: cs => match skip cs with
      | ']' :: cs => some (.arr [], cs)
      | cs => (scanItems fuel cs).map fun (items, rest) => (.arr items, rest)
    | 'n' :: 'u' :: 'l' :: 'l' :: cs => some (.null, cs)
    | 't' :: 'r' :: 'u' :: 'e' :: cs => some (.bool true, cs)
    | 'f' :: 'a' :: 'l' :: 's' :: 'e' :: cs => some (.bool false, cs)
    | 'N' :: 'a' :: 'N' :: cs => some (.num "NaN", cs)
    | 'I' :: 'n' :: 'f' :: 'i' :: 'n' :: 'i' :: 't' :: 'y' :: cs => some (.num "Infinity", cs)
    | '-' :: 'I' :: 'n' :: 'f' :: 'i' :: 'n' :: 'i' :: 't' :: 'y' :: cs => some (.num "-Infinity", cs)
    | cs => scanNumber cs

/-- The items of an array that is not empty, up to the closing bracket. -/
def scanItems : Nat → List Char → Option (List Json × List Char)
  | 0, _ => none
  | fuel + 1, cs =>
    (scanValue fuel cs).bind fun (item, cs) => match skip cs with
      | ']' :: cs => some ([item], cs)
      | ',' :: cs => (scanItems fuel (skip cs)).map fun (items, rest) => (item :: items, rest)
      | _ => none

/-- The members of an object that is not empty, up to the closing brace. -/
def scanMembers : Nat → List Char → Option (List (String × Json) × List Char)
  | 0, _ => none
  | fuel + 1, cs =>
    match cs with
    | '"' :: cs => (scanString cs).bind fun (key, cs) => match skip cs with
      | ':' :: cs => (scanValue fuel (skip cs)).bind fun (value, cs) => match skip cs with
        | '\x7d' :: cs => some ([(key, value)], cs)
        | ',' :: cs => (scanMembers fuel (skip cs)).map fun (members, rest) => ((key, value) :: members, rest)
        | _ => none
      | _ => none
    | _ => none

end

/-- `json.loads`, of a text that is one value. -/
def loads (cs : List Char) : Option Json :=
  (scanValue (cs.length + 1) (skip cs)).bind fun (j, rest) => if skip rest = [] then some j else none

/-! ## Strings are read back -/

/-- The code units of a character, as UTF-16 has them. -/
def unitsOf (c : Char) : List Nat :=
  if c.toNat < 0x10000 then [c.toNat]
  else [0xD800 + (c.toNat - 0x10000) / 0x400, 0xDC00 + (c.toNat - 0x10000) % 0x400]

section Strings

variable {c : Char} {cs rest : List Char} {unit : Nat}

theorem hexValue_digitChar (n : Nat) : hexValue (Nat.digitChar (n % 16)) = some (n % 16) := by
  have hall : ∀ d < 16, hexValue (Nat.digitChar d) = some d := by decide
  exact hall _ (Nat.mod_lt n (by decide))

theorem decodeUnit_digits (h : unit < 0x10000) :
    decodeUnit (Nat.digitChar (unit / 4096 % 16)) (Nat.digitChar (unit / 256 % 16))
      (Nat.digitChar (unit / 16 % 16)) (Nat.digitChar (unit % 16)) = some unit := by
  have hsum : ((unit / 4096 % 16 * 16 + unit / 256 % 16) * 16 + unit / 16 % 16) * 16 + unit % 16 = unit := by omega
  simp only [decodeUnit, hexValue_digitChar]
  exact congrArg some hsum

theorem scan_escapeUnit (h : unit < 0x10000) (rest : List Char) :
    scan (escapeUnit unit ++ rest) = (scan rest).map fun p => (unit :: p.1, p.2) := by
  show scan ('\\' :: 'u' :: _ :: _ :: _ :: _ :: rest) = _
  rw [scan, decodeUnit_digits h]
  rfl

/-- A character of the text that stands for itself. -/
theorem scan_plain (hquote : c ≠ '"') (hslash : c ≠ '\\') (h : 0x20 ≤ c.toNat) :
    scan (c :: rest) = (scan rest).map fun p => (c.toNat :: p.1, p.2) := by
  rw [scan]
  · rw [if_neg (Nat.not_lt.mpr h)]
  · exact hquote
  · intro a b c' d cs heq
    exact absurd heq hslash
  · intro a cs heq
    exact absurd heq hslash

theorem scan_backslash (hu : c ≠ 'u') (h : backslash c = some unit) :
    scan ('\\' :: c :: rest) = (scan rest).map fun p => (unit :: p.1, p.2) := by
  rw [scan]
  · rw [h]
    rfl
  · intro a b c' d cs heq
    exact absurd heq hu

theorem isValidChar_toNat (c : Char) : c.toNat < 0xD800 ∨ 0xDFFF < c.toNat ∧ c.toNat < 0x110000 := c.valid

theorem scan_escape (c : Char) (rest : List Char) :
    scan (escape c ++ rest) = (scan rest).map fun p => (unitsOf c ++ p.1, p.2) := by
  unfold escape
  by_cases hquote : c = '"'
  · rw [if_pos hquote, hquote]
    exact scan_backslash (by decide) rfl
  rw [if_neg hquote]
  by_cases hslash : c = '\\'
  · rw [if_pos hslash, hslash]
    exact scan_backslash (by decide) rfl
  rw [if_neg hslash]
  by_cases hn : c = '\n'
  · rw [if_pos hn, hn]
    exact scan_backslash (by decide) rfl
  rw [if_neg hn]
  by_cases hr : c = '\r'
  · rw [if_pos hr, hr]
    exact scan_backslash (by decide) rfl
  rw [if_neg hr]
  by_cases ht : c = '\t'
  · rw [if_pos ht, ht]
    exact scan_backslash (by decide) rfl
  rw [if_neg ht]
  by_cases hb : c.toNat = 0x08
  · rw [if_pos hb, unitsOf, if_pos (by omega), hb]
    exact scan_backslash (by decide) rfl
  rw [if_neg hb]
  by_cases hf : c.toNat = 0x0C
  · rw [if_pos hf, unitsOf, if_pos (by omega), hf]
    exact scan_backslash (by decide) rfl
  rw [if_neg hf]
  by_cases hplain : 0x20 ≤ c.toNat ∧ c.toNat ≤ 0x7E
  · rw [if_pos hplain, unitsOf, if_pos (by omega)]
    exact scan_plain hquote hslash hplain.1
  rw [if_neg hplain]
  by_cases hone : c.toNat < 0x10000
  · rw [if_pos hone, unitsOf, if_pos hone]
    exact scan_escapeUnit hone rest
  · have hmax := (isValidChar_toNat c).resolve_left (by omega)
    rw [if_neg hone, unitsOf, if_neg hone, List.append_assoc, scan_escapeUnit (by omega),
      scan_escapeUnit (by omega)]
    cases scan rest <;> rfl

theorem scan_escapes (cs rest : List Char) :
    scan (cs.flatMap escape ++ '"' :: rest) = some (cs.flatMap unitsOf, rest) := by
  induction cs with
  | nil => simp [scan]
  | cons c cs ih =>
      rw [List.flatMap_cons, List.append_assoc, scan_escape, ih]
      rfl

theorem charOf_toNat (c : Char) : charOf c.toNat = some c := by
  rw [charOf, if_pos (isValidChar_toNat c), Char.ofNat_toNat]

theorem join_cons_char {units : List Nat} (h : isHigh unit = false) :
    join (unit :: units) = (charOf unit).bind fun c => (join units).map (c :: ·) := by
  cases units with
  | nil => cases hc : charOf unit <;> simp [join, hc]
  | cons next units => rw [join, h, Bool.false_and, if_neg Bool.false_ne_true]

theorem join_unitsOf (c : Char) (units : List Nat) : join (unitsOf c ++ units) = (join units).map (c :: ·) := by
  have hvalid := isValidChar_toNat c
  unfold unitsOf
  split
  · have hhigh : isHigh c.toNat = false := by
      simp only [isHigh, Bool.and_eq_false_iff, decide_eq_false_iff_not]
      omega
    rw [List.singleton_append, join_cons_char hhigh, charOf_toNat]
    rfl
  · have hpair : isHigh (0xD800 + (c.toNat - 0x10000) / 0x400) = true ∧
        isLow (0xDC00 + (c.toNat - 0x10000) % 0x400) = true := by
      simp only [isHigh, isLow, Bool.and_eq_true, decide_eq_true_eq]
      omega
    have hsum : 0x10000 + (0xD800 + (c.toNat - 0x10000) / 0x400 - 0xD800) * 0x400 +
        (0xDC00 + (c.toNat - 0x10000) % 0x400 - 0xDC00) = c.toNat := by omega
    rw [List.cons_append, List.singleton_append, join, hpair.1, hpair.2, hsum, Char.ofNat_toNat]
    rfl

theorem join_units (cs : List Char) : join (cs.flatMap unitsOf) = some cs := by
  induction cs with
  | nil => rfl
  | cons c cs ih =>
      rw [List.flatMap_cons, join_unitsOf, ih]
      rfl

/-- A string is read back, whatever comes after it. -/
theorem scanString_text (s : String) (rest : List Char) :
    scanString (s.toList.flatMap escape ++ '"' :: rest) = some (s, rest) := by
  rw [scanString, scan_escapes]
  show (join _).map _ = _
  rw [join_units, Option.map_some, String.ofList_toList]

end Strings

/-! ## Values are read back -/

mutual

/-- There is no number in the value. -/
def isPlain : Json → Bool
  | .num _ => false
  | .arr items => arePlain items
  | .obj members => membersPlain members
  | _ => true

def arePlain : List Json → Bool
  | [] => true
  | item :: items => isPlain item && arePlain items

def membersPlain : List (String × Json) → Bool
  | [] => true
  | (_, value) :: members => isPlain value && membersPlain members

end

section Values

variable {j : Json} {c : Char} {cs rest : List Char} {fuel : Nat}

theorem skip_cons (h : isSpace c = false) : skip (c :: cs) = c :: cs := List.dropWhile_cons_of_neg (by simp [h])

theorem stringText_append (s : String) (rest : List Char) :
    stringText s ++ rest = '"' :: (s.toList.flatMap escape ++ '"' :: rest) := by
  simp [stringText]

/-- The text of a value begins with none of the characters that the reader looks for before a value. -/
theorem dumps_head (h : isPlain j = true) : ∃ c cs, dumps j = c :: cs ∧ isSpace c = false ∧ c ≠ ']' := by
  cases j with
  | null => exact ⟨'n', _, rfl, by decide, by decide⟩
  | bool b => cases b <;> exact ⟨_, _, rfl, by decide, by decide⟩
  | num literal => cases h
  | str s => exact ⟨'"', _, rfl, by decide, by decide⟩
  | arr items => exact ⟨'[', _, rfl, by decide, by decide⟩
  | obj members => exact ⟨'\x7b', _, rfl, by decide, by decide⟩

theorem scanValue_str (s : String) (rest : List Char) :
    scanValue (fuel + 1) (stringText s ++ rest) = some (.str s, rest) := by
  rw [stringText_append]
  show (scanString _).map _ = _
  rw [scanString_text]
  rfl

theorem scanValue_arr (h : isSpace c = false) (hc : c ≠ ']') :
    scanValue (fuel + 1) ('[' :: c :: cs) = (scanItems fuel (c :: cs)).map fun p => (.arr p.1, p.2) := by
  have hbracket : scanValue (fuel + 1) ('[' :: c :: cs) = match skip (c :: cs) with
      | ']' :: cs => some (.arr [], cs)
      | cs => (scanItems fuel cs).map fun p => (.arr p.1, p.2) := rfl
  rw [hbracket, skip_cons h]
  split
  · next heq => cases heq; exact absurd rfl hc
  · rfl

theorem scanValue_obj :
    scanValue (fuel + 1) ('\x7b' :: '"' :: cs) = (scanMembers fuel ('"' :: cs)).map fun p => (.obj p.1, p.2) := rfl

theorem skip_dumps (h : isPlain j = true) (rest : List Char) : skip (dumps j ++ rest) = dumps j ++ rest := by
  obtain ⟨c, cs, hj, hc, _⟩ := dumps_head h
  rw [hj, List.cons_append, skip_cons hc]

theorem skip_space (h : skip cs = cs) : skip (' ' :: cs) = cs := by
  rw [skip, List.dropWhile_cons_of_pos (by decide)]
  exact h

theorem dumpsItems_head {items : List Json} (h : arePlain (j :: items) = true) :
    ∃ c cs, dumpsItems (j :: items) = c :: cs ∧ isSpace c = false ∧ c ≠ ']' := by
  obtain ⟨c, cs, hj, hc⟩ := dumps_head (Bool.and_eq_true_iff.mp h).1
  cases items with
  | nil => exact ⟨c, cs, hj, hc⟩
  | cons item items => exact ⟨c, _, by rw [dumpsItems, hj, List.cons_append], hc⟩

theorem dumpsMembers_head (member : String × Json) (members : List (String × Json)) :
    ∃ cs, dumpsMembers (member :: members) = '"' :: cs := by
  cases members with
  | nil => exact ⟨_, rfl⟩
  | cons next members => exact ⟨_, rfl⟩

/-- After an item comes the end of the array, or a comma and the next item. -/
theorem scanItems_last (h : scanValue fuel cs = some (j, ']' :: rest)) :
    scanItems (fuel + 1) cs = some ([j], rest) := by
  rw [scanItems, h]
  rfl

theorem scanItems_next {after : List Char} {items : List Json} (h : scanValue fuel cs = some (j, ',' :: after))
    (hrest : scanItems fuel (skip after) = some (items, rest)) : scanItems (fuel + 1) cs = some (j :: items, rest) := by
  rw [scanItems, h]
  show (scanItems fuel (skip after)).map _ = _
  rw [hrest]
  rfl

/-- After a member comes the end of the object, or a comma and the next member. -/
theorem scanMembers_last {key : String} {body : List Char} (hkey : scanString cs = some (key, ':' :: body))
    (h : scanValue fuel (skip body) = some (j, '\x7d' :: rest)) :
    scanMembers (fuel + 1) ('"' :: cs) = some ([(key, j)], rest) := by
  rw [scanMembers, hkey]
  show (scanValue fuel (skip body)).bind _ = _
  rw [h]
  rfl

theorem scanMembers_next {key : String} {body after : List Char} {members : List (String × Json)}
    (hkey : scanString cs = some (key, ':' :: body)) (h : scanValue fuel (skip body) = some (j, ',' :: after))
    (hrest : scanMembers fuel (skip after) = some (members, rest)) :
    scanMembers (fuel + 1) ('"' :: cs) = some ((key, j) :: members, rest) := by
  rw [scanMembers, hkey]
  show (scanValue fuel (skip body)).bind _ = _
  rw [h]
  show (scanMembers fuel (skip after)).map _ = _
  rw [hrest]
  rfl

end Values

theorem length_dumps_arr (items : List Json) : (dumps (.arr items)).length = (dumpsItems items).length + 2 := by
  rw [dumps, List.length_cons, List.length_append, List.length_singleton]

theorem length_dumps_obj (members : List (String × Json)) :
    (dumps (.obj members)).length = (dumpsMembers members).length + 2 := by
  rw [dumps, List.length_cons, List.length_append, List.length_singleton]

theorem length_dumpsItems_next (item next : Json) (items : List Json) :
    (dumpsItems (item :: next :: items)).length =
      (dumps item).length + 2 + (dumpsItems (next :: items)).length := by
  rw [dumpsItems, List.length_append, List.length_cons, List.length_cons]
  omega

theorem length_dumpsMembers_next (key : String) (value : Json) (next : String × Json)
    (members : List (String × Json)) :
    (dumps value).length + 2 + (dumpsMembers (next :: members)).length <
      (dumpsMembers ((key, value) :: next :: members)).length := by
  rw [dumpsMembers, List.length_append, List.length_cons, List.length_cons, List.length_append, List.length_cons,
    List.length_cons]
  omega

theorem length_dumpsMembers_last (key : String) (value : Json) :
    (dumps value).length < (dumpsMembers [(key, value)]).length := by
  rw [dumpsMembers, List.length_append, List.length_cons, List.length_cons]
  omega

mutual

/-- Fuel for every character of its text is enough to read a value. -/
theorem scanValue_dumps : ∀ (j : Json), isPlain j = true → ∀ (fuel : Nat) (rest : List Char),
    (dumps j).length ≤ fuel → scanValue fuel (dumps j ++ rest) = some (j, rest)
  | .null, _, fuel, rest, hfuel => by
      cases fuel with
      | zero => cases hfuel
      | succ fuel => rfl
  | .bool b, _, fuel, rest, hfuel => by
      cases fuel with
      | zero => cases b <;> cases hfuel
      | succ fuel => cases b <;> rfl
  | .num literal, h, _, _, _ => by cases h
  | .str s, _, fuel, rest, hfuel => by
      cases fuel with
      | zero => cases hfuel
      | succ fuel => exact scanValue_str s rest
  | .arr [], _, fuel, rest, hfuel => by
      cases fuel with
      | zero => cases hfuel
      | succ fuel => rfl
  | .arr (item :: items), h, fuel, rest, hfuel => by
      cases fuel with
      | zero => cases hfuel
      | succ fuel =>
          obtain ⟨c, cs, hitems, hspace, hc⟩ := dumpsItems_head h
          rw [length_dumps_arr] at hfuel
          have hread := scanItems_dumps (item :: items) (List.cons_ne_nil _ _) h fuel rest (by omega)
          rw [dumps, List.cons_append, List.append_assoc, List.singleton_append]
          rw [hitems, List.cons_append] at hread ⊢
          rw [scanValue_arr hspace hc, hread]
          rfl
  | .obj [], _, fuel, rest, hfuel => by
      cases fuel with
      | zero => cases hfuel
      | succ fuel => rfl
  | .obj (member :: members), h, fuel, rest, hfuel => by
      cases fuel with
      | zero => cases hfuel
      | succ fuel =>
          obtain ⟨cs, hmembers⟩ := dumpsMembers_head member members
          rw [length_dumps_obj] at hfuel
          have hread := scanMembers_dumps (member :: members) (List.cons_ne_nil _ _) h fuel rest (by omega)
          rw [dumps, List.cons_append, List.append_assoc, List.singleton_append]
          rw [hmembers, List.cons_append] at hread ⊢
          rw [scanValue_obj, hread]
          rfl

theorem scanItems_dumps : ∀ (items : List Json), items ≠ [] → arePlain items = true →
    ∀ (fuel : Nat) (rest : List Char), (dumpsItems items).length < fuel →
      scanItems fuel (dumpsItems items ++ ']' :: rest) = some (items, rest)
  | [], hne, _, _, _, _ => absurd rfl hne
  | [item], _, h, fuel, rest, hfuel => by
      cases fuel with
      | zero => cases hfuel
      | succ fuel =>
          have hplain := (Bool.and_eq_true_iff.mp h).1
          exact scanItems_last (scanValue_dumps item hplain fuel _ (Nat.le_of_lt_succ hfuel))
  | item :: next :: items, _, h, fuel, rest, hfuel => by
      cases fuel with
      | zero => cases hfuel
      | succ fuel =>
          obtain ⟨hplain, hrest⟩ := Bool.and_eq_true_iff.mp h
          obtain ⟨c, cs, hitems, hspace, _⟩ := dumpsItems_head hrest
          have hskip : skip (dumpsItems (next :: items) ++ ']' :: rest) =
              dumpsItems (next :: items) ++ ']' :: rest := by
            rw [hitems, List.cons_append, skip_cons hspace]
          rw [length_dumpsItems_next] at hfuel
          rw [dumpsItems, List.append_assoc, List.cons_append, List.cons_append]
          refine scanItems_next (scanValue_dumps item hplain fuel _ (by omega)) ?_
          rw [skip_space hskip]
          exact scanItems_dumps (next :: items) (List.cons_ne_nil _ _) hrest fuel rest (by omega)

theorem scanMembers_dumps : ∀ (members : List (String × Json)), members ≠ [] → membersPlain members = true →
    ∀ (fuel : Nat) (rest : List Char), (dumpsMembers members).length < fuel →
      scanMembers fuel (dumpsMembers members ++ '\x7d' :: rest) = some (members, rest)
  | [], hne, _, _, _, _ => absurd rfl hne
  | [(key, value)], _, h, fuel, rest, hfuel => by
      cases fuel with
      | zero => cases hfuel
      | succ fuel =>
          have hplain := (Bool.and_eq_true_iff.mp h).1
          have hlength := length_dumpsMembers_last key value
          rw [dumpsMembers, List.append_assoc, List.cons_append, List.cons_append, stringText_append]
          refine scanMembers_last (scanString_text key _) ?_
          rw [skip_space (skip_dumps hplain _)]
          exact scanValue_dumps value hplain fuel _ (by omega)
  | (key, value) :: next :: members, _, h, fuel, rest, hfuel => by
      cases fuel with
      | zero => cases hfuel
      | succ fuel =>
          obtain ⟨hplain, hrest⟩ := Bool.and_eq_true_iff.mp h
          obtain ⟨cs, hmembers⟩ := dumpsMembers_head next members
          have hafter : skip (dumpsMembers (next :: members) ++ '\x7d' :: rest) =
              dumpsMembers (next :: members) ++ '\x7d' :: rest := by
            rw [hmembers, List.cons_append, skip_cons (by decide)]
          have hlength := length_dumpsMembers_next key value next members
          rw [dumpsMembers, List.append_assoc, List.cons_append, List.cons_append, List.append_assoc,
            List.cons_append, List.cons_append, stringText_append]
          have hvalue := scanValue_dumps value hplain fuel
            (',' :: ' ' :: (dumpsMembers (next :: members) ++ '\x7d' :: rest)) (by omega)
          rw [← skip_space (skip_dumps hplain _)] at hvalue
          refine scanMembers_next (scanString_text key _) hvalue ?_
          rw [skip_space hafter]
          exact scanMembers_dumps (next :: members) (List.cons_ne_nil _ _) hrest fuel rest (by omega)

end

/-- What was written is read back. -/
theorem loads_dumps {j : Json} (h : isPlain j = true) : loads (dumps j) = some j := by
  have hskip : skip (dumps j) = dumps j := by
    have hnil := skip_dumps h []
    rwa [List.append_nil] at hnil
  have hread := scanValue_dumps j h ((dumps j).length + 1) [] (Nat.le_succ _)
  rw [List.append_nil] at hread
  rw [loads, hskip, hread]
  rfl

end PyJson
