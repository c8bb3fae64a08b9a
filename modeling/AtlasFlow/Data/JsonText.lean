import AtlasFlow.Data.Json

/-!
# The text of a JSON value

`JsonNode.ToJsonString()`: no blanks, and in a string every character that is not plain ASCII, or has a
meaning in HTML, is escaped. A text so written has no line end in it, and whoever reads the text of an
object knows where it ends (`firstDocument_text`), so texts that are written one per line can be told
apart.
-/

namespace Json

/-! ## Writing -/

def hexDigit (n : Nat) : Char := (Nat.digitChar (n % 16)).toUpper

/-- `\uXXXX` -/
def escapeUnit (unit : Nat) : List Char :=
  ['\\', 'u', hexDigit (unit / 4096), hexDigit (unit / 256), hexDigit (unit / 16), hexDigit unit]

/-- What `JavaScriptEncoder.Default` leaves as it is: ASCII, but for the double quote, the ampersand, the
apostrophe, the plus sign, the angle brackets, the backslash, the grave accent and the controls. -/
def isPlain (c : Char) : Bool :=
  0x20 ≤ c.toNat && c.toNat < 0x7F && !([0x22, 0x26, 0x27, 0x2B, 0x3C, 0x3E, 0x5C, 0x60].contains c.toNat)

def escape (c : Char) : List Char :=
  if isPlain c then [c]
  else match c.toNat with
    | 0x08 => ['\\', 'b']
    | 0x09 => ['\\', 't']
    | 0x0A => ['\\', 'n']
    | 0x0C => ['\\', 'f']
    | 0x0D => ['\\', 'r']
    | 0x5C => ['\\', '\\']
    | n =>
      if n < 0x10000 then escapeUnit n
      else escapeUnit (0xD800 + (n - 0x10000) / 0x400) ++ escapeUnit (0xDC00 + (n - 0x10000) % 0x400)

def stringText (s : String) : List Char := '"' :: (s.toList.flatMap escape ++ ['"'])

/-- The characters that number literals are made of. -/
def isLiteral (c : Char) : Bool := c.isDigit || c = '-' || c = '+' || c = '.' || c = 'e' || c = 'E'

mutual

/-- A number is written as it was read. -/
def text : Json → List Char
  | .null => ['n', 'u', 'l', 'l']
  | .bool true => ['t', 'r', 'u', 'e']
  | .bool false => ['f', 'a', 'l', 's', 'e']
  | .num literal => literal.toList.filter isLiteral
  | .str s => stringText s
  | .arr items => '[' :: (textItems items ++ [']'])
  | .obj members => '{' :: (textMembers members ++ ['}'])

def textItems : List Json → List Char
  | [] => []
  | [item] => text item
  | item :: item' :: items => text item ++ ',' :: textItems (item' :: items)

def textMembers : List (String × Json) → List Char
  | [] => []
  | [(key, value)] => stringText key ++ ':' :: text value
  | (key, value) :: member :: members => stringText key ++ ':' :: (text value ++ ',' :: textMembers (member :: members))

end

def toJsonString (j : Json) : String := String.ofList j.text

/-! ### Indented -/

/-- The beginning of a line, two blanks to each level. -/
def newLine (lineEnd : List Char) (depth : Nat) : List Char := lineEnd ++ List.replicate (2 * depth) ' '

mutual

/-- The text over several lines, as a `Utf8JsonWriter` writes it that is asked to indent. -/
def indented (lineEnd : List Char) (depth : Nat) : Json → List Char
  | .arr (item :: items) =>
    '[' :: (newLine lineEnd (depth + 1) ++ indented lineEnd (depth + 1) item ++
      indentedItems lineEnd (depth + 1) items ++ newLine lineEnd depth ++ [']'])
  | .obj ((key, value) :: members) =>
    '{' :: (newLine lineEnd (depth + 1) ++ stringText key ++ ':' :: ' ' :: indented lineEnd (depth + 1) value ++
      indentedMembers lineEnd (depth + 1) members ++ newLine lineEnd depth ++ ['}'])
  | j => text j

def indentedItems (lineEnd : List Char) (depth : Nat) : List Json → List Char
  | [] => []
  | item :: items => ',' :: (newLine lineEnd depth ++ indented lineEnd depth item ++ indentedItems lineEnd depth items)

def indentedMembers (lineEnd : List Char) (depth : Nat) : List (String × Json) → List Char
  | [] => []
  | (key, value) :: members =>
    ',' :: (newLine lineEnd depth ++ stringText key ++ ':' :: ' ' :: indented lineEnd depth value ++
      indentedMembers lineEnd depth members)

end

/-- `JsonNode.ToString()`: a string without its quotes, everything else indented. -/
def nodeToString (lineEnd : List Char) : Json → String
  | .str s => s
  | j => String.ofList (indented lineEnd 0 j)

/-! ## Reading -/

/-- What follows the bracket that closes the `depth + 1` brackets that are open; `quoted` inside a
string. -/
def close (quoted : Bool) (depth : Nat) : List Char → Option (List Char)
  | [] => none
  | c :: cs =>
    if quoted then
      if c = '\\' then
        match cs with
        | [] => none
        | _ :: cs => close true depth cs
      else close (c ≠ '"') depth cs
    else if c = '"' then close true depth cs
    else if c = '{' ∨ c = '[' then close false (depth + 1) cs
    else if c = '}' ∨ c = ']' then
      match depth with
      | 0 => some cs
      | depth + 1 => close false depth cs
    else close false depth cs

/-- What follows the first document of a text that begins with an object. -/
def firstDocument : List Char → Option (List Char)
  | '{' :: cs => close false 0 cs
  | _ => none

/-! ### Characters -/

/-- A character that changes nothing inside a string. -/
def Quotable (c : Char) : Prop := c ≠ '\\' ∧ c ≠ '"'

/-- A character that changes nothing outside of strings. -/
def Neutral (c : Char) : Prop := c ≠ '"' ∧ c ≠ '{' ∧ c ≠ '[' ∧ c ≠ '}' ∧ c ≠ ']'

section Characters

variable {depth : Nat} {c : Char} {cs rest : List Char}

theorem close_quotable (h : Quotable c) : close true depth (c :: rest) = close true depth rest := by
  rw [close.eq_def]
  simp [h.1, h.2]

theorem close_escaped : close true depth ('\\' :: c :: rest) = close true depth rest := by
  rw [close.eq_def]
  simp

theorem close_neutral (h : Neutral c) : close false depth (c :: rest) = close false depth rest := by
  obtain ⟨hquote, hbrace, hbracket, hbrace', hbracket'⟩ := h
  rw [close.eq_def]
  simp [hquote, hbrace, hbracket, hbrace', hbracket']

theorem close_neutrals (h : ∀ c ∈ cs, Neutral c) : close false depth (cs ++ rest) = close false depth rest := by
  induction cs with
  | nil => rfl
  | cons c cs ih =>
      rw [List.cons_append, close_neutral (h c List.mem_cons_self)]
      exact ih fun c' hc' => h c' (List.mem_cons_of_mem c hc')

theorem hexDigit_spec (n : Nat) : Quotable (hexDigit n) ∧ hexDigit n ≠ '\n' := by
  have h : ∀ m < 16, Quotable (hexDigit m) ∧ hexDigit m ≠ '\n' := by
    unfold Quotable
    decide
  have hmod : hexDigit n = hexDigit (n % 16) := by rw [hexDigit, hexDigit, Nat.mod_mod]
  rw [hmod]
  exact h (n % 16) (Nat.mod_lt n (by decide))

theorem close_escapeUnit (unit : Nat) :
    close true depth (escapeUnit unit ++ rest) = close true depth rest := by
  simp only [escapeUnit, List.cons_append, List.nil_append]
  rw [close_escaped, close_quotable (hexDigit_spec _).1, close_quotable (hexDigit_spec _).1,
    close_quotable (hexDigit_spec _).1, close_quotable (hexDigit_spec _).1]

theorem newline_not_mem_escapeUnit (unit : Nat) : '\n' ∉ escapeUnit unit := by
  simp [escapeUnit, (hexDigit_spec _).2.symm]

theorem quotable_of_isPlain (h : isPlain c = true) : Quotable c ∧ c ≠ '\n' := by
  refine ⟨⟨?_, ?_⟩, ?_⟩ <;> rintro rfl <;> revert h <;> decide

theorem quotable_escape (c : Char) (depth : Nat) (rest : List Char) :
    close true depth (escape c ++ rest) = close true depth rest ∧ '\n' ∉ escape c := by
  unfold escape
  split
  · next hplain =>
      obtain ⟨hquotable, hnewline⟩ := quotable_of_isPlain hplain
      exact ⟨close_quotable hquotable, by simpa using hnewline.symm⟩
  · split
    case h_7 =>
      split
      · exact ⟨close_escapeUnit _, newline_not_mem_escapeUnit _⟩
      · rw [List.append_assoc, close_escapeUnit, close_escapeUnit]
        refine ⟨rfl, fun hmem => ?_⟩
        rcases List.mem_append.mp hmem with h | h <;> exact newline_not_mem_escapeUnit _ h
    all_goals exact ⟨close_escaped, by decide⟩

theorem close_stringText (s : String) (depth : Nat) (rest : List Char) :
    close false depth (stringText s ++ rest) = close false depth rest := by
  have hbody : ∀ cs : List Char, close true depth (cs.flatMap escape ++ '"' :: rest) = close false depth rest := by
    intro cs
    induction cs with
    | nil =>
        rw [List.flatMap_nil, List.nil_append, close.eq_def]
        simp
    | cons c cs ih =>
        rw [List.flatMap_cons, List.append_assoc, (quotable_escape c depth _).1, ih]
  have hquote : close false depth (stringText s ++ rest) =
      close true depth (s.toList.flatMap escape ++ '"' :: rest) := by
    rw [stringText, List.cons_append, close.eq_def]
    simp
  rw [hquote, hbody]

theorem newline_not_mem_stringText (s : String) : '\n' ∉ stringText s := by
  simp [stringText, (quotable_escape _ 0 []).2]

end Characters

/-! ### Values -/

theorem neutral_of_isLiteral {c : Char} (h : isLiteral c = true) : Neutral c ∧ c ≠ '\n' := by
  refine ⟨⟨?_, ?_, ?_, ?_, ?_⟩, ?_⟩ <;> rintro rfl <;> revert h <;> decide

mutual

/-- The text of a value leaves the brackets around it as they are. -/
theorem close_text : ∀ (j : Json) (depth : Nat) (rest : List Char),
    close false depth (text j ++ rest) = close false depth rest
  | .null, _, _ => by rw [text, close_neutrals (by simp [Neutral])]
  | .bool true, _, _ => by rw [text, close_neutrals (by simp [Neutral])]
  | .bool false, _, _ => by rw [text, close_neutrals (by simp [Neutral])]
  | .num literal, _, _ => by
      rw [text, close_neutrals fun c hc => (neutral_of_isLiteral (List.mem_filter.mp hc).2).1]
  | .str s, depth, rest => by rw [text, close_stringText]
  | .arr items, depth, rest => by
      have hopen : close false depth (text (.arr items) ++ rest) =
          close false (depth + 1) (textItems items ++ ']' :: rest) := by
        rw [text, List.cons_append, List.append_assoc, close.eq_def]
        simp
      rw [hopen, close_textItems, close.eq_def]
      simp
  | .obj members, depth, rest => by
      have hopen : close false depth (text (.obj members) ++ rest) =
          close false (depth + 1) (textMembers members ++ '}' :: rest) := by
        rw [text, List.cons_append, List.append_assoc, close.eq_def]
        simp
      rw [hopen, close_textMembers, close.eq_def]
      simp

theorem close_textItems : ∀ (items : List Json) (depth : Nat) (rest : List Char),
    close false depth (textItems items ++ rest) = close false depth rest
  | [], _, _ => rfl
  | [item], depth, rest => by rw [textItems, close_text item]
  | item :: item' :: items, depth, rest => by
      rw [textItems, List.append_assoc, close_text item, List.cons_append,
        close_neutral (by unfold Neutral; decide), close_textItems (item' :: items)]

theorem close_textMembers : ∀ (members : List (String × Json)) (depth : Nat) (rest : List Char),
    close false depth (textMembers members ++ rest) = close false depth rest
  | [], _, _ => rfl
  | [(key, value)], depth, rest => by
      rw [textMembers, List.append_assoc, close_stringText, List.cons_append,
        close_neutral (by unfold Neutral; decide), close_text value]
  | (key, value) :: member :: members, depth, rest => by
      rw [textMembers, List.append_assoc, close_stringText, List.cons_append,
        close_neutral (by unfold Neutral; decide), List.append_assoc, close_text value, List.cons_append,
        close_neutral (by unfold Neutral; decide), close_textMembers (member :: members)]

end

mutual

/-- A value is written on one line. -/
theorem newline_not_mem_text : ∀ j : Json, '\n' ∉ text j
  | .null => by decide
  | .bool true => by decide
  | .bool false => by decide
  | .num literal => by
      rw [text]
      exact fun h => (neutral_of_isLiteral (List.mem_filter.mp h).2).2 rfl
  | .str s => by
      rw [text]
      exact newline_not_mem_stringText s
  | .arr items => by simp [text, newline_not_mem_textItems items]
  | .obj members => by simp [text, newline_not_mem_textMembers members]

theorem newline_not_mem_textItems : ∀ items : List Json, '\n' ∉ textItems items
  | [] => List.not_mem_nil
  | [item] => newline_not_mem_text item
  | item :: item' :: items => by
      simp [textItems, newline_not_mem_text item, newline_not_mem_textItems (item' :: items)]

theorem newline_not_mem_textMembers : ∀ members : List (String × Json), '\n' ∉ textMembers members
  | [] => List.not_mem_nil
  | [(key, value)] => by simp [textMembers, newline_not_mem_stringText, newline_not_mem_text value]
  | (key, value) :: member :: members => by
      simp [textMembers, newline_not_mem_stringText, newline_not_mem_text value,
        newline_not_mem_textMembers (member :: members)]

end

/-- Whoever reads the text of an object knows where it ends. -/
theorem firstDocument_text (members : List (String × Json)) (rest : List Char) :
    firstDocument (text (.obj members) ++ rest) = some rest := by
  rw [text, List.cons_append, List.append_assoc, firstDocument, close_textMembers, List.cons_append, close.eq_def]
  simp

end Json
