import Mathlib.Data.List.TakeDrop
import Mathlib.Data.List.TakeWhile
import Mathlib.Tactic.IntervalCases
import AtlasFlow.Data.JsonText
import AtlasFlow.Data.PyJson

/-!
# JSON texts of .NET, read back

`ToJsonString` writes what `Json.text` says. A reader of JSON takes such a text for the same value again (`loads_text`),
where the literals of numbers are numbers: strings come back from their escapes, and a literal ends where a comma or a
bracket begins.

Both the writer and the reader of .NET stop at a depth, and not at the same one: what is nested deeper than 64 and no
deeper than 1000 is written, and is not read (`parse_toJsonString`).
-/

namespace PyJson

/-! ## Literals of numbers -/

/-- What may come after a value: nothing, a comma or the end of what the value is in. -/
def Closes (rest : List Char) : Prop := rest = [] ∨ ∃ c cs, rest = c :: cs ∧ (c = ',' ∨ c = ']' ∨ c = '\x7d')

section Numbers

variable {c : Char} {cs rest : List Char} {p : List Char × List Char}

theorem Closes.takeWhile (h : Closes rest) : rest.takeWhile Char.isDigit = [] := by
  rcases h with rfl | ⟨c, cs, rfl, rfl | rfl | rfl⟩ <;> rfl

theorem takeWhile_append_closes (h : Closes rest) (cs : List Char) :
    (cs ++ rest).takeWhile Char.isDigit = cs.takeWhile Char.isDigit := by
  induction cs with
  | nil => exact h.takeWhile
  | cons c cs ih =>
    by_cases hc : c.isDigit = true
    · rw [List.cons_append, List.takeWhile_cons_of_pos hc, List.takeWhile_cons_of_pos hc, ih]
    · rw [List.cons_append, List.takeWhile_cons_of_neg hc, List.takeWhile_cons_of_neg hc]

theorem dropWhile_append_closes (h : Closes rest) (cs : List Char) :
    (cs ++ rest).dropWhile Char.isDigit = cs.dropWhile Char.isDigit ++ rest := by
  induction cs with
  | nil => rcases h with rfl | ⟨c, cs, rfl, rfl | rfl | rfl⟩ <;> rfl
  | cons c cs ih =>
    by_cases hc : c.isDigit = true
    · rw [List.cons_append, List.dropWhile_cons_of_pos hc, List.dropWhile_cons_of_pos hc, ih]
    · rw [List.cons_append, List.dropWhile_cons_of_neg hc, List.dropWhile_cons_of_neg hc, List.cons_append]

theorem digits_append (h : Closes rest) (cs : List Char) :
    digits (cs ++ rest) = (digits cs).map fun p => (p.1, p.2 ++ rest) := by
  unfold digits
  rw [takeWhile_append_closes h, List.span_eq_takeWhile_dropWhile, List.span_eq_takeWhile_dropWhile,
    takeWhile_append_closes h, dropWhile_append_closes h]
  split <;> rfl

theorem integerPart_minus (hc : c ≠ '0') :
    integerPart ('-' :: c :: cs) = (digits (c :: cs)).map fun p => ('-' :: p.1, p.2) := by
  rw [integerPart]
  intro cs' heq
  exact hc (List.cons.inj heq).1

theorem integerPart_plain (hminus : c ≠ '-') (hzero : c ≠ '0') : integerPart (c :: cs) = digits (c :: cs) := by
  rw [integerPart]
  · intro cs' heq
    exact hminus (List.cons.inj heq).1
  · intro cs' heq
    exact hminus (List.cons.inj heq).1
  · intro cs' heq
    exact hzero (List.cons.inj heq).1

theorem integerPart_append (h : Closes rest) (hpart : integerPart cs = some p) :
    integerPart (cs ++ rest) = some (p.1, p.2 ++ rest) := by
  cases cs with
  | nil => cases hpart
  | cons c cs =>
    by_cases hminus : c = '-'
    · subst hminus
      cases cs with
      | nil => cases hpart
      | cons d cs =>
        by_cases hd : d = '0'
        · subst hd
          obtain rfl := Option.some.inj hpart
          rfl
        · rw [integerPart_minus hd] at hpart
          obtain ⟨q, hq, rfl⟩ := Option.map_eq_some_iff.mp hpart
          rw [List.cons_append, List.cons_append, integerPart_minus hd, ← List.cons_append, digits_append h, hq]
          rfl
    · by_cases hzero : c = '0'
      · subst hzero
        obtain rfl := Option.some.inj hpart
        rfl
      · rw [integerPart_plain hminus hzero] at hpart
        rw [List.cons_append, integerPart_plain hminus hzero, ← List.cons_append, digits_append h, hpart]
        rfl

theorem fractionPart_append (h : Closes rest) (cs : List Char) :
    fractionPart (cs ++ rest) = ((fractionPart cs).1, (fractionPart cs).2 ++ rest) := by
  cases cs with
  | nil => rcases h with rfl | ⟨c, cs, rfl, rfl | rfl | rfl⟩ <;> rfl
  | cons c cs =>
    by_cases hpoint : c = '.'
    · subst hpoint
      rw [List.cons_append, fractionPart, fractionPart, digits_append h]
      cases digits cs <;> rfl
    · have hplain : ∀ cs, fractionPart (c :: cs) = ([], c :: cs) := by
        intro cs
        rw [fractionPart]
        intro cs' heq
        exact hpoint (List.cons.inj heq).1
      rw [List.cons_append, hplain, hplain, List.cons_append]

/-- The sign of an exponent, and what comes after it. -/
def signPart : List Char → List Char × List Char
  | '-' :: cs => (['-'], cs)
  | '+' :: cs => (['+'], cs)
  | cs => ([], cs)

theorem signPart_append (h : Closes rest) (cs : List Char) :
    signPart (cs ++ rest) = ((signPart cs).1, (signPart cs).2 ++ rest) := by
  cases cs with
  | nil => rcases h with rfl | ⟨c, cs, rfl, rfl | rfl | rfl⟩ <;> rfl
  | cons c cs =>
    by_cases hminus : c = '-'
    · subst hminus
      rfl
    by_cases hplus : c = '+'
    · subst hplus
      rfl
    · have hplain : ∀ cs, signPart (c :: cs) = ([], c :: cs) := by
        intro cs
        rw [signPart]
        · intro cs' heq
          exact hminus (List.cons.inj heq).1
        · intro cs' heq
          exact hplus (List.cons.inj heq).1
      rw [List.cons_append, hplain, hplain, List.cons_append]

theorem exponentPart_cons (he : c = 'e' ∨ c = 'E') :
    exponentPart (c :: cs) = match digits (signPart cs).2 with
      | some (ds, rest) => (c :: ((signPart cs).1 ++ ds), rest)
      | none => ([], c :: cs) := by
  rw [exponentPart.eq_def]
  simp only [if_pos he]
  rfl

theorem exponentPart_append (h : Closes rest) (cs : List Char) :
    exponentPart (cs ++ rest) = ((exponentPart cs).1, (exponentPart cs).2 ++ rest) := by
  cases cs with
  | nil => rcases h with rfl | ⟨c, cs, rfl, rfl | rfl | rfl⟩ <;> rfl
  | cons c cs =>
    by_cases he : c = 'e' ∨ c = 'E'
    · rw [List.cons_append, exponentPart_cons he, exponentPart_cons he, signPart_append h, digits_append h]
      cases digits (signPart cs).2 <;> rfl
    · have hplain : ∀ cs, exponentPart (c :: cs) = ([], c :: cs) := by
        intro cs
        rw [exponentPart.eq_def]
        exact if_neg he
      rw [List.cons_append, hplain, hplain, List.cons_append]

theorem scanNumber_of_integerPart (h : integerPart cs = some p) :
    scanNumber cs =
      some (.num (String.ofList (p.1 ++ (fractionPart p.2).1 ++ (exponentPart (fractionPart p.2).2).1)),
        (exponentPart (fractionPart p.2).2).2) := by
  rw [scanNumber, h]
  rfl

/-- A number ends where the value around it goes on. -/
theorem scanNumber_append (h : Closes rest) {j : Json} {after : List Char} (hread : scanNumber cs = some (j, after)) :
    scanNumber (cs ++ rest) = some (j, after ++ rest) := by
  obtain ⟨p, hp, -⟩ := Option.map_eq_some_iff.mp hread
  rw [scanNumber_of_integerPart hp] at hread
  obtain ⟨rfl, rfl⟩ := Prod.mk.inj (Option.some.inj hread)
  rw [scanNumber_of_integerPart (integerPart_append h hp), fractionPart_append h, exponentPart_append h]

/-- The text is a number, all of it. -/
def IsNumber (literal : String) : Prop := scanNumber literal.toList = some (.num literal, [])

instance (literal : String) : Decidable (IsNumber literal) :=
  inferInstanceAs (Decidable (scanNumber literal.toList = some (.num literal, [])))

/-! ### What numbers are made of -/

theorem isLiteral_nil : ∀ c ∈ ([] : List Char), Json.isLiteral c = true := fun _ hc => absurd hc List.not_mem_nil

theorem isDigit_of_digits (h : digits cs = some p) : ∀ c ∈ p.1, c.isDigit = true := by
  unfold digits at h
  split at h
  · cases h
  · rw [List.span_eq_takeWhile_dropWhile] at h
    obtain rfl := Option.some.inj h
    exact fun c hc => List.mem_takeWhile_imp hc

theorem digits_head (h : digits cs = some p) : ∃ c cs', cs = c :: cs' ∧ c.isDigit = true := by
  unfold digits at h
  split at h
  · cases h
  · next hne =>
    cases cs with
    | nil => exact absurd rfl hne
    | cons c cs =>
      refine ⟨c, cs, rfl, ?_⟩
      by_contra hc
      exact hne (List.takeWhile_cons_of_neg hc)

theorem isLiteral_of_isDigit (h : c.isDigit = true) : Json.isLiteral c = true := by
  unfold Json.isLiteral
  rw [h]
  rfl

theorem isLiteral_of_digits (h : digits cs = some p) : ∀ c ∈ p.1, Json.isLiteral c = true :=
  fun c hc => isLiteral_of_isDigit (isDigit_of_digits h c hc)

theorem integerPart_spec (h : integerPart cs = some p) :
    (∀ c ∈ p.1, Json.isLiteral c = true) ∧
      ((∃ c cs', cs = c :: cs' ∧ c.isDigit = true) ∨ ∃ c cs', cs = '-' :: c :: cs' ∧ c.isDigit = true) := by
  cases cs with
  | nil => cases h
  | cons c cs =>
    by_cases hminus : c = '-'
    · subst hminus
      cases cs with
      | nil => cases h
      | cons d cs =>
        by_cases hd : d = '0'
        · subst hd
          obtain rfl := Option.some.inj h
          exact ⟨List.forall_mem_cons.mpr ⟨by decide, List.forall_mem_cons.mpr ⟨by decide, isLiteral_nil⟩⟩,
            .inr ⟨_, _, rfl, by decide⟩⟩
        · rw [integerPart_minus hd] at h
          obtain ⟨q, hq, rfl⟩ := Option.map_eq_some_iff.mp h
          obtain ⟨_, _, heq, hdigit⟩ := digits_head hq
          obtain ⟨rfl, rfl⟩ := List.cons.inj heq
          exact ⟨List.forall_mem_cons.mpr ⟨by decide, isLiteral_of_digits hq⟩, .inr ⟨_, _, rfl, hdigit⟩⟩
    · by_cases hzero : c = '0'
      · subst hzero
        obtain rfl := Option.some.inj h
        exact ⟨List.forall_mem_cons.mpr ⟨by decide, isLiteral_nil⟩, .inl ⟨_, _, rfl, by decide⟩⟩
      · rw [integerPart_plain hminus hzero] at h
        exact ⟨isLiteral_of_digits h, .inl (digits_head h)⟩

theorem isLiteral_fractionPart (cs : List Char) : ∀ c ∈ (fractionPart cs).1, Json.isLiteral c = true := by
  fun_cases fractionPart cs with
  | case1 cs ds rest h => exact List.forall_mem_cons.mpr ⟨by decide, isLiteral_of_digits h⟩
  | case2 => exact isLiteral_nil
  | case3 => exact isLiteral_nil

theorem isLiteral_signPart (cs : List Char) : ∀ c ∈ (signPart cs).1, Json.isLiteral c = true := by
  fun_cases signPart cs with
  | case1 => exact List.forall_mem_cons.mpr ⟨by decide, isLiteral_nil⟩
  | case2 => exact List.forall_mem_cons.mpr ⟨by decide, isLiteral_nil⟩
  | case3 => exact isLiteral_nil

theorem isLiteral_exponentPart (cs : List Char) : ∀ c ∈ (exponentPart cs).1, Json.isLiteral c = true := by
  cases cs with
  | nil => exact isLiteral_nil
  | cons c cs =>
    by_cases he : c = 'e' ∨ c = 'E'
    · rw [exponentPart_cons he]
      split
      · next ds rest h =>
        refine List.forall_mem_cons.mpr ⟨by rcases he with rfl | rfl <;> decide, fun d hd => ?_⟩
        rcases List.mem_append.mp hd with hd | hd
        · exact isLiteral_signPart cs d hd
        · exact isLiteral_of_digits h d hd
      · exact isLiteral_nil
    · rw [exponentPart.eq_def]
      simp only [if_neg he]
      exact isLiteral_nil

variable {literal : String}

/-- A number is written as it is spelled. -/
theorem IsNumber.text_eq (h : IsNumber literal) : Json.text (.num literal) = literal.toList := by
  obtain ⟨p, hp, -⟩ := Option.map_eq_some_iff.mp h
  unfold IsNumber at h
  rw [scanNumber_of_integerPart hp] at h
  have hliteral := Json.num.inj (Prod.mk.inj (Option.some.inj h)).1
  rw [Json.text, List.filter_eq_self, ← hliteral, String.toList_ofList]
  intro c hc
  rcases List.mem_append.mp hc with hc | hc
  · rcases List.mem_append.mp hc with hc | hc
    · exact (integerPart_spec hp).1 c hc
    · exact isLiteral_fractionPart _ c hc
  · exact isLiteral_exponentPart _ c hc

/-- A number begins with a digit, or with a minus sign and a digit. -/
theorem IsNumber.head (h : IsNumber literal) :
    (∃ c cs, literal.toList = c :: cs ∧ c.isDigit = true) ∨
      ∃ c cs, literal.toList = '-' :: c :: cs ∧ c.isDigit = true := by
  obtain ⟨p, hp, -⟩ := Option.map_eq_some_iff.mp h
  exact (integerPart_spec hp).2

theorem isDigit_cases (h : c.isDigit = true) : ∃ d < 10, c = Char.ofNat (48 + d) := by
  simp only [Char.isDigit, Bool.and_eq_true, decide_eq_true_eq] at h
  have hlow : 48 ≤ c.toNat := UInt32.le_iff_toNat_le.mp h.1
  have hhigh : c.toNat ≤ 57 := UInt32.le_iff_toNat_le.mp h.2
  refine ⟨c.toNat - 48, by omega, ?_⟩
  rw [Nat.add_sub_cancel' hlow, Char.ofNat_toNat]

theorem scanValue_digit {fuel : Nat} (hc : c.isDigit = true) :
    scanValue (fuel + 1) (c :: cs) = scanNumber (c :: cs) := by
  obtain ⟨d, hd, rfl⟩ := isDigit_cases hc
  interval_cases d <;> rfl

theorem scanValue_minus {fuel : Nat} (hc : c.isDigit = true) :
    scanValue (fuel + 1) ('-' :: c :: cs) = scanNumber ('-' :: c :: cs) := by
  obtain ⟨d, hd, rfl⟩ := isDigit_cases hc
  interval_cases d <;> rfl

/-- A number is read back, whatever closes after it. -/
theorem scanValue_number {fuel : Nat} (h : IsNumber literal) (hrest : Closes rest) :
    scanValue (fuel + 1) (literal.toList ++ rest) = some (.num literal, rest) := by
  have hread := scanNumber_append hrest h
  rcases h.head with ⟨c, cs, heq, hc⟩ | ⟨c, cs, heq, hc⟩
  · rw [heq, List.cons_append] at hread ⊢
    rw [scanValue_digit hc, hread, List.nil_append]
  · rw [heq, List.cons_append, List.cons_append] at hread ⊢
    rw [scanValue_minus hc, hread, List.nil_append]

end Numbers

/-! ## Strings -/

section Strings

variable {c : Char} {rest : List Char} {unit : Nat}

theorem hexValue_hexDigit (n : Nat) : hexValue (Json.hexDigit n) = some (n % 16) := by
  have hall : ∀ d < 16, hexValue (Json.hexDigit d) = some d := by decide
  have hmod : Json.hexDigit n = Json.hexDigit (n % 16) := by rw [Json.hexDigit, Json.hexDigit, Nat.mod_mod]
  rw [hmod]
  exact hall _ (Nat.mod_lt n (by decide))

theorem scan_hexUnit (h : unit < 0x10000) (rest : List Char) :
    scan (Json.escapeUnit unit ++ rest) = (scan rest).map fun p => (unit :: p.1, p.2) := by
  have hsum : ((unit / 4096 % 16 * 16 + unit / 256 % 16) * 16 + unit / 16 % 16) * 16 + unit % 16 = unit := by omega
  have hdecode : decodeUnit (Json.hexDigit (unit / 4096)) (Json.hexDigit (unit / 256)) (Json.hexDigit (unit / 16))
      (Json.hexDigit unit) = some unit := by
    simp only [decodeUnit, hexValue_hexDigit]
    exact congrArg some hsum
  show scan ('\\' :: 'u' :: _ :: _ :: _ :: _ :: rest) = _
  rw [scan, hdecode]
  rfl

theorem plain_of_isPlain (h : Json.isPlain c = true) : c ≠ '"' ∧ c ≠ '\\' ∧ 0x20 ≤ c.toNat ∧ c.toNat < 0x7F := by
  refine ⟨?_, ?_, ?_⟩
  · rintro rfl
    revert h
    decide
  · rintro rfl
    revert h
    decide
  · simp only [Json.isPlain, Bool.and_eq_true, decide_eq_true_eq] at h
    exact h.1

/-- What a character of a string is written as is read as its code units. -/
theorem scan_jsonEscape (c : Char) (rest : List Char) :
    scan (Json.escape c ++ rest) = (scan rest).map fun p => (unitsOf c ++ p.1, p.2) := by
  have hshort : ∀ {d : Char} {n : Nat}, c.toNat = n → n < 0x10000 → d ≠ 'u' → backslash d = some n →
      scan (['\\', d] ++ rest) = (scan rest).map fun p => (unitsOf c ++ p.1, p.2) := by
    intro d n hc hn hd hslash
    rw [unitsOf, if_pos (by omega), hc]
    exact scan_backslash hd hslash
  unfold Json.escape
  split
  · next hplain =>
    obtain ⟨hquote, hslash, hlow, hhigh⟩ := plain_of_isPlain hplain
    rw [unitsOf, if_pos (by omega)]
    exact scan_plain hquote hslash hlow
  · split
    · next hc => exact hshort hc (by decide) (by decide) rfl
    · next hc => exact hshort hc (by decide) (by decide) rfl
    · next hc => exact hshort hc (by decide) (by decide) rfl
    · next hc => exact hshort hc (by decide) (by decide) rfl
    · next hc => exact hshort hc (by decide) (by decide) rfl
    · next hc => exact hshort hc (by decide) (by decide) rfl
    · by_cases hone : c.toNat < 0x10000
      · rw [if_pos hone, unitsOf, if_pos hone]
        exact scan_hexUnit hone rest
      · have hmax := (isValidChar_toNat c).resolve_left (by omega)
        rw [if_neg hone, unitsOf, if_neg hone, List.append_assoc, scan_hexUnit (by omega), scan_hexUnit (by omega)]
        cases scan rest <;> rfl

/-- A string is read back, whatever comes after it. -/
theorem scanString_jsonText (s : String) (rest : List Char) :
    scanString (s.toList.flatMap Json.escape ++ '"' :: rest) = some (s, rest) := by
  have hscan : ∀ cs : List Char,
      scan (cs.flatMap Json.escape ++ '"' :: rest) = some (cs.flatMap unitsOf, rest) := by
    intro cs
    induction cs with
    | nil => simp [scan]
    | cons c cs ih =>
      rw [List.flatMap_cons, List.append_assoc, scan_jsonEscape, ih]
      rfl
  rw [scanString, hscan]
  show (join _).map _ = _
  rw [join_units, Option.map_some, String.ofList_toList]

theorem jsonText_append (s : String) (rest : List Char) :
    Json.stringText s ++ rest = '"' :: (s.toList.flatMap Json.escape ++ '"' :: rest) := by
  simp [Json.stringText]

end Strings

/-! ## Values -/

mutual

/-- Every number of the value is spelled as numbers are. -/
def wellSpelled : Json → Bool
  | .num literal => IsNumber literal
  | .arr items => itemsWellSpelled items
  | .obj members => membersWellSpelled members
  | .null | .bool _ | .str _ => true

def itemsWellSpelled : List Json → Bool
  | [] => true
  | item :: items => wellSpelled item && itemsWellSpelled items

def membersWellSpelled : List (String × Json) → Bool
  | [] => true
  | (_, value) :: members => wellSpelled value && membersWellSpelled members

end

theorem itemsWellSpelled_iff {items : List Json} :
    itemsWellSpelled items = true ↔ ∀ item ∈ items, wellSpelled item = true := by
  induction items with
  | nil => exact ⟨fun _ _ hitem => absurd hitem List.not_mem_nil, fun _ => rfl⟩
  | cons item items ih => rw [itemsWellSpelled, Bool.and_eq_true, List.forall_mem_cons, ih]

section Values

variable {j : Json} {c : Char} {cs rest : List Char}

/-- The text of a value begins with none of the characters that the reader looks for before a value. -/
theorem jsonText_head (h : wellSpelled j = true) : ∃ c cs, Json.text j = c :: cs ∧ isSpace c = false ∧ c ≠ ']' := by
  cases j with
  | null => exact ⟨'n', _, rfl, by decide, by decide⟩
  | bool b => cases b <;> exact ⟨_, _, rfl, by decide, by decide⟩
  | num literal =>
    have hnumber : IsNumber literal := of_decide_eq_true h
    rw [hnumber.text_eq]
    rcases hnumber.head with ⟨c, cs, heq, hc⟩ | ⟨c, cs, heq, -⟩
    · refine ⟨c, cs, heq, ?_, ?_⟩
      · by_contra hspace
        simp only [isSpace, Bool.or_eq_true, decide_eq_true_eq, Bool.not_eq_false] at hspace
        rcases hspace with ((rfl | rfl) | rfl) | rfl <;> exact absurd hc (by decide)
      · rintro rfl
        exact absurd hc (by decide)
    · exact ⟨'-', _, heq, by decide, by decide⟩
  | str s => exact ⟨'"', _, rfl, by decide, by decide⟩
  | arr items => exact ⟨'[', _, rfl, by decide, by decide⟩
  | obj members => exact ⟨'\x7b', _, rfl, by decide, by decide⟩

theorem skip_jsonText (h : wellSpelled j = true) (rest : List Char) :
    skip (Json.text j ++ rest) = Json.text j ++ rest := by
  obtain ⟨c, cs, hj, hc, -⟩ := jsonText_head h
  rw [hj, List.cons_append, skip_cons hc]

theorem textItems_head {items : List Json} (h : itemsWellSpelled (j :: items) = true) :
    ∃ c cs, Json.textItems (j :: items) = c :: cs ∧ isSpace c = false ∧ c ≠ ']' := by
  obtain ⟨c, cs, hj, hc⟩ := jsonText_head (Bool.and_eq_true_iff.mp h).1
  cases items with
  | nil => exact ⟨c, cs, hj, hc⟩
  | cons item items => exact ⟨c, _, by rw [Json.textItems, hj, List.cons_append], hc⟩

theorem textMembers_head (member : String × Json) (members : List (String × Json)) :
    ∃ cs, Json.textMembers (member :: members) = '"' :: cs := by
  cases members with
  | nil => exact ⟨_, rfl⟩
  | cons next members => exact ⟨_, rfl⟩

theorem length_text_arr (items : List Json) :
    (Json.text (.arr items)).length = (Json.textItems items).length + 2 := by
  rw [Json.text, List.length_cons, List.length_append, List.length_singleton]

theorem length_text_obj (members : List (String × Json)) :
    (Json.text (.obj members)).length = (Json.textMembers members).length + 2 := by
  rw [Json.text, List.length_cons, List.length_append, List.length_singleton]

theorem length_textItems_next (item next : Json) (items : List Json) :
    (Json.textItems (item :: next :: items)).length =
      (Json.text item).length + 1 + (Json.textItems (next :: items)).length := by
  rw [Json.textItems, List.length_append, List.length_cons]
  omega

theorem length_textMembers_next (key : String) (value : Json) (next : String × Json) (members : List (String × Json)) :
    (Json.text value).length + 1 + (Json.textMembers (next :: members)).length <
      (Json.textMembers ((key, value) :: next :: members)).length := by
  rw [Json.textMembers, List.length_append, List.length_cons, List.length_append, List.length_cons]
  omega

theorem length_textMembers_last (key : String) (value : Json) :
    (Json.text value).length < (Json.textMembers [(key, value)]).length := by
  rw [Json.textMembers, List.length_append, List.length_cons]
  omega

theorem closes_comma (cs : List Char) : Closes (',' :: cs) := .inr ⟨_, _, rfl, .inl rfl⟩

theorem closes_bracket (cs : List Char) : Closes (']' :: cs) := .inr ⟨_, _, rfl, .inr (.inl rfl)⟩

theorem closes_brace (cs : List Char) : Closes ('\x7d' :: cs) := .inr ⟨_, _, rfl, .inr (.inr rfl)⟩

end Values

mutual

/-- Fuel for every character of its text is enough to read a value, and where the value ends is seen. -/
theorem scanValue_text : ∀ (j : Json), wellSpelled j = true → ∀ (fuel : Nat) (rest : List Char), Closes rest →
    (Json.text j).length ≤ fuel → scanValue fuel (Json.text j ++ rest) = some (j, rest)
  | .null, _, fuel, rest, _, hfuel => by
    cases fuel with
    | zero => cases hfuel
    | succ fuel => rfl
  | .bool b, _, fuel, rest, _, hfuel => by
    cases fuel with
    | zero => cases b <;> cases hfuel
    | succ fuel => cases b <;> rfl
  | .num literal, h, fuel, rest, hrest, hfuel => by
    have hnumber : IsNumber literal := of_decide_eq_true h
    rw [hnumber.text_eq] at hfuel ⊢
    cases fuel with
    | zero =>
      rcases hnumber.head with ⟨c, cs, heq, -⟩ | ⟨c, cs, heq, -⟩
      all_goals
        rw [heq] at hfuel
        cases hfuel
    | succ fuel => exact scanValue_number hnumber hrest
  | .str s, _, fuel, rest, _, hfuel => by
    cases fuel with
    | zero => cases hfuel
    | succ fuel =>
      rw [Json.text, jsonText_append]
      show (scanString _).map _ = _
      rw [scanString_jsonText]
      rfl
  | .arr [], _, fuel, rest, _, hfuel => by
    cases fuel with
    | zero => cases hfuel
    | succ fuel => rfl
  | .arr (item :: items), h, fuel, rest, _, hfuel => by
    cases fuel with
    | zero => cases hfuel
    | succ fuel =>
      obtain ⟨c, cs, hitems, hspace, hc⟩ := textItems_head h
      rw [length_text_arr] at hfuel
      have hread := scanItems_text (item :: items) (List.cons_ne_nil _ _) h fuel rest (by omega)
      rw [Json.text, List.cons_append, List.append_assoc, List.singleton_append]
      rw [hitems, List.cons_append] at hread ⊢
      rw [scanValue_arr hspace hc, hread]
      rfl
  | .obj [], _, fuel, rest, _, hfuel => by
    cases fuel with
    | zero => cases hfuel
    | succ fuel => rfl
  | .obj (member :: members), h, fuel, rest, _, hfuel => by
    cases fuel with
    | zero => cases hfuel
    | succ fuel =>
      obtain ⟨cs, hmembers⟩ := textMembers_head member members
      rw [length_text_obj] at hfuel
      have hread := scanMembers_text (member :: members) (List.cons_ne_nil _ _) h fuel rest (by omega)
      rw [Json.text, List.cons_append, List.append_assoc, List.singleton_append]
      rw [hmembers, List.cons_append] at hread ⊢
      rw [scanValue_obj, hread]
      rfl

theorem scanItems_text : ∀ (items : List Json), items ≠ [] → itemsWellSpelled items = true →
    ∀ (fuel : Nat) (rest : List Char), (Json.textItems items).length < fuel →
      scanItems fuel (Json.textItems items ++ ']' :: rest) = some (items, rest)
  | [], hne, _, _, _, _ => absurd rfl hne
  | [item], _, h, fuel, rest, hfuel => by
    cases fuel with
    | zero => cases hfuel
    | succ fuel =>
      have hitem := (Bool.and_eq_true_iff.mp h).1
      exact scanItems_last (scanValue_text item hitem fuel _ (closes_bracket rest) (Nat.le_of_lt_succ hfuel))
  | item :: next :: items, _, h, fuel, rest, hfuel => by
    cases fuel with
    | zero => cases hfuel
    | succ fuel =>
      obtain ⟨hitem, hrest⟩ := Bool.and_eq_true_iff.mp h
      obtain ⟨c, cs, hitems, hspace, -⟩ := textItems_head hrest
      have hskip : skip (Json.textItems (next :: items) ++ ']' :: rest) =
          Json.textItems (next :: items) ++ ']' :: rest := by
        rw [hitems, List.cons_append, skip_cons hspace]
      rw [length_textItems_next] at hfuel
      rw [Json.textItems, List.append_assoc, List.cons_append]
      refine scanItems_next (scanValue_text item hitem fuel _ (closes_comma _) (by omega)) ?_
      rw [hskip]
      exact scanItems_text (next :: items) (List.cons_ne_nil _ _) hrest fuel rest (by omega)

theorem scanMembers_text : ∀ (members : List (String × Json)), members ≠ [] → membersWellSpelled members = true →
    ∀ (fuel : Nat) (rest : List Char), (Json.textMembers members).length < fuel →
      scanMembers fuel (Json.textMembers members ++ '\x7d' :: rest) = some (members, rest)
  | [], hne, _, _, _, _ => absurd rfl hne
  | [(key, value)], _, h, fuel, rest, hfuel => by
    cases fuel with
    | zero => cases hfuel
    | succ fuel =>
      have hvalue := (Bool.and_eq_true_iff.mp h).1
      have hlength := length_textMembers_last key value
      rw [Json.textMembers, List.append_assoc, List.cons_append, jsonText_append]
      refine scanMembers_last (scanString_jsonText key _) ?_
      rw [skip_jsonText hvalue]
      exact scanValue_text value hvalue fuel _ (closes_brace rest) (by omega)
  | (key, value) :: next :: members, _, h, fuel, rest, hfuel => by
    cases fuel with
    | zero => cases hfuel
    | succ fuel =>
      obtain ⟨hvalue, hrest⟩ := Bool.and_eq_true_iff.mp h
      obtain ⟨cs, hmembers⟩ := textMembers_head next members
      have hskip : skip (Json.textMembers (next :: members) ++ '\x7d' :: rest) =
          Json.textMembers (next :: members) ++ '\x7d' :: rest := by
        rw [hmembers, List.cons_append, skip_cons (by decide)]
      have hlength := length_textMembers_next key value next members
      have hread := scanValue_text value hvalue fuel
        (',' :: (Json.textMembers (next :: members) ++ '\x7d' :: rest)) (closes_comma _) (by omega)
      rw [Json.textMembers, List.append_assoc, List.cons_append, List.append_assoc, List.cons_append, jsonText_append]
      rw [← skip_jsonText hvalue] at hread
      refine scanMembers_next (scanString_jsonText key _) hread ?_
      rw [hskip]
      exact scanMembers_text (next :: members) (List.cons_ne_nil _ _) hrest fuel rest (by omega)

end

/-- What `ToJsonString` wrote is read back. -/
theorem loads_text {j : Json} (h : wellSpelled j = true) : loads (Json.text j) = some j := by
  have hskip : skip (Json.text j) = Json.text j := by
    have hnil := skip_jsonText h []
    rwa [List.append_nil] at hnil
  have hread := scanValue_text j h ((Json.text j).length + 1) [] (.inl rfl) (Nat.le_succ _)
  rw [List.append_nil] at hread
  rw [loads, hskip, hread]
  rfl

end PyJson

namespace Json

/-! ## Depth -/

mutual

/-- How many arrays and objects stand in one another. -/
def depth : Json → Nat
  | .arr items => depthItems items + 1
  | .obj members => depthMembers members + 1
  | .null | .bool _ | .num _ | .str _ => 0

def depthItems : List Json → Nat
  | [] => 0
  | item :: items => max (depth item) (depthItems items)

def depthMembers : List (String × Json) → Nat
  | [] => 0
  | (_, value) :: members => max (depth value) (depthMembers members)

end

theorem depthItems_le {items : List Json} {n : Nat} (h : ∀ item ∈ items, item.depth ≤ n) : depthItems items ≤ n := by
  induction items with
  | nil => exact Nat.zero_le n
  | cons item items ih =>
    obtain ⟨hitem, hitems⟩ := List.forall_mem_cons.mp h
    exact Nat.max_le.mpr ⟨hitem, ih hitems⟩

end Json

namespace JsonNode

/-- The depth of `JsonDocumentOptions` where none is asked for. -/
def readDepth : Nat := 64

/-- The depth of `JsonWriterOptions` where none is asked for. -/
def writeDepth : Nat := 1000

/-- `JsonNode.Parse`. -/
def parse (text : String) : Option Json :=
  (PyJson.loads text.toList).filter fun j => PyJson.wellSpelled j && decide (j.depth ≤ readDepth)

/-- `ToJsonString()`. -/
def toJsonString (j : Json) : Option String := if j.depth ≤ writeDepth then some j.toJsonString else none

variable {j : Json} {text : String}

theorem toJsonString_of_le (h : j.depth ≤ writeDepth) : toJsonString j = some j.toJsonString := if_pos h

theorem toJsonString_eq_some : toJsonString j = some text ↔ j.depth ≤ writeDepth ∧ text = j.toJsonString := by
  unfold toJsonString
  split
  · next hle => exact ⟨fun h => ⟨hle, (Option.some.inj h).symm⟩, fun h => by rw [h.2]⟩
  · next hnot => exact ⟨fun h => absurd h.symm (Option.some_ne_none text), fun h => absurd h.1 hnot⟩

/-- What was written is read, no deeper than a reader goes. -/
theorem parse_toJsonString (h : PyJson.wellSpelled j = true) :
    parse j.toJsonString = if j.depth ≤ readDepth then some j else none := by
  rw [parse, Json.toJsonString, String.toList_ofList, PyJson.loads_text h, Option.filter_some, h, Bool.true_and]
  by_cases hdepth : j.depth ≤ readDepth
  · rw [if_pos hdepth, if_pos (decide_eq_true hdepth)]
  · rw [if_neg hdepth, if_neg (by rwa [decide_eq_true_eq])]

end JsonNode
