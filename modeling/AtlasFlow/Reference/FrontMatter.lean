import Mathlib.Data.List.TakeWhile
import AtlasFlow.Data.Lines
import AtlasFlow.Reference.Sections

/-!
# Front matter, line by line

`split_front_matter` matches a text against one regular expression. Here the text is taken line by line: a
header stands between two lines that are `---`. Both readings are compared, on the regular expression's own
terms: where it may begin the header, and where the first closing line is from there.
-/

namespace AtlasFlow.Reference.Documents

open GoalFile (Key Value isSpace)

/-! ## Lines -/

/-- The lines of a text, without the line feeds between them. -/
def linesOf (text : String) : List (List Char) := text.toList.splitOn '\n'

def unlines (lines : List (List Char)) : List Char := ['\n'].intercalate lines

def isBlank (line : List Char) : Bool := line.all isSpace

/-- `---`, followed by blanks at most. -/
def isFence (line : List Char) : Bool := "---".toList.isPrefixOf line && isBlank (line.drop 3)

/-- The text whose front matter is delimited by lines: what is between the first line and the next that is a
fence, that line, and what follows it. -/
def betweenFences : List (List Char) → Option (List (List Char) × List Char × List (List Char))
  | [] => none
  | line :: lines =>
    if isFence line then
      match lines.dropWhile fun other => !isFence other with
      | [] => none
      | fence :: after => some (lines.takeWhile fun other => !isFence other, fence, after)
    else none

section Lines

variable {line : List Char} {lines : List (List Char)}

theorem unlines_linesOf (text : String) : unlines (linesOf text) = text.toList :=
  List.intercalate_splitOn '\n'

theorem unlines_singleton (line : List Char) : unlines [line] = line :=
  List.intercalate_singleton

theorem unlines_cons (h : lines ≠ []) (line : List Char) : unlines (line :: lines) = line ++ '\n' :: unlines lines := by
  rw [unlines, List.intercalate_cons_of_ne_nil h]
  simp [unlines]

theorem newline_not_mem (text : String) : ∀ line ∈ linesOf text, '\n' ∉ line := fun _ => Lines.not_mem_of_mem_splitOn '\n'

theorem linesOf_ne_nil (text : String) : linesOf text ≠ [] :=
  List.splitOn_ne_nil '\n' text.toList

theorem isBlank_cons (c : Char) (line : List Char) : isBlank (c :: line) = (isSpace c && isBlank line) := rfl

/-- A fence has a dash. -/
theorem not_isBlank_of_isFence (h : isFence line = true) : isBlank line = false := by
  rw [isFence, Bool.and_eq_true] at h
  obtain ⟨rest, rfl⟩ := List.isPrefixOf_iff_prefix.mp h.1
  rfl

theorem dashes_isPrefixOf (h : '\n' ∉ line) (cs : List Char) :
    "---".toList.isPrefixOf (line ++ '\n' :: cs) = "---".toList.isPrefixOf line := by
  rcases line with _ | ⟨a, _ | ⟨b, _ | ⟨c, line⟩⟩⟩ <;> simp [List.isPrefixOf] 

end Lines

/-! ## The regular expression over lines -/

section Match

variable {line fence : List Char} {lines between after kept : List (List Char)}

/-- What may follow a match of `\s*\n` that begins in the first line, as `lineEnds`. -/
def lineStarts : List (List Char) → List (List (List Char))
  | line :: next :: lines => if isBlank line then lineStarts (next :: lines) ++ [next :: lines] else []
  | _ => []

/-- The header that begins at a line, and the body, as `splitHeader`. -/
def closeHeader : List (List Char) → Option (List (List Char) × List (List Char))
  | line :: next :: lines =>
    let body := if "---".toList.isPrefixOf next then (lineStarts (next.drop 3 :: lines)).head? else none
    (body.map ([line], ·)).or ((closeHeader (next :: lines)).map (Prod.map (line :: ·) id))
  | _ => none

theorem lineEnds_line (h : '\n' ∉ line) (cs : List Char) :
    lineEnds (line ++ '\n' :: cs) = if isBlank line then lineEnds cs ++ [cs] else [] := by
  induction line with
  | nil => rfl
  | cons c line ih =>
      rw [List.mem_cons, not_or] at h
      rw [List.cons_append, lineEnds, if_neg (Ne.symm h.1), List.append_nil, ih h.2, isBlank_cons]
      cases isSpace c <;> rfl

theorem lineEnds_last (h : '\n' ∉ line) : lineEnds line = [] := by
  induction line with
  | nil => rfl
  | cons c line ih =>
      rw [List.mem_cons, not_or] at h
      rw [lineEnds, if_neg (Ne.symm h.1), ih h.2]
      simp

theorem lineEnds_unlines (h : ∀ line ∈ lines, '\n' ∉ line) :
    lineEnds (unlines lines) = (lineStarts lines).map unlines := by
  induction lines with
  | nil => rfl
  | cons line lines ih =>
      obtain ⟨hline, hlines⟩ := List.forall_mem_cons.mp h
      cases lines with
      | nil =>
          rw [unlines_singleton, lineEnds_last hline]
          rfl
      | cons next lines =>
          rw [unlines_cons (List.cons_ne_nil _ _), lineEnds_line hline, lineStarts, ih hlines]
          split
          · rw [List.map_append]
            rfl
          · rfl

theorem splitHeader_cons (c : Char) (cs : List Char) :
    splitHeader (c :: cs) =
      ((if "\n---".toList.isPrefixOf (c :: cs) then (lineEnds ((c :: cs).drop 4)).head? else none).map ([], ·)).or
        ((splitHeader cs).map (Prod.map (c :: ·) id)) := by
  rw [splitHeader.eq_def]
  split
  · next hbody =>
    rw [hbody]
    rfl
  · next h => cases h
  · next hbody h =>
    cases h
    rw [hbody]
    rfl

theorem splitHeader_line (h : '\n' ∉ line) (cs : List Char) :
    splitHeader (line ++ '\n' :: cs) =
      ((if "---".toList.isPrefixOf cs then (lineEnds (cs.drop 3)).head? else none).map (line, ·)).or
        ((splitHeader cs).map (Prod.map (line ++ '\n' :: ·) id)) := by
  induction line with
  | nil => exact splitHeader_cons '\n' cs
  | cons c line ih =>
      rw [List.mem_cons, not_or] at h
      have hprefix : "\n---".toList.isPrefixOf (c :: (line ++ '\n' :: cs)) = false := by
        show ('\n' == c && _) = false
        rw [beq_false_of_ne h.1, Bool.false_and]
      rw [List.cons_append, splitHeader_cons, if_neg (Bool.eq_false_iff.mp hprefix), ih h.2, Option.map_or,
        Option.map_map, Option.map_map]
      rfl

theorem splitHeader_last (h : '\n' ∉ line) : splitHeader line = none := by
  induction line with
  | nil => rfl
  | cons c line ih =>
      rw [List.mem_cons, not_or] at h
      have hprefix : "\n---".toList.isPrefixOf (c :: line) = false := by
        show ('\n' == c && _) = false
        rw [beq_false_of_ne h.1, Bool.false_and]
      rw [splitHeader_cons, if_neg (Bool.eq_false_iff.mp hprefix), ih h.2]
      rfl

theorem dashes_unlines (h : '\n' ∉ line) (lines : List (List Char)) :
    "---".toList.isPrefixOf (unlines (line :: lines)) = "---".toList.isPrefixOf line := by
  cases lines with
  | nil => rw [unlines_singleton]
  | cons next lines => rw [unlines_cons (List.cons_ne_nil _ _), dashes_isPrefixOf h]

theorem drop_unlines (h : "---".toList.isPrefixOf line = true) (lines : List (List Char)) :
    (unlines (line :: lines)).drop 3 = unlines (line.drop 3 :: lines) := by
  obtain ⟨rest, rfl⟩ := List.isPrefixOf_iff_prefix.mp h
  cases lines with
  | nil => rw [unlines_singleton, unlines_singleton]
  | cons next lines =>
      rw [unlines_cons (List.cons_ne_nil _ _), unlines_cons (List.cons_ne_nil _ _)]
      rfl

theorem newline_not_mem_drop (h : ∀ other ∈ line :: lines, '\n' ∉ other) :
    ∀ other ∈ line.drop 3 :: lines, '\n' ∉ other := by
  obtain ⟨hline, hlines⟩ := List.forall_mem_cons.mp h
  refine List.forall_mem_cons.mpr ⟨?_, hlines⟩
  intro hmem
  exact hline (List.mem_of_mem_drop hmem)

theorem closeHeader_ne_nil {header body : List (List Char)} (h : closeHeader lines = some (header, body)) :
    header ≠ [] := by
  rcases lines with _ | ⟨line, _ | ⟨next, lines⟩⟩
  · cases h
  · cases h
  · rw [closeHeader, Option.or_eq_some_iff] at h
    rcases h with h | ⟨_, h⟩
    · obtain ⟨_, _, h⟩ := Option.map_eq_some_iff.mp h
      cases h
      exact List.cons_ne_nil _ _
    · obtain ⟨_, _, h⟩ := Option.map_eq_some_iff.mp h
      cases h
      exact List.cons_ne_nil _ _

theorem splitHeader_unlines (h : ∀ line ∈ lines, '\n' ∉ line) :
    splitHeader (unlines lines) = (closeHeader lines).map (Prod.map unlines unlines) := by
  induction lines with
  | nil => rfl
  | cons line lines ih =>
      obtain ⟨hline, hlines⟩ := List.forall_mem_cons.mp h
      cases lines with
      | nil =>
          rw [unlines_singleton, splitHeader_last hline]
          rfl
      | cons next lines =>
          obtain ⟨hnext, _⟩ := List.forall_mem_cons.mp hlines
          have hbody : (if "---".toList.isPrefixOf (unlines (next :: lines)) then
              (lineEnds ((unlines (next :: lines)).drop 3)).head? else none) =
              (if "---".toList.isPrefixOf next then (lineStarts (next.drop 3 :: lines)).head? else none).map unlines := by
            rw [dashes_unlines hnext]
            split
            · next hdashes =>
              rw [drop_unlines hdashes, lineEnds_unlines (newline_not_mem_drop hlines), List.head?_map]
            · rfl
          rw [unlines_cons (List.cons_ne_nil _ _), splitHeader_line hline, hbody, ih hlines, closeHeader, Option.map_or,
            Option.map_map, Option.map_map, Option.map_map, Option.map_map]
          congr 1
          · simp only [Function.comp_def, Prod.map, unlines_singleton]
          · apply Option.map_congr
            intro found hfound
            have hne : found.1 ≠ [] := closeHeader_ne_nil hfound
            simp only [Function.comp_def, Prod.map, unlines_cons hne, id]

theorem findSome?_lineStarts (h : isBlank line = true) (hne : lines ≠ []) :
    (lineStarts (line :: lines)).findSome? closeHeader =
      ((lineStarts lines).findSome? closeHeader).or (closeHeader lines) := by
  obtain ⟨next, lines, rfl⟩ := List.exists_cons_of_ne_nil hne
  rw [lineStarts, if_pos h, List.findSome?_append, List.findSome?_singleton]

theorem lineStarts_of_not_blank (h : isBlank line = false) (lines : List (List Char)) :
    lineStarts (line :: lines) = [] := by
  cases lines with
  | nil => rfl
  | cons next lines => rw [lineStarts, h, if_neg Bool.false_ne_true]

theorem findSome?_lineEnds (h : ∀ line ∈ lines, '\n' ∉ line) :
    (lineEnds (unlines lines)).findSome? splitHeader =
      ((lineStarts lines).findSome? closeHeader).map (Prod.map unlines unlines) := by
  induction lines with
  | nil => rfl
  | cons line lines ih =>
      obtain ⟨hline, hlines⟩ := List.forall_mem_cons.mp h
      by_cases hne : lines = []
      · rw [hne, unlines_singleton, lineEnds_last hline]
        rfl
      · rw [unlines_cons hne, lineEnds_line hline]
        by_cases hblank : isBlank line = true
        · rw [if_pos hblank, findSome?_lineStarts hblank hne, List.findSome?_append, ih hlines,
            List.findSome?_singleton, splitHeader_unlines hlines, Option.map_or]
        · rw [if_neg hblank, lineStarts_of_not_blank (Bool.eq_false_iff.mpr hblank)]
          rfl

theorem matchFrontMatter_unlines (h : ∀ other ∈ line :: lines, '\n' ∉ other) :
    matchFrontMatter (unlines (line :: lines)) =
      if "---".toList.isPrefixOf line then
        ((lineStarts (line.drop 3 :: lines)).findSome? closeHeader).map (Prod.map unlines unlines)
      else none := by
  obtain ⟨hline, _⟩ := List.forall_mem_cons.mp h
  rw [matchFrontMatter, dashes_unlines hline]
  split
  · next hdashes => rw [drop_unlines hdashes, findSome?_lineEnds (newline_not_mem_drop h)]
  · rfl

/-! ### Closing lines -/

/-- What is left without some blank lines that come first. -/
inductive SkipsBlank : List (List Char) → List (List Char) → Prop
  | stop {lines : List (List Char)} : SkipsBlank lines lines
  | skip {line : List Char} {lines kept : List (List Char)} (hblank : isBlank line = true)
      (h : SkipsBlank lines kept) : SkipsBlank (line :: lines) kept

theorem head?_lineStarts (h : isBlank line = true) (hne : lines ≠ []) :
    ∃ kept, (lineStarts (line :: lines)).head? = some kept ∧ SkipsBlank lines kept := by
  induction lines generalizing line with
  | nil => exact absurd rfl hne
  | cons next lines ih =>
      rw [lineStarts, if_pos h]
      by_cases hnext : isBlank next = true ∧ lines ≠ []
      · obtain ⟨kept, hkept, hskips⟩ := ih hnext.1 hnext.2
        refine ⟨kept, ?_, .skip hnext.1 hskips⟩
        rw [List.head?_append, hkept]
        rfl
      · have hnil : lineStarts (next :: lines) = [] := by
          cases lines with
          | nil => rfl
          | cons => exact lineStarts_of_not_blank (by simpa using hnext) _
        rw [hnil]
        exact ⟨_, rfl, .stop⟩

theorem SkipsBlank.length_le (h : SkipsBlank lines kept) : (unlines kept).length ≤ (unlines lines).length := by
  induction h with
  | stop => exact le_rfl
  | @skip line lines kept _ _ ih =>
      by_cases hne : lines = []
      · rw [hne] at ih ⊢
        exact ih.trans (Nat.zero_le _)
      · rw [unlines_cons hne, List.length_append, List.length_cons]
        omega

/-- A line that is not blank is left, with all that follows. -/
theorem SkipsBlank.length_lt (h : SkipsBlank (between ++ line :: after) kept) (hblank : isBlank line = false)
    (hne : after ≠ []) : (unlines after).length < (unlines kept).length := by
  induction between generalizing kept with
  | nil =>
      cases h with
      | stop =>
          rw [List.nil_append, unlines_cons hne, List.length_append, List.length_cons]
          omega
      | skip hline =>
          rw [hline] at hblank
          cases hblank
  | cons next between ih =>
      cases h with
      | stop =>
          have hlt := ih .stop
          rw [List.cons_append, unlines_cons (List.append_ne_nil_of_right_ne_nil _ (List.cons_ne_nil _ _)),
            List.length_append, List.length_cons]
          omega
      | skip _ h => exact ih h

theorem closeHeader_fence (h : isFence fence = true) (hne : after ≠ []) (line : List Char) :
    ∃ kept, closeHeader (line :: fence :: after) = some ([line], kept) ∧ SkipsBlank after kept := by
  rw [isFence, Bool.and_eq_true] at h
  obtain ⟨kept, hkept, hskips⟩ := head?_lineStarts h.2 hne
  refine ⟨kept, ?_, hskips⟩
  rw [closeHeader, if_pos h.1, hkept]
  rfl

theorem closeHeader_other {next : List Char} (h : isFence next = false ∨ lines = []) (line : List Char) :
    closeHeader (line :: next :: lines) = (closeHeader (next :: lines)).map (Prod.map (line :: ·) id) := by
  have hnone : (if "---".toList.isPrefixOf next then (lineStarts (next.drop 3 :: lines)).head? else none) = none := by
    split
    · next hdashes =>
      have hnil : lineStarts (next.drop 3 :: lines) = [] := by
        rcases h with h | rfl
        · rw [isFence, hdashes, Bool.true_and] at h
          exact lineStarts_of_not_blank h lines
        · rfl
      rw [hnil]
      rfl
    · rfl
  rw [closeHeader, hnone]
  rfl

/-- A header goes up to the first fence that is not the last line. -/
theorem closeHeader_append (h : ∀ other ∈ between, isFence other = false) (hfence : isFence fence = true)
    (hne : after ≠ []) (line : List Char) :
    ∃ kept, closeHeader (line :: (between ++ fence :: after)) = some (line :: between, kept) ∧
      SkipsBlank after kept := by
  induction between generalizing line with
  | nil => exact closeHeader_fence hfence hne line
  | cons next between ih =>
      obtain ⟨hnext, hbetween⟩ := List.forall_mem_cons.mp h
      obtain ⟨kept, hkept, hskips⟩ := ih hbetween next
      refine ⟨kept, ?_, hskips⟩
      rw [List.cons_append, closeHeader_other (.inl hnext), hkept]
      rfl

theorem closeHeader_eq_none (h : ∀ other ∈ lines.dropLast, isFence other = false) (line : List Char) :
    closeHeader (line :: lines) = none := by
  induction lines generalizing line with
  | nil => rfl
  | cons next lines ih =>
      by_cases hne : lines = []
      · rw [hne]
        rw [closeHeader_other (.inr rfl)]
        rfl
      · rw [List.dropLast_cons_of_ne_nil hne] at h
        obtain ⟨hnext, hlines⟩ := List.forall_mem_cons.mp h
        rw [closeHeader_other (.inl hnext), ih hlines]
        rfl

/-! ### Where the header begins -/

/-- Blank lines before a line that is not blank are no part of a header. -/
theorem findSome?_skip {start : List (List Char)} {found : List (List Char) × List (List Char)}
    (hblank : isBlank line = true) (hbetween : ∀ other ∈ between, isBlank other = true)
    (hstart : start ≠ []) (h : ((lineStarts start).findSome? closeHeader).or (closeHeader start) = some found) :
    (lineStarts (line :: (between ++ start))).findSome? closeHeader = some found := by
  induction between generalizing line with
  | nil => rw [List.nil_append, findSome?_lineStarts hblank hstart, h]
  | cons next between ih =>
      obtain ⟨hnext, hbetween⟩ := List.forall_mem_cons.mp hbetween
      rw [List.cons_append, findSome?_lineStarts hblank (List.cons_ne_nil _ _), ih hnext hbetween]
      rfl

theorem findSome?_eq_none (h : ∀ other ∈ lines.dropLast, isFence other = false) (line : List Char) :
    (lineStarts (line :: lines)).findSome? closeHeader = none := by
  induction lines generalizing line with
  | nil => rfl
  | cons next lines ih =>
      by_cases hblank : isBlank line = true
      · have hlines : ∀ other ∈ lines.dropLast, isFence other = false := by
          intro other hother
          apply h
          cases lines with
          | nil => cases hother
          | cons => exact List.mem_cons_of_mem _ hother
        rw [findSome?_lineStarts hblank (List.cons_ne_nil _ _), ih hlines, closeHeader_eq_none hlines]
        rfl
      · rw [lineStarts_of_not_blank (Bool.eq_false_iff.mpr hblank)]
        rfl

end Match

/-! ## What is recognised -/

/-- The mapping that the text of a header holds. -/
def readHeader (lib : Library) (header : List Char) : Except SiteError (Dict Key Value) :=
  match (lib.safeLoad (String.ofList header)).map orEmpty with
  | .error exc => .error (.documentParseError s!"invalid YAML front matter: {exc}")
  | .ok (.dict header) => .ok header
  | .ok _ => .error (.documentParseError "front matter must be a YAML mapping")

/-- The mapping that some lines hold, if they hold one. -/
def readLines (lib : Library) (lines : List (List Char)) : Option (Dict Key Value) :=
  (readHeader lib (unlines lines)).toOption

/-- Front matter is what stands between the first line and the next one that is a fence; the rest is the body,
with or without the blank lines that come first. A header that cannot be read is an error. -/
structure Recognised (lib : Library) (text : String) : Prop where
  absent : betweenFences (linesOf text) = none → splitFrontMatter lib text = .ok (none, text)
  present : ∀ between fence after header, betweenFences (linesOf text) = some (between, fence, after) →
    readLines lib between = some header → ∃ kept, SkipsBlank after kept ∧
      splitFrontMatter lib text = .ok (some header, String.ofList (unlines kept))
  refused : ∀ between fence after, betweenFences (linesOf text) = some (between, fence, after) →
    readLines lib between = none → ∀ result, splitFrontMatter lib text ≠ .ok result

/-- When the regular expression finds front matter where the lines have it. The closing line does not end the
text. Blank lines that come first are read as what is left without them; where all lines are blank, the last is
read, and no later line closes a header that begins with the closing line. -/
structure Delimited (lib : Library) (between : List (List Char)) (fence : List Char) (after : List (List Char)) :
    Prop where
  closed : after ≠ []
  filled : between.all isBlank = false → readLines lib (between.dropWhile isBlank) = readLines lib between
  blank : between.all isBlank = true → (∀ other ∈ after.dropLast, isFence other = false) →
    ∃ last ∈ between.getLast?, readLines lib [last] = readLines lib between
  reopened : between.all isBlank = true → ∀ other ∈ after.dropLast, isFence other = true →
    readLines lib between = none ∧ readLines lib (fence :: after.takeWhile fun other => !isFence other) = none

section Recognise

variable {lib : Library} {text : String} {line fence : List Char} {lines between after : List (List Char)}

theorem splitFrontMatter_eq (lib : Library) (text : String) :
    splitFrontMatter lib text =
      match matchFrontMatter text.toList with
      | none => .ok (none, text)
      | some (header, body) => (readHeader lib header).map fun header => (some header, String.ofList body) := by
  unfold splitFrontMatter readHeader
  cases matchFrontMatter text.toList with
  | none => rfl
  | some found =>
      dsimp only
      cases (lib.safeLoad (String.ofList found.1)).map orEmpty with
      | error exc => rfl
      | ok value => cases value <;> rfl

/-- Lines that have front matter. -/
structure Fenced (lines : List (List Char)) (line : List Char) (between : List (List Char)) (fence : List Char)
    (after : List (List Char)) : Prop where
  lines_eq : lines = line :: (between ++ fence :: after)
  opening : isFence line = true
  inside : ∀ other ∈ between, isFence other = false
  closing : isFence fence = true

theorem of_betweenFences (h : betweenFences lines = some (between, fence, after)) :
    ∃ line, Fenced lines line between fence after := by
  cases lines with
  | nil => cases h
  | cons line lines =>
      rw [betweenFences] at h
      split at h
      · next hopening =>
        split at h
        · cases h
        · next hdrop =>
          cases h
          refine ⟨line, ?_, hopening, ?_, ?_⟩
          · rw [← hdrop, List.takeWhile_append_dropWhile]
          · intro other hother
            simpa using List.mem_takeWhile_imp hother
          · have hhead := List.head?_dropWhile_not (fun other => !isFence other) lines
            rw [hdrop] at hhead
            simpa using hhead
      · cases h

theorem not_isFence_of_not_between (hfirst : isFence line = true) (h : betweenFences (line :: lines) = none) :
    ∀ other ∈ lines, isFence other = false := by
  rw [betweenFences, if_pos hfirst] at h
  split at h
  · next hdrop =>
    intro other hother
    simpa using List.dropWhile_eq_nil_iff.mp hdrop other hother
  · cases h

/-- The regular expression, on a text by its lines. -/
theorem matchFrontMatter_text (h : linesOf text = line :: lines) :
    matchFrontMatter text.toList =
      if isFence line then
        ((lineStarts (line.drop 3 :: lines)).findSome? closeHeader).map (Prod.map unlines unlines)
      else none := by
  have hlines := newline_not_mem text
  rw [h] at hlines
  rw [← unlines_linesOf, h, matchFrontMatter_unlines hlines, isFence]
  by_cases hdashes : "---".toList.isPrefixOf line = true
  · rw [if_pos hdashes, hdashes, Bool.true_and]
    split
    · rfl
    · next hblank =>
      rw [lineStarts_of_not_blank (Bool.eq_false_iff.mpr hblank)]
      rfl
  · rw [if_neg hdashes, Bool.eq_false_iff.mpr hdashes, Bool.false_and, if_neg Bool.false_ne_true]

theorem matchFrontMatter_of_not_between (h : betweenFences (linesOf text) = none) :
    matchFrontMatter text.toList = none := by
  obtain ⟨line, lines, htext⟩ := List.exists_cons_of_ne_nil (linesOf_ne_nil text)
  rw [htext] at h
  rw [matchFrontMatter_text htext]
  by_cases hfirst : isFence line = true
  · rw [if_pos hfirst, findSome?_eq_none]
    · rfl
    · intro other hother
      exact not_isFence_of_not_between hfirst h other ((List.dropLast_sublist _).subset hother)
  · rw [if_neg hfirst]

/-! ### Where the lines have front matter -/

theorem not_recognised (hlines : betweenFences (linesOf text) = some (between, fence, after))
    (h : matchFrontMatter text.toList = none) : ¬ Recognised lib text := by
  have hsplit : splitFrontMatter lib text = .ok (none, text) := by
    rw [splitFrontMatter_eq, h]
  intro hrecognised
  cases hread : readLines lib between with
  | none => exact hrecognised.refused _ _ _ hlines hread _ hsplit
  | some header =>
      obtain ⟨kept, _, hkept⟩ := hrecognised.present _ _ _ _ hlines hread
      rw [hsplit] at hkept
      cases hkept

/-- What is returned where the regular expression matches. -/
theorem splitFrontMatter_match {header : List (List Char)} {body : List Char} {result : Option (Dict Key Value) × String}
    (h : matchFrontMatter text.toList = some (unlines header, body)) :
    splitFrontMatter lib text = .ok result ↔
      ∃ value, readLines lib header = some value ∧ (some value, String.ofList body) = result := by
  rw [splitFrontMatter_eq, h, readLines]
  dsimp only
  cases readHeader lib (unlines header) with
  | error e =>
      constructor
      · intro hresult
        cases hresult
      · rintro ⟨_, hvalue, _⟩
        cases hvalue
  | ok value =>
      constructor
      · intro hresult
        exact ⟨value, rfl, Except.ok.inj hresult⟩
      · rintro ⟨_, hvalue, rfl⟩
        cases hvalue
        rfl

theorem recognised_iff_readLines {header kept : List (List Char)}
    (hlines : betweenFences (linesOf text) = some (between, fence, after))
    (h : matchFrontMatter text.toList = some (unlines header, unlines kept)) (hkept : SkipsBlank after kept) :
    Recognised lib text ↔ readLines lib header = readLines lib between := by
  constructor
  · intro hrecognised
    cases hread : readLines lib between with
    | none =>
        refine Option.eq_none_iff_forall_ne_some.mpr fun value hvalue => ?_
        exact hrecognised.refused _ _ _ hlines hread _ ((splitFrontMatter_match h).mpr ⟨value, hvalue, rfl⟩)
    | some value =>
        obtain ⟨other, _, hsplit⟩ := hrecognised.present _ _ _ _ hlines hread
        obtain ⟨value', hvalue, hresult⟩ := (splitFrontMatter_match h).mp hsplit
        rw [hvalue]
        exact congrArg Prod.fst hresult
  · intro hread
    constructor
    · intro habsent
      rw [hlines] at habsent
      cases habsent
    · intro between' fence' after' value hlines' hvalue
      cases hlines.symm.trans hlines'
      exact ⟨kept, hkept, (splitFrontMatter_match h).mpr ⟨value, hread.trans hvalue, rfl⟩⟩
    · intro between' fence' after' hlines' hnone result hresult
      cases hlines.symm.trans hlines'
      obtain ⟨value, hvalue, _⟩ := (splitFrontMatter_match h).mp hresult
      rw [hread, hnone] at hvalue
      cases hvalue

/-- Where the body that was found is another, no header may be found. -/
theorem recognised_iff_refused {header kept : List (List Char)}
    (hlines : betweenFences (linesOf text) = some (between, fence, after))
    (h : matchFrontMatter text.toList = some (unlines header, unlines kept))
    (hkept : ∀ other, SkipsBlank after other → (unlines kept).length < (unlines other).length) :
    Recognised lib text ↔ readLines lib between = none ∧ readLines lib header = none := by
  constructor
  · intro hrecognised
    cases hread : readLines lib between with
    | none =>
        refine ⟨rfl, Option.eq_none_iff_forall_ne_some.mpr fun value hvalue => ?_⟩
        exact hrecognised.refused _ _ _ hlines hread _ ((splitFrontMatter_match h).mpr ⟨value, hvalue, rfl⟩)
    | some value =>
        obtain ⟨other, hother, hsplit⟩ := hrecognised.present _ _ _ _ hlines hread
        obtain ⟨_, _, hresult⟩ := (splitFrontMatter_match h).mp hsplit
        have hbody : unlines kept = unlines other := String.ofList_injective (congrArg Prod.snd hresult)
        have hlt := hkept other hother
        rw [hbody] at hlt
        exact absurd hlt (lt_irrefl _)
  · rintro ⟨hread, hheader⟩
    constructor
    · intro habsent
      rw [hlines] at habsent
      cases habsent
    · intro between' fence' after' value hlines' hvalue
      cases hlines.symm.trans hlines'
      rw [hread] at hvalue
      cases hvalue
    · intro between' fence' after' hlines' _ result hresult
      obtain ⟨value, hvalue, _⟩ := (splitFrontMatter_match h).mp hresult
      rw [hheader] at hvalue
      cases hvalue

/-! ### What the regular expression finds there -/

theorem Fenced.matchFrontMatter (h : Fenced (linesOf text) line between fence after) :
    matchFrontMatter text.toList =
      ((lineStarts (line.drop 3 :: (between ++ fence :: after))).findSome? closeHeader).map
        (Prod.map unlines unlines) := by
  rw [matchFrontMatter_text h.lines_eq, if_pos h.opening]

theorem Fenced.isBlank_drop (h : Fenced lines line between fence after) : isBlank (line.drop 3) = true := by
  have hopening := h.opening
  rw [isFence, Bool.and_eq_true] at hopening
  exact hopening.2

/-- No line is closing that ends the text. -/
theorem Fenced.unclosed (h : Fenced (linesOf text) line between fence []) :
    Documents.matchFrontMatter text.toList = none := by
  rw [h.matchFrontMatter, findSome?_eq_none]
  · rfl
  · rw [List.dropLast_concat]
    exact h.inside

theorem Fenced.filled (h : Fenced (linesOf text) line between fence after) (hne : after ≠ [])
    (hfilled : between.all isBlank = false) :
    ∃ kept, Documents.matchFrontMatter text.toList = some (unlines (between.dropWhile isBlank), unlines kept) ∧
      SkipsBlank after kept := by
  cases hdrop : between.dropWhile isBlank with
  | nil =>
      rw [List.all_eq_true.mpr (List.dropWhile_eq_nil_iff.mp hdrop)] at hfilled
      cases hfilled
  | cons start rest =>
      have hbetween : between = between.takeWhile isBlank ++ start :: rest := by
        rw [← hdrop, List.takeWhile_append_dropWhile]
      have hstart : isBlank start = false := by
        have hhead := List.head?_dropWhile_not isBlank between
        rw [hdrop] at hhead
        simpa using hhead
      have hrest : ∀ other ∈ rest, isFence other = false := by
        intro other hother
        apply h.inside
        rw [hbetween]
        simp [hother]
      obtain ⟨kept, hkept, hskips⟩ := closeHeader_append hrest h.closing hne start
      refine ⟨kept, ?_, hskips⟩
      have hfound := findSome?_skip h.isBlank_drop (fun other => List.mem_takeWhile_imp (l := between))
        (List.cons_ne_nil _ _) (by rw [lineStarts_of_not_blank hstart]; exact hkept)
      rw [h.matchFrontMatter, hbetween, List.append_assoc, List.cons_append, hfound]
      rfl

/-- From the closing line on nothing is found, unless a later line closes. -/
theorem Fenced.tail_eq_none (h : Fenced lines line between fence after)
    (hafter : ∀ other ∈ after.dropLast, isFence other = false) :
    ((lineStarts (fence :: after)).findSome? closeHeader).or (closeHeader (fence :: after)) = none := by
  rw [lineStarts_of_not_blank (not_isBlank_of_isFence h.closing), closeHeader_eq_none hafter]
  rfl

theorem Fenced.blank {last : List Char} {blanks : List (List Char)}
    (h : Fenced (linesOf text) line (blanks ++ [last]) fence after) (hne : after ≠ [])
    (hafter : ∀ other ∈ after.dropLast, isFence other = false) (hblank : (blanks ++ [last]).all isBlank = true) :
    ∃ kept, Documents.matchFrontMatter text.toList = some (unlines [last], unlines kept) ∧
      SkipsBlank after kept := by
  have hblanks : ∀ other ∈ blanks, isBlank other = true := by
    intro other hother
    exact List.all_eq_true.mp hblank other (List.mem_append_left _ hother)
  have hlast : isBlank last = true := List.all_eq_true.mp hblank last (by simp)
  obtain ⟨kept, hkept, hskips⟩ := closeHeader_fence h.closing hne last
  refine ⟨kept, ?_, hskips⟩
  have hfound := findSome?_skip h.isBlank_drop hblanks (List.cons_ne_nil _ _) (by
    rw [findSome?_lineStarts hlast (List.cons_ne_nil _ _), h.tail_eq_none hafter]
    exact hkept)
  rw [h.matchFrontMatter, List.append_assoc, List.singleton_append, hfound]
  rfl

/-- Nothing is found between two fences that follow each other. -/
theorem Fenced.empty (h : Fenced (linesOf text) line [] fence after)
    (hafter : ∀ other ∈ after.dropLast, isFence other = false) :
    Documents.matchFrontMatter text.toList = none := by
  rw [h.matchFrontMatter, List.nil_append, findSome?_lineStarts h.isBlank_drop (List.cons_ne_nil _ _),
    h.tail_eq_none hafter]
  rfl

/-- The closing line begins a header, and a later line closes it. -/
theorem Fenced.reopened (h : Fenced (linesOf text) line between fence after)
    (hblank : between.all isBlank = true) (hafter : ∃ other ∈ after.dropLast, isFence other = true) :
    ∃ kept, Documents.matchFrontMatter text.toList =
        some (unlines (fence :: after.takeWhile fun other => !isFence other), unlines kept) ∧
      ∀ other, SkipsBlank after other → (unlines kept).length < (unlines other).length := by
  cases hdrop : after.dropWhile fun other => !isFence other with
  | nil =>
      obtain ⟨other, hother, hfence⟩ := hafter
      have hnot := List.dropWhile_eq_nil_iff.mp hdrop other ((List.dropLast_sublist _).subset hother)
      rw [hfence] at hnot
      cases hnot
  | cons close tail =>
      have hsplit : after = (after.takeWhile fun other => !isFence other) ++ close :: tail := by
        rw [← hdrop, List.takeWhile_append_dropWhile]
      have hclose : isFence close = true := by
        have hhead := List.head?_dropWhile_not (fun other => !isFence other) after
        rw [hdrop] at hhead
        simpa using hhead
      have hinside : ∀ other ∈ after.takeWhile fun other => !isFence other, isFence other = false := by
        intro other hother
        simpa using List.mem_takeWhile_imp hother
      have htail : tail ≠ [] := by
        rintro rfl
        obtain ⟨other, hother, hfence⟩ := hafter
        rw [hsplit, List.dropLast_concat] at hother
        rw [hinside other hother] at hfence
        cases hfence
      obtain ⟨kept, hkept, hskips⟩ := closeHeader_append hinside hclose htail fence
      rw [← hsplit] at hkept
      refine ⟨kept, ?_, ?_⟩
      · have hfound := findSome?_skip h.isBlank_drop (List.all_eq_true.mp hblank) (List.cons_ne_nil _ _) (by
          rw [lineStarts_of_not_blank (not_isBlank_of_isFence h.closing)]
          exact hkept)
        rw [h.matchFrontMatter, hfound]
        rfl
      · intro other hother
        rw [hsplit] at hother
        exact hskips.length_le.trans_lt (hother.length_lt (not_isBlank_of_isFence hclose) htail)

theorem recognised_iff_of_blank (hlines : betweenFences (linesOf text) = some (between, fence, after))
    (hne : after ≠ []) (hblank : between.all isBlank = true) (hafter : ∀ other ∈ after.dropLast, isFence other = false) :
    Recognised lib text ↔ ∃ last ∈ between.getLast?, readLines lib [last] = readLines lib between := by
  obtain ⟨line, h⟩ := of_betweenFences hlines
  rcases List.eq_nil_or_concat between with rfl | ⟨blanks, last, hbetween⟩
  · constructor
    · intro hrecognised
      exact absurd hrecognised (not_recognised hlines (h.empty hafter))
    · rintro ⟨_, hlast, _⟩
      cases hlast
  · rw [List.concat_eq_append] at hbetween
    subst hbetween
    obtain ⟨kept, hmatch, hkept⟩ := h.blank hne hafter hblank
    rw [recognised_iff_readLines hlines hmatch hkept, List.getLast?_concat]
    simp

theorem recognised_iff_delimited (hlines : betweenFences (linesOf text) = some (between, fence, after)) :
    Recognised lib text ↔ Delimited lib between fence after := by
  obtain ⟨line, h⟩ := of_betweenFences hlines
  by_cases hne : after = []
  · subst hne
    constructor
    · intro hrecognised
      exact absurd hrecognised (not_recognised hlines h.unclosed)
    · intro hdelimited
      exact absurd rfl hdelimited.closed
  by_cases hblank : between.all isBlank = true
  · by_cases hafter : ∃ other ∈ after.dropLast, isFence other = true
    · obtain ⟨kept, hmatch, hkept⟩ := h.reopened hblank hafter
      rw [recognised_iff_refused hlines hmatch hkept]
      constructor
      · intro hrefused
        refine ⟨hne, fun hfilled => absurd (hblank.symm.trans hfilled) (by decide), fun _ hnone => ?_,
          fun _ _ _ _ => hrefused⟩
        obtain ⟨other, hother, hfence⟩ := hafter
        exact absurd (hfence.symm.trans (hnone other hother)) (by decide)
      · intro hdelimited
        obtain ⟨other, hother, hfence⟩ := hafter
        exact hdelimited.reopened hblank other hother hfence
    · have hnone : ∀ other ∈ after.dropLast, isFence other = false := by
        intro other hother
        exact Bool.eq_false_iff.mpr fun hfence => hafter ⟨other, hother, hfence⟩
      rw [recognised_iff_of_blank hlines hne hblank hnone]
      constructor
      · intro hread
        exact ⟨hne, fun hfilled => absurd (hblank.symm.trans hfilled) (by decide), fun _ _ => hread,
          fun _ other hother hfence => absurd ⟨other, hother, hfence⟩ hafter⟩
      · intro hdelimited
        exact hdelimited.blank hblank hnone
  · obtain ⟨kept, hmatch, hkept⟩ := h.filled hne (Bool.eq_false_iff.mpr hblank)
    rw [recognised_iff_readLines hlines hmatch hkept]
    constructor
    · intro hread
      exact ⟨hne, fun _ => hread, fun hall => absurd hall hblank, fun hall => absurd hall hblank⟩
    · intro hdelimited
      exact hdelimited.filled (Bool.eq_false_iff.mpr hblank)

/-- A text is split as its lines say exactly when it has no front matter or is so delimited. -/
theorem recognised_iff : Recognised lib text ↔
    ∀ between fence after, betweenFences (linesOf text) = some (between, fence, after) →
      Delimited lib between fence after := by
  constructor
  · intro hrecognised between fence after hlines
    exact (recognised_iff_delimited hlines).mp hrecognised
  · intro hdelimited
    cases hlines : betweenFences (linesOf text) with
    | none =>
        constructor
        · intro _
          rw [splitFrontMatter_eq, matchFrontMatter_of_not_between hlines]
        · intro _ _ _ _ hsome
          rw [hlines] at hsome
          cases hsome
        · intro _ _ _ hsome
          rw [hlines] at hsome
          cases hsome
    | some found =>
        obtain ⟨between, fence, after⟩ := found
        exact (recognised_iff_delimited hlines).mpr (hdelimited _ _ _ hlines)

end Recognise

/-! ## Documents that declare themselves private -/

/-- What `DocumentMetadata` does with a header that says so. -/
def KeepsPrivate (lib : Library) : Prop :=
  ∀ raw metadata, Dict.get? raw (.str "visibility") = some (.str "private") → lib.modelValidate raw = .ok metadata →
    metadata.visibility = .private_

def DeclaresPrivate (lib : Library) (text : String) : Prop :=
  ∃ between fence after header, betweenFences (linesOf text) = some (between, fence, after) ∧
    readLines lib between = some header ∧ header.get? (.str "visibility") = some (.str "private")

/-- Wherever the text is a document of a project, the document is private if the text says so. -/
def PrivateKept (lib : Library) (text : String) : Prop :=
  DeclaresPrivate lib text → ∀ (tree : Tree) (root : List String), ∀ file ∈ tree.files, file.text = .ok text →
    (∀ manifest document, parseDocument lib root (file.under (root ++ tree.docsRoot)) manifest = .ok document →
      document.metadata.visibility = .private_) ∧
    Unseen lib (tree.place root) (file.under (root ++ tree.docsRoot))

section Private

variable {lib : Library} {text : String}

theorem Recognised.privateKept (h : Recognised lib text) (hlib : KeepsPrivate lib) : PrivateKept lib text := by
  rintro ⟨between, fence, after, header, hlines, hread, hprivate⟩ tree root file hfile htext
  obtain ⟨kept, _, hsplit⟩ := h.present _ _ _ _ hlines hread
  have hparse : ∀ manifest document,
      parseDocument lib root (file.under (root ++ tree.docsRoot)) manifest = .ok document →
      document.metadata.visibility = .private_ := by
    intro manifest document hdocument
    cases parses_place hfile htext hdocument with
    | legacy hlegacy =>
        rw [hsplit] at hlegacy
        cases hlegacy
    | headed hheaded hvalid =>
        obtain ⟨hraw, _⟩ := Prod.mk.inj (Except.ok.inj (hsplit.symm.trans hheaded))
        cases hraw
        apply hlib _ _ _ hvalid
        rw [get?_completed, hprivate]
  exact ⟨hparse, unseen_of_private fun manifest document _ => hparse manifest document⟩

/-- Front matter is recognised, and a header that says private is respected, exactly where the lines delimit it
as the regular expression has it. -/
theorem frontMatter_iff (hlib : KeepsPrivate lib) : Recognised lib text ∧ PrivateKept lib text ↔
    ∀ between fence after, betweenFences (linesOf text) = some (between, fence, after) →
      Delimited lib between fence after := by
  rw [← recognised_iff]
  constructor
  · exact And.left
  · intro h
    exact ⟨h, h.privateKept hlib⟩

end Private

/-! ### A header at the end of a file -/

/-- One `key: value` on each line. -/
def loadPairs (header : String) : Value :=
  .dict ((linesOf header).filterMap fun line =>
    if isBlank line then none
    else
      let key := line.takeWhile (· ≠ ':')
      some (.str (String.ofList key), .str (String.ofList (line.drop (key.length + 2)))))

def textOf (raw : Dict Key Value) (key : String) : String :=
  match raw.get? (.str key) with
  | some (.str value) => value
  | _ => ""

def visibilityOf (raw : Dict Key Value) : Visibility :=
  match raw.get? (.str "visibility") with
  | some (.str "private") => .private_
  | some (.str "public") => .public_
  | _ => .internal

def tokensOf (raw : Dict Key Value) : Option Nat :=
  match raw.get? (.str "estimated_tokens") with
  | some (.other scalar _) => scalar.str.toNat?
  | _ => none

def pairsLibrary : Library where
  safeLoad header := .ok (loadPairs header)
  modelValidate raw := .ok {
    id := textOf raw "id"
    title := textOf raw "title"
    visibility := visibilityOf raw
    section_ := some (textOf raw "section")
    estimatedTokens := tokensOf raw }
  title s := s

theorem pairsLibrary_keepsPrivate : KeepsPrivate pairsLibrary := by
  intro raw metadata hprivate hvalid
  cases hvalid
  show visibilityOf raw = .private_
  rw [visibilityOf, hprivate]
  rfl

theorem frontMatter_iff_plans :
    Recognised pairsLibrary "---\nvisibility: private\n---\nNot yet." ∧
        PrivateKept pairsLibrary "---\nvisibility: private\n---\nNot yet." ↔
      ∀ between fence after,
        betweenFences (linesOf "---\nvisibility: private\n---\nNot yet.") = some (between, fence, after) →
          Delimited pairsLibrary between fence after :=
  frontMatter_iff pairsLibrary_keepsPrivate

def unclosedFile : DocumentFile where
  parts := ["plans.md"]
  text := .ok "---\nvisibility: private\n---"

def unclosedTree : Tree where
  docsRoot := ["docs"]
  manifest := .ok {}
  files := [unclosedFile]
  distinct := by decide
  named := by decide
  plain := by decide
  empty_of_no_dir := fun h => Bool.noConfusion h

def unclosedDocument : ParsedDocument where
  relativePath := "docs/plans.md"
  metadata := { id := "DOC-DOCS-PLANS", title := "plans", section_ := some "docs", estimatedTokens := some 7 }
  body := "---\nvisibility: private\n---"
  hasFrontMatter := false

/-- Without a line feed after the closing line the document says private and is internal. -/
theorem unclosed_not_kept :
    DeclaresPrivate pairsLibrary "---\nvisibility: private\n---" ∧
    parseDocument pairsLibrary ["/", "atlas"] (unclosedFile.under (["/", "atlas"] ++ unclosedTree.docsRoot)) {} =
      .ok unclosedDocument ∧
    ¬ (Recognised pairsLibrary "---\nvisibility: private\n---" ∧
      PrivateKept pairsLibrary "---\nvisibility: private\n---") := by
  have hparse : parseDocument pairsLibrary ["/", "atlas"]
      (unclosedFile.under (["/", "atlas"] ++ unclosedTree.docsRoot)) {} = .ok unclosedDocument := by
    decide +kernel
  have hdeclares : DeclaresPrivate pairsLibrary "---\nvisibility: private\n---" := by
    refine ⟨["visibility: private".toList], "---".toList, [], [(.str "visibility", .str "private")], ?_, ?_, ?_⟩
    · decide +kernel
    · rfl
    · rfl
  refine ⟨hdeclares, hparse, fun h => ?_⟩
  have hprivate := (h.2 hdeclares unclosedTree ["/", "atlas"] unclosedFile List.mem_cons_self rfl).1 _ _ hparse
  exact absurd hprivate (by decide)

end AtlasFlow.Reference.Documents
