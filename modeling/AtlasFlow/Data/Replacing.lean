import AtlasFlow.Data.Lines
import AtlasFlow.Data.Regex
import AtlasFlow.Data.Spans

/-!
# Replacing what patterns match

A pattern is an expression, with or without a word boundary before it. Its matches in a text are found from left to
right, and a mark takes the place of each. A text is a list of cells that carry a character each, so that one can
see afterwards which characters are left.
-/

/-- An expression, and whether a word boundary is asked for before it. -/
structure Pattern (σ : Type) where
  boundary : Bool
  body : Regex σ

namespace Pattern

variable {σ α : Type} (word : σ → Bool) (char : α → σ)

/-- `\b`: of the characters before and after exactly one belongs to a word. -/
def isBoundary (before after : Option σ) : Bool := before.any word != after.any word

/-- The length of the match at the start of a text. -/
def first (p : Pattern σ) (before : Option σ) (text : List σ) : Option Nat :=
  if p.boundary && !isBoundary word before text.head? then none else p.body.first text

/-- Whether there is a match anywhere in a text. -/
def isMatch (p : Pattern σ) : Option σ → List σ → Bool
  | before, [] => (p.first word before []).isSome
  | before, c :: rest => (p.first word before (c :: rest)).isSome || p.isMatch (some c) rest

/-- The text between the matches, after a character and without the first `skip` cells, which a match has taken. -/
def split (p : Pattern σ) : Option σ → Nat → List α → List (List α)
  | _, _, [] => [[]]
  | _, skip + 1, a :: rest => p.split (some (char a)) skip rest
  | before, 0, a :: rest =>
    match p.first word before ((a :: rest).map char) with
    | some (n + 1) => [] :: p.split (some (char a)) n rest
    | _ => (p.split (some (char a)) 0 rest).modifyHead (a :: ·)

/-- The text with the mark in the place of each match. -/
def replace (mark : List α) (p : Pattern σ) (text : List α) : List α :=
  mark.intercalate (p.split word char none 0 text)

/-- Pattern after pattern. -/
def replaceAll (mark : List α) (patterns : List (Pattern σ)) (text : List α) : List α :=
  patterns.foldl (fun text p => p.replace word char mark text) text

/-- The cells from `lo` to `hi`. -/
def slice {β : Type} (lo hi : Nat) (text : List β) : List β := (text.take hi).drop lo

/-- The character before a position. -/
def charBefore (text : List σ) (q : Nat) : Option σ := if q = 0 then none else text[q - 1]?

/-! ## Slices -/

section Slice

variable {β γ : Type} {text : List β} {lo hi q : Nat}

theorem length_slice (hhi : hi ≤ text.length) : (slice lo hi text).length = hi - lo := by
  rw [slice, List.length_drop, List.length_take, Nat.min_eq_left hhi]

theorem slice_self (text : List β) (lo : Nat) : slice lo lo text = [] := by
  rw [slice, List.drop_eq_nil_iff, List.length_take]
  exact Nat.min_le_left _ _

theorem slice_all (text : List β) : slice 0 text.length text = text := by
  rw [slice, List.take_length, List.drop_zero]

theorem map_slice (f : β → γ) (lo hi : Nat) (text : List β) : (slice lo hi text).map f = slice lo hi (text.map f) := by
  rw [slice, slice, List.map_drop, List.map_take]

theorem slice_cons (hlo : lo < hi) (hhi : hi ≤ text.length) :
    ∃ c, text[lo]? = some c ∧ slice lo hi text = c :: slice (lo + 1) hi text := by
  have hlen : lo < (text.take hi).length := by
    rw [List.length_take]
    omega
  refine ⟨(text.take hi)[lo], ?_, ?_⟩
  · rw [List.getElem_take, List.getElem?_eq_getElem]
  · rw [slice, List.drop_eq_getElem_cons hlen]
    rfl

theorem take_slice (h : q ≤ hi) (text : List β) : (slice lo hi text).take (q - lo) = slice lo q text := by
  rw [slice, slice, List.take_drop, List.take_take]
  rcases Nat.le_total lo q with hle | hle
  · rw [Nat.add_sub_cancel' hle, Nat.min_eq_left h]
  · rw [Nat.sub_eq_zero_of_le hle, Nat.add_zero, List.drop_eq_nil_iff.mpr, List.drop_eq_nil_iff.mpr]
    · rw [List.length_take]
      omega
    · rw [List.length_take]
      omega

theorem drop_slice (text : List β) (n : Nat) : (slice lo hi text).drop n = slice (lo + n) hi text := by
  rw [slice, slice, List.drop_drop]

theorem slice_append (hlo : lo ≤ q) (hq : q ≤ hi) (text : List β) :
    slice lo q text ++ slice q hi text = slice lo hi text := by
  rw [← take_slice hq, show slice q hi text = (slice lo hi text).drop (q - lo) by
    rw [drop_slice, Nat.add_sub_cancel' hlo], List.take_append_drop]

theorem slice_succ (hlo : lo ≤ hi) {c : β} (hc : text[hi]? = some c) :
    slice lo (hi + 1) text = slice lo hi text ++ [c] := by
  have hlt : hi < text.length := (List.getElem?_eq_some_iff.mp hc).1
  obtain ⟨d, hd, hcons⟩ := slice_cons (Nat.lt_succ_self hi) (show hi + 1 ≤ text.length from hlt)
  rw [← slice_append hlo (Nat.le_succ hi), hcons, slice_self]
  rw [Option.some.inj (hd.symm.trans hc)]

theorem charBefore_succ {text : List σ} {q : Nat} : charBefore text (q + 1) = text[q]? := by
  rw [charBefore, if_neg (Nat.succ_ne_zero q), Nat.add_sub_cancel]

end Slice

/-! ## Splitting a stretch -/

section Split

variable {word : σ → Bool} {char : α → σ} {p : Pattern σ} {cells : List α} {lo hi q : Nat}

theorem split_ne_nil (before : Option σ) (skip : Nat) (cells : List α) : p.split word char before skip cells ≠ [] := by
  induction cells generalizing before skip with
  | nil => exact List.cons_ne_nil _ _
  | cons a rest ih =>
      cases skip with
      | succ skip => exact ih _ _
      | zero =>
          rw [split]
          split
          · exact List.cons_ne_nil _ _
          · rw [ne_eq, List.modifyHead_eq_nil_iff]
            exact ih _ _

/-- What an engine finds at a position, in a stretch up to `hi`. -/
def hitIn (word : σ → Bool) (p : Pattern σ) (text : List σ) (hi q : Nat) : Option Nat :=
  p.first word (charBefore text q) (slice q hi text)

theorem split_skip (p : Pattern σ) (hhi : hi ≤ cells.length) {skip : Nat} (hskip : q + skip ≤ hi) :
    p.split word char (charBefore (cells.map char) q) skip (slice q hi cells) =
      p.split word char (charBefore (cells.map char) (q + skip)) 0 (slice (q + skip) hi cells) := by
  induction skip generalizing q with
  | zero => rfl
  | succ skip ih =>
      obtain ⟨a, ha, hcons⟩ := slice_cons (show q < hi by omega) hhi
      rw [hcons, split, show q + (skip + 1) = q + 1 + skip by omega, ← ih (by omega), charBefore_succ, List.getElem?_map,
        ha]
      rfl

/-- The pieces of a stretch, as lists and as spans. -/
theorem split_slice (hhi : hi ≤ cells.length) {pieces taken : List Spans.Span}
    (h : Spans.Cuts (hitIn word p (cells.map char) hi) hi lo q pieces taken) :
    (p.split word char (charBefore (cells.map char) q) 0 (slice q hi cells)).modifyHead (slice lo q cells ++ ·) =
      pieces.map fun piece => slice piece.1 piece.2 cells := by
  induction h with
  | done lo hlo =>
      rw [slice_self, split, List.modifyHead_cons, List.append_nil]
      rfl
  | @keep lo q pieces taken hlo hq hnone rest ih =>
      obtain ⟨a, ha, hcons⟩ := slice_cons hq hhi
      rw [hitIn, ← map_slice, hcons] at hnone
      rw [← ih, hcons, split, hnone]
      dsimp only
      rw [List.modifyHead_modifyHead, slice_succ hlo ha, charBefore_succ, List.getElem?_map, ha]
      congr 1
      funext after
      exact (List.append_assoc (slice lo q cells) [a] after).symm
  | @hit lo q n pieces taken hlo hsome hn hend rest ih =>
      obtain ⟨a, ha, hcons⟩ := slice_cons (show q < hi by omega) hhi
      obtain ⟨m, rfl⟩ : ∃ m, n = m + 1 := ⟨n - 1, by omega⟩
      rw [hitIn, ← map_slice, hcons] at hsome
      rw [List.map_cons, ← ih, hcons, split, hsome]
      dsimp only
      rw [List.modifyHead_cons, List.append_nil, slice_self]
      have hskip : p.split word char (charBefore (cells.map char) (q + 1)) m (slice (q + 1) hi cells) = _ :=
        split_skip p hhi (by omega)
      rw [charBefore_succ, List.getElem?_map, ha] at hskip
      rw [show q + (m + 1) = q + 1 + m by omega, ← hskip]
      cases hsplit : p.split word char (Option.map char (some a)) m (slice (q + 1) hi cells) with
      | nil => exact absurd hsplit (split_ne_nil _ _ _)
      | cons piece pieces =>
          rw [List.modifyHead_cons, List.nil_append]
          exact congrArg _ hsplit

end Split

/-! ## A text with marks in it -/

section Mark

variable {word : σ → Bool} {char : α → σ} {p : Pattern σ} {mark : List α}

theorem first_spec {before : Option σ} {text : List σ} {n : Nat} (h : p.first word before text = some n) :
    n ≤ text.length ∧ p.body.Matches (text.take n) ∧ (p.boundary = true → isBoundary word before text.head? = true) := by
  unfold first at h
  split at h
  · cases h
  · next hboundary =>
    obtain ⟨hle, hmatch⟩ := Regex.mem_ends.mp (Regex.first_mem h)
    exact ⟨hle, hmatch, fun hp => by simpa [hp] using hboundary⟩

theorem first_of_ends_nil {before : Option σ} {text : List σ} (h : p.body.ends text = []) :
    p.first word before text = none := by
  unfold first
  split
  · rfl
  · exact Regex.first_eq_none.mpr h

/-- Of the character before only matters whether it belongs to a word. -/
theorem first_before {before before' : Option σ} (h : before.any word = before'.any word) (text : List σ) :
    p.first word before text = p.first word before' text := by
  rw [first, first, isBoundary, isBoundary, h]

theorem split_before {before before' : Option σ} {cells : List α}
    (h : p.first word before (cells.map char) = p.first word before' (cells.map char)) :
    p.split word char before 0 cells = p.split word char before' 0 cells := by
  cases cells with
  | nil => rfl
  | cons a rest => rw [split, split, h]

theorem isMatch_before {before before' : Option σ} {text : List σ}
    (h : p.first word before text = p.first word before' text) :
    p.isMatch word before text = p.isMatch word before' text := by
  cases text with
  | nil => rw [isMatch, isMatch, h]
  | cons c rest => rw [isMatch, isMatch, h]

/-- The pattern finds nothing in a mark, and nothing that reaches into one; after a mark it looks on as at the start
of a text. -/
structure Inert (word : σ → Bool) (mark : List σ) (p : Pattern σ) : Prop where
  rejects : ∃ c rest, mark = c :: rest ∧ p.body.Rejects c
  misses : ∀ c ∈ mark, ∀ text, p.body.ends (c :: text) = []
  closes : ∀ c, mark.getLast? = some c → word c = false

theorem first_append_mark {c d : σ} (hc : p.body.Rejects c) (before : Option σ) (text after : List σ) :
    p.first word before (d :: (text ++ c :: after)) = p.first word before (d :: text) := by
  rw [first, first, Regex.first, Regex.first, ← List.cons_append, hc.ends_append]
  rfl

theorem intercalate_modifyHead {mark before : List α} {pieces : List (List α)} (h : pieces ≠ []) :
    mark.intercalate (pieces.modifyHead (before ++ ·)) = before ++ mark.intercalate pieces := by
  cases pieces with
  | nil => exact absurd rfl h
  | cons piece pieces =>
      rw [List.modifyHead_cons]
      cases pieces with
      | nil => rw [List.intercalate_singleton, List.intercalate_singleton]
      | cons next pieces =>
          rw [List.intercalate_cons_cons, List.intercalate_cons_cons, List.append_assoc, List.append_assoc,
            List.append_assoc]

theorem intercalate_modifyHead_cons {mark : List α} (a : α) {pieces : List (List α)} (h : pieces ≠ []) :
    mark.intercalate (pieces.modifyHead (a :: ·)) = a :: mark.intercalate pieces :=
  @intercalate_modifyHead α mark [a] pieces h

theorem intercalate_append {mark : List α} {pieces others : List (List α)} (h : pieces ≠ []) (h' : others ≠ []) :
    mark.intercalate (pieces ++ others) = mark.intercalate pieces ++ (mark ++ mark.intercalate others) := by
  induction pieces with
  | nil => exact absurd rfl h
  | cons piece pieces ih =>
      rw [List.cons_append]
      by_cases hpieces : pieces = []
      · rw [hpieces, List.nil_append, List.intercalate_cons_of_ne_nil h', List.intercalate_singleton, List.append_assoc]
      · rw [List.intercalate_cons_of_ne_nil (by simp [hpieces]), ih hpieces, List.intercalate_cons_of_ne_nil hpieces]
        simp only [List.append_assoc]

/-- A stretch in which nothing begins is passed over. -/
theorem split_passed {passed : List α} (h : ∀ a ∈ passed, ∀ text, p.body.ends (char a :: text) = [])
    (before : Option σ) (cells : List α) :
    p.split word char before 0 (passed ++ cells) =
      (p.split word char ((passed.map char).getLast?.or before) 0 cells).modifyHead (passed ++ ·) := by
  induction passed generalizing before with
  | nil =>
      cases hsplit : p.split word char before 0 cells with
      | nil => exact absurd hsplit (split_ne_nil _ _ _)
      | cons piece pieces => simp [hsplit]
  | cons a passed ih =>
      obtain ⟨ha, hrest⟩ := List.forall_mem_cons.mp h
      rw [List.cons_append, split, List.map_cons, first_of_ends_nil (ha _)]
      dsimp only
      rw [ih hrest, List.modifyHead_modifyHead, List.map_cons]
      have hlast : ((passed.map char).getLast?.or (some (char a))) = ((char a :: passed.map char).getLast?.or before) := by
        cases passed <;> simp [List.getLast?_cons]
      rw [hlast]
      rfl

theorem split_mark (h : p.Inert word (mark.map char)) (before : Option σ) (cells : List α) :
    p.split word char before 0 (mark ++ cells) = (p.split word char none 0 cells).modifyHead (mark ++ ·) := by
  rw [split_passed fun a ha => h.misses _ (List.mem_map_of_mem ha)]
  congr 1
  refine split_before (first_before ?_ _)
  obtain ⟨c, rest, hmark, _⟩ := h.rejects
  have hlast := h.closes ((mark.map char).getLast (by simp [hmark])) (List.getLast?_eq_some_getLast _)
  rw [List.getLast?_eq_some_getLast (by simp [hmark] : mark.map char ≠ []), Option.some_or, Option.any_some, hlast]
  rfl

/-- The pieces before a mark and the pieces after it are those of the two texts. -/
theorem intercalate_split_append (h : p.Inert word (mark.map char)) {skip : Nat} {first : List α}
    (hskip : skip ≤ first.length) (before : Option σ) (cells : List α) :
    mark.intercalate (p.split word char before skip (first ++ (mark ++ cells))) =
      mark.intercalate (p.split word char before skip first) ++ (mark ++
        mark.intercalate (p.split word char none 0 cells)) := by
  induction first generalizing before skip with
  | nil =>
      cases Nat.le_zero.mp hskip
      rw [List.nil_append, split_mark h, intercalate_modifyHead (split_ne_nil _ _ _)]
      rfl
  | cons a first ih =>
      cases skip with
      | succ skip => exact ih (Nat.le_of_succ_le_succ hskip) _
      | zero =>
          obtain ⟨c, rest, hmark, hc⟩ := h.rejects
          have hfirst : p.first word before ((a :: (first ++ (mark ++ cells))).map char) =
              p.first word before ((a :: first).map char) := by
            rw [List.map_cons, List.map_append, List.map_append, hmark, List.cons_append, List.map_cons]
            exact first_append_mark hc _ _ _
          rw [List.cons_append, split, split, hfirst]
          split
          · next n hn =>
            have hle : n + 1 ≤ (a :: first).length := by
              simpa using (first_spec hn).1
            rw [List.intercalate_cons_of_ne_nil (split_ne_nil _ _ _),
              List.intercalate_cons_of_ne_nil (split_ne_nil _ _ _), ih (Nat.le_of_succ_le_succ hle)]
            simp only [List.nil_append, List.append_assoc]
          · rw [intercalate_modifyHead_cons a (split_ne_nil _ _ _), intercalate_modifyHead_cons a (split_ne_nil _ _ _),
              ih (Nat.zero_le _)]
            rfl

/-- The pieces of a text with marks in it are those of its parts. -/
theorem intercalate_split_intercalate (h : p.Inert word (mark.map char)) {parts : List (List α)} (hne : parts ≠ []) :
    mark.intercalate (p.split word char none 0 (mark.intercalate parts)) =
      mark.intercalate (parts.flatMap fun part => p.split word char none 0 part) := by
  induction parts with
  | nil => exact absurd rfl hne
  | cons part parts ih =>
      by_cases hparts : parts = []
      · rw [hparts, List.intercalate_singleton, List.flatMap_singleton]
      · rw [List.intercalate_cons_of_ne_nil hparts, List.append_assoc, intercalate_split_append h (Nat.zero_le _),
          ih hparts, List.flatMap_cons, intercalate_append (split_ne_nil _ _ _)]
        rw [ne_eq, List.flatMap_eq_nil_iff]
        intro hall
        obtain ⟨last, hlast⟩ := List.exists_mem_of_ne_nil parts hparts
        exact split_ne_nil _ _ _ (hall last hlast)

/-- A match in a text with marks in it is in one of its parts. -/
theorem isMatch_append_mark {mark : List σ} (h : p.Inert word mark) (hne : ¬ p.body.Matches []) (before : Option σ)
    (text after : List σ) :
    p.isMatch word before (text ++ (mark ++ after)) = (p.isMatch word before text || p.isMatch word none after) := by
  have hpassed : ∀ passed : List σ, (∀ c ∈ passed, ∀ text, p.body.ends (c :: text) = []) → ∀ before,
      p.isMatch word before (passed ++ after) = p.isMatch word (passed.getLast?.or before) after := by
    intro passed
    induction passed with
    | nil => exact fun _ before => rfl
    | cons c passed ih =>
        intro hall before
        obtain ⟨hc, hrest⟩ := List.forall_mem_cons.mp hall
        rw [List.cons_append, isMatch, first_of_ends_nil (hc _), ih hrest]
        cases passed <;> simp [List.getLast?_cons]
  induction text generalizing before with
  | nil =>
      have hnil : p.isMatch word before [] = false := by
        rw [isMatch, first_of_ends_nil]
        · rfl
        · refine List.eq_nil_iff_forall_not_mem.mpr fun n hn => hne ?_
          have hmatch := (Regex.mem_ends.mp hn).2
          rwa [List.take_nil] at hmatch
      rw [List.nil_append, hnil, Bool.false_or, hpassed mark h.misses]
      obtain ⟨c, rest, hmark, _⟩ := h.rejects
      have hlast := h.closes (mark.getLast (by simp [hmark])) (List.getLast?_eq_some_getLast _)
      refine isMatch_before (first_before ?_ _)
      rw [List.getLast?_eq_some_getLast (by simp [hmark] : mark ≠ []), Option.some_or, Option.any_some, hlast]
      rfl
  | cons c text ih =>
      obtain ⟨d, rest, hmark, hd⟩ := h.rejects
      rw [List.cons_append, isMatch, isMatch, ih, Bool.or_assoc, hmark, List.cons_append, first_append_mark hd]

/-- Nothing is replaced where there is no match. -/
theorem split_of_not_isMatch {cells : List α} {before : Option σ} (h : p.isMatch word before (cells.map char) = false) :
    p.split word char before 0 cells = [cells] := by
  induction cells generalizing before with
  | nil => rfl
  | cons a rest ih =>
      rw [List.map_cons, isMatch, Bool.or_eq_false_iff] at h
      rw [split, List.map_cons, Option.isSome_eq_false_iff.mp h.1 |> Option.isNone_iff_eq_none.mp]
      dsimp only
      rw [ih h.2]
      rfl

end Mark

/-! ## Pattern after pattern -/

/-- A stretch of a text is a match of the `k`-th pattern. -/
def Full (word : σ → Bool) (patterns : List (Pattern σ)) (text : List σ) (k i e : Nat) : Prop :=
  ∃ p, patterns[k]? = some p ∧ i < e ∧ e ≤ text.length ∧ p.body.Matches (slice i e text) ∧
    (p.boundary = true → isBoundary word (charBefore text i) text[i]? = true)

def hit (word : σ → Bool) (patterns : List (Pattern σ)) (text : List σ) (k hi q : Nat) : Option Nat :=
  match patterns[k]? with
  | some p => hitIn word p text hi q
  | none => none

/-- Patterns that match some character each, and the longest stretch that they can. A boundary is asked for at the
beginning of a word only, and there no match of another pattern can have ended. -/
structure Orderly (word : σ → Bool) (patterns : List (Pattern σ)) : Prop where
  nonempty : ∀ p ∈ patterns, ¬ p.body.Matches []
  longest : ∀ p ∈ patterns, p.body.Longest
  opens : ∀ p ∈ patterns, p.boundary = true → p.body.Opens word
  closed : ∀ p ∈ patterns, ∀ q ∈ patterns, q.boundary = true → ∀ w c u, p.body.Matches w → q.body.Matches (c :: u) →
    p.body.Matches (w ++ [c]) ∨ ∀ d, w.getLast? = some d → word d = false

section Patterns

variable {word : σ → Bool} {char : α → σ} {patterns : List (Pattern σ)} {text : List σ} {k i e : Nat}

theorem head?_slice {lo hi : Nat} (hlo : lo < hi) (hhi : hi ≤ text.length) : (slice lo hi text).head? = text[lo]? := by
  obtain ⟨c, hc, hcons⟩ := slice_cons hlo hhi
  rw [hcons, hc, List.head?_cons]

theorem Orderly.finds (h : Orderly word patterns) (text : List σ) :
    Spans.Finds text.length (Full word patterns text) (hit word patterns text) where
  bounds := by
    rintro k i e ⟨p, _, hlt, hle, _⟩
    exact ⟨hlt, hle⟩
  sound := by
    intro k hi q n hhi hsome
    unfold hit at hsome
    split at hsome
    · next p hp =>
      have hmem : p ∈ patterns := List.mem_of_getElem? hp
      obtain ⟨hle, hmatch, hboundary⟩ := first_spec hsome
      have hpos : 0 < n := by
        rcases Nat.eq_zero_or_pos n with rfl | hpos
        · rw [List.take_zero] at hmatch
          exact absurd hmatch (h.nonempty p hmem)
        · exact hpos
      rw [length_slice hhi] at hle
      have hend : q + n ≤ hi := by omega
      have htake : (slice q hi text).take n = slice q (q + n) text := by
        rw [← take_slice hend, Nat.add_sub_cancel_left]
      rw [htake] at hmatch
      rw [head?_slice (by omega) hhi] at hboundary
      exact ⟨hpos, hend, p, hp, by omega, by omega, hmatch, hboundary⟩
    · cases hsome
  longest := by
    rintro k hi q e hhi ⟨p, hp, hlt, hle, hmatch, hboundary⟩ hend
    have hmem : p ∈ patterns := List.mem_of_getElem? hp
    have hin : e - q ∈ p.body.ends (slice q hi text) := by
      refine Regex.mem_ends.mpr ⟨?_, ?_⟩
      · rw [length_slice hhi]
        omega
      · rw [take_slice hend]
        exact hmatch
    obtain ⟨n, hn⟩ := Regex.first_isSome hin
    refine ⟨n, ?_, ?_⟩
    · rw [hit, hp]
      show p.first word _ _ = _
      rw [first, head?_slice (by omega) hhi, if_neg, hn]
      cases hb : p.boundary with
      | false => simp
      | true => simp [hboundary hb]
    · have hlongest := h.longest p hmem _ n hn _ hin
      omega

/-- At the beginning of a piece a pattern looks on as at the start of a text. -/
theorem Orderly.first_piece (h : Orderly word patterns) (text : List σ) {p : Pattern σ} (hp : p ∈ patterns)
    {piece : Spans.Span} (hpiece : piece ∈ Spans.piecesAfter (hit word patterns text) text.length k) :
    p.first word none (slice piece.1 piece.2 text) =
      p.first word (charBefore text piece.1) (slice piece.1 piece.2 text) := by
  have hfinds := h.finds text
  obtain ⟨hle, hlen⟩ := hfinds.piece_bounds k piece hpiece
  rcases hfinds.piece_begins k piece hpiece with hzero | ⟨l, _, whole, hwhole, span, _, hsome, hlt, hafter, hwithin⟩
  · rw [hzero]
    rfl
  rw [first, first]
  by_cases hnothing : p.boundary = false ∨ p.body.first (slice piece.1 piece.2 text) = none
  · rcases hnothing with hno | hno
    · simp [hno]
    · simp [hno]
  rw [not_or, Bool.not_eq_false] at hnothing
  obtain ⟨hboundary, hfound⟩ := hnothing
  obtain ⟨n, hn⟩ := Option.ne_none_iff_exists'.mp hfound
  obtain ⟨_, hmatch⟩ := Regex.mem_ends.mp (Regex.first_mem hn)
  obtain ⟨c, u, htake, _⟩ := h.opens p hp hboundary _ hmatch
  have hnonempty : piece.1 < piece.2 := by
    by_contra hempty
    have hsame : piece.1 = piece.2 := by omega
    rw [hsame, slice_self, List.take_nil] at htake
    cases htake
  obtain ⟨d, hd, hcons⟩ := slice_cons hnonempty hlen
  have hcd : d = c := by
    rw [hcons] at htake
    cases n with
    | zero => cases htake
    | succ n => exact (List.cons.inj htake).1
  -- the match that ended here could not be longer, so it did not end in a word
  obtain ⟨_, hwholeLen⟩ := hfinds.piece_bounds l whole hwhole
  obtain ⟨_, _, hfull⟩ := hfinds.sound l whole.2 span.1 _ hwholeLen hsome
  rw [show span.1 + (span.2 - span.1) = piece.1 by omega] at hfull
  obtain ⟨before, hbefore, _, _, hbeforeMatch, hbeforeBoundary⟩ := hfull
  have hclosed := h.closed before (List.mem_of_getElem? hbefore) p hp hboundary _ c u hbeforeMatch (htake ▸ hmatch)
  have hlast : ∀ b, (slice span.1 piece.1 text).getLast? = some b → word b = false := by
    rcases hclosed with hlonger | hlast
    · rw [← hcd, ← slice_succ (by omega) hd] at hlonger
      obtain ⟨m, hm, hreach⟩ := hfinds.longest l whole.2 span.1 (piece.1 + 1) hwholeLen
        ⟨before, hbefore, by omega, by omega, hlonger, hbeforeBoundary⟩ (by omega)
      rw [hsome] at hm
      have hsame := Option.some.inj hm
      omega
    · exact hlast
  obtain ⟨b, hb⟩ : ∃ b, text[piece.1 - 1]? = some b :=
    ⟨_, List.getElem?_eq_getElem (show piece.1 - 1 < text.length by omega)⟩
  have hword : word b = false := by
    refine hlast b ?_
    have hsucc := slice_succ (show span.1 ≤ piece.1 - 1 by omega) hb
    rw [show piece.1 - 1 + 1 = piece.1 by omega] at hsucc
    rw [hsucc, List.getLast?_append]
    rfl
  have hchar : charBefore text piece.1 = some b := by
    rw [charBefore, if_neg (show ¬ piece.1 = 0 by omega), hb]
  rw [hchar]
  simp [isBoundary, hword]

/-- What a pass makes of the pieces before it. -/
theorem Orderly.split_pieces (h : Orderly word patterns) {cells : List α} {p : Pattern σ} (hp : patterns[k]? = some p) :
    ((Spans.piecesAfter (hit word patterns (cells.map char)) cells.length k).map fun piece =>
        slice piece.1 piece.2 cells).flatMap (fun part => p.split word char none 0 part) =
      (Spans.piecesAfter (hit word patterns (cells.map char)) cells.length (k + 1)).map fun piece =>
        slice piece.1 piece.2 cells := by
  have hlength : (cells.map char).length = cells.length := List.length_map char
  have hfinds := h.finds (cells.map char)
  rw [hlength] at hfinds
  rw [Spans.piecesAfter, List.flatMap_map, List.map_flatMap]
  refine List.flatMap_congr fun piece hpiece => ?_
  obtain ⟨hle, hlen⟩ := hfinds.piece_bounds k piece hpiece
  have hfound : hit word patterns (cells.map char) k piece.2 = hitIn word p (cells.map char) piece.2 := by
    funext q
    rw [hit, hp]
  have hcuts := hfinds.cuts k hle hlen
  rw [hfound] at hcuts ⊢
  rw [← split_slice hlen hcuts, slice_self]
  have hfirst := h.first_piece (cells.map char) (List.mem_of_getElem? hp) (hlength.symm ▸ hpiece)
  rw [← map_slice] at hfirst
  rw [split_before hfirst]
  cases hsplit : p.split word char (charBefore (cells.map char) piece.1) 0 (slice piece.1 piece.2 cells) with
  | nil => rfl
  | cons part parts => rfl

theorem piecesAfter_ne_nil (h : Orderly word patterns) (text : List σ) (k : Nat) :
    Spans.piecesAfter (hit word patterns text) text.length k ≠ [] := by
  induction k with
  | zero => exact List.cons_ne_nil _ _
  | succ k ih =>
      rw [Spans.piecesAfter, ne_eq, List.flatMap_eq_nil_iff]
      intro hall
      obtain ⟨piece, hpiece⟩ := List.exists_mem_of_ne_nil _ ih
      obtain ⟨hle, hlen⟩ := (h.finds text).piece_bounds k piece hpiece
      have hcuts := (h.finds text).cuts k hle hlen
      rw [hall piece hpiece] at hcuts
      cases hcuts.nonempty rfl

/-- The text after some of the patterns is what the spans leave of it, with marks between. -/
theorem Orderly.replaceAll_take (h : Orderly word patterns) {mark : List α}
    (hinert : ∀ p ∈ patterns.tail, p.Inert word (mark.map char)) (cells : List α) (hk : k ≤ patterns.length) :
    replaceAll word char mark (patterns.take k) cells =
      mark.intercalate ((Spans.piecesAfter (hit word patterns (cells.map char)) cells.length k).map fun piece =>
        slice piece.1 piece.2 cells) := by
  induction k with
  | zero =>
      show cells = mark.intercalate [slice 0 cells.length cells]
      rw [slice_all, List.intercalate_singleton]
  | succ k ih =>
      obtain ⟨p, hp⟩ : ∃ p, patterns[k]? = some p := ⟨_, List.getElem?_eq_getElem hk⟩
      rw [List.take_add_one, hp, replaceAll, List.foldl_append]
      show p.replace word char mark (replaceAll word char mark (patterns.take k) cells) = _
      rw [ih (Nat.le_of_succ_le hk), replace, ← h.split_pieces hp]
      cases k with
      | zero =>
          show mark.intercalate (p.split word char none 0 (mark.intercalate [slice 0 cells.length cells])) =
            mark.intercalate ([slice 0 cells.length cells].flatMap _)
          rw [List.intercalate_singleton, List.flatMap_singleton]
      | succ k =>
          have hlater : p ∈ patterns.tail := by
            refine List.mem_of_getElem? (i := k) ?_
            rw [List.getElem?_tail]
            exact hp
          refine intercalate_split_intercalate (hinert p hlater) ?_
          have hne := piecesAfter_ne_nil h (cells.map char) (k + 1)
          rw [List.length_map] at hne
          rwa [ne_eq, List.map_eq_nil_iff]

theorem Orderly.replaceAll_eq (h : Orderly word patterns) {mark : List α}
    (hinert : ∀ p ∈ patterns.tail, p.Inert word (mark.map char)) (cells : List α) :
    replaceAll word char mark patterns cells =
      mark.intercalate ((Spans.piecesAfter (hit word patterns (cells.map char)) cells.length patterns.length).map
        fun piece => slice piece.1 piece.2 cells) := by
  rw [← h.replaceAll_take hinert cells le_rfl, List.take_length]

/-! ### What is left of a text -/

/-- The text after all patterns, each character with the position that it had, if it had one. -/
def trace (word : σ → Bool) (mark : List σ) (patterns : List (Pattern σ)) (text : List σ) : List (σ × Option Nat) :=
  replaceAll word Prod.fst (mark.map fun c => (c, none)) patterns (text.zipIdx.map fun item => (item.1, some item.2))

theorem map_intercalate {β γ : Type} (f : β → γ) (mark : List β) (parts : List (List β)) :
    (mark.intercalate parts).map f = (mark.map f).intercalate (parts.map fun part => part.map f) := by
  induction parts with
  | nil => rfl
  | cons part parts ih =>
      by_cases hparts : parts = []
      · rw [hparts, List.intercalate_singleton, List.map_singleton, List.intercalate_singleton]
      · rw [List.intercalate_cons_of_ne_nil hparts, List.map_append, List.map_append, ih, List.map_cons,
          List.intercalate_cons_of_ne_nil (by simpa using hparts)]

theorem map_fst_cells (text : List σ) :
    (text.zipIdx.map fun item => (item.1, some item.2)).map Prod.fst = text := by
  rw [List.map_map]
  exact List.zipIdx_map_fst 0 text

section Left

variable {mark : List σ} (h : Orderly word patterns) (hinert : ∀ p ∈ patterns.tail, p.Inert word mark)

include h hinert

/-- Without the positions it is the text that the patterns leave. -/
theorem trace_text (text : List σ) :
    (trace word mark patterns text).map Prod.fst = replaceAll word id mark patterns text := by
  have hmark : (mark.map fun c => (c, (none : Option Nat))).map Prod.fst = mark := by
    rw [List.map_map]
    exact List.map_id mark
  have hmark' : mark.map id = mark := List.map_id mark
  rw [trace, h.replaceAll_eq (hmark.symm ▸ hinert), h.replaceAll_eq (hmark'.symm ▸ hinert), map_intercalate, hmark,
    map_fst_cells, List.map_id, List.map_map, List.length_map, List.length_zipIdx]
  congr 2
  funext piece
  rw [Function.comp_apply, map_slice, map_fst_cells]

/-- A character shows in the text that the patterns leave just where no pass took it out. -/
theorem mem_trace (text : List σ) (x : Nat) : (∃ c, (c, some x) ∈ trace word mark patterns text) ↔
    Spans.Kept (hit word patterns text) text.length patterns.length x := by
  have hmark : (mark.map fun c => (c, (none : Option Nat))).map Prod.fst = mark := by
    rw [List.map_map]
    exact List.map_id mark
  rw [trace, h.replaceAll_eq (hmark.symm ▸ hinert), map_fst_cells, List.length_map, List.length_zipIdx]
  have hnot : ∀ c, (c, some x) ∉ mark.map fun c => (c, (none : Option Nat)) := by
    intro c hc
    obtain ⟨d, _, heq⟩ := List.mem_map.mp hc
    cases heq
  have hslice : ∀ lo hi, hi ≤ text.length →
      ((∃ c, (c, some x) ∈ slice lo hi (text.zipIdx.map fun item => (item.1, some item.2))) ↔ lo ≤ x ∧ x < hi) := by
    intro lo hi hhi
    constructor
    · rintro ⟨c, hc⟩
      obtain ⟨j, hj⟩ := List.mem_iff_getElem?.mp hc
      rw [slice, List.getElem?_drop, List.getElem?_take] at hj
      split at hj
      · next hlt =>
        rw [List.getElem?_map, List.getElem?_zipIdx, Option.map_map] at hj
        obtain ⟨d, _, heq⟩ := Option.map_eq_some_iff.mp hj
        simp only [Function.comp_apply, Prod.mk.injEq, Option.some.injEq] at heq
        omega
      · cases hj
    · rintro ⟨hlo, hlt⟩
      obtain ⟨c, hc⟩ : ∃ c, text[x]? = some c := ⟨_, List.getElem?_eq_getElem (lt_of_lt_of_le hlt hhi)⟩
      refine ⟨c, List.mem_iff_getElem?.mpr ⟨x - lo, ?_⟩⟩
      rw [slice, List.getElem?_drop, Nat.add_sub_cancel' hlo, List.getElem?_take, if_pos hlt, List.getElem?_map,
        List.getElem?_zipIdx, hc]
      simp
  constructor
  · rintro ⟨c, hc⟩
    obtain ⟨part, hpart, hc⟩ := (Lines.mem_intercalate_iff (hnot c)).mp hc
    obtain ⟨piece, hpiece, rfl⟩ := List.mem_map.mp hpart
    exact ⟨piece, hpiece, (hslice _ _ ((h.finds text).piece_bounds _ piece hpiece).2).mp ⟨c, hc⟩⟩
  · rintro ⟨piece, hpiece, hin⟩
    obtain ⟨c, hc⟩ := (hslice _ _ ((h.finds text).piece_bounds _ piece hpiece).2).mpr hin
    exact ⟨c, (Lines.mem_intercalate_iff (hnot c)).mpr ⟨_, List.mem_map_of_mem hpiece, hc⟩⟩

end Left

/-! ### No match is left -/

theorem Orderly.ends_nil (h : Orderly word patterns) {p : Pattern σ} (hp : p ∈ patterns) : p.body.ends [] = [] := by
  refine List.eq_nil_iff_forall_not_mem.mpr fun n hn => h.nonempty p hp ?_
  have hmatch := (Regex.mem_ends.mp hn).2
  rwa [List.take_nil] at hmatch

/-- What is found within a stretch is a match of the text. -/
theorem Orderly.full_of_isMatch (h : Orderly word patterns) {p : Pattern σ} (hp : patterns[k]? = some p) {lo hi : Nat}
    (hlo : lo ≤ hi) (hhi : hi ≤ text.length)
    (hmatch : p.isMatch word (charBefore text lo) (slice lo hi text) = true) :
    ∃ i e, lo ≤ i ∧ e ≤ hi ∧ Full word patterns text k i e := by
  induction hn : hi - lo generalizing lo with
  | zero =>
      rw [show lo = hi by omega, slice_self, isMatch, first_of_ends_nil (h.ends_nil (List.mem_of_getElem? hp))] at hmatch
      cases hmatch
  | succ n ih =>
      obtain ⟨c, hc, hcons⟩ := slice_cons (show lo < hi by omega) hhi
      rw [hcons, isMatch, Bool.or_eq_true] at hmatch
      rcases hmatch with hfirst | hrest
      · obtain ⟨m, hm⟩ := Option.isSome_iff_exists.mp hfirst
        have hhit : hit word patterns text k hi lo = some m := by
          rw [hit, hp]
          show p.first word _ _ = _
          rw [hcons, hm]
        obtain ⟨_, hend, hfull⟩ := (h.finds text).sound k hi lo m hhi hhit
        exact ⟨lo, lo + m, le_rfl, hend, hfull⟩
      · rw [← hc, ← charBefore_succ] at hrest
        obtain ⟨i, e, hlo', hhi', hfull⟩ := ih (by omega) hrest (by omega)
        exact ⟨i, e, by omega, hhi', hfull⟩

theorem isMatch_intercalate {mark : List σ} {p : Pattern σ} (hp : p.Inert word mark) (hne : ¬ p.body.Matches [])
    (parts : List (List σ)) :
    p.isMatch word none (mark.intercalate parts) = parts.any fun part => p.isMatch word none part := by
  induction parts with
  | nil =>
      rw [List.intercalate_nil, isMatch, first_of_ends_nil]
      · rfl
      · refine List.eq_nil_iff_forall_not_mem.mpr fun n hn => hne ?_
        have hmatch := (Regex.mem_ends.mp hn).2
        rwa [List.take_nil] at hmatch
  | cons part parts ih =>
      by_cases hparts : parts = []
      · rw [hparts, List.intercalate_singleton, List.any_cons, List.any_nil, Bool.or_false]
      · rw [List.intercalate_cons_of_ne_nil hparts, List.append_assoc, isMatch_append_mark hp hne, ih, List.any_cons]

theorem Orderly.replaceAll_id (h : Orderly word patterns) {mark : List σ}
    (hinert : ∀ p ∈ patterns.tail, p.Inert word mark) (text : List σ) :
    replaceAll word id mark patterns text =
      mark.intercalate ((Spans.piecesAfter (hit word patterns text) text.length patterns.length).map
        fun piece => slice piece.1 piece.2 text) := by
  have hmark : mark.map id = mark := List.map_id mark
  rw [h.replaceAll_eq (hmark.symm ▸ hinert), List.map_id]

/-- The patterns after the first match nothing in what they leave. -/
theorem Orderly.not_isMatch_later (h : Orderly word patterns) {mark : List σ}
    (hinert : ∀ p ∈ patterns.tail, p.Inert word mark) (text : List σ) {p : Pattern σ} (hp : p ∈ patterns.tail) :
    p.isMatch word none (replaceAll word id mark patterns text) = false := by
  have hmem : p ∈ patterns := List.mem_of_mem_tail hp
  obtain ⟨k, hk⟩ := List.mem_iff_getElem?.mp hmem
  have hlt : k < patterns.length := (List.getElem?_eq_some_iff.mp hk).1
  rw [h.replaceAll_id hinert, isMatch_intercalate (hinert p hp) (h.nonempty p hmem), List.any_map,
    List.any_eq_false]
  intro piece hpiece hmatch
  obtain ⟨hle, hlen⟩ := (h.finds text).piece_bounds _ piece hpiece
  rw [Function.comp_apply, isMatch_before (h.first_piece text hmem hpiece)] at hmatch
  obtain ⟨i, e, hlo, hhi, hfull⟩ := h.full_of_isMatch hk hle hlen hmatch
  exact Spans.not_full_of_kept (h.finds text) hlt
    (fun x hx hxe => ⟨piece, hpiece, by omega, by omega⟩) hfull

/-- The first pattern asks for no boundary and finds nothing in a mark. What it finds reaching into one it finds too
with the first character of any match in the place of the mark. -/
structure Foremost (word : σ → Bool) (mark : List σ) (patterns : List (Pattern σ)) (p : Pattern σ) : Prop where
  boundary : p.boundary = false
  misses : ∀ before c after, mark = before ++ c :: after → ∀ text, p.body.ends (c :: (after ++ text)) = []
  reaches : ∀ w text, w ≠ [] → p.body.ends (w ++ (mark ++ text)) ≠ [] →
    ∀ q ∈ patterns, ∀ x u, q.body.Matches (x :: u) → ∃ n, n ∈ p.body.ends (w ++ [x])

theorem isMatch_passed {p : Pattern σ} (hboundary : p.boundary = false) (before before' : Option σ)
    {passed text : List σ} (h : ∀ before c after, passed = before ++ c :: after → p.body.ends (c :: (after ++ text)) = []) :
    p.isMatch word before (passed ++ text) = p.isMatch word before' text := by
  have hany : ∀ before before' text, p.first word before text = p.first word before' text := by
    intro before before' text
    rw [first, first, hboundary]
    rfl
  induction passed generalizing before with
  | nil => exact isMatch_before (hany _ _ _)
  | cons c passed ih =>
      rw [List.cons_append, isMatch, first_of_ends_nil (h [] c passed rfl), ih]
      · rfl
      · exact fun front d after heq => h (c :: front) d after (by rw [heq]; rfl)

/-- The first pattern matches nothing in what the patterns leave. -/
theorem Orderly.not_isMatch_first (h : Orderly word patterns) {mark : List σ}
    (hinert : ∀ p ∈ patterns.tail, p.Inert word mark) (text : List σ) {p : Pattern σ} (hp : patterns[0]? = some p)
    (hfirst : p.Foremost word mark patterns) :
    p.isMatch word none (replaceAll word id mark patterns text) = false := by
  have hmem : p ∈ patterns := List.mem_of_getElem? hp
  have hpos : 0 < patterns.length := (List.getElem?_eq_some_iff.mp hp).1
  have hfinds := h.finds text
  have hnone : ∀ piece ∈ Spans.piecesAfter (hit word patterns text) text.length patterns.length, ∀ i e,
      piece.1 ≤ i → i < piece.2 → ¬ Full word patterns text 0 i e := fun piece hpiece i e hlo hlt =>
    Spans.not_full_zero_of_kept hfinds hpos ⟨piece, hpiece, hlo, hlt⟩
  rw [h.replaceAll_id hinert]
  have hall : ∀ parts done, Spans.piecesAfter (hit word patterns text) text.length patterns.length = done ++ parts →
      p.isMatch word none (mark.intercalate (parts.map fun piece => slice piece.1 piece.2 text)) = false := by
    intro parts
    induction parts with
    | nil =>
        intro done _
        rw [List.map_nil, List.intercalate_nil, isMatch, first_of_ends_nil (h.ends_nil hmem)]
        rfl
    | cons piece parts ih =>
        intro done hparts
        have hpiece : piece ∈ Spans.piecesAfter (hit word patterns text) text.length patterns.length := by
          rw [hparts]
          exact List.mem_append_right _ List.mem_cons_self
        obtain ⟨hle, hlen⟩ := hfinds.piece_bounds _ piece hpiece
        by_cases hlast : parts = []
        · rw [hlast, List.map_singleton, List.intercalate_singleton, isMatch_before (h.first_piece text hmem hpiece),
            ← Bool.not_eq_true]
          intro hmatch
          obtain ⟨i, e, hlo, hhi, hfull⟩ := h.full_of_isMatch hp hle hlen hmatch
          exact hnone piece hpiece i e hlo (by have := (hfinds.bounds 0 i e hfull).1; omega) hfull
        · rw [List.map_cons, List.intercalate_cons_of_ne_nil (by simpa using hlast), List.append_assoc]
          -- after the piece something was taken out, so the text goes on where it ends
          obtain ⟨x, u, q, hq, hxmatch, hx⟩ : ∃ x u q, q ∈ patterns ∧ q.body.Matches (x :: u) ∧
              text[piece.2]? = some x := by
            have hsorted := hfinds.sorted patterns.length
            rw [hparts] at hsorted
            have hnext := (List.pairwise_cons.mp (List.pairwise_append.mp hsorted).2.1).1
            obtain ⟨next, hnextMem⟩ := List.exists_mem_of_ne_nil parts hlast
            have hnextPiece : next ∈ Spans.piecesAfter (hit word patterns text) text.length patterns.length := by
              rw [hparts]
              exact List.mem_append_right _ (List.mem_cons_of_mem _ hnextMem)
            obtain ⟨hnextLe, hnextLen⟩ := hfinds.piece_bounds _ next hnextPiece
            have hlt : piece.2 < text.length := by
              have hbefore := hnext next hnextMem
              omega
            rcases hfinds.piece_ends _ piece hpiece with hend | ⟨l, _, span, htaken, hbegin⟩
            · exact absurd hend (Nat.ne_of_lt hlt)
            · obtain ⟨_, _, _, hspan, _, _, q, hq, _, hspanLen, hmatch, _⟩ := htaken.spec hfinds
              rw [hbegin] at hspan hmatch
              obtain ⟨x, hx, hcons⟩ := slice_cons hspan hspanLen
              rw [hcons] at hmatch
              exact ⟨x, _, q, List.mem_of_getElem? hq, hmatch, hx⟩
          rw [isMatch_passed hfirst.boundary none none, isMatch_passed hfirst.boundary none none]
          · exact ih (done ++ [piece]) (by rw [hparts]; simp)
          · exact fun before c after heq => hfirst.misses before c after heq _
          · intro before c after heq
            by_contra hends
            obtain ⟨n, hn⟩ := hfirst.reaches (c :: after) _ (List.cons_ne_nil _ _) hends q hq x u hxmatch
            have hlength := congrArg List.length heq
            rw [length_slice hlen, List.length_append, List.length_cons] at hlength
            have hafter : slice (piece.1 + before.length) piece.2 text = c :: after := by
              rw [← drop_slice, heq, List.drop_left]
            rw [← hafter, ← slice_succ (by omega) hx] at hn
            obtain ⟨hle', hmatch⟩ := Regex.mem_ends.mp hn
            have hlt : piece.2 < text.length := (List.getElem?_eq_some_iff.mp hx).1
            rw [length_slice hlt] at hle'
            have hpositive : 0 < n := by
              rcases Nat.eq_zero_or_pos n with rfl | hpositive
              · rw [List.take_zero] at hmatch
                exact absurd hmatch (h.nonempty p hmem)
              · exact hpositive
            have htake : (slice (piece.1 + before.length) (piece.2 + 1) text).take n =
                slice (piece.1 + before.length) (piece.1 + before.length + n) text := by
              rw [← take_slice (show piece.1 + before.length + n ≤ piece.2 + 1 by omega), Nat.add_sub_cancel_left]
            rw [htake] at hmatch
            refine hnone piece hpiece (piece.1 + before.length) (piece.1 + before.length + n) (by omega) (by omega) ?_
            exact ⟨p, hp, by omega, by omega, hmatch, fun hboundary => by simp [hfirst.boundary] at hboundary⟩
  exact hall _ [] rfl

/-! ### Texts put together -/

theorem isMatch_of_first {p : Pattern σ} {i : Nat} (hi : i ≤ text.length)
    (h : (p.first word (charBefore text i) (text.drop i)).isSome = true) : p.isMatch word none text = true := by
  suffices hfrom : ∀ j, j ≤ i → p.isMatch word (charBefore text (i - j)) (text.drop (i - j)) = true from by
    have hall := hfrom i (Nat.le_refl i)
    rwa [Nat.sub_self] at hall
  intro j hj
  induction j with
  | zero =>
      rw [Nat.sub_zero]
      cases hdrop : text.drop i with
      | nil =>
          rw [hdrop] at h
          exact h
      | cons c rest =>
          rw [hdrop] at h
          rw [isMatch, h, Bool.true_or]
  | succ j ih =>
      have hlt : i - (j + 1) < text.length := by omega
      have hnext : i - (j + 1) + 1 = i - j := by omega
      have hchar : some text[i - (j + 1)] = charBefore text (i - j) := by
        rw [← hnext, charBefore_succ, List.getElem?_eq_getElem hlt]
      rw [List.drop_eq_getElem_cons hlt, isMatch, hnext, hchar, ih (by omega), Bool.or_true]

/-- A text has a match where a stretch of it is one. -/
theorem Orderly.isMatch_iff (h : Orderly word patterns) (text : List σ) :
    (∃ p ∈ patterns, p.isMatch word none text = true) ↔ ∃ k i e, Full word patterns text k i e := by
  constructor
  · rintro ⟨p, hp, hmatch⟩
    obtain ⟨k, hk⟩ := List.mem_iff_getElem?.mp hp
    rw [← slice_all text] at hmatch
    obtain ⟨i, e, _, _, hfull⟩ := h.full_of_isMatch hk (Nat.zero_le _) (Nat.le_refl _) hmatch
    exact ⟨k, i, e, hfull⟩
  · rintro ⟨k, i, e, hfull⟩
    obtain ⟨p, hp, hlt, hle, _⟩ := id hfull
    obtain ⟨n, hn, _⟩ := (h.finds text).longest k text.length i e (Nat.le_refl _) hfull hle
    refine ⟨p, List.mem_of_getElem? hp, isMatch_of_first (i := i) (by omega) ?_⟩
    rw [hit, hp] at hn
    dsimp only [hitIn] at hn
    rw [slice, List.take_length] at hn
    rw [hn]
    rfl

/-- A match in the texts put together that begins in one of them and ends in a later one. -/
def Crosses (word : σ → Bool) (patterns : List (Pattern σ)) (texts : List (List σ)) : Prop :=
  ∃ k i e m, Full word patterns texts.flatten k i e ∧ i < (texts.take m).flatten.length ∧
    (texts.take m).flatten.length < e

/-- A stretch lies within one of the texts, or runs over the end of one. -/
theorem within_or_across {texts : List (List σ)} {i e : Nat} (hlt : i < e) (hle : e ≤ texts.flatten.length) :
    (∃ before part after, texts = before ++ part :: after ∧ before.flatten.length ≤ i ∧
      e ≤ before.flatten.length + part.length) ∨
        ∃ m, i < (texts.take m).flatten.length ∧ (texts.take m).flatten.length < e := by
  induction texts generalizing i e with
  | nil =>
      rw [List.flatten_nil, List.length_nil] at hle
      omega
  | cons part texts ih =>
      rw [List.flatten_cons, List.length_append] at hle
      by_cases hfirst : e ≤ part.length
      · exact Or.inl ⟨[], part, texts, rfl, Nat.zero_le _, by simpa using hfirst⟩
      · by_cases hacross : i < part.length
        · refine Or.inr ⟨1, ?_⟩
          rw [List.take_succ_cons, List.take_zero, List.flatten_singleton]
          omega
        · rcases @ih (i - part.length) (e - part.length) (by omega) (by omega) with
            ⟨before, next, after, rfl, hbegin, hend⟩ | ⟨m, hbegin, hend⟩
          · refine Or.inl ⟨part :: before, next, after, rfl, ?_, ?_⟩
            · rw [List.flatten_cons, List.length_append]
              omega
            · rw [List.flatten_cons, List.length_append]
              omega
          · refine Or.inr ⟨m + 1, ?_⟩
            rw [List.take_succ_cons, List.flatten_cons, List.length_append]
            omega

/-- A match within a part of a text is a match of the part alone. -/
theorem Orderly.full_part (h : Orderly word patterns) {before part after : List σ}
    (hfull : Full word patterns (before ++ part ++ after) k i e) (hbegin : before.length ≤ i)
    (hend : e ≤ before.length + part.length) : Full word patterns part k (i - before.length) (e - before.length) := by
  obtain ⟨p, hp, hlt, _, hmatch, hboundary⟩ := hfull
  obtain ⟨i, rfl⟩ : ∃ j, i = before.length + j := ⟨i - before.length, by omega⟩
  obtain ⟨e, rfl⟩ : ∃ d, e = before.length + d := ⟨e - before.length, by omega⟩
  have hslice : slice (before.length + i) (before.length + e) (before ++ part ++ after) = slice i e part := by
    rw [slice, slice, List.append_assoc, List.take_length_add_append, ← List.drop_drop, List.drop_left,
      List.take_append_of_le_length (by omega)]
  have hget : (before ++ part ++ after)[before.length + i]? = part[i]? := by
    rw [List.append_assoc, List.getElem?_append_right (by omega), Nat.add_sub_cancel_left,
      List.getElem?_append_left (by omega)]
  rw [Nat.add_sub_cancel_left, Nat.add_sub_cancel_left]
  rw [hslice] at hmatch
  rw [hget] at hboundary
  refine ⟨p, hp, by omega, by omega, hmatch, fun hp' => ?_⟩
  cases i with
  | succ i =>
      have hbefore : charBefore (before ++ part ++ after) (before.length + (i + 1)) = charBefore part (i + 1) := by
        rw [← Nat.add_assoc, charBefore_succ, charBefore_succ, List.append_assoc, List.getElem?_append_right (by omega),
          Nat.add_sub_cancel_left, List.getElem?_append_left (by omega)]
      rw [← hbefore]
      exact hboundary hp'
  | zero =>
      -- at the beginning of the part there is no character before, and a word begins
      obtain ⟨c, hc, hcons⟩ := slice_cons (show 0 < e by omega) (show e ≤ part.length by omega)
      rw [hcons] at hmatch
      obtain ⟨d, u, heq, hd⟩ := h.opens p (List.mem_of_getElem? hp) hp' _ hmatch
      obtain ⟨rfl, _⟩ := List.cons.inj heq
      rw [hc, charBefore, if_pos rfl, isBoundary, Option.any_none, Option.any_some, hd]
      rfl

/-- **Texts without a match have one put together just where a match runs over the end of one of them.** -/
theorem Orderly.isMatch_flatten (h : Orderly word patterns) {texts : List (List σ)}
    (hclean : ∀ part ∈ texts, ∀ p ∈ patterns, p.isMatch word none part = false) :
    (∀ p ∈ patterns, p.isMatch word none texts.flatten = false) ↔ ¬ Crosses word patterns texts := by
  have hnone : (∀ p ∈ patterns, p.isMatch word none texts.flatten = false) ↔
      ¬ ∃ k i e, Full word patterns texts.flatten k i e := by
    rw [← h.isMatch_iff]
    simp
  rw [hnone]
  refine not_congr ⟨?_, ?_⟩
  · rintro ⟨k, i, e, hfull⟩
    obtain ⟨hlt, hle⟩ := (h.finds _).bounds k i e hfull
    rcases within_or_across hlt hle with ⟨before, part, after, rfl, hbegin, hend⟩ | ⟨m, hbegin, hend⟩
    · rw [List.flatten_append, List.flatten_cons, ← List.append_assoc] at hfull
      obtain ⟨p, hp, hmatch⟩ := (h.isMatch_iff part).mpr ⟨k, _, _, h.full_part hfull hbegin hend⟩
      rw [hclean part (by simp) p hp] at hmatch
      cases hmatch
    · exact ⟨k, i, e, m, hfull, hbegin, hend⟩
  · rintro ⟨k, i, e, m, hfull, _⟩
    exact ⟨k, i, e, hfull⟩

end Patterns

/-! ## Two engines -/

section Alike

variable {word word' : σ → Bool} {S : σ → Prop} {p p' : Pattern σ}

/-- Two patterns that are alike on the characters of `S`. -/
def Alike (S : σ → Prop) (p p' : Pattern σ) : Prop := p.boundary = p'.boundary ∧ p.body.Alike S p'.body

theorem Alike.first_eq (h : p.Alike S p') (hword : ∀ c, S c → word c = word' c) {before : Option σ} {text : List σ}
    (hbefore : ∀ c ∈ before, S c) (htext : ∀ c ∈ text, S c) : p.first word before text = p'.first word' before text := by
  have hany : before.any word = before.any word' := by
    cases before with
    | none => rfl
    | some c => exact hword c (hbefore c rfl)
  have hhead : text.head?.any word = text.head?.any word' := by
    cases text with
    | nil => rfl
    | cons c text => exact hword c (htext c List.mem_cons_self)
  rw [first, first, isBoundary, isBoundary, h.1, hany, hhead, Regex.first, Regex.first, h.2.ends_eq htext]

theorem Alike.split_eq (h : p.Alike S p') (hword : ∀ c, S c → word c = word' c) {before : Option σ} {text : List σ}
    (hbefore : ∀ c ∈ before, S c) (htext : ∀ c ∈ text, S c) (skip : Nat) :
    p.split word id before skip text = p'.split word' id before skip text := by
  induction text generalizing before skip with
  | nil => rfl
  | cons c text ih =>
      obtain ⟨hc, hrest⟩ := List.forall_mem_cons.mp htext
      have hnext : ∀ d ∈ some (id c), S d := by
        rintro d ⟨⟩
        exact hc
      cases skip with
      | succ skip => exact ih hnext hrest skip
      | zero =>
          have hfirst : p.first word before ((c :: text).map id) = p'.first word' before ((c :: text).map id) := by
            rw [List.map_id]
            exact h.first_eq hword hbefore htext
          rw [split, split, hfirst]
          split
          · next n _ => rw [ih hnext hrest n]
          · rw [ih hnext hrest 0]

theorem Alike.replace_eq (h : p.Alike S p') (hword : ∀ c, S c → word c = word' c) (mark : List σ) {text : List σ}
    (htext : ∀ c ∈ text, S c) : p.replace word id mark text = p'.replace word' id mark text := by
  rw [replace, replace, h.split_eq hword (fun c hc => by cases hc) htext]

theorem mem_split {before : Option σ} {skip : Nat} {text piece : List σ} {c : σ}
    (hpiece : piece ∈ p.split word id before skip text) (hc : c ∈ piece) : c ∈ text := by
  induction text generalizing before skip piece with
  | nil =>
      rw [split, List.mem_singleton] at hpiece
      rw [hpiece] at hc
      exact hc
  | cons d text ih =>
      cases skip with
      | succ skip => exact List.mem_cons_of_mem _ (ih hpiece hc)
      | zero =>
          rw [split] at hpiece
          split at hpiece
          · rcases List.mem_cons.mp hpiece with rfl | hpiece
            · exact absurd hc List.not_mem_nil
            · exact List.mem_cons_of_mem _ (ih hpiece hc)
          · cases hrest : p.split word id (some (id d)) 0 text with
            | nil => exact absurd hrest (split_ne_nil _ _ _)
            | cons first rest =>
                rw [hrest, List.modifyHead_cons] at hpiece
                rcases List.mem_cons.mp hpiece with rfl | hpiece
                · rcases List.mem_cons.mp hc with rfl | hc
                  · exact List.mem_cons_self
                  · exact List.mem_cons_of_mem _ (ih (hrest ▸ List.mem_cons_self) hc)
                · exact List.mem_cons_of_mem _ (ih (hrest ▸ List.mem_cons_of_mem _ hpiece) hc)

/-- What is written holds the mark and what was there. -/
theorem mem_replace {mark text : List σ} {c : σ} (h : c ∈ p.replace word id mark text) : c ∈ mark ∨ c ∈ text := by
  by_cases hmark : c ∈ mark
  · exact .inl hmark
  · obtain ⟨piece, hpiece, hc⟩ := (Lines.mem_intercalate_iff hmark).mp h
    exact .inr (mem_split hpiece hc)

theorem replaceAll_eq (hword : ∀ c, S c → word c = word' c) {mark : List σ} (hmark : ∀ c ∈ mark, S c)
    {patterns patterns' : List (Pattern σ)} (h : List.Forall₂ (Alike S) patterns patterns') {text : List σ}
    (htext : ∀ c ∈ text, S c) : replaceAll word id mark patterns text = replaceAll word' id mark patterns' text := by
  induction h generalizing text with
  | nil => rfl
  | cons hp _ ih =>
      rw [replaceAll, replaceAll, List.foldl_cons, List.foldl_cons, hp.replace_eq hword mark htext]
      refine ih fun c hc => ?_
      rcases mem_replace hc with hmem | hmem
      · exact hmark c hmem
      · exact htext c hmem

end Alike

end Pattern
