import Mathlib.Data.List.DropRight
import AtlasFlow.Data.Regex

/-!
# What the chat understands

`workspace/commands.ts`. The first word of a line says what it is, and an id counts where it stands as a word of its own
in the rest. Whatever is typed, what it was understood as is understood the same when it is written out again, and every
command can be written (`parseCommand_usage`): nothing is understood that could not have been meant.
-/

namespace AtlasFlow.Reference.Commands

/-! ## Texts -/

/-- What `trim` and `\s` take for white space. -/
def isSpace (c : Char) : Bool :=
  c.toNat ∈ [0x9, 0xA, 0xB, 0xC, 0xD, 0x20, 0xA0, 0x1680, 0x2028, 0x2029, 0x202F, 0x205F, 0x3000, 0xFEFF] ∨
    (0x2000 ≤ c.toNat ∧ c.toNat ≤ 0x200A)

def trim (text : List Char) : List Char := ((text.dropWhile isSpace).reverse.dropWhile isSpace).reverse

/-- `split(/\s+/)`, of a text that was trimmed. -/
def words (trimmed : List Char) : List (List Char) := (trimmed.splitOnP isSpace).filter fun word => !word.isEmpty

/-- `\d`. -/
def isDigit (c : Char) : Bool := '0' ≤ c ∧ c ≤ '9'

/-- `[A-Z]`, whatever the case. -/
def isLetter (c : Char) : Bool := ('A' ≤ c ∧ c ≤ 'Z') ∨ ('a' ≤ c ∧ c ≤ 'z')

/-- `\w`. -/
def isWord (c : Char) : Bool := isLetter c || isDigit c || c = '_'

/-- `[0-9a-f]`, whatever the case. -/
def isHex (c : Char) : Bool := isDigit c || decide (('a' ≤ c ∧ c ≤ 'f') ∨ ('A' ≤ c ∧ c ≤ 'F'))

/-- A letter, whatever the case. -/
def letter (c : Char) (d : Char) : Bool := d = c || d = c.toUpper

/-- `\b`. -/
def boundary (text : List Char) (i : Nat) : Bool :=
  (decide (0 < i) && text[i - 1]?.any isWord) != text[i]?.any isWord

/-- `exec` of an expression between two `\b`: the first place it matches at, and there the match that is tried first. -/
def exec (r : Regex Char) (text : List Char) : Option (List Char) :=
  (List.range (text.length + 1)).findSome? fun i =>
    if boundary text i then
      ((r.ends (text.drop i)).find? fun n => boundary text (i + n)).map fun n => (text.drop i).take n
    else none

/-- `\d{1,2}`. -/
def twoDigits : Regex Char := .seq (.set isDigit) (Regex.optional isDigit)

/-- `[A-Z]\d{1,2}-G\d{1,2}`. -/
def goalIdPattern : Regex Char :=
  .seq (.set isLetter) (.seq twoDigits (.seq (.set (· = '-')) (.seq (.set (letter 'g')) twoDigits)))

/-- `run-[0-9a-f]{6,}`. -/
def runIdPattern : Regex Char :=
  .seq (.set (letter 'r')) (.seq (.set (letter 'u')) (.seq (.set (letter 'n')) (.seq (.set (· = '-')) (.many isHex 6))))

/-! ## Commands -/

inductive Command
  | run (goalId : List Char)
  | cancel (runId : Option (List Char))
  | evidence (goalId : Option (List Char))
  | show (goalId : List Char)
  | help
  | message (content : List Char)
  deriving DecidableEq, Repr

/-- `parseCommand`. Outside ASCII only the Kelvin sign has its lower case inside, which is no letter of a verb. -/
def parseCommand (input : List Char) : Command :=
  let trimmed := trim input
  if trimmed = [] then .message []
  else
    let verb := ((words trimmed).headD []).map Char.toLower
    let tail := List.intercalate [' '] (words trimmed).tail
    let goal := (exec goalIdPattern tail).map fun id => id.map Char.toUpper
    if verb = "run".toList ∨ verb = "/run".toList then (goal.map .run).getD (.message trimmed)
    else if verb = "cancel".toList ∨ verb = "/cancel".toList then .cancel (exec runIdPattern tail)
    else if verb = "evidence".toList ∨ verb = "/evidence".toList then .evidence goal
    else if verb = "show".toList ∨ verb = "/show".toList then (goal.map .show).getD (.message trimmed)
    else if verb = "help".toList ∨ verb = "/help".toList ∨ verb = "?".toList then .help
    else .message trimmed

/-- How a command is written, as in the `usage` of `COMMANDS`. -/
def Command.usage : Command → List Char
  | .run goalId => "run ".toList ++ goalId
  | .cancel none => "cancel".toList
  | .cancel (some runId) => "cancel ".toList ++ runId
  | .evidence none => "evidence".toList
  | .evidence (some goalId) => "evidence ".toList ++ goalId
  | .show goalId => "show ".toList ++ goalId
  | .help => "help".toList
  | .message content => content

/-- A goal id as the goals have them. -/
def IsGoalId (id : List Char) : Prop := goalIdPattern.Matches id ∧ id.map Char.toUpper = id

/-- The parts of a command are what they should be. -/
def Command.WellFormed : Command → Prop
  | .run goalId => IsGoalId goalId
  | .cancel runId => ∀ id ∈ runId, runIdPattern.Matches id
  | .evidence goalId => ∀ id ∈ goalId, IsGoalId id
  | .show goalId => IsGoalId goalId
  | .help => True
  | .message content => trim content = content

/-! ## Ids -/

/-- Words that begin and end with `\w`, and have one other character. -/
def Framed (r : Regex Char) : Prop :=
  ∀ w, r.Matches w → (∃ c u, w = c :: u ∧ isWord c = true) ∧ (∃ u c, w = u ++ [c] ∧ isWord c = true) ∧
    w.countP (fun c => !isWord c) = 1

theorem exec_matches {r : Regex Char} {text w : List Char} (h : exec r text = some w) : r.Matches w := by
  obtain ⟨i, -, hi⟩ := List.exists_of_findSome?_eq_some h
  split at hi
  · obtain ⟨n, hn, rfl⟩ := Option.map_eq_some_iff.mp hi
    exact (Regex.mem_ends.mp (List.mem_of_find?_eq_some hn)).2
  · cases hi

/-- **A word is found in itself.** -/
theorem exec_self {r : Regex Char} (hframed : Framed r) {w : List Char} (h : r.Matches w) : exec r w = some w := by
  obtain ⟨⟨first, rest, hfirst, hfirstWord⟩, ⟨before, last, hlast, hlastWord⟩, hcount⟩ := hframed w h
  have hstart : boundary w 0 = true := by
    rw [hfirst]
    simp [boundary, hfirstWord]
  have hlength : before.length + 1 = w.length := by rw [hlast, List.length_append, List.length_singleton]
  have hend : boundary w w.length = true := by
    unfold boundary
    have hget : w[w.length - 1]? = some last := by
      rw [← hlength, Nat.add_sub_cancel, hlast, List.getElem?_append_right (Nat.le_refl _), Nat.sub_self]
      rfl
    rw [hget, List.getElem?_eq_none (Nat.le_refl _)]
    simp [hlastWord, ← hlength]
  have hall : ∀ n ∈ r.ends w, boundary w n = true → n = w.length := by
    intro n hn hboundary
    obtain ⟨hle, hmatches⟩ := Regex.mem_ends.mp hn
    by_contra hne
    have hlt : n < w.length := Nat.lt_of_le_of_ne hle hne
    obtain ⟨-, ⟨u, c, htake, hc⟩, hone⟩ := hframed _ hmatches
    -- what follows a prefix that is a word is no `\w`, and the prefix has one such character already
    have hn : u.length + 1 = n := by
      have := congrArg List.length htake
      rw [List.length_take_of_le hle, List.length_append, List.length_singleton] at this
      exact this.symm
    have hprev : w[n - 1]? = some c := by
      have hget : (w.take n)[n - 1]? = some c := by
        rw [htake, ← hn, Nat.add_sub_cancel, List.getElem?_append_right (Nat.le_refl _), Nat.sub_self]
        rfl
      rwa [List.getElem?_take_of_lt (by omega)] at hget
    have hnext : isWord w[n] = false := by
      have hbound := hboundary
      unfold boundary at hbound
      rw [hprev, List.getElem?_eq_getElem hlt] at hbound
      simpa [hc, ← hn] using hbound
    have hsplit : w.countP (fun c => !isWord c) =
        (w.take n).countP (fun c => !isWord c) + (w.drop n).countP fun c => !isWord c := by
      rw [← List.countP_append, List.take_append_drop]
    have hpos : 0 < (w.drop n).countP fun c => !isWord c :=
      List.countP_pos_iff.mpr ⟨w[n], List.mem_drop_iff_getElem.mpr ⟨0, by simpa using hlt, by simp⟩, by simp [hnext]⟩
    omega
  have hmem : w.length ∈ r.ends w := Regex.mem_ends.mpr ⟨Nat.le_refl _, (List.take_length ▸ h)⟩
  have hfind : (r.ends w).find? (fun n => boundary w (0 + n)) = some w.length := by
    have hsome : ((r.ends w).find? fun n => boundary w (0 + n)).isSome = true :=
      List.find?_isSome.mpr ⟨w.length, hmem, by rwa [Nat.zero_add]⟩
    obtain ⟨n, hn⟩ := Option.isSome_iff_exists.mp hsome
    have hpred := List.find?_some hn
    rw [Nat.zero_add] at hpred
    rw [hn, hall n (List.mem_of_find?_eq_some hn) hpred]
  unfold exec
  rw [List.range_succ_eq_map, List.findSome?_cons, if_pos hstart, List.drop_zero, hfind, Option.map_some, List.take_length]

theorem isWord_of_isDigit {c : Char} (h : isDigit c = true) : isWord c = true := by simp [isWord, h]

theorem isWord_of_isLetter {c : Char} (h : isLetter c = true) : isWord c = true := by simp [isWord, h]

theorem isWord_of_isHex {c : Char} (h : isHex c = true) : isWord c = true := by
  rcases Bool.or_eq_true_iff.mp h with h | h
  · exact isWord_of_isDigit h
  · refine isWord_of_isLetter (decide_eq_true ?_)
    rcases of_decide_eq_true h with ⟨hfrom, hto⟩ | ⟨hfrom, hto⟩
    · exact .inr ⟨hfrom, Char.le_trans hto (by decide)⟩
    · exact .inl ⟨hfrom, Char.le_trans hto (by decide)⟩

theorem isWord_of_letter {c d : Char} (hc : isWord c = true ∧ isWord c.toUpper = true) (h : letter c d = true) :
    isWord d = true := by
  rcases Bool.or_eq_true_iff.mp h with h | h
  · rw [of_decide_eq_true h]
    exact hc.1
  · rw [of_decide_eq_true h]
    exact hc.2

/-- Characters that are all `\w` have none that is not. -/
theorem countP_word {w : List Char} (h : ∀ c ∈ w, isWord c = true) : w.countP (fun c => !isWord c) = 0 :=
  List.countP_eq_zero.mpr fun c hc => by simp [h c hc]

theorem twoDigits_matches {w : List Char} (h : twoDigits.Matches w) :
    (∃ u c, w = u ++ [c] ∧ isWord c = true) ∧ ∀ c ∈ w, isDigit c = true := by
  obtain ⟨u, v, rfl, ⟨c, hc, rfl⟩, hv⟩ := h
  rcases hv with ⟨d, hd, rfl⟩ | rfl
  · refine ⟨⟨[c], d, rfl, isWord_of_isDigit hd⟩, fun x hx => ?_⟩
    rcases List.mem_cons.mp hx with rfl | hx
    · exact hc
    · exact List.mem_singleton.mp hx ▸ hd
  · exact ⟨⟨[], c, rfl, isWord_of_isDigit hc⟩, fun x hx => List.mem_singleton.mp hx ▸ hc⟩

/-- The letters and digits of a goal id. -/
theorem goalId_matches {w : List Char} (h : goalIdPattern.Matches w) : ∃ c digits g digits',
    w = c :: (digits ++ '-' :: g :: digits') ∧ isLetter c = true ∧ twoDigits.Matches digits ∧ letter 'g' g = true ∧
      twoDigits.Matches digits' := by
  obtain ⟨u, v, rfl, ⟨c, hc, rfl⟩, digits, v, rfl, hdigits, dash, v, rfl, ⟨d, hd, rfl⟩, letterG, digits', rfl,
    ⟨g, hg, rfl⟩, hdigits'⟩ := h
  cases of_decide_eq_true hd
  exact ⟨c, digits, g, digits', rfl, hc, hdigits, hg, hdigits'⟩

theorem framed_goalId : Framed goalIdPattern := by
  intro w h
  obtain ⟨c, digits, g, digits', rfl, hc, hdigits, hg, hdigits'⟩ := goalId_matches h
  have hword : isWord g = true := isWord_of_letter (by decide) hg
  obtain ⟨⟨u, last, rfl, hlast⟩, hall'⟩ := twoDigits_matches hdigits'
  have hall := (twoDigits_matches hdigits).2
  refine ⟨⟨c, _, rfl, isWord_of_isLetter hc⟩, ⟨c :: (digits ++ '-' :: g :: u), last, by simp, hlast⟩, ?_⟩
  have hzero := countP_word fun x hx => isWord_of_isDigit (hall x hx)
  have hzero' := countP_word fun x hx => isWord_of_isDigit (hall' x hx)
  rw [List.countP_cons, List.countP_append, List.countP_cons, List.countP_cons, hzero, hzero', isWord_of_isLetter hc, hword]
  decide

theorem runId_matches {w : List Char} (h : runIdPattern.Matches w) : ∃ r u n hex,
    w = r :: u :: n :: '-' :: hex ∧ letter 'r' r = true ∧ letter 'u' u = true ∧ letter 'n' n = true ∧
      6 ≤ hex.length ∧ ∀ c ∈ hex, isHex c = true := by
  obtain ⟨_, v, rfl, ⟨r, hr, rfl⟩, _, v, rfl, ⟨u, hu, rfl⟩, _, v, rfl, ⟨n, hn, rfl⟩, _, hex, rfl, ⟨d, hd, rfl⟩,
    hlength, hhex⟩ := h
  cases of_decide_eq_true hd
  exact ⟨r, u, n, hex, rfl, hr, hu, hn, hlength, hhex⟩

theorem framed_runId : Framed runIdPattern := by
  intro w h
  obtain ⟨r, u, n, hex, rfl, hr, hu, hn, hlength, hhex⟩ := runId_matches h
  have hne : hex ≠ [] := List.ne_nil_of_length_pos (by omega)
  have hlast : hex = hex.dropLast ++ [hex.getLast hne] := (List.dropLast_append_getLast hne).symm
  refine ⟨⟨r, _, rfl, isWord_of_letter (by decide) hr⟩, ⟨r :: u :: n :: '-' :: hex.dropLast, hex.getLast hne, ?_,
    isWord_of_isHex (hhex _ (List.getLast_mem hne))⟩, ?_⟩
  · rw [List.cons_append, List.cons_append, List.cons_append, List.cons_append, ← hlast]
  · have hzero := countP_word fun x hx => isWord_of_isHex (hhex x hx)
    simp only [List.countP_cons, hzero, isWord_of_letter (by decide) hr, isWord_of_letter (by decide) hu,
      isWord_of_letter (by decide) hn]
    decide

/-! ## Words -/

theorem toNat_of_isWord {c : Char} (h : isWord c = true) : 48 ≤ c.toNat ∧ c.toNat < 123 := by
  have hrange : ∀ {from' to' : Char}, from' ≤ c ∧ c ≤ to' → from'.toNat ≤ c.toNat ∧ c.toNat ≤ to'.toNat := fun h => h
  rcases Bool.or_eq_true_iff.mp h with h | h
  · rcases Bool.or_eq_true_iff.mp h with h | h
    · rcases of_decide_eq_true h with h | h
      · exact ⟨Nat.le_trans (by decide) (hrange h).1, Nat.lt_of_le_of_lt (hrange h).2 (by decide)⟩
      · exact ⟨Nat.le_trans (by decide) (hrange h).1, Nat.lt_of_le_of_lt (hrange h).2 (by decide)⟩
    · have h := hrange (of_decide_eq_true h)
      exact ⟨h.1, Nat.lt_of_le_of_lt h.2 (by decide)⟩
  · rw [of_decide_eq_true h]
    decide

theorem not_isSpace_of_isWord {c : Char} (h : isWord c = true) : isSpace c = false := by
  have hrange := toNat_of_isWord h
  by_contra hspace
  have hspace : isSpace c = true := Bool.of_not_eq_false hspace
  unfold isSpace at hspace
  simp only [decide_eq_true_eq, List.mem_cons, List.not_mem_nil, or_false] at hspace
  omega

/-- A text that begins and ends with what is no white space. -/
def Trimmed (text : List Char) : Prop :=
  (∀ c ∈ text.head?, isSpace c = false) ∧ ∀ c ∈ text.getLast?, isSpace c = false

theorem trim_of_trimmed {text : List Char} (h : Trimmed text) : trim text = text := by
  unfold trim
  cases text with
  | nil => rfl
  | cons c u =>
      have hfirst := h.1 c rfl
      rw [List.dropWhile_cons_of_neg (by simp [hfirst])]
      show List.rdropWhile isSpace (c :: u) = c :: u
      refine List.rdropWhile_eq_self_iff.mpr fun hne => ?_
      rw [Bool.not_eq_true]
      exact h.2 _ (List.getLast?_eq_some_getLast hne)

theorem trimmed_trim (text : List Char) : Trimmed (trim text) := by
  have hprefix : trim text <+: text.dropWhile isSpace := List.rdropWhile_prefix isSpace (text.dropWhile isSpace)
  constructor
  · intro c hc
    obtain ⟨rest, hrest⟩ := hprefix
    have hhead : (text.dropWhile isSpace).head? = some c := by
      rw [← hrest, List.head?_append, hc]
      rfl
    have hnot := List.head?_dropWhile_not isSpace text
    rw [hhead] at hnot
    exact hnot
  · intro c hc
    have hne : trim text ≠ [] := fun hnil => by
      rw [hnil] at hc
      cases hc
    have hnot : ¬ isSpace ((trim text).getLast hne) = true := List.rdropWhile_last_not isSpace _ hne
    rw [List.getLast?_eq_some_getLast hne] at hc
    rw [← Option.some.inj hc]
    exact Bool.of_not_eq_true hnot

theorem words_single {word : List Char} (hne : word ≠ []) (h : ∀ c ∈ word, isSpace c = false) : words word = [word] := by
  unfold words
  rw [List.splitOnP_eq_singleton h]
  cases word with
  | nil => exact absurd rfl hne
  | cons c u => rfl

theorem words_pair {verb word : List Char} (hverb : verb ≠ []) (hspace : ∀ c ∈ verb, isSpace c = false) (hne : word ≠ [])
    (h : ∀ c ∈ word, isSpace c = false) : words (verb ++ ' ' :: word) = [verb, word] := by
  have hsingle := words_single hverb hspace
  have hsingle' := words_single hne h
  unfold words at hsingle hsingle' ⊢
  rw [List.splitOnP_append_cons verb word rfl, List.filter_append, hsingle, hsingle']
  rfl

/-! ## Ids in capitals -/

/-- What `toUpperCase` does to the characters of an id. -/
structure Raised (c : Char) : Prop where
  isLetter : isLetter c = true → isLetter c.toUpper = true
  isDigit : isDigit c = true → c.toUpper = c
  letter : letter 'g' c = true → letter 'g' c.toUpper = true
  again : c.toUpper.toUpper = c.toUpper

instance (c : Char) : Decidable (Raised c) :=
  decidable_of_iff ((isLetter c = true → isLetter c.toUpper = true) ∧ (isDigit c = true → c.toUpper = c) ∧
      (letter 'g' c = true → letter 'g' c.toUpper = true) ∧ c.toUpper.toUpper = c.toUpper)
    ⟨fun h => ⟨h.1, h.2.1, h.2.2.1, h.2.2.2⟩, fun h => ⟨h.1, h.2, h.3, h.4⟩⟩

theorem raised_of_isWord {c : Char} (h : isWord c = true) : Raised c := by
  have hall : ∀ n < 123, Raised (Char.ofNat n) := by decide +kernel
  have hc := hall c.toNat (toNat_of_isWord h).2
  rwa [Char.ofNat_toNat] at hc

theorem map_toUpper_digits {w : List Char} (h : ∀ c ∈ w, isDigit c = true) : w.map Char.toUpper = w := by
  conv => rhs; rw [← List.map_id w]
  exact List.map_congr_left fun c hc => (raised_of_isWord (isWord_of_isDigit (h c hc))).isDigit (h c hc)

/-- **A goal id in capitals** is one. -/
theorem isGoalId_upper {w : List Char} (h : goalIdPattern.Matches w) : IsGoalId (w.map Char.toUpper) := by
  obtain ⟨c, digits, g, digits', rfl, hc, hdigits, hg, hdigits'⟩ := goalId_matches h
  have hletter := raised_of_isWord (isWord_of_isLetter hc)
  have hgraised := raised_of_isWord (isWord_of_letter (by decide) hg)
  have hupper : (c :: (digits ++ '-' :: g :: digits')).map Char.toUpper =
      c.toUpper :: (digits ++ '-' :: g.toUpper :: digits') := by
    rw [List.map_cons, List.map_append, List.map_cons, List.map_cons, map_toUpper_digits (twoDigits_matches hdigits).2,
      map_toUpper_digits (twoDigits_matches hdigits').2]
    rfl
  constructor
  · rw [hupper]
    exact ⟨[c.toUpper], _, rfl, ⟨_, hletter.isLetter hc, rfl⟩, digits, _, rfl, hdigits, ['-'], _, rfl, ⟨_, rfl, rfl⟩,
      [g.toUpper], _, rfl, ⟨_, hgraised.letter hg, rfl⟩, hdigits'⟩
  · rw [hupper, List.map_cons, List.map_append, List.map_cons, List.map_cons,
      map_toUpper_digits (twoDigits_matches hdigits).2, map_toUpper_digits (twoDigits_matches hdigits').2, hletter.again,
      hgraised.again]
    rfl

theorem chars_goalId {w : List Char} (h : goalIdPattern.Matches w) : ∀ c ∈ w, isSpace c = false := by
  obtain ⟨c, digits, g, digits', rfl, hc, hdigits, hg, hdigits'⟩ := goalId_matches h
  intro x hx
  rcases List.mem_cons.mp hx with rfl | hx
  · exact not_isSpace_of_isWord (isWord_of_isLetter hc)
  rcases List.mem_append.mp hx with hx | hx
  · exact not_isSpace_of_isWord (isWord_of_isDigit ((twoDigits_matches hdigits).2 x hx))
  rcases List.mem_cons.mp hx with rfl | hx
  · decide
  rcases List.mem_cons.mp hx with rfl | hx
  · exact not_isSpace_of_isWord (isWord_of_letter (by decide) hg)
  · exact not_isSpace_of_isWord (isWord_of_isDigit ((twoDigits_matches hdigits').2 x hx))

theorem chars_runId {w : List Char} (h : runIdPattern.Matches w) : ∀ c ∈ w, isSpace c = false := by
  obtain ⟨r, u, n, hex, rfl, hr, hu, hn, -, hhex⟩ := runId_matches h
  intro x hx
  rcases List.mem_cons.mp hx with rfl | hx
  · exact not_isSpace_of_isWord (isWord_of_letter (by decide) hr)
  rcases List.mem_cons.mp hx with rfl | hx
  · exact not_isSpace_of_isWord (isWord_of_letter (by decide) hu)
  rcases List.mem_cons.mp hx with rfl | hx
  · exact not_isSpace_of_isWord (isWord_of_letter (by decide) hn)
  rcases List.mem_cons.mp hx with rfl | hx
  · decide
  · exact not_isSpace_of_isWord (isWord_of_isHex (hhex x hx))

/-! ## Understanding what was written -/

/-- What `parseCommand` makes of a verb and the rest. -/
def understand (trimmed verb tail : List Char) : Command :=
  let goal := (exec goalIdPattern tail).map fun id => id.map Char.toUpper
  if verb = "run".toList ∨ verb = "/run".toList then (goal.map .run).getD (.message trimmed)
  else if verb = "cancel".toList ∨ verb = "/cancel".toList then .cancel (exec runIdPattern tail)
  else if verb = "evidence".toList ∨ verb = "/evidence".toList then .evidence goal
  else if verb = "show".toList ∨ verb = "/show".toList then (goal.map .show).getD (.message trimmed)
  else if verb = "help".toList ∨ verb = "/help".toList ∨ verb = "?".toList then .help
  else .message trimmed

theorem parseCommand_eq (input : List Char) : parseCommand input =
    if trim input = [] then .message []
    else understand (trim input) (((words (trim input)).headD []).map Char.toLower)
      (List.intercalate [' '] (words (trim input)).tail) := rfl

/-- A verb with a word after it. -/
theorem parseCommand_pair (verb : List Char) {id : List Char} (hverb : ∃ c u, verb = c :: u) (hplain : verb.any isSpace = false)
    (hid : id ≠ []) (hidSpace : ∀ c ∈ id, isSpace c = false) : parseCommand (verb ++ ' ' :: id) =
      understand (verb ++ ' ' :: id) (verb.map Char.toLower) id := by
  have hspace : ∀ c ∈ verb, isSpace c = false := by simpa using hplain
  obtain ⟨c, u, rfl⟩ := hverb
  have htrimmed : Trimmed (c :: u ++ ' ' :: id) := by
    constructor
    · intro x hx
      cases hx
      exact hspace c List.mem_cons_self
    · intro x hx
      rw [List.append_cons, List.getLast?_append_of_ne_nil _ hid] at hx
      exact hidSpace x (List.mem_of_getLast? hx)
  rw [parseCommand_eq, trim_of_trimmed htrimmed, if_neg (by simp), words_pair (by simp) hspace hid hidSpace]
  show understand _ _ (List.intercalate [' '] [id]) = _
  rw [List.intercalate_singleton]
  rfl

/-- A verb alone. -/
theorem parseCommand_single (verb : List Char) (hverb : verb ≠ []) (hplain : verb.any isSpace = false) :
    parseCommand verb = understand verb (verb.map Char.toLower) [] := by
  have hspace : ∀ c ∈ verb, isSpace c = false := by simpa using hplain
  have htrimmed : Trimmed verb :=
    ⟨fun c hc => hspace c (List.mem_of_head? hc), fun c hc => hspace c (List.mem_of_getLast? hc)⟩
  rw [parseCommand_eq, trim_of_trimmed htrimmed, if_neg hverb, words_single hverb hspace]
  rfl

theorem goalId_ne_nil {id : List Char} (h : goalIdPattern.Matches id) : id ≠ [] := by
  obtain ⟨c, _, _, _, rfl, -⟩ := goalId_matches h
  exact List.cons_ne_nil _ _

theorem runId_ne_nil {id : List Char} (h : runIdPattern.Matches id) : id ≠ [] := by
  obtain ⟨r, _, _, _, rfl, -⟩ := runId_matches h
  exact List.cons_ne_nil _ _

/-- The goal that is read of its id. -/
theorem exec_goalId {id : List Char} (h : IsGoalId id) :
    ((exec goalIdPattern id).map fun id => id.map Char.toUpper) = some id := by
  rw [exec_self framed_goalId h.1, Option.map_some, h.2]

/-- **Every command can be written.** -/
theorem parseCommand_of_wellFormed {command : Command} (h : command.WellFormed)
    (hmessage : ∀ content, command ≠ .message content) : parseCommand command.usage = command := by
  cases command with
  | run goalId =>
      have hgoal := exec_goalId h
      refine (parseCommand_pair "run".toList ⟨_, _, rfl⟩ (by decide) (goalId_ne_nil h.1) (chars_goalId h.1)).trans ?_
      simp [understand, hgoal]
  | cancel runId =>
      cases runId with
      | none =>
          refine (parseCommand_single "cancel".toList (by decide) (by decide)).trans ?_
          decide
      | some id =>
          have hid := h id rfl
          refine (parseCommand_pair "cancel".toList ⟨_, _, rfl⟩ (by decide) (runId_ne_nil hid)
            (chars_runId hid)).trans ?_
          simp [understand, exec_self framed_runId hid]
  | evidence goalId =>
      cases goalId with
      | none =>
          refine (parseCommand_single "evidence".toList (by decide) (by decide)).trans ?_
          decide
      | some id =>
          have hid := h id rfl
          have hgoal := exec_goalId hid
          refine (parseCommand_pair "evidence".toList ⟨_, _, rfl⟩ (by decide) (goalId_ne_nil hid.1)
            (chars_goalId hid.1)).trans ?_
          simp [understand, hgoal]
  | «show» goalId =>
      have hgoal := exec_goalId h
      refine (parseCommand_pair "show".toList ⟨_, _, rfl⟩ (by decide) (goalId_ne_nil h.1) (chars_goalId h.1)).trans ?_
      simp [understand, hgoal]
  | help =>
      refine (parseCommand_single "help".toList (by decide) (by decide)).trans ?_
      decide
  | message content => exact absurd rfl (hmessage content)

theorem trim_trim (text : List Char) : trim (trim text) = trim text := trim_of_trimmed (trimmed_trim text)

/-- What a line is understood as is well formed. -/
theorem wellFormed_understand (input verb tail : List Char) : (understand (trim input) verb tail).WellFormed := by
  have hgoal : ∀ id ∈ (exec goalIdPattern tail).map fun id => id.map Char.toUpper, IsGoalId id := by
    intro id hid
    obtain ⟨w, hw, rfl⟩ := Option.map_eq_some_iff.mp hid
    exact isGoalId_upper (exec_matches hw)
  have hnamed : ∀ (make : List Char → Command) (goal : Option (List Char)), (∀ id ∈ goal, IsGoalId id) →
      (∀ id, IsGoalId id → (make id).WellFormed) → ((goal.map make).getD (.message (trim input))).WellFormed := by
    intro make goal hgoal hmake
    cases goal with
    | none => exact trim_trim input
    | some id => exact hmake id (hgoal id rfl)
  unfold understand
  dsimp only
  split
  · exact hnamed .run _ hgoal fun _ h => h
  split
  · exact fun id hid => exec_matches hid
  split
  · exact hgoal
  split
  · exact hnamed .show _ hgoal fun _ h => h
  split
  · trivial
  · exact trim_trim input

/-- A line that says no command is the message it says, without the white space around it. -/
theorem content_of_message {input content : List Char} (h : parseCommand input = .message content) :
    content = trim input := by
  have hnamed : ∀ (make : List Char → Command) (goal : Option (List Char)), (∀ id, make id ≠ .message content) →
      (goal.map make).getD (.message (trim input)) = .message content → content = trim input := by
    intro make goal hmake heq
    cases goal with
    | none => exact (Command.message.inj heq).symm
    | some id => exact absurd heq (hmake id)
  rw [parseCommand_eq] at h
  split at h
  · next hempty => rw [← Command.message.inj h, hempty]
  · unfold understand at h
    dsimp only at h
    split at h
    · exact hnamed .run _ (fun id heq => by cases heq) h
    split at h
    · cases h
    split at h
    · cases h
    split at h
    · exact hnamed .show _ (fun id heq => by cases heq) h
    split at h
    · cases h
    · exact (Command.message.inj h).symm

/-- **What the chat understands** is well formed, and understood the same when it is written out; and every well-formed
command can be written so that it is understood. -/
theorem parseCommand_usage :
    (∀ input, (parseCommand input).WellFormed ∧ parseCommand (parseCommand input).usage = parseCommand input) ∧
      ∀ command : Command, command.WellFormed → (∀ content, command ≠ .message content) →
        parseCommand command.usage = command := by
  refine ⟨fun input => ?_, fun command hwell hmessage => parseCommand_of_wellFormed hwell hmessage⟩
  have hwell : (parseCommand input).WellFormed := by
    rw [parseCommand_eq]
    split
    · exact rfl
    · exact wellFormed_understand input _ _
  refine ⟨hwell, ?_⟩
  by_cases hmessage : ∀ content, parseCommand input ≠ .message content
  · exact parseCommand_of_wellFormed hwell hmessage
  · -- a message is read again as the line it came from, which differs from it in white space only
    push Not at hmessage
    obtain ⟨content, hcontent⟩ := hmessage
    have htrim := content_of_message hcontent
    rw [hcontent]
    show parseCommand content = _
    rw [htrim] at hcontent ⊢
    rw [← hcontent, parseCommand_eq (trim input), trim_trim, ← parseCommand_eq]

example : parseCommand " /RUN  the goal p08-g01 now".toList = .run "P08-G01".toList := by decide +kernel

example : parseCommand "we could run P08-G01 later".toList = .message "we could run P08-G01 later".toList := by
  decide +kernel

end AtlasFlow.Reference.Commands
