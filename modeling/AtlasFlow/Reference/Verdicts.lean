import Mathlib
import AtlasFlow.Reference.DeclaredGates

/-!
# The verdict at the head of a text

`declaresFailure` takes the first word of a text, up to a blank, a colon or a dash, for its verdict. Any other
character after the word stays part of it: `FAILED, see the log` opens with the word `FAILED,`.
-/

namespace AtlasFlow.Reference.GoalFile

open SqlValues (text)

/-! ## First words -/

section Words

variable {α : Type} {p q : α → Bool}

theorem takeWhile_of_none {xs : List α} (h : ∀ x ∈ xs, q x = false) : xs.takeWhile q = [] := by
  cases xs with
  | nil => rfl
  | cons x xs => rw [List.takeWhile_cons_of_neg (by simp [h x List.mem_cons_self])]

/-- A first word ends before what follows it. -/
theorem takeWhile_append_of_none {xs ys : List α} (h : ∀ y ∈ ys, q y = false) :
    (xs ++ ys).takeWhile q = xs.takeWhile q := by
  rw [List.takeWhile_append, takeWhile_of_none h, List.append_nil]
  split
  · next hall => exact ((List.takeWhile_prefix q).eq_of_length hall).symm
  · rfl

/-- What is stripped from the end is no part of the first word. -/
theorem takeWhile_strip_end (h : ∀ x, p x = true → q x = false) (xs : List α) :
    (xs.reverse.dropWhile p).reverse.takeWhile q = xs.takeWhile q := by
  have hsplit : (xs.reverse.dropWhile p).reverse ++ (xs.reverse.takeWhile p).reverse = xs := by
    rw [← List.reverse_append, List.takeWhile_append_dropWhile, List.reverse_reverse]
  have hblank : ∀ x ∈ (xs.reverse.takeWhile p).reverse, q x = false := fun x hx =>
    h x (List.mem_takeWhile_imp (List.mem_reverse.mp hx))
  rw [← takeWhile_append_of_none hblank, hsplit]

theorem dropWhile_takeWhile {xs : List α} (h : ∀ x ∈ xs.head?, p x = false) :
    (xs.takeWhile q).dropWhile p = xs.takeWhile q := by
  cases xs with
  | nil => rfl
  | cons x xs =>
      rw [List.takeWhile_cons]
      split
      · rw [List.dropWhile_cons_of_neg (by simp [h x rfl])]
      · rfl

/-- A first word is what comes before a character that cannot be in it. -/
theorem takeWhile_append_of_all {word rest : List α} (hword : ∀ x ∈ word, q x = true)
    (hrest : ∀ x xs, rest = x :: xs → q x = false) : (word ++ rest).takeWhile q = word := by
  rw [List.takeWhile_append_of_pos hword]
  cases rest with
  | nil => rw [List.takeWhile_nil, List.append_nil]
  | cons x xs => rw [List.takeWhile_cons_of_neg (by simp [hrest x xs rfl]), List.append_nil]

end Words

/-- The characters of a verdict: neither a blank nor one of the three separators. -/
def inVerdict (c : Char) : Bool := !isSpace c && c ≠ ':' && c ≠ '—' && c ≠ '-'

theorem inVerdict_of_isSpace {c : Char} (h : isSpace c = true) : inVerdict c = false := by simp [inVerdict, h]

/-- What `declaresFailure` takes for the verdict. -/
def verdictOf (cs : List Char) : List Char := (cs.dropWhile isSpace).takeWhile inVerdict

theorem head_strip {cs : List Char} {c : Char} (h : c ∈ (strip cs).head?) : isSpace c = false := by
  have hprefix : strip cs <+: cs.dropWhile isSpace := by
    have hsuffix := List.dropWhile_suffix isSpace (l := (cs.dropWhile isSpace).reverse)
    rwa [← List.reverse_prefix, List.reverse_reverse] at hsuffix
  have hhead : (cs.dropWhile isSpace).head? = some c := by
    obtain ⟨rest, hrest⟩ := hprefix
    rw [← hrest, List.head?_append, h]
    rfl
  have hnot := List.head?_dropWhile_not isSpace cs
  rw [hhead] at hnot
  simpa using hnot

theorem strip_eq_nil {cs : List Char} : strip cs = [] ↔ cs.dropWhile isSpace = [] := by
  constructor
  · intro hstrip
    unfold strip at hstrip
    rw [List.reverse_eq_nil_iff, List.dropWhile_eq_nil_iff] at hstrip
    have hnot := List.head?_dropWhile_not isSpace cs
    cases hcs : cs.dropWhile isSpace with
    | nil => rfl
    | cons c rest =>
        have hc := hstrip c (by rw [hcs]; simp)
        rw [hcs] at hnot
        simp [hc] at hnot
  · intro hnil
    rw [strip, hnil]
    rfl

/-- The chain of splits is one scan. -/
theorem firstWord_eq_verdictOf (cs : List Char) :
    firstWord (splitFirst '-' (splitFirst '—' (splitFirst ':' (strip cs)))) = verdictOf cs := by
  unfold firstWord splitFirst
  rw [List.takeWhile_takeWhile, List.takeWhile_takeWhile, dropWhile_takeWhile fun c => head_strip,
    List.takeWhile_takeWhile, verdictOf]
  have hscan := takeWhile_strip_end (q := inVerdict) (fun c => inVerdict_of_isSpace) (cs.dropWhile isSpace)
  rw [← hscan]
  congr 1
  funext c
  simp [inVerdict, Bool.and_comm, Bool.and_left_comm, Bool.and_assoc]

theorem opensWithFailure_iff {s : String} : opensWithFailure s = true ↔ s.toList.dropWhile isSpace = [] ∨
    (verdictOf s.toList ≠ [] ∧ String.ofList ((verdictOf s.toList).flatMap upperChar) ∈ nonPassingVerdicts) := by
  unfold opensWithFailure
  rw [← strip_eq_nil]
  dsimp only
  rw [firstWord_eq_verdictOf]
  split
  · next hnil => simp [hnil]
  · next hne => simp [hne]

/-! ## Capital letters -/

/-- The words of verdicts consist of capital letters. -/
theorem isUpper_of_verdict {word : List Char} (h : String.ofList (word.flatMap upperChar) ∈ nonPassingVerdicts) :
    ∀ c ∈ word, ∀ d ∈ upperChar c, d.isUpper = true := by
  have hcapitals : ∀ verdict ∈ nonPassingVerdicts, verdict.toList.all Char.isUpper = true := by decide
  intro c hc d hd
  refine List.all_eq_true.mp (hcapitals _ h) d ?_
  rw [String.toList_ofList]
  exact List.mem_flatMap.mpr ⟨c, hc, hd⟩

theorem upperChar_ne_nil (c : Char) : upperChar c ≠ [] := by
  unfold upperChar
  split <;> simp

theorem upperChar_of_isSpace {c : Char} (h : isSpace c = true) : upperChar c = [c.toUpper] := by
  unfold upperChar
  split
  case h_11 => rfl
  all_goals exact absurd h (by decide)

theorem isUpper_toUpper_of_isSpace {c : Char} (h : isSpace c = true) : c.toUpper.isUpper = false := by
  have hrange : c.toNat < 65 ∨ 122 < c.toNat := by
    simp only [isSpace, Bool.or_eq_true, Bool.and_eq_true, decide_eq_true_eq] at h
    omega
  have hle : ∀ a : Char, a.val ≤ c.val ↔ a.toNat ≤ c.toNat := fun a => UInt32.le_iff_toNat_le
  have hge : ∀ a : Char, c.val ≤ a.val ↔ c.toNat ≤ a.toNat := fun a => UInt32.le_iff_toNat_le
  have hlower : ¬ ('a'.val ≤ c.val ∧ c.val ≤ 'z'.val) := by
    rw [hle, hge]
    simp only [Char.reduceToNat]
    omega
  have hupper : ¬ ('A'.val ≤ c.val ∧ c.val ≤ 'Z'.val) := by
    rw [hle, hge]
    simp only [Char.reduceToNat]
    omega
  rw [Char.toUpper, dif_neg hlower, Char.isUpper]
  exact decide_eq_false hupper

/-- A character that becomes capital letters is neither a blank nor a separator. -/
theorem inVerdict_of_isUpper {c : Char} (h : ∀ d ∈ upperChar c, d.isUpper = true) : inVerdict c = true := by
  have hspace : isSpace c = false := by
    by_contra hspace
    rw [Bool.not_eq_false] at hspace
    rw [upperChar_of_isSpace hspace, List.forall_mem_singleton, isUpper_toUpper_of_isSpace hspace] at h
    cases h
  have hnone : [':', '—', '-'].all (fun a => (upperChar a).any fun d => !d.isUpper) = true := by decide
  have hseparator : ∀ a ∈ [':', '—', '-'], c ≠ a := by
    intro a ha heq
    obtain ⟨d, hd, hlower⟩ := List.any_eq_true.mp (List.all_eq_true.mp hnone a ha)
    rw [← heq] at hd
    rw [h d hd] at hlower
    cases hlower
  simp only [List.forall_mem_cons] at hseparator
  simp [inVerdict, hspace, hseparator]

/-! ## An entry that reports a verdict -/

/-- `str.isalnum`, of one character: the letters and the digits. Of the ASCII characters only those one expects
are among them, and every character that has a capital ASCII letter is. -/
structure LettersAndDigits where
  isAlnum : Char → Bool
  ascii : ∀ c, c.toNat < 128 → isAlnum c = c.isAlphanum
  upper : ∀ c, (∃ d ∈ upperChar c, d.isUpper = true) → isAlnum c = true

section Verdict

variable {letters : LettersAndDigits} {cs word rest : List Char}

/-- After leading white space, a text opens with a verdict that is not a pass, in any case; `rest` is what
follows, and that does not begin with a letter or a digit. -/
structure OpensWith (letters : LettersAndDigits) (cs word rest : List Char) : Prop where
  split : cs.dropWhile isSpace = word ++ rest
  verdict : String.ofList (word.flatMap upperChar) ∈ nonPassingVerdicts
  ended : ∀ c cs, rest = c :: cs → letters.isAlnum c = false

/-- The word ends where `declaresFailure` looks for its end. -/
def Separated (rest : List Char) : Prop := ∀ c cs, rest = c :: cs → inVerdict c = false

theorem OpensWith.word_ne_nil (h : OpensWith letters cs word rest) : word ≠ [] := by
  rintro rfl
  exact absurd h.verdict (by decide)

theorem OpensWith.verdictOf (h : OpensWith letters cs word rest) :
    verdictOf cs = word ++ rest.takeWhile inVerdict := by
  have hword : ∀ c ∈ word, inVerdict c = true := fun c hc => inVerdict_of_isUpper (isUpper_of_verdict h.verdict c hc)
  rw [GoalFile.verdictOf, h.split, List.takeWhile_append_of_pos hword]

/-- What opens with a verdict reads as a failure exactly if the verdict is set off as the code expects. -/
theorem OpensWith.opensWithFailure_iff {s : String} (h : OpensWith letters s.toList word rest) :
    opensWithFailure s = true ↔ Separated rest := by
  have hnonempty : s.toList.dropWhile isSpace ≠ [] := by
    rw [h.split]
    exact List.append_ne_nil_of_left_ne_nil h.word_ne_nil rest
  rw [GoalFile.opensWithFailure_iff, h.verdictOf]
  constructor
  · rintro (hnil | ⟨-, hverdict⟩)
    · exact absurd hnil hnonempty
    · rintro c cs rfl
      by_contra hin
      rw [Bool.not_eq_false] at hin
      rw [List.takeWhile_cons_of_pos hin] at hverdict
      have hcapital := isUpper_of_verdict hverdict c (by simp)
      obtain ⟨d, hd⟩ := List.exists_mem_of_ne_nil _ (upperChar_ne_nil c)
      have halnum := letters.upper c ⟨d, hd, hcapital d hd⟩
      rw [h.ended c cs rfl] at halnum
      cases halnum
  · intro hseparated
    have hrest : rest.takeWhile inVerdict = [] := by
      cases rest with
      | nil => rfl
      | cons c cs => rw [List.takeWhile_cons_of_neg (by simp [hseparated c cs rfl])]
    rw [hrest, List.append_nil]
    exact .inr ⟨h.word_ne_nil, h.verdict⟩

end Verdict

/-! ## Failures and the validator -/

section Validator

variable (letters : LettersAndDigits) (repr : Value → String) (goal : Dict Key Value)

/-- An item that counts and whose text reports a verdict that is not a pass. -/
def Reports (item : Key × Value) : Prop :=
  item.2.truthy = true ∧ ∃ word rest, OpensWith letters (item.2.toText repr).toList word rest

/-- A required gate about which an item reports such a verdict. -/
def ReportedOn (gate : GateKind) : Prop :=
  .str (text gate) ∈ requiredNames goal ∧
    ∃ item ∈ evidenceItems goal, item.1.toText = text gate ∧ Reports letters repr item

/-- Such an item never goes with the passing ones, and such a gate is always reported as failed. -/
structure FailuresCount : Prop where
  notPassing : ∀ item ∈ evidenceItems goal, Reports letters repr item →
    ∀ declared : Declared, (declared.add repr item).passing = declared.passing
  reported : ∀ gate, ReportedOn letters repr goal gate →
    ∃ check, checkDeclaredEvidence repr goal = .ok check ∧ gate ∈ check.failed

/-- Something is said of a name, and nothing that is said of it reads as a failure. -/
def Vouched (name : Key) : Prop :=
  ∃ s, name = .str s ∧ ¬ Leaves repr (declaredEntries goal) s true ∧ Leaves repr (declaredEntries goal) s false

/-- When that is so: every such verdict is followed by a blank, a colon, a dash or nothing; and if it is about
a required gate, every required name that is not the name of a gate is vouched for. -/
structure WellReported : Prop where
  separated : ∀ item ∈ evidenceItems goal, item.2.truthy = true →
    ∀ word rest, OpensWith letters (item.2.toText repr).toList word rest → Separated rest
  named : (∃ gate, ReportedOn letters repr goal gate) → ∀ name ∈ requiredNames goal,
    (∃ gate : GateKind, name = .str (text gate)) ∨ Vouched repr goal name

end Validator

section Validator

variable {letters : LettersAndDigits} {repr : Value → String} {goal : Dict Key Value}

theorem covered_iff_vouched {name : Key} : Covered (declaredIn repr goal) name ↔ Vouched repr goal name := by
  unfold Vouched
  cases name with
  | other scalar => simp [Covered, Key.isIn]
  | str s =>
      simp only [Covered, Key.isIn, Key.str.injEq, exists_eq_left', ← mem_names_iff, Declared.names,
        decide_eq_false_iff_not, decide_eq_true_eq]

theorem Reports.fails {item : Key × Value} (h : WellReported letters repr goal) (hitem : item ∈ evidenceItems goal)
    (hreports : Reports letters repr item) : declaresFailure repr item.2 = true := by
  obtain ⟨htruthy, word, rest, hopens⟩ := hreports
  exact hopens.opensWithFailure_iff.mpr (h.separated item hitem htruthy word rest hopens)

/-- **Reported failures count exactly when they are well reported**. -/
theorem failuresCount_iff (letters : LettersAndDigits) (repr : Value → String) (goal : Dict Key Value) :
    FailuresCount letters repr goal ↔ WellReported letters repr goal := by
  constructor
  · intro h
    refine ⟨fun item hitem htruthy word rest hopens => ?_, ?_⟩
    · have hpassing := h.notPassing item hitem ⟨htruthy, word, rest, hopens⟩ {}
      by_contra hseparated
      have hfailure : declaresFailure repr item.2 = false :=
        Bool.eq_false_iff.mpr fun hfails => hseparated (hopens.opensWithFailure_iff.mp hfails)
      simp [Declared.add, htruthy, hfailure] at hpassing
    · rintro ⟨gate, hgate⟩ name hname
      obtain ⟨check, hcheck, -⟩ := h.reported gate hgate
      exact (checkDeclaredEvidence_ok_iff.mp ⟨check, hcheck⟩ name hname).symm.imp_right covered_iff_vouched.mp
  · intro h
    refine ⟨fun item hitem hreports declared => ?_, fun gate hgate => ?_⟩
    · simp [Declared.add, hreports.1, hreports.fails h hitem]
    · obtain ⟨check, hcheck⟩ := checkDeclaredEvidence_ok_iff.mpr fun name hname =>
        ((h.named ⟨gate, hgate⟩ name hname).imp_right covered_iff_vouched.mpr).symm
      refine ⟨check, hcheck, (checkDeclaredEvidence_spec hcheck gate).1.mpr ⟨hgate.1, ?_⟩⟩
      obtain ⟨-, item, hitem, hname, hreports⟩ := hgate
      exact standing_eq_failed.mpr (leaves_iff_items.mpr ⟨item, hitem, hname, hreports.1, hreports.fails h hitem⟩)

end Validator

/-! ### A verdict before a comma -/

/-- The letters and digits of ASCII, and what has an ASCII capital. -/
def asciiLetters : LettersAndDigits where
  isAlnum c := c.isAlphanum || (upperChar c).any Char.isUpper
  ascii c hc := by
    have hall : ∀ n : Fin 128, ((Char.ofNat n).isAlphanum || (upperChar (Char.ofNat n)).any Char.isUpper) =
        (Char.ofNat n).isAlphanum := by decide
    have hn := hall ⟨c.toNat, hc⟩
    rwa [Char.ofNat_toNat] at hn
  upper c hc := by
    rw [Bool.or_eq_true, List.any_eq_true]
    exact .inr hc

def reviewItem : Key × Value := (.str "review", .str "FAILED, see the log")

def rejectedGoal : Dict Key Value :=
  [(.str "id", .str "G-01"), (.str "state", .str "DONE"), (.str "gates", .dict [(.str "review", .str "required")]),
    (.str "evidence", .list [.dict [reviewItem]])]

theorem reports_reviewItem : Reports asciiLetters (fun _ => "") reviewItem := by
  refine ⟨rfl, "FAILED".toList, ", see the log".toList, by decide +kernel, by decide +kernel, fun c cs hrest => ?_⟩
  rw [show c = ',' from by simpa using (congrArg List.head? hrest).symm]
  rfl

/-- A goal whose review failed, and which the validator finds complete. -/
theorem failed_comma_is_covered :
    checkDeclaredEvidence (fun _ => "") rejectedGoal = .ok { goalId := "G-01" } ∧
      ¬ FailuresCount asciiLetters (fun _ => "") rejectedGoal := by
  refine ⟨by decide +kernel, fun h => ?_⟩
  have hpassing := h.notPassing reviewItem (List.mem_singleton_self _) reports_reviewItem {}
  exact absurd hpassing (by decide +kernel)

end AtlasFlow.Reference.GoalFile
