import Mathlib
import AtlasFlow.Data.Replacing

/-!
# Redaction of secrets

`SecretRedactor` writes a mark over what looks like a secret: five patterns, one after the other, each on the text that
the ones before it have left. What the engine takes for a letter, for white space and for part of a word comes from
its Unicode tables, of which `Alphabet` says what the patterns need.

The redacted text has no match of any pattern, and redacting it again changes nothing (`redact_clean`,
`redact_redact`). A secret may still show: when an earlier match takes the beginning of a later one away, its rest is
no match any more (`redact_covers_iff`).
-/

namespace AtlasFlow.Security

/-- Which characters a letter of a pattern stands for when case is ignored (`RegexOptions.IgnoreCase`), which are
white space (`\s`), and which are part of a word (`\b`). Of the characters beyond ASCII this says only that they
behave like the ASCII characters that stand for them. -/
structure Alphabet where
  same : Char → Char → Bool
  space : Char → Bool
  word : Char → Bool
  same_self : ∀ a, same a a = true
  same_apart : ∀ a b c, a.val < 128 → b.val < 128 → same a c = true → same b c = true → a.toLower = b.toLower
  space_same : ∀ a c, a.val < 128 → same a c = true → space c = space a
  word_same : ∀ a c, a.val < 128 → same a c = true → word c = word a
  space_ascii : ∀ c, 32 ≤ c.val → c.val < 127 → space c = (c == ' ')
  word_ascii : ∀ c, c.val < 128 → word c = (c.isAlphanum || c == '_')

/-- The characters that the patterns are written with. -/
def ascii : List Char := (List.range 128).map Char.ofNat

namespace Alphabet

variable (chars : Alphabet)

/-- A set in a pattern, `[...]`. -/
def among (p : Char → Bool) (c : Char) : Bool := ascii.any fun a => p a && chars.same a c

/-- A word in a pattern. -/
def text (word : String) : Regex Char := .literal (word.toList.map chars.same)

/-- `[A-Za-z0-9]`. -/
def alphanumeric : Char → Bool := chars.among Char.isAlphanum

/-- `[:=]`. -/
def separator : Char → Bool := chars.among fun a => a == ':' || a == '='

/-- `[A-Za-z0-9\-._~+/]`. -/
def tokenChar : Char → Bool := chars.among fun a => a.isAlphanum || "-._~+/".toList.contains a

/-! ## The patterns -/

/-- `sk|api[_-]?key|token|secret|password` -/
def key : Regex Char :=
  .alt (chars.text "sk") (.alt
    (.seq (chars.text "api") (.seq (.optional (chars.among fun a => a == '_' || a == '-')) (chars.text "key")))
    (.alt (chars.text "token") (.alt (chars.text "secret") (chars.text "password"))))

/-- `(?:sk|api[_-]?key|token|secret|password)\s*[:=]\s*[^\s]+` -/
def keyValuePattern : Pattern Char where
  boundary := false
  body := .seq chars.key (.seq (.many chars.space 0) (.seq (.set chars.separator) (.seq (.many chars.space 0)
    (.many (fun c => !chars.space c) 1))))

/-- `Bearer\s+[A-Za-z0-9\-._~+/]+=*` -/
def bearerPattern : Pattern Char where
  boundary := false
  body := .seq (chars.text "Bearer") (.seq (.many chars.space 1) (.seq (.many chars.tokenChar 1)
    (.many (chars.same '=') 0)))

/-- `\bgh[pousr]_[A-Za-z0-9]{16,}` -/
def gitHubTokenPattern : Pattern Char where
  boundary := true
  body := .seq (chars.text "gh") (.seq (.set (chars.among "pousr".toList.contains)) (.seq (chars.text "_")
    (.many chars.alphanumeric 16)))

/-- `\bsk-[A-Za-z0-9]{16,}` -/
def openAiKeyPattern : Pattern Char where
  boundary := true
  body := .seq (chars.text "sk-") (.many chars.alphanumeric 16)

/-- `-----BEGIN [A-Z ]*PRIVATE KEY-----` -/
def privateKeyPattern : Pattern Char where
  boundary := false
  body := .seq (chars.text "-----BEGIN ") (.seq (.many (chars.among fun a => a.isUpper || a == ' ') 0)
    (.seq (chars.text "PRIVATE KEY") (chars.text "-----")))

def defaults : List (Pattern Char) :=
  [chars.keyValuePattern, chars.bearerPattern, chars.gitHubTokenPattern, chars.openAiKeyPattern,
    chars.privateKeyPattern]

end Alphabet

/-! ## Redacting -/

def replacement : String := "[REDACTED]"

/-- An extra pattern, known by its `Replace`: of a text and what to put in the place of each match. -/
abbrev ExtraPattern := String → String → String

variable (chars : Alphabet)

/-- `Regex.Replace`. -/
def replace (pattern : Pattern Char) (text : String) : String :=
  String.ofList (pattern.replace chars.word id replacement.toList text.toList)

/-- `SecretRedactor.Redact`. -/
def redact (text : String) (additional : Option (List ExtraPattern)) : String :=
  let text := chars.defaults.foldl (fun text pattern => replace chars pattern text) text
  match additional with
  | some patterns => patterns.foldl (fun text pattern => pattern text replacement) text
  | none => text

/-! ## Secrets -/

/-- What of a match of the `k`-th pattern is the secret: the value after the separator, the token after `Bearer`, and
all of the others. -/
def secretPart (k : Nat) (found : List Char) : List Char :=
  match k with
  | 0 => ((found.dropWhile fun c => !chars.separator c).drop 1).dropWhile chars.space
  | 1 => (found.drop "Bearer".length).dropWhile chars.space
  | _ => found

/-- The `k`-th pattern matches the characters from `i` to `e`. -/
def Found (text : List Char) (k i e : Nat) : Prop :=
  ∃ pattern n, chars.defaults[k]? = some pattern ∧
    pattern.first chars.word (Pattern.charBefore text i) (text.drop i) = some n ∧ e = i + n

/-- The character at `x` is in the secret part of a match. -/
def Secret (text : List Char) (x : Nat) : Prop :=
  ∃ k i e, Found chars text k i e ∧ e - (secretPart chars k (Pattern.slice i e text)).length ≤ x ∧ x < e

/-- The characters of the redacted text, each with its position in the text if it comes from there. -/
def remains (text : List Char) : List (Char × Option Nat) :=
  Pattern.trace chars.word replacement.toList chars.defaults text

/-- No character of a secret is left, the redacted text has no match of a pattern, and redacting it changes nothing. -/
structure Covers (text : String) : Prop where
  covered : ∀ x, Secret chars text.toList x → ∀ c, (c, some x) ∉ remains chars text.toList
  clean : ∀ pattern ∈ chars.defaults, pattern.isMatch chars.word none (redact chars text none).toList = false
  idempotent : redact chars (redact chars text none) none = redact chars text none

/-! ## What the tables say -/

namespace Alphabet

variable {chars : Alphabet}

/-- Two ASCII characters that are not the same letter. -/
def differ (a b : Char) : Bool := decide (a.val < 128) && decide (b.val < 128) && a.toLower != b.toLower

theorem same_of_differ {a b c : Char} (h : differ a b = true) (hc : chars.same a c = true) : chars.same b c = false := by
  rw [differ, Bool.and_eq_true, Bool.and_eq_true, decide_eq_true_eq, decide_eq_true_eq, bne_iff_ne] at h
  obtain ⟨⟨ha, hb⟩, hne⟩ := h
  exact Bool.eq_false_iff.mpr fun hc' => hne (chars.same_apart a b c ha hb hc hc')

/-- No character of a word of a pattern stands for a different one. -/
theorem same_eq_false {a b : Char} (h : differ b a = true) : chars.same a b = false :=
  same_of_differ h (chars.same_self b)

theorem val_of_mem_ascii {a : Char} (h : a ∈ ascii) : a.val < 128 := by
  have hall : ascii.all (fun a => decide (a.val < 128)) = true := rfl
  exact of_decide_eq_true (List.all_eq_true.mp hall a h)

theorem among_iff {p : Char → Bool} {c : Char} :
    chars.among p c = true ↔ ∃ a ∈ ascii, p a = true ∧ chars.same a c = true := by
  rw [among, List.any_eq_true]
  simp only [Bool.and_eq_true]

/-- What holds of the characters of a set holds of what they stand for. -/
theorem among_imp {p q : Char → Bool} {r : Char → Prop} (hall : (ascii.all fun a => !p a || q a) = true)
    (h : ∀ a c, a.val < 128 → q a = true → chars.same a c = true → r c) {c : Char} (hc : chars.among p c = true) : r c := by
  obtain ⟨a, ha, hp, hsame⟩ := among_iff.mp hc
  have hq := List.all_eq_true.mp hall a ha
  rw [hp, Bool.not_true, Bool.false_or] at hq
  exact h a c (val_of_mem_ascii ha) hq hsame

theorem among_apart {p : Char → Bool} {b : Char} (hall : (ascii.all fun a => !p a || differ a b) = true) {c : Char}
    (hc : chars.among p c = true) : chars.same b c = false :=
  among_imp hall (fun _ _ _ hdiffer hsame => same_of_differ hdiffer hsame) hc

theorem among_eq_false {p : Char → Bool} {b : Char} (hall : (ascii.all fun a => !p a || differ a b) = true) :
    chars.among p b = false := by
  refine Bool.eq_false_iff.mpr fun hc => ?_
  have hfalse := among_apart hall hc
  rw [chars.same_self] at hfalse
  cases hfalse

/-- Printable, and no space. -/
def visible (a : Char) : Bool := decide (32 ≤ a.val) && decide (a.val < 127) && a != ' '

theorem space_of_visible {a c : Char} (h : visible a = true) (hc : chars.same a c = true) : chars.space c = false := by
  rw [visible, Bool.and_eq_true, Bool.and_eq_true, decide_eq_true_eq, decide_eq_true_eq, bne_iff_ne] at h
  obtain ⟨⟨hlow, hhigh⟩, hne⟩ := h
  rw [chars.space_same a c (UInt32.lt_trans hhigh (by decide)) hc, chars.space_ascii a hlow hhigh]
  exact beq_eq_false_iff_ne.mpr hne

theorem among_space {p : Char → Bool} (hall : (ascii.all fun a => !p a || visible a) = true) {c : Char}
    (hc : chars.among p c = true) : chars.space c = false :=
  among_imp hall (fun _ _ _ hvisible hsame => space_of_visible hvisible hsame) hc

theorem word_of_same {a c : Char} (ha : a.val < 128) (hc : chars.same a c = true) :
    chars.word c = (a.isAlphanum || a == '_') := by
  rw [chars.word_same a c ha hc, chars.word_ascii a ha]

/-! ## How the patterns match -/

theorem opens_text {word : String} {a : Char} {rest : List Char} (h : word.toList = a :: rest) :
    (chars.text word).Opens (chars.same a) := by
  rw [text, h]
  exact (Regex.opens_set fun _ hc => hc).seq _

theorem exact_text (word : String) : (chars.text word).Exact := Regex.exact_literal _

theorem apart_of_opens {r r' : Regex Char} {a b : Char} (ha : r.Opens (chars.same a)) (hb : r'.Opens (chars.same b))
    (h : differ a b = true) : r.Apart r' :=
  ha.apart hb fun _ => same_of_differ h

theorem opens_api (r : Regex Char) : (Regex.seq (chars.text "api") r).Opens (chars.same 'a') := (opens_text rfl).seq r

theorem exact_key : chars.key.Exact := by
  have hs : (chars.text "sk").Opens (chars.same 's') := opens_text rfl
  have ht : (chars.text "token").Opens (chars.same 't') := opens_text rfl
  have hs' : (chars.text "secret").Opens (chars.same 's') := opens_text rfl
  have hp : (chars.text "password").Opens (chars.same 'p') := opens_text rfl
  have hk : (chars.text "key").Opens (chars.same 'k') := opens_text rfl
  -- the two words that begin alike differ in their second letters
  have hecret : (chars.text "ecret").Opens (chars.same 'e') := opens_text rfl
  have hk' : (chars.text "k").Opens (chars.same 'k') := opens_text rfl
  have hskSecret : (chars.text "sk").Apart (chars.text "secret") := (apart_of_opens hk' hecret rfl).set_seq _ _
  have hapi : (Regex.seq (chars.text "api") (.seq (.optional (chars.among fun a => a == '_' || a == '-'))
      (chars.text "key"))).Exact := by
    refine (exact_text _).seq (Regex.exact_optional_seq (hk.mono fun c hc => ?_) (exact_text _))
    rw [Bool.not_eq_true', ← Bool.not_eq_true]
    intro hamong
    rw [among_apart rfl hamong] at hc
    cases hc
  refine (exact_text _).alt (hapi.alt ((exact_text _).alt ((exact_text _).alt (exact_text _) ?_) ?_) ?_) ?_
  · exact apart_of_opens hs' hp rfl
  · exact (apart_of_opens ht hs' rfl).alt (apart_of_opens ht hp rfl)
  · exact (apart_of_opens (opens_api _) ht rfl).alt
      ((apart_of_opens (opens_api _) hs' rfl).alt (apart_of_opens (opens_api _) hp rfl))
  · exact (apart_of_opens hs (opens_api _) rfl).alt
      ((apart_of_opens hs ht rfl).alt (hskSecret.alt (apart_of_opens hs hp rfl)))

/-- The first letters of the keys. -/
theorem opens_key {p : Char → Bool} (hp : ∀ a c, visible a = true → chars.same a c = true → p c = true) : chars.key.Opens p := by
  have hopens : ∀ (a : Char) (word : String) (rest : List Char), word.toList = a :: rest → visible a = true →
      (chars.text word).Opens p := fun a word rest hword ha => (opens_text hword).mono fun c => hp a c ha
  refine (hopens 's' _ _ rfl rfl).alt (((hopens 'a' "api" _ rfl rfl).seq _).alt ?_)
  exact (hopens 't' _ _ rfl rfl).alt ((hopens 's' _ _ rfl rfl).alt (hopens 'p' _ _ rfl rfl))

/-- A match begins with a character that shows. -/
theorem opens_defaults : ∀ pattern ∈ chars.defaults, pattern.body.Opens fun c => !chars.space c := by
  have hvisible : ∀ a c, visible a = true → chars.same a c = true → (!chars.space c) = true := by
    intro a c ha hc
    rw [space_of_visible ha hc]
    rfl
  have hopens : ∀ (a : Char) (word : String) (rest : List Char), word.toList = a :: rest → visible a = true →
      (chars.text word).Opens fun c => !chars.space c := fun a word rest hword ha =>
    (opens_text hword).mono fun c => hvisible a c ha
  intro pattern hpattern
  simp only [defaults, List.mem_cons, List.not_mem_nil, or_false] at hpattern
  rcases hpattern with rfl | rfl | rfl | rfl | rfl
  · exact (opens_key hvisible).seq _
  · exact (hopens 'B' _ _ rfl rfl).seq _
  · exact (hopens 'g' _ _ rfl rfl).seq _
  · exact (hopens 's' _ _ rfl rfl).seq _
  · exact (hopens '-' _ _ rfl rfl).seq _

theorem longest_defaults : ∀ pattern ∈ chars.defaults, pattern.body.Longest := by
  have hshow : ∀ {p : Char → Bool}, (ascii.all fun a => !p a || visible a) = true →
      ∀ c, chars.among p c = true → (!chars.space c) = true := by
    intro p hall c hc
    rw [among_space hall hc]
    rfl
  intro pattern hpattern
  simp only [defaults, List.mem_cons, List.not_mem_nil, or_false] at hpattern
  rcases hpattern with rfl | rfl | rfl | rfl | rfl
  · have hvalue : (Regex.seq (.many chars.space 0) (.many (fun c => !chars.space c) 1)).Longest :=
      Regex.longest_many_seq (Regex.opens_many Nat.one_pos fun _ hc => hc) (Regex.longest_many _ _) _
    refine exact_key.seq_longest (Regex.longest_many_seq ?_ ((Regex.exact_set _).seq_longest hvalue) _)
    exact (Regex.opens_set (hshow rfl)).seq _
  · refine (exact_text _).seq_longest (Regex.longest_many_seq ?_ (Regex.longest_many_many (fun c hc => ?_) _) _)
    · exact (Regex.opens_many Nat.one_pos (hshow rfl)).seq _
    · exact among_apart rfl hc
  · exact (exact_text _).seq_longest ((Regex.exact_set _).seq_longest ((exact_text _).seq_longest
      (Regex.longest_many _ _)))
  · exact (exact_text _).seq_longest (Regex.longest_many _ _)
  · refine ((exact_text _).seq (Regex.exact_many_within ?_ ?_ (exact_text _) _)).longest
    · refine fun w => Regex.matches_literal_all fun q hq d hd => ?_
      obtain ⟨a, ha, rfl⟩ := List.mem_map.mp hq
      have hall : ("PRIVATE KEY".toList.all fun a => ascii.contains a && (a.isUpper || a == ' ')) = true := rfl
      have hset := List.all_eq_true.mp hall a ha
      rw [Bool.and_eq_true, List.contains_iff_mem] at hset
      exact among_iff.mpr ⟨a, hset.1, hset.2, hd⟩
    · refine (opens_text rfl).mono fun c hc => ?_
      rw [Bool.not_eq_true', ← Bool.not_eq_true]
      intro hamong
      rw [among_apart rfl hamong] at hc
      cases hc

/-- Where a boundary is asked for, a match begins with a letter of a key. -/
theorem opens_of_boundary : ∀ pattern ∈ chars.defaults, pattern.boundary = true →
    pattern.body.Opens (chars.among Char.isAlpha) := by
  have hopens : ∀ (a : Char) (word : String) (rest : List Char), word.toList = a :: rest → a ∈ ascii →
      a.isAlpha = true → (chars.text word).Opens (chars.among Char.isAlpha) := fun a word rest hword ha halpha =>
    (opens_text hword).mono fun c hc => among_iff.mpr ⟨a, ha, halpha, hc⟩
  intro pattern hpattern hboundary
  simp only [defaults, List.mem_cons, List.not_mem_nil, or_false] at hpattern
  rcases hpattern with rfl | rfl | rfl | rfl | rfl
  · cases hboundary
  · cases hboundary
  · exact (hopens 'g' _ _ rfl (List.contains_iff_mem.mp rfl) rfl).seq _
  · exact (hopens 's' _ _ rfl (List.contains_iff_mem.mp rfl) rfl).seq _
  · cases hboundary

theorem among_mono {p q : Char → Bool} (h : ∀ a, p a = true → q a = true) {c : Char} (hc : chars.among p c = true) :
    chars.among q c = true := by
  obtain ⟨a, ha, hp, hsame⟩ := among_iff.mp hc
  exact among_iff.mpr ⟨a, ha, h a hp, hsame⟩

/-- A match takes in a letter that follows it, or it ends outside words. -/
theorem closed_defaults {c : Char} (hc : chars.among Char.isAlpha c = true) :
    ∀ pattern ∈ chars.defaults, pattern.body.Closed c chars.word := by
  have halnum : ∀ a : Char, a.isAlpha = true → a.isAlphanum = true := by
    intro a ha
    rw [Char.isAlphanum, ha]
    rfl
  have hspace : (!chars.space c) = true := by
    rw [among_space rfl hc]
    rfl
  have halphanumeric : chars.alphanumeric c = true := among_mono halnum hc
  have htoken : chars.tokenChar c = true := among_mono (fun a ha => by rw [halnum a ha]; rfl) hc
  intro pattern hpattern
  simp only [defaults, List.mem_cons, List.not_mem_nil, or_false] at hpattern
  rcases hpattern with rfl | rfl | rfl | rfl | rfl
  · have hvalue : (Regex.many (fun c => !chars.space c) 1).Closed c chars.word :=
      Regex.closed_many (q := fun c => !chars.space c) hspace 1
    exact (((hvalue.seq _).seq _).seq _).seq _
  · have hequals : ∀ d, chars.same '=' d = true → chars.word d = false := fun d hd => word_of_same (by decide) hd
    exact (((Regex.closed_many htoken 1).seq_many hequals).seq _).seq _
  · exact (((Regex.closed_many halphanumeric 16).seq _).seq _).seq _
  · exact (Regex.closed_many halphanumeric 16).seq _
  · have hdashes : (chars.text "-----").Closed c chars.word := by
      refine Regex.closed_literal (by simp) fun q hq d hd => ?_
      obtain ⟨a, ha, rfl⟩ := List.mem_map.mp hq
      have hdash : ("-----".toList.all (· == '-')) = true := rfl
      rw [eq_of_beq (List.all_eq_true.mp hdash a ha)] at hd
      exact word_of_same (by decide) hd
    exact ((hdashes.seq _).seq _).seq _

theorem orderly (chars : Alphabet) : Pattern.Orderly chars.word chars.defaults where
  nonempty := fun pattern hpattern => (opens_defaults pattern hpattern).not_matches_nil
  longest := longest_defaults
  opens := by
    intro pattern hpattern hboundary
    refine (opens_of_boundary pattern hpattern hboundary).mono fun c hc => ?_
    obtain ⟨a, ha, halpha, hsame⟩ := among_iff.mp hc
    rw [word_of_same (val_of_mem_ascii ha) hsame, Char.isAlphanum, halpha]
    rfl
  closed := by
    intro pattern hpattern other hother hboundary w c u hw hu
    obtain ⟨d, v, hcons, hd⟩ := opens_of_boundary other hother hboundary _ hu
    obtain ⟨rfl, _⟩ := List.cons.inj hcons
    rcases closed_defaults hd pattern hpattern w hw with hnext | ⟨before, e, rfl, he⟩
    · exact Or.inl hnext
    · refine Or.inr fun e' he' => ?_
      rw [List.getLast?_concat, Option.some.injEq] at he'
      exact he' ▸ he

/-! ### The patterns and the mark -/

theorem rejects_text {word : String} {c : Char} (h : (word.toList.all fun a => differ c a) = true) :
    (chars.text word).Rejects c := by
  refine Regex.rejects_literal fun q hq => ?_
  obtain ⟨a, ha, rfl⟩ := List.mem_map.mp hq
  exact same_eq_false (List.all_eq_true.mp h a ha)

/-- A pattern whose first letter is not in the mark, and that has no bracket in it. -/
theorem inert_of_opens {pattern : Pattern Char} {a : Char} (hopens : pattern.body.Opens (chars.same a))
    (ha : (replacement.toList.all fun c => differ c a) = true) (hrejects : pattern.body.Rejects '[') :
    pattern.Inert chars.word replacement.toList where
  rejects := ⟨'[', "REDACTED]".toList, rfl, hrejects⟩
  misses := fun c hc => hopens.ends_eq_nil (same_eq_false (List.all_eq_true.mp ha c hc))
  closes := by
    intro c hc
    rw [show replacement.toList.getLast? = some ']' from rfl, Option.some.injEq] at hc
    subst hc
    exact chars.word_ascii ']' (by decide)

theorem inert_defaults : ∀ pattern ∈ chars.defaults.tail, pattern.Inert chars.word replacement.toList := by
  have hspace : chars.space '[' = false := chars.space_ascii '[' (by decide) (by decide)
  intro pattern hpattern
  simp only [defaults, List.tail_cons, List.mem_cons, List.not_mem_nil, or_false] at hpattern
  rcases hpattern with rfl | rfl | rfl | rfl
  · exact inert_of_opens ((opens_text rfl).seq _) rfl
      ⟨rejects_text rfl, hspace, among_eq_false rfl, same_eq_false rfl⟩
  · exact inert_of_opens ((opens_text rfl).seq _) rfl
      ⟨rejects_text rfl, among_eq_false rfl, rejects_text rfl, among_eq_false rfl⟩
  · exact inert_of_opens ((opens_text rfl).seq _) rfl ⟨rejects_text rfl, among_eq_false rfl⟩
  · exact inert_of_opens ((opens_text rfl).seq _) rfl
      ⟨rejects_text rfl, among_eq_false rfl, rejects_text rfl, rejects_text rfl⟩

/-- The first two letters of the keys. -/
def keyLetters : List (Char × Char) := [('s', 'k'), ('a', 'p'), ('t', 'o'), ('s', 'e'), ('p', 'a')]

/-- No key begins like the text. -/
def noKey : List Char → Bool
  | c :: d :: _ => keyLetters.all fun letters => differ c letters.1 || differ d letters.2
  | [c] => keyLetters.all fun letters => differ c letters.1
  | [] => true

theorem ends_text_of_differ {word : String} {a b c d : Char} {rest text : List Char} (hword : word.toList = a :: b :: rest)
    (h : (differ c a || differ d b) = true) : (chars.text word).ends (c :: d :: text) = [] := by
  rw [Alphabet.text, hword]
  rcases Bool.or_eq_true_iff.mp h with hc | hd
  · exact ((Regex.opens_set fun _ hc => hc).seq _).ends_eq_nil (same_eq_false hc) _
  · exact Regex.ends_set_seq_of_right (((Regex.opens_set fun _ hd => hd).seq _).ends_eq_nil (same_eq_false hd) _) _ _

theorem ends_key_of_noKey {c : Char} {after : List Char} (h : noKey (c :: after) = true) (text : List Char) :
    chars.key.ends (c :: (after ++ text)) = [] := by
  have hall : chars.key.ends (c :: (after ++ text)) =
      (chars.text "sk").ends (c :: (after ++ text)) ++ ((Regex.seq (chars.text "api") _).ends (c :: (after ++ text)) ++
        ((chars.text "token").ends (c :: (after ++ text)) ++ ((chars.text "secret").ends (c :: (after ++ text)) ++
          (chars.text "password").ends (c :: (after ++ text))))) := rfl
  have hnil : ∀ (word : String) (a b : Char) (rest : List Char), word.toList = a :: b :: rest → (a, b) ∈ keyLetters →
      (chars.text word).ends (c :: (after ++ text)) = [] := by
    intro word a b rest hword hletters
    cases after with
    | nil => exact (opens_text hword).ends_eq_nil (same_eq_false (List.all_eq_true.mp h _ hletters)) _
    | cons d after => exact ends_text_of_differ hword (List.all_eq_true.mp h _ hletters)
  rw [hall, hnil "sk" 's' 'k' _ rfl (by simp [keyLetters]),
    Regex.ends_seq_of_left (hnil "api" 'a' 'p' _ rfl (by simp [keyLetters])),
    hnil "token" 't' 'o' _ rfl (by simp [keyLetters]), hnil "secret" 's' 'e' _ rfl (by simp [keyLetters]),
    hnil "password" 'p' 'a' _ rfl (by simp [keyLetters])]
  rfl

/-- The part of a match of the first pattern before its value. -/
def beforeValue (chars : Alphabet) : Regex Char :=
  .seq chars.key (.seq (.many chars.space 0) (.seq (.set chars.separator) (.many chars.space 0)))

theorem keyValue_iff {w : List Char} : chars.keyValuePattern.body.Matches w ↔
    (Regex.seq chars.beforeValue (.many (fun c => !chars.space c) 1)).Matches w := by
  constructor
  · rintro ⟨k, _, rfl, hk, s, _, rfl, hs, c, _, rfl, hc, s', v, rfl, hs', hv⟩
    exact ⟨k ++ (s ++ (c ++ s')), v, by simp, ⟨k, _, rfl, hk, s, _, rfl, hs, c, s', rfl, hc, hs'⟩, hv⟩
  · rintro ⟨_, v, rfl, ⟨k, _, rfl, hk, s, _, rfl, hs, c, s', rfl, hc, hs'⟩, hv⟩
    exact ⟨k, _, by simp, hk, s, _, rfl, hs, c, _, rfl, hc, s', v, rfl, hs', hv⟩

theorem rejects_beforeValue : chars.beforeValue.Rejects '[' := by
  have hspace : chars.space '[' = false := chars.space_ascii '[' (by decide) (by decide)
  have hkey : chars.key.Rejects '[' :=
    ⟨rejects_text rfl, ⟨rejects_text rfl, ⟨among_eq_false rfl, trivial⟩, rejects_text rfl⟩, rejects_text rfl,
      rejects_text rfl, rejects_text rfl⟩
  exact ⟨hkey, hspace, among_eq_false rfl, hspace⟩

theorem foremost_keyValue (chars : Alphabet) :
    Pattern.Foremost chars.word replacement.toList chars.defaults chars.keyValuePattern where
  boundary := rfl
  misses := by
    intro before c after hmark text
    have hall : replacement.toList.tails.all noKey = true := rfl
    have hsuffix : c :: after ∈ replacement.toList.tails := (List.mem_tails _ _).mpr ⟨before, hmark.symm⟩
    exact Regex.ends_seq_of_left (ends_key_of_noKey (List.all_eq_true.mp hall _ hsuffix) text) _
  reaches := by
    intro w text hne hends pattern hpattern x u hx
    obtain ⟨n, hn⟩ := List.exists_mem_of_ne_nil _ hends
    obtain ⟨hle, hmatch⟩ := Regex.mem_ends.mp hn
    obtain ⟨a, b, htake, ha, hlength, hb⟩ := keyValue_iff.mp hmatch
    have htext : w ++ '[' :: ("REDACTED]".toList ++ text) = a ++ (b ++ (w ++ (replacement.toList ++ text)).drop n) := by
      rw [← List.append_assoc, ← htake]
      exact (List.take_append_drop n _).symm
    -- all that comes before the value is in the text before the mark
    have haends : a.length ∈ chars.beforeValue.ends (w ++ '[' :: ("REDACTED]".toList ++ text)) := by
      rw [htext]
      refine Regex.mem_ends.mpr ⟨by rw [List.length_append]; exact Nat.le_add_right _ _, ?_⟩
      rw [List.take_left]
      exact ha
    rw [rejects_beforeValue.ends_append] at haends
    have hale : a.length ≤ w.length := (Regex.mem_ends.mp haends).1
    obtain ⟨rest, rfl⟩ : ∃ rest, w = a ++ rest := by
      refine ⟨w.drop a.length, ?_⟩
      have htake := congrArg (List.take a.length) htext
      rw [List.take_left, List.take_append_of_le_length hale] at htake
      rw [← htake, List.length_take_of_le hale, List.take_append_drop]
    have hfound : ∀ c after, (!chars.space c) = true →
        ∃ n, n ∈ chars.keyValuePattern.body.ends (a ++ c :: after) := by
      intro c after hc
      refine ⟨(a ++ [c]).length, Regex.mem_ends.mpr ⟨by simp, ?_⟩⟩
      rw [show a ++ c :: after = (a ++ [c]) ++ after by simp, List.take_left]
      exact keyValue_iff.mpr ⟨a, [c], rfl, ha, Nat.le_refl 1, by simpa using hc⟩
    cases rest with
    | nil =>
        obtain ⟨c, v, hcons, hc⟩ := opens_defaults pattern hpattern _ hx
        obtain ⟨rfl, _⟩ := List.cons.inj hcons
        rw [List.append_nil]
        exact hfound x [] hc
    | cons y rest =>
        rw [List.append_assoc, List.append_cancel_left_eq, List.cons_append] at htext
        cases b with
        | nil => exact absurd hlength (by decide)
        | cons z b =>
            obtain ⟨rfl, _⟩ := List.cons.inj htext
            rw [List.append_assoc]
            exact hfound y (rest ++ [x]) (hb y List.mem_cons_self)

end Alphabet

/-! ## The tables of ASCII -/

theorem toLower_cases (c : Char) : c.toLower = c ∨ c.isUpper = true ∧ c.toLower.isLower = true := by
  unfold Char.toLower
  split
  · next h =>
    refine Or.inr ⟨?_, ?_⟩
    · simpa [Char.isUpper] using h
    · obtain ⟨hlow, hhigh⟩ := h
      simp only [Char.isLower, ge_iff_le, UInt32.le_iff_toNat_le, Bool.and_eq_true, decide_eq_true_eq] at hlow hhigh ⊢
      have hA : 'A'.val.toNat = 65 := rfl
      have hZ : 'Z'.val.toNat = 90 := rfl
      have ha : 'a'.val.toNat = 97 := rfl
      have hz : 'z'.val.toNat = 122 := rfl
      have hd : ('a'.val - 'A'.val).toNat = 32 := rfl
      have hsum : (c.val + ('a'.val - 'A'.val)).toNat = c.val.toNat + 32 := by
        rw [UInt32.toNat_add, hd, Nat.mod_eq_of_lt (by omega)]
      omega
  · exact Or.inl rfl

/-- `\s` of ASCII. -/
def asciiSpace (c : Char) : Bool := c == ' ' || decide (9 ≤ c.val) && decide (c.val ≤ 13)

/-- `\w` of ASCII. -/
def asciiWord (c : Char) : Bool := c.isAlphanum || c == '_'

theorem asciiSpace_of_isAlpha {c : Char} (h : c.isAlpha = true) : asciiSpace c = false := by
  have hA : 'A'.val.toNat = 65 := rfl
  have hZ : 'Z'.val.toNat = 90 := rfl
  have ha : 'a'.val.toNat = 97 := rfl
  simp only [Char.isAlpha, Char.isUpper, Char.isLower, ge_iff_le, UInt32.le_iff_toNat_le, Bool.or_eq_true,
    Bool.and_eq_true, decide_eq_true_eq] at h
  rw [asciiSpace, Bool.or_eq_false_iff, beq_eq_false_iff_ne]
  refine ⟨?_, ?_⟩
  · rintro rfl
    rcases h with h | h
    · exact absurd h.1 (by decide)
    · exact absurd h.1 (by decide)
  · rw [Bool.and_eq_false_iff, decide_eq_false_iff_not, decide_eq_false_iff_not]
    refine Or.inr fun hle => ?_
    rw [UInt32.le_iff_toNat_le] at hle
    have h13 : (13 : UInt32).toNat = 13 := rfl
    omega

theorem asciiSpace_toLower (c : Char) : asciiSpace c.toLower = asciiSpace c := by
  rcases toLower_cases c with heq | ⟨hupper, hlower⟩
  · rw [heq]
  · rw [asciiSpace_of_isAlpha, asciiSpace_of_isAlpha]
    · rw [Char.isAlpha, hupper]
      rfl
    · rw [Char.isAlpha, hlower, Bool.or_true]

theorem asciiWord_toLower (c : Char) : asciiWord c.toLower = asciiWord c := by
  rcases toLower_cases c with heq | ⟨hupper, hlower⟩
  · rw [heq]
  · rw [asciiWord, asciiWord, Char.isAlphanum, Char.isAlphanum, Char.isAlpha, Char.isAlpha, hupper, hlower]
    simp

/-- The tables of an engine that knows only the letters of ASCII. -/
def asciiAlphabet : Alphabet where
  same a c := a.toLower == c.toLower
  space := asciiSpace
  word := asciiWord
  same_self := fun a => beq_self_eq_true _
  same_apart := fun a b c _ _ ha hb => (eq_of_beq ha).trans (eq_of_beq hb).symm
  space_same := fun a c _ h => by rw [← asciiSpace_toLower c, ← asciiSpace_toLower a, eq_of_beq h]
  word_same := fun a c _ h => by rw [← asciiWord_toLower c, ← asciiWord_toLower a, eq_of_beq h]
  space_ascii := by
    intro c hlow _
    rw [asciiSpace, decide_eq_false (p := c.val ≤ 13), Bool.and_false, Bool.or_false]
    intro hle
    rw [UInt32.le_iff_toNat_le] at hlow hle
    exact absurd (Nat.le_trans hlow hle) (by decide)
  word_ascii := fun _ _ => rfl

/-! ## What redaction leaves -/

section Redact

variable (chars : Alphabet)

theorem toList_replace (pattern : Pattern Char) (text : String) :
    (replace chars pattern text).toList = pattern.replace chars.word id replacement.toList text.toList := by
  rw [replace, String.toList_ofList]

theorem toList_redact (text : String) : (redact chars text none).toList =
    Pattern.replaceAll chars.word id replacement.toList chars.defaults text.toList := by
  have hfold : ∀ (patterns : List (Pattern Char)) (text : String),
      (patterns.foldl (fun text pattern => replace chars pattern text) text).toList =
        Pattern.replaceAll chars.word id replacement.toList patterns text.toList := by
    intro patterns
    induction patterns with
    | nil => exact fun _ => rfl
    | cons pattern patterns ih =>
        intro text
        rw [List.foldl_cons, ih, toList_replace]
        rfl
  exact hfold chars.defaults text

/-- The redacted text, character by character. -/
theorem redact_remains (text : String) : (redact chars text none).toList = (remains chars text.toList).map Prod.fst := by
  rw [toList_redact, remains, Pattern.trace_text (Alphabet.orderly chars) Alphabet.inert_defaults]

/-- **The redacted text has no match of any of the patterns.** -/
theorem redact_clean (text : String) : ∀ pattern ∈ chars.defaults,
    pattern.isMatch chars.word none (redact chars text none).toList = false := by
  intro pattern hpattern
  rw [toList_redact]
  rcases List.mem_cons.mp hpattern with rfl | htail
  · exact (Alphabet.orderly chars).not_isMatch_first Alphabet.inert_defaults _ rfl (Alphabet.foremost_keyValue chars)
  · exact (Alphabet.orderly chars).not_isMatch_later Alphabet.inert_defaults _ htail

theorem replace_of_not_isMatch {pattern : Pattern Char} {text : String}
    (h : pattern.isMatch chars.word none text.toList = false) : replace chars pattern text = text := by
  have hsplit : pattern.split chars.word id none 0 text.toList = [text.toList] :=
    Pattern.split_of_not_isMatch (by rw [List.map_id]; exact h)
  rw [replace, Pattern.replace, hsplit, List.intercalate_singleton, String.ofList_toList]

theorem redact_of_clean {text : String}
    (h : ∀ pattern ∈ chars.defaults, pattern.isMatch chars.word none text.toList = false) :
    redact chars text none = text := by
  have hfold : ∀ patterns : List (Pattern Char),
      (∀ pattern ∈ patterns, pattern.isMatch chars.word none text.toList = false) →
        patterns.foldl (fun text pattern => replace chars pattern text) text = text := by
    intro patterns hpatterns
    induction patterns with
    | nil => rfl
    | cons pattern patterns ih =>
        obtain ⟨hfirst, hrest⟩ := List.forall_mem_cons.mp hpatterns
        rw [List.foldl_cons, replace_of_not_isMatch chars hfirst, ih hrest]
  exact hfold chars.defaults h

/-- **Redacting a redacted text changes nothing.** -/
theorem redact_redact (text : String) : redact chars (redact chars text none) none = redact chars text none :=
  redact_of_clean chars (redact_clean chars text)

/-- The text has no match of a pattern. -/
def Clean (text : String) : Prop := ∀ pattern ∈ chars.defaults, pattern.isMatch chars.word none text.toList = false

theorem clean_empty : Clean chars "" := fun _ hpattern =>
  Option.isSome_eq_false_iff.mpr (Option.isNone_iff_eq_none.mpr
    (Pattern.first_of_ends_nil ((Alphabet.orderly chars).ends_nil hpattern)))

/-- A match in the texts put together that begins in one of them and ends in a later one. -/
def Crosses (texts : List String) : Prop := Pattern.Crosses chars.word chars.defaults (texts.map String.toList)

/-- **Clean texts are clean together just where no match runs over the end of one of them.** -/
theorem clean_join_iff {texts : List String} (h : ∀ text ∈ texts, Clean chars text) :
    Clean chars (String.join texts) ↔ ¬ Crosses chars texts := by
  have hparts : ∀ part ∈ texts.map String.toList, ∀ pattern ∈ chars.defaults,
      pattern.isMatch chars.word none part = false := List.forall_mem_map.mpr h
  rw [Crosses, ← (Alphabet.orderly chars).isMatch_flatten hparts, Clean, String.toList_join, List.flatMap_def]

/-! ## Which secrets are gone -/

theorem Found.bounds {text : List Char} {k i e : Nat} (h : Found chars text k i e) : i < e ∧ e ≤ text.length := by
  obtain ⟨pattern, n, hget, hfirst, rfl⟩ := h
  obtain ⟨hle, hmatch, _⟩ := Pattern.first_spec hfirst
  have hpos : 0 < n := by
    rcases Nat.eq_zero_or_pos n with rfl | hpos
    · rw [List.take_zero] at hmatch
      exact absurd hmatch ((Alphabet.orderly chars).nonempty pattern (List.mem_of_getElem? hget))
    · exact hpos
  rw [List.length_drop] at hle
  omega

/-- **A character of the text is gone where a match that stands has it**: one that no match overlaps that stands and
is of an earlier pattern, or of the same pattern and begins further left. -/
theorem gone_iff {text : List Char} {x : Nat} (hx : x < text.length) :
    (∀ c, (c, some x) ∉ remains chars text) ↔
      ∃ k i e, i ≤ x ∧ x < e ∧ Spans.Stands (Pattern.Full chars.word chars.defaults text) k i e := by
  have horderly := Alphabet.orderly chars
  have hkept : (∀ c, (c, some x) ∉ remains chars text) ↔
      ¬ Spans.Kept (Pattern.hit chars.word chars.defaults text) text.length chars.defaults.length x := by
    rw [remains, ← Pattern.mem_trace horderly Alphabet.inert_defaults text x, not_exists]
  rw [hkept, Spans.not_kept_iff (horderly.finds text) hx]
  constructor
  · rintro ⟨k, _, i, e, hstands⟩
    exact ⟨k, i, e, hstands⟩
  · rintro ⟨k, i, e, hix, hxe, hstands⟩
    obtain ⟨⟨_, hget, _⟩, _⟩ := Spans.stands_iff.mp hstands
    exact ⟨k, (List.getElem?_eq_some_iff.mp hget).1, i, e, hix, hxe, hstands⟩

/-- **A text is redacted as it should be exactly where every character of a secret is in a match that stands.** -/
theorem redact_covers_iff (text : String) : Covers chars text ↔
    ∀ x, Secret chars text.toList x → ∃ k i e, i ≤ x ∧ x < e ∧
      Spans.Stands (Pattern.Full chars.word chars.defaults text.toList) k i e := by
  have hlength : ∀ x, Secret chars text.toList x → x < text.toList.length := by
    rintro x ⟨k, i, e, hfound, _, hx⟩
    exact Nat.lt_of_lt_of_le hx (hfound.bounds chars).2
  constructor
  · exact fun h x hx => (gone_iff chars (hlength x hx)).mp (h.covered x hx)
  · exact fun h => ⟨fun x hx => (gone_iff chars (hlength x hx)).mpr (h x hx), redact_clean chars text,
      redact_redact chars text⟩

/-- The key takes the word `Bearer` for its value, and what comes after it is no match any more. -/
theorem bearer_token_remains : ¬ Covers asciiAlphabet "token: Bearer abc" := by
  intro h
  have hfound : Found asciiAlphabet "token: Bearer abc".toList 1 7 17 :=
    ⟨asciiAlphabet.bearerPattern, 10, rfl, by decide +kernel, rfl⟩
  have hsecret : Secret asciiAlphabet "token: Bearer abc".toList 14 :=
    ⟨1, 7, 17, hfound, by decide +kernel, by decide⟩
  have hleft : ('a', some 14) ∈ remains asciiAlphabet "token: Bearer abc".toList := by decide +kernel
  exact h.covered 14 hsecret 'a' hleft

end Redact

/-! ## Two engines -/

/-- Two engines have the same in their tables for a character. -/
structure SameFor (chars chars' : Alphabet) (c : Char) : Prop where
  same : ∀ a ∈ ascii, chars.same a c = chars'.same a c
  space : chars.space c = chars'.space c
  word : chars.word c = chars'.word c

section Engines

variable {chars chars' : Alphabet} {S : Char → Prop}

theorem among_eq (h : ∀ c, S c → SameFor chars chars' c) (p : Char → Bool) (c : Char) (hc : S c) :
    chars.among p c = chars'.among p c := by
  rw [Bool.eq_iff_iff, Alphabet.among_iff, Alphabet.among_iff]
  exact exists_congr fun a => and_congr_right fun ha => by rw [(h c hc).same a ha]

theorem alike_text (h : ∀ c, S c → SameFor chars chars' c) {word : String} (hword : word.toList.all ascii.contains = true) :
    (chars.text word).Alike S (chars'.text word) := by
  refine Regex.alike_literal (List.forall₂_map_left_iff.mpr (List.forall₂_map_right_iff.mpr ?_))
  refine List.forall₂_same.mpr fun a ha c hc => (h c hc).same a ?_
  exact List.contains_iff_mem.mp (List.all_eq_true.mp hword a ha)

theorem alike_optional {p q : Char → Bool} (h : ∀ c, S c → p c = q c) :
    (Regex.optional p).Alike S (Regex.optional q) := ⟨h, trivial⟩

theorem alike_defaults (h : ∀ c, S c → SameFor chars chars' c) :
    List.Forall₂ (Pattern.Alike S) chars.defaults chars'.defaults := by
  have hspace : ∀ c, S c → chars.space c = chars'.space c := fun c hc => (h c hc).space
  have hvalue : ∀ c, S c → (!chars.space c) = !chars'.space c := fun c hc => by rw [hspace c hc]
  have hset : ∀ p c, S c → chars.among p c = chars'.among p c := among_eq h
  have hequals : ∀ c, S c → chars.same '=' c = chars'.same '=' c := fun c hc => (h c hc).same '=' (by decide)
  have htext : ∀ word ∈ ["sk", "api", "key", "token", "secret", "password", "Bearer", "gh", "_", "sk-", "-----BEGIN ",
      "PRIVATE KEY", "-----"], (chars.text word).Alike S (chars'.text word) := by
    intro word hword
    have hall : ["sk", "api", "key", "token", "secret", "password", "Bearer", "gh", "_", "sk-", "-----BEGIN ",
        "PRIVATE KEY", "-----"].all (fun word => word.toList.all ascii.contains) = true := by decide
    exact alike_text h (List.all_eq_true.mp hall word hword)
  have hkey : chars.key.Alike S chars'.key :=
    ⟨htext "sk" (by simp), ⟨htext "api" (by simp), alike_optional (hset _), htext "key" (by simp)⟩,
      htext "token" (by simp), htext "secret" (by simp), htext "password" (by simp)⟩
  refine .cons ⟨rfl, hkey, ⟨rfl, hspace⟩, hset _, ⟨rfl, hspace⟩, rfl, hvalue⟩ ?_
  refine .cons ⟨rfl, htext "Bearer" (by simp), ⟨rfl, hspace⟩, ⟨rfl, hset _⟩, rfl, hequals⟩ ?_
  refine .cons ⟨rfl, htext "gh" (by simp), hset _, htext "_" (by simp), rfl, hset _⟩ ?_
  refine .cons ⟨rfl, htext "sk-" (by simp), rfl, hset _⟩ ?_
  exact .cons ⟨rfl, htext "-----BEGIN " (by simp), ⟨rfl, hset _⟩, htext "PRIVATE KEY" (by simp),
    htext "-----" (by simp)⟩ .nil

/-- **Engines whose tables agree on the characters of a text redact it alike.** -/
theorem redact_eq {text : String} (h : ∀ c ∈ text.toList ++ replacement.toList, SameFor chars chars' c) :
    redact chars text none = redact chars' text none := by
  refine String.toList_inj.mp ?_
  rw [toList_redact, toList_redact]
  exact Pattern.replaceAll_eq (fun c hc => (h c hc).word) (fun c hc => List.mem_append_right _ hc) (alike_defaults h)
    fun c hc => List.mem_append_left _ hc

end Engines

/-- An engine that takes some of the characters beyond ASCII for others. -/
def Alphabet.through (chars : Alphabet) (fold : Char → Char) (hfold : ∀ a, a.val < 128 → fold a = a) : Alphabet where
  same a c := chars.same (fold a) (fold c)
  space c := chars.space (fold c)
  word c := chars.word (fold c)
  same_self a := chars.same_self (fold a)
  same_apart a b c ha hb hac hbc := by
    rw [hfold a ha] at hac
    rw [hfold b hb] at hbc
    exact chars.same_apart a b (fold c) ha hb hac hbc
  space_same a c ha h := by
    rw [hfold a ha] at h ⊢
    exact chars.space_same a (fold c) ha h
  word_same a c ha h := by
    rw [hfold a ha] at h ⊢
    exact chars.word_same a (fold c) ha h
  space_ascii c hlow hhigh := by
    rw [hfold c (Nat.lt_trans hhigh (by decide))]
    exact chars.space_ascii c hlow hhigh
  word_ascii c h := by
    rw [hfold c h]
    exact chars.word_ascii c h

end AtlasFlow.Security
