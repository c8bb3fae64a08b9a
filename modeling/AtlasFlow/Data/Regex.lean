import Mathlib.Data.List.TakeWhile
import Mathlib.Data.List.Basic

/-!
# Regular expressions that are matched by backtracking

An expression is tried at the start of a text. What it finds is a list of lengths, in the order in which a
backtracking engine would try them, and the first one counts. A repetition is of one set of characters, and greedy.
-/

inductive Regex (σ : Type) where
  | nil
  | set (p : σ → Bool)
  | many (p : σ → Bool) (least : Nat)
  | seq (a b : Regex σ)
  | alt (a b : Regex σ)

namespace Regex

variable {σ : Type}

/-- A word, letter by letter. -/
def literal (word : List (σ → Bool)) : Regex σ := word.foldr (fun p r => .seq (.set p) r) .nil

/-- `r?` for a set. -/
def optional (p : σ → Bool) : Regex σ := .alt (.set p) .nil

/-- The lengths of the matches at the start of a text, the preferred one first. -/
def ends : Regex σ → List σ → List Nat
  | .nil, _ => [0]
  | .set _, [] => []
  | .set p, c :: _ => if p c then [1] else []
  | .many p least, text => (List.range ((text.takeWhile p).length + 1)).reverse.filter (least ≤ ·)
  | .seq a b, text => (a.ends text).flatMap fun n => (b.ends (text.drop n)).map (n + ·)
  | .alt a b, text => a.ends text ++ b.ends text

/-- The words of an expression. -/
def Matches : Regex σ → List σ → Prop
  | .nil, w => w = []
  | .set p, w => ∃ c, p c = true ∧ w = [c]
  | .many p least, w => least ≤ w.length ∧ ∀ c ∈ w, p c = true
  | .seq a b, w => ∃ u v, w = u ++ v ∧ a.Matches u ∧ b.Matches v
  | .alt a b, w => a.Matches w ∨ b.Matches w

/-- The characters of a word whose letters are all of one set. -/
theorem matches_literal_all {word : List (σ → Bool)} {p : σ → Bool} (h : ∀ q ∈ word, ∀ d, q d = true → p d = true)
    {w : List σ} (hw : (literal word).Matches w) : ∀ c ∈ w, p c = true := by
  induction word generalizing w with
  | nil =>
      rw [show w = [] from hw]
      exact fun c hc => absurd hc List.not_mem_nil
  | cons q word ih =>
      obtain ⟨hq, hrest⟩ := List.forall_mem_cons.mp h
      obtain ⟨u, v, rfl, ⟨d, hd, rfl⟩, hv⟩ := hw
      exact List.forall_mem_cons.mpr ⟨hq d hd, ih hrest hv⟩

/-! ## Lengths and words -/

theorem take_all_iff {p : σ → Bool} {text : List σ} {n : Nat} (hn : n ≤ text.length) :
    (∀ c ∈ text.take n, p c = true) ↔ n ≤ (text.takeWhile p).length := by
  induction text generalizing n with
  | nil =>
      cases Nat.le_zero.mp hn
      simp
  | cons c text ih =>
      cases n with
      | zero => simp
      | succ n =>
          rw [List.take_succ_cons, List.forall_mem_cons]
          by_cases hc : p c = true
          · rw [List.takeWhile_cons_of_pos hc, List.length_cons, ih (Nat.le_of_succ_le_succ hn)]
            simp [hc]
          · rw [List.takeWhile_cons_of_neg hc]
            simp [hc]

/-- The lengths are those of the prefixes that are words. -/
theorem mem_ends {r : Regex σ} {text : List σ} {n : Nat} :
    n ∈ r.ends text ↔ n ≤ text.length ∧ r.Matches (text.take n) := by
  induction r generalizing text n with
  | nil =>
      rw [ends, Matches, List.mem_singleton, List.take_eq_nil_iff]
      constructor
      · rintro rfl
        simp
      · rintro ⟨hn, rfl | rfl⟩
        · rfl
        · exact Nat.le_zero.mp hn
  | set p =>
      cases text with
      | nil => simp [ends, Matches]
      | cons c text =>
          rw [ends, Matches]
          constructor
          · intro h
            split at h
            · next hc =>
              cases List.mem_singleton.mp h
              exact ⟨by simp, c, hc, rfl⟩
            · exact absurd h List.not_mem_nil
          · rintro ⟨hn, d, hd, htake⟩
            cases n with
            | zero => cases htake
            | succ n =>
                rw [List.take_succ_cons, List.cons.injEq] at htake
                obtain ⟨rfl, htake⟩ := htake
                rw [if_pos hd, List.mem_singleton]
                rcases List.take_eq_nil_iff.mp htake with rfl | rfl
                · rfl
                · simp at hn
                  rw [hn]
  | many p least =>
      rw [ends, Matches, List.mem_filter, List.mem_reverse, List.mem_range, decide_eq_true_eq, Nat.lt_succ_iff]
      have hrun : (text.takeWhile p).length ≤ text.length := (List.takeWhile_prefix p).length_le
      constructor
      · rintro ⟨hn, hleast⟩
        have hle : n ≤ text.length := hn.trans hrun
        exact ⟨hle, by rw [List.length_take, Nat.min_eq_left hle]; exact hleast, (take_all_iff hle).mpr hn⟩
      · rintro ⟨hle, hleast, hall⟩
        rw [List.length_take, Nat.min_eq_left hle] at hleast
        exact ⟨(take_all_iff hle).mp hall, hleast⟩
  | seq a b iha ihb =>
      rw [ends, Matches, List.mem_flatMap]
      constructor
      · rintro ⟨m, hm, hn⟩
        obtain ⟨k, hk, rfl⟩ := List.mem_map.mp hn
        obtain ⟨hmle, hmatch⟩ := iha.mp hm
        obtain ⟨hkle, hrest⟩ := ihb.mp hk
        rw [List.length_drop] at hkle
        refine ⟨by omega, text.take m, (text.drop m).take k, ?_, hmatch, hrest⟩
        rw [List.take_add]
      · rintro ⟨hn, u, v, htake, hu, hv⟩
        have hlength : u.length + v.length = n := by
          rw [← List.length_append, ← htake, List.length_take, Nat.min_eq_left hn]
        have htext : text = u ++ (v ++ text.drop n) := by
          rw [← List.append_assoc, ← htake, List.take_append_drop]
        refine ⟨u.length, iha.mpr ⟨by omega, ?_⟩, List.mem_map.mpr ⟨v.length, ihb.mpr ⟨?_, ?_⟩, hlength⟩⟩
        · rw [htext, List.take_left']
          · exact hu
          · rfl
        · rw [List.length_drop]
          omega
        · rw [htext, List.drop_left' rfl, List.take_left' rfl]
          exact hv
  | alt a b iha ihb =>
      rw [ends, Matches, List.mem_append, iha, ihb]
      exact and_or_left.symm

/-- What the engine finds at the start of a text. -/
def first (r : Regex σ) (text : List σ) : Option Nat := (r.ends text).head?

theorem first_mem {r : Regex σ} {text : List σ} {n : Nat} (h : r.first text = some n) : n ∈ r.ends text :=
  List.mem_of_head? h

theorem first_eq_none {r : Regex σ} {text : List σ} : r.first text = none ↔ r.ends text = [] :=
  List.head?_eq_none_iff

/-- Where some prefix is a word, something is found. -/
theorem first_isSome {r : Regex σ} {text : List σ} {n : Nat} (h : n ∈ r.ends text) : ∃ m, r.first text = some m := by
  cases hfirst : r.first text with
  | none =>
      rw [first_eq_none.mp hfirst] at h
      exact absurd h List.not_mem_nil
  | some m => exact ⟨m, rfl⟩

/-! ## Where a word can begin -/

/-- Every word begins with a character of the set. -/
def Opens (r : Regex σ) (p : σ → Bool) : Prop := ∀ w, r.Matches w → ∃ c u, w = c :: u ∧ p c = true

theorem opens_set {p q : σ → Bool} (h : ∀ c, p c = true → q c = true) : (set p).Opens q := by
  rintro w ⟨c, hc, rfl⟩
  exact ⟨c, [], rfl, h c hc⟩

theorem opens_many {p q : σ → Bool} {least : Nat} (hleast : 0 < least) (h : ∀ c, p c = true → q c = true) :
    (many p least).Opens q := by
  rintro w ⟨hlength, hall⟩
  cases w with
  | nil => exact absurd hlength (Nat.not_le.mpr hleast)
  | cons c u => exact ⟨c, u, rfl, h c (hall c List.mem_cons_self)⟩

theorem Opens.seq {a : Regex σ} {p : σ → Bool} (h : a.Opens p) (b : Regex σ) : (Regex.seq a b).Opens p := by
  rintro w ⟨u, v, rfl, hu, _⟩
  obtain ⟨c, rest, rfl, hc⟩ := h u hu
  exact ⟨c, rest ++ v, rfl, hc⟩

theorem Opens.alt {a b : Regex σ} {p : σ → Bool} (ha : a.Opens p) (hb : b.Opens p) : (Regex.alt a b).Opens p := by
  rintro w (h | h)
  · exact ha w h
  · exact hb w h

theorem Opens.mono {r : Regex σ} {p q : σ → Bool} (h : r.Opens p) (hpq : ∀ c, p c = true → q c = true) : r.Opens q := by
  intro w hw
  obtain ⟨c, u, hcons, hc⟩ := h w hw
  exact ⟨c, u, hcons, hpq c hc⟩

/-- Nothing is found before a character that begins no word. -/
theorem Opens.ends_eq_nil {r : Regex σ} {p : σ → Bool} (h : r.Opens p) {c : σ} (hc : p c = false) (text : List σ) :
    r.ends (c :: text) = [] := by
  refine List.eq_nil_iff_forall_not_mem.mpr fun n hn => ?_
  obtain ⟨_, hmatch⟩ := mem_ends.mp hn
  obtain ⟨d, u, htake, hd⟩ := h _ hmatch
  cases n with
  | zero => cases htake
  | succ n =>
      rw [List.take_succ_cons, List.cons.injEq] at htake
      rw [htake.1, hd] at hc
      cases hc

theorem Opens.ends_nil {r : Regex σ} {p : σ → Bool} (h : r.Opens p) : r.ends [] = [] := by
  refine List.eq_nil_iff_forall_not_mem.mpr fun n hn => ?_
  obtain ⟨_, hmatch⟩ := mem_ends.mp hn
  obtain ⟨d, u, htake, _⟩ := h _ hmatch
  rw [List.take_nil] at htake
  cases htake

theorem Opens.not_matches_nil {r : Regex σ} {p : σ → Bool} (h : r.Opens p) : ¬ r.Matches [] := by
  intro hmatch
  obtain ⟨c, u, hcons, _⟩ := h [] hmatch
  cases hcons

/-! ## The longest match -/

/-- All that can be found at the start of a text has one length. -/
def Exact (r : Regex σ) : Prop := ∀ text, ∀ m ∈ r.ends text, ∀ n ∈ r.ends text, m = n

/-- Of what can be found at the start of a text, the engine finds the longest. -/
def Longest (r : Regex σ) : Prop := ∀ text n, r.first text = some n → ∀ m ∈ r.ends text, m ≤ n

theorem Exact.longest {r : Regex σ} (h : r.Exact) : r.Longest :=
  fun text _ hfirst m hm => (h text m hm _ (first_mem hfirst)).le

theorem exact_nil : (nil : Regex σ).Exact := by
  intro text m hm n hn
  rw [List.mem_singleton.mp hm, List.mem_singleton.mp hn]

theorem exact_set (p : σ → Bool) : (set p).Exact := by
  intro text m hm n hn
  obtain ⟨hmle, c, _, hc⟩ := mem_ends.mp hm
  obtain ⟨hnle, d, _, hd⟩ := mem_ends.mp hn
  have hmlength := congrArg List.length hc
  have hnlength := congrArg List.length hd
  rw [List.length_take, Nat.min_eq_left hmle] at hmlength
  rw [List.length_take, Nat.min_eq_left hnle] at hnlength
  exact hmlength.trans hnlength.symm

theorem Exact.seq {a b : Regex σ} (ha : a.Exact) (hb : b.Exact) : (Regex.seq a b).Exact := by
  intro text m hm n hn
  obtain ⟨i, hi, hm⟩ := List.mem_flatMap.mp hm
  obtain ⟨j, hj, hn⟩ := List.mem_flatMap.mp hn
  cases ha text i hi j hj
  obtain ⟨k, hk, rfl⟩ := List.mem_map.mp hm
  obtain ⟨l, hl, rfl⟩ := List.mem_map.mp hn
  rw [hb _ k hk l hl]

theorem exact_literal (word : List (σ → Bool)) : (literal word).Exact := by
  induction word with
  | nil => exact exact_nil
  | cons p word ih => exact (exact_set p).seq ih

/-- At the start of a text at most one of the two is found. -/
def Apart (a b : Regex σ) : Prop := ∀ text, a.ends text = [] ∨ b.ends text = []

theorem Opens.apart {a b : Regex σ} {p q : σ → Bool} (ha : a.Opens p) (hb : b.Opens q)
    (h : ∀ c, p c = true → q c = false) : a.Apart b := by
  intro text
  cases text with
  | nil => exact Or.inl ha.ends_nil
  | cons c text =>
      by_cases hc : p c = true
      · exact Or.inr (hb.ends_eq_nil (h c hc) text)
      · exact Or.inl (ha.ends_eq_nil (Bool.eq_false_iff.mpr hc) text)

theorem Apart.alt {a b c : Regex σ} (hb : a.Apart b) (hc : a.Apart c) : a.Apart (Regex.alt b c) := by
  intro text
  rw [ends]
  rcases hb text with hnil | hnil
  · exact Or.inl hnil
  · rcases hc text with hnil' | hnil'
    · exact Or.inl hnil'
    · exact Or.inr (by rw [hnil, hnil', List.append_nil])

theorem ends_seq_of_left {a : Regex σ} {text : List σ} (h : a.ends text = []) (b : Regex σ) :
    (Regex.seq a b).ends text = [] := by
  rw [ends, h, List.flatMap_nil]

theorem ends_set_seq_of_right {b : Regex σ} {text : List σ} (h : b.ends text = []) (p : σ → Bool) (c : σ) :
    (Regex.seq (.set p) b).ends (c :: text) = [] := by
  rw [ends, List.flatMap_eq_nil_iff]
  intro n hn
  rw [ends] at hn
  split at hn
  · rw [List.mem_singleton.mp hn, List.drop_succ_cons, List.drop_zero, h, List.map_nil]
  · exact absurd hn List.not_mem_nil

/-- Two words that differ after their first letters. -/
theorem Apart.set_seq {a b : Regex σ} (h : a.Apart b) (p q : σ → Bool) :
    (Regex.seq (.set p) a).Apart (Regex.seq (.set q) b) := by
  intro text
  cases text with
  | nil => exact Or.inl rfl
  | cons c text =>
      rcases h text with hends | hends
      · exact Or.inl (ends_set_seq_of_right hends p c)
      · exact Or.inr (ends_set_seq_of_right hends q c)

theorem Exact.alt {a b : Regex σ} (ha : a.Exact) (hb : b.Exact) (h : a.Apart b) : (Regex.alt a b).Exact := by
  intro text m hm n hn
  rw [ends] at hm hn
  rcases h text with hnil | hnil
  · rw [hnil, List.nil_append] at hm hn
    exact hb text m hm n hn
  · rw [hnil, List.append_nil] at hm hn
    exact ha text m hm n hn

/-- A character that may be left out, before something that does not begin with it. -/
theorem exact_optional_seq {p : σ → Bool} {b : Regex σ} (hb : b.Opens fun c => !p c) (hexact : b.Exact) :
    (Regex.seq (optional p) b).Exact := by
  have happly : ∀ text, (Regex.seq (optional p) b).ends text =
      (Regex.alt (Regex.seq (.set p) b) b).ends text := by
    intro text
    have hnil : (b.ends text).map (0 + ·) = b.ends text := by simp
    rw [ends, optional, ends, ends, List.flatMap_append, ends, ends, List.flatMap_singleton, List.drop_zero, hnil]
  intro text m hm n hn
  rw [happly] at hm hn
  have hopens : (Regex.seq (.set p) b).Opens p := (opens_set fun _ hc => hc).seq b
  exact ((exact_set p).seq hexact).alt hexact (hopens.apart hb fun c hc => by simp [hc]) text m hm n hn

theorem head?_flatMap_of_forall_eq {xs : List Nat} {n : Nat} (h : ∀ x ∈ xs, x = n) (hne : xs ≠ []) {f : Nat → List Nat} :
    (xs.flatMap f).head? = (f n).head? := by
  induction xs with
  | nil => exact absurd rfl hne
  | cons x xs ih =>
      cases h x List.mem_cons_self
      rw [List.flatMap_cons, List.head?_append]
      cases hhead : (f n).head? with
      | some m => rfl
      | none =>
          rw [Option.none_or]
          by_cases hxs : xs = []
          · rw [hxs]
            rfl
          · rw [ih (fun y hy => h y (List.mem_cons_of_mem _ hy)) hxs, hhead]

theorem Exact.seq_longest {a b : Regex σ} (ha : a.Exact) (hb : b.Longest) : (Regex.seq a b).Longest := by
  intro text n hfirst m hm
  obtain ⟨i, hi, hm⟩ := List.mem_flatMap.mp hm
  obtain ⟨k, hk, rfl⟩ := List.mem_map.mp hm
  have hall : ∀ x ∈ a.ends text, x = i := fun x hx => ha text x hx i hi
  rw [first, ends, head?_flatMap_of_forall_eq hall (List.ne_nil_of_mem hi), List.head?_map] at hfirst
  obtain ⟨l, hl, rfl⟩ := Option.map_eq_some_iff.mp hfirst
  exact Nat.add_le_add_left (hb _ l hl k hk) i

/-! ### Repetitions -/

section Many

variable {p q : σ → Bool} {least : Nat} {text : List σ}

theorem ends_many (p : σ → Bool) (least : Nat) (text : List σ) :
    (many p least).ends text =
      (List.range ((text.takeWhile p).length + 1)).reverse.filter (least ≤ ·) := rfl

theorem mem_ends_many {n : Nat} : n ∈ (many p least).ends text ↔ n ≤ (text.takeWhile p).length ∧ least ≤ n := by
  rw [ends_many, List.mem_filter, List.mem_reverse, List.mem_range, decide_eq_true_eq, Nat.lt_succ_iff]

/-- The whole run is tried first. -/
theorem ends_many_cons (h : least ≤ (text.takeWhile p).length) :
    ∃ shorter, (many p least).ends text = (text.takeWhile p).length :: shorter ∧
      ∀ n ∈ shorter, n < (text.takeWhile p).length := by
  rw [ends_many, List.range_succ, List.reverse_append, List.reverse_singleton, List.singleton_append,
    List.filter_cons_of_pos (by simpa using h)]
  refine ⟨_, rfl, fun n hn => ?_⟩
  simpa using List.mem_of_mem_filter hn

theorem longest_many (p : σ → Bool) (least : Nat) : (many p least).Longest := by
  intro text n hfirst m hm
  obtain ⟨hmle, hleast⟩ := mem_ends_many.mp hm
  obtain ⟨shorter, hends, _⟩ := ends_many_cons (hleast.trans hmle)
  rw [first, hends, List.head?_cons] at hfirst
  cases hfirst
  exact hmle

/-- After part of a run the next character is one of the set. -/
theorem drop_of_lt_run {n : Nat} (h : n < (text.takeWhile p).length) : ∃ c rest, text.drop n = c :: rest ∧ p c = true := by
  have hprefix := List.takeWhile_prefix (l := text) p
  have hn : n < text.length := lt_of_lt_of_le h hprefix.length_le
  refine ⟨text[n], text.drop (n + 1), List.drop_eq_getElem_cons hn, ?_⟩
  rw [← hprefix.getElem h]
  exact List.all_eq_true.mp (List.all_takeWhile) _ (List.getElem_mem h)

/-- Before something that begins outside the set, the whole run is taken. -/
theorem ends_many_seq {b : Regex σ} (hb : b.Opens fun c => !p c) :
    (seq (many p least) b).ends text = if least ≤ (text.takeWhile p).length then
      (b.ends (text.drop (text.takeWhile p).length)).map ((text.takeWhile p).length + ·) else [] := by
  rw [ends]
  split
  · next h =>
    obtain ⟨shorter, hends, hshorter⟩ := ends_many_cons h
    rw [hends, List.flatMap_cons, List.flatMap_eq_nil_iff.mpr, List.append_nil]
    intro n hn
    obtain ⟨c, rest, hdrop, hc⟩ := drop_of_lt_run (hshorter n hn)
    rw [hdrop, hb.ends_eq_nil (by simp [hc])]
    rfl
  · next h =>
    have hnil : (many p least).ends text = [] := by
      refine List.eq_nil_iff_forall_not_mem.mpr fun n hn => h ?_
      obtain ⟨hle, hleast⟩ := mem_ends_many.mp hn
      exact hleast.trans hle
    rw [hnil]
    rfl

theorem exact_many_seq {b : Regex σ} (hb : b.Opens fun c => !p c) (hexact : b.Exact) (least : Nat) :
    (seq (many p least) b).Exact := by
  intro text m hm n hn
  rw [ends_many_seq hb] at hm hn
  split at hm
  · obtain ⟨k, hk, rfl⟩ := List.mem_map.mp hm
    rw [if_pos ‹_›] at hn
    obtain ⟨l, hl, rfl⟩ := List.mem_map.mp hn
    rw [hexact _ k hk l hl]
  · exact absurd hm List.not_mem_nil

theorem longest_many_seq {b : Regex σ} (hb : b.Opens fun c => !p c) (hlongest : b.Longest) (least : Nat) :
    (seq (many p least) b).Longest := by
  intro text n hfirst m hm
  rw [first, ends_many_seq hb] at hfirst
  rw [ends_many_seq hb] at hm
  split at hm
  · rw [if_pos ‹_›, List.head?_map] at hfirst
    obtain ⟨l, hl, rfl⟩ := Option.map_eq_some_iff.mp hfirst
    obtain ⟨k, hk, rfl⟩ := List.mem_map.mp hm
    exact Nat.add_le_add_left (hlongest _ l hl k hk) _
  · exact absurd hm List.not_mem_nil

/-- A run, and then a run of other characters that may be empty. -/
theorem longest_many_many (hdisjoint : ∀ c, p c = true → q c = false) (least : Nat) :
    (seq (many p least) (many q 0)).Longest := by
  intro text n hfirst m hm
  rw [ends] at hm
  obtain ⟨i, hi, hm⟩ := List.mem_flatMap.mp hm
  obtain ⟨k, hk, rfl⟩ := List.mem_map.mp hm
  obtain ⟨hile, hleast⟩ := mem_ends_many.mp hi
  obtain ⟨shorter, hends, _⟩ := ends_many_cons (hleast.trans hile)
  have hzero : 0 ≤ ((text.drop (text.takeWhile p).length).takeWhile q).length := Nat.zero_le _
  obtain ⟨others, hothers, _⟩ := ends_many_cons hzero
  rw [first, ends, hends, List.flatMap_cons, hothers, List.map_cons, List.cons_append, List.head?_cons] at hfirst
  cases hfirst
  rcases Nat.lt_or_ge i (text.takeWhile p).length with hlt | hge
  · obtain ⟨c, rest, hdrop, hc⟩ := drop_of_lt_run hlt
    rw [hdrop] at hk
    obtain ⟨hkle, _⟩ := mem_ends_many.mp hk
    rw [List.takeWhile_cons_of_neg (by simp [hdisjoint c hc])] at hkle
    rw [Nat.le_zero.mp hkle]
    omega
  · cases Nat.le_antisymm hile hge
    exact Nat.add_le_add_left (mem_ends_many.mp hk).1 _

/-- A run that ends in a given word of the same characters, and then something that begins outside the set. -/
theorem exact_many_within {a b : Regex σ} (ha : ∀ w, a.Matches w → ∀ c ∈ w, p c = true)
    (hb : b.Opens fun c => !p c) (hexact : b.Exact) (least : Nat) : (seq (many p least) (seq a b)).Exact := by
  have hlength : ∀ text n, n ∈ (seq (many p least) (seq a b)).ends text →
      ∃ k ∈ b.ends (text.drop (text.takeWhile p).length), n = (text.takeWhile p).length + k := by
    intro text n hn
    rw [ends] at hn
    obtain ⟨i, hi, hn⟩ := List.mem_flatMap.mp hn
    obtain ⟨l, hl, rfl⟩ := List.mem_map.mp hn
    rw [ends] at hl
    obtain ⟨j, hj, hl⟩ := List.mem_flatMap.mp hl
    obtain ⟨k, hk, rfl⟩ := List.mem_map.mp hl
    obtain ⟨hjle, hmatch⟩ := mem_ends.mp hj
    rw [List.drop_drop] at hk
    rw [List.length_drop] at hjle
    have hile := (mem_ends_many.mp hi).1
    have hrun := (List.takeWhile_prefix (l := text) p).length_le
    -- the run reaches over the word, and stops where the rest begins
    have hall : ∀ c ∈ text.take (i + j), p c = true := by
      rw [List.take_add]
      refine List.forall_mem_append.mpr ⟨(take_all_iff (hile.trans hrun)).mpr hile, ha _ hmatch⟩
    have hge : i + j ≤ (text.takeWhile p).length := (take_all_iff (by omega)).mp hall
    have hstop : ¬ i + j < (text.takeWhile p).length := by
      intro hlt
      obtain ⟨c, rest, hdrop, hc⟩ := drop_of_lt_run hlt
      rw [hdrop, hb.ends_eq_nil (by simp [hc])] at hk
      exact List.not_mem_nil hk
    have heq : i + j = (text.takeWhile p).length := by omega
    rw [heq] at hk
    exact ⟨k, hk, by omega⟩
  intro text m hm n hn
  obtain ⟨k, hk, rfl⟩ := hlength text m hm
  obtain ⟨l, hl, rfl⟩ := hlength text n hn
  rw [hexact _ k hk l hl]

end Many

/-! ## How a word can end -/

theorem matches_seq_assoc {a b c : Regex σ} {w : List σ} :
    (seq (seq a b) c).Matches w ↔ (seq a (seq b c)).Matches w := by
  constructor
  · rintro ⟨_, z, rfl, ⟨x, y, rfl, hx, hy⟩, hz⟩
    exact ⟨x, y ++ z, List.append_assoc _ _ _, hx, y, z, rfl, hy, hz⟩
  · rintro ⟨x, _, rfl, hx, y, z, rfl, hy, hz⟩
    exact ⟨x ++ y, z, (List.append_assoc _ _ _).symm, ⟨x, y, rfl, hx, hy⟩, hz⟩

/-- Every word can have the character after it, or ends outside the set. -/
def Closed (r : Regex σ) (c : σ) (p : σ → Bool) : Prop :=
  ∀ w, r.Matches w → r.Matches (w ++ [c]) ∨ ∃ u d, w = u ++ [d] ∧ p d = false

section Closed

variable {c : σ} {p q : σ → Bool}

theorem closed_many (hc : q c = true) (least : Nat) : (many q least).Closed c p := by
  rintro w ⟨hlength, hall⟩
  refine Or.inl ⟨?_, List.forall_mem_append.mpr ⟨hall, by simpa using hc⟩⟩
  rw [List.length_append]
  exact Nat.le_add_right_of_le hlength

theorem Closed.seq {b : Regex σ} (h : b.Closed c p) (a : Regex σ) : (Regex.seq a b).Closed c p := by
  rintro w ⟨u, v, rfl, hu, hv⟩
  rcases h v hv with hnext | ⟨v', d, rfl, hd⟩
  · exact Or.inl ⟨u, v ++ [c], List.append_assoc _ _ _, hu, hnext⟩
  · exact Or.inr ⟨u ++ v', d, (List.append_assoc _ _ _).symm, hd⟩

theorem closed_literal {word : List (σ → Bool)} (hne : word ≠ []) (h : ∀ q ∈ word, ∀ d, q d = true → p d = false) :
    (literal word).Closed c p := by
  induction word with
  | nil => exact absurd rfl hne
  | cons q word ih =>
      obtain ⟨hq, hrest⟩ := List.forall_mem_cons.mp h
      by_cases hword : word = []
      · subst hword
        rintro w ⟨u, v, rfl, ⟨d, hd, rfl⟩, rfl⟩
        exact Or.inr ⟨[], d, rfl, hq d hd⟩
      · exact (ih hword hrest).seq _

/-- A run that may follow, of characters outside the set. -/
theorem Closed.seq_many {a : Regex σ} (h : a.Closed c p) (hq : ∀ d, q d = true → p d = false) :
    (Regex.seq a (many q 0)).Closed c p := by
  rintro w ⟨u, v, rfl, hu, _, hall⟩
  rcases List.eq_nil_or_concat v with rfl | ⟨v, d, rfl⟩
  · rw [List.append_nil]
    rcases h u hu with hnext | hends
    · exact Or.inl ⟨u ++ [c], [], (List.append_nil _).symm, hnext, Nat.zero_le _, fun d hd => absurd hd List.not_mem_nil⟩
    · exact Or.inr hends
  · rw [List.concat_eq_append] at hall ⊢
    have hd : q d = true := hall d (List.mem_append_right _ (List.mem_singleton_self d))
    exact Or.inr ⟨u ++ v, d, (List.append_assoc _ _ _).symm, hq d hd⟩

end Closed

/-! ## Characters in no word -/

/-- The character is in none of the sets of the expression. -/
def Rejects (c : σ) : Regex σ → Prop
  | .nil => True
  | .set p => p c = false
  | .many p _ => p c = false
  | .seq a b => a.Rejects c ∧ b.Rejects c
  | .alt a b => a.Rejects c ∧ b.Rejects c

theorem rejects_literal {word : List (σ → Bool)} {c : σ} (h : ∀ q ∈ word, q c = false) :
    (literal word).Rejects c := by
  induction word with
  | nil => exact trivial
  | cons q word ih => exact ⟨h q List.mem_cons_self, ih fun r hr => h r (List.mem_cons_of_mem _ hr)⟩

theorem takeWhile_append_of_rejects {p : σ → Bool} {c : σ} (hc : p c = false) (text after : List σ) :
    (text ++ c :: after).takeWhile p = text.takeWhile p := by
  induction text with
  | nil => rw [List.nil_append, List.takeWhile_cons_of_neg (by simp [hc]), List.takeWhile_nil]
  | cons d text ih =>
      rw [List.cons_append]
      by_cases hd : p d = true
      · rw [List.takeWhile_cons_of_pos hd, List.takeWhile_cons_of_pos hd, ih]
      · rw [List.takeWhile_cons_of_neg hd, List.takeWhile_cons_of_neg hd]

/-- Nothing is found beyond a character that is in no word. -/
theorem Rejects.ends_append {r : Regex σ} {c : σ} (h : r.Rejects c) (text after : List σ) :
    r.ends (text ++ c :: after) = r.ends text := by
  induction r generalizing text with
  | nil => rfl
  | set p =>
      have hc : p c = false := h
      cases text with
      | nil => simp [ends, hc]
      | cons d text => rfl
  | many p least => rw [ends, ends, takeWhile_append_of_rejects h]
  | seq a b iha ihb =>
      rw [ends, ends, iha h.1]
      refine List.flatMap_congr fun n hn => ?_
      have hle : n ≤ text.length := (mem_ends.mp hn).1
      rw [List.drop_append_of_le_length hle, ihb h.2]
  | alt a b iha ihb => rw [ends, ends, iha h.1, ihb h.2]

/-! ## Two engines -/

/-- Two expressions of the same shape whose sets agree on the characters of `S`. -/
def Alike (S : σ → Prop) : Regex σ → Regex σ → Prop
  | .nil, .nil => True
  | .set p, .set q => ∀ c, S c → p c = q c
  | .many p least, .many q least' => least = least' ∧ ∀ c, S c → p c = q c
  | .seq a b, .seq a' b' => Alike S a a' ∧ Alike S b b'
  | .alt a b, .alt a' b' => Alike S a a' ∧ Alike S b b'
  | _, _ => False

theorem takeWhile_congr {p q : σ → Bool} {text : List σ} (h : ∀ c ∈ text, p c = q c) :
    text.takeWhile p = text.takeWhile q := by
  induction text with
  | nil => rfl
  | cons c text ih =>
      obtain ⟨hc, hrest⟩ := List.forall_mem_cons.mp h
      rw [List.takeWhile_cons, List.takeWhile_cons, hc, ih hrest]

/-- They find the same in a text of such characters. -/
theorem Alike.ends_eq {S : σ → Prop} {r r' : Regex σ} (h : r.Alike S r') {text : List σ} (htext : ∀ c ∈ text, S c) :
    r.ends text = r'.ends text := by
  induction r generalizing r' text with
  | nil =>
      cases r' with
      | nil => rfl
      | set | many | seq | alt => exact h.elim
  | set p =>
      cases r' with
      | set q =>
          cases text with
          | nil => rfl
          | cons c text => rw [ends, ends, h c (htext c List.mem_cons_self)]
      | nil | many | seq | alt => exact h.elim
  | many p least =>
      cases r' with
      | many q least' =>
          obtain ⟨rfl, hsets⟩ := h
          rw [ends, ends, takeWhile_congr fun c hc => hsets c (htext c hc)]
      | nil | set | seq | alt => exact h.elim
  | seq a b iha ihb =>
      cases r' with
      | seq a' b' =>
          rw [ends, ends, iha h.1 htext]
          exact List.flatMap_congr fun n _ => by rw [ihb h.2 fun c hc => htext c (List.mem_of_mem_drop hc)]
      | nil | set | many | alt => exact h.elim
  | alt a b iha ihb =>
      cases r' with
      | alt a' b' => rw [ends, ends, iha h.1 htext, ihb h.2 htext]
      | nil | set | many | seq => exact h.elim

theorem alike_literal {S : σ → Prop} {word word' : List (σ → Bool)}
    (h : List.Forall₂ (fun p q => ∀ c, S c → p c = q c) word word') : (literal word).Alike S (literal word') := by
  induction h with
  | nil => trivial
  | cons hp _ ih => exact ⟨hp, ih⟩

end Regex
