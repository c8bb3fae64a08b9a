import AtlasFlow.Reference.Verdicts

/-!
# Attaching evidence

`scripts/attach_evidence.py`: evidence for one gate is written into a goal file. The entries that name the gate
are taken out whole, and a new entry goes to the end.
-/

namespace AtlasFlow.Reference.AttachEvidence

open SqlValues (text)
open GoalFile

/-! ## The script -/

/-- `" — ".join(filter(None, (summary, reference)))`. -/
def detail (summary reference : String) : String :=
  " — ".intercalate ([summary, reference].filter (· ≠ ""))

def entryText (verdict : GateVerdict) (detail : String) : String :=
  if verdict ≠ .passed then s!"{text verdict}: {detail}" else detail

def entry (gate : GateKind) (verdict : GateVerdict) (detail : String) : Value :=
  .dict [(.str (text gate), .str (entryText verdict detail))]

/-- `isinstance(item, dict) and gate in item`. -/
def namesGate (gate : GateKind) : Value → Bool
  | .dict items => items.any fun item => item.1 = .str (text gate)
  | _ => false

/-- `attach`, from the mapping that the file holds. -/
def attach (today : String) (gate : GateKind) (verdict : GateVerdict) (reference summary : String)
    (data : Dict Key Value) : Except PyExn (Dict Key Value) := do
  let detail := detail summary reference
  let evidence ← Value.listOr (data.get? (.str "evidence"))
  let kept := evidence.filter fun item => !namesGate gate item
  let data := data.set (.str "evidence") (.list (kept ++ [entry gate verdict detail]))
  let history ← Value.listOr (data.get? (.str "history"))
  return data.set (.str "history")
    (.list (history ++ [.str s!"{today}: {text gate} gate {text verdict} — {detail}"]))

/-! ## What it should do -/

/-- An entry is about a gate: one of its keys reads as the gate. -/
def speaksOf (gate : GateKind) (entry : Value) : Bool := entry.items.any fun item => item.1.toText = text gate

/-- The gate is covered exactly if the verdict is a pass, one entry is about it, and the other gates stand
as they stood. -/
structure AffectsOnly (repr : Value → String) (gate : GateKind) (verdict : GateVerdict)
    (before after : Dict Key Value) : Prop where
  covered : standing repr after (text gate) = .covered ↔ verdict = .passed
  single : (declaredEntries after).countP (speaksOf gate) = 1
  others : ∀ other : GateKind, other ≠ gate →
    standing repr after (text other) = standing repr before (text other)

/-- When it does so: a pass does not read as a failure; what is kept does not speak of the gate under a key that
is no string; and what the removed entries say of another gate is not lost, for a kept entry fails that gate
too, or it is a pass and a kept entry covers that gate. -/
structure WellAttached (repr : Value → String) (gate : GateKind) (verdict : GateVerdict) (detail : String)
    (before : Dict Key Value) : Prop where
  detail : verdict = .passed → opensWithFailure detail = false
  keys : ∀ entry ∈ declaredEntries before, namesGate gate entry = false → speaksOf gate entry = false
  kept : ∀ removed ∈ declaredEntries before, namesGate gate removed = true →
    ∀ item ∈ removed.items, item.2.truthy = true → ∀ other : GateKind, other ≠ gate → item.1.toText = text other →
      let kept := (declaredEntries before).filter fun entry => !namesGate gate entry
      Leaves repr kept (text other) true ∨
        (declaresFailure repr item.2 = false ∧ Leaves repr kept (text other) false)

/-! ## The text of an entry -/

section Text

variable {repr : Value → String} {gate : GateKind} {verdict : GateVerdict} {detail : String}

theorem toList_entryText (h : verdict ≠ .passed) :
    (entryText verdict detail).toList = (text verdict).toList ++ ':' :: (' ' :: detail.toList) := by
  rw [entryText, if_pos h]
  simp only [toString, String.toList_append, List.append_assoc]
  rfl

/-- A verdict that is not a pass is read back from the text. -/
theorem opensWithFailure_entryText (h : verdict ≠ .passed) : opensWithFailure (entryText verdict detail) = true := by
  have hopens : OpensWith asciiLetters (entryText verdict detail).toList (text verdict).toList
      (':' :: (' ' :: detail.toList)) := by
    rw [toList_entryText h]
    refine ⟨?_, ?_, fun c cs hrest => ?_⟩
    · cases verdict <;> rfl
    · cases verdict with
      | passed => exact absurd rfl h
      | failed => decide
      | pending => decide
    · cases hrest
      rfl
  refine hopens.opensWithFailure_iff.mpr fun c cs hrest => ?_
  cases hrest
  rfl

theorem entryText_truthy (h : verdict = .passed → opensWithFailure detail = false) :
    (Value.str (entryText verdict detail)).truthy = true := by
  have hne : entryText verdict detail ≠ "" := by
    intro hempty
    by_cases hpassed : verdict = .passed
    · have hdetail := h hpassed
      rw [entryText, if_neg (not_not.mpr hpassed)] at hempty
      rw [hempty] at hdetail
      exact absurd hdetail (by decide)
    · have hlist := congrArg String.toList hempty
      rw [toList_entryText hpassed] at hlist
      cases (List.append_eq_nil_iff.mp hlist).2
  simpa [Value.truthy] using hne

end Text

/-! ## What the script leaves -/

section Attach

variable {repr : Value → String} {today reference summary : String} {gate : GateKind} {verdict : GateVerdict}
  {data after : Dict Key Value}

theorem attach_spec (h : attach today gate verdict reference summary data = .ok after) :
    ∃ evidence, Value.listOr (data.get? (.str "evidence")) = .ok evidence ∧
      after.get? (.str "evidence") = some (.list ((evidence.filter fun item => !namesGate gate item) ++
        [entry gate verdict (detail summary reference)])) ∧
      after.get? (.str "gates") = data.get? (.str "gates") := by
  unfold attach at h
  cases hevidence : Value.listOr (data.get? (.str "evidence")) with
  | error exn => simp [hevidence, bind, Except.bind] at h
  | ok evidence =>
      simp only [hevidence, bind, Except.bind] at h
      split at h
      · cases h
      · simp only [pure, Except.pure, Except.ok.injEq] at h
        subst h
        refine ⟨evidence, rfl, ?_, ?_⟩
        · simp [Dict.get?_set]
        · simp [Dict.get?_set]

/-- The gates that are required stay so. -/
theorem requiredNames_attach (h : attach today gate verdict reference summary data = .ok after) :
    requiredNames after = requiredNames data := by
  obtain ⟨evidence, -, -, hgates⟩ := attach_spec h
  rw [requiredNames, requiredNames, hgates]

/-- What iterating over a value yields, when it is no list: characters, keys and the like, but no mapping. -/
def YieldsScalars (data : Dict Key Value) : Prop :=
  ∀ scalar elements, data.get? (.str "evidence") = some (.other scalar (some elements)) →
    ∀ element ∈ elements, element.items = []

/-- What is listed are the declared entries, or nothing that says anything. -/
theorem listed_cases (hscalars : YieldsScalars data) {evidence : List Value}
    (h : Value.listOr (data.get? (.str "evidence")) = .ok evidence) :
    evidence = declaredEntries data ∨ (declaredEntries data = [] ∧ ∀ value ∈ evidence, value.items = []) := by
  unfold declaredEntries
  cases hvalue : data.get? (.str "evidence") with
  | none =>
      rw [hvalue] at h
      cases h
      exact .inl rfl
  | some value =>
      rw [hvalue] at h
      cases htruthy : value.truthy with
      | false =>
          simp only [Value.listOr, htruthy, Bool.not_false, if_true] at h
          cases h
          cases value with
          | list items => exact .inl (by simpa [Value.truthy] using htruthy)
          | _ => exact .inl rfl
      | true =>
          simp only [Value.listOr, htruthy, Bool.not_true, Bool.false_eq_true, if_false] at h
          cases value with
          | list items =>
              cases h
              exact .inl rfl
          | str s =>
              cases h
              exact .inr ⟨rfl, by simp [Value.items]⟩
          | dict items =>
              cases h
              refine .inr ⟨rfl, fun value hmem => ?_⟩
              obtain ⟨item, -, rfl⟩ := List.mem_map.mp hmem
              cases item.1 <;> rfl
          | other scalar elements =>
              cases elements with
              | none => cases h
              | some elements =>
                  rw [Except.ok.injEq] at h
                  exact .inr ⟨rfl, h ▸ hscalars scalar elements hvalue⟩

/-- The entries that are kept. -/
def keptEntries (gate : GateKind) (data : Dict Key Value) : List Value :=
  (declaredEntries data).filter fun entry => !namesGate gate entry

theorem leaves_of_silent {entries : List Value} (h : ∀ value ∈ entries, value.items = []) (name : String)
    (failure : Bool) : ¬ Leaves repr entries name failure := by
  rintro ⟨items, hitems, item, hitem, -⟩
  have hnil : items = [] := h _ hitems
  rw [hnil] at hitem
  cases hitem

theorem countP_of_silent {entries : List Value} (h : ∀ value ∈ entries, value.items = []) :
    entries.countP (speaksOf gate) = 0 := by
  rw [List.countP_eq_zero]
  intro value hvalue
  simp [speaksOf, h value hvalue]

/-- What is read from the file afterwards: the kept entries and the new one. -/
theorem declaredEntries_attach (repr : Value → String) (hscalars : YieldsScalars data)
    (h : attach today gate verdict reference summary data = .ok after) :
    (∀ name failure, Leaves repr (declaredEntries after) name failure ↔
        Leaves repr (keptEntries gate data) name failure ∨
          Leaves repr [entry gate verdict (detail summary reference)] name failure) ∧
      (declaredEntries after).countP (speaksOf gate) = (keptEntries gate data).countP (speaksOf gate) + 1 := by
  obtain ⟨evidence, hevidence, hafter, -⟩ := attach_spec h
  have hdeclared : declaredEntries after = (evidence.filter fun item => !namesGate gate item) ++
      [entry gate verdict (detail summary reference)] := by rw [declaredEntries, hafter]
  have hnew : speaksOf gate (entry gate verdict (detail summary reference)) = true := by
    simp [speaksOf, entry, Value.items, Key.toText]
  rw [hdeclared]
  simp only [leaves_append, List.countP_append, List.countP_singleton, hnew, if_true]
  obtain rfl | ⟨hnil, hsilent⟩ := listed_cases hscalars hevidence
  · exact ⟨fun _ _ => Iff.rfl, rfl⟩
  · have hkept : ∀ value ∈ evidence.filter fun item => !namesGate gate item, value.items = [] :=
      fun value hvalue => hsilent value (List.mem_of_mem_filter hvalue)
    rw [keptEntries, hnil, countP_of_silent hkept]
    refine ⟨fun name failure => or_congr_left ?_, rfl⟩
    exact iff_of_false (leaves_of_silent hkept name failure) leaves_nil

end Attach

/-! ## The gate itself -/

section Gate

variable {repr : Value → String} {gate other : GateKind} {verdict : GateVerdict} {detail : String}
  {data : Dict Key Value} {name : String} {failure : Bool}

theorem leaves_entry : Leaves repr [entry gate verdict detail] name failure ↔ text gate = name ∧
    (Value.str (entryText verdict detail)).truthy = true ∧ opensWithFailure (entryText verdict detail) = failure := by
  rw [entry, leaves_cons_dict]
  simp only [leaves_nil, or_false, List.mem_singleton, exists_eq_left]
  rfl

/-- What is kept says nothing of the gate, if it does not speak of it. -/
theorem not_leaves_kept (h : (keptEntries gate data).countP (speaksOf gate) = 0) :
    ¬ Leaves repr (keptEntries gate data) (text gate) failure := by
  rintro ⟨items, hitems, item, hitem, hname, -⟩
  refine List.countP_eq_zero.mp h _ hitems ?_
  exact List.any_eq_true.mpr ⟨item, hitem, by simpa using hname⟩

theorem countP_kept_eq_zero : (keptEntries gate data).countP (speaksOf gate) = 0 ↔
    ∀ entry ∈ declaredEntries data, namesGate gate entry = false → speaksOf gate entry = false := by
  rw [List.countP_eq_zero]
  simp only [keptEntries, List.mem_filter, Bool.not_eq_true', Bool.not_eq_true, and_imp]

/-- With nothing else about the gate, the new entry decides: a pass covers it if it does not read as a failure. -/
theorem covered_iff {after : Dict Key Value}
    (hleaves : ∀ failure, Leaves repr (declaredEntries after) (text gate) failure ↔
      Leaves repr (keptEntries gate data) (text gate) failure ∨
        Leaves repr [entry gate verdict detail] (text gate) failure)
    (hkept : (keptEntries gate data).countP (speaksOf gate) = 0) :
    (standing repr after (text gate) = .covered ↔ verdict = .passed) ↔
      (verdict = .passed → opensWithFailure detail = false) := by
  have hstanding : standing repr after (text gate) = .covered ↔
      (Value.str (entryText verdict detail)).truthy = true ∧ opensWithFailure (entryText verdict detail) = false := by
    rw [standing_eq_covered, hleaves, hleaves]
    simp only [not_leaves_kept hkept, false_or, leaves_entry, true_and]
    constructor
    · exact And.right
    · intro h
      refine ⟨fun hfails => ?_, h⟩
      rw [h.2] at hfails
      cases hfails.2
  rw [hstanding]
  by_cases hpassed : verdict = .passed
  · have htext : entryText verdict detail = detail := by rw [entryText, if_neg (not_not.mpr hpassed)]
    constructor
    · intro h _
      rw [← htext]
      exact (h.mpr hpassed).2
    · intro h
      exact iff_of_true ⟨entryText_truthy h, htext.symm ▸ h hpassed⟩ hpassed
  · rw [opensWithFailure_entryText hpassed]
    simp [hpassed]

end Gate

/-! ## The other gates -/

section Others

variable {repr : Value → String} {gate other : GateKind} {verdict : GateVerdict} {detail : String}
  {data after : Dict Key Value} {name : String} {failure : Bool}

theorem standing_eq_iff {a b : Dict Key Value} : standing repr a name = standing repr b name ↔
    (standing repr a name = .failed ↔ standing repr b name = .failed) ∧
      (standing repr a name = .covered ↔ standing repr b name = .covered) := by
  cases standing repr a name <;> cases standing repr b name <;> simp

theorem leaves_of_kept (h : Leaves repr (keptEntries gate data) name failure) :
    Leaves repr (declaredEntries data) name failure := by
  obtain ⟨items, hitems, h⟩ := h
  exact ⟨items, List.mem_of_mem_filter hitems, h⟩

/-- What was declared is kept or taken out. -/
theorem kept_or_removed (h : Leaves repr (declaredEntries data) name failure) :
    Leaves repr (keptEntries gate data) name failure ∨
      ∃ removed ∈ declaredEntries data, namesGate gate removed = true ∧ ∃ item ∈ removed.items,
        item.1.toText = name ∧ item.2.truthy = true ∧ declaresFailure repr item.2 = failure := by
  obtain ⟨items, hitems, h⟩ := h
  cases hnames : namesGate gate (.dict items) with
  | false => exact .inl ⟨items, List.mem_filter.mpr ⟨hitems, by simp [hnames]⟩, h⟩
  | true => exact .inr ⟨_, hitems, hnames, h⟩

theorem leaves_item (repr : Value → String) {removed : Value} (hremoved : removed ∈ declaredEntries data) {item : Key × Value}
    (hitem : item ∈ removed.items) (hname : item.1.toText = name) (htruthy : item.2.truthy = true) :
    Leaves repr (declaredEntries data) name (declaresFailure repr item.2) := by
  cases removed with
  | dict items => exact ⟨items, hremoved, item, hitem, hname, htruthy, rfl⟩
  | _ => cases hitem

/-- A gate stands as it stood exactly if nothing that counted for it is lost with the removed entries. -/
theorem standing_kept_iff (hleaves : ∀ failure, Leaves repr (declaredEntries after) name failure ↔
      Leaves repr (keptEntries gate data) name failure) :
    standing repr after name = standing repr data name ↔
      ∀ removed ∈ declaredEntries data, namesGate gate removed = true → ∀ item ∈ removed.items,
        item.2.truthy = true → item.1.toText = name → Leaves repr (keptEntries gate data) name true ∨
          (declaresFailure repr item.2 = false ∧ Leaves repr (keptEntries gate data) name false) := by
  rw [standing_eq_iff, standing_eq_failed, standing_eq_failed, standing_eq_covered, standing_eq_covered,
    hleaves, hleaves]
  constructor
  · rintro ⟨hfailed, hcovered⟩ removed hremoved hnames item hitem htruthy hname
    have hbefore := leaves_item repr hremoved hitem hname htruthy
    by_cases hfails : Leaves repr (declaredEntries data) name true
    · exact .inl (hfailed.mpr hfails)
    · cases hitemFails : declaresFailure repr item.2 with
      | true => exact absurd (hitemFails ▸ hbefore) hfails
      | false => exact .inr ⟨rfl, (hcovered.mpr ⟨hfails, hitemFails ▸ hbefore⟩).2⟩
  · intro h
    have hfailed : Leaves repr (keptEntries gate data) name true ↔ Leaves repr (declaredEntries data) name true := by
      refine ⟨leaves_of_kept, fun hbefore => ?_⟩
      obtain hkept | ⟨removed, hremoved, hnames, item, hitem, hname, htruthy, hfails⟩ := kept_or_removed hbefore
      · exact hkept
      · refine (h removed hremoved hnames item hitem htruthy hname).resolve_right fun hpass => ?_
        rw [hpass.1] at hfails
        cases hfails
    refine ⟨hfailed, ?_⟩
    rw [hfailed]
    refine and_congr_right fun hnot => ⟨leaves_of_kept, fun hbefore => ?_⟩
    obtain hkept | ⟨removed, hremoved, hnames, item, hitem, hname, htruthy, -⟩ := kept_or_removed hbefore
    · exact hkept
    · exact ((h removed hremoved hnames item hitem htruthy hname).resolve_left fun hfails =>
        hnot (hfailed.mp hfails)).2

end Others

/-! ## Attaching affects one gate -/

section Affects

variable {repr : Value → String} {today reference summary : String} {gate : GateKind} {verdict : GateVerdict}
  {data after : Dict Key Value}

/-- **Attaching evidence affects its gate only, exactly when it is well attached**. -/
theorem affectsOnly_iff (hscalars : YieldsScalars data)
    (h : attach today gate verdict reference summary data = .ok after) :
    AffectsOnly repr gate verdict data after ↔ WellAttached repr gate verdict (detail summary reference) data := by
  obtain ⟨hleaves, hcount⟩ := declaredEntries_attach repr hscalars h
  have hothers : ∀ other : GateKind, other ≠ gate → ∀ failure,
      Leaves repr (declaredEntries after) (text other) failure ↔
        Leaves repr (keptEntries gate data) (text other) failure := by
    intro other hne failure
    rw [hleaves, leaves_entry]
    exact or_iff_left fun hnew => hne (SqlValues.text_injective hnew.1).symm
  constructor
  · rintro ⟨hcovered, hsingle, hsame⟩
    have hkept : (keptEntries gate data).countP (speaksOf gate) = 0 := by omega
    refine ⟨(covered_iff (hleaves _) hkept).mp hcovered, countP_kept_eq_zero.mp hkept, ?_⟩
    intro removed hremoved hnames item hitem htruthy other hne hname
    exact (standing_kept_iff (hothers other hne)).mp (hsame other hne) removed hremoved hnames item hitem htruthy hname
  · rintro ⟨hdetail, hkeys, hlost⟩
    have hkept := countP_kept_eq_zero.mpr hkeys
    refine ⟨(covered_iff (hleaves _) hkept).mpr hdetail, by omega, fun other hne => ?_⟩
    refine (standing_kept_iff (hothers other hne)).mpr ?_
    exact fun removed hremoved hnames item hitem htruthy hname =>
      hlost removed hremoved hnames item hitem htruthy other hne hname

end Affects

/-! ### A review is attached -/

/-- A goal file with the given evidence. -/
def goalWith (evidence : List Value) : Dict Key Value :=
  [(.str "id", .str "P08-G01"), (.str "state", .str "ACTIVE"),
    (.str "gates", .dict [(.str "tests", .str "required"), (.str "review", .str "required")]),
    (.str "evidence", .list evidence)]

def testsItem : Key × Value := (.str "tests", .str "121 pytest, 5 vitest")

def reviewItem : Key × Value := (.str "review", .str "PENDING: nobody has looked")

/-- Next to an entry about the tests. -/
theorem attach_review_apart : ∃ after,
    attach "2026-08-11" .review .passed "docs/reviews/P08.md" "" (goalWith [.dict [testsItem], .dict [reviewItem]]) =
        .ok after ∧
      AffectsOnly (fun _ => "") .review .passed (goalWith [.dict [testsItem], .dict [reviewItem]]) after := by
  refine ⟨_, rfl, (affectsOnly_iff ?_ rfl).mpr ⟨fun _ => by decide +kernel, by decide +kernel, ?_⟩⟩
  · intro scalar elements hevidence
    cases hevidence
  · intro removed hremoved hnames item hitem htruthy other hne hname
    have hcases : removed = .dict [testsItem] ∨ removed = .dict [reviewItem] := by
      simpa [declaredEntries, goalWith, Dict.get?] using hremoved
    obtain rfl | rfl := hcases
    · exact absurd hnames (by decide +kernel)
    · obtain rfl := List.mem_singleton.mp hitem
      exact absurd (SqlValues.text_injective (show text GateKind.review = text other from hname)) (Ne.symm hne)

/-- From an entry that is also about the tests: the tests have no evidence any more. -/
theorem attach_review_shared : ∃ after,
    attach "2026-08-11" .review .passed "docs/reviews/P08.md" "" (goalWith [.dict [testsItem, reviewItem]]) =
        .ok after ∧
      standing (fun _ => "") (goalWith [.dict [testsItem, reviewItem]]) (text GateKind.tests) = .covered ∧
      standing (fun _ => "") after (text GateKind.tests) = .missing ∧
      ¬ AffectsOnly (fun _ => "") .review .passed (goalWith [.dict [testsItem, reviewItem]]) after := by
  refine ⟨_, rfl, by decide +kernel, by decide +kernel, fun h => ?_⟩
  exact absurd (h.others .tests (by decide)) (by decide +kernel)

end AtlasFlow.Reference.AttachEvidence
