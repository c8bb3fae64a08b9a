import AtlasFlow.Reference.GoalFile

/-!
# What declared evidence says of a gate

The evidence of a goal file is a list of mappings; each of their items is about the gate that its key names.
A gate fails if some item about it reads as a failure, is covered if some item is about it otherwise, and is
missing if none is. `checkDeclaredEvidence` judges the required names so.
-/

namespace AtlasFlow.Reference.GoalFile

open SqlValues (text)

/-! ## Items -/

def Value.items : Value → List (Key × Value)
  | .dict items => items
  | _ => []

/-- The declared entries, if they are a list. -/
def declaredEntries (goal : Dict Key Value) : List Value :=
  match goal.get? (.str "evidence") with
  | some (.list entries) => entries
  | _ => []

/-- All that the entries say, item by item. -/
def evidenceItems (goal : Dict Key Value) : List (Key × Value) := (declaredEntries goal).flatMap Value.items

section Items

variable {repr : Value → String} {goal : Dict Key Value} {name : String}

theorem leaves_iff_items {entries : List Value} {failure : Bool} :
    Leaves repr entries name failure ↔ ∃ item ∈ entries.flatMap Value.items, item.1.toText = name ∧
      item.2.truthy = true ∧ declaresFailure repr item.2 = failure := by
  constructor
  · rintro ⟨items, hitems, item, hitem, h⟩
    exact ⟨item, List.mem_flatMap.mpr ⟨_, hitems, hitem⟩, h⟩
  · rintro ⟨item, hitem, h⟩
    obtain ⟨entry, hentry, hmem⟩ := List.mem_flatMap.mp hitem
    cases entry with
    | dict items => exact ⟨items, hentry, item, hmem, h⟩
    | _ => cases hmem

/-- The sets that the validator fills, for any mapping. -/
theorem mem_names_iff (goal : Dict Key Value) (failure : Bool) :
    name ∈ (declaredIn repr goal).names failure ↔ Leaves repr (declaredEntries goal) name failure := by
  cases hevidence : goal.get? (.str "evidence") with
  | none => cases failure <;> simp [declaredIn, declaredEntries, hevidence, Declared.names, leaves_nil]
  | some value =>
      cases value with
      | list entries =>
          rw [mem_names_declaredIn hevidence, declaredEntries, hevidence]
      | _ => cases failure <;> simp [declaredIn, declaredEntries, hevidence, Declared.names, leaves_nil]

end Items

/-! ## Standing -/

inductive Standing | covered | failed | missing
  deriving DecidableEq, Repr

/-- How a gate is classified. -/
def standing (repr : Value → String) (goal : Dict Key Value) (name : String) : Standing :=
  if name ∈ (declaredIn repr goal).failing then .failed
  else if name ∈ (declaredIn repr goal).passing then .covered
  else .missing

section Judge

variable {declared : Declared} {check check' : CompletionCheck} {name : Key} {gate : GateKind}

theorem gateKind_ok : name.gateKind = .ok gate ↔ name = .str (text gate) := by
  cases name with
  | str s => rw [Key.gateKind, member_eq_ok, Key.str.injEq]
  | other scalar => simp [Key.gateKind]

/-- A name that is not covered is put on one of the lists, if it names a gate. -/
theorem judgeName_of_gate (h : ¬ Covered declared name) (hgate : name.gateKind = .ok gate) :
    judgeName declared check name = .ok (if name.isIn declared.failing then
      { check with failed := check.failed ++ [gate] } else { check with missing := check.missing ++ [gate] }) := by
  unfold judgeName
  cases hfailing : name.isIn declared.failing with
  | true => simp [hgate, bind, Except.bind, pure, Except.pure]
  | false =>
      cases hpassing : name.isIn declared.passing with
      | true => exact absurd ⟨hfailing, hpassing⟩ h
      | false => simp [hgate, bind, Except.bind, pure, Except.pure]

theorem judgeName_of_error {exn : PyExn} (h : ¬ Covered declared name) (hgate : name.gateKind = .error exn) :
    judgeName declared check name = .error exn := by
  unfold judgeName
  cases hfailing : name.isIn declared.failing with
  | true => simp [hgate, bind, Except.bind]
  | false =>
      cases hpassing : name.isIn declared.passing with
      | true => exact absurd ⟨hfailing, hpassing⟩ h
      | false => simp [hgate, bind, Except.bind]

/-- The loop ends unless it comes to a name that is no gate and is not covered. -/
theorem foldlM_judgeName_ok_iff {names : List Key} (check : CompletionCheck) :
    (∃ check', names.foldlM (judgeName declared) check = .ok check') ↔
      ∀ name ∈ names, Covered declared name ∨ ∃ gate : GateKind, name = .str (text gate) := by
  induction names generalizing check with
  | nil => simp [pure, Except.pure]
  | cons name names ih =>
      rw [List.forall_mem_cons, List.foldlM_cons]
      by_cases hcovered : Covered declared name
      · rw [judgeName_of_covered hcovered]
        exact (ih check).trans (by simp [hcovered])
      · cases hgate : name.gateKind with
        | error exn =>
            rw [judgeName_of_error hcovered hgate]
            have hnone : ¬ ∃ gate : GateKind, name = .str (text gate) := by
              rintro ⟨gate, rfl⟩
              rw [gateKind_ok.mpr rfl] at hgate
              cases hgate
            simp [bind, Except.bind, hcovered, hnone]
        | ok gate =>
            rw [judgeName_of_gate hcovered hgate]
            have hname : ∃ gate : GateKind, name = .str (text gate) := ⟨gate, gateKind_ok.mp hgate⟩
            exact (ih _).trans (by simp [hname])

/-- What one judgement adds to the two lists. -/
theorem judgeName_spec (h : judgeName declared check name = .ok check') (gate : GateKind) :
    (gate ∈ check'.failed ↔ gate ∈ check.failed ∨ (.str (text gate) = name ∧ text gate ∈ declared.failing)) ∧
      (gate ∈ check'.missing ↔ gate ∈ check.missing ∨ (.str (text gate) = name ∧
        text gate ∉ declared.failing ∧ text gate ∉ declared.passing)) := by
  by_cases hcovered : Covered declared name
  · rw [judgeName_of_covered hcovered] at h
    cases h
    have hnot : .str (text gate) = name → text gate ∉ declared.failing ∧ text gate ∈ declared.passing := by
      rintro rfl
      simpa [Covered, Key.isIn] using hcovered
    constructor
    · exact ⟨.inl, fun hor => hor.resolve_right fun hboth => (hnot hboth.1).1 hboth.2⟩
    · exact ⟨.inl, fun hor => hor.resolve_right fun hboth => hboth.2.2 (hnot hboth.1).2⟩
  · cases hkind : name.gateKind with
    | error exn =>
        rw [judgeName_of_error hcovered hkind] at h
        cases h
    | ok kind =>
        obtain rfl := gateKind_ok.mp hkind
        have heq : .str (text gate) = Key.str (text kind) ↔ gate = kind := by simp
        rw [judgeName_of_gate hcovered hkind] at h
        cases h
        rw [heq]
        simp only [Covered, Key.isIn, decide_eq_false_iff_not, decide_eq_true_eq, not_and] at hcovered ⊢
        by_cases hfailing : text kind ∈ declared.failing
        · rw [if_pos hfailing]
          constructor
          · rw [List.mem_append, List.mem_singleton]
            exact or_congr_right ⟨fun hgate => ⟨hgate, hgate ▸ hfailing⟩, And.left⟩
          · exact ⟨.inl, fun hor => hor.resolve_right fun hboth => hboth.2.1 (hboth.1 ▸ hfailing)⟩
        · rw [if_neg hfailing]
          constructor
          · exact ⟨.inl, fun hor => hor.resolve_right fun hboth => hfailing (hboth.1 ▸ hboth.2)⟩
          · rw [List.mem_append, List.mem_singleton]
            exact or_congr_right ⟨fun hgate => ⟨hgate, hgate ▸ hfailing, hgate ▸ hcovered hfailing⟩, And.left⟩

/-- The gates on the two lists are the required ones that fail, and those about which nothing is declared. -/
theorem foldlM_judgeName_spec {names : List Key} (h : names.foldlM (judgeName declared) check = .ok check')
    (gate : GateKind) :
    (gate ∈ check'.failed ↔ gate ∈ check.failed ∨ (.str (text gate) ∈ names ∧ text gate ∈ declared.failing)) ∧
      (gate ∈ check'.missing ↔ gate ∈ check.missing ∨ (.str (text gate) ∈ names ∧
        text gate ∉ declared.failing ∧ text gate ∉ declared.passing)) := by
  induction names generalizing check with
  | nil =>
      cases h
      simp
  | cons name names ih =>
      rw [List.foldlM_cons] at h
      cases hjudge : judgeName declared check name with
      | error exn =>
          rw [hjudge] at h
          cases h
      | ok after =>
          rw [hjudge] at h
          obtain ⟨hfailed, hmissing⟩ := judgeName_spec hjudge gate
          obtain ⟨hfailed', hmissing'⟩ := ih h
          rw [hfailed', hfailed, hmissing', hmissing]
          simp only [List.mem_cons, or_and_right, or_assoc, and_self]

end Judge

section Check

variable {repr : Value → String} {goal : Dict Key Value} {check : CompletionCheck}

theorem checkDeclaredEvidence_ok_iff : (∃ check, checkDeclaredEvidence repr goal = .ok check) ↔
    ∀ name ∈ requiredNames goal, Covered (declaredIn repr goal) name ∨
      ∃ gate : GateKind, name = .str (text gate) :=
  foldlM_judgeName_ok_iff _

/-- The validator reports the standing of the gates that are required. -/
theorem checkDeclaredEvidence_spec (h : checkDeclaredEvidence repr goal = .ok check) (gate : GateKind) :
    (gate ∈ check.failed ↔ .str (text gate) ∈ requiredNames goal ∧ standing repr goal (text gate) = .failed) ∧
      (gate ∈ check.missing ↔
        .str (text gate) ∈ requiredNames goal ∧ standing repr goal (text gate) = .missing) := by
  obtain ⟨hfailed, hmissing⟩ := foldlM_judgeName_spec h gate
  simp only [List.not_mem_nil, false_or] at hfailed hmissing
  rw [hfailed, hmissing, standing]
  by_cases hfailing : text gate ∈ (declaredIn repr goal).failing
  · simp [hfailing]
  · by_cases hpassing : text gate ∈ (declaredIn repr goal).passing
    · simp [hfailing, hpassing]
    · simp [hfailing, hpassing]

theorem standing_eq_failed {name : String} :
    standing repr goal name = .failed ↔ Leaves repr (declaredEntries goal) name true := by
  rw [← mem_names_iff, Declared.names, standing]
  by_cases hfailing : name ∈ (declaredIn repr goal).failing
  · simp [hfailing]
  · by_cases hpassing : name ∈ (declaredIn repr goal).passing
    · simp [hfailing, hpassing]
    · simp [hfailing, hpassing]

theorem standing_eq_covered {name : String} :
    standing repr goal name = .covered ↔ ¬ Leaves repr (declaredEntries goal) name true ∧
      Leaves repr (declaredEntries goal) name false := by
  rw [← mem_names_iff, ← mem_names_iff, Declared.names, Declared.names, standing]
  by_cases hfailing : name ∈ (declaredIn repr goal).failing
  · simp [hfailing]
  · by_cases hpassing : name ∈ (declaredIn repr goal).passing
    · simp [hfailing, hpassing]
    · simp [hfailing, hpassing]

end Check

end AtlasFlow.Reference.GoalFile
