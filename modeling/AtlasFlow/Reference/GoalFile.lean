import AtlasFlow.Reference.GoalCompletion

/-!
# The goal file

The rest of `verification/goal_completion.py`: `completeGoal` writes the evidence of a goal into its file,
and `checkDeclaredEvidence` reads it there, as the repository validator does. The one judges rows of
evidence, the other the first word of a text.
-/

namespace AtlasFlow.Reference.GoalFile

open SqlValues (text)

/-! ## What a YAML document holds -/

/-- An object that is neither a string, a list nor a mapping. -/
structure Scalar where
  typeName : String
  truthy : Bool
  str : String
  repr : String
  deriving DecidableEq

inductive Key where
  | str (s : String)
  | other (scalar : Scalar)
  deriving DecidableEq

/-- `elements` is what iterating over another object yields, if it can be iterated over. -/
inductive Value where
  | str (s : String)
  | list (items : List Value)
  | dict (items : List (Key × Value))
  | other (scalar : Scalar) (elements : Option (List Value))

/-- `str(key)`. -/
def Key.toText : Key → String
  | .str s => s
  | .other scalar => scalar.str

def Key.value : Key → Value
  | .str s => .str s
  | .other scalar => .other scalar none

namespace Value

/-- `bool(value)`. -/
def truthy : Value → Bool
  | .str s => s ≠ ""
  | .list items => !items.isEmpty
  | .dict items => !items.isEmpty
  | .other scalar _ => scalar.truthy

/-- `str(value)`, where a container shows its elements by `repr`. -/
def toText (repr : Value → String) : Value → String
  | .str s => s
  | .list items => "[" ++ ", ".intercalate (items.map repr) ++ "]"
  | .dict items =>
    "\x7b" ++ ", ".intercalate (items.map fun item => repr item.1.value ++ ": " ++ repr item.2) ++ "\x7d"
  | .other scalar _ => scalar.str

/-- `list(value or [])`, with `none` for a key that is not there. -/
def listOr : Option Value → Except PyExn (List Value)
  | none => .ok []
  | some value =>
    if !value.truthy then .ok []
    else match value with
      | .str s => .ok (s.toList.map fun c => .str (String.singleton c))
      | .list items => .ok items
      | .dict items => .ok (items.map fun item => item.1.value)
      | .other _ (some elements) => .ok elements
      | .other scalar none => .error (.exception s!"'{scalar.typeName}' object is not iterable")

end Value

/-! ## What an entry declares -/

/-- `char.isspace()`. -/
def isSpace (c : Char) : Bool :=
  let n := c.toNat
  (9 ≤ n && n ≤ 13) || (28 ≤ n && n ≤ 32) || n = 0x85 || n = 0xA0 || n = 0x1680 || (0x2000 ≤ n && n ≤ 0x200A) ||
    n = 0x2028 || n = 0x2029 || n = 0x202F || n = 0x205F || n = 0x3000

/-- `text.strip()`. -/
def strip (cs : List Char) : List Char :=
  ((cs.dropWhile isSpace).reverse.dropWhile isSpace).reverse

/-- `text.split(c, 1)[0]`. -/
def splitFirst (c : Char) (cs : List Char) : List Char := cs.takeWhile (· ≠ c)

/-- `text.split()[0]`, empty if there is no word. -/
def firstWord (cs : List Char) : List Char := (cs.dropWhile isSpace).takeWhile fun c => !isSpace c

/-- `char.upper()`, where that is ASCII. Any other character stays, and is in no word of ASCII either way. -/
def upperChar (c : Char) : List Char :=
  match c with
  | 'ß' => ['S', 'S']
  | 'ı' => ['I']
  | 'ſ' => ['S']
  | 'ﬀ' => ['F', 'F']
  | 'ﬁ' => ['F', 'I']
  | 'ﬂ' => ['F', 'L']
  | 'ﬃ' => ['F', 'F', 'I']
  | 'ﬄ' => ['F', 'F', 'L']
  | 'ﬅ' => ['S', 'T']
  | 'ﬆ' => ['S', 'T']
  | _ => [c.toUpper]

/-- `NON_PASSING_VERDICTS`. -/
def nonPassingVerdicts : List String :=
  ["FAILED", "FAIL", "PENDING", "PARTIAL", "BLOCKED", "UNVERIFIED", "SKIPPED"]

/-- `declares_failure` of a text. -/
def opensWithFailure (s : String) : Bool :=
  let stripped := strip s.toList
  if stripped = [] then true
  else
    let first := firstWord (splitFirst '-' (splitFirst '—' (splitFirst ':' stripped)))
    first ≠ [] && String.ofList (first.flatMap upperChar) ∈ nonPassingVerdicts

/-- `declares_failure`. -/
def declaresFailure (repr : Value → String) (value : Value) : Bool := opensWithFailure (value.toText repr)

/-! ## The validator -/

/-- The sets `passing` and `failing`. -/
structure Declared where
  passing : List String := []
  failing : List String := []

namespace Declared

/-- One turn of the loop over the items of an entry. -/
def add (repr : Value → String) (declared : Declared) (item : Key × Value) : Declared :=
  if !item.2.truthy then declared
  else if declaresFailure repr item.2 then { declared with failing := item.1.toText :: declared.failing }
  else { declared with passing := item.1.toText :: declared.passing }

def addEntry (repr : Value → String) (declared : Declared) : Value → Declared
  | .dict items => items.foldl (add repr) declared
  | _ => declared

end Declared

/-- `name in names`, for a set of strings. -/
def Key.isIn (names : List String) : Key → Bool
  | .str s => s ∈ names
  | .other _ => false

/-- `GateKind(name)`. -/
def Key.gateKind : Key → Except PyExn GateKind
  | .str s => member s
  | .other scalar => .error (.valueError s!"{scalar.repr} is not a valid GateKind")

/-- The list `required`. -/
def requiredNames (goal : Dict Key Value) : List Key :=
  match goal.get? (.str "gates") with
  | some (.dict items) =>
    (items.filter fun item => match item.2 with
      | .str s => s = "required"
      | _ => false).map Prod.fst
  | _ => []

/-- Both sets, from the entries of a list. -/
def declaredIn (repr : Value → String) (goal : Dict Key Value) : Declared :=
  match goal.get? (.str "evidence") with
  | some (.list entries) => entries.foldl (Declared.addEntry repr) {}
  | _ => {}

/-- One turn of the loop over `required`. -/
def judgeName (declared : Declared) (check : CompletionCheck) (name : Key) : Except PyExn CompletionCheck := do
  if name.isIn declared.failing then
    let gate ← name.gateKind
    return { check with failed := check.failed ++ [gate] }
  else if !name.isIn declared.passing then
    let gate ← name.gateKind
    return { check with missing := check.missing ++ [gate] }
  else return check

/-- `check_declared_evidence`. -/
def checkDeclaredEvidence (repr : Value → String) (goal : Dict Key Value) : Except PyExn CompletionCheck :=
  let goalId := match goal.get? (.str "id") with
    | some value => value.toText repr
    | none => "<unknown>"
  (requiredNames goal).foldlM (judgeName (declaredIn repr goal)) { goalId }

/-! ## Closing a goal -/

/-- What completing a goal uses of the machine: PyYAML, the clock, and the writing of a text, which may fail and
then leave anything in the file. -/
structure Host where
  safeLoad : String → Except PyExn Value
  safeDump : Value → Except PyExn String
  today : String
  writeText : String → Except (PyExn × Option String) Unit

inductive CompletionError where
  | goalNotCompletable (message : String)
  | raised (exn : PyExn)
  deriving DecidableEq, Repr

/-- What is written for a required gate. -/
def summary (goal : Goal) (evidence : List EvidenceItem) (gate : GateKind) : String :=
  let passing := evidence.filter fun item => item.goalId = goal.id && item.gate = gate && item.verdict = .passed
  let texts := (passing.map fun item => orText item.uri item.kind).filter (· ≠ "")
  orText ("; ".intercalate texts) s!"{passing.length} passing evidence item(s)"

/-- The entries that completing a goal appends. -/
def newEntries (goal : Goal) (evidence : List EvidenceItem) : List Value :=
  (requiredGates goal).map fun gate => .dict [(.str (text gate), .str (summary goal evidence gate))]

/-- From `declared = list(data.get("evidence") or [])` to the last assignment to `data`. -/
def closeGoal (today : String) (goal : Goal) (evidence : List EvidenceItem) (data : Dict Key Value) :
    Except PyExn (Dict Key Value) := do
  let declared ← Value.listOr (data.get? (.str "evidence"))
  let data := data.set (.str "evidence") (.list (declared ++ newEntries goal evidence))
  let data := data.set (.str "state") (.str "DONE")
  let history ← Value.listOr (data.get? (.str "history"))
  let gates := CompletionCheck.sortedText (requiredGates goal)
  return data.set (.str "history") (.list (history ++ [.str s!"{today}: moved to DONE with evidence for {gates}."]))

/-- `complete_goal`, on what is in the file at `path`: how it ends, and what is in the file then. -/
def completeGoal (host : Host) (goal : Goal) (evidence : List EvidenceItem) (path : String)
    (file : Option String) : Except CompletionError String × Option String :=
  let check := checkCompletion goal evidence
  if !check.completable then (.error (.goalNotCompletable check.describe), file)
  else match file with
    | none => (.error (.raised (.fileNotFoundError s!"[Errno 2] No such file or directory: '{path}'")), file)
    | some content =>
      match host.safeLoad content with
      | .error exn => (.error (.raised exn), file)
      | .ok (.dict data) =>
        match closeGoal host.today goal evidence data with
        | .error exn => (.error (.raised exn), file)
        | .ok closed =>
          match host.safeDump (.dict closed) with
          | .error exn => (.error (.raised exn), file)
          | .ok written =>
            match host.writeText written with
            | .ok () => (.ok path, some written)
            | .error (exn, left) => (.error (.raised exn), left)
      | .ok _ => (.error (.goalNotCompletable s!"{goal.id}: malformed Goal file at {path}"), file)

/-! ## What the entries leave under a name -/

section Declared

variable {repr : Value → String}

/-- Some entry has a value under this name that counts, and it reads as a failure or not. -/
def Leaves (repr : Value → String) (entries : List Value) (name : String) (failure : Bool) : Prop :=
  ∃ items, .dict items ∈ entries ∧
    ∃ item ∈ items, item.1.toText = name ∧ item.2.truthy = true ∧ declaresFailure repr item.2 = failure

theorem leaves_nil {name : String} {failure : Bool} : ¬ Leaves repr [] name failure := by
  simp [Leaves]

theorem leaves_append {entries more : List Value} {name : String} {failure : Bool} :
    Leaves repr (entries ++ more) name failure ↔
      Leaves repr entries name failure ∨ Leaves repr more name failure := by
  simp only [Leaves, List.mem_append, or_and_right, exists_or]

theorem leaves_cons_dict {items : List (Key × Value)} {entries : List Value} {name : String} {failure : Bool} :
    Leaves repr (.dict items :: entries) name failure ↔ (∃ item ∈ items, item.1.toText = name ∧
      item.2.truthy = true ∧ declaresFailure repr item.2 = failure) ∨ Leaves repr entries name failure := by
  simp only [Leaves, List.mem_cons, Value.dict.injEq, or_and_right, exists_or, exists_eq_left]

/-- What is not a mapping leaves nothing. -/
theorem leaves_cons_of_ne {entry : Value} (h : ∀ items, entry ≠ .dict items) {entries : List Value}
    {name : String} {failure : Bool} :
    Leaves repr (entry :: entries) name failure ↔ Leaves repr entries name failure := by
  have hne : ∀ items, .dict items ≠ entry := fun items heq => h items heq.symm
  simp only [Leaves, List.mem_cons, hne, false_or]

/-- The set that holds the names whose values read so. -/
def Declared.names (declared : Declared) : Bool → List String
  | true => declared.failing
  | false => declared.passing

theorem Declared.mem_names_add {declared : Declared} {item : Key × Value} {name : String} {failure : Bool} :
    name ∈ (declared.add repr item).names failure ↔ name ∈ declared.names failure ∨
      (item.1.toText = name ∧ item.2.truthy = true ∧ declaresFailure repr item.2 = failure) := by
  unfold Declared.add
  cases htruthy : item.2.truthy <;> cases hfailure : declaresFailure repr item.2 <;> cases failure <;>
    simp [Declared.names, or_comm, eq_comm]

theorem Declared.mem_names_items {declared : Declared} {items : List (Key × Value)} {name : String}
    {failure : Bool} :
    name ∈ (items.foldl (Declared.add repr) declared).names failure ↔ name ∈ declared.names failure ∨
      ∃ item ∈ items, item.1.toText = name ∧ item.2.truthy = true ∧ declaresFailure repr item.2 = failure := by
  induction items generalizing declared with
  | nil => simp
  | cons item items ih => rw [List.foldl_cons, ih, Declared.mem_names_add, or_assoc, List.exists_mem_cons_iff]

/-- The loop over the entries collects what they leave. -/
theorem Declared.mem_names_entries {declared : Declared} {entries : List Value} {name : String}
    {failure : Bool} :
    name ∈ (entries.foldl (Declared.addEntry repr) declared).names failure ↔
      name ∈ declared.names failure ∨ Leaves repr entries name failure := by
  induction entries generalizing declared with
  | nil => simp [leaves_nil]
  | cons entry entries ih =>
      rw [List.foldl_cons, ih]
      cases entry with
      | dict items => rw [Declared.addEntry, Declared.mem_names_items, leaves_cons_dict, or_assoc]
      | str s => rw [leaves_cons_of_ne (by simp), Declared.addEntry.eq_def]
      | list items => rw [leaves_cons_of_ne (by simp), Declared.addEntry.eq_def]
      | other scalar elements => rw [leaves_cons_of_ne (by simp), Declared.addEntry.eq_def]

theorem mem_names_declaredIn {goal : Dict Key Value} {entries : List Value}
    (h : goal.get? (.str "evidence") = some (.list entries)) {name : String} {failure : Bool} :
    name ∈ (declaredIn repr goal).names failure ↔ Leaves repr entries name failure := by
  rw [declaredIn, h]
  simp only [Declared.mem_names_entries]
  cases failure <;> simp [Declared.names]

end Declared

/-! ## When the validator is content -/

section Judge

variable {declared : Declared} {check : CompletionCheck} {name : Key}

/-- A name that passes and does not fail. -/
def Covered (declared : Declared) (name : Key) : Prop :=
  name.isIn declared.failing = false ∧ name.isIn declared.passing = true

theorem judgeName_of_covered (h : Covered declared name) : judgeName declared check name = .ok check := by
  rw [judgeName, h.1, h.2]
  rfl

/-- A name that is not covered is held against the goal, if it can be named at all. -/
theorem judgeName_of_not_covered {check' : CompletionCheck} (h : ¬ Covered declared name)
    (hok : judgeName declared check name = .ok check') : check'.completable = false := by
  unfold judgeName at hok
  cases hfailing : name.isIn declared.failing with
  | true =>
      cases hgate : name.gateKind <;> simp [hfailing, hgate, bind, Except.bind, pure, Except.pure] at hok
      subst hok
      simp [CompletionCheck.completable]
  | false =>
      cases hpassing : name.isIn declared.passing with
      | true => exact absurd ⟨hfailing, hpassing⟩ h
      | false =>
          cases hgate : name.gateKind <;>
            simp [hfailing, hpassing, hgate, bind, Except.bind, pure, Except.pure] at hok
          subst hok
          simp [CompletionCheck.completable]

/-- Nothing is taken back: the loop ends with a completable check exactly if every name is covered. -/
theorem foldlM_judgeName {names : List Key} :
    (∃ check', names.foldlM (judgeName declared) check = .ok check' ∧ check'.completable = true) ↔
      check.completable = true ∧ ∀ name ∈ names, Covered declared name := by
  induction names generalizing check with
  | nil => simp [pure, Except.pure]
  | cons name names ih =>
      rw [List.forall_mem_cons, List.foldlM_cons]
      by_cases hcovered : Covered declared name
      · rw [judgeName_of_covered hcovered]
        exact ih.trans (by simp [hcovered])
      · simp only [hcovered, false_and, and_false, iff_false]
        cases hjudge : judgeName declared check name with
        | error exn => simp [bind, Except.bind]
        | ok check' =>
            change ¬ ∃ last, names.foldlM (judgeName declared) check' = .ok last ∧ _
            rw [ih, judgeName_of_not_covered hcovered hjudge]
            simp

theorem checkDeclaredEvidence_completable {repr : Value → String} {goal : Dict Key Value} :
    (∃ check, checkDeclaredEvidence repr goal = .ok check ∧ check.completable = true) ↔
      ∀ name ∈ requiredNames goal, Covered (declaredIn repr goal) name := by
  unfold checkDeclaredEvidence
  rw [foldlM_judgeName]
  simp [CompletionCheck.completable]

end Judge

/-! ## What closing a goal writes -/

section Close

variable {repr : Value → String} {today : String} {goal : Goal} {evidence : List EvidenceItem}
  {data closed : Dict Key Value}

/-- The keys that completing a goal assigns to. -/
def rewritten (key : Key) : Bool := key = .str "evidence" || key = .str "state" || key = .str "history"

theorem closeGoal_spec (h : closeGoal today goal evidence data = .ok closed) :
    ∃ declared, Value.listOr (data.get? (.str "evidence")) = .ok declared ∧
      closed.get? (.str "evidence") = some (.list (declared ++ newEntries goal evidence)) ∧
      closed.get? (.str "state") = some (.str "DONE") ∧
      closed.get? (.str "gates") = data.get? (.str "gates") ∧
      (closed.filter fun item => !rewritten item.1) = data.filter fun item => !rewritten item.1 := by
  unfold closeGoal at h
  cases hdeclared : Value.listOr (data.get? (.str "evidence")) with
  | error exn => simp [hdeclared, bind, Except.bind] at h
  | ok declared =>
      simp only [hdeclared, bind, Except.bind] at h
      split at h
      · cases h
      · simp only [pure, Except.pure, Except.ok.injEq] at h
        subst h
        refine ⟨declared, rfl, ?_, ?_, ?_, ?_⟩
        · simp [Dict.get?_set]
        · simp [Dict.get?_set]
        · simp [Dict.get?_set]
        · rw [Dict.filter_set (p := fun key => !rewritten key) (by rfl),
            Dict.filter_set (p := fun key => !rewritten key) (by rfl),
            Dict.filter_set (p := fun key => !rewritten key) (by rfl)]

theorem summary_ne_empty (gate : GateKind) : summary goal evidence gate ≠ "" := by
  unfold summary orText
  dsimp only
  split
  · intro hempty
    have hlength := congrArg String.length hempty
    simp [String.length_append] at hlength
  · assumption

/-- The new entries speak of the required gates, each by its summary. -/
theorem leaves_newEntries {name : String} {failure : Bool} :
    Leaves repr (newEntries goal evidence) name failure ↔ ∃ gate ∈ requiredGates goal, text gate = name ∧
      opensWithFailure (summary goal evidence gate) = failure := by
  constructor
  · rintro ⟨items, hitems, item, hitem, hname, -, hfailure⟩
    obtain ⟨gate, hgate, heq⟩ := List.mem_map.mp hitems
    cases heq
    cases List.mem_singleton.mp hitem
    exact ⟨gate, hgate, hname, hfailure⟩
  · rintro ⟨gate, hgate, hname, hfailure⟩
    have htruthy : (Value.str (summary goal evidence gate)).truthy = true := by
      simp [Value.truthy, summary_ne_empty]
    exact ⟨_, List.mem_map_of_mem hgate, _, List.mem_singleton_self _, hname, htruthy, hfailure⟩

/-- Nothing that was declared before, and nothing that is added, reads as a failure of a name that the file
requires; and something covers it. -/
def Agrees (repr : Value → String) (goal : Goal) (evidence : List EvidenceItem) (data : Dict Key Value)
    (declared : List Value) : Prop :=
  ∀ key ∈ requiredNames data, ∃ name, key = .str name ∧
    ¬ Leaves repr declared name true ∧
    (∀ gate ∈ requiredGates goal, text gate = name → opensWithFailure (summary goal evidence gate) = false) ∧
    (Leaves repr declared name false ∨ ∃ gate ∈ requiredGates goal, text gate = name)

theorem covered_closed {declared : List Value} {key : Key}
    (h : closed.get? (.str "evidence") = some (.list (declared ++ newEntries goal evidence))) :
    Covered (declaredIn repr closed) key ↔ ∃ name, key = .str name ∧
      ¬ Leaves repr declared name true ∧
      (∀ gate ∈ requiredGates goal, text gate = name → opensWithFailure (summary goal evidence gate) = false) ∧
      (Leaves repr declared name false ∨ ∃ gate ∈ requiredGates goal, text gate = name) := by
  cases key with
  | other scalar => simp [Covered, Key.isIn]
  | str name =>
      have hfailing : name ∈ (declaredIn repr closed).names true ↔ _ := mem_names_declaredIn h
      have hpassing : name ∈ (declaredIn repr closed).names false ↔ _ := mem_names_declaredIn h
      simp only [Declared.names] at hfailing hpassing
      simp only [Covered, Key.isIn, decide_eq_false_iff_not, decide_eq_true_iff, hfailing, hpassing, leaves_append,
        leaves_newEntries, Key.str.injEq, exists_eq_left', not_or]
      constructor
      · rintro ⟨⟨hold, hnew⟩, hcover⟩
        refine ⟨hold, fun gate hgate hname => ?_, hcover.imp_right ?_⟩
        · exact Bool.eq_false_iff.mpr fun hfails => hnew ⟨gate, hgate, hname, hfails⟩
        · rintro ⟨gate, hgate, hname, -⟩
          exact ⟨gate, hgate, hname⟩
      · rintro ⟨hold, hnew, hcover⟩
        refine ⟨⟨hold, ?_⟩, hcover.imp_right ?_⟩
        · rintro ⟨gate, hgate, hname, hfails⟩
          rw [hnew gate hgate hname] at hfails
          cases hfails
        · rintro ⟨gate, hgate, hname⟩
          exact ⟨gate, hgate, hname, hnew gate hgate hname⟩

end Close

/-! ## A closed goal and its validator -/

section Complete

variable {host : Host} {repr : Value → String} {goal : Goal} {evidence : List EvidenceItem} {path place : String}
  {file after : Option String}

/-- The document that a file holds. -/
def Holds (host : Host) (file : Option String) (data : Dict Key Value) : Prop :=
  ∃ content, file = some content ∧ host.safeLoad content = .ok (.dict data)

/-- YAML reads back the document that closing the goal writes. -/
def ReadsBack (host : Host) (goal : Goal) (evidence : List EvidenceItem) (file : Option String) : Prop :=
  ∀ data closed written, Holds host file data → closeGoal host.today goal evidence data = .ok closed →
    host.safeDump (.dict closed) = .ok written → host.safeLoad written = .ok (.dict closed)

/-- What the repository asks of a goal file that the runtime has closed. -/
structure Validates (repr : Value → String) (before after : Dict Key Value) : Prop where
  completable : ∃ check, checkDeclaredEvidence repr after = .ok check ∧ check.completable = true
  state : after.get? (.str "state") = some (.str "DONE")
  others : (after.filter fun item => !rewritten item.1) = before.filter fun item => !rewritten item.1

theorem completeGoal_ok (h : completeGoal host goal evidence path file = (.ok place, after)) :
    ∃ data closed written, Holds host file data ∧ closeGoal host.today goal evidence data = .ok closed ∧
      host.safeDump (.dict closed) = .ok written ∧ after = some written := by
  unfold completeGoal at h
  dsimp only at h
  split at h
  · cases h
  · split at h
    · cases h
    · next content =>
      split at h
      · cases h
      · next data hload =>
        split at h
        · cases h
        · next closed hclosed =>
          split at h
          · cases h
          · next written hdump =>
            split at h
            · cases h
              exact ⟨data, closed, written, ⟨content, rfl, hload⟩, hclosed, hdump, rfl⟩
            · cases h
      · cases h

/-- Both refusals come before anything is written. -/
theorem completeGoal_refused {message : String}
    (h : completeGoal host goal evidence path file = (.error (.goalNotCompletable message), after)) :
    after = file := by
  unfold completeGoal at h
  dsimp only at h
  repeat' split at h
  all_goals first | (cases h; rfl) | cases h

theorem validates_iff {data closed : Dict Key Value} {declared : List Value}
    (hclosed : closeGoal host.today goal evidence data = .ok closed)
    (hdeclared : Value.listOr (data.get? (.str "evidence")) = .ok declared) :
    Validates repr data closed ↔ Agrees repr goal evidence data declared := by
  obtain ⟨declared', hdeclared', hevidence, hstate, hgates, hothers⟩ := closeGoal_spec hclosed
  cases hdeclared.symm.trans hdeclared'
  have hrequired : requiredNames closed = requiredNames data := by rw [requiredNames, requiredNames, hgates]
  constructor
  · rintro ⟨hcompletable, -, -⟩ key hkey
    have hcovered := checkDeclaredEvidence_completable.mp hcompletable key (hrequired ▸ hkey)
    exact (covered_closed hevidence).mp hcovered
  · intro hagrees
    refine ⟨checkDeclaredEvidence_completable.mpr fun key hkey => ?_, hstate, hothers⟩
    exact (covered_closed hevidence).mpr (hagrees key (hrequired ▸ hkey))

/-- A goal file that was closed satisfies the repository's validator exactly if the texts in it agree with the
rows that closed it, the texts left from before as well as those written from the evidence. A goal that is
refused leaves its file as it was. -/
theorem completed_goal_validates :
    (∀ repr place, completeGoal host goal evidence path file = (.ok place, after) →
      ReadsBack host goal evidence file → ∃ data declared data', Holds host file data ∧
        Value.listOr (data.get? (.str "evidence")) = .ok declared ∧ Holds host after data' ∧
        (Validates repr data data' ↔ Agrees repr goal evidence data declared)) ∧
    ∀ message, completeGoal host goal evidence path file = (.error (.goalNotCompletable message), after) →
      after = file := by
  refine ⟨fun repr place h hyaml => ?_, fun message h => completeGoal_refused h⟩
  obtain ⟨data, closed, written, hdata, hclosed, hdump, rfl⟩ := completeGoal_ok h
  obtain ⟨declared, hdeclared, -⟩ := closeGoal_spec hclosed
  have hload := hyaml data closed written hdata hclosed hdump
  exact ⟨data, declared, closed, hdata, hdeclared, ⟨written, rfl, hload⟩, validates_iff hclosed hdeclared⟩

end Complete

/-! ### A log file by name -/

def testsGoal : Goal where
  id := "P07-G01"
  gates := ⟨"optional", "required", "optional", "optional"⟩

def gatesValue : Value :=
  .dict [(.str "build", .str "optional"), (.str "tests", .str "required"), (.str "review", .str "optional"),
    (.str "documentation", .str "optional")]

def openData : Dict Key Value := [(.str "id", .str "P07-G01"), (.str "state", .str "ACTIVE"), (.str "gates", gatesValue)]

def openText : String :=
  "id: P07-G01\nstate: ACTIVE\ngates:\n  build: optional\n  tests: required\n  review: optional\n" ++
    "  documentation: optional\n"

def closedData (uri : String) : Dict Key Value :=
  [(.str "id", .str "P07-G01"), (.str "state", .str "DONE"), (.str "gates", gatesValue),
    (.str "evidence", .list [.dict [(.str "tests", .str uri)]]),
    (.str "history", .list [.str "2026-07-31: moved to DONE with evidence for tests."])]

def closedText (uri : String) : String :=
  "id: P07-G01\nstate: DONE\ngates:\n  build: optional\n  tests: required\n  review: optional\n" ++
    "  documentation: optional\nevidence:\n- tests: " ++ uri ++
    "\nhistory:\n- '2026-07-31: moved to DONE with evidence for tests.'\n"

/-- Both documents, as YAML reads and writes them. -/
def testsHost (uri : String) : Host where
  safeLoad content :=
    if content = openText then .ok (.dict openData)
    else if content = closedText uri then .ok (.dict (closedData uri))
    else .error (.exception "ParserError")
  safeDump _ := .ok (closedText uri)
  today := "2026-07-31"
  writeText _ := .ok ()

def testsRepr : Value → String
  | .str s => s!"'{s}'"
  | _ => "..."

def testsEvidence (uri : String) : List EvidenceItem :=
  [{ id := "ev-1", goalId := "P07-G01", gate := .tests, kind := "test_report", verdict := .passed, uri := uri
     runId := none, attachedAt := "2026-07-31" }]

theorem load_open (uri : String) : (testsHost uri).safeLoad openText = .ok (.dict openData) := by
  simp only [testsHost, if_true]

theorem load_closed {uri : String} (h : closedText uri ≠ openText) :
    (testsHost uri).safeLoad (closedText uri) = .ok (.dict (closedData uri)) := by
  simp only [testsHost, if_neg h, if_true]

theorem close_open (uri : String) (h : uri ≠ "") : closeGoal "2026-07-31" testsGoal (testsEvidence uri) openData =
    .ok (closedData uri) := by
  have hsorted : CompletionCheck.sortedText (requiredGates testsGoal) = "tests" := by
    change ", ".intercalate (["tests"].mergeSort _) = "tests"
    rw [List.mergeSort_singleton]
    rfl
  have hsummary : newEntries testsGoal (testsEvidence uri) = [.dict [(.str "tests", .str uri)]] := by
    change [Value.dict [(.str "tests", .str (summary testsGoal (testsEvidence uri) .tests))]] = _
    have hpassing : ((testsEvidence uri).filter fun item =>
      item.goalId = testsGoal.id && item.gate = .tests && item.verdict = .passed) = testsEvidence uri := rfl
    rw [summary, hpassing]
    simp [testsEvidence, orText, h]
  rw [closeGoal, hsorted, hsummary]
  rfl

theorem complete_open (uri : String) (h : uri ≠ "") :
    completeGoal (testsHost uri) testsGoal (testsEvidence uri) "P07-G01.yaml" (some openText) =
      (.ok "P07-G01.yaml", some (closedText uri)) := by
  have hcheck : (checkCompletion testsGoal (testsEvidence uri)).completable = true := rfl
  have hclosed : closeGoal (testsHost uri).today testsGoal (testsEvidence uri) openData = .ok (closedData uri) :=
    close_open uri h
  rw [completeGoal]
  simp only [hcheck, load_open, hclosed]
  rfl

theorem reads_back {uri : String} (h : uri ≠ "") (hne : closedText uri ≠ openText) :
    ReadsBack (testsHost uri) testsGoal (testsEvidence uri) (some openText) := by
  rintro data closed written ⟨_, ⟨⟩, hload⟩ hclosed hdump
  cases (load_open uri).symm.trans hload
  cases (close_open uri h).symm.trans hclosed
  cases hdump
  exact load_closed hne

/-- The gate passed by a report of that name, and one that has no evidence yet. -/
theorem completed_goal_validates_tests :
    (∃ data declared data', Holds (testsHost "tests.log") (some openText) data ∧
      Value.listOr (data.get? (.str "evidence")) = .ok declared ∧
      Holds (testsHost "tests.log") (some (closedText "tests.log")) data' ∧
      (Validates testsRepr data data' ↔ Agrees testsRepr testsGoal (testsEvidence "tests.log") data declared)) ∧
    (completeGoal (testsHost "tests.log") testsGoal [] "P07-G01.yaml" (some openText)).2 = some openText := by
  have hcheck : (checkCompletion testsGoal []).completable = false := rfl
  have hrefused : (completeGoal (testsHost "tests.log") testsGoal [] "P07-G01.yaml" (some openText)).1 =
      .error (.goalNotCompletable (checkCompletion testsGoal []).describe) := by
    rw [completeGoal]
    simp only [hcheck]
    rfl
  refine ⟨completed_goal_validates.1 testsRepr _ (complete_open "tests.log" (by decide))
    (reads_back (by decide) (by decide +kernel)), ?_⟩
  exact completed_goal_validates.2 _ (Prod.ext hrefused rfl)

/-- The tests passed, and their log is called `skipped-tests.log`: the file that this closes fails its gate. -/
theorem completed_goal_fails_gate :
    completeGoal (testsHost "skipped-tests.log") testsGoal (testsEvidence "skipped-tests.log") "P07-G01.yaml"
      (some openText) = (.ok "P07-G01.yaml", some (closedText "skipped-tests.log")) ∧
    (testsHost "skipped-tests.log").safeLoad (closedText "skipped-tests.log") =
      .ok (.dict (closedData "skipped-tests.log")) ∧
    checkDeclaredEvidence testsRepr (closedData "skipped-tests.log") =
      .ok { goalId := "P07-G01", failed := [.tests] } :=
  ⟨complete_open "skipped-tests.log" (by decide), load_closed (by decide +kernel), rfl⟩

end AtlasFlow.Reference.GoalFile
