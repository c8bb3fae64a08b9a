import AtlasFlow.Data.Latest
import AtlasFlow.Data.Lines
import AtlasFlow.Reference.Documents
import Mathlib.Algebra.Order.BigOperators.Group.List
import Mathlib.Algebra.Order.Field.Rat
import Mathlib.Algebra.Order.Ring.NNRat
import Mathlib.Data.List.ReduceOption
import Mathlib.Data.List.TakeWhile

/-!
# Project intelligence

`atlas_flow.evolution.intelligence`: two ledgers to which lines are added, one JSON document a line, and the
summary that is computed from them. Costs are exact numbers here.
-/

namespace AtlasFlow.Reference.Intelligence

open GoalFile (isSpace strip)
open Documents (ParsedDocument isLineBreak splitLines)

/-! ## Records -/

structure TokenUsage where
  input : Nat := 0
  output : Nat := 0
  cached : Nat := 0
  avoidedEstimate : Nat := 0
  deriving DecidableEq

structure CostRange where
  min : NNRat
  max : NNRat
  max_covers_min : min ≤ max
  deriving DecidableEq

inductive CostSource | providerUsage | calculated | estimated | allocated | unknown
  deriving DecidableEq

inductive BillingMode | api | subscription | free | local_ | unknown
  deriving DecidableEq

inductive Confidence | high | medium | low | unknown
  deriving DecidableEq

structure TaskCostRecord where
  schemaVersion : Int := 1
  taskId : String
  title : String
  taskType : String := "unknown"
  components : List String := []
  release : Option String := none
  dateStarted : Option String := none
  dateFinished : Option String := none
  complexity : String := "unknown"
  risk : String := "unknown"
  estimate : Option CostRange := none
  observedTokens : TokenUsage := {}
  observedCostUsd : Option NNRat := none
  costSource : CostSource := .unknown
  billingMode : BillingMode := .unknown
  confidence : Confidence := .unknown
  changes : Dict String Int := []
  result : Dict String Int := []
  maintenanceCostScore : Option Nat := none
  deriving DecidableEq

inductive Severity | low | medium | high | critical
  deriving DecidableEq

inductive DebtStatus | open_ | inProgress | closed
  deriving DecidableEq

structure DebtRecord where
  schemaVersion : Int := 1
  id : String
  introducedBy : Option String := none
  component : String
  reason : String
  severity : Severity
  remediationHours : Option CostRange := none
  status : DebtStatus := .open_
  owner : Option String := none
  deriving DecidableEq

/-- Of `ProjectSummary` what is not a default. -/
structure ProjectSummary where
  project : String
  tasksCompleted : Nat
  tokens : TokenUsage
  observedApiUsd : Option NNRat
  estimatedTotalUsd : Option CostRange
  documentationCoverage : Option NNRat
  technicalDebtOpenItems : Nat
  costByComponent : Dict String NNRat

/-! ## The two files -/

/-- `json.dumps(record.model_dump(mode="json"), sort_keys=True)` and `model_type.model_validate(json.loads(line))`,
for one type of records. -/
structure Codec (ρ : Type) where
  dumps : ρ → List Char
  loads : List Char → Except String ρ

/-- What a record is written as: a line that reads back as the record. JSON escapes every character that ends a
line, and no document is blank. -/
structure Codec.Lawful {ρ : Type} (codec : Codec ρ) (record : ρ) : Prop where
  loads_dumps : codec.loads (codec.dumps record) = .ok record
  single : ∀ c ∈ codec.dumps record, isLineBreak c = false
  visible : ∃ c ∈ codec.dumps record, isSpace c = false

/-- The ledgers as they are on disk; `none` before anything was appended. -/
structure Files where
  ledger : Option (List Char) := none
  debt : Option (List Char) := none

structure IntelligenceStore where
  costCodec : Codec TaskCostRecord
  debtCodec : Codec DebtRecord
  ledgerPath : String
  debtPath : String
  projectName : String

/-- A line is written to the end of a file, which is made if it is not there. -/
def appendLine (file : Option (List Char)) (line : List Char) : Option (List Char) :=
  some (file.getD [] ++ (line ++ ['\n']))

namespace IntelligenceStore

variable (store : IntelligenceStore)

def appendCost (record : TaskCostRecord) (files : Files) : Files :=
  { files with ledger := appendLine files.ledger (store.costCodec.dumps record) }

def appendDebt (record : DebtRecord) (files : Files) : Files :=
  { files with debt := appendLine files.debt (store.debtCodec.dumps record) }

end IntelligenceStore

/-- What `_read_jsonl` makes of a line and its number. -/
def readLine {ρ : Type} (codec : Codec ρ) (path : String) (line : List Char × Nat) : Except PyExn (Option ρ) :=
  if strip line.1 = [] then .ok none
  else match codec.loads line.1 with
    | .ok record => .ok (some record)
    | .error exc => .error (.valueError s!"{path}:{line.2}: invalid intelligence record: {exc}")

/-- `_read_jsonl`. -/
def readJsonl {ρ : Type} (codec : Codec ρ) (path : String) : Option (List Char) → Except PyExn (List ρ)
  | none => .ok []
  | some content => do
    let records ← ((splitLines [] content).zipIdx 1).mapM (readLine codec path)
    return records.reduceOption

/-! ## The summary -/

/-- `round(value, 6)`: the nearest multiple of a millionth, of two the even one. -/
def round6 (value : NNRat) : NNRat :=
  let scaled := value * 10 ^ 6
  let below : Nat := scaled.num / scaled.den
  let rest : Nat := 2 * (scaled.num % scaled.den)
  let nearest : Nat := if rest < scaled.den ∨ (rest = scaled.den ∧ below % 2 = 0) then below else below + 1
  (nearest : NNRat) / 10 ^ 6

/-- One turn of the loop over the components of a record. -/
def addShare (share : NNRat) (costs : Dict String NNRat) (component : String) : Dict String NNRat :=
  costs.set component ((costs.get? component).getD 0 + share)

/-- One turn of the loop that shares out costs. -/
def addComponents (costs : Dict String NNRat) (record : TaskCostRecord) : Dict String NNRat :=
  match record.observedCostUsd with
  | none => costs
  | some cost =>
    if record.components = [] then costs
    else record.components.foldl (addShare (cost / record.components.length)) costs

def costByComponent (selected : List TaskCostRecord) : Dict String NNRat :=
  ((selected.foldl addComponents []).mergeSort fun a b => decide (a.1 ≤ b.1)).map fun item =>
    (item.1, round6 item.2)

/-- `CostRange(min=sum(...), max=sum(...))`; that the sums are in order is what the model checks. -/
def CostRange.sum (ranges : List CostRange) : CostRange where
  min := (ranges.map CostRange.min).sum
  max := (ranges.map CostRange.max).sum
  max_covers_min := List.sum_le_sum fun range _ => range.max_covers_min

/-- The sum of a list, if there is anything in it. -/
def sumOrNone (costs : List NNRat) : Option NNRat := if costs = [] then none else some costs.sum

def tokenSums (selected : List TaskCostRecord) : TokenUsage where
  input := (selected.map fun record => record.observedTokens.input).sum
  output := (selected.map fun record => record.observedTokens.output).sum
  cached := (selected.map fun record => record.observedTokens.cached).sum
  avoidedEstimate := (selected.map fun record => record.observedTokens.avoidedEstimate).sum

/-- `documents` is what `discover_documents` gives. -/
def IntelligenceStore.buildSummary (store : IntelligenceStore)
    (documents : Except PyExn (List ParsedDocument)) (files : Files) : Except PyExn ProjectSummary := do
  let records ← readJsonl store.costCodec store.ledgerPath files.ledger
  let latest := Dict.ofItems (records.map fun record => (record.taskId, record))
  let selected := latest.values
  let observedCosts := selected.filterMap TaskCostRecord.observedCostUsd
  let estimated := selected.filterMap TaskCostRecord.estimate
  let documents ← documents
  let versioned := documents.countP ParsedDocument.hasFrontMatter
  let coverage := if documents = [] then none else some ((versioned : NNRat) / documents.length)
  let debts ← readJsonl store.debtCodec store.debtPath files.debt
  return {
    project := store.projectName
    tasksCompleted := selected.length
    tokens := tokenSums selected
    observedApiUsd := sumOrNone observedCosts
    estimatedTotalUsd := if estimated = [] then none else some (CostRange.sum estimated)
    documentationCoverage := coverage
    technicalDebtOpenItems := debts.countP fun record => record.status ≠ .closed
    costByComponent := costByComponent selected }

/-! ## What is in a file -/

section Lines

theorem splitLines_line {line : List Char} (h : ∀ c ∈ line, isLineBreak c = false) (begun rest : List Char) :
    splitLines begun (line ++ '\n' :: rest) = (begun.reverse ++ line) :: splitLines [] rest := by
  induction line generalizing begun with
  | nil =>
      rw [List.nil_append, List.append_nil, splitLines]
      · rfl
      · simp
  | cons c cs ih =>
      have hc : isLineBreak c = false := h c List.mem_cons_self
      have hcr : c ≠ '\r' := by
        rintro rfl
        exact absurd hc (by decide)
      rw [List.cons_append, splitLines]
      · rw [hc, if_neg Bool.false_ne_true, ih (fun c hmem => h c (List.mem_cons_of_mem _ hmem)) (c :: begun)]
        simp
      · exact fun _ heq _ => hcr heq

/-- Lines that were written one after the other are read one by one. -/
theorem splitLines_terminated {lines : List (List Char)} (h : ∀ line ∈ lines, ∀ c ∈ line, isLineBreak c = false) :
    splitLines [] (Lines.terminated '\n' lines) = lines := by
  induction lines with
  | nil => rfl
  | cons line lines ih =>
      have hcons : Lines.terminated '\n' (line :: lines) = line ++ '\n' :: Lines.terminated '\n' lines := by
        simp [Lines.terminated]
      rw [hcons, splitLines_line (h line List.mem_cons_self), ih fun l hl => h l (List.mem_cons_of_mem _ hl)]
      rfl

end Lines

section Ledger

variable {ρ : Type} {codec : Codec ρ} {records : List ρ} {file : Option (List Char)}

/-- A file to which some records were appended. -/
def Holds (codec : Codec ρ) (records : List ρ) (file : Option (List Char)) : Prop :=
  file = none ∧ records = [] ∨
    file = some (Lines.terminated '\n' (records.map codec.dumps))

theorem Holds.append (h : Holds codec records file) (record : ρ) :
    Holds codec (records ++ [record]) (appendLine file (codec.dumps record)) := by
  obtain ⟨rfl, rfl⟩ | rfl := h
  · exact .inr (by simp [appendLine, Lines.terminated])
  · exact .inr (by simp [appendLine, Lines.terminated])

theorem strip_ne_nil {cs : List Char} (h : ∃ c ∈ cs, isSpace c = false) : strip cs ≠ [] := by
  obtain ⟨c, hc, hspace⟩ := h
  have hleft : cs.dropWhile isSpace ≠ [] := fun hnil => by
    have hall := List.dropWhile_eq_nil_iff.mp hnil c hc
    rw [hspace] at hall
    cases hall
  intro hstrip
  unfold strip at hstrip
  rw [List.reverse_eq_nil_iff, List.dropWhile_eq_nil_iff] at hstrip
  have hhead := List.head_dropWhile_not isSpace hleft
  rw [hstrip _ (List.mem_reverse.mpr (List.head_mem hleft))] at hhead
  cases hhead

theorem readLine_dumps {record : ρ} (h : codec.Lawful record) (path : String) (place : Nat) :
    readLine codec path (codec.dumps record, place) = .ok (some record) := by
  rw [readLine, if_neg (strip_ne_nil h.visible), h.loads_dumps]

theorem mapM_readLine (h : ∀ record ∈ records, codec.Lawful record) (path : String) (start : Nat) :
    ((records.map codec.dumps).zipIdx start).mapM (readLine codec path) =
      .ok (records.map some) := by
  induction records generalizing start with
  | nil => rfl
  | cons record records ih =>
      rw [List.map_cons, List.zipIdx_cons, List.mapM_cons, readLine_dumps (h record List.mem_cons_self),
        ih fun r hr => h r (List.mem_cons_of_mem _ hr)]
      rfl

/-- **What was appended is read back**. -/
theorem readJsonl_of_holds (hlawful : ∀ record ∈ records, codec.Lawful record) (h : Holds codec records file)
    (path : String) : readJsonl codec path file = .ok records := by
  obtain ⟨rfl, rfl⟩ | rfl := h
  · rfl
  · have hsingle : ∀ line ∈ records.map codec.dumps, ∀ c ∈ line, isLineBreak c = false := by
      intro line hline
      obtain ⟨record, hrecord, rfl⟩ := List.mem_map.mp hline
      exact (hlawful record hrecord).single
    have hreduce : (records.map some).reduceOption = records := by
      rw [List.reduceOption, List.filterMap_map]
      exact List.filterMap_some
    rw [readJsonl, splitLines_terminated hsingle, mapM_readLine hlawful]
    change Except.ok (records.map some).reduceOption = _
    rw [hreduce]

end Ledger

/-! ## Sequences of calls -/

inductive Call where
  | appendCost (record : TaskCostRecord)
  | appendDebt (record : DebtRecord)

namespace Call

def perform (store : IntelligenceStore) (files : Files) : Call → Files
  | .appendCost record => store.appendCost record files
  | .appendDebt record => store.appendDebt record files

def cost? : Call → Option TaskCostRecord
  | .appendCost record => some record
  | .appendDebt _ => none

def debt? : Call → Option DebtRecord
  | .appendCost _ => none
  | .appendDebt record => some record

end Call

def run (store : IntelligenceStore) (calls : List Call) : Files := calls.foldl (Call.perform store) {}

section Run

variable {store : IntelligenceStore} {calls : List Call}

theorem run_append (store : IntelligenceStore) (calls : List Call) (call : Call) :
    run store (calls ++ [call]) = call.perform store (run store calls) := by
  rw [run, run, List.foldl_append]
  rfl

/-- Each ledger holds the records of its kind, in the order of the calls. -/
theorem run_holds (store : IntelligenceStore) (calls : List Call) :
    Holds store.costCodec (calls.filterMap Call.cost?) (run store calls).ledger ∧
      Holds store.debtCodec (calls.filterMap Call.debt?) (run store calls).debt := by
  induction calls using List.reverseRecOn with
  | nil => exact ⟨.inl ⟨rfl, rfl⟩, .inl ⟨rfl, rfl⟩⟩
  | append_singleton calls call ih =>
      rw [run_append, List.filterMap_append, List.filterMap_append]
      obtain ⟨hledger, hdebt⟩ := ih
      cases call with
      | appendCost record =>
          rw [show List.filterMap Call.debt? [Call.appendCost record] = [] from rfl, List.append_nil]
          exact ⟨hledger.append record, hdebt⟩
      | appendDebt record =>
          rw [show List.filterMap Call.cost? [Call.appendDebt record] = [] from rfl, List.append_nil]
          exact ⟨hledger, hdebt.append record⟩

end Run

/-! ## The figures of the summary -/

/-- What the summary of two ledgers should say: every figure is about the latest records. -/
structure Summarises (costs : List TaskCostRecord) (debts : List DebtRecord) (summary : ProjectSummary) : Prop where
  openItems : summary.technicalDebtOpenItems =
    (((Log.latest DebtRecord.id debts).filter fun debt => debt.status ≠ .closed).map DebtRecord.id).toFinset.card
  tasks : summary.tasksCompleted = (costs.map TaskCostRecord.taskId).toFinset.card
  tokens : summary.tokens = tokenSums (Log.latest TaskCostRecord.taskId costs)
  observed : summary.observedApiUsd =
    sumOrNone ((Log.latest TaskCostRecord.taskId costs).filterMap TaskCostRecord.observedCostUsd)
  estimated : summary.estimatedTotalUsd =
    let ranges := (Log.latest TaskCostRecord.taskId costs).filterMap TaskCostRecord.estimate
    if ranges = [] then none else some (CostRange.sum ranges)

section Figures

theorem tokenSums_perm {xs ys : List TaskCostRecord} (h : xs.Perm ys) : tokenSums xs = tokenSums ys := by
  unfold tokenSums
  rw [(h.map _).sum_eq, (h.map _).sum_eq, (h.map _).sum_eq, (h.map _).sum_eq]

theorem sumOrNone_perm {xs ys : List NNRat} (h : xs.Perm ys) : sumOrNone xs = sumOrNone ys := by
  have hnil : xs = [] ↔ ys = [] := by rw [← List.length_eq_zero_iff, h.length_eq, List.length_eq_zero_iff]
  simp only [sumOrNone, hnil, h.sum_eq]

theorem sum_perm {xs ys : List CostRange} (h : xs.Perm ys) :
    (if xs = [] then none else some (CostRange.sum xs)) = if ys = [] then none else some (CostRange.sum ys) := by
  have hnil : xs = [] ↔ ys = [] := by rw [← List.length_eq_zero_iff, h.length_eq, List.length_eq_zero_iff]
  have hsum : CostRange.sum xs = CostRange.sum ys := by
    simp only [CostRange.sum, (h.map CostRange.min).sum_eq, (h.map CostRange.max).sum_eq]
  simp only [hnil, hsum]

/-- The ids of the open latest records are as many as those records. -/
theorem card_open (debts : List DebtRecord) :
    (((Log.latest DebtRecord.id debts).filter fun debt => debt.status ≠ .closed).map DebtRecord.id).toFinset.card =
      (Log.latest DebtRecord.id debts).countP fun debt => debt.status ≠ .closed := by
  rw [List.toFinset_card_of_nodup, List.length_map, List.countP_eq_length_filter]
  exact (Log.nodup_keys_latest debts).sublist (List.filter_sublist.map _)

variable {store : IntelligenceStore} {files : Files} {documents : Except PyExn (List ParsedDocument)}
  {found : List ParsedDocument} {costs : List TaskCostRecord} {debts : List DebtRecord}

/-- From two ledgers that can be read and the documents, there is a summary; it counts every debt record that
is not closed, replaced or not. -/
theorem buildSummary_spec (hcosts : readJsonl store.costCodec store.ledgerPath files.ledger = .ok costs)
    (hdebts : readJsonl store.debtCodec store.debtPath files.debt = .ok debts) (hdocuments : documents = .ok found) :
    ∃ summary, store.buildSummary documents files = .ok summary ∧
      summary.technicalDebtOpenItems = debts.countP (fun debt => debt.status ≠ .closed) ∧
      (summary.technicalDebtOpenItems = (Log.latest DebtRecord.id debts).countP (fun debt => debt.status ≠ .closed) →
        Summarises costs debts summary) := by
  have hperm := Log.values_perm_latest TaskCostRecord.taskId costs
  unfold IntelligenceStore.buildSummary
  rw [hcosts, hdebts, hdocuments]
  refine ⟨_, rfl, rfl, fun hopen => ⟨hopen.trans (card_open debts).symm, ?_, ?_, ?_, ?_⟩⟩
  · exact hperm.length_eq.trans (Log.length_latest costs)
  · exact tokenSums_perm hperm
  · exact sumOrNone_perm (hperm.filterMap _)
  · exact sum_perm (hperm.filterMap _)

/-- After any calls, the summary says what it should exactly if no open debt record was ever replaced. -/
theorem buildSummary_iff {calls : List Call}
    (hcosts : ∀ record ∈ calls.filterMap Call.cost?, store.costCodec.Lawful record)
    (hdebts : ∀ record ∈ calls.filterMap Call.debt?, store.debtCodec.Lawful record)
    (hdocuments : documents = .ok found) :
    (∃ summary, store.buildSummary documents (run store calls) = .ok summary ∧
        Summarises (calls.filterMap Call.cost?) (calls.filterMap Call.debt?) summary) ↔
      (calls.filterMap Call.debt?).Pairwise fun debt later => debt.status ≠ .closed → later.id ≠ debt.id := by
  obtain ⟨hledger, hdebt⟩ := run_holds store calls
  obtain ⟨summary, hsummary, hcount, hsummarises⟩ := buildSummary_spec
    (readJsonl_of_holds hcosts hledger store.ledgerPath) (readJsonl_of_holds hdebts hdebt store.debtPath) hdocuments
  have hlatest := Log.countP_latest DebtRecord.id (fun debt => debt.status ≠ .closed) (calls.filterMap Call.debt?)
  simp only [decide_eq_true_eq] at hlatest
  rw [← hlatest, ← hcount]
  constructor
  · rintro ⟨summary', hsummary', hsays⟩
    obtain rfl := Except.ok.inj (hsummary.symm.trans hsummary')
    exact hsays.openItems.trans (card_open _)
  · exact fun hopen => ⟨summary, hsummary, hsummarises hopen⟩

end Figures

/-! ### A task that costs, and a debt that is paid -/

def cost : TaskCostRecord where
  taskId := "T1"
  title := "First"
  observedCostUsd := some (1 / 2)

def costLine : List Char :=
  "\x7b\"billing_mode\": \"unknown\", \"changes\": \x7b\x7d, \"complexity\": \"unknown\", ".toList ++
  "\"components\": [], \"confidence\": \"unknown\", \"cost_source\": \"unknown\", ".toList ++
  "\"date_finished\": null, \"date_started\": null, \"estimate\": null, ".toList ++
  "\"maintenance_cost_score\": null, \"observed_cost_usd\": 0.5, \"observed_tokens\": ".toList ++
  "\x7b\"avoided_estimate\": 0, \"cached\": 0, \"input\": 0, \"output\": 0\x7d, ".toList ++
  "\"release\": null, \"result\": \x7b\x7d, \"risk\": \"unknown\", \"schema_version\": 1, ".toList ++
  "\"task_id\": \"T1\", \"task_type\": \"unknown\", \"title\": \"First\"\x7d".toList

def debt (status : DebtStatus) : DebtRecord where
  id := "D1"
  component := "core"
  reason := "late"
  severity := .low
  status

def debtHead : List Char :=
  "\x7b\"component\": \"core\", \"id\": \"D1\", \"introduced_by\": null, \"owner\": null, ".toList ++
  "\"reason\": \"late\", \"remediation_hours\": null, \"schema_version\": 1, ".toList ++
  "\"severity\": \"low\", \"status\": \"".toList

def DebtStatus.text : DebtStatus → List Char
  | .open_ => "open".toList
  | .inProgress => "in-progress".toList
  | .closed => "closed".toList

def debtLine (status : DebtStatus) : List Char := debtHead ++ status.text ++ "\"\x7d".toList

def notJson : String := "Expecting value: line 1 column 1 (char 0)"

/-- JSON, for the records above. -/
def costCodec : Codec TaskCostRecord where
  dumps _ := costLine
  loads line := if line = costLine then .ok cost else .error notJson

def debtCodec : Codec DebtRecord where
  dumps record := debtLine record.status
  loads line :=
    match [DebtStatus.open_, .inProgress, .closed].find? fun status => debtLine status = line with
    | some status => .ok (debt status)
    | none => .error notJson

theorem loads_costLine : costCodec.loads costLine = .ok cost := by
  unfold costCodec
  dsimp only
  rw [if_pos rfl]

theorem single_costLine : ∀ c ∈ costLine, isLineBreak c = false := by
  have h : costLine.any isLineBreak = false := by decide +kernel
  simpa only [List.any_eq_false, Bool.not_eq_true] using h

theorem visible_costLine : ∃ c ∈ costLine, isSpace c = false := by
  have h : costLine.all isSpace = false := by decide +kernel
  simpa only [List.all_eq_false, Bool.not_eq_true] using h

theorem lawful_cost : costCodec.Lawful cost := ⟨loads_costLine, single_costLine, visible_costLine⟩

theorem lawful_debt (status : DebtStatus) : debtCodec.Lawful (debt status) where
  loads_dumps := by cases status <;> decide +kernel
  single := by
    have h : (debtCodec.dumps (debt status)).any isLineBreak = false := by cases status <;> decide +kernel
    simpa only [List.any_eq_false, Bool.not_eq_true] using h
  visible := by
    have h : (debtCodec.dumps (debt status)).all isSpace = false := by cases status <;> decide +kernel
    simpa only [List.all_eq_false, Bool.not_eq_true] using h

def sampleStore : IntelligenceStore where
  costCodec
  debtCodec
  ledgerPath := "atlas-data/intelligence/ledger.jsonl"
  debtPath := "atlas-data/intelligence/debt.jsonl"
  projectName := "atlas"

/-- A task that is recorded twice and an open debt. -/
theorem summary_of_open_debt :
    ∃ summary, sampleStore.buildSummary (.ok [])
        (run sampleStore [.appendCost cost, .appendDebt (debt .open_), .appendCost cost]) = .ok summary ∧
      Summarises [cost, cost] [debt .open_] summary := by
  refine (buildSummary_iff ?_ ?_ rfl).mpr (List.pairwise_singleton _ _)
  · change ∀ record ∈ [cost, cost], costCodec.Lawful record
    simpa using lawful_cost
  · change ∀ record ∈ [debt .open_], debtCodec.Lawful record
    simpa using lawful_debt .open_

/-- A debt that was open and is closed: it still counts as open. -/
theorem closed_debt_is_counted :
    ∃ summary, sampleStore.buildSummary (.ok [])
        (run sampleStore [.appendDebt (debt .open_), .appendDebt (debt .closed)]) = .ok summary ∧
      summary.technicalDebtOpenItems = 1 ∧ ¬ Summarises [] [debt .open_, debt .closed] summary := by
  obtain ⟨hledger, hdebt⟩ := run_holds sampleStore [.appendDebt (debt .open_), .appendDebt (debt .closed)]
  have hcosts : ∀ record ∈ ([] : List TaskCostRecord), sampleStore.costCodec.Lawful record := by simp
  have hdebts : ∀ record ∈ [debt .open_, debt .closed], sampleStore.debtCodec.Lawful record := by
    change ∀ record ∈ [debt .open_, debt .closed], debtCodec.Lawful record
    simpa using ⟨lawful_debt .open_, lawful_debt .closed⟩
  have hnone : (.ok [] : Except PyExn (List ParsedDocument)) = .ok [] := rfl
  obtain ⟨summary, hsummary, hcount, -⟩ := buildSummary_spec (readJsonl_of_holds hcosts hledger _)
    (readJsonl_of_holds hdebts hdebt _) hnone
  refine ⟨summary, hsummary, hcount, fun h => ?_⟩
  have hopen := h.openItems
  rw [hcount] at hopen
  exact absurd hopen (by decide)

end AtlasFlow.Reference.Intelligence
