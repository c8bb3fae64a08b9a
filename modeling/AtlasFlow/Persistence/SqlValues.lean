import AtlasFlow.Domain.Exceptions
import AtlasFlow.Data.Attempts

/-!
# The mapping between domain values and their stored text

`SqlValues`: how every enumeration is spelled in the database, and the strict parse that reads a
spelling back. An enumeration that has stored spellings is `Spelled`; its instance carries the proof
that the two switches, `Text` and `…Of`, agree on every member, so a value that was written is always
read back (`ofText_text`) and no two members share a spelling (`text_injective`).

A moment is stored as the ISO text of its UTC instant, which keeps every tick and drops the offset;
the column is modelled by the instant. A JSON column is modelled by the tree its text denotes.
-/

namespace AtlasFlow.SqlValues

/-! ## Enumerations -/

/-- An enumeration with stored spellings: the switch that writes it, the switch that reads it, and
that the second undoes the first. -/
class Spelled (α : Type) where
  typeName : String
  text : α → String
  switch : List (String × α)
  switch_text : ∀ a, switch.find? (fun arm => arm.1 = text a) = some (text a, a)
  switch_sound : ∀ arm ∈ switch, arm.1 = text arm.2

export Spelled (text)

variable {α : Type} [Spelled α]

/-- `Unreadable`. -/
def unreadable (type text : String) : Exn :=
  .persistence s!"Stored value '{text}' is not a known {type}"

/-- The strict parse: an unrecognised value throws rather than falling back to a default. -/
def ofText (s : String) : Except Exn α :=
  match (Spelled.switch : List (String × α)).find? (fun arm => arm.1 = s) with
  | some arm => .ok arm.2
  | none => .error (unreadable (Spelled.typeName α) s)

/-- What was written is read back. -/
@[simp] theorem ofText_text (a : α) : ofText (text a) = .ok a := by
  rw [ofText, Spelled.switch_text]

/-- Only a member's spelling is read as that member. -/
theorem ofText_eq_ok {s : String} {a : α} : ofText s = .ok a ↔ s = text a := by
  constructor
  · intro h
    unfold ofText at h
    split at h
    · next arm harm =>
        have hs : arm.1 = s := by simpa using List.find?_some harm
        have hsound := Spelled.switch_sound arm (List.mem_of_find?_eq_some harm)
        cases h
        rw [← hs, hsound]
    · cases h
  · rintro rfl
    exact ofText_text a

/-- No two members share a spelling. -/
theorem text_injective : Function.Injective (text : α → String) := by
  intro a b hab
  have h : (.ok a : Except Exn α) = .ok b := by rw [← ofText_text a, hab, ofText_text]
  exact Except.ok.inj h

@[simp] theorem text_inj {a b : α} : text a = text b ↔ a = b := text_injective.eq_iff

instance : Spelled RunState where
  typeName := "RunState"
  text
    | .created => "CREATED"
    | .planning => "PLANNING"
    | .ready => "READY"
    | .running => "RUNNING"
    | .verifying => "VERIFYING"
    | .reviewing => "REVIEWING"
    | .completed => "COMPLETED"
    | .blocked => "BLOCKED"
    | .cancelled => "CANCELLED"
    | .failed => "FAILED"
  switch :=
    [("CREATED", .created), ("PLANNING", .planning), ("READY", .ready), ("RUNNING", .running),
      ("VERIFYING", .verifying), ("REVIEWING", .reviewing), ("COMPLETED", .completed),
      ("BLOCKED", .blocked), ("CANCELLED", .cancelled), ("FAILED", .failed)]
  switch_text a := by cases a <;> decide
  switch_sound := by decide

instance : Spelled TaskState where
  typeName := "TaskState"
  text
    | .planned => "PLANNED"
    | .ready => "READY"
    | .running => "RUNNING"
    | .succeeded => "SUCCEEDED"
    | .blocked => "BLOCKED"
    | .failed => "FAILED"
    | .cancelled => "CANCELLED"
    | .superseded => "SUPERSEDED"
  switch :=
    [("PLANNED", .planned), ("READY", .ready), ("RUNNING", .running), ("SUCCEEDED", .succeeded),
      ("BLOCKED", .blocked), ("FAILED", .failed), ("CANCELLED", .cancelled),
      ("SUPERSEDED", .superseded)]
  switch_text a := by cases a <;> decide
  switch_sound := by decide

instance : Spelled AttemptState where
  typeName := "AttemptState"
  text
    | .created => "CREATED"
    | .starting => "STARTING"
    | .running => "RUNNING"
    | .completed => "COMPLETED"
    | .failed => "FAILED"
    | .cancelled => "CANCELLED"
  switch :=
    [("CREATED", .created), ("STARTING", .starting), ("RUNNING", .running),
      ("COMPLETED", .completed), ("FAILED", .failed), ("CANCELLED", .cancelled)]
  switch_text a := by cases a <;> decide
  switch_sound := by decide

instance : Spelled PlanState where
  typeName := "PlanState"
  text
    | .draft => "DRAFT"
    | .locked => "LOCKED"
    | .consumed => "CONSUMED"
  switch := [("DRAFT", .draft), ("LOCKED", .locked), ("CONSUMED", .consumed)]
  switch_text a := by cases a <;> decide
  switch_sound := by decide

instance : Spelled EventType where
  typeName := "EventType"
  text
    | .runStarted => "atlas.run.started"
    | .runCompleted => "atlas.run.completed"
    | .runFailed => "atlas.run.failed"
    | .taskReady => "atlas.task.ready"
    | .taskSucceeded => "atlas.task.succeeded"
    | .taskFailed => "atlas.task.failed"
    | .attemptStarted => "atlas.attempt.started"
    | .attemptCompleted => "atlas.attempt.completed"
    | .attemptFailed => "atlas.attempt.failed"
    | .gatePassed => "atlas.gate.passed"
    | .gateFailed => "atlas.gate.failed"
    | .stateChange => "atlas.state.change"
  switch :=
    [("atlas.run.started", .runStarted), ("atlas.run.completed", .runCompleted),
      ("atlas.run.failed", .runFailed), ("atlas.task.ready", .taskReady),
      ("atlas.task.succeeded", .taskSucceeded), ("atlas.task.failed", .taskFailed),
      ("atlas.attempt.started", .attemptStarted), ("atlas.attempt.completed", .attemptCompleted),
      ("atlas.attempt.failed", .attemptFailed), ("atlas.gate.passed", .gatePassed),
      ("atlas.gate.failed", .gateFailed), ("atlas.state.change", .stateChange)]
  switch_text a := by cases a <;> decide
  switch_sound := by decide

instance : Spelled RiskLevel where
  typeName := "RiskLevel"
  text
    | .low => "low"
    | .medium => "medium"
    | .high => "high"
  switch := [("low", .low), ("medium", .medium), ("high", .high)]
  switch_text a := by cases a <;> decide
  switch_sound := by decide

instance : Spelled AutonomyLevel where
  typeName := "AutonomyLevel"
  text
    | .supervised => "supervised"
    | .agentic => "agentic"
  switch := [("supervised", .supervised), ("agentic", .agentic)]
  switch_text a := by cases a <;> decide
  switch_sound := by decide

instance : Spelled GateKind where
  typeName := "GateKind"
  text
    | .build => "build"
    | .tests => "tests"
    | .review => "review"
    | .documentation => "documentation"
  switch :=
    [("build", .build), ("tests", .tests), ("review", .review), ("documentation", .documentation)]
  switch_text a := by cases a <;> decide
  switch_sound := by decide

/-! ## Moments and JSON columns -/

/-- `Text(DateTimeOffset)`: the instant, in UTC. -/
def momentText (moment : DateTimeOffset) : Nat := moment.utcTicks

/-- `MomentOf`: what was written in UTC is read with offset zero. -/
def momentOf (text : Nat) : DateTimeOffset := ⟨text, 0⟩

/-- The moment a stored text stands for. -/
def toUniversalTime (moment : DateTimeOffset) : DateTimeOffset := ⟨moment.utcTicks, 0⟩

@[simp] theorem momentOf_momentText (moment : DateTimeOffset) :
    momentOf (momentText moment) = toUniversalTime moment := rfl

@[simp] theorem momentText_toUniversalTime (moment : DateTimeOffset) :
    momentText (toUniversalTime moment) = momentText moment := rfl

/-- `SqlValues.Json`: a JSON array of strings. -/
def json (values : List String) : Json := .arr (values.map .str)

/-- `node?.GetValue<string>() ?? string.Empty`. -/
def stringOf : Json → Except Exn String
  | .null => .ok ""
  | .str s => .ok s
  | _ => .error .invalidOperation

/-- `SqlValues.StringsOf`. -/
def stringsOf : Json → Except Exn (List String)
  | .arr items => items.mapM stringOf
  | _ => .ok []

@[simp] theorem stringsOf_json (values : List String) : stringsOf (json values) = .ok values := by
  have hread : ∀ value, stringOf (Json.str value) = .ok value := fun _ => rfl
  exact Attempts.mapM_map_self hread values

end AtlasFlow.SqlValues
