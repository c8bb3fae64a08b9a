import AtlasFlow.Reference.Registry

/-!
# Freshness

`freshness_of` of `evolution/documents.py`: whether a document is due for a review. A review interval is a
numeral of any length and a unit, and it is added to a date. Dates and spans of time have limits, and what is
raised beyond them is not what `freshness_of` catches.
-/

namespace AtlasFlow.Reference.Freshness

open Attempts
open GoalFile (isSpace strip)
open Registry

/-! ## Dates -/

inductive DateError where
  | valueError (message : String)
  | overflowError (message : String)
  deriving DecidableEq, Repr

/-- `date.max.toordinal()`. -/
def maxOrdinal : Nat := 3652059

/-- `timedelta.max.days`. -/
def maxDays : Nat := 999999999

/-- A `date`, by its ordinal: January 1 of year 1 has ordinal 1. -/
structure Date where
  ordinal : Nat
  pos : 1 ≤ ordinal
  le_max : ordinal ≤ maxOrdinal
  deriving DecidableEq, Repr

/-- A `timedelta` of whole days that is not negative. -/
structure Timedelta where
  days : Nat
  le_max : days ≤ maxDays
  deriving DecidableEq, Repr

instance : LE Date := ⟨fun a b => a.ordinal ≤ b.ordinal⟩

instance (a b : Date) : Decidable (a ≤ b) := inferInstanceAs (Decidable (a.ordinal ≤ b.ordinal))

/-- `timedelta(days=days)`. -/
def timedelta (days : Nat) : Except DateError Timedelta :=
  if h : days ≤ maxDays then .ok ⟨days, h⟩
  else .error (.overflowError s!"days={days}; must have magnitude <= 999999999")

/-- `date + timedelta`. -/
def Date.add (date : Date) (delta : Timedelta) : Except DateError Date :=
  if h : date.ordinal + delta.days ≤ maxOrdinal then
    .ok ⟨date.ordinal + delta.days, Nat.le_trans date.pos (Nat.le_add_right _ _), h⟩
  else .error (.overflowError "date value out of range")

/-! ## Intervals -/

/-- The zeros of the decimal digits of Unicode; each is followed by the other nine. -/
def decimalZeros : List Nat :=
  [0x30, 0x660, 0x6F0, 0x7C0, 0x966, 0x9E6, 0xA66, 0xAE6, 0xB66, 0xBE6, 0xC66, 0xCE6, 0xD66, 0xDE6, 0xE50, 0xED0,
    0xF20, 0x1040, 0x1090, 0x17E0, 0x1810, 0x1946, 0x19D0, 0x1A80, 0x1A90, 0x1B50, 0x1BB0, 0x1C40, 0x1C50, 0xA620,
    0xA8D0, 0xA900, 0xA9D0, 0xA9F0, 0xAA50, 0xABF0, 0xFF10, 0x104A0, 0x10D30, 0x11066, 0x110F0, 0x11136, 0x111D0,
    0x112F0, 0x11450, 0x114D0, 0x11650, 0x116C0, 0x11730, 0x118E0, 0x11950, 0x11C50, 0x11D50, 0x11DA0, 0x11F50,
    0x16A60, 0x16AC0, 0x16B50, 0x1D7CE, 0x1D7D8, 0x1D7E2, 0x1D7EC, 0x1D7F6, 0x1E140, 0x1E2F0, 0x1E4F0, 0x1E950,
    0x1FBF0]

def decimalValue (c : Char) : Option Nat :=
  (decimalZeros.find? fun first => first ≤ c.toNat && c.toNat < first + 10).map (c.toNat - ·)

/-- `\d`. -/
def isDecimal (c : Char) : Bool := (decimalValue c).isSome

/-- What a text of decimal digits says. -/
def numeral (cs : List Char) : Nat := cs.foldl (fun n c => 10 * n + (decimalValue c).getD 0) 0

/-- `int(text)`, of a text of decimal digits: no more than 4300 of them are read. -/
def int (cs : List Char) : Except DateError Nat :=
  if cs.length ≤ 4300 then .ok (numeral cs)
  else .error (.valueError "Exceeds the limit (4300 digits) for integer string conversion")

/-- `_INTERVAL.fullmatch(text)`: the amount and the unit. No blank is a digit, so there is one way to match. -/
def matchInterval (cs : List Char) : Option (List Char × Char) :=
  match (cs.dropWhile isDecimal).dropWhile isSpace with
  | [unit] =>
    if cs.takeWhile isDecimal ≠ [] ∧ unit.toLower ∈ ['d', 'w', 'm'] then some (cs.takeWhile isDecimal, unit) else none
  | _ => none

def daysOf (unit : Char) : Nat :=
  match unit.toLower with
  | 'd' => 1
  | 'w' => 7
  | _ => 30

def parseReviewInterval (value : String) : Except DateError Timedelta :=
  match matchInterval (strip value.toList) with
  | none => .error (.valueError s!"invalid review interval '{value}', expected e.g. 180d")
  | some (amount, unit) => do timedelta ((← int amount) * daysOf unit)

/-! ## Freshness -/

/-- What `freshness_of` reads of `DocumentMetadata` over what the index reads. -/
structure ReviewedMetadata extends toIndexed : DocumentMetadata where
  lastReviewed : Option Date := none
  reviewInterval : String := "180d"

/-- `last_reviewed + parse_review_interval(review_interval)`. -/
def dueDate (lastReviewed : Date) (reviewInterval : String) : Except DateError Date := do
  lastReviewed.add (← parseReviewInterval reviewInterval)

/-- `freshness_of`, on the day `current`. -/
def freshnessOf (metadata : ReviewedMetadata) (current : Date) : Except DateError String :=
  match metadata.status with
  | .deprecated => .ok "DEPRECATED"
  | .archived => .ok "ARCHIVED"
  | _ =>
    match metadata.lastReviewed with
    | none => .ok "ACTIVE"
    | some lastReviewed =>
      match dueDate lastReviewed metadata.reviewInterval with
      | .error (.valueError _) => .ok "NEEDS REVIEW"
      | .error exc => .error exc
      | .ok due => .ok (if current ≤ due then "ACTIVE" else "NEEDS REVIEW")

structure FreshnessRow where
  id : String
  path : String
  status : String
  deriving DecidableEq, Repr

/-- The loop of `freshness_report`, over the paths of the documents and their metadata. -/
def freshnessReport (documents : List (String × ReviewedMetadata)) (today : Date) :
    Except DateError (List FreshnessRow) :=
  documents.mapM fun document => do
    return ⟨document.2.id, document.1, ← freshnessOf document.2 today⟩

/-! ## When a review is due -/

section Due

variable {lastReviewed : Date} {interval : String} {amount : List Char} {unit : Char}

theorem dueDate_malformed (h : matchInterval (strip interval.toList) = none) :
    ∃ message, dueDate lastReviewed interval = .error (.valueError message) := by
  unfold dueDate parseReviewInterval
  rw [h]
  exact ⟨_, rfl⟩

/-- A numeral that is not read is taken for a malformed interval. -/
theorem dueDate_long (h : matchInterval (strip interval.toList) = some (amount, unit)) (hlong : 4300 < amount.length) :
    ∃ message, dueDate lastReviewed interval = .error (.valueError message) := by
  unfold dueDate parseReviewInterval
  simp only [h, int, if_neg (Nat.not_le.mpr hlong)]
  exact ⟨_, rfl⟩

theorem dueDate_beyond (h : matchInterval (strip interval.toList) = some (amount, unit)) (hread : amount.length ≤ 4300)
    (hbeyond : maxOrdinal < lastReviewed.ordinal + numeral amount * daysOf unit) :
    ∃ message, dueDate lastReviewed interval = .error (.overflowError message) := by
  unfold dueDate parseReviewInterval
  simp only [h, int, if_pos hread]
  by_cases hdays : numeral amount * daysOf unit ≤ maxDays
  · simp only [bind, Except.bind, timedelta, dif_pos hdays, Date.add, dif_neg (Nat.not_le.mpr hbeyond)]
    exact ⟨_, rfl⟩
  · simp only [bind, Except.bind, timedelta, dif_neg hdays]
    exact ⟨_, rfl⟩

theorem dueDate_within (h : matchInterval (strip interval.toList) = some (amount, unit)) (hread : amount.length ≤ 4300)
    (hwithin : lastReviewed.ordinal + numeral amount * daysOf unit ≤ maxOrdinal) :
    ∃ due, dueDate lastReviewed interval = .ok due ∧
      due.ordinal = lastReviewed.ordinal + numeral amount * daysOf unit := by
  have hdays : numeral amount * daysOf unit ≤ maxDays := by
    unfold maxOrdinal at hwithin
    unfold maxDays
    omega
  unfold dueDate parseReviewInterval
  simp only [h, int, if_pos hread, bind, Except.bind, timedelta, dif_pos hdays, Date.add, dif_pos hwithin]
  exact ⟨_, rfl, rfl⟩

end Due

/-- A document whose age counts, last reviewed on `lastReviewed`. -/
def Live (metadata : ReviewedMetadata) (lastReviewed : Date) : Prop :=
  metadata.status ≠ .deprecated ∧ metadata.status ≠ .archived ∧ metadata.lastReviewed = some lastReviewed

section Freshness

variable {metadata : ReviewedMetadata} {lastReviewed : Date}

theorem freshnessOf_live (h : Live metadata lastReviewed) (current : Date) :
    freshnessOf metadata current =
      match dueDate lastReviewed metadata.reviewInterval with
      | .error (.valueError _) => .ok "NEEDS REVIEW"
      | .error exc => .error exc
      | .ok due => .ok (if current ≤ due then "ACTIVE" else "NEEDS REVIEW") := by
  obtain ⟨hdeprecated, harchived, hlast⟩ := h
  unfold freshnessOf
  rw [hlast]
  cases hstatus : metadata.status with
  | deprecated => exact absurd hstatus hdeprecated
  | archived => exact absurd hstatus harchived
  | draft => rfl
  | active => rfl
  | reviewNeeded => rfl

/-- Any other document has one status, whatever the day. -/
theorem freshnessOf_not_live (h : ∀ lastReviewed, ¬ Live metadata lastReviewed) :
    ∃ status, status ≠ "NEEDS REVIEW" ∧ ∀ current, freshnessOf metadata current = .ok status := by
  unfold freshnessOf
  cases hstatus : metadata.status with
  | deprecated => exact ⟨"DEPRECATED", by decide, fun _ => rfl⟩
  | archived => exact ⟨"ARCHIVED", by decide, fun _ => rfl⟩
  | _ =>
      cases hlast : metadata.lastReviewed with
      | none => exact ⟨"ACTIVE", by decide, fun _ => rfl⟩
      | some lastReviewed =>
          refine absurd ⟨?_, ?_, hlast⟩ (h lastReviewed)
          all_goals
            rw [hstatus]
            decide

/-- What freshness is to be: every day has a status, a review that is due stays due, and with a well-formed
interval it is due from the day after the last on. -/
structure Fresh (metadata : ReviewedMetadata) : Prop where
  total : ∀ current, ∃ status, freshnessOf metadata current = .ok status
  monotone : ∀ first second : Date, first ≤ second → freshnessOf metadata first = .ok "NEEDS REVIEW" →
    freshnessOf metadata second = .ok "NEEDS REVIEW"
  exact : ∀ lastReviewed amount unit, Live metadata lastReviewed →
    matchInterval (strip metadata.reviewInterval.toList) = some (amount, unit) →
    ∀ current, freshnessOf metadata current = .ok "ACTIVE" ↔
      current.ordinal ≤ lastReviewed.ordinal + numeral amount * daysOf unit

/-- The numeral of a well-formed interval is read, and the day on which a review is due is a date. -/
def InRange (metadata : ReviewedMetadata) : Prop :=
  ∀ lastReviewed amount unit, Live metadata lastReviewed →
    matchInterval (strip metadata.reviewInterval.toList) = some (amount, unit) →
    amount.length ≤ 4300 ∧ lastReviewed.ordinal + numeral amount * daysOf unit ≤ maxOrdinal

theorem inRange_of_fresh (h : Fresh metadata) : InRange metadata := by
  intro lastReviewed amount unit hlive hmatch
  have hexact := h.exact lastReviewed amount unit hlive hmatch lastReviewed
  have hactive := hexact.mpr (Nat.le_add_right _ _)
  rw [freshnessOf_live hlive] at hactive
  by_cases hread : amount.length ≤ 4300
  · refine ⟨hread, ?_⟩
    by_contra hbeyond
    obtain ⟨message, hdue⟩ := dueDate_beyond hmatch hread (Nat.not_le.mp hbeyond)
    rw [hdue] at hactive
    cases hactive
  · obtain ⟨message, hdue⟩ : ∃ message, dueDate lastReviewed metadata.reviewInterval = .error (.valueError message) :=
      dueDate_long hmatch (Nat.not_le.mp hread)
    rw [hdue] at hactive
    injection hactive with hstatus
    exact absurd hstatus (by decide)

theorem fresh_of_inRange (h : InRange metadata) : Fresh metadata := by
  by_cases hlive : ∃ lastReviewed, Live metadata lastReviewed
  · obtain ⟨lastReviewed, hlive⟩ := hlive
    cases hmatch : matchInterval (strip metadata.reviewInterval.toList) with
    | none =>
        obtain ⟨message, hdue⟩ : ∃ message,
            dueDate lastReviewed metadata.reviewInterval = .error (.valueError message) := dueDate_malformed hmatch
        have hall : ∀ current, freshnessOf metadata current = .ok "NEEDS REVIEW" := by
          intro current
          rw [freshnessOf_live hlive, hdue]
        constructor
        · exact fun current => ⟨_, hall current⟩
        · exact fun _ second _ _ => hall second
        · intro _ amount unit _ hsome
          rw [hmatch] at hsome
          cases hsome
    | some found =>
        obtain ⟨amount, unit⟩ := found
        obtain ⟨hread, hwithin⟩ := h lastReviewed amount unit hlive hmatch
        obtain ⟨due, hdue, hordinal⟩ := dueDate_within hmatch hread hwithin
        have hall : ∀ current, freshnessOf metadata current =
            .ok (if current ≤ due then "ACTIVE" else "NEEDS REVIEW") := by
          intro current
          rw [freshnessOf_live hlive, hdue]
        have hactive : ∀ current, freshnessOf metadata current = .ok "ACTIVE" ↔ current ≤ due := by
          intro current
          rw [hall]
          by_cases hle : current ≤ due
          · simp [hle]
          · simp [hle]
        have hneeds : ∀ current, freshnessOf metadata current = .ok "NEEDS REVIEW" ↔ ¬ current ≤ due := by
          intro current
          rw [hall]
          by_cases hle : current ≤ due
          · simp [hle]
          · simp [hle]
        constructor
        · exact fun current => ⟨_, hall current⟩
        · intro first second hle hfirst
          rw [hneeds] at hfirst ⊢
          exact fun hsecond => hfirst (Nat.le_trans hle hsecond)
        · intro lastReviewed' amount' unit' hlive' hmatch' current
          cases hlive.2.2.symm.trans hlive'.2.2
          cases hmatch.symm.trans hmatch'
          rw [hactive, ← hordinal]
          rfl
  · obtain ⟨status, hne, hall⟩ := freshnessOf_not_live fun lastReviewed h => hlive ⟨lastReviewed, h⟩
    constructor
    · exact fun current => ⟨status, hall current⟩
    · intro first second _ hfirst
      rw [hall] at hfirst
      cases hfirst
      exact absurd rfl hne
    · intro lastReviewed _ _ h
      exact absurd ⟨lastReviewed, h⟩ hlive

/-- Freshness is total, monotone and exact for just the documents whose interval is read and stays in the range
of dates. -/
theorem fresh_iff (metadata : ReviewedMetadata) : Fresh metadata ↔ InRange metadata :=
  ⟨inRange_of_fresh, fresh_of_inRange⟩

/-- A document has a status on every day or on none: none if its numeral is read and leads out of range. -/
theorem freshnessOf_ok_iff (metadata : ReviewedMetadata) (current : Date) :
    (∃ status, freshnessOf metadata current = .ok status) ↔
      ∀ lastReviewed amount unit, Live metadata lastReviewed →
        matchInterval (strip metadata.reviewInterval.toList) = some (amount, unit) → amount.length ≤ 4300 →
        lastReviewed.ordinal + numeral amount * daysOf unit ≤ maxOrdinal := by
  constructor
  · rintro ⟨status, hstatus⟩ lastReviewed amount unit hlive hmatch hread
    by_contra hbeyond
    obtain ⟨message, hdue⟩ := dueDate_beyond hmatch hread (Nat.not_le.mp hbeyond)
    rw [freshnessOf_live hlive, hdue] at hstatus
    cases hstatus
  · intro h
    by_cases hlong : ∃ lastReviewed amount unit, Live metadata lastReviewed ∧
        matchInterval (strip metadata.reviewInterval.toList) = some (amount, unit) ∧ 4300 < amount.length
    · obtain ⟨lastReviewed, amount, unit, hlive, hmatch, hlong⟩ := hlong
      obtain ⟨message, hdue⟩ : ∃ message,
          dueDate lastReviewed metadata.reviewInterval = .error (.valueError message) := dueDate_long hmatch hlong
      rw [freshnessOf_live hlive, hdue]
      exact ⟨_, rfl⟩
    · have hrange : InRange metadata := by
        intro lastReviewed amount unit hlive hmatch
        have hread : amount.length ≤ 4300 := by
          by_contra hread
          exact hlong ⟨lastReviewed, amount, unit, hlive, hmatch, Nat.not_le.mp hread⟩
        exact ⟨hread, h lastReviewed amount unit hlive hmatch hread⟩
      exact (fresh_of_inRange hrange).total current

/-- One document without a status takes the report of all of them down. -/
theorem freshnessReport_ok_iff (documents : List (String × ReviewedMetadata)) (today : Date) :
    (∃ rows, freshnessReport documents today = .ok rows) ↔
      ∀ document ∈ documents, ∃ status, freshnessOf document.2 today = .ok status := by
  unfold freshnessReport
  rw [exists_mapM_ok]
  apply forall₂_congr
  intro document _
  constructor
  · rintro ⟨row, hrow⟩
    obtain ⟨status, hstatus, _⟩ := of_bind_ok hrow
    exact ⟨status, hstatus⟩
  · rintro ⟨status, hstatus⟩
    rw [hstatus]
    exact ⟨_, rfl⟩

end Freshness

/-! ### A review in ten thousand years -/

def distant : ReviewedMetadata where
  id := "DOC-DISTANT"
  title := "Distant"
  section_ := none
  estimatedTokens := none
  id_ne := by decide
  lastReviewed := some ⟨737425, by decide, by decide⟩
  reviewInterval := "9999999d"

/-- `freshness_of` raises on every day. -/
theorem distant_not_fresh : (∀ current, ∃ message, freshnessOf distant current = .error (.overflowError message)) ∧
    ¬ Fresh distant := by
  have hraises : ∀ current, ∃ message, freshnessOf distant current = .error (.overflowError message) := by
    intro current
    have hlive : Live distant ⟨737425, by decide, by decide⟩ := ⟨by decide, by decide, rfl⟩
    have hdue : dueDate ⟨737425, by decide, by decide⟩ distant.reviewInterval =
        .error (.overflowError "date value out of range") := by decide +kernel
    rw [freshnessOf_live hlive, hdue]
    exact ⟨_, rfl⟩
  refine ⟨hraises, fun h => ?_⟩
  obtain ⟨message, hmessage⟩ := hraises ⟨1, by decide, by decide⟩
  obtain ⟨status, hstatus⟩ := h.total ⟨1, by decide, by decide⟩
  rw [hmessage] at hstatus
  cases hstatus

end AtlasFlow.Reference.Freshness
