import Mathlib.Data.List.DropRight
import Mathlib.Data.Nat.Log
import Mathlib.Data.Rat.Floor
import AtlasFlow.Reference.Models

/-!
# The budget of a run

`execution/budget.py`. A cap of zero tokens or zero cost is no cap.
-/

namespace AtlasFlow.Reference

/-! ## The text of a refusal -/

/-- `n / d`, rounded to the nearest integer, a tie to the even one. -/
def roundHalfEven (x : Rat) : Int :=
  let down := x.floor
  let rest := x - down
  if rest < 1 / 2 then down
  else if 1 / 2 < rest then down + 1
  else if down % 2 = 0 then down
  else down + 1

/-- The decimal exponent of a positive number. -/
def exponent (x : Rat) : Int :=
  if 1 ≤ x then (Nat.log 10 x.floor.toNat : Int) else -(Nat.clog 10 x⁻¹.ceil.toNat : Int)

/-- The fraction of a decimal numeral: without trailing zeros, and without a point if none is left. -/
def fraction (digits : List Char) : List Char :=
  match digits.rdropWhile (· = '0') with
  | [] => []
  | kept => '.' :: kept

/-- A positive number with six significant digits. -/
def numeral (x : Rat) : List Char :=
  let scaled := roundHalfEven (x / 10 ^ (exponent x - 5))
  let (e, scaled) := if scaled = 10 ^ 6 then (exponent x + 1, scaled / 10) else (exponent x, scaled)
  let digits := (toString scaled.toNat).toList
  if e < -4 ∨ 6 ≤ e then
    let power := (toString e.natAbs).toList
    let padded := if power.length = 1 then '0' :: power else power
    let sign := if e < 0 then '-' else '+'
    digits.take 1 ++ fraction (digits.drop 1) ++ 'e' :: sign :: padded
  else if e < 0 then '0' :: fraction (List.replicate (e.natAbs - 1) '0' ++ digits)
  else digits.take (e.toNat + 1) ++ fraction (digits.drop (e.toNat + 1))

/-- `f"{x:g}"`. -/
def formatG (x : Rat) : String :=
  if x = 0 then "0"
  else if x < 0 then String.ofList ('-' :: numeral (-x))
  else String.ofList (numeral x)

/-! ## The ledger -/

inductive BudgetKind | attempts | tokens | cost
  deriving DecidableEq, Repr

def BudgetKind.text : BudgetKind → String
  | .attempts => "attempts"
  | .tokens => "tokens"
  | .cost => "cost"

structure BudgetExceeded where
  kind : BudgetKind
  spent : Rat
  limit : Rat
  deriving DecidableEq, Repr

/-- `str(exc)`. -/
def BudgetExceeded.str (e : BudgetExceeded) : String :=
  s!"Budget exceeded: {e.kind.text} spent {formatG e.spent} of {formatG e.limit} allowed"

structure Usage where
  tokens : Int := 0
  costUsd : Rat := 0
  reported : Bool := false
  deriving DecidableEq, Repr

/-- `Usage.from_result`. -/
def Usage.fromResult (result : RunnerResult) : Usage where
  tokens := result.tokens.getD 0
  costUsd := result.costUsd.getD 0
  reported := result.tokens.isSome || result.costUsd.isSome

structure BudgetLedger where
  maxAttempts : Nat
  maxTokens : Int
  maxCostUsd : Rat
  attempts : Nat := 0
  tokens : Int := 0
  costUsd : Rat := 0
  unmeasuredAttempts : Nat := 0
  deriving DecidableEq, Repr, Inhabited

namespace BudgetLedger

/-- `BudgetLedger.from_config`. -/
def fromConfig (maxRetriesPerTask maxTokensPerRun : Int) (maxCostPerRunUsd : Rat) (taskCount : Nat) :
    BudgetLedger where
  maxAttempts := max 1 taskCount * (1 + maxRetriesPerTask.toNat)
  maxTokens := maxTokensPerRun
  maxCostUsd := maxCostPerRunUsd

/-- `check_can_start_attempt`. -/
def checkCanStartAttempt (b : BudgetLedger) : Except BudgetExceeded Unit :=
  if b.maxAttempts ≤ b.attempts then .error ⟨.attempts, b.attempts, b.maxAttempts⟩
  else if b.maxTokens ≠ 0 ∧ b.maxTokens ≤ b.tokens then .error ⟨.tokens, b.tokens, b.maxTokens⟩
  else if b.maxCostUsd ≠ 0 ∧ b.maxCostUsd ≤ b.costUsd then .error ⟨.cost, b.costUsd, b.maxCostUsd⟩
  else .ok ()

/-- `reserve_attempt`: check and claim happen together. -/
def reserveAttempt (b : BudgetLedger) : Except BudgetExceeded Unit × BudgetLedger :=
  match b.checkCanStartAttempt with
  | .error e => (.error e, b)
  | .ok () => (.ok (), { b with attempts := b.attempts + 1 })

/-- `record`. -/
def record (b : BudgetLedger) (usage : Usage) : BudgetLedger :=
  if usage.reported then
    { b with tokens := b.tokens + usage.tokens, costUsd := b.costUsd + usage.costUsd }
  else { b with unmeasuredAttempts := b.unmeasuredAttempts + 1 }

end BudgetLedger

end AtlasFlow.Reference
