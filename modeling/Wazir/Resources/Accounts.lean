import Wazir.Shared.Dates

/-! Accounts, their limits and prices, and the policy (`resources/types.ts`, `accounts.ts`), with the
accounting windows (`windows.ts`). Amounts are exact rationals where the source adds floating-point
numbers; times are milliseconds. -/

namespace Wazir.Resources

inductive AccountKind where
  | localMachine
  | api
  | subscription
  deriving DecidableEq

inductive LimitUnit where
  | tokens
  | inputTokens
  | outputTokens
  | requests
  | costUsd
  deriving DecidableEq

inductive LimitSource where
  | providerReported
  | providerDocumented
  | configured
  | estimated
  deriving DecidableEq

inductive WorkloadClass where
  | deterministic
  | summarization
  | bulk
  | routine
  | complex
  | criticalReview
  deriving DecidableEq

structure Thresholds where
  advisory : ℚ
  conserve : ℚ
  critical : ℚ

/-- What a limit sets of the thresholds. -/
structure PartialThresholds where
  advisory : Option ℚ
  conserve : Option ℚ
  critical : Option ℚ

/-- `limit` is none when the account has the limit but its value is unknown. -/
structure LimitSpec where
  unit : LimitUnit
  window : String
  limit : Option ℚ
  source : LimitSource
  hard : Option Bool
  thresholds : Option PartialThresholds

/-- USD per million tokens. -/
structure Pricing where
  inputPerMTok : ℚ
  outputPerMTok : ℚ
  cachedInputPerMTok : Option ℚ

/-- One price list, or one for each pattern of model ids. -/
inductive AccountPricing where
  | one (pricing : Pricing)
  | byModel (table : List (String × Pricing))

inductive UnknownLimitPolicy where
  | allow
  | conserve
  | deny
  deriving DecidableEq

structure AccountConfig where
  id : String
  quotaGroup : Option String
  kind : AccountKind
  contextLimits : Option (List (String × ℚ))
  limits : Option (List LimitSpec)
  maxConcurrent : Option ℕ
  rpm : Option ℚ
  tpm : Option ℚ
  pricing : Option AccountPricing
  workloads : Option (List WorkloadClass)
  reserveFor : Option (List WorkloadClass)
  criticalOnly : Option (List WorkloadClass)
  allowPaid : Bool
  enabled : Option Bool
  unknownLimitPolicy : Option UnknownLimitPolicy

structure ResourcePolicy where
  enforce : Bool
  paidApiFallback : Bool
  leaseMs : ℕ
  maxTaskTokens : ℚ
  dailySpendUsd : ℚ
  monthlySpendUsd : ℚ
  localOnlyWorkloads : Option (List WorkloadClass)

def defaultThresholds : Thresholds := ⟨70 / 100, 85 / 100, 95 / 100⟩

def defaultReserveFor : List WorkloadClass := [.complex, .criticalReview]

def defaultCriticalOnly : List WorkloadClass := [.criticalReview]

/-- From the least utilised to the most. -/
inductive BudgetMode where
  | normal
  | unknown
  | advisory
  | conserve
  | critical
  | exhausted
  deriving DecidableEq

/-- `MODE_RANK` -/
def BudgetMode.rank : BudgetMode → ℕ
  | .normal => 0
  | .unknown => 1
  | .advisory => 2
  | .conserve => 3
  | .critical => 4
  | .exhausted => 5

def worse (a b : BudgetMode) : BudgetMode := if a.rank < b.rank then b else a

/-! Prices. -/

/-- A pattern in which `*` stands for any characters of one line. -/
def glob : List Char → List Char → Bool
  | [], cs => cs.isEmpty
  | '*' :: ps, cs => (List.range (cs.length + 1)).any fun n =>
      (cs.take n).all (fun c => !isLineTerminator c) && glob ps (cs.drop n)
  | _ :: _, [] => false
  | p :: ps, c :: cs => p = c && glob ps cs

def pricingFor (account : AccountConfig) (modelId : String) : Option Pricing :=
  match account.pricing with
  | none => none
  | some (.one pricing) => some pricing
  | some (.byModel table) =>
    (table.find? fun entry => glob entry.1.toList modelId.toList).map Prod.snd

def costUsd (pricing : Option Pricing) (input output cachedInput : ℚ) : ℚ :=
  match pricing with
  | none => 0
  | some p =>
    let cached := min cachedInput input
    ((input - cached) * p.inputPerMTok + cached * p.cachedInputPerMTok.getD p.inputPerMTok +
      output * p.outputPerMTok) / 1000000

def isPaid (account : AccountConfig) : Bool := account.kind = .api

/-! Windows. -/

structure WindowBounds where
  start : ℤ
  /-- Exclusive; rolling windows have none. -/
  endsAt : Option ℤ
  resetHint : ℤ

/-- `UNIT_MS` -/
def unitMs : Char → Option ℤ
  | 's' => some 1000
  | 'm' => some 60000
  | 'h' => some 3600000
  | 'd' => some 86400000
  | _ => none

/-- `/^(\d+)(s|m|h|d)$/`, with the length of the window. -/
def rollingLength (spec : String) : Option ℤ :=
  match spec.toList.reverse with
  | [] => none
  | unit :: digits =>
    if digits ≠ [] ∧ digits.all Char.isDigit then
      (unitMs unit).map fun ms => Nat.ofDigitChars 10 digits.reverse 0 * ms
    else none

def dayMs : ℤ := 86400000

/-- The first day of the month after the one that begins on day `first`. -/
def nextMonth (first : ℤ) : ℤ :=
  if (civil (first + 28)).2.2 = 1 then first + 28
  else if (civil (first + 29)).2.2 = 1 then first + 29
  else if (civil (first + 30)).2.2 = 1 then first + 30
  else first + 31

/-- Bounds of the window that contains `now`; calendar windows are UTC. -/
def windowBounds (spec : String) (now : ℤ) : Except String WindowBounds :=
  match rollingLength spec with
  | some length => .ok ⟨now - length, none, now + length⟩
  | none =>
    let days := now / dayMs
    if spec = "day" then .ok ⟨days * dayMs, some ((days + 1) * dayMs), (days + 1) * dayMs⟩
    else if spec = "week" then
      -- 1970-01-01 was a Thursday; weeks begin on Monday
      let monday := days - (days + 3) % 7
      .ok ⟨monday * dayMs, some ((monday + 7) * dayMs), (monday + 7) * dayMs⟩
    else if spec = "month" then
      let first := days - ((civil days).2.2 - 1)
      .ok ⟨first * dayMs, some (nextMonth first * dayMs), nextMonth first * dayMs⟩
    else .error ("INVALID_WINDOW: " ++ spec)

def isValidWindow (spec : String) : Bool :=
  (rollingLength spec).isSome || spec = "day" || spec = "week" || spec = "month"

/-- `checkLimit` -/
def checkLimit (spec : LimitSpec) : Bool :=
  isValidWindow spec.window && spec.limit.all (0 < ·)

/-- What `validateResourceConfig` asks of the numbers of an account. -/
def validAccount (account : AccountConfig) : Bool :=
  (account.limits.getD []).all checkLimit && account.rpm.all (0 ≤ ·) && account.tpm.all (0 ≤ ·)

example : (windowBounds "month" 951827696789).toOption.map (fun b => (b.start, b.endsAt)) =
    some (949363200000, some 951868800000) := by decide

end Wazir.Resources
