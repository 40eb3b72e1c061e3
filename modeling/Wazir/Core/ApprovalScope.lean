import Wazir.Shared.NumberText
import Wazir.Shared.UriComponent

/-! The scope that binds an approval to one decision point, and its key. -/

namespace Wazir.Core

structure ApprovalScope where
  kind : String
  runId : String
  targetId : String
  attempt : JsNumber
  action : String
  deriving DecidableEq

/-- `Partial<ApprovalScope>` -/
structure PartialScope where
  kind : Option String
  runId : Option String
  targetId : Option String
  attempt : Option JsNumber
  action : Option String

def ApprovalScope.toValue (scope : ApprovalScope) : JsValue :=
  .obj [("kind", .str scope.kind), ("runId", .str scope.runId), ("targetId", .str scope.targetId),
    ("attempt", .num scope.attempt), ("action", .str scope.action)]

/-- `parts.map(encodeURIComponent).join(':')` -/
def joinEncoded : List String → List Char
  | [] => []
  | [part] => (encodeURIComponent part).toList
  | part :: next :: rest => (encodeURIComponent part).toList ++ ':' :: joinEncoded (next :: rest)

/-- `String(attempt)` -/
def attemptText (attempt : JsNumber) : String := (JsValue.num attempt).template

def approvalScopeKey (scope : ApprovalScope) : String :=
  String.ofList (joinEncoded
    [scope.kind, scope.runId, scope.targetId, attemptText scope.attempt, scope.action])

/-- `Number.isInteger(attempt) && attempt >= 0` -/
def validAttempt : JsNumber → Bool
  | .finite q => q.den = 1 ∧ 0 ≤ q
  | _ => false

def validateScope (scope : ApprovalScope) : Except String Unit :=
  if scope.kind = "" then .error "approval scope requires a non-empty kind"
  else if scope.runId = "" then .error "approval scope requires a non-empty runId"
  else if scope.targetId = "" then .error "approval scope requires a non-empty targetId"
  else if scope.action = "" then .error "approval scope requires a non-empty action"
  else if !validAttempt scope.attempt then
    .error "approval scope requires a non-negative integer attempt"
  else .ok ()

/-- The fields that are given are those of the scope. -/
def scopeMatches (actual : Option ApprovalScope) (expected : PartialScope) : Bool :=
  match actual with
  | none => false
  | some scope =>
    expected.kind.all (· = scope.kind) && expected.runId.all (· = scope.runId) &&
      expected.targetId.all (· = scope.targetId) && expected.attempt.all (· = scope.attempt) &&
      expected.action.all (· = scope.action)

theorem joinEncoded_cons (part : String) {rest : List String} (h : rest ≠ []) :
    joinEncoded (part :: rest) = (encodeURIComponent part).toList ++ ':' :: joinEncoded rest := by
  cases rest with
  | nil => exact absurd rfl h
  | cons next rest => rfl

theorem colon_notMem (s : String) : ':' ∉ (encodeURIComponent s).toList := by
  rw [encodeURIComponent, String.toList_ofList]
  exact notMem_encodeURI (by decide) (by decide) (by decide) s.toList

/-- As many parts, told apart by their text. -/
theorem joinEncoded_inj {parts parts' : List String} (hlen : parts.length = parts'.length)
    (h : joinEncoded parts = joinEncoded parts') : parts = parts' := by
  induction parts generalizing parts' with
  | nil => exact (List.length_eq_zero_iff.mp hlen.symm).symm
  | cons part rest ih =>
    obtain ⟨part', rest', rfl⟩ := List.exists_cons_of_length_eq_add_one hlen.symm
    have hrest : rest.length = rest'.length := by simpa using hlen
    by_cases hnil : rest = []
    · subst hnil
      obtain rfl := List.length_eq_zero_iff.mp hrest.symm
      exact congrArg (fun part => [part]) (encodeURIComponent_inj (String.toList_inj.mp h))
    · have hnil' : rest' ≠ [] := by
        rintro rfl
        exact hnil (List.length_eq_zero_iff.mp hrest)
      rw [joinEncoded_cons part hnil, joinEncoded_cons part' hnil'] at h
      obtain ⟨hpart, hjoin⟩ := separator_inj (colon_notMem part) (colon_notMem part') h
      rw [encodeURIComponent_inj (String.toList_inj.mp hpart), ih hrest hjoin]

theorem attemptText_inj {m n : JsNumber} (hm : validAttempt m = true) (hn : validAttempt n = true)
    (h : attemptText m = attemptText n) : m = n := by
  have hnat : ∀ {m : JsNumber}, validAttempt m = true → ∃ k : ℕ, m = .finite k := by
    intro m hm
    cases m with
    | nan => cases hm
    | infinite negative => cases hm
    | finite q =>
      obtain ⟨hden, hpos⟩ := of_decide_eq_true hm
      have hnum : 0 ≤ q.num := Rat.num_nonneg.mpr hpos
      refine ⟨q.num.toNat, congrArg JsNumber.finite ?_⟩
      rw [← Rat.coe_int_num_of_den_eq_one hden]
      exact_mod_cast (Int.toNat_of_nonneg hnum).symm
  obtain ⟨a, rfl⟩ := hnat hm
  obtain ⟨b, rfl⟩ := hnat hn
  have htext : numberText (.finite a) = numberText (.finite b) := by
    have := congrArg String.toList h
    simpa only [attemptText, JsValue.template, String.toList_ofList] using this
  rw [numberText_nat_inj htext]

theorem validateScope_ok {scope : ApprovalScope} (h : validateScope scope = .ok ()) :
    validAttempt scope.attempt = true := by
  unfold validateScope at h
  split_ifs at h with h1 h2 h3 h4 h5
  simpa using h5

/-- The key is collision-free. -/
theorem approvalScopeKey_inj {s t : ApprovalScope} (hs : validateScope s = .ok ())
    (ht : validateScope t = .ok ()) (h : approvalScopeKey s = approvalScopeKey t) : s = t := by
  obtain ⟨kind, runId, targetId, attempt, action⟩ := s
  obtain ⟨kind', runId', targetId', attempt', action'⟩ := t
  simp only [approvalScopeKey] at h
  have hparts := joinEncoded_inj (by rfl) (String.ofList_injective h)
  simp only [List.cons.injEq, and_true] at hparts
  obtain ⟨rfl, rfl, rfl, hattempt, rfl⟩ := hparts
  obtain rfl : attempt = attempt' :=
    attemptText_inj (validateScope_ok hs) (validateScope_ok ht) hattempt
  rfl

end Wazir.Core
