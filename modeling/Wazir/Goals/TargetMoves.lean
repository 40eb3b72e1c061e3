import Wazir.Goals.Eligibility

/-! Lawful moves of a target from status to status, and how one comes to be completed. -/

namespace Wazir.Goals

/-- The moves, each a status and who moves the target there, are all allowed. -/
def lawful (source : TargetStatus) : List (TargetStatus × String) → Bool
  | [] => true
  | (target, actor) :: rest => canTransitionTarget source target actor && lawful target rest

/-- Where the moves lead. -/
def arrival (source : TargetStatus) (moves : List (TargetStatus × String)) : TargetStatus :=
  (moves.getLast?.map Prod.fst).getD source

/-- A user completes a target that waits for approval, or it was verified just before. -/
def Earned (moves : List (TargetStatus × String)) : Prop :=
  (∃ before person, moves = before ++ [(.completed, person)] ∧
    arrival .queued before = .needsApproval ∧ isUser person = true) ∨
  ∃ before a b c d, moves = before ++ [(.active, a), (.verifying, b), (.verified, c), (.completed, d)]

section Moves

variable {source target : TargetStatus} {actor : String} {moves : List (TargetStatus × String)}

theorem lawful_concat : lawful source (moves ++ [(target, actor)]) = true ↔
    lawful source moves = true ∧ canTransitionTarget (arrival source moves) target actor = true := by
  induction moves generalizing source with
  | nil => simp [lawful, arrival]
  | cons move rest ih =>
    have hland : arrival source (move :: rest) = arrival move.1 rest := by
      cases rest <;> simp [arrival, List.getLast?_cons]
    simp only [List.cons_append, lawful, Bool.and_eq_true, ih, hland, and_assoc]

theorem source_of_completed (h : canTransitionTarget source .completed actor = true) :
    source = .verified ∨ source = .needsApproval ∧ isUser actor = true := by
  cases source <;> simp_all [canTransitionTarget, targetTransitions, humanTargetTransitions]

theorem source_of_verified (h : canTransitionTarget source .verified actor = true) :
    source = .verifying := by
  cases source <;> simp_all [canTransitionTarget, targetTransitions, humanTargetTransitions]

theorem source_of_verifying (h : canTransitionTarget source .verifying actor = true) :
    source = .active := by
  cases source <;> simp_all [canTransitionTarget, targetTransitions, humanTargetTransitions]

/-- The last move, where the moves lead elsewhere. -/
theorem lawful_last (h : lawful source moves = true) (hland : arrival source moves = target)
    (hne : source ≠ target) : ∃ before actor, moves = before ++ [(target, actor)] ∧
      lawful source before = true ∧ canTransitionTarget (arrival source before) target actor = true := by
  rcases List.eq_nil_or_concat moves with rfl | ⟨before, ⟨last, actor⟩, rfl⟩
  · exact absurd hland hne
  · rw [List.concat_eq_append] at h hland ⊢
    obtain rfl : last = target := by simpa [arrival] using hland
    exact ⟨before, actor, rfl, lawful_concat.mp h⟩

end Moves

/-- However a queued target is moved, it does not come to be completed otherwise. -/
theorem completed_earned (moves : List (TargetStatus × String)) (h : lawful .queued moves = true)
    (hdone : arrival .queued moves = .completed) : Earned moves := by
  obtain ⟨before₃, d, rfl, h₃, hd⟩ := lawful_last h hdone nofun
  rcases source_of_completed hd with hverified | happroval
  · obtain ⟨before₂, c, rfl, h₂, hc⟩ := lawful_last h₃ hverified nofun
    obtain ⟨before₁, b, rfl, h₁, hb⟩ := lawful_last h₂ (source_of_verified hc) nofun
    obtain ⟨before, a, rfl, -, -⟩ := lawful_last h₁ (source_of_verifying hb) nofun
    exact .inr ⟨before, a, b, c, d, by simp⟩
  · exact .inl ⟨before₃, d, rfl, happroval⟩

theorem completed_earned_approved : Earned [(.blocked, "controller"), (.eligible, "user:me"),
    (.needsApproval, "controller"), (.completed, "user:me")] :=
  completed_earned _ (by decide +kernel) rfl

end Wazir.Goals
