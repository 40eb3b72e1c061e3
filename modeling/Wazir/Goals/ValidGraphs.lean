import Wazir.Goals.GraphValidation

/-! What the validator knows of a valid definition. -/

namespace Wazir.Goals

theorem schema_id {path : String} {t : JsValue} (h : targetSchemaIssues path t = []) :
    ∃ id, (t.get "id").string = some id ∧ validNodeId id = true := by
  simp only [targetSchemaIssues, List.append_eq_nil_iff, issueIf_nil, not_not] at h
  have hid := h.1.1.1.1.1.1.1.1.1
  cases hs : (t.get "id").string with
  | none => simp [hs] at hid
  | some id => exact ⟨id, rfl, by simpa [hs] using hid⟩

variable {nodeIds : Option (List String)} {ts : List JsValue}

/-- Along the pass every id is new. -/
theorem targetPass_ids {seen : List (TargetId × ℕ)} {i : ℕ}
    (h : (targetPass nodeIds seen i ts).issues = []) :
    (ts.map fun t => (GoalTarget.ofJs t).id).Nodup ∧
      ∀ t ∈ ts, seen.lookup (GoalTarget.ofJs t).id = none := by
  induction ts generalizing seen i with
  | nil => simp
  | cons t rest ih =>
    unfold targetPass at h
    split at h
    · cases h
    simp only [List.append_eq_nil_iff] at h
    obtain ⟨⟨⟨hschema, hdup⟩, -⟩, hrest⟩ := h
    obtain ⟨id, hid, -⟩ := schema_id hschema
    have hofJs : (GoalTarget.ofJs t).id = id := by simp [GoalTarget.ofJs, hid]
    have hnew : seen.lookup id = none := by
      simp only [duplicateIssues, hid] at hdup
      cases hl : seen.lookup id with
      | none => rfl
      | some first => simp [hl] at hdup
    simp only [hid, hnew, Option.isSome_none, Bool.false_eq_true, if_false] at hrest
    obtain ⟨hnodup, hothers⟩ := ih hrest
    have hsplit : ∀ t' ∈ rest, seen.lookup (GoalTarget.ofJs t').id = none ∧
        (GoalTarget.ofJs t').id ≠ id := by
      intro t' ht'
      have hnone := hothers t' ht'
      rw [List.lookup_append, Option.or_eq_none_iff] at hnone
      refine ⟨hnone.1, fun heq => ?_⟩
      simp [heq] at hnone
    refine ⟨?_, ?_⟩
    · rw [List.map_cons, List.nodup_cons, hofJs]
      refine ⟨fun hmem => ?_, hnodup⟩
      obtain ⟨t', ht', heq⟩ := List.mem_map.mp hmem
      exact (hsplit t' ht').2 heq
    · intro t' ht'
      rcases List.mem_cons.mp ht' with rfl | ht'
      · rw [hofJs, hnew]
      · exact (hsplit t' ht').1

/-- The known ids after the pass. -/
theorem targetPass_seen {seen : List (TargetId × ℕ)} {i : ℕ}
    (h : (targetPass nodeIds seen i ts).issues = []) (id : TargetId) :
    ((targetPass nodeIds seen i ts).seen.lookup id).isSome ↔
      (seen.lookup id).isSome ∨ id ∈ ts.map fun t => (GoalTarget.ofJs t).id := by
  induction ts generalizing seen i with
  | nil => simp [targetPass]
  | cons t rest ih =>
    unfold targetPass at h ⊢
    split at h
    · cases h
    rename_i hobject
    rw [if_neg hobject]
    simp only [List.append_eq_nil_iff] at h
    obtain ⟨⟨⟨hschema, -⟩, -⟩, hrest⟩ := h
    obtain ⟨id', hid, -⟩ := schema_id hschema
    have hofJs : (GoalTarget.ofJs t).id = id' := by simp [GoalTarget.ofJs, hid]
    simp only [hid] at hrest ⊢
    rw [ih hrest, List.map_cons, List.mem_cons, hofJs]
    split_ifs with hknown
    · refine ⟨fun h => h.imp_right .inr, fun h => ?_⟩
      rcases h with h | rfl | h
      · exact .inl h
      · exact .inl hknown
      · exact .inr h
    · rw [List.lookup_append, Option.isSome_or, Bool.or_eq_true, or_assoc]
      refine or_congr_right (or_congr_left ?_)
      by_cases he : id = id'
      · simp [he]
      · have hbeq : (id == id') = false := by simpa using he
        simp [he, List.lookup_cons, hbeq]

/-- A target as the graph checks look at it. -/
def GoalTarget.node (t : GoalTarget) : TargetNode := ⟨t.id, t.dependsOn⟩

theorem targetPass_nodes {seen : List (TargetId × ℕ)} {i : ℕ}
    (h : (targetPass nodeIds seen i ts).issues = []) :
    (targetPass nodeIds seen i ts).wellFormed = ts.map fun t => (GoalTarget.ofJs t).node := by
  induction ts generalizing seen i with
  | nil => rfl
  | cons t rest ih =>
    unfold targetPass at h ⊢
    split at h
    · cases h
    rename_i hobject
    rw [if_neg hobject]
    simp only [List.append_eq_nil_iff] at h
    obtain ⟨⟨⟨hschema, hdup⟩, -⟩, hrest⟩ := h
    simp only [hschema, hdup, List.append_nil, if_true, List.map_cons]
    rw [ih hrest]
    rfl

theorem dependency_known {seen : List (TargetId × ℕ)} {t : TargetNode}
    (h : dependencyIssues seen t = []) :
    ∀ d ∈ t.dependsOn, d ≠ t.id ∧ (seen.lookup d).isSome := by
  intro d hd
  have hnil := List.flatMap_eq_nil_iff.1 h d hd
  split_ifs at hnil with hself hknown
  exact ⟨hself, by simpa [Option.isSome_iff_ne_none] using hknown⟩

/-- The targets of a valid definition. -/
theorem valid_targets {localeCompare : String → String → Ordering} {d : JsValue}
    (h : validateGoalGraph localeCompare d = []) :
    ((GoalGraphDefinition.ofJs d).targets.map GoalTarget.id).Nodup ∧
      (∀ t ∈ (GoalGraphDefinition.ofJs d).targets, ∀ w ∈ t.dependsOn,
        w ≠ t.id ∧ w ∈ (GoalGraphDefinition.ofJs d).targets.map GoalTarget.id) ∧
      findCycles localeCompare ((GoalGraphDefinition.ofJs d).targets.map GoalTarget.node) = [] := by
  unfold validateGoalGraph at h
  split_ifs at h
  simp only [List.append_eq_nil_iff] at h
  obtain ⟨-, htargets⟩ := h
  rcases ha : (d.get "targets").array with - | ts
  · simp [ha] at htargets
  · have hts : (GoalGraphDefinition.ofJs d).targets = ts.map GoalTarget.ofJs := by
      simp [GoalGraphDefinition.ofJs, ha]
    simp only [ha, targetsIssues, List.append_eq_nil_iff, List.map_eq_nil_iff] at htargets
    obtain ⟨⟨⟨-, hpass⟩, hdeps⟩, hcycles⟩ := htargets
    have hnodes := targetPass_nodes hpass
    rw [← Function.comp_def GoalTarget.node, ← List.map_map] at hnodes
    rw [hnodes] at hdeps hcycles
    rw [hts]
    refine ⟨by simpa [Function.comp_def] using (targetPass_ids hpass).1, fun t ht w hw => ?_, hcycles⟩
    have hnil := List.flatMap_eq_nil_iff.1 hdeps t.node (List.mem_map_of_mem ht)
    obtain ⟨hne, hknown⟩ := dependency_known hnil w hw
    refine ⟨hne, ?_⟩
    simpa using (targetPass_seen hpass w).1 hknown

theorem valid_minutes {limits : JsValue} (h : validateLimits limits = []) :
    1 ≤ naturalAt limits "maxRunMinutes" := by
  unfold validateLimits at h
  split_ifs at h
  simp only [List.append_eq_nil_iff, List.flatMap_eq_nil_iff] at h
  have hlimit := h.1.1.1 ⟨"maxRunMinutes", 1, false⟩ (by simp [integerLimits])
  simp only [integerLimitIssues, issueIf_nil] at hlimit
  cases hn : (limits.get "maxRunMinutes").safeInteger with
  | none => simp [hn] at hlimit
  | some n =>
    have : 1 ≤ n := by simpa [hn] using hlimit
    simp only [naturalAt, hn, Option.getD_some]
    omega

theorem valid_parts {localeCompare : String → String → Ordering} {d : JsValue}
    (h : validateGoalGraph localeCompare d = []) :
    ((GoalGraphDefinition.ofJs d).targets.map GoalTarget.id).Nodup ∧
      1 ≤ (GoalGraphDefinition.ofJs d).resourceLimits.maxRunMinutes := by
  refine ⟨(valid_targets h).1, ?_⟩
  unfold validateGoalGraph at h
  split_ifs at h
  simp only [List.append_eq_nil_iff] at h
  obtain ⟨⟨⟨-, hconstitution⟩, -⟩, -⟩ := h
  unfold validateConstitution at hconstitution
  split_ifs at hconstitution
  simp only [List.append_eq_nil_iff] at hconstitution
  exact valid_minutes hconstitution.2

end Wazir.Goals
