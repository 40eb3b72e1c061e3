import Mathlib.Order.Bounds.Basic
import Wazir.Models.LoadPlan
import Wazir.Shared.Throwing

/-! What an admitted load is promised, and how large a context the machine is said to bear. -/

namespace Wazir.Models.LoadTarget

variable {t : LoadTarget} {options : ModelLoadOptions}

/-- A smaller context asks for no more memory, and for no more of the graphics memory. -/
def Grows (answer : ℤ → ModelLoadEstimate) : Prop :=
  ∀ c d : ℤ, 1 ≤ c → c ≤ d → ∀ total, (answer d).total = some total →
    (∃ smaller, (answer c).total = some smaller ∧ smaller ≤ total) ∧
      ((answer d).vramBytes = none → (answer c).vramBytes = none) ∧
      ∀ vram, (answer d).vramBytes = some vram → ∃ less, (answer c).vramBytes = some less ∧ less ≤ vram

/-! One estimate. -/

/-- The graphics memory is unified, or unknown and not asked for, or enough. -/
def GpuFits (t : LoadTarget) (vram : Option ℚ) : Prop :=
  t.snapshot.unifiedMemory = true ∨
    (t.snapshot.totalVramBytes.isSome → vram.isSome ∧ t.snapshot.availableVramBytes.isSome) ∧
      ∀ v, vram = some v → v ≤ t.snapshot.availableVramBytes.getD 0 - t.held (·.vramBytes)

theorem judged_fits {c : ℤ} {e : ModelLoadEstimate} : (t.judged false c e).fits = true ↔
    ∃ total usable, e.total = some total ∧ t.usable = some usable ∧ total ≤ usable ∧
      GpuFits t e.vramBytes := by
  cases htotal : e.total with
  | none => simp [judged, LoadEstimate.fits, htotal]
  | some total =>
    cases husable : t.usable with
    | none => simp [judged, LoadEstimate.fits, htotal, husable]
    | some usable =>
      cases hunified : t.snapshot.unifiedMemory <;>
        cases htotalVram : t.snapshot.totalVramBytes <;>
        cases havailable : t.snapshot.availableVramBytes <;>
        cases hvram : e.vramBytes <;>
        simp [judged, LoadEstimate.fits, GpuFits, htotal, husable, hunified, htotalVram, havailable,
          hvram] <;> grind

/-- What fits leaves what fits below it. -/
theorem fits_below (hgrows : Grows t.answer) {c d : ℤ} (hc : 1 ≤ c) (hcd : c ≤ d)
    (h : (t.judged false d (t.answer d)).fits = true) : (t.judged false c (t.answer c)).fits = true := by
  obtain ⟨total, usable, htotal, husable, hle, hgpu⟩ := judged_fits.mp h
  obtain ⟨⟨smaller, hsmaller, hless⟩, hnone, hsome⟩ := hgrows c d hc hcd total htotal
  refine judged_fits.mpr ⟨smaller, usable, hsmaller, husable, hless.trans hle, ?_⟩
  rcases hgpu with hunified | ⟨hknown, hfits⟩
  · exact .inl hunified
  · refine .inr ⟨fun htotalVram => ?_, fun v hv => ?_⟩
    · obtain ⟨hvram, havailable⟩ := hknown htotalVram
      obtain ⟨vram, hvram⟩ := Option.isSome_iff_exists.mp hvram
      obtain ⟨less, hless, -⟩ := hsome vram hvram
      exact ⟨by rw [hless]; rfl, havailable⟩
    · cases hd : (t.answer d).vramBytes with
      | none =>
        rw [hnone hd] at hv
        cases hv
      | some vram =>
        obtain ⟨less, hless, hle⟩ := hsome vram hd
        obtain rfl := Option.some.inj (hless.symm.trans hv)
        exact hle.trans (hfits vram hd)

/-! The bisection. -/

/-- The contexts of a range that fit. -/
def fitting (estimateAt : ℤ → LoadEstimate) (low high : ℤ) : Set ℤ :=
  {c | low ≤ c ∧ c ≤ high ∧ (estimateAt c).fits = true}

theorem search_spec {estimateAt : ℤ → LoadEstimate} {low high : ℤ} {best : Option LoadEstimate}
    (hbelow : ∀ c d, low ≤ c → c ≤ d → (estimateAt d).fits = true → (estimateAt c).fits = true) :
    (∃ c, IsGreatest (fitting estimateAt low high) c ∧
      search estimateAt low high best = some (estimateAt c)) ∨
    fitting estimateAt low high = ∅ ∧ search estimateAt low high best = best := by
  fun_induction search estimateAt low high best with
  | case1 low high best hle e hfits ih =>
    -- the middle fits, and what is above it decides
    have hmid : low ≤ (low + high) / 2 ∧ (low + high) / 2 ≤ high := by omega
    rcases ih fun c d hc => hbelow c d (by omega) with ⟨c, hgreatest, hfound⟩ | ⟨hempty, hfound⟩
    · have hc := hgreatest.1
      refine .inl ⟨c, ⟨⟨by have := hc.1; omega, hc.2⟩, fun d hd => ?_⟩, hfound⟩
      by_cases habove : (low + high) / 2 + 1 ≤ d
      · exact hgreatest.2 ⟨habove, hd.2⟩
      · have := hc.1
        omega
    · refine .inl ⟨(low + high) / 2, ⟨⟨hmid.1, hmid.2, hfits⟩, fun d hd => ?_⟩, hfound⟩
      by_contra habove
      have hmem : d ∈ fitting estimateAt ((low + high) / 2 + 1) high := ⟨by omega, hd.2⟩
      rw [hempty] at hmem
      exact hmem
  | case2 low high best hle e hfits ih =>
    -- the middle does not fit, and nothing above it does
    have hdrop : fitting estimateAt low high = fitting estimateAt low ((low + high) / 2 - 1) := by
      ext d
      refine ⟨fun hd => ⟨hd.1, ?_, hd.2.2⟩, fun hd => ⟨hd.1, by have := hd.2.1; omega, hd.2.2⟩⟩
      by_contra habove
      exact hfits (hbelow _ d (by omega) (by omega) hd.2.2)
    rw [hdrop]
    exact ih hbelow
  | case3 low high best hgt =>
    refine .inr ⟨Set.eq_empty_of_forall_notMem fun d hd => ?_, rfl⟩
    have := hd.1
    have := hd.2.1
    omega

/-! The plan. -/

/-- The estimate of a context that is not loaded. -/
def estimateAt (t : LoadTarget) (c : ℤ) : LoadEstimate := t.judged false c (t.answer c)

theorem search_fits (hgrows : Grows t.answer) {minimum context : ℤ} (hminimum : 1 ≤ minimum) :
    (∃ c, IsGreatest (fitting t.estimateAt minimum context) c ∧
      search t.estimateAt minimum context none = some (t.estimateAt c)) ∨
    fitting t.estimateAt minimum context = ∅ ∧ search t.estimateAt minimum context none = none :=
  search_spec fun _ _ hc hcd => fits_below hgrows (hminimum.trans hc) hcd

/-- What the plan settles on. -/
structure Settled (t : LoadTarget) (options : ModelLoadOptions) (minimum context : ℤ)
    (out : LoadEstimate × ℤ × Option ℤ) : Prop where
  estimate : out.1 = t.estimateAt out.2.1
  kept : out.2.1 = context ∨ minimum ≤ out.2.1 ∧ out.2.1 < context ∧
    (mode options ≠ .explicit ∨ options.fit = true)
  safe : (t.estimateAt context).classification = .insufficient → minimum ≤ context →
    (∀ c, out.2.2 = some c ↔ IsGreatest (fitting t.estimateAt minimum context) c) ∧
      (out.2.2 = none ↔ fitting t.estimateAt minimum context = ∅)

theorem settle_eq {minimum context : ℤ} (hreuse : t.reuse options context = false) :
    t.settle options minimum context =
      if (t.estimateAt context).classification = .insufficient ∧ minimum ≤ context then
        match search t.estimateAt minimum context none with
        | some best =>
          if mode options ≠ .explicit ∨ options.fit = true then
            (best, best.candidateContext, some best.candidateContext)
          else (t.estimateAt context, context, some best.candidateContext)
        | none => (t.estimateAt context, context, none)
      else (t.estimateAt context, context,
        if (t.estimateAt context).classification ≠ .unknown then some context else none) := by
  have hat : t.estimateAt = fun c => t.judged false c (t.answer c) := rfl
  rw [hat]
  simp only [settle, hreuse, Bool.not_false, Bool.false_and, Bool.true_and, Bool.and_eq_true,
    decide_eq_true_eq, Bool.or_eq_true]
  rfl

theorem settle_spec (hgrows : Grows t.answer) {minimum context : ℤ} (hminimum : 1 ≤ minimum)
    (hreuse : t.reuse options context = false) :
    Settled t options minimum context (t.settle options minimum context) := by
  rw [settle_eq hreuse]
  by_cases hsearch : (t.estimateAt context).classification = .insufficient ∧ minimum ≤ context
  · rw [if_pos hsearch]
    rcases search_fits hgrows hminimum with ⟨c, hgreatest, hfound⟩ | ⟨hempty, hfound⟩
    · rw [hfound]
      have hsafe : ∀ d, some c = some d ↔ IsGreatest (fitting t.estimateAt minimum context) d :=
        fun d => ⟨fun heq => Option.some.inj heq ▸ hgreatest,
          fun h => congrArg some (hgreatest.unique h)⟩
      have hsome : some c = none ↔ fitting t.estimateAt minimum context = ∅ :=
        iff_of_false nofun (Set.nonempty_iff_ne_empty.mp ⟨c, hgreatest.1⟩)
      have hlt : c < context := by
        refine lt_of_le_of_ne hgreatest.1.2.1 fun heq => ?_
        have hfits := hgreatest.1.2.2
        rw [heq, LoadEstimate.fits, hsearch.1] at hfits
        cases hfits
      by_cases hmode : mode options ≠ .explicit ∨ options.fit = true
      · simp only [if_pos hmode]
        exact ⟨rfl, .inr ⟨hgreatest.1.1, hlt, hmode⟩, fun _ _ => ⟨hsafe, hsome⟩⟩
      · simp only [if_neg hmode]
        exact ⟨rfl, .inl rfl, fun _ _ => ⟨hsafe, hsome⟩⟩
    · rw [hfound]
      refine ⟨rfl, .inl rfl, fun _ _ => ⟨fun c => iff_of_false nofun fun h => ?_, by simp [hempty]⟩⟩
      have hc := h.1
      rw [hempty] at hc
      exact hc
  · rw [if_neg hsearch]
    exact ⟨rfl, .inl rfl, fun hinsufficient hle => absurd ⟨hinsufficient, hle⟩ hsearch⟩

/-- A plan with victims covers its shortfall, and forgives nothing but the memory. -/
theorem planEviction_cases (plan : ModelLoadPlan) : t.planEviction plan = plan ∨
    ∃ total victims, plan.estimate.estimatedTotalMemory = some total ∧
      total - plan.estimate.usableMemory.getD 0 ≤ reclaimed victims ∧
      t.planEviction plan = { plan with
        modelsToEvict := victims
        reasons := plan.reasons.filter (· ≠ .insufficientMemory) } := by
  rw [planEviction]
  cases htotal : plan.estimate.estimatedTotalMemory with
  | none => exact .inl rfl
  | some total =>
    dsimp only
    split_ifs with hshort
    · exact .inl rfl
    · exact .inr ⟨total, _, rfl, not_lt.mp hshort, rfl⟩

theorem safeInteger_eq {q : ℚ} {n : ℤ} (h : safeInteger q = some n) : q = n := by
  rw [safeInteger, JsValue.safeInteger] at h
  split_ifs at h with hint
  rw [← Option.some.inj h]
  exact (Rat.coe_int_num_of_den_eq_one hint.1).symm

theorem capped_spec {desired : Option ℚ} {q : ℚ} (h : t.capped desired = some q) :
    (∀ limit ∈ t.limits, q ≤ limit) ∧ (∀ d, desired = some d → q ≤ d) ∧
      (desired = some q ∨ q ∈ t.limits) := by
  obtain ⟨hmem, hle⟩ := List.min?_eq_some_iff.mp h
  refine ⟨fun limit hlimit => hle _ (List.mem_append_right _ hlimit), fun d hd => ?_, ?_⟩
  · exact hle _ (List.mem_append_left _ (by rw [hd]; exact List.mem_singleton.mpr rfl))
  · simpa using hmem

variable {requested : Option ℤ}

theorem contexts_spec {minimum context : ℤ}
    (h : t.contexts options = .ok (requested, minimum, context)) :
    t.minimum options = minimum ∧ t.capped (t.desired options requested) = some (context : ℚ) ∧
      ∀ q, options.context = some (.finite q) → ∃ r : ℤ, requested = some r ∧ q = r := by
  rw [contexts] at h
  obtain ⟨requested', hrequested, h⟩ := except_bind_eq_ok.mp h
  cases hminimum : safeInteger (t.minimum options) with
  | none =>
    rw [hminimum] at h
    cases h
  | some n =>
    cases hcontext : (t.capped (t.desired options requested')).bind safeInteger with
    | none =>
      rw [hminimum, hcontext] at h
      cases h
    | some m =>
      rw [hminimum, hcontext] at h
      cases h
      obtain ⟨q, hq, hm⟩ := Option.bind_eq_some_iff.mp hcontext
      rw [safeInteger_eq hm] at hq
      refine ⟨safeInteger_eq hminimum, hq, fun r hr => ?_⟩
      rw [requestedContext, hr] at hrequested
      dsimp only at hrequested
      cases hsafe : (JsValue.num (.finite r)).safeInteger with
      | none =>
        rw [hsafe] at hrequested
        cases hrequested
      | some k =>
        rw [hsafe] at hrequested
        dsimp only at hrequested
        split_ifs at hrequested
        exact ⟨k, (Except.ok.inj hrequested).symm, safeInteger_eq hsafe⟩

theorem one_le_minimum {minimum context : ℤ}
    (h : t.contexts options = .ok (requested, minimum, context)) : 1 ≤ minimum := by
  have hone : 1 ≤ t.minimum options := le_max_left _ _
  rw [(contexts_spec h).1] at hone
  exact_mod_cast hone

theorem estimateTarget_cases {plan : ModelLoadPlan} (h : t.estimateTarget options = .ok plan) :
    ∃ requested minimum context, t.contexts options = .ok (requested, minimum, context) ∧
      (plan = t.planFor options requested minimum context ∨
        .insufficientMemory ∈ (t.planFor options requested minimum context).reasons ∧
          plan = t.planEviction (t.planFor options requested minimum context)) := by
  rw [estimateTarget] at h
  obtain ⟨⟨requested, minimum, context⟩, hcontexts, h⟩ := except_bind_eq_ok.mp h
  refine ⟨requested, minimum, context, hcontexts, ?_⟩
  have hplan := Except.ok.inj h
  split_ifs at hplan with hevict
  · exact .inr ⟨of_decide_eq_true (Bool.and_eq_true_iff.mp hevict).2, hplan.symm⟩
  · exact .inl hplan.symm

/-- Without denials for lack of memory the reservation fits; with one, there is a limit to it. -/
theorem loadDenials_fits {c : ℤ} (hno : t.loadDenials (t.estimateAt c) = []) :
    ∃ bytes usable, (t.estimateAt c).reservationMemoryBytes = some bytes ∧ t.usable = some usable ∧
      bytes ≤ usable := by
  simp only [loadDenials, List.append_eq_nil_iff] at hno
  obtain ⟨⟨⟨-, -⟩, hinsufficient⟩, hunknown⟩ := hno
  cases hclass : (t.estimateAt c).classification with
  | insufficient => simp [hclass] at hinsufficient
  | unknown =>
    rw [if_pos hclass] at hunknown
    cases hbytes : (t.estimateAt c).reservationMemoryBytes with
    | none => simp [hbytes] at hunknown
    | some bytes =>
      cases husable : t.usable with
      | none => simp [hbytes, husable] at hunknown
      | some usable =>
        simp only [hbytes, husable] at hunknown
        split_ifs at hunknown with hgpu hle
        exact ⟨bytes, usable, rfl, rfl, not_lt.mp hle⟩
  | safe | warning =>
    obtain ⟨total, usable, htotal, husable, hle, -⟩ :=
      judged_fits.mp (show (t.estimateAt c).fits = true by simp [LoadEstimate.fits, hclass])
    exact ⟨total, usable, by simp [estimateAt, judged, htotal], husable, hle⟩

theorem estimateAt_usable (c : ℤ) : (t.estimateAt c).usableMemory = t.usable := rfl

theorem usable_of_insufficient {c : ℤ}
    (h : .insufficientMemory ∈ t.loadDenials (t.estimateAt c)) : ∃ usable, t.usable = some usable := by
  cases husable : t.usable with
  | some usable => exact ⟨usable, rfl⟩
  | none =>
    have hunknown : (t.estimateAt c).classification = .unknown := by
      cases htotal : (t.answer c).total <;> simp [estimateAt, judged, husable, htotal]
    simp [loadDenials, hunknown, husable] at h

theorem insufficient_notMem_targetDenials {context : ℤ} :
    .insufficientMemory ∉ t.targetDenials options requested context := by
  simp [targetDenials]

/-- What an admitted plan keeps of the request. -/
structure Admitted (t : LoadTarget) (options : ModelLoadOptions) (plan : ModelLoadPlan) : Prop where
  atLeast : (plan.minimumContext : ℚ) ≤ plan.effectiveContext
  atMost : ∀ limit ∈ t.limits, plan.effectiveContext ≤ limit
  reserved : ∃ bytes usable, plan.estimate.reservationMemoryBytes = some bytes ∧
    t.usable = some usable ∧ bytes ≤ usable + reclaimed plan.modelsToEvict
  requested : ∀ q, options.context = some (.finite q) → plan.effectiveContext ≠ q →
    options.fit = true ∨ (∃ mode, options.mode = some mode ∧ mode ≠ .explicit) ∧
      plan.contextReason = some .machineResourceLimit

/-- An admitted plan had nothing against it but a lack of memory that its victims make up for. -/
theorem admitted_spec (hgrows : Grows t.answer) {minimum context : ℤ}
    (hcontexts : t.contexts options = .ok (requested, minimum, context))
    (hreuse : t.reuse options context = false) {victims : List Victim}
    (hreasons : ∀ reason ∈ (t.planFor options requested minimum context).reasons,
      reason = .insufficientMemory)
    (hmemory : .insufficientMemory ∈ (t.planFor options requested minimum context).reasons →
      ∃ total, (t.planFor options requested minimum context).estimate.estimatedTotalMemory = some total ∧
        total - (t.planFor options requested minimum context).estimate.usableMemory.getD 0 ≤
          reclaimed victims)
    (hnone : .insufficientMemory ∉ (t.planFor options requested minimum context).reasons →
      victims = []) {reasons : List Denial} :
    Admitted t options { t.planFor options requested minimum context with
      modelsToEvict := victims, reasons := reasons } := by
  obtain ⟨hleast, hcapped, hrequested⟩ := contexts_spec hcontexts
  obtain ⟨hlimits, hdesired, horigin⟩ := capped_spec hcapped
  have hsettled := settle_spec hgrows (one_le_minimum hcontexts) hreuse
  have htarget : t.targetDenials options requested context = [] := by
    refine List.eq_nil_iff_forall_not_mem.mpr fun reason hreason => ?_
    have hmem : reason ∈ (t.planFor options requested minimum context).reasons :=
      List.mem_append_left _ (List.mem_append_left _ hreason)
    rw [hreasons reason hmem] at hreason
    exact insufficient_notMem_targetDenials hreason
  simp only [targetDenials, List.append_eq_nil_iff] at htarget
  obtain ⟨⟨-, hlarge⟩, hbelow⟩ := htarget
  have hminimum : minimum ≤ context := by
    by_contra hlt
    rw [hleast, if_pos (by exact_mod_cast not_le.mp hlt)] at hbelow
    cases hbelow
  have hloads : (t.planFor options requested minimum context).reasons =
      t.targetDenials options requested context ++
        t.loadDenials (t.settle options minimum context).1 ++
        (if t.policyAllows (t.settle options minimum context).2.1
          (t.settle options minimum context).1.estimatedTotalMemory then [] else [.policyDenied]) := by
    simp [planFor, hreuse]
  have heffective : (t.planFor options requested minimum context).effectiveContext =
      (t.settle options minimum context).2.1 := by
    simp [planFor, hreuse]
  have hle : (t.settle options minimum context).2.1 ≤ context := by
    rcases hsettled.kept with heq | ⟨-, hlt, -⟩
    · exact heq.le
    · exact hlt.le
  refine ⟨?_, fun limit hlimit => ?_, ?_, fun q hq hne => ?_⟩
  · dsimp only
    rw [heffective]
    have hsettledLeast : minimum ≤ (t.settle options minimum context).2.1 := by
      rcases hsettled.kept with heq | ⟨hge, -, -⟩
      · rw [heq]
        exact hminimum
      · exact hge
    exact_mod_cast hsettledLeast
  · dsimp only
    rw [heffective]
    exact le_trans (by exact_mod_cast hle) (hlimits limit hlimit)
  · have hestimate : (t.planFor options requested minimum context).estimate =
        t.estimateAt (t.settle options minimum context).2.1 := hsettled.estimate
    by_cases hshort : .insufficientMemory ∈ (t.planFor options requested minimum context).reasons
    · obtain ⟨total, htotal, hcovers⟩ := hmemory hshort
      rw [hloads, hsettled.estimate] at hshort
      have hload : .insufficientMemory ∈
          t.loadDenials (t.estimateAt (t.settle options minimum context).2.1) := by
        rcases List.mem_append.mp hshort with hfirst | hpolicy
        · exact (List.mem_append.mp hfirst).resolve_left insufficient_notMem_targetDenials
        · split_ifs at hpolicy <;> simp at hpolicy
      obtain ⟨usable, husable⟩ := usable_of_insufficient hload
      rw [hestimate, estimateAt_usable, husable, Option.getD_some] at hcovers
      rw [hestimate] at htotal
      refine ⟨total, usable, ?_, husable, by linarith⟩
      have heq : (t.answer (t.settle options minimum context).2.1).total = some total := htotal
      simp [hestimate, estimateAt, judged, heq]
    · have hload : t.loadDenials (t.estimateAt (t.settle options minimum context).2.1) = [] := by
        refine List.eq_nil_iff_forall_not_mem.mpr fun reason hreason => ?_
        have hmem : reason ∈ (t.planFor options requested minimum context).reasons := by
          rw [hloads, hsettled.estimate]
          exact List.mem_append_left _ (List.mem_append_right _ hreason)
        exact hshort (hreasons reason hmem ▸ hmem)
      obtain ⟨bytes, usable, hbytes, husable, hfits⟩ := loadDenials_fits hload
      refine ⟨bytes, usable, by rw [← hbytes, ← hestimate], husable, ?_⟩
      rw [hnone hshort]
      simpa [reclaimed] using hfits
  · obtain ⟨r, rfl, rfl⟩ := hrequested q hq
    by_cases hfit : options.fit = true
    · exact .inl hfit
    · -- without `fit` the request is within the limits, and is tried first
      have hwithin : ∀ limit ∈ t.limits, (r : ℚ) ≤ limit := by
        intro limit hlimit
        by_contra hlt
        have hany : t.limits.any (· < (r : ℚ)) = true :=
          List.any_eq_true.mpr ⟨limit, hlimit, decide_eq_true (not_le.mp hlt)⟩
        simp [hfit, hany] at hlarge
      have htried : context = r := by
        have hdesired' : t.desired options (some r) = some (r : ℚ) := rfl
        have hler : (context : ℚ) ≤ r := hdesired r hdesired'
        rcases horigin with hown | hlimit
        · exact_mod_cast (Option.some.inj (hdesired'.symm.trans hown)).symm
        · exact_mod_cast hler.antisymm (hwithin _ hlimit)
      subst htried
      rw [show ({ t.planFor options (some context) minimum context with
        modelsToEvict := victims, reasons := reasons } : ModelLoadPlan).effectiveContext = _ from
          heffective] at hne
      rcases hsettled.kept with heq | ⟨-, hlt, hmode⟩
      · exact absurd (by rw [heq]) hne
      · refine .inr ⟨?_, ?_⟩
        · have hgiven := hmode.resolve_right hfit
          rw [mode, hq] at hgiven
          cases hmode' : options.mode with
          | none => simp [hmode'] at hgiven
          | some mode => exact ⟨mode, rfl, by simpa [hmode'] using hgiven⟩
        · have hlt' : ((t.settle options minimum context).2.1 : ℚ) < context := by exact_mod_cast hlt
          simp [planFor, desired, hlt, hlt']

/-- With estimates that grow with the context, an admitted load is sound, and the safe context of the
machine is the largest that fits. -/
theorem admission_sound (t : LoadTarget) (options : ModelLoadOptions) (hgrows : Grows t.answer)
    {plan : ModelLoadPlan} (h : t.estimateTarget options = .ok plan) (hreuse : plan.reuse = false) :
    (plan.admitted = true → Admitted t options plan) ∧
    ∀ requested minimum context, t.contexts options = .ok (requested, minimum, context) →
      minimum ≤ context → (t.estimateAt context).classification = .insufficient →
        (∀ c, plan.machineSafeContext = some c ↔
          IsGreatest (fitting t.estimateAt minimum context) c) ∧
        (plan.machineSafeContext = none ↔ fitting t.estimateAt minimum context = ∅) := by
  obtain ⟨requested, minimum, context, hcontexts, hplan⟩ := estimateTarget_cases h
  have hnot : t.reuse options context = false := by
    rcases hplan with rfl | ⟨-, rfl⟩
    · exact hreuse
    · rcases planEviction_cases (t.planFor options requested minimum context) with heq | ⟨_, _, -, -, heq⟩ <;>
        · rw [heq] at hreuse
          exact hreuse
  constructor
  · intro hadmitted
    have hempty : plan.reasons = [] := of_decide_eq_true hadmitted
    have unplanned : (t.planFor options requested minimum context).reasons = [] →
        Admitted t options (t.planFor options requested minimum context) := by
      intro hnil
      have hkept : Admitted t options { t.planFor options requested minimum context with
          modelsToEvict := [], reasons := (t.planFor options requested minimum context).reasons } :=
        admitted_spec hgrows hcontexts hnot (by simp [hnil]) (by simp [hnil]) fun _ => rfl
      exact hkept
    rcases hplan with rfl | ⟨hshort, rfl⟩
    · exact unplanned hempty
    · rcases planEviction_cases (t.planFor options requested minimum context) with
        heq | ⟨total, victims, htotal, hcovers, heq⟩
      · rw [heq] at hempty ⊢
        exact unplanned hempty
      · rw [heq] at hempty ⊢
        refine admitted_spec hgrows hcontexts hnot (fun reason hreason => ?_)
          (fun _ => ⟨total, htotal, hcovers⟩) fun hnone => absurd hshort hnone
        simpa using List.filter_eq_nil_iff.mp hempty reason hreason
  · intro requested' minimum' context' hcontexts' hle hinsufficient
    cases hcontexts.symm.trans hcontexts'
    have hsafe := (settle_spec hgrows (one_le_minimum hcontexts) hnot).safe hinsufficient hle
    have hsame : plan.machineSafeContext = (t.settle options minimum context).2.2 := by
      rcases hplan with rfl | ⟨-, rfl⟩
      · rfl
      · rcases planEviction_cases (t.planFor options requested minimum context) with
          heq | ⟨_, _, -, -, heq⟩ <;>
          · rw [heq]
            rfl
    rw [hsame]
    exact hsafe

/-! A machine with six bytes to spare, and a byte for each token. -/

def idleInstance : ModelInstance where
  id := "m::pc::rt"
  modelId := "m"
  computerId := some "pc"
  runtimeId := "rt"
  loaded := false
  state := some .installed
  health := .healthy
  contextTokens := none
  desired := none
  pinned := false
  residentMemoryBytes := none

def smallMachine (contextMax : ℚ) : LoadTarget where
  instance_ := idleInstance
  computerHealthy := true
  runtimeHealthy := true
  installed := some true
  compatible := true
  canLoad := true
  configuredContext := none
  contextMax := contextMax
  profile := none
  snapshot := ⟨some 6, none, none, true, []⟩
  reservePercent := 0
  minimumReserveBytes := 0
  minimumContext := some 5
  autoContext := some 8
  estimateModelLoad := some fun c => some ⟨some c, none, true⟩
  unknownBound := none
  policyAllows _ _ := true
  residents := []
  operating _ := false
  active _ := false
  evictAllowed _ := true

def loadOptions (context : Option JsNumber) (mode : Option ContextMode) : ModelLoadOptions where
  context := context
  mode := mode
  fit := false
  minimumContext := none
  evict := false
  dryRun := false

theorem smallMachine_grows (contextMax : ℚ) : Grows (smallMachine contextMax).answer := by
  intro c d hc hcd total htotal
  have hpos : (0 : ℚ) < c := by exact_mod_cast hc
  have htold : ∀ c : ℤ, (smallMachine contextMax).answer c = ⟨some (c : ℚ), none, true⟩ := fun _ => rfl
  rw [htold] at htotal ⊢
  obtain ⟨heq, -⟩ := Option.filter_eq_some_iff.mp htotal
  obtain rfl := Option.some.inj heq
  exact ⟨⟨c, by simp [ModelLoadEstimate.total, hpos], by exact_mod_cast hcd⟩, fun _ => rfl, nofun⟩

theorem smallMachine_fits (contextMax : ℚ) {c : ℤ} (hc : 0 < c) :
    ((smallMachine contextMax).estimateAt c).fits = true ↔ c ≤ 6 := by
  have hpos : (0 : ℚ) < c := by exact_mod_cast hc
  have htotal : ((smallMachine contextMax).answer c).total = some (c : ℚ) :=
    Option.filter_eq_some_iff.mpr ⟨rfl, by simp [hpos, answer, orProfile, smallMachine]⟩
  have husable : (smallMachine contextMax).usable = some 6 := by
    norm_num [usable, smallMachine, held]
  rw [estimateAt, judged_fits, htotal, husable]
  constructor
  · rintro ⟨total, usable, htold, hhas, hle, -⟩
    cases htold
    cases hhas
    exact_mod_cast hle
  · intro hle
    exact ⟨c, 6, rfl, rfl, by exact_mod_cast hle, .inl rfl⟩

/-- Seven tokens with mode AUTO. -/
def autoOptions : ModelLoadOptions := loadOptions (some (.finite 7)) (some .auto)

theorem settle_auto : (smallMachine 100).settle autoOptions 5 7 =
    ((smallMachine 100).estimateAt 6, 6, some 6) := by
  have hsearch : search (smallMachine 100).estimateAt 5 7 none =
      some ((smallMachine 100).estimateAt 6) := by
    have hsix : IsGreatest (fitting (smallMachine 100).estimateAt 5 7) 6 :=
      ⟨⟨by decide, by decide, (smallMachine_fits 100 (by decide)).mpr le_rfl⟩,
        fun c hc => (smallMachine_fits 100 (by have := hc.1; omega)).mp hc.2.2⟩
    rcases search_fits (smallMachine_grows 100) (show (1 : ℤ) ≤ 5 by decide) with
      ⟨c, hgreatest, hfound⟩ | ⟨hempty, -⟩
    · rw [hfound, hgreatest.unique hsix]
    · exact absurd hempty (Set.nonempty_iff_ne_empty.mp ⟨6, hsix.1⟩)
  rw [settle_eq rfl, if_pos ⟨by decide +kernel, by decide⟩, hsearch]
  rfl

theorem auto_reasons : ((smallMachine 100).planFor autoOptions (some 7) 5 7).reasons = [] := by
  have hreasons : ((smallMachine 100).planFor autoOptions (some 7) 5 7).reasons =
      (smallMachine 100).loadDenials ((smallMachine 100).settle autoOptions 5 7).1 ++ [] := rfl
  rw [hreasons, settle_auto]
  decide +kernel

/-- A load that is admitted with the largest context that the machine bears. -/
theorem smallMachine_sound : ∃ plan, (smallMachine 100).estimateTarget autoOptions = .ok plan ∧
    plan.admitted = true ∧ Admitted (smallMachine 100) autoOptions plan ∧
    (smallMachine 100).contexts autoOptions = .ok (some 7, 5, 7) ∧
    ((smallMachine 100).estimateAt 7).classification = .insufficient ∧
    ∀ c, plan.machineSafeContext = some c ↔
      IsGreatest (fitting (smallMachine 100).estimateAt 5 7) c := by
  have hinsufficient : ((smallMachine 100).estimateAt 7).classification = .insufficient := by
    decide +kernel
  refine ⟨_, rfl, decide_eq_true auto_reasons, ?_, rfl, hinsufficient, fun c => ?_⟩
  · exact (admission_sound _ _ (smallMachine_grows 100) rfl rfl).1 (decide_eq_true auto_reasons)
  · exact ((admission_sound (smallMachine 100) autoOptions (smallMachine_grows 100) rfl rfl).2
      _ _ _ rfl (by decide) hinsufficient).1 c

/-- A request with a mode of its own is lowered without `fit`, and where a limit lies below the desired
context, what would fit above the limit does not count. -/
theorem request_lowered : (∃ plan, (smallMachine 100).estimateTarget autoOptions = .ok plan ∧
      plan.reuse = false ∧ plan.admitted = true ∧ plan.effectiveContext ≠ 7) ∧
    ∃ plan, (smallMachine 5).estimateTarget (loadOptions none none) = .ok plan ∧ plan.reuse = false ∧
      ((smallMachine 5).estimateAt 8).fits = false ∧ plan.machineSafeContext = some 5 ∧
      ¬ IsGreatest (fitting (smallMachine 5).estimateAt 5 8) 5 := by
  constructor
  · have heffective : ((smallMachine 100).planFor autoOptions (some 7) 5 7).effectiveContext =
        ((smallMachine 100).settle autoOptions 5 7).2.1 := rfl
    refine ⟨_, rfl, rfl, decide_eq_true auto_reasons, fun hseven => ?_⟩
    have hsix := heffective.symm.trans hseven
    rw [settle_auto] at hsix
    norm_num at hsix
  · refine ⟨_, rfl, rfl, by decide +kernel, by decide +kernel, fun h => ?_⟩
    have hsix : (6 : ℤ) ∈ fitting (smallMachine 5).estimateAt 5 8 :=
      ⟨by decide, by decide, (smallMachine_fits 5 (by decide)).mpr le_rfl⟩
    exact absurd (h.2 hsix) (by decide)

end Wazir.Models.LoadTarget
