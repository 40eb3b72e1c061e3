import Wazir.Resources.Books

/-! What the requests of a ledger add up to. Each counts once: as its usage row, or as its estimate
until it is released. The sums that admission reads add up usage rows and live reservations; they
come to the same while no active lease has lapsed and every expired request is charged. -/

namespace Wazir.Resources

/-! Sums over lists. -/

theorem sum_map_filter {α : Type} (p : α → Bool) (f : α → ℚ) (xs : List α) :
    ((xs.filter p).map f).sum = (xs.map fun x => if p x then f x else 0).sum := by
  induction xs with
  | nil => rfl
  | cons x rest ih =>
    rw [List.filter_cons, List.map_cons, List.sum_cons, ← ih]
    split <;> simp

theorem sum_map_filterMap {α β : Type} (f : α → Option β) (g : β → ℚ) (xs : List α) :
    ((xs.filterMap f).map g).sum = (xs.map fun x => (f x).elim 0 g).sum := by
  induction xs with
  | nil => rfl
  | cons x rest ih =>
    rw [List.filterMap_cons, List.map_cons, List.sum_cons, ← ih]
    cases f x <;> simp

namespace Ledger

def usageRow (l : Ledger) (requestId : String) : Option UsageRow :=
  l.usage.find? (·.requestId = requestId)

/-- What a request counts for: its usage, where that falls into the window, or its estimate until
it is released. -/
def counted (l : Ledger) (window : UsageRow → Bool) (unit : LimitUnit) (r : ReservationRow) : ℚ :=
  match l.usageRow r.requestId with
  | some row => if window row then row.units unit else 0
  | none => if r.status = .released then 0 else r.units unit

/-- What the requests that `p` selects count for. -/
def committed (l : Ledger) (p : ReservationRow → Bool) (window : UsageRow → Bool)
    (unit : LimitUnit) : ℚ :=
  ((l.reservations.filter p).map (l.counted window unit)).sum

end Ledger

variable {r : ReservationRow}

section Conservation

variable {l : Ledger}

theorem Sound.usageRow_eq_some (h : Sound l) {requestId : String} {row : UsageRow} :
    l.usageRow requestId = some row ↔ row ∈ l.usage ∧ row.requestId = requestId := by
  refine ⟨fun hf => ⟨List.mem_of_find?_eq_some hf, by simpa using List.find?_some hf⟩, ?_⟩
  rintro ⟨hrow, rfl⟩
  cases hf : l.usageRow row.requestId with
  | none => simpa using List.find?_eq_none.mp hf row hrow
  | some row' =>
    have hid : row'.requestId = row.requestId := by simpa using List.find?_some hf
    rw [List.inj_on_of_nodup_map h.once (List.mem_of_find?_eq_some hf) hrow hid]

theorem usageRow_eq_none {requestId : String} :
    l.usageRow requestId = none ↔ l.hasUsage requestId = false := by
  simp [Ledger.usageRow, Ledger.hasUsage]

/-- The usage rows, request by request. -/
theorem Sound.usage_perm (h : Sound l) :
    ((l.reservations.map (·.requestId)).filterMap l.usageRow).Perm l.usage := by
  rw [List.perm_ext_iff_of_nodup]
  · intro row
    rw [List.mem_filterMap]
    constructor
    · rintro ⟨requestId, -, hrow⟩
      exact (h.usageRow_eq_some.mp hrow).1
    · intro hrow
      obtain ⟨r, hr, ho⟩ := h.owned row hrow
      exact ⟨r.requestId, List.mem_map_of_mem hr, h.usageRow_eq_some.mpr ⟨hrow, ho.requestId⟩⟩
  · refine List.Nodup.filterMap (fun id id' row hid hid' => ?_) h.requests
    exact (h.usageRow_eq_some.mp hid).2.symm.trans (h.usageRow_eq_some.mp hid').2
  · exact List.Nodup.of_map _ h.once

/-- A usage row found for a reservation is the reservation's. -/
theorem Sound.owner (h : Sound l) {row : UsageRow} (hr : r ∈ l.reservations)
    (hrow : l.usageRow r.requestId = some row) : Owns r row := by
  obtain ⟨hmem, hid⟩ := h.usageRow_eq_some.mp hrow
  obtain ⟨r', hr', ho⟩ := h.owned row hmem
  rwa [h.eq_of_requestId hr hr' (hid.symm.trans ho.requestId)]

/-- No active lease has lapsed, and every expired request is charged. -/
structure Settled (l : Ledger) (now : ℤ) : Prop where
  live : ∀ r ∈ l.reservations, r.status = .active → now < r.leaseExpiresAt
  charged : ∀ r ∈ l.reservations, r.status = .expired → l.hasUsage r.requestId = true

variable {now : ℤ} {p : ReservationRow → Bool} {ofUsage : UsageRow → Bool}

/-- A request that is not released is reserved or used, never neither and never both. -/
theorem Settled.either (hq : Settled l now) (h : Sound l) (hr : r ∈ l.reservations)
    (hn : r.status ≠ .released) :
    r.live now = !l.hasUsage r.requestId := by
  cases hst : r.status with
  | active => simp [ReservationRow.live, hst, hq.live r hr hst, h.unused r hr hst]
  | settled => simp [ReservationRow.live, hst, h.spent r hr hst]
  | released => exact absurd hst hn
  | expired => simp [ReservationRow.live, hst, hq.charged r hr hst]

theorem Settled.counted (hq : Settled l now) (h : Sound l)
    (hp : ∀ r row, Owns r row → ofUsage row = p r) (window : UsageRow → Bool) (unit : LimitUnit)
    (hr : r ∈ l.reservations) :
    (if p r then l.counted window unit r else 0) =
      (l.usageRow r.requestId).elim 0
        (fun row => if ofUsage row && window row then row.units unit else 0) +
      if p r && r.live now then r.units unit else 0 := by
  cases hrow : l.usageRow r.requestId with
  | some row =>
    have hused : l.hasUsage r.requestId = true :=
      Ledger.hasUsage_iff.mpr ⟨row, h.usageRow_eq_some.mp hrow⟩
    have hlive : r.live now = false := by
      cases hst : r.status with
      | active => simp [h.unused r hr hst] at hused
      | _ => simp [ReservationRow.live, hst]
    simp only [Ledger.counted, hrow, Option.elim, hp r row (h.owner hr hrow), hlive,
      Bool.and_false, Bool.false_eq_true, if_false, add_zero]
    cases p r <;> simp
  | none =>
    have hunused : l.hasUsage r.requestId = false := usageRow_eq_none.mp hrow
    simp only [Ledger.counted, hrow, Option.elim, zero_add]
    by_cases hn : r.status = .released
    · simp [hn, ReservationRow.live]
    · simp [hn, hq.either h hr hn, hunused]

/-- What the sums of admission come to. -/
theorem Settled.committed (hq : Settled l now) (h : Sound l) (p : ReservationRow → Bool)
    (ofUsage : UsageRow → Bool) (hp : ∀ r row, Owns r row → ofUsage row = p r) (window : UsageRow → Bool) (unit : LimitUnit) :
    l.committed p window unit =
      ((l.usage.filter fun row => ofUsage row && window row).map (·.units unit)).sum +
      ((l.reservations.filter fun r => p r && r.live now).map (·.units unit)).sum := by
  have husage : (l.usage.map fun row =>
        if ofUsage row && window row then row.units unit else 0).sum =
      (l.reservations.map fun r => (l.usageRow r.requestId).elim 0
        fun row => if ofUsage row && window row then row.units unit else 0).sum := by
    rw [← (h.usage_perm.map _).sum_eq, sum_map_filterMap, List.map_map]
    rfl
  rw [Ledger.committed, sum_map_filter, sum_map_filter, sum_map_filter, husage,
    ← List.sum_map_add]
  exact congrArg List.sum (List.map_congr_left fun r hr => hq.counted h hp window unit hr)

/-- One active reservation more. -/
theorem Sound.committed_insert (h : Sound l) (active : r.status = .active)
    (newRequest : ∀ r' ∈ l.reservations, r'.requestId ≠ r.requestId) (p : ReservationRow → Bool)
    (window : UsageRow → Bool) (unit : LimitUnit) :
    ({ l with reservations := l.reservations ++ [r] } : Ledger).committed p window unit =
      l.committed p window unit + if p r then r.units unit else 0 := by
  have hunused : l.usageRow r.requestId = none := by
    rw [usageRow_eq_none, ← Bool.not_eq_true, Ledger.hasUsage_iff]
    rintro ⟨row, hrow, hid⟩
    obtain ⟨r', hr', ho⟩ := h.owned row hrow
    exact newRequest r' hr' (ho.requestId.symm.trans hid)
  have hcounted : ({ l with reservations := l.reservations ++ [r] } : Ledger).counted window unit =
      l.counted window unit := rfl
  have hnew : l.counted window unit r = r.units unit := by
    simp [Ledger.counted, hunused, active]
  rw [Ledger.committed, hcounted, List.filter_append, List.map_append, List.sum_append,
    ← Ledger.committed]
  congr 1
  cases hpr : p r <;> simp [List.filter, hpr, hnew]

end Conservation

end Wazir.Resources
