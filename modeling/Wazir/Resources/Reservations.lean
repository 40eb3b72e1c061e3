import Wazir.Async.RelyGuarantee
import Wazir.Resources.UsageOnce

/-! What becomes of a reservation: over any run its status goes forward, its lease only grows, and
usage rows are only added. -/

namespace Wazir.Resources

open Wazir.Async

/-- A settled or released reservation stays so, and an expired one can still be settled. -/
structure ReservationRow.Advances (r r' : ReservationRow) : Prop where
  core : r'.core = r.core
  lease : r.leaseExpiresAt ≤ r'.leaseExpiresAt
  status : r'.status = r.status ∨ r.status = .active ∨ r.status = .expired ∧ r'.status = .settled

structure Ledger.Advances (l l' : Ledger) : Prop where
  reservations : ∀ r ∈ l.reservations, ∃ r' ∈ l'.reservations, r.Advances r'
  usage : l.usage <+: l'.usage

theorem ReservationRow.Advances.refl (r : ReservationRow) : r.Advances r := ⟨rfl, le_rfl, .inl rfl⟩

theorem ReservationRow.Advances.trans {r r' r'' : ReservationRow} (h : r.Advances r')
    (h' : r'.Advances r'') : r.Advances r'' := by
  refine ⟨h'.core.trans h.core, h.lease.trans h'.lease, ?_⟩
  rcases h.status with hs | hs | ⟨hs, hs'⟩
  · rw [← hs]
    exact h'.status
  · exact .inr (.inl hs)
  · rcases h'.status with ht | ht | ⟨ht, -⟩
    · exact .inr (.inr ⟨hs, ht.trans hs'⟩)
    · cases hs'.symm.trans ht
    · cases hs'.symm.trans ht

theorem Ledger.Advances.refl (l : Ledger) : l.Advances l := ⟨fun r hr => ⟨r, hr, .refl r⟩, List.prefix_rfl⟩

theorem Ledger.Advances.trans {l l' l'' : Ledger} (h : l.Advances l') (h' : l'.Advances l'') :
    l.Advances l'' := by
  refine ⟨fun r hr => ?_, h.usage.trans h'.usage⟩
  obtain ⟨r', hr', ha⟩ := h.reservations r hr
  obtain ⟨r'', hr'', ha'⟩ := h'.reservations r' hr'
  exact ⟨r'', hr'', ha.trans ha'⟩

theorem updateWhere_advances {l : Ledger} {p : ReservationRow → Bool}
    {f : ReservationRow → ReservationRow} (h : ∀ r ∈ l.reservations, p r = true → r.Advances (f r)) :
    ∀ r ∈ l.reservations, ∃ r' ∈ (l.updateWhere p f).reservations, r.Advances r' := by
  intro r hr
  refine ⟨_, Ledger.mem_updateWhere.mpr ⟨r, hr, rfl⟩, ?_⟩
  split_ifs with hp
  · exact h r hr hp
  · exact .refl r

theorem Change.advances {config : ResourceConfig} {inp : LedgerInput} {l l' : Ledger} {op : LedgerOp}
    {res : LedgerRes op} (h : Change config inp l l' op res) (hl : Sound l) : l.Advances l' := by
  cases h with
  | refused _ _ _ same => exact same ▸ .refl l
  | idle _ _ _ reservations usage =>
    exact ⟨fun r hr => ⟨r, reservations ▸ hr, .refl r⟩, usage ▸ List.prefix_rfl⟩
  | duplicate _ _ same => exact same ▸ .refl l
  | inserted _ _ _ _ _ _ _ reservations usage =>
    exact ⟨fun r hr => ⟨r, reservations ▸ List.mem_append_left _ hr, .refl r⟩, usage ▸ List.prefix_rfl⟩
  | updated _ _ _ p f core active lease status reservations usage =>
    refine ⟨?_, usage ▸ List.prefix_rfl⟩
    rw [reservations]
    exact updateWhere_advances fun r hr hp => ⟨core r, lease r, .inr (.inl (active hl.requests r hr hp))⟩
  | expired _ _ reservations usage =>
    refine ⟨?_, usage ▸ List.prefix_rfl⟩
    rw [reservations]
    refine updateWhere_advances fun r _ hp => ⟨rfl, le_rfl, .inr (.inl ?_)⟩
    simp only [ReservationRow.lapsed, Bool.and_eq_true, decide_eq_true_eq] at hp
    exact hp.2.1
  | settled _ _ _ reservations usage =>
    refine ⟨?_, usage ▸ List.prefix_append _ _⟩
    rw [reservations]
    refine updateWhere_advances fun r _ hp => ⟨rfl, le_rfl, .inr ?_⟩
    simp only [Bool.and_eq_true, Bool.or_eq_true, decide_eq_true_eq] at hp
    exact hp.2.imp_right fun hexpired => ⟨hexpired, rfl⟩

/-- Whatever is called, by any number of processes that may crash, no reservation goes back. -/
theorem reservations_advance {config : ResourceConfig} {cfg cfg' : LedgerConfig}
    (hr : Reach (ledgerSystem config) emptyLedger cfg)
    (hlater : Relation.ReflTransGen (Step (ledgerSystem config)) cfg cfg') :
    cfg.hist.shared.Advances cfg'.hist.shared := by
  refine (Reach.later (R := fun h h' => h.shared.Advances h'.shared) (fun h => .refl h.shared)
    (fun _ _ _ => .trans) (fun a b ha hab => ?_) hr hlater).1
  have hsound := (Bookkept.reach ha).sound
  cases hab with
  | begin c s alive adm =>
    cases adm
    exact .refl _
  | run i c op next inp r s hw hx =>
    have hexec : ledgerExec config op inp a.hist.shared = (r, s) := Option.some.inj hx
    have hchange : Change config inp a.hist.shared (ledgerExec config op inp a.hist.shared).2
        op (ledgerExec config op inp a.hist.shared).1 := ledgerExec_change op
    rw [hexec] at hchange
    exact hchange.advances hsound
  | crash p => exact .refl _

/-- A reservation that is active, and later expired. -/
theorem reservations_advance_lapsed : ∃ cfg cfg' : LedgerConfig,
    (cfg.hist.shared.getReservation "request").any (·.status = .active) = true ∧
    (cfg'.hist.shared.getReservation "request").any (·.status = .expired) = true ∧
    cfg.hist.shared.Advances cfg'.hist.shared := by
  have hrun : ((schedule (ledgerSystem plainConfig) (lapseRun.take 5) (.start emptyLedger)).any fun cfg =>
      (cfg.hist.shared.getReservation "request").any (·.status = .active) &&
        (schedule (ledgerSystem plainConfig) (lapseRun.drop 5) cfg).any fun cfg' =>
          (cfg'.hist.shared.getReservation "request").any (·.status = .expired)) = true := by
    decide
  obtain ⟨cfg, hr, hcheck⟩ := Reach.of_check hrun
  obtain ⟨hactive, hlater⟩ := (Bool.and_eq_true _ _).mp hcheck
  obtain ⟨cfg', hrest, hexpired⟩ := (Option.any_eq_true _ _).mp hlater
  exact ⟨cfg, cfg', hactive, hexpired, reservations_advance hr (schedule_steps hrest)⟩

end Wazir.Resources
