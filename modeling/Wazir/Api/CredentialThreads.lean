import Wazir.Api.Revoked

/-! The calls of `ApiAuth`, each safe from where it begins: what a thread knows of the credential it
has drawn or the revocation it has begun, and what the others leave of it. -/

namespace Wazir.Api

open Wazir.Async

variable {op : AuthOp}

section Contract

variable (secrets : Secrets)

/-- What the others do in the meantime, `new`, leaves to thread `i`. -/
structure Undisturbed (i : ℕ) (new : List AuthEntry) (h h' : AuthHist) : Prop where
  process : h'.shared.process = h.shared.process
  entries : h'.entries = h.entries ++ new
  others : ∀ x ∈ new, x.thread ≠ i
  seen : ∀ m, Seen secrets m h → Seen secrets m h'
  unseen : ∀ n d, (∃ x ∈ h.entries, x.thread = i ∧ drawOf x = some (n, d)) → ¬ Seen secrets n h →
    ¬ Seen secrets n h'
  gone : ∀ m, Seen secrets m h →
    (∀ y ∈ h.shared.stored, y.revoked = false → ¬ OfDraw secrets m y) →
      ∀ y ∈ h'.shared.stored, y.revoked = false → ¬ OfDraw secrets m y
  stored : ∀ d, (∃ y ∈ h.shared.stored, y.deviceId = d) → ∃ y ∈ h'.shared.stored, y.deviceId = d
  revoked : ∀ d, (∀ r ∈ h.shared.memory, r.deviceId = d → r.revoked = true) →
    (∀ r ∈ h'.shared.memory, r.deviceId = d → r.revoked = true) ∨
      ∃ x ∈ new, (installed x).map (fun r => r.deviceId) = some d
  spent : ∀ j m, Spent secrets j m h' → Spent secrets j m h ∨
    ∃ x ∈ new, x.thread = j ∧ (installed x).isSome = true

variable {secrets} {i : ℕ} {h h₁ h₂ h₃ : AuthHist} {new new' : List AuthEntry}

theorem Undisturbed.nothing {ev : Event AuthOp AuthRes AuthRequest ℕ AuthInput AuthState}
    (hentries : (h.push ev h.shared).entries = h.entries) :
    Undisturbed secrets i [] h (h.push ev h.shared) where
  process := rfl
  entries := by rw [hentries, List.append_nil]
  others _ hx := absurd hx List.not_mem_nil
  seen m hm := by
    rwa [Seen, hentries]
  unseen n d _ hn := by
    rwa [Seen, hentries]
  gone _ _ hy := hy
  stored _ hd := hd
  revoked _ hd := .inl hd
  spent j m hsp := by
    rw [Spent, hentries] at hsp
    exact .inl hsp

theorem Undisturbed.refl : Undisturbed secrets i [] h h where
  process := rfl
  entries := (List.append_nil _).symm
  others _ hx := absurd hx List.not_mem_nil
  seen _ hm := hm
  unseen _ _ _ hn := hn
  gone _ _ hy := hy
  stored _ hd := hd
  revoked _ hd := .inl hd
  spent _ _ hsp := .inl hsp

theorem Undisturbed.trans (h₁₂ : Undisturbed secrets i new h₁ h₂)
    (h₂₃ : Undisturbed secrets i new' h₂ h₃) : Undisturbed secrets i (new ++ new') h₁ h₃ where
  process := h₂₃.process.trans h₁₂.process
  entries := by rw [h₂₃.entries, h₁₂.entries, List.append_assoc]
  others x hx := (List.mem_append.mp hx).elim (h₁₂.others x) (h₂₃.others x)
  seen m hm := h₂₃.seen m (h₁₂.seen m hm)
  unseen := by
    rintro n d ⟨x, hx, hd⟩ hn
    exact h₂₃.unseen n d ⟨x, by rw [h₁₂.entries]; exact List.mem_append_left _ hx, hd⟩
      (h₁₂.unseen n d ⟨x, hx, hd⟩ hn)
  gone m hm hy := h₂₃.gone m (h₁₂.seen m hm) (h₁₂.gone m hm hy)
  stored d hd := h₂₃.stored d (h₁₂.stored d hd)
  revoked d hd := by
    rcases h₁₂.revoked d hd with hd | ⟨x, hx, hd⟩
    · rcases h₂₃.revoked d hd with hd | ⟨x, hx, hd⟩
      · exact .inl hd
      · exact .inr ⟨x, List.mem_append_right _ hx, hd⟩
    · exact .inr ⟨x, List.mem_append_left _ hx, hd⟩
  spent j m hsp := by
    rcases h₂₃.spent j m hsp with hsp | ⟨x, hx, hj⟩
    · rcases h₁₂.spent j m hsp with hsp | ⟨x, hx, hj⟩
      · exact .inl hsp
      · exact .inr ⟨x, List.mem_append_left _ hx, hj⟩
    · exact .inr ⟨x, List.mem_append_right _ hx, hj⟩

theorem Undisturbed.ran {j : ℕ} {c : AuthRequest} {inp : AuthInput} {r : AuthRes op}
    {s' : AuthState} (inv : AuthInv secrets h) (hs : secrets.Sound)
    (hx : authExec secrets op inp h.shared = some (r, s'))
    (hallowed : AuthAllowed secrets h ⟨j, c, op, inp, r, h.shared, s'⟩) (hij : i ≠ j) :
    Undisturbed secrets i [⟨j, c, op, inp, r, h.shared, s'⟩] h (h.ran j c op inp r s') where
  process := (authExec_moves hx : Moves secrets ⟨j, c, op, inp, r, h.shared, s'⟩).process
  entries := authEntries_ran
  others x hx := by
    cases List.mem_singleton.mp hx
    exact hij.symm
  seen _ hm := hm.mono
  unseen := by
    rintro n d ⟨x, hmem, hthread, hd⟩ hn hseen
    rcases seen_ran (authExec_moves hx) n hseen with hseen | ⟨rec, hrec, hn'⟩
    · exact hn hseen
    · -- what is installed was drawn by its own thread
      obtain ⟨-, -, m, hm, -, ⟨y, hy, hthread', hd'⟩, -⟩ := hallowed.installs rec hrec
      cases hm.unique hs hn'
      exact hij (hthread.symm.trans ((inv.owner hmem hy hd hd').1.trans hthread'))
  gone m hm hst y hy hlive hn := by
    have hmoves : Moves secrets ⟨j, c, op, inp, r, h.shared, s'⟩ := authExec_moves hx
    rcases hmoves.stored y hy with hy | hput
    · exact hst y hy hlive hn
    · exact ((hallowed.puts y hput).2 hlive m hn).1 hm
  stored := (authExec_moves hx : Moves secrets ⟨j, c, op, inp, r, h.shared, s'⟩).keepsStored
  revoked d hd := by
    have hmoves : Moves secrets ⟨j, c, op, inp, r, h.shared, s'⟩ := authExec_moves hx
    by_cases hi : (installed ⟨j, c, op, inp, r, h.shared, s'⟩).map (fun r => r.deviceId) = some d
    · exact .inr ⟨_, List.mem_singleton_self _, hi⟩
    refine .inl fun x hx hxd => ?_
    rcases hmoves.memory x hx with ⟨x₀, hx₀, hcopy⟩ | hinst
    · by_contra hne
      have hlive := hcopy.live (Bool.not_eq_true _ ▸ hne)
      rw [hd x₀ hx₀ (hcopy.device ▸ hxd)] at hlive
      cases hlive
    · exact absurd (by rw [hinst, Option.map_some, hxd]) hi
  spent k m hsp := by
    rcases spent_cases hallowed hx hsp with hsp | ⟨rfl, rec, hrec, -⟩
    · exact .inl hsp
    · exact .inr ⟨_, List.mem_singleton_self _, rfl, by rw [hrec]; rfl⟩

variable (secrets) in
def authContract : Contract AuthOp AuthRes AuthRequest ℕ AuthInput AuthState where
  Ok h := h.Always NotAcross
  Inv := AuthInv secrets
  Rely i c h h' := h.entries <+: h'.entries ∧
    (h.shared.process = c.process → ∃ new, Undisturbed secrets i new h h')

/-- An allowed command keeps the contract. -/
theorem auth_up {c : AuthRequest} {inp : AuthInput} {r : AuthRes op} {s' : AuthState}
    (inv : AuthInv secrets h) (hs : secrets.Sound)
    (hx : authExec secrets op inp h.shared = some (r, s'))
    (hallowed : AuthAllowed secrets h ⟨i, c, op, inp, r, h.shared, s'⟩) :
    AuthInv secrets (h.ran i c op inp r s') ∧ ∀ j d, j ≠ i →
      (authContract secrets).Rely j d h (h.ran i c op inp r s') :=
  ⟨inv.ran (authExec_moves hx) hs hx hallowed,
    fun _ _ hj => ⟨by rw [authEntries_ran]; exact List.prefix_append _ _,
      fun _ => ⟨_, .ran inv hs hx hallowed hj⟩⟩⟩

end Contract

/-! What a thread knows. -/

variable {rec : MobileDeviceRecord}

section Knows

variable (secrets : Secrets)

/-- The thread has drawn the `n`-th credential, for device `d`, and not installed it yet. -/
structure HoldsDraw (i : ℕ) (c : AuthRequest) (n : ℕ) (d : String) (h : AuthHist) : Prop where
  process : h.shared.process = c.process
  own : ∀ x ∈ h.entries, x.thread = i → x.call = c ∧ installed x = none
  draw : ∃ x ∈ h.entries, x.thread = i ∧ drawOf x = some (n, d)
  unseen : ¬ Seen secrets n h
  returned : ∀ k ∈ h.entries, returnsRevocation k = some d → k.before.drawn ≤ n ∨ k ∈ h.sinceStart i
  spent : ∀ x ∈ h.entries, x.thread = i → ∀ r m, exchanged secrets x = some r → OfDraw secrets m r →
    Seen secrets m h ∧ ∀ j, Spent secrets j m h →
      ∃ refreshToken ttlMs, c.call = .rotate refreshToken ttlMs ∧
        ∃ y ∈ h.sinceStart i, rotates y = some refreshToken
  presented : ∀ refreshToken ttlMs, c.call = .rotate refreshToken ttlMs →
    ∃ x ∈ h.entries, x.thread = i ∧ ∃ r, exchanged secrets x = some r ∧
      ∃ m, OfDraw secrets m r ∧ refreshToken = secrets.refreshToken m

/-- Its put is in the store. -/
structure Placed (i : ℕ) (d : String) (h : AuthHist) : Prop where
  stored : ∃ y ∈ h.shared.stored, y.deviceId = d
  gone : ∀ x ∈ h.entries, x.thread = i → ∀ r m, exchanged secrets x = some r → OfDraw secrets m r →
    ∀ y ∈ h.shared.stored, y.revoked = false → ¬ OfDraw secrets m y

/-- The thread has revoked `rec` in memory. -/
structure Revokes (i : ℕ) (c : AuthRequest) (rec : MobileDeviceRecord) (h : AuthHist) : Prop where
  process : h.shared.process = c.process
  own : ∀ x ∈ h.entries, x.thread = i → x.call = c
  begun : ∃ x ∈ h.entries, x.thread = i
  known : ∃ n, ∃ x ∈ h.entries, drawOf x = some (n, rec.deviceId) ∧ OfDraw secrets n rec
  memory : (∀ r ∈ h.shared.memory, r.deviceId = rec.deviceId → r.revoked = true) ∨
    ∃ x ∈ h.sinceStart i, (installed x).map (fun r => r.deviceId) = some rec.deviceId

variable {secrets} {i : ℕ} {c : AuthRequest} {n : ℕ} {d : String} {h h' : AuthHist}
  {new : List AuthEntry}

theorem sinceStart_later (hu : Undisturbed secrets i new h h')
    (hbegun : ∃ x ∈ h.entries, x.thread = i) : h'.sinceStart i = h.sinceStart i ++ new := by
  rw [Hist.sinceStart_append hu.entries hbegun,
    List.filter_eq_self.mpr fun x hx => decide_eq_true (hu.others x hx)]

theorem rotates_of {x : AuthEntry} {r : MobileDeviceRecord} {refreshToken : String} {ttlMs : ℤ}
    (hi : installed x = some r) (hc : x.call.call = .rotate refreshToken ttlMs) :
    rotates x = some refreshToken := by
  obtain ⟨j, ⟨p, call⟩, op, inp, res, s, s'⟩ := x
  cases hc
  cases op with
  | install => rfl
  | issue | rotate | revoke | matchDevice | put => cases hi

theorem Undisturbed.mem (hu : Undisturbed secrets i new h h') {x : AuthEntry}
    (hx : x ∈ h.entries) : x ∈ h'.entries := by
  rw [hu.entries]
  exact List.mem_append_left _ hx

theorem Undisturbed.mem_own (hu : Undisturbed secrets i new h h') {x : AuthEntry}
    (hx : x ∈ h'.entries) (hi : x.thread = i) : x ∈ h.entries := by
  rw [hu.entries] at hx
  rcases List.mem_append.mp hx with hx | hx
  · exact hx
  · exact absurd hi (hu.others x hx)

theorem HoldsDraw.later (hk : HoldsDraw secrets i c n d h) (hu : Undisturbed secrets i new h h')
    (hs : secrets.Sound) (inv : AuthInv secrets h') : HoldsDraw secrets i c n d h' := by
  obtain ⟨x₀, hx₀, hi₀, hd₀⟩ := hk.draw
  have hsince := sinceStart_later hu ⟨x₀, hx₀, hi₀⟩
  refine ⟨hu.process.trans hk.process, fun x hx hi => hk.own x (hu.mem_own hx hi) hi,
    ⟨x₀, hu.mem hx₀, hi₀, hd₀⟩, hu.unseen n d hk.draw hk.unseen, fun k hk' hret => ?_,
    fun x hx hi r m hr hm => ?_, fun refreshToken ttlMs hc => ?_⟩
  · rw [hu.entries] at hk'
    rw [hsince]
    rcases List.mem_append.mp hk' with hk' | hk'
    · exact (hk.returned k hk' hret).imp_right (List.mem_append_left _)
    · exact .inr (List.mem_append_right _ hk')
  · have hown := hu.mem_own hx hi
    obtain ⟨hseen, hspent⟩ := hk.spent x hown hi r m hr hm
    refine ⟨hu.seen m hseen, fun j hsp => ?_⟩
    rcases hu.spent j m hsp with hsp | ⟨y, hy, hyj, hinst⟩
    · obtain ⟨refreshToken, ttlMs, hc, y, hy, hrot⟩ := hspent j hsp
      exact ⟨refreshToken, ttlMs, hc, y, by rw [hsince]; exact List.mem_append_left _ hy, hrot⟩
    · -- the other has exchanged the same refresh token
      obtain ⟨⟨e, he, hej, r', hr', hm'⟩, -⟩ := hsp
      obtain ⟨-, -, -, refreshToken, ttlMs, hcall, htoken⟩ := inv.exchanges x hx r hr
      obtain ⟨-, -, -, refreshToken', ttlMs', hcall', htoken'⟩ := inv.exchanges e he r' hr'
      have hpresented : refreshToken = secrets.refreshToken m :=
        hs.digest _ ⟨m, .inr rfl⟩ _ (htoken.symm.trans hm.refresh)
      have hsame : refreshToken = refreshToken' :=
        hpresented.trans (hs.digest _ ⟨m, .inr rfl⟩ _ (htoken'.symm.trans hm'.refresh)).symm
      obtain ⟨rec, hrec⟩ := Option.isSome_iff_exists.mp hinst
      have hy' : y ∈ h'.entries := by
        rw [hu.entries]
        exact List.mem_append_right _ hy
      have hycall := inv.same y hy' e he (hyj.trans hej.symm)
      refine ⟨refreshToken, ttlMs, (hk.own x hown hi).1 ▸ hcall, y, ?_, ?_⟩
      · rw [hsince]
        exact List.mem_append_right _ hy
      · rw [hsame]
        exact rotates_of hrec (by rw [hycall, hcall'])
  · obtain ⟨x, hx, hrest⟩ := hk.presented refreshToken ttlMs hc
    exact ⟨x, hu.mem hx, hrest⟩

theorem Placed.later (hp : Placed secrets i d h) (hk : HoldsDraw secrets i c n d h)
    (hu : Undisturbed secrets i new h h') : Placed secrets i d h' where
  stored := hu.stored d hp.stored
  gone x hx hi r m hr hm :=
    have hown := hu.mem_own hx hi
    hu.gone m (hk.spent x hown hi r m hr hm).1 (hp.gone x hown hi r m hr hm)

theorem Revokes.later (hk : Revokes secrets i c rec h) (hu : Undisturbed secrets i new h h') :
    Revokes secrets i c rec h' := by
  have hsince := sinceStart_later hu hk.begun
  obtain ⟨x₀, hx₀, hi₀⟩ := hk.begun
  obtain ⟨n, x, hx, hrest⟩ := hk.known
  refine ⟨hu.process.trans hk.process, fun x hx hi => hk.own x (hu.mem_own hx hi) hi,
    ⟨x₀, hu.mem hx₀, hi₀⟩, ⟨n, x, hu.mem hx, hrest⟩, ?_⟩
  rw [hsince]
  rcases hk.memory with hmem | ⟨x, hx, hd⟩
  · rcases hu.revoked rec.deviceId hmem with hmem | ⟨x, hx, hd⟩
    · exact .inl hmem
    · exact .inr ⟨x, List.mem_append_right _ hx, hd⟩
  · exact .inr ⟨x, List.mem_append_left _ hx, hd⟩

end Knows

/-! What a thread does. -/

variable {deviceId : String}

section Does

variable {secrets : Secrets} {i : ℕ} {c : AuthRequest} {n : ℕ} {d : String} {h : AuthHist}
  {inp : AuthInput} {s' : AuthState} {drawn : Drawn}

/-- The put of what was drawn. -/
theorem HoldsDraw.put_allowed {r : AuthRes (.put drawn.record)}
    (hk : HoldsDraw secrets i c n drawn.record.deviceId h) (inv : AuthInv secrets h)
    (hs : secrets.Sound) (hrec : OfDraw secrets n drawn.record)
    (hlive : drawn.record.revoked = false) :
    AuthAllowed secrets h ⟨i, c, .put drawn.record, inp, r, h.shared, s'⟩ where
  same x hx hi := (hk.own x hx hi).1
  named _ _ hop := by cases hop
  draws hd := absurd rfl hd
  puts x hx := by
    cases hx
    obtain ⟨y, hy, hyi, hyd⟩ := hk.draw
    refine ⟨⟨n, y, hy, hyd, hrec⟩, fun _ m hm => ?_⟩
    cases hm.unique hs hrec
    refine ⟨hk.unseen, fun ⟨e, he, rec, hinst, hm⟩ => ?_⟩
    -- only the thread that drew it could have installed it
    obtain ⟨-, m', e', he', hthread, hd', hm'⟩ := inv.installs e he rec hinst
    cases hm'.unique hs hm
    have := (inv.owner hy he' hyd hd').1
    rw [(hk.own e he (hthread.symm.trans (this.symm.trans hyi))).2] at hinst
    cases hinst
  installs _ hx := by cases hx
  exchanges _ hx := by cases hx
  returns x hret := by
    cases r with
    | ok _ =>
      simp only [returnsRevocation, hlive] at hret
      cases hret
    | error _ => cases hret

theorem HoldsDraw.put_ran {r : AuthRes (.put drawn.record)}
    (hk : HoldsDraw secrets i c n drawn.record.deviceId h)
    (hx : authExec secrets (.put drawn.record) inp h.shared = some (r, s'))
    (hallowed : AuthAllowed secrets h ⟨i, c, .put drawn.record, inp, r, h.shared, s'⟩)
    (hlive : drawn.record.revoked = false) :
    HoldsDraw secrets i c n drawn.record.deviceId (h.ran i c (.put drawn.record) inp r s') := by
  obtain ⟨y, hy, hyi, hyd⟩ := hk.draw
  refine ⟨?_, fun x hx hi => ?_, ⟨y, mem_ran_of hy, hyi, hyd⟩, fun hseen => ?_,
    fun k hk' hret => ?_, fun x hx' hi e m he hm => ?_, fun refreshToken ttlMs hc => ?_⟩
  · exact (authExec_moves hx : Moves secrets ⟨i, c, _, inp, r, h.shared, s'⟩).process.trans hk.process
  · rcases mem_ran hx with hx | rfl
    · exact hk.own x hx hi
    · exact ⟨rfl, rfl⟩
  · rcases seen_ran (authExec_moves hx) n hseen with hseen | ⟨rec, hrec, -⟩
    · exact hk.unseen hseen
    · cases hrec
  · rw [Hist.sinceStart_own authEntries_ran rfl]
    rcases mem_ran hk' with hk' | rfl
    · exact hk.returned k hk' hret
    · cases r with
      | ok _ =>
        simp only [returnsRevocation, hlive] at hret
        cases hret
      | error _ => cases hret
  · rw [Hist.sinceStart_own authEntries_ran rfl]
    rcases mem_ran hx' with hx' | rfl
    · obtain ⟨hseen, hspent⟩ := hk.spent x hx' hi e m he hm
      refine ⟨hseen.mono, fun j hsp => ?_⟩
      rcases spent_cases hallowed hx hsp with hsp | ⟨-, rec, hrec, -⟩
      · exact hspent j hsp
      · cases hrec
    · cases he
  · obtain ⟨x, hx, hrest⟩ := hk.presented refreshToken ttlMs hc
    exact ⟨x, mem_ran_of hx, hrest⟩

theorem authExec_put {s : AuthState} {r : AuthRes (.put rec)}
    (hx : authExec secrets (.put rec) inp s = some (r, s')) :
    s'.memory = s.memory ∧ (r = .ok () → s'.stored = setDevice s.stored rec) := by
  cases hx
  refine ⟨?_, fun hok => ?_⟩
  · split_ifs <;> rfl
  · have hlands : inp.lands = true := by
      cases hfault : inp.fault with
      | none => simp [AuthInput.lands, hfault]
      | some e =>
        rw [hfault] at hok
        cases hok
    rw [if_pos hlands]

theorem HoldsDraw.put_placed (hk : HoldsDraw secrets i c n drawn.record.deviceId h)
    (inv : AuthInv secrets h) (hs : secrets.Sound) (hrec : OfDraw secrets n drawn.record)
    (hx : authExec secrets (.put drawn.record) inp h.shared = some (.ok (), s')) :
    Placed secrets i drawn.record.deviceId (h.ran i c (.put drawn.record) inp (.ok ()) s') := by
  have hstored := (authExec_put hx).2 rfl
  refine ⟨by rw [Hist.ran, Hist.push_shared, hstored]; exact has_setDevice, ?_⟩
  intro x hx' hi r m hr hm y hy hlive hmy
  rw [Hist.ran, Hist.push_shared, hstored] at hy
  rcases mem_ran hx' with hx' | rfl
  · obtain ⟨y₀, hy₀, hi₀, hd₀⟩ := hk.draw
    rcases mem_setDevice hy with rfl | ⟨hy, hne⟩
    · cases hmy.unique hs hrec
      exact hk.unseen (hk.spent x hx' hi r _ hr hm).1
    · obtain ⟨-, ⟨k, hdraw⟩, ⟨m', e', he', hdraw', hm'⟩, -⟩ := inv.exchanges x hx' r hr
      cases hm'.unique hs hm
      have hdevice := inv.device hs (.inr hy) hmy he' hdraw'
      have := inv.single x hx' y₀ hy₀ _ _ (hi.trans hi₀.symm) hdraw hd₀
      exact hne (hdevice.trans (Prod.mk.inj this).2)
  · cases hr

/-- The installation, when nothing has come across it. -/
theorem HoldsDraw.install_allowed {r : AuthRes (.install drawn.record)}
    (hk : HoldsDraw secrets i c n drawn.record.deviceId h)
    (hp : Placed secrets i drawn.record.deviceId h) (hrec : OfDraw secrets n drawn.record)
    (hlive : drawn.record.revoked = false)
    (hacross : NotAcross h ⟨i, c, .install drawn.record, inp, r, h.shared, s'⟩) :
    AuthAllowed secrets h ⟨i, c, .install drawn.record, inp, r, h.shared, s'⟩ where
  same x hx hi := (hk.own x hx hi).1
  named _ _ hop := by cases hop
  draws hd := absurd rfl hd
  puts _ hx := by cases hx
  installs x hx := by
    cases hx
    refine ⟨hlive, hp.stored, n, hrec, hk.unseen, hk.draw, fun k hk' hret => ?_⟩
    rcases hk.returned k hk' hret with hle | hsince
    · exact hle
    · exact absurd hret (hacross.revoked _ rfl k hsince)
  exchanges x hx y hy hi r' m hr hm := by
    refine ⟨hp.gone y hy hi r' m hr hm, fun j hsp => ?_⟩
    obtain ⟨refreshToken, ttlMs, hc, x', hx', hrot⟩ := (hk.spent y hy hi r' m hr hm).2 j hsp
    exact hacross.rotated refreshToken (rotates_of hx hc) x' hx' hrot
  returns _ hret := by cases hret

/-- What the call that installed the `n`-th credential, for device `d`, has done. -/
structure Finished (secrets : Secrets) (i : ℕ) (c : AuthRequest) (n : ℕ) (d : String)
    (h : AuthHist) : Prop where
  draw : ∃ x ∈ h.entries, x.thread = i ∧ drawOf x = some (n, d)
  installed : ∃ x ∈ h.entries, x.thread = i ∧ ∃ r, installed x = some r ∧ OfDraw secrets n r
  spent : ∀ refreshToken ttlMs, c.call = .rotate refreshToken ttlMs →
    ∃ m, refreshToken = secrets.refreshToken m ∧ Spent secrets i m h

theorem HoldsDraw.finished {r : AuthRes (.install drawn.record)}
    (hk : HoldsDraw secrets i c n drawn.record.deviceId h) (hrec : OfDraw secrets n drawn.record) :
    Finished secrets i c n drawn.record.deviceId (h.ran i c (.install drawn.record) inp r s') := by
  obtain ⟨x, hx, hrest⟩ := hk.draw
  refine ⟨⟨x, mem_ran_of hx, hrest⟩, ⟨_, last_mem_ran, rfl, _, rfl, hrec⟩,
    fun refreshToken ttlMs hc => ?_⟩
  obtain ⟨y, hy, hyi, r', hr', m, hm, htoken⟩ := hk.presented refreshToken ttlMs hc
  exact ⟨m, htoken, ⟨y, mem_ran_of hy, hyi, r', hr', hm⟩, _, last_mem_ran, rfl, rfl⟩

theorem store_safe (hs : secrets.Sound) (hrec : OfDraw secrets n drawn.record)
    (hlive : drawn.record.revoked = false)
    (hk : HoldsDraw secrets i c n drawn.record.deviceId h) :
    Safe (authSystem secrets) (authContract secrets) i c (fun out h' => ∀ cred, out = .ok cred →
      cred = drawn.issued ∧ Finished secrets i c n drawn.record.deviceId h')
      (ApiAuth.store drawn) h := by
  intro h₁ inp r s hrely inv hx hok
  obtain ⟨new, hu⟩ := hrely.2 hk.process
  have hk₁ := hk.later hu hs inv
  have hallowed : AuthAllowed secrets h₁ ⟨i, c, .put drawn.record, inp, r, h₁.shared, s⟩ :=
    hk₁.put_allowed inv hs hrec hlive
  obtain ⟨inv₂, hrelies⟩ := auth_up inv hs hx hallowed
  refine ⟨inv₂, hrelies, ?_⟩
  have hk₂ := hk₁.put_ran hx hallowed hlive
  cases r with
  | error e => exact fun _ => nofun
  | ok _ =>
  have hp₂ := hk₁.put_placed inv hs hrec hx
  intro h₃ inp' r' s' hrely' inv₃ hx' hok'
  obtain ⟨new', hu'⟩ := hrely'.2 hk₂.process
  have hk₃ := hk₂.later hu' hs inv₃
  have hacross : NotAcross h₃ ⟨i, c, .install drawn.record, inp', r', h₃.shared, s'⟩ :=
    hok'.last rfl
  obtain ⟨inv₄, hrelies'⟩ := auth_up inv₃ hs hx'
    (hk₃.install_allowed (hp₂.later hk₂ hu') hrec hlive hacross)
  refine ⟨inv₄, hrelies', fun cred hcred => ?_⟩
  cases hcred
  exact ⟨rfl, hk₃.finished hrec⟩

/-- The thread has not done anything yet. -/
structure Unbegun (i : ℕ) (c : AuthRequest) (h : AuthHist) : Prop where
  process : h.shared.process = c.process
  nothing : ∀ x ∈ h.entries, x.thread ≠ i

theorem Unbegun.later {new : List AuthEntry} {h' : AuthHist} (hb : Unbegun i c h)
    (hu : Undisturbed secrets i new h h') : Unbegun i c h' :=
  ⟨hu.process.trans hb.process, fun x hx hi => hb.nothing x (hu.mem_own hx hi) hi⟩

/-- A first command that draws nothing, puts nothing and installs nothing. -/
theorem Unbegun.allowed {r : AuthRes op} (hb : Unbegun i c h)
    (hnamed : ∀ refreshToken ttlMs, op = .rotate refreshToken ttlMs →
      c.call = .rotate refreshToken ttlMs) (hput : ∀ x, op ≠ .put x)
    (hinstall : ∀ x, op ≠ .install x)
    (hret : returnsRevocation ⟨i, c, op, inp, r, h.shared, s'⟩ = none) :
    AuthAllowed secrets h ⟨i, c, op, inp, r, h.shared, s'⟩ := by
  have hinst : installed ⟨i, c, op, inp, r, h.shared, s'⟩ = none := by
    cases op with
    | install x => exact absurd rfl (hinstall x)
    | issue | rotate | revoke | matchDevice | put => rfl
  refine ⟨fun x hx hi => absurd hi (hb.nothing x hx), hnamed, fun _ => hb.nothing,
    fun x hx => absurd hx (hput x), fun x hx => absurd hx (by simp [hinst]),
    fun x hx => absurd hx (by simp [hinst]), fun x hx => absurd hx (by simp [hret])⟩

/-- What a thread knows once it has drawn. -/
theorem Unbegun.draws {r : AuthRes op} (hb : Unbegun i c h) (inv : AuthInv secrets h)
    (hx : authExec secrets op inp h.shared = some (r, s'))
    (hallowed : AuthAllowed secrets h ⟨i, c, op, inp, r, h.shared, s'⟩)
    (hd : drawOf ⟨i, c, op, inp, r, h.shared, s'⟩ = some (h.shared.drawn, d))
    (hi : installed ⟨i, c, op, inp, r, h.shared, s'⟩ = none)
    (hret : returnsRevocation ⟨i, c, op, inp, r, h.shared, s'⟩ = none)
    (hexch : ∀ x, exchanged secrets ⟨i, c, op, inp, r, h.shared, s'⟩ = some x →
      x ∈ h.shared.memory ∧ x.revoked = false)
    (hpresented : ∀ refreshToken ttlMs, c.call = .rotate refreshToken ttlMs →
      ∃ x, exchanged secrets ⟨i, c, op, inp, r, h.shared, s'⟩ = some x ∧
        ∃ m, OfDraw secrets m x ∧ refreshToken = secrets.refreshToken m) :
    HoldsDraw secrets i c h.shared.drawn d (h.ran i c op inp r s') := by
  refine ⟨?_, fun x hx hxi => ?_, ⟨_, last_mem_ran, rfl, hd⟩, fun hseen => ?_,
    fun k hk hkret => ?_, fun x hx' hxi e m he hm => ?_, fun refreshToken ttlMs hc => ?_⟩
  · exact (authExec_moves hx : Moves secrets ⟨i, c, _, inp, r, h.shared, s'⟩).process.trans hb.process
  · rcases mem_ran hx with hx | rfl
    · exact absurd hxi (hb.nothing x hx)
    · exact ⟨rfl, hi⟩
  · rcases seen_ran (authExec_moves hx) _ hseen with hseen | ⟨rec, hrec, -⟩
    · exact lt_irrefl _ (inv.seen _ hseen)
    · rw [hi] at hrec
      cases hrec
  · rcases mem_ran hk with hk | rfl
    · obtain ⟨hfirst, hsecond⟩ := inv.grown k hk
      exact .inl (hfirst.trans hsecond)
    · rw [hret] at hkret
      cases hkret
  · rcases mem_ran hx' with hx' | rfl
    · exact absurd hxi (hb.nothing x hx')
    · obtain ⟨hmem, hlive⟩ := hexch e he
      refine ⟨.inl ⟨_, last_mem_ran, e, hmem, hm⟩, fun j hsp => ?_⟩
      rcases spent_cases hallowed hx hsp with hsp | ⟨-, rec, hrec, -⟩
      · exact absurd hm (inv.spent j m hsp e (.inl hmem) hlive)
      · rw [hi] at hrec
        cases hrec
  · exact ⟨_, last_mem_ran, rfl, hpresented refreshToken ttlMs hc⟩

/-- A credential that a call draws, and its tokens. -/
structure Draws (secrets : Secrets) (n : ℕ) (drawn : Drawn) : Prop where
  record : OfDraw secrets n drawn.record
  live : drawn.record.revoked = false
  access : drawn.accessToken = secrets.accessToken n
  refresh : drawn.refreshToken = secrets.refreshToken n

theorem draws_issueDevice (params : DeviceParams) (nowMs : ℤ) (nowIso : String) (s : AuthState) :
    Draws secrets s.drawn (issueDevice secrets params nowMs nowIso s) where
  record := ⟨rfl, rfl⟩
  live := rfl
  access := rfl
  refresh := rfl

theorem draws_rotateDevice {x : MobileDeviceRecord} (hx : x.revoked = false) (ttlMs nowMs : ℤ)
    (nowIso : String) (s : AuthState) :
    Draws secrets s.drawn (rotateDevice secrets x ttlMs nowMs nowIso s) where
  record := ⟨rfl, rfl⟩
  live := hx
  access := rfl
  refresh := rfl

/-- What a call that has returned has done. -/
structure Replied (secrets : Secrets) (i : ℕ) (c : AuthRequest) (out : Except String AuthReply)
    (h : AuthHist) : Prop where
  issued : ∀ cred, out = .ok (.issued (some cred)) → ∃ n,
    cred.accessToken = secrets.accessToken n ∧ cred.refreshToken = secrets.refreshToken n ∧
      Finished secrets i c n cred.deviceId h
  revoked : ∀ known, out = .ok (.revoked known) → ∀ deviceId, c.call = .revoke deviceId →
    ∃ x ∈ h.entries, x.thread = i ∧ returnsRevocation x = some deviceId

theorem replied_error {e : String} : Replied secrets i c (.error e) h :=
  ⟨fun _ => nofun, fun _ => nofun⟩

theorem issue_safe (hs : secrets.Sound) {process : ℕ} {params : DeviceParams}
    (hb : Unbegun i ⟨process, .issue params⟩ h) :
    Safe (authSystem secrets) (authContract secrets) i ⟨process, .issue params⟩
      (Replied secrets i ⟨process, .issue params⟩)
      ((authSystem secrets).body ⟨process, .issue params⟩) h := by
  intro h₁ inp r s hrely inv hx hok
  obtain ⟨new, hu⟩ := hrely.2 hb.process
  have hb₁ := hb.later hu
  have hallowed : AuthAllowed secrets h₁
      ⟨i, ⟨process, .issue params⟩, .issue params, inp, r, h₁.shared, s⟩ :=
    hb₁.allowed (fun _ _ hop => by cases hop) (fun _ hop => by cases hop)
      (fun _ hop => by cases hop) rfl
  obtain ⟨inv₂, hrelies⟩ := auth_up inv hs hx hallowed
  refine ⟨inv₂, hrelies, ?_⟩
  have hdraws : Draws secrets h₁.shared.drawn r := by
    cases hx
    exact draws_issueDevice ..
  have hk := hb₁.draws inv hx hallowed (d := r.record.deviceId) rfl rfl rfl (fun _ h => by cases h)
    fun _ _ hc => by cases hc
  refine (store_safe hs hdraws.record hdraws.live hk).bind (fun cred h' hcred => ?_)
    fun _ _ _ => replied_error
  obtain ⟨rfl, hfin⟩ := hcred cred rfl
  refine ⟨fun cred hcred => ?_, fun _ hout => by cases hout⟩
  cases hcred
  exact ⟨_, hdraws.access, hdraws.refresh, hfin⟩

theorem rotate_safe (hs : secrets.Sound) {process : ℕ} {refreshToken : String} {ttlMs : ℤ}
    (hb : Unbegun i ⟨process, .rotate refreshToken ttlMs⟩ h) :
    Safe (authSystem secrets) (authContract secrets) i ⟨process, .rotate refreshToken ttlMs⟩
      (Replied secrets i ⟨process, .rotate refreshToken ttlMs⟩)
      ((authSystem secrets).body ⟨process, .rotate refreshToken ttlMs⟩) h := by
  intro h₁ inp r s hrely inv hx hok
  obtain ⟨new, hu⟩ := hrely.2 hb.process
  have hb₁ := hb.later hu
  have hret : returnsRevocation (⟨i, ⟨process, .rotate refreshToken ttlMs⟩,
      .rotate refreshToken ttlMs, inp, r, h₁.shared, s⟩ : AuthEntry) = none := rfl
  have hallowed : AuthAllowed secrets h₁ ⟨i, ⟨process, .rotate refreshToken ttlMs⟩,
      .rotate refreshToken ttlMs, inp, r, h₁.shared, s⟩ :=
    hb₁.allowed (fun _ _ hop => by cases hop; rfl) (fun _ hop => by cases hop)
      (fun _ hop => by cases hop) hret
  obtain ⟨inv₂, hrelies⟩ := auth_up inv hs hx hallowed
  refine ⟨inv₂, hrelies, ?_⟩
  cases r with
  | none => exact ⟨fun _ hout => (by cases hout), fun _ hout => (by cases hout)⟩
  | some drawn =>
  obtain ⟨x, hmatched, hdrawn⟩ : ∃ x, matchedRefresh secrets refreshToken inp.now.1 h₁.shared = some x ∧
      drawn = rotateDevice secrets x ttlMs inp.now.1 (isoText inp.now) h₁.shared := by
    simp only [authExec] at hx
    split_ifs at hx
    · cases hx
    · split at hx
      · cases hx
      · rename_i x hmatched
        cases hx
        exact ⟨x, hmatched, rfl⟩
  obtain ⟨hmem, hlive, htoken⟩ := matchedRefresh_mem hmatched
  obtain ⟨m, -, -, -, hm⟩ := inv.known x (.inl hmem)
  have hpresented : refreshToken = secrets.refreshToken m :=
    hs.digest _ ⟨m, .inr rfl⟩ _ (htoken.symm.trans hm.refresh)
  have hdraws : Draws secrets h₁.shared.drawn drawn := hdrawn ▸ draws_rotateDevice hlive ..
  have hk := hb₁.draws inv hx hallowed (d := drawn.record.deviceId) rfl rfl rfl
    (fun y hy => by cases hmatched.symm.trans hy; exact ⟨hmem, hlive⟩)
    fun _ _ hc => by cases hc; exact ⟨x, hmatched, m, hm, hpresented⟩
  have hbody : Safe (authSystem secrets) (authContract secrets) i
      ⟨process, .rotate refreshToken ttlMs⟩ (Replied secrets i ⟨process, .rotate refreshToken ttlMs⟩)
      ((ApiAuth.store drawn).bind fun cred => .ret (.issued (some cred)))
      (h₁.ran i ⟨process, .rotate refreshToken ttlMs⟩ (.rotate refreshToken ttlMs) inp (some drawn) s) := by
    refine (store_safe hs hdraws.record hdraws.live hk).bind (fun cred h' hcred => ?_)
      fun _ _ _ => replied_error
    obtain ⟨rfl, hfin⟩ := hcred cred rfl
    refine ⟨fun cred hcred => ?_, fun _ hout => by cases hout⟩
    cases hcred
    exact ⟨_, hdraws.access, hdraws.refresh, hfin⟩
  have hassoc : ((ApiAuth.store drawn).bind fun cred => .ret (some cred)).bind
      (fun reply => .ret (.issued reply)) =
      ((ApiAuth.store drawn).bind fun cred => .ret (.issued (some cred)) : AuthProg AuthReply) :=
    Prog.bind_assoc ..
  rw [← hassoc] at hbody
  exact hbody

/-- A revocation of a known device has put a revoked record in memory. -/
theorem Unbegun.revokes {r : AuthRes (.revoke deviceId)} (hb : Unbegun i c h)
    (inv : AuthInv secrets h) (hx : authExec secrets (.revoke deviceId) inp h.shared = some (r, s'))
    (hr : r = some rec) :
    Revokes secrets i c rec (h.ran i c (.revoke deviceId) inp r s') ∧ rec.deviceId = deviceId ∧
      rec.revoked = true := by
  have hprocess :=
    (authExec_moves hx : Moves secrets ⟨i, c, .revoke deviceId, inp, r, h.shared, s'⟩).process
  simp only [authExec] at hx
  split at hx
  · cases hx
    cases hr
  rename_i existing hexisting
  obtain ⟨hmem, hd⟩ := getDevice_some hexisting
  simp only [Option.some.injEq, Prod.mk.injEq] at hx
  obtain ⟨rfl, rfl⟩ := hx
  obtain rfl := Option.some.inj hr
  have hcopy := copy_revokedRecord existing (isoText inp.now)
  obtain ⟨n, x, hx, hdraw, hn⟩ := inv.known existing (.inl hmem)
  refine ⟨⟨hprocess.trans hb.process, fun x hx hi => ?_, ⟨_, last_mem_ran, rfl⟩,
    ⟨n, x, mem_ran_of hx, by rw [hcopy.device]; exact hdraw, hcopy.draw_iff.mpr hn⟩,
    .inl fun y hy hyd => ?_⟩, by rw [hcopy.device, hd], rfl⟩
  · rcases mem_ran hx with hx | rfl
    · exact absurd hi (hb.nothing x hx)
    · rfl
  · rcases mem_setDevice hy with rfl | ⟨-, hne⟩
    · rfl
    · exact absurd hyd hne

/-- A revocation of a device that memory does not know. -/
theorem Unbegun.unknown_allowed (hb : Unbegun i c h) (inv : AuthInv secrets h) (hs : secrets.Sound)
    (hx : authExec secrets (.revoke deviceId) inp h.shared = some (none, s')) :
    AuthAllowed secrets h ⟨i, c, .revoke deviceId, inp, none, h.shared, s'⟩ where
  same x hx hi := absurd hi (hb.nothing x hx)
  named _ _ hop := by cases hop
  draws hd := absurd rfl hd
  puts _ hx := by cases hx
  installs _ hx := by cases hx
  exchanges _ hx := by cases hx
  returns x hret hkept hlive n hn := by
    rintro ⟨e, he, rec, hinst, hn'⟩
    cases hret
    simp only [authExec] at hx
    split at hx
    · rename_i hnone
      cases hx
      have hunknown := getDevice_none hnone
      rcases hkept with hmem | ⟨hst, hne⟩
      · exact hunknown x hmem rfl
      · -- what was installed is of the same device, so memory has it
        obtain ⟨-, m, e', he', -, hd, hm⟩ := inv.installs e he rec hinst
        cases hm.unique hs hn'
        have hdevice := inv.device hs (.inr hst) hn he' hd
        obtain ⟨⟨y, hy, hyd⟩, -⟩ := inv.has e he rec hinst (hdevice ▸ hne)
        exact hunknown y hy (hyd.trans hdevice.symm)
    · cases hx

/-- The put of a revocation, when nothing of the device has come across it. -/
theorem Revokes.put_allowed {r : AuthRes (.put rec)} (hk : Revokes secrets i c rec h)
    (hrevoked : rec.revoked = true) (hx : authExec secrets (.put rec) inp h.shared = some (r, s'))
    (hacross : NotAcross h ⟨i, c, .put rec, inp, r, h.shared, s'⟩) :
    AuthAllowed secrets h ⟨i, c, .put rec, inp, r, h.shared, s'⟩ where
  same x hx hi := hk.own x hx hi
  named _ _ hop := by cases hop
  draws hd := absurd rfl hd
  puts x hx := by
    cases hx
    exact ⟨hk.known, fun hlive => absurd (hrevoked.symm.trans hlive) (by decide)⟩
  installs _ hx := by cases hx
  exchanges _ hx := by cases hx
  returns x hret hkept hlive n hn := by
    exfalso
    cases r with
    | error _ => cases hret
    | ok _ =>
    simp only [returnsRevocation, hrevoked, if_true, Option.some.injEq] at hret
    have hput := authExec_put hx
    rcases hkept with hmem | ⟨hst, -⟩
    · rcases hk.memory with hall | ⟨y, hy, hyd⟩
      · rw [hall x (hput.1 ▸ hmem) hret.symm] at hlive
        cases hlive
      · exact hacross.stored rec rfl (by simp [returnsRevocation, hrevoked]) y hy hyd
    · rcases mem_setDevice (hput.2 rfl ▸ hst) with rfl | ⟨-, hne⟩
      · cases hrevoked.symm.trans hlive
      · exact hne hret.symm

theorem revoke_safe (hs : secrets.Sound) {process : ℕ}
    (hb : Unbegun i ⟨process, .revoke deviceId⟩ h) :
    Safe (authSystem secrets) (authContract secrets) i ⟨process, .revoke deviceId⟩
      (Replied secrets i ⟨process, .revoke deviceId⟩)
      ((authSystem secrets).body ⟨process, .revoke deviceId⟩) h := by
  intro h₁ inp r s hrely inv hx hok
  obtain ⟨new, hu⟩ := hrely.2 hb.process
  have hb₁ := hb.later hu
  cases r with
  | none =>
    have hallowed : AuthAllowed secrets h₁
        ⟨i, ⟨process, .revoke deviceId⟩, .revoke deviceId, inp, none, h₁.shared, s⟩ :=
      hb₁.unknown_allowed inv hs hx
    obtain ⟨inv₂, hrelies⟩ := auth_up inv hs hx hallowed
    refine ⟨inv₂, hrelies, ⟨fun _ hout => (by cases hout), fun _ hout d hd => ?_⟩⟩
    cases hd
    exact ⟨_, last_mem_ran, rfl, rfl⟩
  | some rec =>
    have hallowed : AuthAllowed secrets h₁
        ⟨i, ⟨process, .revoke deviceId⟩, .revoke deviceId, inp, some rec, h₁.shared, s⟩ :=
      hb₁.allowed (fun _ _ hop => by cases hop) (fun _ hop => by cases hop)
        (fun _ hop => by cases hop) rfl
    obtain ⟨inv₂, hrelies⟩ := auth_up inv hs hx hallowed
    refine ⟨inv₂, hrelies, ?_⟩
    obtain ⟨hk, hd, hrevoked⟩ := hb₁.revokes inv hx rfl
    intro h₃ inp' r' s' hrely' inv₃ hx' hok'
    obtain ⟨new', hu'⟩ := hrely'.2 hk.process
    have hacross : NotAcross h₃ ⟨i, ⟨process, .revoke deviceId⟩, .put rec, inp', r', h₃.shared, s'⟩ :=
      hok'.last rfl
    obtain ⟨inv₄, hrelies'⟩ := auth_up inv₃ hs hx'
      ((hk.later hu').put_allowed hrevoked hx' hacross)
    refine ⟨inv₄, hrelies', ?_⟩
    cases r' with
    | error e => exact replied_error
    | ok _ =>
      refine ⟨fun _ hout => (by cases hout), fun _ hout d' hd' => ?_⟩
      cases hd'
      exact ⟨_, last_mem_ran, rfl, by simp [returnsRevocation, hrevoked, hd]⟩

theorem match_safe (hs : secrets.Sound) {process : ℕ} {presented : String}
    (hb : Unbegun i ⟨process, .matchDevice presented⟩ h) :
    Safe (authSystem secrets) (authContract secrets) i ⟨process, .matchDevice presented⟩
      (Replied secrets i ⟨process, .matchDevice presented⟩)
      ((authSystem secrets).body ⟨process, .matchDevice presented⟩) h := by
  intro h₁ inp r s hrely inv hx hok
  obtain ⟨new, hu⟩ := hrely.2 hb.process
  have hallowed : AuthAllowed secrets h₁
      ⟨i, ⟨process, .matchDevice presented⟩, .matchDevice presented, inp, r, h₁.shared, s⟩ :=
    (hb.later hu).allowed (fun _ _ hop => by cases hop) (fun _ hop => by cases hop)
      (fun _ hop => by cases hop) rfl
  obtain ⟨inv₂, hrelies⟩ := auth_up inv hs hx hallowed
  exact ⟨inv₂, hrelies, ⟨fun _ hout => (by cases hout), fun _ hout => (by cases hout)⟩⟩

end Does

end Wazir.Api
