import Wazir.Api.DeviceCredentials
import Wazir.Async.Local

/-! What the credentials of mobile devices must keep to so that a revocation is final and a refresh
token is exchanged once: nothing of a device is installed across its revocation, and no rotation
of a refresh token across another. -/

namespace Wazir.Api

open Wazir.Async

section Facts

variable (secrets : Secrets)

/-- The record holds the hashes of the `n`-th credential. -/
structure OfDraw (n : ℕ) (r : MobileDeviceRecord) : Prop where
  token : r.tokenHash = secrets.sha256 (secrets.accessToken n)
  refresh : r.refreshTokenHash = secrets.sha256 (secrets.refreshToken n)

/-- The credential that a command draws: its number and its device. -/
def drawOf : AuthEntry → Option (ℕ × String)
  | ⟨_, _, .issue _, _, drawn, before, _⟩ => some (before.drawn, drawn.record.deviceId)
  | ⟨_, _, .rotate _ _, _, some drawn, before, _⟩ => some (before.drawn, drawn.record.deviceId)
  | _ => none

/-- The record that a rotation exchanges. -/
def exchanged : AuthEntry → Option MobileDeviceRecord
  | ⟨_, _, .rotate refreshToken _, inp, some _, before, _⟩ =>
    matchedRefresh secrets refreshToken inp.now.1 before
  | _ => none

def installed : AuthEntry → Option MobileDeviceRecord
  | ⟨_, _, .install record, _, _, _, _⟩ => some record
  | _ => none

/-- The refresh token whose rotation installs its credential with this command. -/
def rotates : AuthEntry → Option String
  | ⟨_, ⟨_, .rotate refreshToken _⟩, .install _, _, _, _, _⟩ => some refreshToken
  | _ => none

/-- The device whose revocation returns with this command. -/
def returnsRevocation : AuthEntry → Option String
  | ⟨_, _, .revoke deviceId, _, none, _, _⟩ => some deviceId
  | ⟨_, _, .put record, _, .ok _, _, _⟩ => if record.revoked then some record.deviceId else none
  | _ => none

/-- The device and the token that a command accepts. -/
def accepts : AuthEntry → Option (String × String)
  | ⟨_, _, .rotate refreshToken _, _, some drawn, _, _⟩ =>
    some (drawn.record.deviceId, refreshToken)
  | ⟨_, _, .matchDevice presented, _, some record, _, _⟩ => some (record.deviceId, presented)
  | _ => none

/-- A credential is installed only if no revocation of its device has returned since it was drawn,
and for a rotation only if no other rotation of the same refresh token has installed one; and a
revocation is stored only if no credential of its device has been installed since it began. -/
structure NotAcross (h : AuthHist) (e : AuthEntry) : Prop where
  revoked : ∀ r, installed e = some r →
    ∀ x ∈ h.sinceStart e.thread, returnsRevocation x ≠ some r.deviceId
  rotated : ∀ refreshToken, rotates e = some refreshToken →
    ∀ x ∈ h.sinceStart e.thread, rotates x ≠ some refreshToken
  stored : ∀ r, e.op = .put r → returnsRevocation e = some r.deviceId →
    ∀ x ∈ h.sinceStart e.thread, (installed x).map (fun r => r.deviceId) ≠ some r.deviceId

end Facts

/-! Devices. -/

section Devices

variable {devices : List MobileDeviceRecord} {r x : MobileDeviceRecord} {d : String}

theorem mem_setDevice (h : x ∈ setDevice devices r) :
    x = r ∨ x ∈ devices ∧ x.deviceId ≠ r.deviceId := by
  unfold setDevice at h
  split_ifs at h with hany
  · obtain ⟨y, hy, rfl⟩ := List.mem_map.mp h
    by_cases hd : y.deviceId = r.deviceId
    · exact .inl (by simp [hd])
    · simp only [hd, if_false]
      exact .inr ⟨hy, hd⟩
  · rcases List.mem_append.mp h with hx | hx
    · refine .inr ⟨hx, fun hd => hany ?_⟩
      exact List.any_eq_true.mpr ⟨x, hx, decide_eq_true hd⟩
    · exact .inl (List.mem_singleton.mp hx)

theorem has_setDevice : ∃ x ∈ setDevice devices r, x.deviceId = r.deviceId := by
  unfold setDevice
  split_ifs with hany
  · obtain ⟨y, hy, hd⟩ := List.any_eq_true.mp hany
    exact ⟨r, List.mem_map.mpr ⟨y, hy, by simp [of_decide_eq_true hd]⟩, rfl⟩
  · exact ⟨r, List.mem_append_right _ (List.mem_singleton_self _), rfl⟩

theorem has_setDevice_of (h : ∃ x ∈ devices, x.deviceId = d) :
    ∃ x ∈ setDevice devices r, x.deviceId = d := by
  by_cases hd : r.deviceId = d
  · subst hd
    exact has_setDevice
  obtain ⟨x, hx, hxd⟩ := h
  have hne : x.deviceId ≠ r.deviceId := fun heq => hd (heq.symm.trans hxd)
  refine ⟨x, ?_, hxd⟩
  unfold setDevice
  split_ifs
  · exact List.mem_map.mpr ⟨x, hx, by simp [hne]⟩
  · exact List.mem_append_left _ hx

theorem getDevice_some (h : getDevice devices d = some r) : r ∈ devices ∧ r.deviceId = d :=
  ⟨List.mem_of_find?_eq_some h, by simpa using List.find?_some h⟩

theorem getDevice_none (h : getDevice devices d = none) : ∀ x ∈ devices, x.deviceId ≠ d := by
  intro x hx
  simpa using List.find?_eq_none.mp h x hx

end Devices

/-! Draws. -/

section Draws

variable {secrets : Secrets} {m n : ℕ} {r : MobileDeviceRecord}

/-- The tokens that are ever made. -/
def Secrets.tokens (secrets : Secrets) : Set String :=
  {token | ∃ n, token = secrets.accessToken n ∨ token = secrets.refreshToken n}

/-- Random bytes that never come twice, and no text but the token with the digest of a token. -/
structure Secrets.Sound (secrets : Secrets) : Prop where
  random : Function.Injective secrets.randomHex
  digest : ∀ token ∈ secrets.tokens, ∀ text, secrets.sha256 text = secrets.sha256 token → text = token

theorem accessToken_inj (hs : secrets.Sound)
    (h : secrets.accessToken m = secrets.accessToken n) : m = n := by
  have := hs.random ((String.append_right_inj "mob_at_").mp h)
  omega

theorem refreshToken_inj (hs : secrets.Sound)
    (h : secrets.refreshToken m = secrets.refreshToken n) : m = n := by
  have := hs.random ((String.append_right_inj "mob_rt_").mp h)
  omega

theorem accessToken_ne_refreshToken : secrets.accessToken m ≠ secrets.refreshToken n := by
  intro h
  have := congrArg String.toList h
  simp [Secrets.accessToken, Secrets.refreshToken, String.toList_append] at this

theorem OfDraw.unique (hs : secrets.Sound) (hm : OfDraw secrets m r) (hn : OfDraw secrets n r) :
    m = n :=
  accessToken_inj hs (hs.digest _ ⟨n, .inl rfl⟩ _ (hm.token.symm.trans hn.token))

end Draws

/-! What a command does to the records. -/

/-- `r` is `r₀` but for texts, and perhaps revoked. -/
structure Copy (r r₀ : MobileDeviceRecord) : Prop where
  device : r.deviceId = r₀.deviceId
  token : r.tokenHash = r₀.tokenHash
  refresh : r.refreshTokenHash = r₀.refreshTokenHash
  live : r.revoked = false → r₀.revoked = false

theorem Copy.refl (r : MobileDeviceRecord) : Copy r r := ⟨rfl, rfl, rfl, id⟩

theorem Copy.draw {secrets : Secrets} {n : ℕ} {r r₀ : MobileDeviceRecord} (hc : Copy r r₀)
    (h : OfDraw secrets n r) : OfDraw secrets n r₀ :=
  ⟨hc.token ▸ h.token, hc.refresh ▸ h.refresh⟩

theorem Copy.draw_iff {secrets : Secrets} {n : ℕ} {r r₀ : MobileDeviceRecord} (hc : Copy r r₀) :
    OfDraw secrets n r ↔ OfDraw secrets n r₀ :=
  ⟨hc.draw, fun h => ⟨hc.token.trans h.token, hc.refresh.trans h.refresh⟩⟩

theorem copy_revokedRecord (r : MobileDeviceRecord) (nowIso : String) :
    Copy (revokedRecord r nowIso) r where
  device := rfl
  token := rfl
  refresh := rfl
  live h := by cases h

theorem copy_seenRecord (r : MobileDeviceRecord) (nowIso : String) :
    Copy (seenRecord r nowIso) r where
  device := rfl
  token := rfl
  refresh := rfl
  live h := h

structure Moves (secrets : Secrets) (e : AuthEntry) : Prop where
  memory : ∀ r ∈ e.after.memory, (∃ r₀ ∈ e.before.memory, Copy r r₀) ∨ installed e = some r
  replaces : ∀ rec, installed e = some rec → ∀ r ∈ e.after.memory,
    r = rec ∨ r ∈ e.before.memory ∧ r.deviceId ≠ rec.deviceId
  stored : ∀ r ∈ e.after.stored, r ∈ e.before.stored ∨ e.op = .put r
  keeps : ∀ d, (∃ x ∈ e.before.memory, x.deviceId = d) → ∃ x ∈ e.after.memory, x.deviceId = d
  keepsStored : ∀ d, (∃ x ∈ e.before.stored, x.deviceId = d) →
    ∃ x ∈ e.after.stored, x.deviceId = d
  has : ∀ rec, installed e = some rec → ∃ x ∈ e.after.memory, x.deviceId = rec.deviceId
  draws : ∀ n d, drawOf e = some (n, d) → n = e.before.drawn ∧ e.after.drawn = n + 1
  drawsNot : drawOf e = none → e.after.drawn = e.before.drawn
  process : e.after.process = e.before.process

variable {x : MobileDeviceRecord} {e : AuthEntry}

section Moving

variable {secrets : Secrets} {i : ℕ} {c : AuthRequest} {op : AuthOp} {inp : AuthInput}
  {r : AuthRes op} {s s' : AuthState}

/-- A command that leaves the records alone and draws nothing. -/
theorem Moves.nothing (hd : drawOf e = none) (hi : installed e = none) (hs : e.after = e.before) :
    Moves secrets e := by
  refine ⟨?_, ?_, ?_, ?_, ?_, ?_, ?_, ?_, ?_⟩
  · exact fun r hr => .inl ⟨r, hs ▸ hr, .refl r⟩
  · exact fun rec hrec => absurd hrec (by simp [hi])
  · exact fun r hr => .inl (hs ▸ hr)
  · exact fun d hd => hs ▸ hd
  · exact fun d hd => hs ▸ hd
  · exact fun rec hrec => absurd hrec (by simp [hi])
  · exact fun n d hn => absurd hn (by simp [hd])
  · exact fun _ => by rw [hs]
  · rw [hs]

/-- A command that draws a credential. -/
theorem Moves.drawing {d : String} (hd : drawOf e = some (e.before.drawn, d))
    (hi : installed e = none) (hs : e.after = { e.before with drawn := e.before.drawn + 1 }) :
    Moves secrets e := by
  refine ⟨?_, ?_, ?_, ?_, ?_, ?_, ?_, ?_, ?_⟩
  · exact fun r hr => .inl ⟨r, by rw [hs] at hr; exact hr, .refl r⟩
  · exact fun rec hrec => absurd hrec (by simp [hi])
  · exact fun r hr => .inl (by rw [hs] at hr; exact hr)
  · exact fun d hd => by rw [hs]; exact hd
  · exact fun d hd => by rw [hs]; exact hd
  · exact fun rec hrec => absurd hrec (by simp [hi])
  · intro n d' hn
    cases hd.symm.trans hn
    exact ⟨rfl, by rw [hs]⟩
  · exact fun hnone => absurd hnone (by simp [hd])
  · rw [hs]

/-- A command that puts the copy of a record in its place. -/
theorem Moves.copying {x x₀ : MobileDeviceRecord} (hd : drawOf e = none) (hi : installed e = none)
    (hx : x₀ ∈ e.before.memory) (hc : Copy x x₀)
    (hs : e.after = { e.before with memory := setDevice e.before.memory x }) : Moves secrets e := by
  refine ⟨?_, ?_, ?_, ?_, ?_, ?_, ?_, ?_, ?_⟩
  · intro r hr
    rw [hs] at hr
    rcases mem_setDevice hr with rfl | ⟨hr, -⟩
    · exact .inl ⟨x₀, hx, hc⟩
    · exact .inl ⟨r, hr, .refl r⟩
  · exact fun rec hrec => absurd hrec (by simp [hi])
  · exact fun r hr => .inl (by rw [hs] at hr; exact hr)
  · exact fun d hd => by rw [hs]; exact has_setDevice_of hd
  · exact fun d hd => by rw [hs]; exact hd
  · exact fun rec hrec => absurd hrec (by simp [hi])
  · exact fun n d hn => absurd hn (by simp [hd])
  · exact fun _ => by rw [hs]
  · rw [hs]

theorem matchedRefresh_mem {refreshToken : String} {nowMs : ℤ}
    (h : matchedRefresh secrets refreshToken nowMs s = some x) : x ∈ s.memory ∧ x.revoked = false ∧
      x.refreshTokenHash = secrets.sha256 refreshToken := by
  have := List.mem_filter.mp (List.mem_of_getLast? h)
  simp only [Bool.and_eq_true, Bool.not_eq_true', decide_eq_true_eq] at this
  exact ⟨this.1, this.2.1.1.1, this.2.2⟩

theorem matchedAccess_mem {presented : String} {nowMs : ℤ}
    (h : matchedAccess secrets presented nowMs s = some x) : x ∈ s.memory ∧ x.revoked = false ∧
      x.tokenHash = secrets.sha256 presented := by
  have := List.mem_filter.mp (List.mem_of_getLast? h)
  simp only [Bool.and_eq_true, Bool.not_eq_true', decide_eq_true_eq] at this
  exact ⟨this.1, this.2.1.1, this.2.2⟩

theorem authExec_moves (hx : authExec secrets op inp s = some (r, s')) :
    Moves secrets ⟨i, c, op, inp, r, s, s'⟩ := by
  cases op with
  | issue params =>
    cases hx
    exact .drawing rfl rfl rfl
  | rotate refreshToken ttlMs =>
    simp only [authExec] at hx
    split_ifs at hx
    · cases hx
      exact .nothing rfl rfl rfl
    · split at hx
      · cases hx
        exact .nothing rfl rfl rfl
      · cases hx
        exact .drawing rfl rfl rfl
  | revoke deviceId =>
    simp only [authExec] at hx
    split at hx
    · cases hx
      exact .nothing rfl rfl rfl
    · rename_i existing hexisting
      cases hx
      exact .copying rfl rfl (getDevice_some hexisting).1 (copy_revokedRecord _ _) rfl
  | matchDevice presented =>
    simp only [authExec] at hx
    split_ifs at hx
    · cases hx
      exact .nothing rfl rfl rfl
    · split at hx
      · cases hx
        exact .nothing rfl rfl rfl
      · rename_i matched hmatched
        cases hx
        exact .copying rfl rfl (matchedAccess_mem hmatched).1 (copy_seenRecord _ _) rfl
  | put record =>
    cases hx
    cases hlands : inp.lands with
    | false => exact .nothing rfl rfl rfl
    | true =>
      refine ⟨fun r hr => .inl ⟨r, hr, .refl r⟩, fun _ h => absurd h.symm (Option.some_ne_none _),
        fun r hr => ?_, fun d hd => hd, fun d hd => has_setDevice_of hd,
        fun _ h => absurd h.symm (Option.some_ne_none _),
        fun _ _ h => absurd h.symm (Option.some_ne_none _), fun _ => rfl, rfl⟩
      rcases mem_setDevice hr with rfl | ⟨hr, -⟩
      · exact .inr rfl
      · exact .inl hr
  | install record =>
    cases hx
    refine ⟨fun r hr => ?_, fun rec hrec r hr => ?_, fun r hr => .inl hr,
      fun d hd => has_setDevice_of hd, fun d hd => hd, fun rec hrec => ?_,
      fun _ _ h => absurd h.symm (Option.some_ne_none _), fun _ => rfl, rfl⟩
    · rcases mem_setDevice hr with rfl | ⟨hr, -⟩
      · exact .inr rfl
      · exact .inl ⟨r, hr, .refl r⟩
    · cases hrec
      exact mem_setDevice hr
    · cases hrec
      exact has_setDevice

/-- A command that exchanges a record is a rotation that matched it. -/
theorem authExec_exchanged (hx : authExec secrets op inp s = some (r, s'))
    (h : exchanged secrets ⟨i, c, op, inp, r, s, s'⟩ = some x) :
    ∃ refreshToken ttlMs, op = .rotate refreshToken ttlMs ∧
      matchedRefresh secrets refreshToken inp.now.1 s = some x ∧
      drawOf ⟨i, c, op, inp, r, s, s'⟩ = some (s.drawn, x.deviceId) := by
  cases op with
  | rotate refreshToken ttlMs =>
    cases r with
    | none => cases h
    | some drawn =>
      have hmatched : matchedRefresh secrets refreshToken inp.now.1 s = some x := h
      refine ⟨refreshToken, ttlMs, rfl, hmatched, ?_⟩
      simp only [authExec, hmatched] at hx
      split_ifs at hx
      · cases hx
      · cases hx
        rfl
  | issue | revoke | matchDevice | put | install => cases h

/-- What accepts a token has found it, live, in memory. -/
theorem authExec_accepts {d token : String} (hx : authExec secrets op inp s = some (r, s'))
    (h : accepts ⟨i, c, op, inp, r, s, s'⟩ = some (d, token)) :
    ∃ x ∈ s.memory, x.deviceId = d ∧ x.revoked = false ∧
      (x.tokenHash = secrets.sha256 token ∨ x.refreshTokenHash = secrets.sha256 token) := by
  cases op with
  | rotate refreshToken ttlMs =>
    simp only [authExec] at hx
    generalize isoText inp.now = nowIso at hx
    split_ifs at hx
    · cases hx
      cases h
    · split at hx
      · cases hx
        cases h
      · rename_i matched hmatched
        simp only [Option.some.injEq, Prod.mk.injEq] at hx
        obtain ⟨rfl, -⟩ := hx
        obtain ⟨hd, rfl⟩ := Prod.mk.inj (Option.some.inj h)
        obtain ⟨hmem, hlive, htoken⟩ := matchedRefresh_mem hmatched
        exact ⟨matched, hmem, hd, hlive, .inr htoken⟩
  | matchDevice presented =>
    simp only [authExec] at hx
    generalize isoText inp.now = nowIso at hx
    split_ifs at hx
    · cases hx
      cases h
    · split at hx
      · cases hx
        cases h
      · rename_i matched hmatched
        simp only [Option.some.injEq, Prod.mk.injEq] at hx
        obtain ⟨rfl, -⟩ := hx
        obtain ⟨hd, rfl⟩ := Prod.mk.inj (Option.some.inj h)
        obtain ⟨hmem, hlive, htoken⟩ := matchedAccess_mem hmatched
        exact ⟨matched, hmem, hd, hlive, .inl htoken⟩
  | issue | revoke | put | install => cases h

theorem drawOf_returnsRevocation {p : ℕ × String} (h : drawOf e = some p) :
    returnsRevocation e = none := by
  obtain ⟨i, c, op, inp, r, s, s'⟩ := e
  cases op with
  | issue | rotate => rfl
  | revoke | matchDevice | put | install => cases h

theorem accepts_installed (h : installed e = some x) :
    accepts e = none := by
  obtain ⟨i, c, op, inp, r, s, s'⟩ := e
  cases op with
  | install => rfl
  | issue | rotate | revoke | matchDevice | put => cases h

theorem installed_put (h : e.op = .put x) :
    installed e = none := by
  obtain ⟨i, c, op, inp, r, s, s'⟩ := e
  cases h
  rfl

theorem returnsRevocation_installed (h : installed e = some x) : returnsRevocation e = none := by
  obtain ⟨i, c, op, inp, r, s, s'⟩ := e
  cases op with
  | install => rfl
  | issue | rotate | revoke | matchDevice | put => cases h

end Moving

end Wazir.Api
