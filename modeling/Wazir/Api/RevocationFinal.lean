import Wazir.Api.CredentialThreads

/-! In a run that installs no credential across a revocation of its device and no two of one
refresh token across each other, a revocation is final and a refresh token is exchanged once. -/

namespace Wazir.Api

open Wazir.Async

section Runs

variable {secrets : Secrets}

theorem auth_upheld (hs : secrets.Sound) :
    (authContract secrets).Upheld (authSystem secrets) (Replied secrets) where
  okPrefix _ _ _ hok := hok.past
  refl _ _ _ := ⟨List.prefix_rfl, fun _ => ⟨[], .refl⟩⟩
  trans _ _ _ _ _ h₁₂ h₂₃ := by
    refine ⟨h₁₂.1.trans h₂₃.1, fun hprocess => ?_⟩
    obtain ⟨new, hu⟩ := h₁₂.2 hprocess
    obtain ⟨new', hu'⟩ := h₂₃.2 (hu.process.trans hprocess)
    exact ⟨_, hu.trans hu'⟩
  began h i c s inv hnone _ admitted _ := by
    obtain ⟨hprocess, rfl⟩ : h.shared.process = c.process ∧ h.shared = s := by
      simp only at admitted
      split_ifs at admitted with hc
      exact ⟨hc.symm, Option.some.inj admitted⟩
    refine ⟨inv.began hs, fun _ _ _ => ⟨by simp, fun _ => ⟨[], .nothing (by simp)⟩⟩, ?_⟩
    have hb : Unbegun i c (h.push (.began i c) h.shared) := by
      refine ⟨hprocess, fun x hx hi => ?_⟩
      have : x ∈ h.entriesOf i := List.mem_filter.mpr ⟨by simpa using hx, by simpa using hi⟩
      rw [hnone] at this
      cases this
    obtain ⟨p, call⟩ := c
    cases call with
    | issue params => exact issue_safe hs hb
    | rotate refreshToken ttlMs => exact rotate_safe hs hb
    | revoke deviceId => exact revoke_safe hs hb
    | matchDevice presented => exact match_safe hs hb
  crashed h p inv _ := by
    refine ⟨inv.crashed hs p, fun _ d hd => ⟨by simp, fun hprocess => ?_⟩⟩
    have hrestart : h.shared.restart p = h.shared := if_neg fun hp => hd (hp.trans hprocess).symm
    simp only [hrestart]
    exact ⟨[], .nothing (by simp)⟩

/-- No refresh token is exchanged twice, and what accepts a token of a device after a revocation of
it has returned does not accept one that a call handed out which was then under way or over. -/
structure CredentialsSound (secrets : Secrets) (cfg : AuthConfig) : Prop where
  once : ∀ i j p q refreshToken ttlMs ttlMs' cred cred',
    HasReturned (authSystem secrets) .start cfg i ⟨p, .rotate refreshToken ttlMs⟩
      (.issued (some cred)) →
    HasReturned (authSystem secrets) .start cfg j ⟨q, .rotate refreshToken ttlMs'⟩
      (.issued (some cred')) → i = j
  returned : ∀ i p deviceId known,
    HasReturned (authSystem secrets) .start cfg i ⟨p, .revoke deviceId⟩ (.revoked known) →
      ∃ k ∈ cfg.hist.entries, k.thread = i ∧ returnsRevocation k = some deviceId
  final : ∀ pre k mid a post, cfg.hist.events = pre ++ .ran k :: (mid ++ .ran a :: post) →
    ∀ deviceId token, returnsRevocation k = some deviceId → accepts a = some (deviceId, token) →
      ∀ i c cred, HasReturned (authSystem secrets) .start cfg i c (.issued (some cred)) →
        cred.deviceId = deviceId → (∃ x, .ran x ∈ pre ++ [.ran k] ∧ x.thread = i) →
          token ≠ cred.accessToken ∧ token ≠ cred.refreshToken

variable {cfg : AuthConfig}

theorem Finished.mono {i n : ℕ} {c : AuthRequest} {d : String} {h h' : AuthHist}
    (hf : Finished secrets i c n d h) (hpre : h.entries <+: h'.entries) :
    Finished secrets i c n d h' := by
  obtain ⟨⟨x, hx, hdraw⟩, ⟨y, hy, hinst⟩, hspent⟩ := hf
  refine ⟨⟨x, hpre.subset hx, hdraw⟩, ⟨y, hpre.subset hy, hinst⟩, fun refreshToken ttlMs hc => ?_⟩
  obtain ⟨m, htoken, ⟨e, he, hexch⟩, e', he', hrest⟩ := hspent refreshToken ttlMs hc
  exact ⟨m, htoken, ⟨e, hpre.subset he, hexch⟩, e', hpre.subset he', hrest⟩

/-- What a call did that has returned on the way. -/
theorem replied_of (hs : secrets.Sound) {i : ℕ} {c : AuthRequest} {reply : AuthReply}
    (hret : HasReturned (authSystem secrets) .start cfg i c reply)
    (hok : cfg.hist.Always NotAcross) :
    Replied secrets i c (.ok reply) cfg.hist := by
  obtain ⟨cfg₀, hr₀, hlater, hret⟩ := hret
  have hok₀ : cfg₀.hist.Always NotAcross := by
    obtain ⟨rest, hrest⟩ := Step.events_prefix hlater
    exact hok.upTo hrest.symm
  obtain ⟨h₀, hrely, hreplied⟩ := (auth_upheld hs).finished authInv_start hr₀ hok₀ (o := .ok reply)
    (Config.returned_eq_some hret)
  have hpre := hrely.1.trans (Step.entries_prefix hlater)
  refine ⟨fun cred hcred => ?_, fun known hknown d hd => ?_⟩
  · obtain ⟨n, haccess, hrefresh, hfin⟩ := hreplied.issued cred hcred
    exact ⟨n, haccess, hrefresh, hfin.mono hpre⟩
  · obtain ⟨x, hx, hrest⟩ := hreplied.revoked known hknown d hd
    exact ⟨x, hpre.subset hx, hrest⟩

/-- What accepts a token has found a credential that has the token. -/
theorem AuthInv.accepted {h : AuthHist} (inv : AuthInv secrets h) (hs : secrets.Sound) {n : ℕ}
    {token : String} {x : MobileDeviceRecord} (hx : x ∈ h.shared.memory)
    (htoken : x.tokenHash = secrets.sha256 token ∨ x.refreshTokenHash = secrets.sha256 token)
    (hn : token = secrets.accessToken n ∨ token = secrets.refreshToken n) : OfDraw secrets n x := by
  obtain ⟨m, -, -, -, hm⟩ := inv.known x (.inl hx)
  have hmn : m = n := by
    rcases htoken with htoken | htoken
    · have := hs.digest _ ⟨n, hn⟩ _ (hm.token.symm.trans htoken)
      rcases hn with rfl | rfl
      · exact accessToken_inj hs this
      · exact absurd this accessToken_ne_refreshToken
    · have := hs.digest _ ⟨n, hn⟩ _ (hm.refresh.symm.trans htoken)
      rcases hn with rfl | rfl
      · exact absurd this.symm accessToken_ne_refreshToken
      · exact refreshToken_inj hs this
  exact hmn ▸ hm

/-- A credential found in memory by then was installed by then. -/
theorem installed_before {A post : List (Event AuthOp AuthRes AuthRequest ℕ AuthInput AuthState)}
    {a : AuthEntry} {n : ℕ} {x : MobileDeviceRecord} (inv : AuthInv secrets cfg.hist)
    (he : cfg.hist.events = A ++ .ran a :: post) (hnot : installed a = none)
    (hx : x ∈ a.before.memory) (hn : OfDraw secrets n x)
    (hinst : Installed secrets n cfg.hist) : Installed secrets n ⟨A, a.before⟩ := by
  obtain ⟨e, hmem, r, hr, hnr⟩ := hinst
  obtain ⟨ev, hev, hentry⟩ := List.mem_filterMap.mp hmem
  have hran : ev = .ran e := by
    cases ev with
    | ran e' => exact congrArg _ (Option.some.inj hentry)
    | began | crashed => cases hentry
  rw [he, hran] at hev
  rcases List.mem_append.mp hev with hev | hev
  · exact ⟨e, List.mem_filterMap.mpr ⟨_, hev, rfl⟩, r, hr, hnr⟩
  rcases List.mem_cons.mp hev with hev | hev
  · cases hev
    rw [hnot] at hr
    cases hr
  · -- installed later it would not have been new
    obtain ⟨p₁, p₂, rfl⟩ := List.append_of_mem hev
    have hfresh := inv.fresh (A ++ .ran a :: p₁) e p₂ (by rw [he]; simp) r n hr hnr
    exact absurd (.inl ⟨a, by simp [Hist.entries, Event.entry], x, hx, hn⟩) hfresh

/-- What a thread drew that had begun by `k` was drawn by then. -/
theorem drawn_before {pre rest : List (Event AuthOp AuthRes AuthRequest ℕ AuthInput AuthState)}
    {k x e : AuthEntry} {p : ℕ × String} (inv : AuthInv secrets cfg.hist)
    (he : cfg.hist.events = pre ++ .ran k :: rest) (hk : drawOf k = none)
    (hx : .ran x ∈ pre ++ [.ran k]) (hmem : e ∈ cfg.hist.entries) (hthread : x.thread = e.thread)
    (hd : drawOf e = some p) : e ∈ (⟨pre, k.before⟩ : AuthHist).entries := by
  obtain ⟨ev, hev, hentry⟩ := List.mem_filterMap.mp hmem
  have hran : ev = .ran e := by
    cases ev with
    | ran e' => exact congrArg _ (Option.some.inj hentry)
    | began | crashed => cases hentry
  rw [he, hran] at hev
  rcases List.mem_append.mp hev with hev | hev
  · exact List.mem_filterMap.mpr ⟨_, hev, rfl⟩
  rcases List.mem_cons.mp hev with hev | hev
  · cases hev
    rw [hk] at hd
    cases hd
  · -- a thread draws before it does anything else
    obtain ⟨p₁, p₂, rfl⟩ := List.append_of_mem hev
    have hfirst := inv.first (pre ++ .ran k :: p₁) e p₂ (by rw [he]; simp) (by simp [hd]) x
    refine absurd hthread (hfirst (List.mem_filterMap.mpr ⟨.ran x, ?_, rfl⟩))
    have : pre ++ .ran k :: p₁ = pre ++ [.ran k] ++ p₁ := by simp
    rw [this]
    exact List.mem_append_left _ hx

/-- Revocations are final and refresh tokens are exchanged once, in every run in which no
credential is installed across a revocation of its device and none of a refresh token across
another of the same. -/
theorem credentials_sound (hs : secrets.Sound) (hr : Reach (authSystem secrets) .start cfg)
    (hok : cfg.hist.Always NotAcross) : CredentialsSound secrets cfg := by
  obtain ⟨inv, -⟩ := (auth_upheld hs).run authInv_start hr hok
  refine ⟨fun i j p q refreshToken ttlMs ttlMs' cred cred' hi hj => ?_,
    fun i p d known hret => (replied_of hs hret hok).revoked known rfl d rfl,
    fun pre k mid a post he d token hk ha i c cred hret hd ⟨x, hx, hxi⟩ => ?_⟩
  · obtain ⟨n, -, -, hfin⟩ := (replied_of hs hi hok).issued cred rfl
    obtain ⟨n', -, -, hfin'⟩ := (replied_of hs hj hok).issued cred' rfl
    obtain ⟨m, hm, hspent⟩ := hfin.spent refreshToken ttlMs rfl
    obtain ⟨m', hm', hspent'⟩ := hfin'.spent refreshToken ttlMs' rfl
    cases refreshToken_inj hs (hm.symm.trans hm')
    exact inv.once i j m hspent hspent'
  · obtain ⟨n, haccess, hrefresh, hfin⟩ := (replied_of hs hret hok).issued cred rfl
    rw [haccess, hrefresh, ← not_or]
    intro htoken
    have hea : cfg.hist.events = (pre ++ .ran k :: mid) ++ .ran a :: post := by rw [he]; simp
    obtain ⟨cfga, hra, hha, hxa, -⟩ := hr.ran hea
    obtain ⟨inva, -⟩ := (auth_upheld hs).run authInv_start hra (by rw [hha]; exact hok.upTo hea)
    rw [hha] at inva
    obtain ⟨y, hy, hyd, hlive, hhash⟩ := authExec_accepts hxa ha
    have hn := inva.accepted hs hy hhash htoken
    have hnot : installed a = none := by
      cases hi : installed a with
      | none => rfl
      | some r => cases (accepts_installed hi).symm.trans ha
    have hinst : Installed secrets n cfg.hist := by
      obtain ⟨e, he, -, hrest⟩ := hfin.installed
      exact ⟨e, he, hrest⟩
    have hlate : k.before.drawn ≤ n := inva.revoked k
      (List.mem_filterMap.mpr ⟨.ran k, by simp, rfl⟩) y (by rw [hk, hyd]) (.inl hy) hlive n hn
      (installed_before inv hea hnot hy hn hinst)
    obtain ⟨e₀, he₀, hi₀, hd₀⟩ := hfin.draw
    obtain ⟨cfgk, hrk, hhk, -⟩ := hr.ran he
    obtain ⟨invk, -⟩ := (auth_upheld hs).run authInv_start hrk (by rw [hhk]; exact hok.upTo he)
    rw [hhk] at invk
    have hnotk : drawOf k = none := by
      cases hdk : drawOf k with
      | none => rfl
      | some p => cases (drawOf_returnsRevocation hdk).symm.trans hk
    have hearly := drawn_before inv he hnotk hx he₀ (hxi.trans hi₀.symm) hd₀
    have := invk.draw_lt hearly hd₀
    simp only at this
    omega

end Runs

/-! Two runs. -/

def countedSecrets : Secrets where
  randomHex n := String.ofList (List.replicate n 'f')
  sha256 text := "digest of " ++ text

theorem countedSecrets_sound : countedSecrets.Sound where
  random m n h := by
    have := congrArg List.length (String.ofList_injective h)
    simpa using this
  digest _ _ _ h := (String.append_right_inj _).mp h

def phone : DeviceParams := ⟨"phone", "Phone", none, none, none, [.read], none⟩

/-- A command whose put, if it is one, succeeds. -/
def fine : AuthInput := ⟨⟨1772355600000, by decide⟩, none, true⟩

/-- `NotAcross` as a check. -/
def notAcross (h : AuthHist) (e : AuthEntry) : Bool :=
  (h.sinceStart e.thread).all fun x =>
    (match installed e with
      | some r => returnsRevocation x ≠ some r.deviceId
      | none => true) &&
    (match rotates e with
      | some refreshToken => rotates x ≠ some refreshToken
      | none => true) &&
    match e.op with
      | .put r => returnsRevocation e ≠ some r.deviceId ||
        (installed x).map (fun r => r.deviceId) ≠ some r.deviceId
      | _ => true

theorem notAcross_sound (h : AuthHist) (e : AuthEntry) (hcheck : notAcross h e = true) :
    NotAcross h e := by
  simp only [notAcross, List.all_eq_true, Bool.and_eq_true] at hcheck
  refine ⟨fun r hr x hx => ?_, fun refreshToken ht x hx => ?_, fun r hr hret x hx => ?_⟩
  · have := (hcheck x hx).1.1
    rw [hr] at this
    exact of_decide_eq_true this
  · have := (hcheck x hx).1.2
    rw [ht] at this
    exact of_decide_eq_true this
  · have := (hcheck x hx).2
    rw [hr] at this
    simpa [hret] using this

/-- A device is issued a credential and its process restarts; it rotates its refresh token twice, is
revoked, and presents its token. -/
def revokedRun : List (Action AuthRequest ℕ AuthInput) :=
  [.begin ⟨0, .issue phone⟩, .run 0 fine, .run 0 fine, .run 0 fine, .crash 0,
    .begin ⟨1, .rotate "mob_rt_f" 1000⟩, .run 1 fine, .run 1 fine, .run 1 fine,
    .begin ⟨1, .rotate "mob_rt_f" 1000⟩, .run 2 fine,
    .begin ⟨1, .revoke "phone"⟩, .run 3 fine, .run 3 fine,
    .begin ⟨1, .matchDevice "mob_at_ff"⟩, .run 4 fine]

/-- What the calls of `revokedRun` return. -/
def revokedReplies (cfg : AuthConfig) : Bool :=
  (match cfg.returned 1 with
    | some (_, .issued (some cred)) => cred.accessToken = "mob_at_ff"
    | _ => false) &&
  (match cfg.returned 2 with
    | some (_, .issued none) => true
    | _ => false) &&
  (match cfg.returned 3 with
    | some (_, .revoked true) => true
    | _ => false) &&
  match cfg.returned 4 with
    | some (_, .device none) => true
    | _ => false

theorem credentials_sound_revoked : ∃ cfg, Reach (authSystem countedSecrets) .start cfg ∧
    revokedReplies cfg = true ∧ CredentialsSound countedSecrets cfg := by
  have h : (schedule (authSystem countedSecrets) revokedRun (.start .start)).any
      (fun cfg => revokedReplies cfg && Hist.checkFrom notAcross [] cfg.hist.events) = true := by
    decide
  obtain ⟨cfg, hr, hcheck⟩ := Reach.of_check h
  obtain ⟨hreplies, hok⟩ := Bool.and_eq_true_iff.mp hcheck
  exact ⟨cfg, hr, hreplies, credentials_sound countedSecrets_sound hr
    (Hist.always_of_check notAcross_sound hok)⟩

/-- Two rotations of one refresh token, each of which finds it before the other has installed. -/
def rotatedTwice : List (Action AuthRequest ℕ AuthInput) :=
  [.begin ⟨0, .issue phone⟩, .run 0 fine, .run 0 fine, .run 0 fine,
    .begin ⟨0, .rotate "mob_rt_f" 1000⟩, .run 1 fine, .begin ⟨0, .rotate "mob_rt_f" 1000⟩, .run 2 fine,
    .run 1 fine, .run 1 fine, .run 2 fine, .run 2 fine]

/-- The thread has exchanged the first refresh token. -/
def exchangedFirst (cfg : AuthConfig) (i : ℕ) : Bool :=
  match cfg.returned i with
  | some (⟨_, .rotate refreshToken _⟩, .issued (some _)) => refreshToken = "mob_rt_f"
  | _ => false

theorem exchangedFirst_returned {cfg : AuthConfig} {i : ℕ} (h : exchangedFirst cfg i = true) :
    ∃ p ttlMs cred, cfg.returned i = some (⟨p, .rotate "mob_rt_f" ttlMs⟩, .issued (some cred)) := by
  unfold exchangedFirst at h
  split at h
  · rename_i p refreshToken ttlMs cred hret
    rw [of_decide_eq_true h] at hret
    exact ⟨p, ttlMs, cred, hret⟩
  · cases h

theorem token_exchanged_twice : ∃ cfg, Reach (authSystem countedSecrets) .start cfg ∧
    ¬ CredentialsSound countedSecrets cfg := by
  have h : (schedule (authSystem countedSecrets) rotatedTwice (.start .start)).any
      (fun cfg => exchangedFirst cfg 1 && exchangedFirst cfg 2) = true := by
    decide
  obtain ⟨cfg, hr, hcheck⟩ := Reach.of_check h
  obtain ⟨hone, htwo⟩ := Bool.and_eq_true_iff.mp hcheck
  obtain ⟨p, ttlMs, cred, hone⟩ := exchangedFirst_returned hone
  obtain ⟨q, ttlMs', cred', htwo⟩ := exchangedFirst_returned htwo
  refine ⟨cfg, hr, fun hsound => ?_⟩
  have := hsound.once 1 2 p q _ ttlMs ttlMs' cred cred' ⟨cfg, hr, .refl, hone⟩ ⟨cfg, hr, .refl, htwo⟩
  omega

end Wazir.Api
