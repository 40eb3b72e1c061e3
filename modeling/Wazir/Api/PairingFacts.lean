import Wazir.Api.PairingSession
import Wazir.Async.Local

/-! What happens to a pairing session, told from the commands: who approves, claims and rejects it,
the guesses at its secrets, and what each command leaves of the record. -/

namespace Wazir.Api

open Wazir.Async

/-- The session waits for a device or for the operator. -/
def PairingStatus.isOpen : PairingStatus → Bool
  | waitingForDevice => true
  | pendingOperatorApproval => true
  | _ => false

/-- The session may still come to hand out tokens. -/
def PairingStatus.isLive : PairingStatus → Bool
  | approved => true
  | status => status.isOpen

theorem live_of_open {status : PairingStatus} (h : status.isOpen = true) : status.isLive = true := by
  cases status <;> first | rfl | cases h

/-! Facts about commands. -/

def isMiss : PairingReply → Bool
  | .failed _ code _ => code = "INVALID_PAIRING_SECRET" || code = "CONFIRMATION_CODE_MISMATCH"
  | _ => false

def ApproveStep.missed : ApproveStep → Bool
  | .answered answer => isMiss answer.reply
  | .passed _ _ => false

def CompleteStep.missed : CompleteStep → Bool
  | .answered answer => isMiss answer.reply
  | .taken _ => false

/-- A secret or a confirmation code has been compared and is not the session's. -/
def wrongGuess : PairingEntry → Bool
  | ⟨_, _, .request _, _, answer, _, _⟩ => isMiss answer.reply
  | ⟨_, _, .approve _, _, step, _, _⟩ => step.missed
  | ⟨_, _, .complete _, _, step, _, _⟩ => step.missed
  | _ => false

def guesses (h : PairingHist) : ℕ := (h.entries.filter wrongGuess).length

/-- An approval goes on to issue a credential. -/
def passes : PairingEntry → Bool
  | ⟨_, _, .approve _, _, .passed _ _, _, _⟩ => true
  | _ => false

def issues : PairingEntry → Bool
  | ⟨_, _, .issue _, _, .ok _, _, _⟩ => true
  | _ => false

def refused : PairingEntry → Bool
  | ⟨_, _, .issue _, _, .error _, _, _⟩ => true
  | _ => false

/-- The session is approved. -/
def enters : PairingEntry → Bool
  | ⟨_, _, .enter _ _, _, _, _, _⟩ => true
  | _ => false

/-- The tokens that a completion takes from the session. -/
def takes : PairingEntry → Option SessionCredential
  | ⟨_, _, .complete _, _, .taken credential, _, _⟩ => some credential
  | _ => none

def rejects : PairingEntry → Bool
  | ⟨_, _, .reject, _, true, _, _⟩ => true
  | _ => false

def serializes : PairingEntry → Option PairingSessionRecord
  | ⟨_, _, .serialize, _, record, _, _⟩ => some record
  | ⟨_, _, .serializeUnawaited, _, record, _, _⟩ => some record
  | _ => none

/-- A put has succeeded. -/
def landed : PairingEntry → Bool
  | ⟨_, _, .land _, _, .ok _, _, _⟩ => true
  | _ => false

/-- A rejection returns true with this command. -/
def returnsRejection (e : PairingEntry) : Bool :=
  landed e && match e.call.call with
    | .rejectSession => true
    | _ => false

/-- Thread `i` of the present process has passed an approval and neither been refused the credential
nor entered it. -/
structure UnderWay (h : PairingHist) (i : ℕ) : Prop where
  passed : ∃ x ∈ h.entriesOf i, passes x = true ∧ x.call.process = h.shared.process
  open_ : ∀ x ∈ h.entriesOf i, refused x = false ∧ enters x = false

/-- A stored session that is not behind what has happened. -/
structure UpToDate (h : PairingHist) (session : PairingSessionRecord) : Prop where
  attempts : session.status.isLive = true → session.attempts = guesses h
  rejected : session.status.isLive = true → ∀ x ∈ h.entries, returnsRejection x = false
  issued : session.status.isOpen = true → ∀ x ∈ h.entries, issues x = false
  taken : session.status = .approved → ∀ x ∈ h.entries, takes x = none

/-- An approval passes only while no other is under way, and is entered only while the session still
waits for it; a process that starts finds the store up to date; and tokens are handed out only if no
rejection has returned since they were taken. -/
structure SessionOrder (h : PairingHist) (e : PairingEntry) : Prop where
  passed : passes e = true → ∀ i, i ≠ e.thread → ¬ UnderWay h i
  entered : enters e = true →
    e.before.memory.map (fun r => r.status) = some .pendingOperatorApproval
  loaded : e.op = .init → ∀ session, e.before.stored = some session → UpToDate h session
  handed : landed e = true → (∃ x ∈ h.entriesOf e.thread, (takes x).isSome = true) →
    ∀ x ∈ h.sinceStart e.thread, returnsRejection x = false

/-! What a command leaves of the session. -/

/-- `r'` is what is left of `r`, after a wrong guess if `wrong`: no status comes to life. -/
structure Settles (r r' : PairingSessionRecord) (wrong : Bool) : Prop where
  secret : r'.secretHash = r.secretHash
  expiry : r'.expiresAt = r.expiresAt
  live : r'.status.isLive = true → r.status.isLive = true
  open_ : r'.status.isOpen = true → r.status.isOpen = true
  approved : r'.status = .approved → r.status = .approved
  attempts : r'.attempts = r.attempts + wrong.toNat
  locked : (maxPairingAttempts ≤ r.attempts → r.status.isLive = false) →
    maxPairingAttempts ≤ r'.attempts → r'.status.isLive = false

variable {pairingSecret : String} {params : ApproveParams} {nowMs : ℤ}

section Settling

variable {sha256 : String → String} {r r₁ r' : PairingSessionRecord} {wrong : Bool}

theorem Settles.refl (r : PairingSessionRecord) : Settles r r false :=
  ⟨rfl, rfl, id, id, id, rfl, fun h hmax => h hmax⟩

theorem Settles.trans (h₁ : Settles r r₁ false) (h₂ : Settles r₁ r' wrong) :
    Settles r r' wrong where
  secret := h₂.secret.trans h₁.secret
  expiry := h₂.expiry.trans h₁.expiry
  live h := h₁.live (h₂.live h)
  open_ h := h₁.open_ (h₂.open_ h)
  approved h := h₁.approved (h₂.approved h)
  attempts := by rw [h₂.attempts, h₁.attempts]; rfl
  locked h := h₂.locked (h₁.locked h)

/-- A status in which nothing is handed out any more. -/
theorem Settles.closed {status : PairingStatus} (hdead : status.isLive = false)
    {credential : Option SessionCredential} : Settles r
      { r with status := status, issuedCredential := credential } false where
  secret := rfl
  expiry := rfl
  live h := by rw [hdead] at h; cases h
  open_ h := by
    have := live_of_open h
    rw [hdead] at this
    cases this
  approved h := by
    have : status = .approved := h
    rw [this] at hdead
    cases hdead
  attempts := rfl
  locked _ _ := hdead

theorem settles_expire : Settles r r.expire false := .closed rfl

theorem settles_missed : Settles r r.missed true := by
  unfold PairingSessionRecord.missed
  split_ifs with hmax
  · exact ⟨rfl, rfl, nofun, nofun, nofun, rfl, fun _ _ => rfl⟩
  · exact ⟨rfl, rfl, id, id, id, rfl, fun _ h => absurd h hmax⟩

theorem settles_requestSession {params : RequestParams} {num : ℕ} {uuid stampIso : String} :
    Settles r (requestSession sha256 params nowMs num uuid stampIso r).2
      (isMiss (requestSession sha256 params nowMs num uuid stampIso r).1.reply) := by
  unfold requestSession
  split_ifs with _ hmax hwait
  · exact settles_expire
  · exact settles_expire
  · exact .refl r
  · exact settles_missed
  · have hwait : r.status = .waitingForDevice := not_not.mp hwait
    exact ⟨rfl, rfl, fun _ => by rw [hwait]; rfl, fun _ => by rw [hwait]; rfl, nofun, rfl,
      fun _ h => absurd h hmax⟩

theorem settles_completeSession :
    Settles r (completeSession sha256 pairingSecret nowMs r).2
      (completeSession sha256 pairingSecret nowMs r).1.missed := by
  unfold completeSession
  split_ifs
  · exact settles_missed
  · exact .refl r
  · exact .refl r
  · exact .refl r
  · exact .refl r
  · split
    · exact .closed rfl
    · exact .refl r

theorem settles_approveSession :
    Settles r (approveSession sha256 params r).2 (approveSession sha256 params r).1.missed := by
  unfold approveSession
  split
  · split_ifs
    · exact settles_missed
    · exact .refl r
  · exact .refl r

theorem approveSession_passed {deviceParams : DeviceParams} {scopes : List ProtocolScope}
    (h : (approveSession sha256 params r).1 = .passed deviceParams scopes) :
    r.status = .pendingOperatorApproval := by
  unfold approveSession at h
  split at h
  · assumption
  · cases h

/-- What a completion that takes the tokens has checked, and how it leaves the session. -/
theorem completeSession_taken {credential : SessionCredential}
    (h : (completeSession sha256 pairingSecret nowMs r).1 = .taken credential) :
    sha256 r.secretHash = sha256 (sha256 pairingSecret) ∧ r.status = .approved ∧
      nowMs < r.expiresAt ∧ (completeSession sha256 pairingSecret nowMs r).2.status = .claimed := by
  unfold completeSession at h ⊢
  split_ifs at h ⊢ with hsecret _ _ hexpired
  split at h
  · rename_i hstatus _
    simp only [Bool.not_eq_true', Bool.not_eq_false, safeEqualHex, decide_eq_true_eq] at hsecret
    exact ⟨hsecret, hstatus, not_le.mp fun hle => hexpired (.inr hle), rfl⟩
  · cases h

end Settling

section Effects

variable {sha256 : String → String} {i : ℕ} {c : PairingRequest} {op : PairingOp}
  {inp : PairingInput} {res : PairingRes op} {s s' : PairingState}

theorem sweep_process (nowMs : ℤ) : (s.sweep nowMs).process = s.process := by
  unfold PairingState.sweep
  split_ifs <;> rfl

theorem sweep_loaded (nowMs : ℤ) : (s.sweep nowMs).loaded = s.loaded := by
  unfold PairingState.sweep
  split_ifs <;> rfl

theorem sweep_stored (nowMs : ℤ) : (s.sweep nowMs).stored = s.stored := by
  unfold PairingState.sweep
  split_ifs <;> rfl

theorem sweep_memory {r₁ : PairingSessionRecord} (h : (s.sweep nowMs).memory = some r₁) :
    ∃ r, s.memory = some r ∧ (r₁ = r ∨ r₁ = r.expire) := by
  unfold PairingState.sweep at h
  split_ifs at h
  · obtain ⟨r, hr, rfl⟩ := Option.map_eq_some_iff.mp h
    exact ⟨r, hr, .inr rfl⟩
  · exact ⟨r₁, h, .inl rfl⟩

theorem settles_sweep {r r₁ : PairingSessionRecord} (h : r₁ = r ∨ r₁ = r.expire) :
    Settles r r₁ false := by
  rcases h with rfl | rfl
  · exact .refl _
  · exact settles_expire

theorem onSession_memory {α : Type} {missing : α}
    {block : PairingSessionRecord → α × PairingSessionRecord} {r' : PairingSessionRecord}
    (h : (onSession missing block s).2.memory = some r') :
    ∃ r, s.memory = some r ∧ onSession missing block s = ((block r).1, { s with memory := some r' }) ∧
      r' = (block r).2 := by
  unfold onSession at h ⊢
  cases hm : s.memory with
  | none =>
    rw [hm] at h
    exact absurd (h.symm.trans hm) (Option.some_ne_none _)
  | some r =>
    rw [hm] at h
    cases h
    exact ⟨r, rfl, rfl, rfl⟩

theorem onSession_process {α : Type} {missing : α}
    {block : PairingSessionRecord → α × PairingSessionRecord} :
    (onSession missing block s).2.process = s.process := by
  unfold onSession
  split <;> rfl

theorem onSession_loaded {α : Type} {missing : α}
    {block : PairingSessionRecord → α × PairingSessionRecord} :
    (onSession missing block s).2.loaded = s.loaded := by
  unfold onSession
  split <;> rfl

theorem onSession_stored {α : Type} {missing : α}
    {block : PairingSessionRecord → α × PairingSessionRecord} :
    (onSession missing block s).2.stored = s.stored := by
  unfold onSession
  split <;> rfl

/-- What a command does to the session. -/
structure PairingEffect (e : PairingEntry) : Prop where
  process : e.after.process = e.before.process
  memory : ∀ r', e.after.memory = some r' →
    (enters e = false ∧ ∃ r, e.before.memory = some r ∧ Settles r r' (wrongGuess e)) ∨
    (enters e = true ∧ ∃ r scopes issued, e.before.memory = some r ∧
      r' = enterApproval scopes issued r) ∨ e.op = .init ∧ e.before.stored = some r'
  loaded : e.after.loaded = e.before.loaded ∨ e.after.loaded = true
  rejected : rejects e = true → e.before.memory.isSome = true
  stored : ∀ r', e.after.stored = some r' → e.before.stored = some r' ∨ e.op = .land r'
  serialized : ∀ r, serializes e = some r → e.before.memory = some r
  passed : passes e = true → ∃ r, e.before.memory = some r ∧ r.status.isOpen = true
  closed : rejects e = true ∨ (takes e).isSome = true → ∀ r', e.after.memory = some r' →
    r'.status.isLive = false

/-- A command that serializes nothing, passes no approval and closes nothing. -/
theorem PairingEffect.plain {e : PairingEntry} (process : e.after.process = e.before.process)
    (memory : ∀ r', e.after.memory = some r' →
      (enters e = false ∧ ∃ r, e.before.memory = some r ∧ Settles r r' (wrongGuess e)) ∨
      (enters e = true ∧ ∃ r scopes issued, e.before.memory = some r ∧
        r' = enterApproval scopes issued r) ∨ e.op = .init ∧ e.before.stored = some r')
    (loaded : e.after.loaded = e.before.loaded ∨ e.after.loaded = true)
    (stored : ∀ r', e.after.stored = some r' → e.before.stored = some r' ∨ e.op = .land r')
    (hserializes : serializes e = none) (hpasses : passes e = false) (hrejects : rejects e = false)
    (htakes : takes e = none) : PairingEffect e where
  process := process
  memory := memory
  loaded := loaded
  rejected h := by rw [hrejects] at h; cases h
  stored := stored
  serialized r hr := by rw [hserializes] at hr; cases hr
  passed h := by rw [hpasses] at h; cases h
  closed h := by rw [hrejects, htakes] at h; rcases h with h | h <;> cases h

/-- A sweep and then a block that settles the session. -/
theorem swept_memory {α : Type} {missing : α}
    {block : PairingSessionRecord → α × PairingSessionRecord} (wrong : α → Bool)
    (hblock : ∀ r, Settles r (block r).2 (wrong (block r).1)) {r' : PairingSessionRecord}
    (h : (onSession missing block (s.sweep nowMs)).2.memory = some r') :
    ∃ r, s.memory = some r ∧
      Settles r r' (wrong (onSession missing block (s.sweep nowMs)).1) := by
  obtain ⟨r₁, hr₁, heq, rfl⟩ := onSession_memory h
  obtain ⟨r, hr, hswept⟩ := sweep_memory hr₁
  exact ⟨r, hr, by rw [heq]; exact (settles_sweep hswept).trans (hblock r₁)⟩

/-- A command that sweeps and then settles the session. -/
theorem PairingEffect.swept {e : PairingEntry} {α : Type} {missing : α}
    {block : PairingSessionRecord → α × PairingSessionRecord}
    (hafter : e.after = (onSession missing block (e.before.sweep nowMs)).2)
    (henters : enters e = false)
    (hmemory : ∀ r', e.after.memory = some r' → ∃ r, e.before.memory = some r ∧
      Settles r r' (wrongGuess e)) (hserializes : serializes e = none)
    (hpassed : passes e = true → ∃ r, e.before.memory = some r ∧ r.status.isOpen = true)
    (hrejects : rejects e = false)
    (htaken : (takes e).isSome = true → ∀ r', e.after.memory = some r' → r'.status.isLive = false) :
    PairingEffect e where
  process := by rw [hafter, onSession_process, sweep_process]
  memory r' hr' := .inl ⟨henters, hmemory r' hr'⟩
  loaded := .inl (by rw [hafter, onSession_loaded, sweep_loaded])
  rejected h := by rw [hrejects] at h; cases h
  stored r' hr' := .inl (by rwa [hafter, onSession_stored, sweep_stored] at hr')
  serialized r hr := by rw [hserializes] at hr; cases hr
  passed := hpassed
  closed h := by
    rw [hrejects] at h
    rcases h with h | h
    · cases h
    · exact htaken h

theorem request_effect {params : RequestParams} {stampIso : String} {answer : Answered}
    (hx : onSession ⟨notFound, false⟩
      (requestSession sha256 params inp.now.1 inp.num inp.uuid stampIso) (s.sweep inp.sweptAt.1) =
        (answer, s')) : PairingEffect ⟨i, c, .request params, inp, answer, s, s'⟩ := by
  have hpasses : passes ⟨i, c, .request params, inp, answer, s, s'⟩ = false := rfl
  have htakes : takes ⟨i, c, .request params, inp, answer, s, s'⟩ = none := rfl
  refine .swept (congrArg Prod.snd hx).symm rfl (fun r' hr' => ?_) rfl
    (fun h => absurd h (by simp [hpasses])) rfl fun h => absurd h (by simp [htakes])
  have hswept : ∃ r, s.memory = some r ∧ Settles r r' (isMiss (onSession ⟨notFound, false⟩
      (requestSession sha256 params inp.now.1 inp.num inp.uuid stampIso)
      (s.sweep inp.sweptAt.1)).1.reply) :=
    swept_memory (fun a : Answered => isMiss a.reply) (fun _ => settles_requestSession) (by rw [hx]; exact hr')
  rwa [hx] at hswept

theorem approve_effect {step : ApproveStep}
    (hx : onSession (.answered ⟨notFound, false⟩) (approveSession sha256 params)
      (s.sweep inp.sweptAt.1) = (step, s')) :
    PairingEffect ⟨i, c, .approve params, inp, step, s, s'⟩ := by
  have htakes : takes ⟨i, c, .approve params, inp, step, s, s'⟩ = none := rfl
  refine .swept (congrArg Prod.snd hx).symm rfl (fun r' hr' => ?_) rfl (fun hpass => ?_) rfl
    fun h => absurd h (by simp [htakes])
  · have hswept : ∃ r, s.memory = some r ∧ Settles r r' (onSession (.answered ⟨notFound, false⟩)
        (approveSession sha256 params) (s.sweep inp.sweptAt.1)).1.missed :=
      swept_memory ApproveStep.missed (fun _ => settles_approveSession) (by rw [hx]; exact hr')
    rwa [hx] at hswept
  · cases step with
    | answered a => cases hpass
    | passed deviceParams scopes =>
      cases hm : (s.sweep inp.sweptAt.1).memory with
      | none =>
        simp only [onSession, hm] at hx
        cases hx
      | some r₁ =>
        simp only [onSession, hm, Prod.mk.injEq] at hx
        obtain ⟨r, hr, hswept⟩ := sweep_memory hm
        exact ⟨r, hr, (settles_sweep hswept).open_ (by rw [approveSession_passed hx.1]; rfl)⟩

theorem complete_effect {step : CompleteStep}
    (hx : onSession (.answered ⟨notFound, false⟩) (completeSession sha256 pairingSecret inp.now.1)
      (s.sweep inp.sweptAt.1) = (step, s')) :
    PairingEffect ⟨i, c, .complete pairingSecret, inp, step, s, s'⟩ := by
  have hpasses : passes ⟨i, c, .complete pairingSecret, inp, step, s, s'⟩ = false := rfl
  refine .swept (congrArg Prod.snd hx).symm rfl (fun r' hr' => ?_) rfl
    (fun h => absurd h (by simp [hpasses])) rfl fun htake r' hr' => ?_
  · have hswept : ∃ r, s.memory = some r ∧ Settles r r' (onSession (.answered ⟨notFound, false⟩)
        (completeSession sha256 pairingSecret inp.now.1) (s.sweep inp.sweptAt.1)).1.missed :=
      swept_memory CompleteStep.missed (fun _ => settles_completeSession) (by rw [hx]; exact hr')
    rwa [hx] at hswept
  · cases step with
    | answered a => cases htake
    | taken credential =>
      have hafter : (onSession (.answered ⟨notFound, false⟩)
          (completeSession sha256 pairingSecret inp.now.1) (s.sweep inp.sweptAt.1)).2.memory =
            some r' := by rw [hx]; exact hr'
      obtain ⟨r₁, hr₁, heq, rfl⟩ := onSession_memory hafter
      rw [hx] at heq
      rw [(completeSession_taken (Prod.mk.inj heq).1.symm).2.2.2]
      rfl

theorem reject_effect {known : Bool}
    (hx : onSession false (fun session => (true, rejectedSession session)) s = (known, s')) :
    PairingEffect ⟨i, c, .reject, inp, known, s, s'⟩ := by
  have hpasses : passes ⟨i, c, .reject, inp, known, s, s'⟩ = false := rfl
  have hs' : s' = (onSession false (fun session => (true, rejectedSession session)) s).2 := by rw [hx]
  have hclosed : ∀ r', s'.memory = some r' → ∃ r, s.memory = some r ∧ r' = rejectedSession r := by
    intro r' hr'
    obtain ⟨r, hr, -, hr'⟩ := onSession_memory (hs' ▸ hr')
    exact ⟨r, hr, hr'⟩
  refine ⟨hs' ▸ onSession_process, fun r' hr' => .inl ⟨rfl, ?_⟩, .inl (hs' ▸ onSession_loaded),
    fun hrejects => ?_, fun r' hr' => .inl (by rwa [hs', onSession_stored] at hr'), fun _ h => (by cases h),
    fun h => absurd h (by simp [hpasses]), fun _ r' hr' => ?_⟩
  · obtain ⟨r, hr, rfl⟩ := hclosed r' hr'
    exact ⟨r, hr, .closed rfl⟩
  · cases hm : s.memory with
    | some r => rfl
    | none =>
      simp only [onSession, hm, Prod.mk.injEq] at hx
      rw [← hx.1] at hrejects
      cases hrejects
  · obtain ⟨r, -, rfl⟩ := hclosed r' hr'
    rfl

theorem pairing_effect (hx : pairingExec sha256 op inp s = some (res, s')) :
    PairingEffect ⟨i, c, op, inp, res, s, s'⟩ := by
  cases op with
  | init =>
    simp only [pairingExec] at hx
    split_ifs at hx
    cases hx
    exact .plain rfl (fun r' hr' => .inr (.inr ⟨rfl, (Option.filter_eq_some_iff.mp hr').1⟩))
      (.inr rfl) (fun _ hr' => .inl hr') rfl rfl rfl rfl
  | getSession =>
    cases hx
    refine .plain (sweep_process _) (fun r' hr' => ?_) (.inl (sweep_loaded _)) (fun _ hr' => .inl (sweep_stored _ ▸ hr'))
      rfl rfl rfl rfl
    obtain ⟨r, hr, hswept⟩ := sweep_memory hr'
    exact .inl ⟨rfl, r, hr, settles_sweep hswept⟩
  | request params => exact request_effect (Option.some.inj hx)
  | approve params => exact approve_effect (Option.some.inj hx)
  | issue params =>
    cases hx
    exact .plain rfl (fun r' hr' => .inl ⟨rfl, r', hr', .refl r'⟩) (.inl rfl) (fun _ hr' => .inl hr') rfl rfl rfl rfl
  | enter scopes issued =>
    cases hx
    refine .plain rfl (fun r' hr' => .inr (.inl ⟨rfl, ?_⟩)) (.inl rfl) (fun _ hr' => .inl hr') rfl rfl rfl rfl
    obtain ⟨r, hr, rfl⟩ := Option.map_eq_some_iff.mp hr'
    exact ⟨r, scopes, issued, hr, rfl⟩
  | reject => exact reject_effect (Option.some.inj hx)
  | complete pairingSecret => exact complete_effect (Option.some.inj hx)
  | serialize =>
    obtain ⟨r, hr, heq⟩ := Option.map_eq_some_iff.mp hx
    cases heq
    exact ⟨rfl, fun r' hr' => .inl ⟨rfl, r', hr', .refl r'⟩, .inl rfl, fun h => (by cases h),
      fun _ hr' => .inl hr', fun _ h => Option.some.inj h ▸ hr, fun h => (by cases h), fun h => (by rcases h with h | h <;> cases h)⟩
  | serializeUnawaited =>
    simp only [pairingExec] at hx
    split_ifs at hx
    obtain ⟨r, hr, heq⟩ := Option.map_eq_some_iff.mp hx
    cases heq
    exact ⟨rfl, fun r' hr' => .inl ⟨rfl, r', hr', .refl r'⟩, .inl rfl, fun h => (by cases h),
      fun _ hr' => .inl hr', fun _ h => Option.some.inj h ▸ hr, fun h => (by cases h), fun h => (by rcases h with h | h <;> cases h)⟩
  | land record =>
    cases hx
    refine .plain ?_ (fun r' hr' => .inl ⟨rfl, r', ?_, .refl r'⟩) ?_ (fun r' hr' => ?_) rfl rfl rfl rfl
    · dsimp only
      split_ifs <;> rfl
    · dsimp only at hr'
      split_ifs at hr' <;> exact hr'
    · dsimp only
      split_ifs <;> exact .inl rfl
    · dsimp only at hr'
      split_ifs at hr'
      · exact .inr (by rw [Option.some.inj hr'])
      · exact .inl hr'

theorem init_loads (hx : pairingExec sha256 op inp s = some (res, s')) (hop : op = .init) :
    s.loaded = false ∧ s'.loaded = true := by
  subst hop
  simp only [pairingExec] at hx
  split_ifs at hx with hloaded
  cases hx
  exact ⟨Bool.not_eq_true _ ▸ hloaded, rfl⟩

/-- Tokens are taken from a session that is approved, by its secret and before it expires. -/
theorem pairing_takes (hx : pairingExec sha256 op inp s = some (res, s'))
    (htakes : (takes ⟨i, c, op, inp, res, s, s'⟩).isSome = true) :
    ∃ presented r, op = .complete presented ∧ s.memory = some r ∧ r.status = .approved ∧
      sha256 r.secretHash = sha256 (sha256 presented) ∧ inp.now.1 < r.expiresAt := by
  cases op with
  | complete presented =>
    cases res with
    | answered answer => cases htakes
    | taken credential =>
      have hx : onSession (.answered ⟨notFound, false⟩)
        (completeSession sha256 presented inp.now.1) (s.sweep inp.sweptAt.1) =
          (.taken credential, s') := Option.some.inj hx
      cases hm : (s.sweep inp.sweptAt.1).memory with
      | none =>
        simp only [onSession, hm] at hx
        cases hx
      | some r₁ =>
        simp only [onSession, hm, Prod.mk.injEq] at hx
        obtain ⟨hsecret, hstatus, hnow, -⟩ := completeSession_taken hx.1
        obtain ⟨r, hr, rfl | rfl⟩ := sweep_memory hm
        · exact ⟨presented, r₁, rfl, hr, hstatus, hsecret, hnow⟩
        · cases hstatus
  | init | getSession | request | approve | issue | enter | reject | serialize |
      serializeUnawaited | land => cases htakes

end Effects

end Wazir.Api
