import Wazir.Api.PairingGated

/-! Pairing is operator-gated and single-use in every run in which approvals do not overlap each
other or a later decision, and a restart finds the session as far as it had come. -/

namespace Wazir.Api

open Wazir.Async

variable {h : PairingHist}

section Calls

variable {sha256 : String → String} {I : PairingHist → Prop} {i : ℕ} {c : PairingRequest}

/-- What a finished call has done. -/
structure PairingDone (c : PairingRequest) (out : Except String PairingReply)
    (es : List PairingEntry) : Prop where
  tokens : ∀ credential, out = .ok (.tokens credential) → ∃ presented t s l,
    c.call = .completePairing presented ∧ es = [t, s, l] ∧ t.op = .complete presented ∧
      takes t = some credential ∧ landed l = true
  rejected : c.call = .rejectSession → out = .ok (.rejected true) →
    ∃ l ∈ es, returnsRejection l = true

theorem done_error {e : String} {es : List PairingEntry} : PairingDone c (.error e) es :=
  ⟨fun _ h => (by cases h), fun _ h => (by cases h)⟩

/-- A put after the commands `es`. -/
theorem put_does {es : List PairingEntry} {Q : Except String Unit → List PairingEntry → Prop}
    (hsame : ∀ x ∈ es, x.call = c)
    (hreject : c.call = .rejectSession → ∃ x ∈ es, rejects x = true)
    (hok : ∀ s l, serializes s ≠ none → l.call = c → landed l = true → Q (.ok ()) (es ++ [s, l]))
    (herr : ∀ e es', Q (.error e) es') :
    Does (pairingSystem sha256) I Follows i c Q MobilePairingService.put es := by
  intro h inp record s hI hes hx
  have hall : ∀ x ∈ h.entriesOf i, x.call = c := by rwa [hes]
  refine ⟨⟨hall, fun hor => (by rcases hor with h | h <;> cases h), fun h => (by cases h),
    fun _ h => (by cases h), fun h => (by cases h), fun _ h => (by cases h), fun h => ?_⟩, ?_⟩
  · simp [returnsRejection, landed] at h
  intro h' inp' r s' hI' hes' hx'
  have hall' : ∀ x ∈ h'.entriesOf i, x.call = c := by
    intro x hx
    rw [hes'] at hx
    rcases List.mem_append.mp hx with hx | hx
    · exact hsame x hx
    · rw [List.mem_singleton.mp hx]
  refine ⟨⟨hall', fun hor => (by rcases hor with h | h <;> cases h), fun h => (by cases h),
    fun _ h => (by cases h), fun h => (by cases h), fun r hr => ?_, fun hreturns => ?_⟩, ?_⟩
  · cases hr
    refine ⟨_, hes' ▸ List.mem_append_right _ (List.mem_singleton_self _), rfl⟩
  · have hc : c.call = .rejectSession := by
      simp only [returnsRejection, Bool.and_eq_true] at hreturns
      have := hreturns.2
      cases hcall : c.call with
      | rejectSession => rfl
      | init | getSession | requestPairing | approveSession | completePairing | unawaitedPut =>
        rw [hcall] at this
        cases this
    obtain ⟨x, hx, hrejects⟩ := hreject hc
    exact ⟨x, hes' ▸ List.mem_append_left _ hx, hrejects⟩
  · rw [List.append_assoc, List.singleton_append]
    cases r with
    | error e => exact herr e _
    | ok _ => exact hok _ _ (Option.some_ne_none _) rfl rfl

/-- The first command of a call. -/
theorem follows_first {e : PairingEntry} (hes : h.entriesOf e.thread = [])
    (hclaims : (takes e).isSome = true → ∃ secret, e.call.call = .completePairing secret)
    (hissue : ∀ params, e.op ≠ .issue params) (henter : enters e = false)
    (hland : ∀ r, e.op ≠ .land r) (hlanded : landed e = false) : Follows h e where
  same x hx := by rw [hes] at hx; cases hx
  first _ := hes
  claims := hclaims
  issue params h := absurd h (hissue params)
  enter h := by rw [henter] at h; cases h
  land r h := absurd h (hland r)
  rejection h := by simp [returnsRejection, hlanded] at h

theorem answer_does {a : Answered} {e : PairingEntry} (he : e.call = c)
    (hreply : ∀ credential, a.reply ≠ .tokens credential) (hcall : c.call ≠ .rejectSession) :
    Does (pairingSystem sha256) I Follows i c (PairingDone c) (MobilePairingService.answer a) [e] := by
  have hdone : ∀ es, PairingDone c (.ok a.reply) es := fun es =>
    ⟨fun credential h => absurd (Except.ok.inj h) (hreply credential), fun h => absurd h hcall⟩
  unfold MobilePairingService.answer
  split_ifs
  · refine (put_does (Q := fun _ _ => True) (fun x hx => List.mem_singleton.mp hx ▸ he)
      (fun h => absurd h hcall) (fun _ _ _ _ _ => trivial) fun _ _ => trivial).bind
        (fun _ es _ _ => hdone es) fun _ _ _ _ => done_error
  · exact hdone [e]

/-- A block answers with tokens only by taking them. -/
theorem onSession_answer {α : Type} {missing : α} {P : α → Prop} (hmissing : P missing)
    {block : PairingSessionRecord → α × PairingSessionRecord} (hblock : ∀ r, P (block r).1)
    {s s' : PairingState} {a : α} (hx : onSession missing block s = (a, s')) : P a := by
  have ha : (onSession missing block s).1 = a := by rw [hx]
  rw [← ha, onSession]
  split
  · exact hmissing
  · exact hblock _

/-- An answer that hands out nothing. -/
def PairingReply.tokenless (reply : PairingReply) : Prop := ∀ credential, reply ≠ .tokens credential

theorem tokenless_failed {status : ℕ} {code error : String} :
    (PairingReply.failed status code error).tokenless := fun _ h => (by cases h)

theorem request_tokenless {params : RequestParams} {nowMs : ℤ} {num : ℕ} {uuid stampIso : String}
    (r : PairingSessionRecord) :
    (requestSession sha256 params nowMs num uuid stampIso r).1.reply.tokenless := by
  unfold requestSession
  split_ifs
  · exact tokenless_failed
  · exact tokenless_failed
  · exact tokenless_failed
  · exact tokenless_failed
  · exact fun _ h => (by cases h)

def ApproveStep.tokenless : ApproveStep → Prop
  | .answered a => a.reply.tokenless
  | .passed _ _ => True

theorem approve_tokenless {params : ApproveParams} (r : PairingSessionRecord) :
    (Wazir.Api.approveSession sha256 params r).1.tokenless := by
  unfold Wazir.Api.approveSession
  split
  · split_ifs
    · exact tokenless_failed
    · trivial
  · exact tokenless_failed

def CompleteStep.tokenless : CompleteStep → Prop
  | .answered a => a.reply.tokenless
  | .taken _ => True

theorem complete_tokenless {presented : String} {nowMs : ℤ} (r : PairingSessionRecord) :
    (completeSession sha256 presented nowMs r).1.tokenless := by
  unfold completeSession
  split_ifs
  · exact tokenless_failed
  · exact tokenless_failed
  · exact tokenless_failed
  · exact tokenless_failed
  · exact fun _ h => (by cases h)
  · split
    · trivial
    · exact tokenless_failed

theorem request_does {process : ℕ} {params : RequestParams} :
    Does (pairingSystem sha256) I Follows i ⟨process, .requestPairing params⟩
      (PairingDone ⟨process, .requestPairing params⟩)
      (MobilePairingService.requestPairing params) [] := by
  intro h inp a s hI hes hx
  refine ⟨follows_first hes (fun h => (by cases h)) (fun _ h => (by cases h)) rfl
    (fun _ h => (by cases h)) rfl, ?_⟩
  have hreply : PairingReply.tokenless a.reply := onSession_answer (P := fun a => a.reply.tokenless)
    tokenless_failed request_tokenless (Option.some.inj hx)
  exact answer_does rfl hreply fun h => (by cases h)

theorem reject_does {process : ℕ} : Does (pairingSystem sha256) I Follows i ⟨process, .rejectSession⟩
    (PairingDone ⟨process, .rejectSession⟩) MobilePairingService.rejectSession [] := by
  intro h inp known s hI hes hx
  refine ⟨follows_first hes (fun h => (by cases h)) (fun _ h => (by cases h)) rfl
    (fun _ h => (by cases h)) rfl, ?_⟩
  cases known with
  | false => exact ⟨fun _ h => (by cases h), fun _ h => (by cases h)⟩
  | true =>
    refine (put_does (Q := fun out es => out = .ok () → ∃ l ∈ es, returnsRejection l = true)
      (fun x hx => List.mem_singleton.mp hx ▸ rfl)
      (fun _ => ⟨_, List.mem_singleton_self _, rfl⟩) (fun s l _ hl hlanded _ => ?_)
      fun _ _ h => (by cases h)).bind (fun _ es _ hdone => ?_) fun _ _ _ _ => done_error
    · exact ⟨l, by simp, by simp [returnsRejection, hlanded, hl]⟩
    · exact ⟨fun _ h => (by cases h), fun _ _ => hdone rfl⟩

theorem complete_does {process : ℕ} {presented : String} :
    Does (pairingSystem sha256) I Follows i ⟨process, .completePairing presented⟩
      (PairingDone ⟨process, .completePairing presented⟩)
      (MobilePairingService.completePairing presented) [] := by
  intro h inp step s hI hes hx
  refine ⟨follows_first hes (fun _ => ⟨presented, rfl⟩) (fun _ h => (by cases h)) rfl
    (fun _ h => (by cases h)) rfl, ?_⟩
  have hmissing : (CompleteStep.answered ⟨notFound, false⟩).tokenless := fun _ h => (by cases h)
  have hstep : step.tokenless := onSession_answer (P := CompleteStep.tokenless) hmissing complete_tokenless
    (Option.some.inj hx)
  cases step with
  | answered a => exact answer_does rfl hstep fun h => (by cases h)
  | taken credential =>
    refine (put_does (Q := fun out es => out = .ok () → ∃ s l,
        es = [⟨i, ⟨process, .completePairing presented⟩, .complete presented, inp,
          .taken credential, h.shared, _⟩, s, l] ∧ landed l = true)
      (fun x hx => List.mem_singleton.mp hx ▸ rfl) (fun h => (by cases h))
      (fun s l _ hl hlanded _ => ⟨s, l, rfl, hlanded⟩) fun _ _ h => (by cases h)).bind
        (fun _ es _ hdone => ?_) fun _ _ _ _ => done_error
    obtain ⟨s, l, hes, hlanded⟩ := hdone rfl
    refine ⟨fun credential' h => ?_, fun h => (by cases h)⟩
    cases h
    exact ⟨presented, _, s, l, rfl, hes, rfl, rfl, hlanded⟩

theorem approve_does {process : ℕ} {params : ApproveParams} :
    Does (pairingSystem sha256) I Follows i ⟨process, .approveSession params⟩
      (PairingDone ⟨process, .approveSession params⟩)
      (MobilePairingService.approveSession params) [] := by
  intro h inp step s hI hes hx
  refine ⟨follows_first hes (fun h => (by cases h)) (fun _ h => (by cases h)) rfl
    (fun _ h => (by cases h)) rfl, ?_⟩
  have hmissing : (ApproveStep.answered ⟨notFound, false⟩).tokenless := fun _ h => (by cases h)
  have hstep : step.tokenless := onSession_answer (P := ApproveStep.tokenless) hmissing approve_tokenless
    (Option.some.inj hx)
  cases step with
  | answered a => exact answer_does rfl hstep fun h => (by cases h)
  | passed deviceParams scopes =>
  intro h₁ inp₁ issued s₁ hI₁ hes₁ hx₁
  refine ⟨⟨fun x hx => ?_, fun hor => (by rcases hor with h | h <;> cases h), fun h => (by cases h),
    fun _ _ => ⟨_, hes₁, rfl⟩, fun h => (by cases h), fun _ h => (by cases h), fun h => ?_⟩, ?_⟩
  · rw [hes₁] at hx
    rw [List.mem_singleton.mp hx]
  · simp [returnsRejection, landed] at h
  cases issued with
  | error e => exact done_error
  | ok issued =>
  intro h₂ inp₂ r₂ s₂ hI₂ hes₂ hx₂
  refine ⟨⟨fun x hx => ?_, fun hor => (by rcases hor with h | h <;> cases h), fun h => (by cases h),
    fun _ h => (by cases h), fun _ => ⟨_, _, hes₂, rfl, rfl⟩, fun _ h => (by cases h), fun h => ?_⟩, ?_⟩
  · rw [hes₂] at hx
    rcases List.mem_cons.mp hx with rfl | hx
    · rfl
    · rw [List.mem_singleton.mp hx]
  · simp [returnsRejection, landed] at h
  refine (put_does (Q := fun _ _ => True) (fun x hx => ?_) (fun h => (by cases h))
    (fun _ _ _ _ _ => trivial) fun _ _ => trivial).bind
      (fun _ es _ _ => ⟨fun _ h => (by cases h), fun h => (by cases h)⟩) fun _ _ _ _ => done_error
  simp only [List.cons_append, List.nil_append, List.mem_cons, List.not_mem_nil, or_false] at hx
  rcases hx with rfl | rfl | rfl <;> rfl

theorem unawaited_does {process : ℕ} : Does (pairingSystem sha256) I Follows i
    ⟨process, .unawaitedPut⟩ (PairingDone ⟨process, .unawaitedPut⟩)
      MobilePairingService.unawaitedPut [] := by
  intro h inp record s hI hes hx
  refine ⟨follows_first hes (fun h => (by cases h)) (fun _ h => (by cases h)) rfl
    (fun _ h => (by cases h)) rfl, ?_⟩
  intro h' inp' r s' hI' hes' hx'
  refine ⟨⟨fun x hx => ?_, fun hor => (by rcases hor with h | h <;> cases h), fun h => (by cases h),
    fun _ h => (by cases h), fun h => (by cases h), fun r hr => ?_, fun h => ?_⟩, ?_⟩
  · rw [hes'] at hx
    rw [List.mem_singleton.mp hx]
  · cases hr
    exact ⟨_, by rw [hes']; exact List.mem_singleton_self _, rfl⟩
  · simp [returnsRejection] at h
  · exact ⟨fun _ h => (by cases h), fun h => (by cases h)⟩

theorem pairing_does (i : ℕ) (c : PairingRequest) :
    Does (pairingSystem sha256) I Follows i c (PairingDone c) (c.body) [] := by
  obtain ⟨process, call⟩ := c
  cases call with
  | requestPairing params => exact request_does
  | approveSession params => exact approve_does
  | rejectSession => exact reject_does
  | completePairing presented => exact complete_does
  | unawaitedPut => exact unawaited_does
  | init | getSession =>
    intro h inp r s hI hes hx
    exact ⟨follows_first hes (fun h => (by cases h)) (fun _ h => (by cases h)) rfl
      (fun _ h => (by cases h)) rfl, fun _ h => (by cases h), fun h => (by cases h)⟩

end Calls

section Runs

variable {sha256 : String → String} {first : PairingSessionRecord}

/-- What holds when a completion takes the tokens of the session. -/
structure Granted (sha256 : String → String) (first : PairingSessionRecord) (h : PairingHist)
    (e : PairingEntry) (presented : String) : Prop where
  secret : sha256 first.secretHash = sha256 (sha256 presented)
  approved : ∃ x ∈ h.entries, enters x = true
  unrejected : ∀ x ∈ h.entries, returnsRejection x = false
  unexpired : e.input.now.1 < first.expiresAt
  guesses : guesses h < maxPairingAttempts

/-- Credentials are issued once, and tokens are taken once and only when they are granted. -/
structure Gate (sha256 : String → String) (first : PairingSessionRecord) (h : PairingHist)
    (e : PairingEntry) : Prop where
  issued : issues e = true → ∀ x ∈ h.entries, issues x = false
  taken : (takes e).isSome = true → ∀ x ∈ h.entries, (takes x).isSome = false
  granted : (takes e).isSome = true → ∀ presented, e.op = .complete presented →
    Granted sha256 first h e presented

theorem PairingInv.gate {i : ℕ} {c : PairingRequest} {op : PairingOp} {inp : PairingInput}
    {res : PairingRes op} {s' : PairingState} (inv : PairingInv first h)
    (hfollows : Follows h ⟨i, c, op, inp, res, h.shared, s'⟩)
    (hprocess : c.process = h.shared.process)
    (hx : pairingExec sha256 op inp h.shared = some (res, s')) :
    Gate sha256 first h ⟨i, c, op, inp, res, h.shared, s'⟩ := by
  refine ⟨fun hissues x hmem => ?_, fun htakes x hmem => ?_, fun htakes presented hop => ?_⟩
  · obtain ⟨⟨params, hop⟩, -⟩ := issues_op hissues
    obtain ⟨hunder, hown⟩ := issue_under hfollows hprocess hop
    cases hx : issues x with
    | false => rfl
    | true => exact hx.symm.trans (hown x hmem (inv.underIssued i hunder x hmem hx)).1
  · obtain ⟨_, r, -, hr, happ, -⟩ := pairing_takes hx htakes
    rw [inv.untaken r hr (by rw [happ]; rfl) x hmem]
    rfl
  · obtain ⟨presented', r, hop', hr, happ, hsecret, hnow⟩ := pairing_takes hx htakes
    cases hop.symm.trans hop'
    have hlive : r.status.isLive = true := by rw [happ]; rfl
    have hsnapshot := inv.memory r hr
    refine ⟨hsnapshot.secret ▸ hsecret, hsnapshot.approved happ, inv.unrejected r hr hlive,
      hsnapshot.expiry ▸ hnow, ?_⟩
    rw [← inv.guessed r hr hlive]
    by_contra hmax
    have := hsnapshot.locked (not_lt.mp hmax)
    rw [hlive] at this
    cases this

/-- A command in order, of a call of the present process. -/
def InTime (h : PairingHist) (e : PairingEntry) : Prop :=
  SessionOrder h e ∧ e.call.process = h.shared.process

def PairingHolds (sha256 : String → String) (first : PairingSessionRecord) (h : PairingHist) : Prop :=
  h.Always InTime → PairingInv first h ∧ h.Always (Gate sha256 first)

theorem began_holds (h : PairingHist) (i : ℕ) (c : PairingRequest) (s : PairingState)
    (hI : PairingHolds sha256 first h)
    (hadm : (pairingSystem sha256).admits c h.shared = some s) :
    PairingHolds sha256 first (h.push (.began i c) s) := by
  intro hok
  obtain ⟨inv, hgate⟩ := hI hok.past
  obtain rfl : h.shared = s := by
    simp only at hadm
    split_ifs at hadm
    exact Option.some.inj hadm
  exact ⟨inv.quiet (Hist.entries_push_began ..) rfl (.inl rfl), hgate.push fun _ => nofun⟩

theorem crashed_holds (h : PairingHist) (p : ℕ) (hI : PairingHolds sha256 first h) :
    PairingHolds sha256 first (h.push (.crashed p) (h.shared.restart p)) := by
  intro hok
  obtain ⟨inv, hgate⟩ := hI hok.past
  refine ⟨inv.quiet (Hist.entries_push_crashed ..) ?_ ?_, hgate.push fun _ => nofun⟩
  · unfold PairingState.restart
    split_ifs <;> rfl
  · unfold PairingState.restart
    split_ifs
    · exact .inr ⟨rfl, rfl, Nat.lt_succ_self _⟩
    · exact .inl rfl

theorem ran_holds (h : PairingHist) (i : ℕ) (c : PairingRequest) (op : PairingOp)
    (inp : PairingInput) (res : PairingRes op) (s : PairingState)
    (hI : PairingHolds sha256 first h) (hx : pairingExec sha256 op inp h.shared = some (res, s))
    (hfollows : Follows h ⟨i, c, op, inp, res, h.shared, s⟩) :
    PairingHolds sha256 first (h.push (.ran ⟨i, c, op, inp, res, h.shared, s⟩) s) := by
  intro hok
  obtain ⟨inv, hgate⟩ := hI hok.past
  obtain ⟨horder, hprocess⟩ := hok.last rfl
  refine ⟨inv.ran (pairing_effect hx) hfollows horder hprocess hx, hgate.push fun e he => ?_⟩
  cases he
  exact inv.gate hfollows hprocess hx

theorem pairing_run (hwaiting : first.status = .waitingForDevice) (hattempts : first.attempts = 0)
    {cfg : PairingConfig} (hr : Reach (pairingSystem sha256) (.created first) cfg) :
    PairingHolds sha256 first cfg.hist ∧ ∀ i c p, cfg.threads[i]? = some ⟨c, some p⟩ →
      Does (pairingSystem sha256) (PairingHolds sha256 first) Follows i c (PairingDone c) p
        (cfg.hist.entriesOf i) := by
  have hmax : first.attempts < maxPairingAttempts := by
    rw [hattempts]
    decide
  have hrun := Reach.does (P := Follows) (Q := fun _ c => PairingDone c)
    (I := PairingHolds sha256 first)
    (fun _ => ⟨pairingInv_start hmax hwaiting hattempts, fun pre e post he => by simp at he⟩)
    began_holds crashed_holds ran_holds pairing_does hr
  exact ⟨hrun.1, hrun.2.2⟩

theorem in_time {start : PairingState} {cfg : PairingConfig}
    (hr : Reach (pairingSystem sha256) start cfg) (hok : cfg.hist.Always SessionOrder) :
    cfg.hist.Always InTime := by
  have halive := (hr.alive PairingState.process (fun c s s' hadm => ?_)
    (fun op inp s r s' hx => ?_) fun p s hne => ?_).2
  · exact fun pre e post he => ⟨hok pre e post he, halive pre e post he⟩
  · simp only at hadm
    split_ifs at hadm with hc
    cases hadm
    exact ⟨hc, rfl⟩
  · exact (pairing_effect (i := 0) (c := ⟨0, .init⟩) hx).process
  · simp only [PairingState.restart, if_neg (Ne.symm hne)]

/-- One credential is issued, one completion returns tokens, and it took them when they were granted
and returns them before any rejection does. -/
structure PairingSound (sha256 : String → String) (first : PairingSessionRecord)
    (pairingSecret : String) (cfg : PairingConfig) : Prop where
  issued : (cfg.hist.entries.filter issues).length ≤ 1
  once : ∀ i j c d credential credential',
    HasReturned (pairingSystem sha256) (.created first) cfg i c (.tokens credential) →
    HasReturned (pairingSystem sha256) (.created first) cfg j d (.tokens credential') → i = j
  rejected : ∀ i p,
    HasReturned (pairingSystem sha256) (.created first) cfg i ⟨p, .rejectSession⟩ (.rejected true) →
      ∃ l ∈ cfg.hist.entries, l.thread = i ∧ returnsRejection l = true
  granted : ∀ i c credential,
    HasReturned (pairingSystem sha256) (.created first) cfg i c (.tokens credential) →
      c.call = .completePairing pairingSecret ∧ ∃ pre t mid l post,
        cfg.hist.events = pre ++ .ran t :: (mid ++ .ran l :: post) ∧ t.thread = i ∧ l.thread = i ∧
        takes t = some credential ∧ landed l = true ∧
        Granted sha256 first ⟨pre, t.before⟩ t pairingSecret ∧
        ∀ x ∈ Hist.entries (⟨pre ++ .ran t :: mid, l.before⟩ : PairingHist), returnsRejection x = false

/-- The first and the last of a thread's three commands. -/
theorem three_commands {i : ℕ} {t s l : PairingEntry} (hes : h.entriesOf i = [t, s, l]) :
    t.thread = i ∧ l.thread = i ∧ ∃ pre mid post,
      h.events = pre ++ .ran t :: (mid ++ .ran l :: post) := by
  have hmem : ∀ x ∈ [t, s, l], x.thread = i := fun x hx =>
    (mem_entriesOf (h := h)).mp (hes ▸ hx) |>.2
  obtain ⟨A, B, hentries, -, -, hB⟩ := List.filter_eq_cons_iff.mp hes
  obtain ⟨C, D, rfl, -, -, hD⟩ := List.filter_eq_cons_iff.mp hB
  obtain ⟨E, F, rfl, -, -, -⟩ := List.filter_eq_cons_iff.mp hD
  have hsplit : h.entries = (A ++ t :: (C ++ s :: E)) ++ l :: F := by simp [hentries]
  obtain ⟨pre, post, hevents, hpre⟩ := Hist.entries_split hsplit
  obtain ⟨pre', mid, rfl, -⟩ := Hist.entries_split (h := (⟨pre, h.shared⟩ : PairingHist)) (hpre h.shared)
  exact ⟨hmem t (by simp), hmem l (by simp), pre', mid, post, by rw [hevents]; simp⟩

/-- Pairing is operator-gated and single-use, if no other text has the digest of the secret. -/
theorem pairing_sound {params : SessionParams} {uuid pairingSecret nowIso : String} {nowMs : ℤ}
    (hsha : ∀ text, sha256 (sha256 pairingSecret) = sha256 (sha256 text) → pairingSecret = text)
    {cfg : PairingConfig}
    (hr : Reach (pairingSystem sha256)
      (.created (createdSession sha256 params uuid pairingSecret nowMs nowIso)) cfg)
    (hok : cfg.hist.Always SessionOrder) :
    PairingSound sha256 (createdSession sha256 params uuid pairingSecret nowMs nowIso) pairingSecret
      cfg := by
  obtain ⟨-, hgate⟩ := (pairing_run rfl rfl hr).1 (in_time hr hok)
  have hissued : cfg.hist.Always fun h e => issues e = true → ∀ x ∈ h.entries, issues x = false :=
    fun pre e post he => (hgate pre e post he).issued
  have htaken : cfg.hist.Always fun h e => (takes e).isSome = true →
      ∀ x ∈ h.entries, (takes x).isSome = false := fun pre e post he => (hgate pre e post he).taken
  -- what a call that returned tokens had done
  have hdone : ∀ i c credential, HasReturned (pairingSystem sha256)
      (.created (createdSession sha256 params uuid pairingSecret nowMs nowIso)) cfg i c
        (.tokens credential) → ∃ presented pre t mid l post, c.call = .completePairing presented ∧
        cfg.hist.events = pre ++ .ran t :: (mid ++ .ran l :: post) ∧ t.thread = i ∧ l.thread = i ∧
        t.op = .complete presented ∧ takes t = some credential ∧ landed l = true := by
    rintro i c credential ⟨cfg₀, hr₀, hlater, hret⟩
    obtain ⟨presented, t, s, l, hcall, hes, hop, htakes, hlanded⟩ :=
      ((pairing_run rfl rfl hr₀).2 i c _ (Config.returned_eq_some hret)).tokens credential rfl
    obtain ⟨ht, hl, pre, mid, post, hevents⟩ := three_commands hes
    obtain ⟨rest, hrest⟩ := Step.events_prefix hlater
    refine ⟨presented, pre, t, mid, l, post ++ rest, hcall, ?_, ht, hl, hop, htakes, hlanded⟩
    rw [← hrest, hevents]
    simp
  have hmem : ∀ {pre post : List (Event PairingOp PairingRes PairingRequest ℕ PairingInput PairingState)}
      {t : PairingEntry}, cfg.hist.events = pre ++ .ran t :: post → t ∈ cfg.hist.entries := by
    intro pre post t he
    exact List.mem_filterMap.mpr ⟨.ran t, by rw [he]; simp, rfl⟩
  refine ⟨hissued.once, fun i j c d credential credential' hi hj => ?_,
    fun i p hret => ?_, fun i c credential hret => ?_⟩
  · obtain ⟨_, _, t, _, _, _, -, he, rfl, -, -, htakes, -⟩ := hdone i c credential hi
    obtain ⟨_, _, t', _, _, _, -, he', rfl, -, -, htakes', -⟩ := hdone j d credential' hj
    exact congrArg Entry.thread
      (htaken.same (hmem he) (hmem he') (by rw [htakes]; rfl) (by rw [htakes']; rfl))
  · obtain ⟨cfg₀, hr₀, hlater, hret⟩ := hret
    obtain ⟨l, hl, hreturns⟩ := ((pairing_run rfl rfl hr₀).2 i _ _
      (Config.returned_eq_some hret)).rejected rfl rfl
    obtain ⟨hmem, hi⟩ := mem_entriesOf.mp hl
    exact ⟨l, (Step.entries_prefix hlater).subset hmem, hi, hreturns⟩
  · obtain ⟨presented, pre, t, mid, l, post, hcall, he, ht, hl, hop, htakes, hlanded⟩ :=
      hdone i c credential hret
    have hsome : (takes t).isSome = true := by rw [htakes]; rfl
    have hgranted := (hgate _ _ _ he).granted hsome presented hop
    obtain rfl : pairingSecret = presented := hsha _ hgranted.secret
    refine ⟨hcall, pre, t, mid, l, post, he, ht, hl, htakes, hlanded, hgranted, fun x hx => ?_⟩
    -- the rejections that have returned have done so since the tokens were taken
    have hel : cfg.hist.events = (pre ++ .ran t :: mid) ++ .ran l :: post := by rw [he]; simp
    obtain ⟨cfgl, hrl, hhl, -⟩ := hr.ran hel
    obtain ⟨inv, -⟩ := (pairing_run rfl rfl hrl).1 (by rw [hhl]; exact (in_time hr hok).upTo hel)
    rw [hhl] at inv
    have htmem : t ∈ Hist.entries (⟨pre ++ .ran t :: mid, l.before⟩ : PairingHist) := by
      simp [Hist.entries, Event.entry]
    have hhanded := (hok _ _ _ hel).handed hlanded
      ⟨t, mem_entriesOf.mpr ⟨htmem, ht.trans hl.symm⟩, hsome⟩
    cases hreturns : returnsRejection x with
    | false => rfl
    | true =>
      have := hhanded x (hl.symm ▸ ht ▸ inv.late t htmem hsome x hx hreturns)
      rw [hreturns] at this
      cases this

end Runs

/-! Two runs. -/

/-- `UnderWay` as a check. -/
def underWay (h : PairingHist) (i : ℕ) : Bool :=
  ((h.entriesOf i).any fun x => passes x && x.call.process = h.shared.process) &&
    (h.entriesOf i).all fun x => !refused x && !enters x

/-- `UpToDate` as a check. -/
def upToDate (h : PairingHist) (session : PairingSessionRecord) : Bool :=
  (!session.status.isLive || session.attempts = guesses h) &&
    (!session.status.isLive || h.entries.all fun x => !returnsRejection x) &&
    (!session.status.isOpen || h.entries.all fun x => !issues x) &&
    (session.status ≠ .approved || h.entries.all fun x => (takes x).isNone)

/-- `SessionOrder` as a check. -/
def sessionOrder (h : PairingHist) (e : PairingEntry) : Bool :=
  (!passes e || h.entries.all fun x => x.thread = e.thread || !underWay h x.thread) &&
    (!enters e || (e.before.memory.map fun r => r.status) = some .pendingOperatorApproval) &&
    (match e.op with
      | .init => e.before.stored.all (upToDate h)
      | _ => true) &&
    (!landed e || (h.sinceStart e.thread).all fun x => !returnsRejection x)

theorem upToDate_sound {session : PairingSessionRecord} (hcheck : upToDate h session = true) :
    UpToDate h session := by
  simp only [upToDate, Bool.and_eq_true, Bool.or_eq_true, Bool.not_eq_true', decide_eq_true_eq,
    List.all_eq_true, Option.isNone_iff_eq_none] at hcheck
  obtain ⟨⟨⟨hattempts, hrejected⟩, hissued⟩, htaken⟩ := hcheck
  refine ⟨fun hlive => ?_, fun hlive => ?_, fun hopen => ?_, fun happ => ?_⟩
  · exact hattempts.resolve_left (by simp [hlive])
  · exact hrejected.resolve_left (by simp [hlive])
  · exact hissued.resolve_left (by simp [hopen])
  · exact htaken.resolve_left (by simp [happ])

theorem sessionOrder_sound (h : PairingHist) (e : PairingEntry) (hcheck : sessionOrder h e = true) :
    SessionOrder h e := by
  simp only [sessionOrder, Bool.and_eq_true, Bool.or_eq_true, Bool.not_eq_true', decide_eq_true_eq,
    List.all_eq_true] at hcheck
  obtain ⟨⟨⟨hpassed, hentered⟩, hloaded⟩, hhanded⟩ := hcheck
  refine ⟨fun hpass i hne hunder => ?_, fun henters => ?_, fun hop session hstored => ?_,
    fun hlanded _ => ?_⟩
  · obtain ⟨⟨x, hx, hpx, hproc⟩, hopen⟩ := hunder
    obtain ⟨hmem, rfl⟩ := mem_entriesOf.mp hx
    have hbusy : underWay h x.thread = true := by
      simp only [underWay, Bool.and_eq_true, List.any_eq_true, List.all_eq_true, Bool.not_eq_true',
        decide_eq_true_eq]
      exact ⟨⟨x, hx, hpx, hproc⟩, hopen⟩
    rcases (hpassed.resolve_left (by simp [hpass])) x hmem with heq | hidle
    · exact hne heq
    · rw [hbusy] at hidle
      cases hidle
  · exact hentered.resolve_left (by simp [henters])
  · rw [hop, hstored] at hloaded
    exact upToDate_sound hloaded
  · exact hhanded.resolve_left (by simp [hlanded])

def markDigest (text : String) : String := "digest of " ++ text

theorem markDigest_injective : Function.Injective markDigest :=
  fun _ _ h => (String.append_right_inj _).mp h

def handset : RequestParams := ⟨"secret", some "handset-1", "Handset", none, none, none⟩

def issuedHandset : IssuedMobileCredential where
  deviceId := "handset-1"
  accessToken := "access"
  refreshToken := "refresh"
  expiresAt := 0
  scopes := [.read]
  device := ⟨"handset-1", "Handset", none, none, none, [.read], "", "", 0, none, false, none⟩

def tick : PairingInput :=
  ⟨⟨1000, by decide⟩, ⟨1000, by decide⟩, ⟨1000, by decide⟩, 123456, "1", .ok issuedHandset, none, true⟩

def newSession : PairingSessionRecord :=
  createdSession markDigest ⟨none, none, none, none⟩ "1" "secret" 0 "1970-01-01T00:00:00.000Z"

/-- A wrong guess, a request, a restart, an approval, and two completions. -/
def pairedRun : List (Action PairingRequest ℕ PairingInput) :=
  [.begin ⟨0, .unawaitedPut⟩, .run 0 tick, .run 0 tick,
    .begin ⟨0, .completePairing "guess"⟩, .run 1 tick, .run 1 tick, .run 1 tick,
    .begin ⟨0, .requestPairing handset⟩, .run 2 tick, .run 2 tick, .run 2 tick, .crash 0,
    .begin ⟨1, .init⟩, .run 3 tick,
    .begin ⟨1, .approveSession ⟨some "123456", none⟩⟩, .run 4 tick, .run 4 tick, .run 4 tick,
    .run 4 tick, .run 4 tick,
    .begin ⟨1, .completePairing "secret"⟩, .run 5 tick, .run 5 tick, .run 5 tick,
    .begin ⟨1, .completePairing "secret"⟩, .run 6 tick]

/-- What the two completions return. -/
def pairedReplies (cfg : PairingConfig) : Bool :=
  (match cfg.returned 5 with
    | some (_, .tokens credential) => credential.accessToken = "access"
    | _ => false) &&
  match cfg.returned 6 with
    | some (_, .failed status _ _) => status = 409
    | _ => false

theorem pairing_sound_paired : ∃ cfg, Reach (pairingSystem markDigest) (.created newSession) cfg ∧
    pairedReplies cfg = true ∧ PairingSound markDigest newSession "secret" cfg := by
  have h : (schedule (pairingSystem markDigest) pairedRun (.start (.created newSession))).any
      (fun cfg => pairedReplies cfg && Hist.checkFrom sessionOrder [] cfg.hist.events) = true := by
    decide
  obtain ⟨cfg, hr, hcheck⟩ := Reach.of_check h
  obtain ⟨hreplies, hok⟩ := Bool.and_eq_true_iff.mp hcheck
  exact ⟨cfg, hr, hreplies, pairing_sound (fun _ hsame => markDigest_injective (markDigest_injective hsame)) hr
    (Hist.always_of_check sessionOrder_sound hok)⟩

/-- Two approvals of one session, each of which passes before the other is entered. -/
def approvedTwice : List (Action PairingRequest ℕ PairingInput) :=
  [.begin ⟨0, .requestPairing handset⟩, .run 0 tick, .run 0 tick, .run 0 tick,
    .begin ⟨0, .approveSession ⟨none, none⟩⟩, .run 1 tick, .begin ⟨0, .approveSession ⟨none, none⟩⟩,
    .run 2 tick, .run 1 tick, .run 2 tick]

theorem credential_issued_twice : ∃ cfg, Reach (pairingSystem markDigest) (.created newSession) cfg ∧
    ¬ PairingSound markDigest newSession "secret" cfg := by
  have h : (schedule (pairingSystem markDigest) approvedTwice (.start (.created newSession))).any
      (fun cfg => (cfg.hist.entries.filter issues).length = 2) = true := by
    decide
  obtain ⟨cfg, hr, hcheck⟩ := Reach.of_check h
  have htwo := of_decide_eq_true hcheck
  refine ⟨cfg, hr, fun hsound => ?_⟩
  have := hsound.issued
  omega

end Wazir.Api
