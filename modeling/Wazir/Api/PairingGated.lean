import Wazir.Api.PairingFacts

/-! The invariant of a pairing session: while it is live no credential has been claimed, no
rejection has returned and every wrong guess is counted; while it is open only the approval under
way can have issued a credential. -/

namespace Wazir.Api

open Wazir.Async

variable {e : PairingEntry} {sha256 : String → String}

section Invariant

variable (first : PairingSessionRecord)

/-- What any copy of the session shows, `first` being the session as it was created. -/
structure Snapshot (h : PairingHist) (r : PairingSessionRecord) : Prop where
  secret : r.secretHash = first.secretHash
  expiry : r.expiresAt = first.expiresAt
  locked : maxPairingAttempts ≤ r.attempts → r.status.isLive = false
  approved : r.status = .approved → ∃ e ∈ h.entries, enters e = true

structure PairingInv (h : PairingHist) : Prop where
  memory : ∀ r, h.shared.memory = some r → Snapshot first h r
  stored : ∀ r, h.shared.stored = some r → Snapshot first h r
  serialized : ∀ e ∈ h.entries, ∀ r, serializes e = some r → Snapshot first h r
  unloaded : h.shared.loaded = false → h.shared.memory = none ∧
    ∀ e ∈ h.entries, rejects e = true → e.call.process ≠ h.shared.process
  past : ∀ e ∈ h.entries, e.call.process ≤ h.shared.process
  claims : ∀ e ∈ h.entries, (takes e).isSome = true → ∃ secret, e.call.call = .completePairing secret
  one : ∀ i j, UnderWay h i → UnderWay h j → i = j
  openIssued : ∀ r, h.shared.memory = some r → r.status.isOpen = true →
    ∀ e ∈ h.entries, issues e = true → UnderWay h e.thread
  underIssued : ∀ i, UnderWay h i → ∀ e ∈ h.entries, issues e = true → e.thread = i
  entered : ∀ e ∈ h.entries, enters e = true → ∃ x ∈ h.entries, issues x = true
  taken : ∀ e ∈ h.entries, (takes e).isSome = true → ∃ x ∈ h.entries, enters x = true
  untaken : ∀ r, h.shared.memory = some r → r.status.isLive = true → ∀ e ∈ h.entries, takes e = none
  unrejected : ∀ r, h.shared.memory = some r → r.status.isLive = true →
    ∀ e ∈ h.entries, returnsRejection e = false
  closed : ∀ e ∈ h.entries, rejects e = true → e.call.process = h.shared.process →
    ∀ r, h.shared.memory = some r → r.status.isLive = false
  guessed : ∀ r, h.shared.memory = some r → r.status.isLive = true → r.attempts = guesses h
  late : ∀ e ∈ h.entries, (takes e).isSome = true → ∀ x ∈ h.entries, returnsRejection x = true →
    x ∈ h.sinceStart e.thread

/-- How a command follows the earlier ones of its call. -/
structure Follows (h : PairingHist) (e : PairingEntry) : Prop where
  same : ∀ x ∈ h.entriesOf e.thread, x.call = e.call
  first : (takes e).isSome = true ∨ passes e = true → h.entriesOf e.thread = []
  claims : (takes e).isSome = true → ∃ secret, e.call.call = .completePairing secret
  issue : ∀ params, e.op = .issue params → ∃ x, h.entriesOf e.thread = [x] ∧ passes x = true
  enter : enters e = true → ∃ x y, h.entriesOf e.thread = [x, y] ∧ passes x = true ∧ issues y = true
  land : ∀ r, e.op = .land r → ∃ x ∈ h.entriesOf e.thread, serializes x = some r
  rejection : returnsRejection e = true → ∃ x ∈ h.entriesOf e.thread, rejects x = true

/-- A command that is no step of a guess, a claim, a rejection or the issuing of a credential. -/
structure Quiet (e : PairingEntry) : Prop where
  wrongGuess : wrongGuess e = false
  takes : takes e = none
  rejects : rejects e = false
  returnsRejection : returnsRejection e = false
  issues : issues e = false

theorem quiet_of_enters (h : enters e = true) : Quiet e := by
  obtain ⟨i, c, op, inp, res, s, s'⟩ := e
  cases op with
  | enter => exact ⟨rfl, rfl, rfl, rfl, rfl⟩
  | init | getSession | request | approve | issue | reject | complete | serialize |
      serializeUnawaited | land => cases h

theorem quiet_of_init (h : e.op = .init) : Quiet e := by
  obtain ⟨i, c, op, inp, res, s, s'⟩ := e
  cases h
  exact ⟨rfl, rfl, rfl, rfl, rfl⟩

theorem issues_op (h : issues e = true) :
    (∃ params, e.op = .issue params) ∧ refused e = false ∧ enters e = false := by
  obtain ⟨i, c, op, inp, res, s, s'⟩ := e
  cases op with
  | issue params =>
    cases res with
    | ok issued => exact ⟨⟨params, rfl⟩, rfl, rfl⟩
    | error _ => cases h
  | init | getSession | request | approve | enter | reject | complete | serialize |
      serializeUnawaited | land => cases h

theorem refused_op (h : refused e = true) :
    (∃ params, e.op = .issue params) ∧ issues e = false := by
  obtain ⟨i, c, op, inp, res, s, s'⟩ := e
  cases op with
  | issue params =>
    cases res with
    | ok issued => cases h
    | error _ => exact ⟨⟨params, rfl⟩, rfl⟩
  | init | getSession | request | approve | enter | reject | complete | serialize |
      serializeUnawaited | land => cases h

variable {first} {h : PairingHist} {i : ℕ} {c : PairingRequest} {op : PairingOp}
  {inp : PairingInput} {res : PairingRes op} {s' : PairingState}

theorem pairingEntries_ran : (h.ran i c op inp res s').entries =
    h.entries ++ [⟨i, c, op, inp, res, h.shared, s'⟩] := Hist.entries_push_ran ..

theorem mem_pairingRan (he : e ∈ (h.ran i c op inp res s').entries) :
    e ∈ h.entries ∨ e = ⟨i, c, op, inp, res, h.shared, s'⟩ := by
  rw [pairingEntries_ran] at he
  exact (List.mem_append.mp he).imp_right List.mem_singleton.mp

theorem mem_pairingRan_of (he : e ∈ h.entries) :
    e ∈ (h.ran i c op inp res s').entries := by
  rw [pairingEntries_ran]
  exact List.mem_append_left _ he

theorem pairingRan_mem : (⟨i, c, op, inp, res, h.shared, s'⟩ : PairingEntry) ∈
    (h.ran i c op inp res s').entries := by
  rw [pairingEntries_ran]
  exact List.mem_append_right _ (List.mem_singleton_self _)

theorem mem_entriesOf : e ∈ h.entriesOf i ↔ e ∈ h.entries ∧ e.thread = i := by
  simp [Hist.entriesOf]

theorem entriesOf_ran {j : ℕ} : (h.ran i c op inp res s').entriesOf j =
    h.entriesOf j ++ if i = j then [⟨i, c, op, inp, res, h.shared, s'⟩] else [] :=
  Hist.entriesOf_push_ran ..

theorem guesses_ran : guesses (h.ran i c op inp res s') =
    guesses h + (wrongGuess ⟨i, c, op, inp, res, h.shared, s'⟩).toNat := by
  rw [guesses, pairingEntries_ran, List.filter_append, List.length_append, ← guesses]
  cases hw : wrongGuess ⟨i, c, op, inp, res, h.shared, s'⟩ <;> simp [hw]

theorem Snapshot.ran {r : PairingSessionRecord} (hs : Snapshot first h r) :
    Snapshot first (h.ran i c op inp res s') r where
  secret := hs.secret
  expiry := hs.expiry
  locked := hs.locked
  approved happ := by
    obtain ⟨e, he, henters⟩ := hs.approved happ
    exact ⟨e, mem_pairingRan_of he, henters⟩

/-! Approvals under way. -/

section Ran

variable (inv : PairingInv first h)
  (heffect : PairingEffect ⟨i, c, op, inp, res, h.shared, s'⟩)
  (hfollows : Follows h ⟨i, c, op, inp, res, h.shared, s'⟩)
  (horder : SessionOrder h ⟨i, c, op, inp, res, h.shared, s'⟩)
  (hprocess : c.process = h.shared.process)

include heffect in
theorem under_ran {j : ℕ} (hj : UnderWay (h.ran i c op inp res s') j) :
    UnderWay h j ∨ j = i ∧ passes ⟨i, c, op, inp, res, h.shared, s'⟩ = true := by
  obtain ⟨⟨x, hx, hpass, hproc⟩, hopen⟩ := hj
  have hold : ∀ y ∈ h.entriesOf j, refused y = false ∧ enters y = false := fun y hy => hopen y (by
    rw [entriesOf_ran]
    exact List.mem_append_left _ hy)
  rw [Hist.ran, Hist.push_shared, heffect.process] at hproc
  rw [entriesOf_ran] at hx
  rcases List.mem_append.mp hx with hx | hx
  · exact .inl ⟨⟨x, hx, hpass, hproc⟩, hold⟩
  · split_ifs at hx with hij
    · cases List.mem_singleton.mp hx
      exact .inr ⟨hij.symm, hpass⟩
    · cases hx

include heffect in
theorem UnderWay.kept {j : ℕ} (hj : UnderWay h j)
    (hopen : j ≠ i ∨ refused ⟨i, c, op, inp, res, h.shared, s'⟩ = false ∧
      enters ⟨i, c, op, inp, res, h.shared, s'⟩ = false) :
    UnderWay (h.ran i c op inp res s') j := by
  obtain ⟨⟨x, hx, hpass, hproc⟩, hold⟩ := hj
  refine ⟨⟨x, by rw [entriesOf_ran]; exact List.mem_append_left _ hx, hpass, ?_⟩, fun y hy => ?_⟩
  · rw [Hist.ran, Hist.push_shared, heffect.process]
    exact hproc
  · rw [entriesOf_ran] at hy
    rcases List.mem_append.mp hy with hy | hy
    · exact hold y hy
    · split_ifs at hy with hij
      · cases List.mem_singleton.mp hy
        exact hopen.resolve_left fun hne => hne hij.symm
      · cases hy

include hfollows hprocess in
/-- An approval is under way when it issues the credential, and has not issued one before. -/
theorem issue_under {params : DeviceParams} (hop : op = .issue params) :
    UnderWay h i ∧ ∀ e ∈ h.entries, e.thread = i → issues e = false ∧ passes e = true := by
  obtain ⟨x, hown, hpass⟩ := hfollows.issue params hop
  have hx : x ∈ h.entriesOf i := by
    rw [hown]
    exact List.mem_singleton_self _
  have hnot : ∀ y, passes y = true → issues y = false ∧ refused y = false ∧ enters y = false := by
    intro y hy
    obtain ⟨j, d, op, inp, res, s, s'⟩ := y
    cases op with
    | approve => exact ⟨rfl, rfl, rfl⟩
    | init | getSession | request | issue | enter | reject | complete | serialize |
        serializeUnawaited | land => cases hy
  refine ⟨⟨⟨x, hx, hpass, ?_⟩, fun y hy => ?_⟩, fun e he hi => ?_⟩
  · rw [hfollows.same x hx]
    exact hprocess
  · rw [hown] at hy
    cases List.mem_singleton.mp hy
    exact (hnot _ hpass).2
  · have he' : e ∈ h.entriesOf i := mem_entriesOf.mpr ⟨he, hi⟩
    rw [hown] at he'
    cases List.mem_singleton.mp he'
    exact ⟨(hnot _ hpass).1, hpass⟩

include inv heffect horder in
theorem one_ran : ∀ j k, UnderWay (h.ran i c op inp res s') j →
    UnderWay (h.ran i c op inp res s') k → j = k := by
  intro j k hj hk
  rcases under_ran heffect hj with hold | ⟨rfl, hpass⟩ <;>
    rcases under_ran heffect hk with hold' | ⟨rfl, hpass'⟩
  · exact inv.one j k hold hold'
  · exact by_contra fun hne => horder.passed hpass' j hne hold
  · exact by_contra fun hne => horder.passed hpass k (Ne.symm hne) hold'
  · rfl

/-- Where the session in memory comes from: it was settled, or approved while it waited for the
operator, or loaded up to date. -/
inductive Comes (h : PairingHist) (e : PairingEntry) (r' : PairingSessionRecord) : Prop
  | settled (r : PairingSessionRecord) (hr : h.shared.memory = some r)
      (settles : Settles r r' (wrongGuess e)) (open_ : enters e = false)
  | approved (r : PairingSessionRecord) (scopes : List ProtocolScope)
      (issued : IssuedMobileCredential) (hr : h.shared.memory = some r)
      (waits : r.status = .pendingOperatorApproval) (eq : r' = enterApproval scopes issued r)
      (enters : enters e = true) (quiet : Quiet e)
  | loaded (hr : h.shared.stored = some r') (upToDate : UpToDate h r') (op : e.op = .init)

include heffect horder in
theorem comes {r' : PairingSessionRecord} (hr' : s'.memory = some r') :
    Comes h ⟨i, c, op, inp, res, h.shared, s'⟩ r' := by
  rcases heffect.memory r' hr' with ⟨hopen, r, hr, hsettles⟩ | ⟨henters, r, scopes, issued, hr, heq⟩ |
    ⟨hop, hr⟩
  · exact .settled r hr hsettles hopen
  · have hwaits := horder.entered henters
    rw [hr] at hwaits
    exact .approved r scopes issued hr (Option.some.inj hwaits) heq henters (quiet_of_enters henters)
  · exact .loaded hr (horder.loaded hop r' hr) hop

/-- A session that is live was so before, or has been loaded up to date. -/
theorem Comes.live {r' : PairingSessionRecord} (hc : Comes h e r') (hlive : r'.status.isLive = true) :
    (∃ r, h.shared.memory = some r ∧ r.status.isLive = true) ∨ UpToDate h r' ∧ e.op = .init := by
  cases hc with
  | settled r hr settles open_ => exact .inl ⟨r, hr, settles.live hlive⟩
  | approved r scopes issued hr waits eq enters quiet => exact .inl ⟨r, hr, by rw [waits]; rfl⟩
  | loaded hr upToDate op => exact .inr ⟨upToDate, op⟩

include inv heffect horder in
theorem memory_ran : ∀ r', s'.memory = some r' → Snapshot first (h.ran i c op inp res s') r' := by
  intro r' hr'
  cases comes heffect horder hr' with
  | settled r hr settles open_ =>
    have hold : Snapshot first (h.ran i c op inp res s') r := (inv.memory r hr).ran
    exact ⟨settles.secret.trans hold.secret, settles.expiry.trans hold.expiry,
      settles.locked hold.locked, fun happ => hold.approved (settles.approved happ)⟩
  | approved r scopes issued hr waits eq enters quiet =>
    have hold := inv.memory r hr
    subst eq
    refine ⟨hold.secret, hold.expiry, fun hmax => ?_, fun _ => ⟨_, pairingRan_mem, enters⟩⟩
    have := hold.locked hmax
    rw [waits] at this
    cases this
  | loaded hr _ _ => exact (inv.stored r' hr).ran

include inv heffect hfollows in
theorem stored_ran : ∀ r', s'.stored = some r' → Snapshot first (h.ran i c op inp res s') r' := by
  intro r' hr'
  rcases heffect.stored r' hr' with hr | hop
  · exact (inv.stored r' hr).ran
  · obtain ⟨x, hx, hserialized⟩ := hfollows.land r' hop
    exact (inv.serialized x (mem_entriesOf.mp hx).1 r' hserialized).ran

include inv heffect in
theorem serialized_ran : ∀ e ∈ (h.ran i c op inp res s').entries, ∀ r, serializes e = some r →
    Snapshot first (h.ran i c op inp res s') r := by
  intro e he r hr
  rcases mem_pairingRan he with he | rfl
  · exact (inv.serialized e he r hr).ran
  · exact (inv.memory r (heffect.serialized r hr)).ran

include inv heffect hfollows horder hprocess in
theorem openIssued_ran : ∀ r', s'.memory = some r' → r'.status.isOpen = true →
    ∀ e ∈ (h.ran i c op inp res s').entries, issues e = true →
      UnderWay (h.ran i c op inp res s') e.thread := by
  intro r' hr' hopen e he hissues
  rcases mem_pairingRan he with he | rfl
  · cases comes heffect horder hr' with
    | settled r hr settles open_ =>
      have hunder := inv.openIssued r hr (settles.open_ hopen) e he hissues
      refine hunder.kept heffect ?_
      -- an approval that is refused has issued nothing
      cases hrefused : refused ⟨i, c, op, inp, res, h.shared, s'⟩ with
      | false => exact .inr ⟨rfl, open_⟩
      | true =>
        obtain ⟨params, hop⟩ := (refused_op hrefused).1
        refine .inl fun hi => ?_
        rw [((issue_under hfollows hprocess hop).2 e he hi).1] at hissues
        cases hissues
    | approved r scopes issued hr waits eq enters quiet =>
      subst eq
      cases hopen
    | loaded hr upToDate _ =>
      rw [upToDate.issued hopen e he] at hissues
      cases hissues
  · obtain ⟨⟨params, hop⟩, hnot⟩ := issues_op hissues
    exact (issue_under hfollows hprocess hop).1.kept heffect (.inr hnot)

include inv heffect hfollows horder hprocess in
theorem underIssued_ran : ∀ j, UnderWay (h.ran i c op inp res s') j →
    ∀ e ∈ (h.ran i c op inp res s').entries, issues e = true → e.thread = j := by
  intro j hj e he hissues
  rcases mem_pairingRan he with hold | rfl
  · rcases under_ran heffect hj with hj | ⟨rfl, hpass⟩
    · exact inv.underIssued j hj e hold hissues
    · obtain ⟨r, hr, hopen⟩ := heffect.passed hpass
      have hunder := inv.openIssued r hr hopen e hold hissues
      exact by_contra fun hne => horder.passed hpass e.thread hne hunder
  · obtain ⟨⟨params, hop⟩, -⟩ := issues_op hissues
    have hunder := (issue_under hfollows hprocess hop).1
    rcases under_ran heffect hj with hj | ⟨rfl, -⟩
    · exact inv.one i j hunder hj
    · rfl

include inv hfollows in
theorem entered_ran : ∀ e ∈ (h.ran i c op inp res s').entries, enters e = true →
    ∃ x ∈ (h.ran i c op inp res s').entries, issues x = true := by
  intro e he henters
  rcases mem_pairingRan he with he | rfl
  · obtain ⟨x, hx, hissues⟩ := inv.entered e he henters
    exact ⟨x, mem_pairingRan_of hx, hissues⟩
  · obtain ⟨x, y, hown, -, hissues⟩ := hfollows.enter henters
    have hy : y ∈ h.entriesOf i := by
      rw [hown]
      exact List.mem_cons_of_mem _ (List.mem_singleton_self _)
    exact ⟨y, mem_pairingRan_of (mem_entriesOf.mp hy).1, hissues⟩

include inv in
theorem taken_ran (hx : pairingExec sha256 op inp h.shared = some (res, s')) :
    ∀ e ∈ (h.ran i c op inp res s').entries, (takes e).isSome = true →
      ∃ x ∈ (h.ran i c op inp res s').entries, enters x = true := by
  intro e he htakes
  rcases mem_pairingRan he with he | rfl
  · obtain ⟨x, hx, henters⟩ := inv.taken e he htakes
    exact ⟨x, mem_pairingRan_of hx, henters⟩
  · obtain ⟨_, r, -, hr, happ, -⟩ := pairing_takes hx htakes
    obtain ⟨x, hx, henters⟩ := (inv.memory r hr).approved happ
    exact ⟨x, mem_pairingRan_of hx, henters⟩

include inv heffect horder in
theorem untaken_ran : ∀ r', s'.memory = some r' → r'.status.isLive = true →
    ∀ e ∈ (h.ran i c op inp res s').entries, takes e = none := by
  intro r' hr' hlive e he
  rcases mem_pairingRan he with he | rfl
  · rcases (comes heffect horder hr').live hlive with ⟨r, hr, hold⟩ | ⟨hup, -⟩
    · exact inv.untaken r hr hold e he
    · -- a session loaded in this state has nothing taken from it, if it is approved, nor issued
      cases htakes : takes e with
      | none => rfl
      | some credential =>
        exfalso
        obtain ⟨x, hx, henters⟩ := inv.taken e he (by rw [htakes]; rfl)
        obtain ⟨y, hy, hissues⟩ := inv.entered x hx henters
        cases hstatus : r'.status with
        | approved =>
          have := hup.taken hstatus e he
          rw [htakes] at this
          cases this
        | waitingForDevice | pendingOperatorApproval =>
          have := hup.issued (by rw [hstatus]; rfl) y hy
          rw [hissues] at this
          cases this
        | rejected | claimed | expired =>
          rw [hstatus] at hlive
          cases hlive
  · cases htakes : takes ⟨i, c, op, inp, res, h.shared, s'⟩ with
    | none => rfl
    | some credential =>
      have := heffect.closed (.inr (by rw [htakes]; rfl)) r' hr'
      rw [hlive] at this
      cases this

include inv heffect hfollows horder hprocess in
theorem unrejected_ran : ∀ r', s'.memory = some r' → r'.status.isLive = true →
    ∀ e ∈ (h.ran i c op inp res s').entries, returnsRejection e = false := by
  intro r' hr' hlive e he
  have hcomes := (comes heffect horder hr').live hlive
  rcases mem_pairingRan he with he | rfl
  · rcases hcomes with ⟨r, hr, hold⟩ | ⟨hup, -⟩
    · exact inv.unrejected r hr hold e he
    · exact hup.rejected hlive e he
  · rcases hcomes with ⟨r, hr, hold⟩ | ⟨-, hop⟩
    · -- the rejection has closed the session before it put it
      cases hreturns : returnsRejection ⟨i, c, op, inp, res, h.shared, s'⟩ with
      | false => rfl
      | true =>
        obtain ⟨x, hx, hrejects⟩ := hfollows.rejection hreturns
        have hcall := congrArg PairingRequest.process (hfollows.same x hx)
        have := inv.closed x (mem_entriesOf.mp hx).1 hrejects (hcall.trans hprocess) r hr
        rw [hold] at this
        cases this
    · exact (quiet_of_init hop).returnsRejection

include inv heffect in
theorem unloaded_ran (hx : pairingExec sha256 op inp h.shared = some (res, s')) : s'.loaded = false →
    s'.memory = none ∧ ∀ e ∈ (h.ran i c op inp res s').entries, rejects e = true →
      e.call.process ≠ s'.process := by
  intro hloaded
  have hbefore : h.shared.loaded = false := by
    rcases heffect.loaded with h | h
    · exact h.symm.trans hloaded
    · rw [hloaded] at h
      cases h
  obtain ⟨hmemory, hrejects⟩ := inv.unloaded hbefore
  have hproc : s'.process = h.shared.process := heffect.process
  refine ⟨?_, fun e he hr => ?_⟩
  · cases hm : s'.memory with
    | none => rfl
    | some r' =>
      exfalso
      rcases heffect.memory r' hm with ⟨-, r, hr, -⟩ | ⟨-, r, -, -, hr, -⟩ | ⟨hop, -⟩
      · cases hmemory.symm.trans hr
      · cases hmemory.symm.trans hr
      · rw [(init_loads hx hop).2] at hloaded
        cases hloaded
  · rcases mem_pairingRan he with he | rfl
    · rw [hproc]
      exact hrejects e he hr
    · have := heffect.rejected hr
      simp only [hmemory] at this
      cases this

include inv heffect horder in
theorem closed_ran (hx : pairingExec sha256 op inp h.shared = some (res, s')) :
    ∀ e ∈ (h.ran i c op inp res s').entries, rejects e = true →
    e.call.process = s'.process → ∀ r', s'.memory = some r' → r'.status.isLive = false := by
  intro e he hrejects hcurrent r' hr'
  rcases mem_pairingRan he with he | rfl
  · rw [show s'.process = h.shared.process from heffect.process] at hcurrent
    cases hlive : r'.status.isLive with
    | false => rfl
    | true =>
      rcases (comes heffect horder hr').live hlive with ⟨r, hr, hold⟩ | ⟨-, hop⟩
      · have := inv.closed e he hrejects hcurrent r hr
        rw [hold] at this
        cases this
      · exact absurd hcurrent ((inv.unloaded (init_loads hx hop).1).2 e he hrejects)
  · exact heffect.closed (.inl hrejects) r' hr'

include inv heffect horder in
theorem guessed_ran : ∀ r', s'.memory = some r' → r'.status.isLive = true →
    r'.attempts = guesses (h.ran i c op inp res s') := by
  intro r' hr' hlive
  rw [guesses_ran]
  cases comes heffect horder hr' with
  | settled r hr settles open_ =>
    rw [settles.attempts, inv.guessed r hr (settles.live hlive)]
  | approved r scopes issued hr waits eq enters quiet =>
    rw [quiet.wrongGuess, ← inv.guessed r hr (by rw [waits]; rfl), eq]
    rfl
  | loaded hr upToDate op =>
    rw [(quiet_of_init op).wrongGuess, upToDate.attempts hlive]
    rfl

include inv hfollows horder in
theorem late_ran (hx : pairingExec sha256 op inp h.shared = some (res, s')) :
    ∀ e ∈ (h.ran i c op inp res s').entries, (takes e).isSome = true →
      ∀ x ∈ (h.ran i c op inp res s').entries, returnsRejection x = true →
        x ∈ (h.ran i c op inp res s').sinceStart e.thread := by
  intro e he htakes x hx' hreturns
  rcases mem_pairingRan he with he | rfl
  · rw [Hist.sinceStart_append pairingEntries_ran ⟨e, he, rfl⟩]
    rcases mem_pairingRan hx' with hx' | rfl
    · exact List.mem_append_left _ (inv.late e he htakes x hx' hreturns)
    · refine List.mem_append_right _ (List.mem_filter.mpr ⟨List.mem_singleton_self _, ?_⟩)
      -- a thread that completes the pairing is none that rejects it
      refine decide_eq_true fun hi : i = e.thread => ?_
      obtain ⟨secret, hcall⟩ := inv.claims e he htakes
      have hsame : e.call = c := hfollows.same e (mem_entriesOf.mpr ⟨he, hi.symm⟩)
      have hcomplete : c.call = .completePairing secret := hsame ▸ hcall
      simp [returnsRejection, hcomplete] at hreturns
  · exfalso
    obtain ⟨presented, r, hop, hr, happ, -⟩ := pairing_takes hx htakes
    have hunrejected := inv.unrejected r hr (by rw [happ]; rfl)
    rcases mem_pairingRan hx' with hx' | rfl
    · rw [hunrejected x hx'] at hreturns
      cases hreturns
    · subst hop
      cases hreturns

include inv hfollows in
theorem claims_ran : ∀ e ∈ (h.ran i c op inp res s').entries, (takes e).isSome = true →
    ∃ secret, e.call.call = .completePairing secret := by
  intro e he htakes
  rcases mem_pairingRan he with he | rfl
  · exact inv.claims e he htakes
  · exact hfollows.claims htakes

include inv heffect hfollows horder hprocess in
theorem PairingInv.ran (hx : pairingExec sha256 op inp h.shared = some (res, s')) :
    PairingInv first (h.ran i c op inp res s') where
  memory := memory_ran inv heffect horder
  stored := stored_ran inv heffect hfollows
  serialized := serialized_ran inv heffect
  unloaded := unloaded_ran inv heffect hx
  past e he := by
    rw [Hist.ran, Hist.push_shared, show s'.process = h.shared.process from heffect.process]
    rcases mem_pairingRan he with he | rfl
    · exact inv.past e he
    · exact hprocess.le
  claims := claims_ran inv hfollows
  one := one_ran inv heffect horder
  openIssued := openIssued_ran inv heffect hfollows horder hprocess
  underIssued := underIssued_ran inv heffect hfollows horder hprocess
  entered := entered_ran inv hfollows
  taken := taken_ran inv hx
  untaken := untaken_ran inv heffect horder
  unrejected := unrejected_ran inv heffect hfollows horder hprocess
  closed := closed_ran inv heffect horder hx
  guessed := guessed_ran inv heffect horder
  late := late_ran inv hfollows horder hx

end Ran

/-- New calls and crashes: no command, and in memory only what was there. -/
theorem PairingInv.quiet (inv : PairingInv first h)
    {ev : Event PairingOp PairingRes PairingRequest ℕ PairingInput PairingState} {s : PairingState}
    (hentries : (h.push ev s).entries = h.entries) (hstored : s.stored = h.shared.stored)
    (hmemory : s = h.shared ∨ s.memory = none ∧ s.loaded = false ∧ h.shared.process < s.process) :
    PairingInv first (h.push ev s) := by
  have hunder : ∀ {j}, UnderWay (h.push ev s) j → s = h.shared ∧ UnderWay h j := by
    rintro j ⟨⟨x, hx, hpass, hproc⟩, hopen⟩
    rw [Hist.entriesOf, hentries, ← Hist.entriesOf] at hx hopen
    rcases hmemory with rfl | ⟨-, -, hlt⟩
    · exact ⟨rfl, ⟨x, hx, hpass, hproc⟩, hopen⟩
    · have := inv.past x (mem_entriesOf.mp hx).1
      rw [Hist.push_shared] at hproc
      omega
  have hback : s = h.shared → ∀ {j}, UnderWay h j → UnderWay (h.push ev s) j := by
    rintro rfl j ⟨⟨x, hx, hpass, hproc⟩, hopen⟩
    refine ⟨⟨x, ?_, hpass, hproc⟩, ?_⟩ <;> rw [Hist.entriesOf, hentries, ← Hist.entriesOf]
    · exact hx
    · exact hopen
  have hkept : ∀ r, s.memory = some r → s = h.shared := by
    rintro r hr
    rcases hmemory with rfl | ⟨hnone, -⟩
    · rfl
    · cases hnone.symm.trans hr
  have hsnapshot : ∀ {r}, Snapshot first h r → Snapshot first (h.push ev s) r := by
    rintro r ⟨hsecret, hexpiry, hlocked, happ⟩
    exact ⟨hsecret, hexpiry, hlocked, by rwa [hentries]⟩
  constructor
  · exact fun r hr => hsnapshot (inv.memory r (hkept r hr ▸ hr))
  · exact fun r hr => hsnapshot (inv.stored r (hstored ▸ hr))
  · rw [hentries]
    exact fun e he r hr => hsnapshot (inv.serialized e he r hr)
  · rw [hentries]
    intro hloaded
    rcases hmemory with rfl | ⟨hnone, -, hlt⟩
    · exact inv.unloaded hloaded
    · exact ⟨hnone, fun e he _ => ((inv.past e he).trans_lt hlt).ne⟩
  · rw [hentries]
    intro e he
    rcases hmemory with rfl | ⟨-, -, hlt⟩
    · exact inv.past e he
    · exact (inv.past e he).trans hlt.le
  · rw [hentries]
    exact inv.claims
  · exact fun i j hi hj => inv.one i j (hunder hi).2 (hunder hj).2
  · rw [hentries]
    intro r hr hopen e he hissues
    exact hback (hkept r hr) (inv.openIssued r (hkept r hr ▸ hr) hopen e he hissues)
  · rw [hentries]
    exact fun i hi => inv.underIssued i (hunder hi).2
  · rw [hentries]
    exact inv.entered
  · rw [hentries]
    exact inv.taken
  · rw [hentries]
    exact fun r hr => inv.untaken r (hkept r hr ▸ hr)
  · rw [hentries]
    exact fun r hr => inv.unrejected r (hkept r hr ▸ hr)
  · rw [hentries]
    intro e he hrejects hproc r hr
    exact inv.closed e he hrejects (hkept r hr ▸ hproc) r (hkept r hr ▸ hr)
  · intro r hr hlive
    rw [guesses, hentries, ← guesses]
    exact inv.guessed r (hkept r hr ▸ hr) hlive
  · simp only [Hist.sinceStart, hentries]
    exact inv.late

theorem pairingInv_start (hlocked : first.attempts < maxPairingAttempts)
    (happroved : first.status = .waitingForDevice) (hattempts : first.attempts = 0) :
    PairingInv first ⟨[], .created first⟩ := by
  have hnone : ∀ j, ¬ UnderWay ⟨[], .created first⟩ j := by
    rintro j ⟨⟨x, hx, -⟩, -⟩
    cases hx
  refine ⟨fun r hr => ?_, fun r hr => (by cases hr), fun _ he => (by cases he), fun h => (by cases h),
    fun _ he => (by cases he), fun _ he => (by cases he), fun i _ hi => absurd hi (hnone i),
    fun _ _ _ _ he => (by cases he), fun i hi => absurd hi (hnone i), fun _ he => (by cases he),
    fun _ he => (by cases he), fun _ _ _ _ he => (by cases he), fun _ _ _ _ he => (by cases he),
    fun _ he => (by cases he), fun r hr _ => ?_, fun _ he => (by cases he)⟩
  · cases hr
    exact ⟨rfl, rfl, fun h => absurd hlocked (not_lt.mpr h), fun h => by rw [happroved] at h; cases h⟩
  · cases hr
    exact hattempts

end Invariant

end Wazir.Api
