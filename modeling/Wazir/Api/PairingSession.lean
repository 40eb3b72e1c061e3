import Wazir.Api.DeviceCredentials
import Wazir.Shared.Strings

/-! A pairing session (`apps/api/src/mobile/pairingService.ts`): one record that requests, the
operator's decision and the claim all change, kept in memory and put into a store that a restarted
process loads. What runs between two awaits is one command. A put serializes the record when the
store comes to it and lands later. -/

namespace Wazir.Api

open Wazir.Async

inductive PairingStatus where
  | waitingForDevice
  | pendingOperatorApproval
  | approved
  | rejected
  | claimed
  | expired
  deriving DecidableEq

def PairingStatus.text : PairingStatus → String
  | waitingForDevice => "waiting_for_device"
  | pendingOperatorApproval => "pending_operator_approval"
  | approved => "approved"
  | rejected => "rejected"
  | claimed => "claimed"
  | expired => "expired"

structure DeviceRequest where
  deviceId : String
  deviceName : String
  deviceModel : Option String
  osVersion : Option String
  publicKeyFingerprint : Option String
  requestedAt : String

/-- `issuedCredential` of a session. -/
structure SessionCredential where
  deviceId : String
  accessToken : String
  refreshToken : String
  expiresAt : ℤ
  scopes : List ProtocolScope

/-- A session without its secrets. -/
structure PairingSession where
  sessionId : String
  createdAt : String
  expiresAt : ℤ
  status : PairingStatus
  attempts : ℕ
  scopes : List ProtocolScope
  controllerUrl : Option String
  tlsCertFingerprint : Option String
  confirmationCode : Option String
  deviceRequest : Option DeviceRequest

structure PairingSessionRecord extends PairingSession where
  secretHash : String
  issuedCredential : Option SessionCredential

/-- `PAIRING_TTL_MS` -/
def pairingTtlMs : ℤ := 5 * 60 * 1000

/-- `MAX_PAIRING_ATTEMPTS` -/
def maxPairingAttempts : ℕ := 3

/-- The parameters of `createSession`. -/
structure SessionParams where
  scopes : Option (List ProtocolScope)
  controllerUrl : Option String
  tlsCertFingerprint : Option String
  ttlMs : Option ℤ

/-- The parameters of `requestPairing`. -/
structure RequestParams where
  pairingSecret : String
  deviceId : Option String
  deviceName : String
  deviceModel : Option String
  osVersion : Option String
  publicKeyFingerprint : Option String

/-- The parameters of `approveSession`. -/
structure ApproveParams where
  confirmationCode : Option String
  scopes : Option (List ProtocolScope)

/-- `slice(0, n)`, which here leaves out half a pair of surrogates. -/
def cutText (n : ℕ) (s : String) : String :=
  String.ofList (go n s.toList)
where
  go (n : ℕ) : List Char → List Char
    | [] => []
    | c :: cs =>
      let size := if c.val < 0x10000 then 1 else 2
      if size ≤ n then c :: go (n - size) cs else []

/-- `/^[A-Za-z0-9._-]{4,64}$/` -/
def isDeviceId (s : String) : Bool :=
  4 ≤ s.length && s.length ≤ 64 &&
    s.toList.all fun c => c.isAlphanum || c = '.' || c = '_' || c = '-'

/-- `replace(/[^0-9]/g, '')` -/
def digitsOf (s : String) : String := String.ofList (s.toList.filter fun c => c.isDigit)

/-- Six digits of a random number, in two groups. -/
def confirmationText (num : ℕ) : String :=
  let digits := padded 6 (num % 1000000)
  String.ofList (digits.toList.take 3) ++ "-" ++ String.ofList ((digits.toList.drop 3).take 3)

def nonEmptyScopes (scopes : Option (List ProtocolScope)) (otherwise : List ProtocolScope) :
    List ProtocolScope :=
  match scopes with
  | some (scope :: rest) => scope :: rest
  | _ => otherwise

inductive PairingReply where
  | failed (status : ℕ) (code error : String)
  | requested (sessionId confirmationCode : String) (expiresAt : ℤ)
  | approved (deviceId : String) (scopes : List ProtocolScope)
  | rejected (known : Bool)
  | pending (confirmationCode : Option String) (expiresAt : ℤ)
  | tokens (credential : SessionCredential)
  | session (view : Option PairingSession)
  | done

/-- A reply, and whether the session is put before it is given. -/
structure Answered where
  reply : PairingReply
  puts : Bool

inductive ApproveStep where
  | answered (answer : Answered)
  /-- The credential to issue, and its scopes. -/
  | passed (params : DeviceParams) (scopes : List ProtocolScope)

inductive CompleteStep where
  | answered (answer : Answered)
  | taken (credential : SessionCredential)

/-- The session in memory, once the process has loaded it, the session in the store, and the puts
that nobody waits for. -/
structure PairingState where
  process : ℕ
  loaded : Bool
  memory : Option PairingSessionRecord
  stored : Option PairingSessionRecord
  unawaited : ℕ

inductive PairingOp where
  | init
  | getSession
  /-- `requestPairing` up to its put. -/
  | request (params : RequestParams)
  /-- `approveSession` up to the issuing of the credential. -/
  | approve (params : ApproveParams)
  /-- `issueMobileDeviceCredential` -/
  | issue (params : DeviceParams)
  /-- What `approveSession` writes once the credential is issued. -/
  | enter (scopes : List ProtocolScope) (issued : IssuedMobileCredential)
  /-- `rejectSession` up to its put. -/
  | reject
  /-- `completePairing` up to its put. -/
  | complete (pairingSecret : String)
  /-- A put comes to serialize the session. -/
  | serialize
  /-- So does one that nobody waits for. -/
  | serializeUnawaited
  /-- The serialized session is in the store. -/
  | land (record : PairingSessionRecord)

abbrev PairingRes : PairingOp → Type
  | .init => Unit
  | .getSession => Option PairingSession
  | .request _ => Answered
  | .approve _ => ApproveStep
  | .issue _ => Except String IssuedMobileCredential
  | .enter _ _ => Unit
  | .reject => Bool
  | .complete _ => CompleteStep
  | .serialize => PairingSessionRecord
  | .serializeUnawaited => PairingSessionRecord
  | .land _ => Except String Unit

/-- The clock, as the sweep, the check and the stamp read it, random values, what issuing a
credential comes to, and the fault of a put, which may have `written` all the same. -/
structure PairingInput where
  sweptAt : Timestamp
  now : Timestamp
  stamp : Timestamp
  num : ℕ
  uuid : String
  issued : Except String IssuedMobileCredential
  fault : Option String
  written : Bool

def PairingInput.lands (inp : PairingInput) : Bool := inp.fault.isNone || inp.written

/-- The session that `createSession` makes. -/
def createdSession (sha256 : String → String) (params : SessionParams) (uuid pairingSecret : String)
    (nowMs : ℤ) (nowIso : String) : PairingSessionRecord where
  sessionId := "pair-" ++ uuid
  secretHash := sha256 pairingSecret
  createdAt := nowIso
  expiresAt := nowMs + params.ttlMs.getD pairingTtlMs
  status := .waitingForDevice
  attempts := 0
  scopes := nonEmptyScopes params.scopes [.read, .mutate]
  controllerUrl := params.controllerUrl
  tlsCertFingerprint := params.tlsCertFingerprint
  confirmationCode := none
  deviceRequest := none
  issuedCredential := none

/-- Its put is under way. -/
def PairingState.created (record : PairingSessionRecord) : PairingState :=
  ⟨0, true, some record, none, 1⟩

section Blocks

variable (sha256 : String → String)

def safeEqualHex (a b : String) : Bool := sha256 a = sha256 b

/-- A session that `sweepExpired` finds expired. -/
def PairingSessionRecord.overdue (session : PairingSessionRecord) (nowMs : ℤ) : Bool :=
  (session.status = .waitingForDevice || session.status = .pendingOperatorApproval) &&
    session.expiresAt ≤ nowMs

def PairingSessionRecord.expire (session : PairingSessionRecord) : PairingSessionRecord :=
  { session with status := .expired }

def PairingState.sweep (s : PairingState) (nowMs : ℤ) : PairingState :=
  if s.memory.any fun session => session.overdue nowMs then
    { s with memory := s.memory.map PairingSessionRecord.expire, unawaited := s.unawaited + 1 }
  else s

/-- A wrong guess. -/
def PairingSessionRecord.missed (session : PairingSessionRecord) : PairingSessionRecord :=
  { session with
    attempts := session.attempts + 1
    status := if maxPairingAttempts ≤ session.attempts + 1 then .expired else session.status }

def notFound : PairingReply := .failed 404 "PAIRING_SESSION_NOT_FOUND" "Pairing session not found"

def sessionExpired : PairingReply := .failed 410 "PAIRING_SESSION_EXPIRED" "Pairing session has expired"

def invalidSecret : PairingReply := .failed 401 "INVALID_PAIRING_SECRET" "Invalid pairing secret"

def codeMismatch : PairingReply :=
  .failed 403 "CONFIRMATION_CODE_MISMATCH" "Confirmation code does not match"

def requestedDevice (params : RequestParams) (uuid stampIso : String) : DeviceRequest where
  deviceId :=
    match params.deviceId with
    | some deviceId => if isDeviceId deviceId then deviceId else "dev-" ++ uuid
    | none => "dev-" ++ uuid
  deviceName :=
    let deviceName := cutText 80 (trim params.deviceName)
    if deviceName = "" then "Android Device" else deviceName
  deviceModel := params.deviceModel.map (cutText 80)
  osVersion := params.osVersion.map (cutText 40)
  publicKeyFingerprint := params.publicKeyFingerprint.map (cutText 128)
  requestedAt := stampIso

def requestSession (params : RequestParams) (nowMs : ℤ) (num : ℕ) (uuid stampIso : String)
    (session : PairingSessionRecord) : Answered × PairingSessionRecord :=
  if session.status = .expired ∨ session.expiresAt ≤ nowMs then
    (⟨sessionExpired, true⟩, session.expire)
  else if maxPairingAttempts ≤ session.attempts then
    (⟨.failed 429 "PAIRING_BRUTE_FORCE_LOCKED"
      "Pairing session invalidated due to too many failed attempts", true⟩, session.expire)
  else if session.status ≠ .waitingForDevice then
    (⟨.failed 409 "PAIRING_SESSION_ALREADY_USED"
      ("Pairing session is already in state '" ++ session.status.text ++ "'"), false⟩, session)
  else if !safeEqualHex sha256 session.secretHash (sha256 params.pairingSecret) then
    (⟨invalidSecret, true⟩, session.missed)
  else
    let confirmationCode := confirmationText num
    (⟨.requested session.sessionId confirmationCode session.expiresAt, true⟩,
      { session with
        status := .pendingOperatorApproval
        confirmationCode := some confirmationCode
        deviceRequest := some (requestedDevice params uuid stampIso) })

def codeMatches (session : PairingSessionRecord) : Option String → Bool
  | none => true
  | some code =>
    let normalizedExpected := digitsOf (session.confirmationCode.getD "")
    normalizedExpected ≠ "" && safeEqualHex sha256 normalizedExpected (digitsOf code)

def approveSession (params : ApproveParams) (session : PairingSessionRecord) :
    ApproveStep × PairingSessionRecord :=
  match session.status, session.deviceRequest with
  | .pendingOperatorApproval, some deviceRequest =>
    if !codeMatches sha256 session params.confirmationCode then
      (.answered ⟨codeMismatch, true⟩, session.missed)
    else
      let scopes := nonEmptyScopes params.scopes session.scopes
      (.passed ⟨deviceRequest.deviceId, deviceRequest.deviceName, deviceRequest.deviceModel,
        deviceRequest.osVersion, deviceRequest.publicKeyFingerprint, scopes, none⟩ scopes, session)
  | status, _ => (.answered ⟨.failed 409 "PAIRING_NOT_PENDING_APPROVAL"
      ("Pairing session cannot be approved in state '" ++ status.text ++ "'"), false⟩, session)

def enterApproval (scopes : List ProtocolScope) (issued : IssuedMobileCredential)
    (session : PairingSessionRecord) : PairingSessionRecord :=
  { session with
    status := .approved
    scopes := scopes
    issuedCredential := some ⟨issued.deviceId, issued.accessToken, issued.refreshToken,
      issued.expiresAt, issued.scopes⟩ }

def rejectedSession (session : PairingSessionRecord) : PairingSessionRecord :=
  { session with status := .rejected, issuedCredential := none }

def completeSession (pairingSecret : String) (nowMs : ℤ) (session : PairingSessionRecord) :
    CompleteStep × PairingSessionRecord :=
  if !safeEqualHex sha256 session.secretHash (sha256 pairingSecret) then
    (.answered ⟨invalidSecret, true⟩, session.missed)
  else if session.status = .claimed then
    (.answered ⟨.failed 409 "PAIRING_SESSION_ALREADY_CLAIMED"
      "Pairing credential has already been claimed (replay rejected)", false⟩, session)
  else if session.status = .rejected then
    (.answered ⟨.failed 403 "PAIRING_REJECTED" "Pairing request was rejected by the operator",
      false⟩, session)
  else if session.status = .expired ∨ session.expiresAt ≤ nowMs then
    (.answered ⟨sessionExpired, false⟩, session)
  else if session.status = .pendingOperatorApproval then
    (.answered ⟨.pending session.confirmationCode session.expiresAt, false⟩, session)
  else
    match session.status, session.issuedCredential with
    | .approved, some credential =>
      (.taken credential, { session with status := .claimed, issuedCredential := none })
    | status, _ => (.answered ⟨.failed 409 "PAIRING_INVALID_STATE"
        ("Unexpected pairing state '" ++ status.text ++ "'"), false⟩, session)

/-- What a call does to the session, after the sweep, when there is one. -/
def onSession {α : Type} (missing : α) (block : PairingSessionRecord → α × PairingSessionRecord)
    (s : PairingState) : α × PairingState :=
  match s.memory with
  | none => (missing, s)
  | some session => ((block session).1, { s with memory := some (block session).2 })

def pairingExec (op : PairingOp) (inp : PairingInput) (s : PairingState) :
    Option (PairingRes op × PairingState) :=
  match op with
  | .init =>
    if s.loaded then none
    else some ((), { s with
      loaded := true
      memory := s.stored.filter fun session => session.sessionId ≠ "" })
  | .getSession =>
    let s := s.sweep inp.sweptAt.1
    some (s.memory.map fun session => session.toPairingSession, s)
  | .request params => some (onSession ⟨notFound, false⟩
      (requestSession sha256 params inp.now.1 inp.num inp.uuid (isoText inp.stamp))
      (s.sweep inp.sweptAt.1))
  | .approve params => some (onSession (.answered ⟨notFound, false⟩)
      (approveSession sha256 params) (s.sweep inp.sweptAt.1))
  | .issue _ => some (inp.issued, s)
  | .enter scopes issued =>
    some ((), { s with memory := s.memory.map (enterApproval scopes issued) })
  | .reject => some (onSession false (fun session => (true, rejectedSession session)) s)
  | .complete pairingSecret => some (onSession (.answered ⟨notFound, false⟩)
      (completeSession sha256 pairingSecret inp.now.1) (s.sweep inp.sweptAt.1))
  | .serialize => s.memory.map fun session => (session, s)
  | .serializeUnawaited =>
    if s.unawaited = 0 then none
    else s.memory.map fun session => (session, { s with unawaited := s.unawaited - 1 })
  | .land record =>
    some (guarded inp.fault (), if inp.lands then { s with stored := some record } else s)

end Blocks

abbrev PairingProg := Prog PairingOp PairingRes String

namespace MobilePairingService

/-- `this.state.store.put` of the session -/
def put : PairingProg Unit := .call .serialize fun record => .call (.land record) .resume

def answer (a : Answered) : PairingProg PairingReply := do
  if a.puts then put
  return a.reply

def requestPairing (params : RequestParams) : PairingProg PairingReply :=
  .call (.request params) answer

def approveSession (params : ApproveParams) : PairingProg PairingReply :=
  .call (.approve params) fun
    | .answered a => answer a
    | .passed deviceParams scopes => do
      let issued ← (.call (.issue deviceParams) .resume : PairingProg IssuedMobileCredential)
      (.call (.enter scopes issued) .ret : PairingProg Unit)
      put
      return .approved issued.deviceId issued.scopes

def rejectSession : PairingProg PairingReply :=
  .call .reject fun known => do
    if known then put
    return .rejected known

def completePairing (pairingSecret : String) : PairingProg PairingReply :=
  .call (.complete pairingSecret) fun
    | .answered a => answer a
    | .taken credential => do
      put
      return .tokens credential

def getSession : PairingProg PairingReply := .call .getSession fun view => .ret (.session view)

def init : PairingProg PairingReply := .call .init fun _ => .ret .done

/-- A put that nobody waits for, and whose fault is dropped. -/
def unawaitedPut : PairingProg PairingReply :=
  .call .serializeUnawaited fun record => .call (.land record) fun _ => .ret .done

end MobilePairingService

inductive PairingCall where
  | init
  | getSession
  | requestPairing (params : RequestParams)
  | approveSession (params : ApproveParams)
  | rejectSession
  | completePairing (pairingSecret : String)
  | unawaitedPut

/-- A call on the `MobilePairingService` of a process. -/
structure PairingRequest where
  process : ℕ
  call : PairingCall

def PairingRequest.body (c : PairingRequest) : PairingProg PairingReply :=
  match c.call with
  | .init => MobilePairingService.init
  | .getSession => MobilePairingService.getSession
  | .requestPairing params => MobilePairingService.requestPairing params
  | .approveSession params => MobilePairingService.approveSession params
  | .rejectSession => MobilePairingService.rejectSession
  | .completePairing pairingSecret => MobilePairingService.completePairing pairingSecret
  | .unawaitedPut => MobilePairingService.unawaitedPut

/-- The next process has to load what is stored. -/
def PairingState.restart (s : PairingState) (process : ℕ) : PairingState :=
  if process = s.process then ⟨s.process + 1, false, none, s.stored, 0⟩ else s

abbrev pairingSystem (sha256 : String → String) :
    System PairingOp PairingRes String PairingReply PairingRequest ℕ PairingInput PairingState where
  body := PairingRequest.body
  proc := PairingRequest.process
  exec := pairingExec sha256
  admits c s := if c.process = s.process then some s else none
  crash process s := s.restart process

abbrev PairingEntry := Entry PairingOp PairingRes PairingRequest PairingInput PairingState
abbrev PairingHist := Hist PairingOp PairingRes PairingRequest ℕ PairingInput PairingState
abbrev PairingConfig :=
  Config PairingOp PairingRes String PairingReply PairingRequest ℕ PairingInput PairingState

end Wazir.Api
