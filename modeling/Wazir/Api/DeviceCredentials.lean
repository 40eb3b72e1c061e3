import Wazir.Async.RelyGuarantee
import Wazir.Shared.Dates
import Wazir.Shared.Values

/-! The credentials of mobile devices (`apps/api/src/auth.ts`): issued, rotated, revoked and
matched in memory, and kept in a store that a restarted process loads. What runs between two awaits
is one command. -/

namespace Wazir.Api

open Wazir.Async

inductive ProtocolScope where
  | read
  | mutate
  | execute
  deriving DecidableEq

/-- A device's record without its hashes. -/
structure MobileDevice where
  deviceId : String
  deviceName : String
  deviceModel : Option String
  osVersion : Option String
  publicKeyFingerprint : Option String
  scopes : List ProtocolScope
  createdAt : String
  updatedAt : String
  expiresAt : ℤ
  lastSeenAt : Option String
  revoked : Bool
  revokedAt : Option String

structure MobileDeviceRecord extends MobileDevice where
  tokenHash : String
  refreshTokenHash : String

structure IssuedMobileCredential where
  deviceId : String
  accessToken : String
  refreshToken : String
  expiresAt : ℤ
  scopes : List ProtocolScope
  device : MobileDevice

/-- The parameters of `issueMobileDeviceCredential`. -/
structure DeviceParams where
  deviceId : String
  deviceName : String
  deviceModel : Option String
  osVersion : Option String
  publicKeyFingerprint : Option String
  scopes : List ProtocolScope
  ttlMs : Option ℤ

/-- `DEFAULT_MOBILE_TOKEN_TTL_MS` -/
def defaultMobileTokenTtlMs : ℤ := 7 * 24 * 60 * 60 * 1000

/-- Random bytes, as the hex text of the `n`-th draw, and the digest. -/
structure Secrets where
  randomHex : ℕ → String
  sha256 : String → String

def Secrets.accessToken (secrets : Secrets) (n : ℕ) : String :=
  "mob_at_" ++ secrets.randomHex (2 * n)

def Secrets.refreshToken (secrets : Secrets) (n : ℕ) : String :=
  "mob_rt_" ++ secrets.randomHex (2 * n + 1)

/-- `Map.prototype.set` under the device's id. -/
def setDevice (devices : List MobileDeviceRecord) (record : MobileDeviceRecord) :
    List MobileDeviceRecord :=
  if devices.any fun r => r.deviceId = record.deviceId then
    devices.map fun r => if r.deviceId = record.deviceId then record else r
  else devices ++ [record]

def getDevice (devices : List MobileDeviceRecord) (deviceId : String) :
    Option MobileDeviceRecord :=
  devices.find? fun r => r.deviceId = deviceId

/-- The store, the memory of the present process, and how many credentials have been drawn. -/
structure AuthState where
  process : ℕ
  memory : List MobileDeviceRecord
  stored : List MobileDeviceRecord
  drawn : ℕ

def AuthState.start : AuthState := ⟨0, [], [], 0⟩

inductive AuthOp where
  /-- `issueMobileDeviceCredential` up to its put. -/
  | issue (params : DeviceParams)
  /-- `rotateMobileDeviceCredential` up to its put. -/
  | rotate (refreshToken : String) (ttlMs : ℤ)
  /-- `revokeMobileDevice` up to its put. -/
  | revoke (deviceId : String)
  | matchDevice (presented : String)
  | put (record : MobileDeviceRecord)
  /-- `this.mobileDevices.set(deviceId, record)` after the put. -/
  | install (record : MobileDeviceRecord)

/-- A drawn credential: the record to store, and the tokens. -/
structure Drawn where
  record : MobileDeviceRecord
  accessToken : String
  refreshToken : String

def Drawn.issued (d : Drawn) : IssuedMobileCredential :=
  ⟨d.record.deviceId, d.accessToken, d.refreshToken, d.record.expiresAt, d.record.scopes,
    d.record.toMobileDevice⟩

abbrev AuthRes : AuthOp → Type
  | .issue _ => Drawn
  | .rotate _ _ => Option Drawn
  | .revoke _ => Option MobileDeviceRecord
  | .matchDevice _ => Option MobileDeviceRecord
  | .put _ => Except String Unit
  | .install _ => Unit

/-- A put that fails may have `written` all the same. -/
structure AuthInput where
  now : Timestamp
  fault : Option String
  written : Bool

def AuthInput.lands (inp : AuthInput) : Bool := inp.fault.isNone || inp.written

section Blocks

variable (secrets : Secrets)

def issueDevice (params : DeviceParams) (nowMs : ℤ) (nowIso : String) (s : AuthState) : Drawn :=
  let accessToken := secrets.accessToken s.drawn
  let refreshToken := secrets.refreshToken s.drawn
  let scopes := if params.scopes.isEmpty then [.read, .mutate] else params.scopes
  ⟨{ deviceId := params.deviceId
     deviceName := params.deviceName
     deviceModel := params.deviceModel
     osVersion := params.osVersion
     publicKeyFingerprint := params.publicKeyFingerprint
     scopes := scopes
     createdAt := ((getDevice s.memory params.deviceId).map fun r => r.createdAt).getD nowIso
     updatedAt := nowIso
     expiresAt := nowMs + params.ttlMs.getD defaultMobileTokenTtlMs
     lastSeenAt := some nowIso
     revoked := false
     revokedAt := none
     tokenHash := secrets.sha256 accessToken
     refreshTokenHash := secrets.sha256 refreshToken }, accessToken, refreshToken⟩

/-- The last record that a refresh token belongs to. -/
def matchedRefresh (refreshToken : String) (nowMs : ℤ) (s : AuthState) :
    Option MobileDeviceRecord :=
  (s.memory.filter fun r => !r.revoked && r.revokedAt.isNone && nowMs < r.expiresAt &&
    r.refreshTokenHash = secrets.sha256 refreshToken).getLast?

def rotateDevice (matched : MobileDeviceRecord) (ttlMs nowMs : ℤ) (nowIso : String)
    (s : AuthState) : Drawn :=
  let accessToken := secrets.accessToken s.drawn
  let nextRefreshToken := secrets.refreshToken s.drawn
  ⟨{ matched with
     tokenHash := secrets.sha256 accessToken
     refreshTokenHash := secrets.sha256 nextRefreshToken
     updatedAt := nowIso
     lastSeenAt := some nowIso
     expiresAt := nowMs + ttlMs }, accessToken, nextRefreshToken⟩

def revokedRecord (existing : MobileDeviceRecord) (nowIso : String) : MobileDeviceRecord :=
  { existing with revoked := true, revokedAt := some nowIso, updatedAt := nowIso }

def seenRecord (matched : MobileDeviceRecord) (nowIso : String) : MobileDeviceRecord :=
  { matched with lastSeenAt := some nowIso }

def matchedAccess (presented : String) (nowMs : ℤ) (s : AuthState) :
    Option MobileDeviceRecord :=
  (s.memory.filter fun r => !r.revoked && nowMs < r.expiresAt &&
    r.tokenHash = secrets.sha256 presented).getLast?

def authExec (op : AuthOp) (inp : AuthInput) (s : AuthState) : Option (AuthRes op × AuthState) :=
  match op with
  | .issue params => some (issueDevice secrets params inp.now.1 (isoText inp.now) s, { s with drawn := s.drawn + 1 })
  | .rotate refreshToken ttlMs =>
    if refreshToken = "" then some (none, s)
    else
      match matchedRefresh secrets refreshToken inp.now.1 s with
      | none => some (none, s)
      | some matched =>
        some (some (rotateDevice secrets matched ttlMs inp.now.1 (isoText inp.now) s),
          { s with drawn := s.drawn + 1 })
  | .revoke deviceId =>
    match getDevice s.memory deviceId with
    | none => some (none, s)
    | some existing =>
      let record := revokedRecord existing (isoText inp.now)
      some (some record, { s with memory := setDevice s.memory record })
  | .matchDevice presented =>
    if presented = "" then some (none, s)
    else
      match matchedAccess secrets presented inp.now.1 s with
      | none => some (none, s)
      | some matched =>
        let seen := seenRecord matched (isoText inp.now)
        some (some seen, { s with memory := setDevice s.memory seen })
  | .put record =>
    some (guarded inp.fault (),
      if inp.lands then { s with stored := setDevice s.stored record } else s)
  | .install record => some ((), { s with memory := setDevice s.memory record })

end Blocks

abbrev AuthProg := Prog AuthOp AuthRes String

namespace ApiAuth

/-- The put of a drawn credential and what follows it. -/
def store (drawn : Drawn) : AuthProg IssuedMobileCredential := do
  (.call (.put drawn.record) .resume : AuthProg Unit)
  (.call (.install drawn.record) .ret : AuthProg Unit)
  return drawn.issued

def issueMobileDeviceCredential (params : DeviceParams) : AuthProg IssuedMobileCredential :=
  .call (.issue params) store

def rotateMobileDeviceCredential (refreshToken : String) (ttlMs : ℤ) :
    AuthProg (Option IssuedMobileCredential) :=
  .call (.rotate refreshToken ttlMs) fun
    | none => .ret none
    | some drawn => some <$> store drawn

def revokeMobileDevice (deviceId : String) : AuthProg Bool :=
  .call (.revoke deviceId) fun
    | none => .ret false
    | some record => do
      (.call (.put record) .resume : AuthProg Unit)
      return true

def matchMobileDevice (presented : String) : AuthProg (Option MobileDeviceRecord) :=
  .call (.matchDevice presented) .ret

end ApiAuth

inductive AuthCall where
  | issue (params : DeviceParams)
  | rotate (refreshToken : String) (ttlMs : ℤ)
  | revoke (deviceId : String)
  | matchDevice (presented : String)

/-- A call on the `ApiAuth` of a process. -/
structure AuthRequest where
  process : ℕ
  call : AuthCall

inductive AuthReply where
  | issued (credential : Option IssuedMobileCredential)
  | revoked (known : Bool)
  | device (record : Option MobileDeviceRecord)

def AuthRequest.body (c : AuthRequest) : AuthProg AuthReply :=
  match c.call with
  | .issue params => (AuthReply.issued ∘ some) <$> ApiAuth.issueMobileDeviceCredential params
  | .rotate refreshToken ttlMs =>
    AuthReply.issued <$> ApiAuth.rotateMobileDeviceCredential refreshToken ttlMs
  | .revoke deviceId => AuthReply.revoked <$> ApiAuth.revokeMobileDevice deviceId
  | .matchDevice presented => AuthReply.device <$> ApiAuth.matchMobileDevice presented

/-- What `init` loads; a digest is never empty. -/
def AuthState.loaded (s : AuthState) : List MobileDeviceRecord :=
  s.stored.filter fun r => r.deviceId ≠ ""

/-- The start of the next process, once the present one is gone. -/
def AuthState.restart (s : AuthState) (process : ℕ) : AuthState :=
  if process = s.process then { s with process := s.process + 1, memory := s.loaded } else s

abbrev authSystem (secrets : Secrets) :
    System AuthOp AuthRes String AuthReply AuthRequest ℕ AuthInput AuthState where
  body := AuthRequest.body
  proc := AuthRequest.process
  exec := authExec secrets
  admits c s := if c.process = s.process then some s else none
  crash process s := s.restart process

abbrev AuthEntry := Entry AuthOp AuthRes AuthRequest AuthInput AuthState
abbrev AuthHist := Hist AuthOp AuthRes AuthRequest ℕ AuthInput AuthState
abbrev AuthConfig := Config AuthOp AuthRes String AuthReply AuthRequest ℕ AuthInput AuthState

end Wazir.Api
