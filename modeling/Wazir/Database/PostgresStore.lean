import Wazir.Async.Local
import Wazir.Shared.JsValue

/-! The PostgreSQL store (`database/src/postgresStore.ts`) as one key sees it. Every SQL statement
is one command; statements outside a transaction commit at once. A statement that fails, a `COMMIT`
included, is taken to have no effect. -/

namespace Wazir.Database

open Wazir.Async JsValue

/-- A connection taken from the pool of a client. -/
structure Session where
  client : ℕ
  number : ℕ
  deriving DecidableEq

/-- The row of the key: its committed value, the version an open transaction has written, the
holder of the key's advisory lock, and how many connections have been taken so far. -/
structure Row where
  committed : Option JsValue
  written : Option (Session × JsValue)
  locked : Option Session
  sessions : ℕ

def Row.start (committed : Option JsValue) : Row := ⟨committed, none, none, 0⟩

/-- What a session has written and not yet committed. -/
def Row.own (row : Row) (s : Session) : Option JsValue :=
  row.written.bind fun w => if w.1 = s then some w.2 else none

inductive Statement where
  | connect (client : ℕ)
  | begin (s : Session)
  /-- `SELECT pg_advisory_xact_lock(hashtextextended($1, 0))` -/
  | lock (s : Session)
  | selectIn (s : Session)
  /-- The parameter is null for a value that has no JSON text. -/
  | upsertIn (s : Session) (value : Option JsValue)
  | commit (s : Session)
  | rollback (s : Session)
  | select
  | upsert (value : Option JsValue)
  | delete

abbrev StatementRes : Statement → Type
  | .connect _ => Except String Session
  | .begin _ => Except String Unit
  | .lock _ => Except String Unit
  | .selectIn _ => Except String (Option JsValue)
  | .upsertIn _ _ => Except String Unit
  | .commit _ => Except String Unit
  | .rollback _ => Except String Unit
  | .select => Except String (Option JsValue)
  | .upsert _ => Except String Unit
  | .delete => Except String Unit

def nullViolation : String :=
  "null value in column \"value\" of relation \"wazir_kv_store\" violates not-null constraint"

/-- The end of a session's transaction: its row version and its lock are gone. -/
def Row.release (row : Row) (s : Session) : Row :=
  { row with
    written := row.written.filter fun w => w.1 ≠ s
    locked := row.locked.filter fun holder => holder ≠ s }

/-- One statement; `none` while it waits for a lock or for the row version of another
transaction. A statement that fails has no effect, save that the transaction ends whether
or not its `ROLLBACK` is answered. -/
def statement (op : Statement) (fault : Option String) (row : Row) :
    Option (StatementRes op × Row) :=
  match op, fault with
  | .connect _, some e => some (.error e, row)
  | .connect client, none =>
    some (.ok ⟨client, row.sessions⟩, { row with sessions := row.sessions + 1 })
  | .begin _, some e => some (.error e, row)
  | .begin _, none => some (.ok (), row)
  | .lock _, some e => some (.error e, row)
  | .lock s, none =>
    if row.locked.any fun holder => holder ≠ s then none
    else some (.ok (), { row with locked := some s })
  | .selectIn _, some e => some (.error e, row)
  | .selectIn s, none => some (.ok ((row.own s).or row.committed), row)
  | .upsertIn _ _, some e => some (.error e, row)
  | .upsertIn _ none, none => some (.error nullViolation, row)
  | .upsertIn s (some value), none =>
    if row.written.any fun w => w.1 ≠ s then none
    else some (.ok (), { row with written := some (s, value) })
  | .commit _, some e => some (.error e, row)
  | .commit s, none =>
    some (.ok (), { row.release s with committed := (row.own s).or row.committed })
  | .rollback s, some e => some (.error e, row.release s)
  | .rollback s, none => some (.ok (), row.release s)
  | .select, some e => some (.error e, row)
  | .select, none => some (.ok row.committed, row)
  | .upsert _, some e => some (.error e, row)
  | .upsert none, none => some (.error nullViolation, row)
  | .upsert (some value), none =>
    if row.written.isSome then none else some (.ok (), { row with committed := some value })
  | .delete, some e => some (.error e, row)
  | .delete, none =>
    -- a row that is only inserted, not committed, is not seen
    if row.committed.isNone then some (.ok (), row)
    else if row.written.isSome then none
    else some (.ok (), { row with committed := none })

/-- `new Date(s)`, and what a JSONB column gives back of a JSON text. -/
structure Driver where
  parseDate : String → JsDate
  jsonb : JsValue → JsValue

/-- The parameter of `JSON.stringify(value)`, as the column keeps it. -/
def Driver.stringify (driver : Driver) (value : JsValue) : Option JsValue :=
  if value.isUndefined then none else some (driver.jsonb value.jsonImage)

/-- `result.rows[0] ? reviveDatesDeep(result.rows[0].value) : undefined` -/
def Driver.read (driver : Driver) (row : Option JsValue) : JsValue :=
  (row.map (reviveDatesDeep driver.parseDate)).getD .undefined

abbrev StoreProg := Prog Statement StatementRes String

namespace PostgresStore

variable (driver : Driver)

def get : StoreProg JsValue := do
  let result ← (.call .select .resume : StoreProg (Option JsValue))
  return driver.read result

def put (value : JsValue) : StoreProg JsValue := do
  (.call (.upsert (driver.stringify value)) .resume : StoreProg Unit)
  return .undefined

def delete : StoreProg JsValue := do
  (.call .delete .resume : StoreProg Unit)
  return .undefined

/-- The `try` block of `update`. -/
def transaction (mutate : JsValue → Except String JsValue) (client : Session) :
    StoreProg JsValue := do
  (.call (.begin client) .resume : StoreProg Unit)
  (.call (.lock client) .resume : StoreProg Unit)
  let result ← (.call (.selectIn client) .resume : StoreProg (Option JsValue))
  let value ← (.resume (mutate (driver.read result)) : StoreProg JsValue)
  (.call (.upsertIn client (driver.stringify value)) .resume : StoreProg Unit)
  (.call (.commit client) .resume : StoreProg Unit)
  return value

def update (poolClient : ℕ) (mutate : JsValue → Except String JsValue) : StoreProg JsValue := do
  let client ← (.call (.connect poolClient) .resume : StoreProg Session)
  (transaction driver mutate client).handle fun e => do
    (.call (.rollback client) .resume : StoreProg Unit)
    throw e

end PostgresStore

inductive StoreCall where
  | get
  | put (value : JsValue)
  | update (mutate : JsValue → Except String JsValue)
  | delete

/-- A call of a client's store. -/
structure StoreRequest where
  client : ℕ
  call : StoreCall

def StoreRequest.body (driver : Driver) (c : StoreRequest) : StoreProg JsValue :=
  match c.call with
  | .get => PostgresStore.get driver
  | .put value => PostgresStore.put driver value
  | .update mutate => PostgresStore.update driver c.client mutate
  | .delete => PostgresStore.delete

/-- The server rolls back what a lost client had open. -/
def Row.lose (row : Row) (client : ℕ) : Row :=
  { row with
    written := row.written.filter fun w => w.1.client ≠ client
    locked := row.locked.filter fun holder => holder.client ≠ client }

abbrev StoreSystem (driver : Driver) :
    System Statement StatementRes String JsValue StoreRequest ℕ (Option String) Row where
  body c := c.body driver
  proc := StoreRequest.client
  exec := statement
  admits _ row := some row
  crash client row := row.lose client

abbrev StoreHist := Hist Statement StatementRes StoreRequest ℕ (Option String) Row

abbrev StoreEntry := Entry Statement StatementRes StoreRequest (Option String) Row

abbrev StoreConfig :=
  Config Statement StatementRes String JsValue StoreRequest ℕ (Option String) Row

/-! What a store is for. -/

/-- A call on its own: from the value under the key to the answer and the value it leaves. -/
def StoreCall.sequential (driver : Driver) (call : StoreCall) (row : Option JsValue) :
    Except String (JsValue × Option JsValue) :=
  match call with
  | .get => .ok (driver.read row, row)
  | .put value =>
    match driver.stringify value with
    | some stored => .ok (.undefined, some stored)
    | none => .error nullViolation
  | .update mutate => do
    let value ← mutate (driver.read row)
    match driver.stringify value with
    | some stored => .ok (value, some stored)
    | none => .error nullViolation
  | .delete => .ok (.undefined, none)

/-- One call in an order of calls, with the values under the key around it. -/
structure Turn where
  thread : ℕ
  call : StoreCall
  before : Option JsValue
  after : Option JsValue

/-- The calls one after the other, each from the value that the one before it left. -/
def Serial (driver : Driver) : Option JsValue → List Turn → Option JsValue → Prop
  | row, [], final => row = final
  | row, t :: rest, final => t.before = row ∧
    (∃ out, t.call.sequential driver t.before = .ok (out, t.after)) ∧
    Serial driver t.after rest final

theorem Serial.append {driver : Driver} {row mid final : Option JsValue} {ts us : List Turn}
    (ht : Serial driver row ts mid) (hu : Serial driver mid us final) :
    Serial driver row (ts ++ us) final := by
  induction ts generalizing row with
  | nil =>
    cases ht
    exact hu
  | cons t rest ih => exact ⟨ht.1, ht.2.1, ih ht.2.2⟩

/-- The order `order` explains a run: it is serial and ends in the value under the key; it holds
each call once, all that returned, and none that has not, unless its client was lost right after;
answers, and the values handed to `mutate`, are those of the order. -/
structure Explains (driver : Driver) (row : Option JsValue) (cfg : StoreConfig)
    (order : List Turn) : Prop where
  serial : Serial driver row order cfg.hist.shared.committed
  once : (order.map Turn.thread).Nodup
  returned : ∀ i c out, HasReturned (StoreSystem driver) (Row.start row) cfg i c out →
    ∃ t ∈ order, t.thread = i ∧ t.call = c.call ∧
      t.call.sequential driver t.before = .ok (out, t.after)
  succeeded : ∀ t ∈ order, (∃ c out, cfg.returned t.thread = some (c, out) ∧ c.call = t.call) ∨
    ∃ c, cfg.threads[t.thread]? = some ⟨c, none⟩
  handed : ∀ i c s inp r before after,
    ⟨i, c, .selectIn s, inp, .ok r, before, after⟩ ∈ cfg.hist.entries →
    (∃ done rest, order = done ++ rest ∧ Serial driver row done r) ∧
      ∀ t ∈ order, t.thread = i → t.before = r

end Wazir.Database
