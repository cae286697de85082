import Mathlib.Data.BitVec
import NasaRuntime.Lib.Codec
import NasaRuntime.Lib.Run

/-!
# The idempotency stores

Both tables have a primary key of character columns. MySQL compares such a column under its collation,
which neither `CREATE TABLE` names, so that it is the server's own for `utf8mb4`. A statement finds the
row of a key under that comparison.

`begin` makes up to three statements, each a transaction of its own. A statement of it answers the
call, or the next one is made.

The collation that the tables get does not tell upper case from lower case. A message is taken for
another one, and a request gets the response to another one (`case_conflated`).

**Theorem (`identities_apart`).** If no two identities in use are equal under the collation, a message
is a duplicate only of itself, and what a request finds was written by requests with its own key.

The memory store takes its lock once in each call. The Redis store makes one command or script after
the other: `begin` sets the key if it is not there, and reads it otherwise. A key can expire at any
time.

**Theorem (`stores_fenced`).** In each of the three stores a completed record stays as it is until it
expires, and is replayed with the response that completed it. Only the lease in force completes a
record or gives it up, and a request with another fingerprint is not let through.
-/

namespace NasaRuntime.Naidempotency

/-- Texts are equal if they have the same weights. -/
abbrev Collation := String → String

/-- A server whose collation for `utf8mb4` does not tell upper case from lower case. -/
structure Server where
  collation : Collation
  insensitive : ∀ text other : String, text.toLower = other.toLower →
    collation text = collation other

/-- The collation of a `utf8mb4` column. -/
def Server.column (server : Server) (declared : Option Collation) : Collation :=
  declared.getD server.collation

/-! ## Idempotency -/

structure IdempotencyKey where
  tenant : String
  subject : String
  routeId : String
  clientKey : String
deriving DecidableEq

abbrev RequestFingerprint := BitVec 256

abbrev ExecutionLease := BitVec 128

structure StoredResponse where
  status : ℕ
  body : List UInt8
  headers : List (String × String)
deriving DecidableEq

inductive IdempotencyOutcome
  | firstExecution
  | replay (response : StoredResponse)
  | concurrentInFlight
  | fingerprintConflict
deriving DecidableEq

inductive RecordState
  | inFlight | completed
deriving DecidableEq

/-- The columns of a record but for its key. -/
structure IdempotencyRow where
  fingerprint : RequestFingerprint
  lease : ExecutionLease
  state : RecordState
  response : Option StoredResponse
  leaseExpiresAt : ℕ
deriving DecidableEq

/-- Five minutes. -/
def leaseMicros : ℕ := 5 * 60 * 1000000

inductive IdempotencyStatement
  | insert (fingerprint : RequestFingerprint) (lease : ExecutionLease) (now : ℕ)
  | takeOver (fingerprint : RequestFingerprint) (lease : ExecutionLease) (now : ℕ)
  | decideExisting (fingerprint : RequestFingerprint)
  | complete (fingerprint : RequestFingerprint) (lease : ExecutionLease) (response : StoredResponse)
  | abort (fingerprint : RequestFingerprint) (lease : ExecutionLease)
deriving DecidableEq

inductive IdempotencyReply
  | outcome (outcome : IdempotencyOutcome)
  | next
  | corrupt
  | affected (one : Bool)
deriving DecidableEq

/-- The record is still the caller's. -/
def IdempotencyRow.ownedBy (row : IdempotencyRow) (fingerprint : RequestFingerprint)
    (lease : ExecutionLease) : Bool :=
  row.state = .inFlight && row.fingerprint = fingerprint && row.lease = lease

/-- `decide_existing`, of the row that is read. -/
def IdempotencyRow.decideExisting (row : IdempotencyRow) (fingerprint : RequestFingerprint) :
    IdempotencyReply :=
  if row.fingerprint ≠ fingerprint then .outcome .fingerprintConflict
  else
    match row.state, row.response with
    | .inFlight, _ => .outcome .concurrentInFlight
    | .completed, none => .corrupt
    | .completed, some response =>
      if 100 ≤ response.status ∧ response.status ≤ 599 then .outcome (.replay response)
      else .corrupt

def IdempotencyStatement.act : IdempotencyStatement → Option IdempotencyRow →
    IdempotencyReply × Option IdempotencyRow
  | .insert fingerprint lease now, none =>
    (.outcome .firstExecution,
      some ⟨fingerprint, lease, .inFlight, none, now + leaseMicros⟩)
  | .takeOver fingerprint lease now, some row =>
    if row.state = .inFlight ∧ row.fingerprint = fingerprint ∧ row.leaseExpiresAt < now then
      (.outcome .firstExecution,
        some { row with lease, response := none, leaseExpiresAt := now + leaseMicros })
    else (.next, some row)
  | .insert .., some row => (.next, some row)
  | .takeOver .., none => (.next, none)
  | .decideExisting _, none => (.outcome .concurrentInFlight, none)
  | .decideExisting fingerprint, some row => (row.decideExisting fingerprint, some row)
  | .complete fingerprint lease response, some row =>
    if row.ownedBy fingerprint lease then
      (.affected true, some { row with state := .completed, response := some response })
    else (.affected false, some row)
  | .abort fingerprint lease, some row =>
    if row.ownedBy fingerprint lease then (.affected true, none) else (.affected false, some row)
  | .complete .., none | .abort .., none => (.affected false, none)

/-- The collation of `tenant`, `subject`, `route_id` and `client_key`. -/
def idempotencyCollation : Option Collation := none

def IdempotencyKey.collate (server : Server) (key : IdempotencyKey) : IdempotencyKey :=
  let column := server.column idempotencyCollation
  ⟨column key.tenant, column key.subject, column key.routeId, column key.clientKey⟩

/-- `idempotency_record_v2` after some statements. -/
def idempotencyTable (server : Server) (ops : List (IdempotencyKey × IdempotencyStatement)) :
    IdempotencyKey → Option IdempotencyRow :=
  runFrom (execKeyed (IdempotencyKey.collate server) IdempotencyStatement.act) (fun _ => none) ops

/-! ## Inbox -/

structure InboxKey where
  consumerName : String
  messageId : String
deriving DecidableEq

inductive InboxClaim
  | claimed | duplicate
deriving DecidableEq

/-- A claim, and the end of a row, which is rolled back or no longer retained. -/
inductive InboxStatement
  | claim | remove
deriving DecidableEq

def InboxStatement.act : InboxStatement → Option Unit → InboxClaim × Option Unit
  | .claim, none => (.claimed, some ())
  | .claim, some _ => (.duplicate, some ())
  | .remove, _ => (.claimed, none)

/-- The collation of `consumer_name` and `message_id`. -/
def inboxCollation : Option Collation := none

def InboxKey.collate (server : Server) (key : InboxKey) : InboxKey :=
  ⟨server.column inboxCollation key.consumerName, server.column inboxCollation key.messageId⟩

/-- `inbox_message` after some statements. -/
def inboxTable (server : Server) (ops : List (InboxKey × InboxStatement)) :
    InboxKey → Option Unit :=
  runFrom (execKeyed (InboxKey.collate server) InboxStatement.act) (fun _ => none) ops

/-- `claim`. -/
def inboxClaim (server : Server) (ops : List (InboxKey × InboxStatement)) (key : InboxKey) :
    InboxClaim :=
  (InboxStatement.claim.act (inboxTable server ops (key.collate server))).1

theorem claimed_of_row {server : Server} {key : InboxKey} {ops : List (InboxKey × InboxStatement)}
    {rows : InboxKey → Option Unit} (hops : ∀ op ∈ ops, op.1 = key)
    (hrows : rows (key.collate server) = none)
    (h : runFrom (execKeyed (InboxKey.collate server) InboxStatement.act) rows ops
      (key.collate server) ≠ none) : (key, .claim) ∈ ops := by
  induction ops generalizing rows with
  | nil => exact absurd hrows h
  | cons op ops ih =>
    have hkey := hops op List.mem_cons_self
    cases hstat : op.2 with
    | claim => exact List.mem_cons.2 (.inl (Prod.ext hkey.symm hstat.symm))
    | remove =>
      refine List.mem_cons_of_mem _ (ih (fun op hop => hops op (List.mem_cons_of_mem _ hop)) ?_ h)
      simp [execKeyed, hkey, hstat, InboxStatement.act]

/-- **Identities.** -/
theorem identities_apart (server : Server) (messages : List (InboxKey × InboxStatement))
    (message : InboxKey) (requests : List (IdempotencyKey × IdempotencyStatement))
    (key : IdempotencyKey)
    (hmessages : ∀ op ∈ messages, op.1.collate server = message.collate server → op.1 = message)
    (hrequests : ∀ op ∈ requests, op.1.collate server = key.collate server → op.1 = key) :
    (inboxClaim server messages message = .duplicate → (message, .claim) ∈ messages) ∧
      idempotencyTable server requests (key.collate server) =
        idempotencyTable server (requests.filter (·.1 = key)) (key.collate server) := by
  refine ⟨fun hdupl => ?_, runFrom_keyed hrequests rfl⟩
  have hrow : inboxTable server messages (message.collate server) ≠ none := by
    intro hnone
    simp [inboxClaim, hnone, InboxStatement.act] at hdupl
  rw [inboxTable, runFrom_keyed hmessages rfl] at hrow
  have hclaim := claimed_of_row (fun op hop => by simpa using (List.mem_filter.1 hop).2) rfl hrow
  exact (List.mem_filter.1 hclaim).1

/-- A server that compares texts in lower case. -/
def lowerCase : Server := ⟨String.toLower, fun _ _ h => h⟩

/-- A message that was claimed before is a duplicate, and a request finds its own response although
another one is under way. -/
theorem identities_apart_claimed :
    let messages := [(⟨"orders", "a1"⟩, InboxStatement.claim), (⟨"orders", "B2"⟩, .claim)]
    let key : IdempotencyKey := ⟨"t", "s", "r", "a1"⟩
    let requests := [(key, .insert 0 0 0), (⟨"t", "s", "r", "B2"⟩, .insert 1 1 0),
      (key, .complete 0 0 ⟨200, [], []⟩)]
    inboxClaim lowerCase messages ⟨"orders", "a1"⟩ = .duplicate ∧
      (⟨"orders", "a1"⟩, .claim) ∈ messages ∧
      idempotencyTable lowerCase requests (key.collate lowerCase) =
        idempotencyTable lowerCase (requests.filter (·.1 = key)) (key.collate lowerCase) := by
  intro messages key requests
  have hdupl : inboxClaim lowerCase messages ⟨"orders", "a1"⟩ = .duplicate := by
    decide +kernel
  obtain ⟨hmess, hreq⟩ := identities_apart lowerCase messages ⟨"orders", "a1"⟩ requests key
    (by decide +kernel) (by decide +kernel)
  exact ⟨hdupl, hmess hdupl, hreq⟩

/-- A message and a request whose keys differ in a letter's case are taken for others. -/
theorem case_conflated :
    inboxClaim lowerCase [(⟨"orders", "A1"⟩, .claim)] ⟨"orders", "a1"⟩ = .duplicate ∧
      (IdempotencyStatement.act (.decideExisting 0) (idempotencyTable lowerCase
        [(⟨"t", "s", "r", "A1"⟩, .insert 0 0 0),
          (⟨"t", "s", "r", "A1"⟩, .complete 0 0 ⟨200, [], []⟩)]
        (IdempotencyKey.collate lowerCase ⟨"t", "s", "r", "a1"⟩))).1 =
          .outcome (.replay ⟨200, [], []⟩) := by
  constructor
  · decide +kernel
  · decide +kernel

/-- `RecordState` of the memory store, or a value of the Redis store. -/
inductive Record
  | inFlight (fingerprint : RequestFingerprint) (lease : ExecutionLease)
  | completed (fingerprint : RequestFingerprint) (response : StoredResponse)
deriving DecidableEq

/-- A record that is there, for a call of `begin`. -/
def Record.decideExisting (fingerprint : RequestFingerprint) : Record → IdempotencyOutcome
  | .inFlight existing _ =>
    if existing = fingerprint then .concurrentInFlight else .fingerprintConflict
  | .completed existing response =>
    if existing = fingerprint then .replay response else .fingerprintConflict

/-- `decode` of the Redis store refuses the record. -/
def Record.isCorrupt : Record → Bool
  | .inFlight .. => false
  | .completed _ response => !(100 ≤ response.status && response.status ≤ 599)

/-! ## The values of the Redis store -/

namespace Record

/- The JSON text of headers, by `serde_json`. -/
variable (toVec : List (String × String) → List UInt8)
  (fromSlice : List UInt8 → Option (List (String × String)))

/-- `encode_inflight`, or what the script of `complete` writes with `encode_completed_suffix`. -/
def encode : Record → List UInt8
  | .inFlight fingerprint lease => 0 :: (be 32 fingerprint.toNat ++ be 16 lease.toNat)
  | .completed fingerprint response =>
    let headers := toVec response.headers
    1 :: (be 32 fingerprint.toNat ++ ((be 2 response.status).reverse ++
      ((be 4 headers.length).reverse ++ (headers ++ response.body))))

/-- The fingerprint, and the response if the record is completed. -/
def decode (bytes : List UInt8) : Option (RequestFingerprint × Option StoredResponse) :=
  let fingerprint := BitVec.ofNat 256 (ofBe ((bytes.drop 1).take 32))
  let suffix := bytes.drop 33
  let status := ofBe (suffix.take 2).reverse
  let headersLen := ofBe ((suffix.drop 2).take 4).reverse
  let text := suffix.drop 6
  if bytes.length < 33 then none
  else if bytes.head? = some 0 then
    if bytes.length ≠ 49 then none else some (fingerprint, none)
  else if bytes.head? = some 1 then
    if bytes.length < 39 then none
    else if !(100 ≤ status && status ≤ 599) then none
    else if text.length < headersLen then none
    else (fromSlice (text.take headersLen)).map fun headers =>
      (fingerprint, some ⟨status, text.drop headersLen, headers⟩)
  else none

/-- The status and the length of the text are a `u16` and a `u32`, and the text can be read. -/
def Fits : Record → Prop
  | .inFlight .. => True
  | .completed _ response =>
    response.status < 2 ^ 16 ∧ (toVec response.headers).length < 2 ^ 32 ∧
      fromSlice (toVec response.headers) = some response.headers

/-- What was written is read back, unless the record is corrupt. -/
theorem decode_encode (record : Record) (h : record.Fits toVec fromSlice) :
    decode fromSlice (record.encode toVec) =
      if record.isCorrupt then none
      else match record with
        | .inFlight fingerprint _ => some (fingerprint, none)
        | .completed fingerprint response => some (fingerprint, some response) := by
  cases record with
  | inFlight fingerprint => simp [decode, encode, isCorrupt, ofBe_be (w := 32) fingerprint.isLt]
  | completed fingerprint response =>
    have hstatus := ofBe_be (w := 2) h.1
    have hlen := ofBe_be (w := 4) h.2.1
    have hdrop : (be 2 response.status).reverse.drop 6 = [] := List.drop_eq_nil_of_le (by simp)
    simp [decode, encode, isCorrupt, ofBe_be (w := 32) fingerprint.isLt, hstatus, hlen, hdrop,
      List.drop_append, h.2.2]
    rw [if_neg (by omega), if_neg (by omega)]

/-- The scripts compare bytes, and with that records. -/
theorem encode_eq_inFlight {fingerprint : RequestFingerprint} {lease : ExecutionLease}
    {record : Record} : record.encode toVec = encode toVec (.inFlight fingerprint lease) ↔
      record = .inFlight fingerprint lease := by
  cases record with
  | inFlight fingerprint' lease' =>
    refine ⟨fun h => ?_, fun h => h ▸ rfl⟩
    obtain ⟨hfp, hlease⟩ := List.append_inj (List.cons.inj h).2 (by simp)
    have hfp' := congrArg ofBe hfp
    have hlease' := congrArg ofBe hlease
    rw [ofBe_be fingerprint'.isLt, ofBe_be fingerprint.isLt] at hfp'
    rw [ofBe_be lease'.isLt, ofBe_be lease.isLt] at hlease'
    rw [BitVec.eq_of_toNat_eq hfp', BitVec.eq_of_toNat_eq hlease']
  | completed => simp [encode]

end Record

/-- The calls of the memory store are `begin`, `complete` and `abort`. The others are commands of the
Redis store, whose scripts do what `complete` and `abort` of the memory store do. -/
inductive RecordStatement
  | begin (fingerprint : RequestFingerprint) (lease : ExecutionLease)
  | complete (fingerprint : RequestFingerprint) (lease : ExecutionLease) (response : StoredResponse)
  | abort (fingerprint : RequestFingerprint) (lease : ExecutionLease)
  | setNx (fingerprint : RequestFingerprint) (lease : ExecutionLease)
  | get (fingerprint : RequestFingerprint)
  | expire
deriving DecidableEq

def RecordStatement.act : RecordStatement → Option Record → IdempotencyReply × Option Record
  | .begin fingerprint lease, none | .setNx fingerprint lease, none =>
    (.outcome .firstExecution, some (.inFlight fingerprint lease))
  | .begin fingerprint _, some record => (.outcome (record.decideExisting fingerprint), some record)
  | .setNx .., some record => (.next, some record)
  | .get _, none => (.outcome .concurrentInFlight, none)
  | .get fingerprint, some record =>
    (if record.isCorrupt then .corrupt else .outcome (record.decideExisting fingerprint), some record)
  | .complete fingerprint lease response, record =>
    if record = some (.inFlight fingerprint lease) then
      (.affected true, some (.completed fingerprint response))
    else (.affected false, record)
  | .abort fingerprint lease, record =>
    if record = some (.inFlight fingerprint lease) then (.affected true, none)
    else (.affected false, record)
  | .expire, _ => (.next, none)

open IdempotencyStatement

/-- What a statement is for. -/
inductive Purpose
  | begin (fingerprint : RequestFingerprint)
  | complete (fingerprint : RequestFingerprint) (lease : ExecutionLease) (response : StoredResponse)
  | abort (fingerprint : RequestFingerprint) (lease : ExecutionLease)
  | expire

/-- Statements on a row, each of which is atomic. -/
structure Store where
  Statement : Type
  Row : Type
  act : Statement → Option Row → IdempotencyReply × Option Row
  purpose : Statement → Purpose
  /-- The record in a row, unless it is corrupt. -/
  record : Row → Option Record

/-- The memory and Redis stores. -/
def records : Store where
  Statement := RecordStatement
  Row := Record
  act := RecordStatement.act
  purpose
    | .begin fingerprint _ | .setNx fingerprint _ | .get fingerprint => .begin fingerprint
    | .complete fingerprint lease response => .complete fingerprint lease response
    | .abort fingerprint lease => .abort fingerprint lease
    | .expire => .expire
  record := some

def mySql : Store where
  Statement := IdempotencyStatement
  Row := IdempotencyRow
  act := IdempotencyStatement.act
  purpose
    | .insert fingerprint .. | .takeOver fingerprint .. | .decideExisting fingerprint =>
      .begin fingerprint
    | .complete fingerprint lease response => .complete fingerprint lease response
    | .abort fingerprint lease => .abort fingerprint lease
  record row :=
    match row.state with
    | .inFlight => some (.inFlight row.fingerprint row.lease)
    | .completed => row.response.map (.completed row.fingerprint)

namespace Store

variable (store : Store) {β : Type} [DecidableEq β] (same : IdempotencyKey → β)

/-- The rows after some statements, where `same` says which keys have the same row. -/
def run (ops : List (IdempotencyKey × store.Statement)) : β → Option store.Row :=
  runFrom (execKeyed same store.act) (fun _ => none) ops

/-- A statement that only the lease in force may make. -/
def Settles (statement : store.Statement) (fingerprint : RequestFingerprint)
    (lease : ExecutionLease) : Prop :=
  store.purpose statement = .abort fingerprint lease ∨
    ∃ response, store.purpose statement = .complete fingerprint lease response

/-- The record in row `b` does not expire. -/
def Lasts (b : β) (ops : List (IdempotencyKey × store.Statement)) : Prop :=
  ∀ op ∈ ops, same op.1 = b → store.purpose op.2 ≠ .expire

/-- What one statement does to a row. -/
structure Laws : Prop where
  completes {statement fingerprint lease response row} :
    store.purpose statement = .complete fingerprint lease response →
      (store.act statement row).1 = .affected true →
        ∃ r, (store.act statement row).2 = some r ∧
          store.record r = some (.completed fingerprint response)
  completed {statement fingerprint response r} :
    store.record r = some (.completed fingerprint response) → store.purpose statement ≠ .expire →
      (store.act statement (some r)).2 = some r ∧ ∀ replayed,
        (store.act statement (some r)).1 = .outcome (.replay replayed) → replayed = response
  superseded {statement fingerprint lease row} : store.Settles statement fingerprint lease →
    row.bind store.record ≠ some (.inFlight fingerprint lease) →
      store.act statement row = (.affected false, row)
  conflicts {statement fingerprint r} : store.purpose statement = .begin fingerprint →
    (store.act statement (some r)).1 = .outcome .firstExecution →
      ∃ lease, store.record r = some (.inFlight fingerprint lease)

/-- A record that was completed, in any run, is settled until it expires. -/
structure Fenced : Prop extends store.Laws where
  lasting {β : Type} [DecidableEq β] (same : IdempotencyKey → β)
    (ops : List (IdempotencyKey × store.Statement)) (key : IdempotencyKey)
    {statement fingerprint lease response} :
    store.purpose statement = .complete fingerprint lease response →
      (store.act statement (store.run same ops (same key))).1 = .affected true →
      ∃ r, ∀ later, store.Lasts same (same key) later →
        store.run same (ops ++ (key, statement) :: later) (same key) = some r ∧
        (∀ other, store.purpose other ≠ .expire → ∀ replayed,
          (store.act other (some r)).1 = .outcome (.replay replayed) → replayed = response) ∧
        ∀ other fingerprint' lease', store.Settles other fingerprint' lease' →
          store.act other (some r) = (.affected false, some r)

variable {store same} {fingerprint : RequestFingerprint} {response : StoredResponse} {r : store.Row}

/-- A completed record is kept by statements on any key. -/
theorem Laws.kept (hlaws : store.Laws) {b : β}
    (hr : store.record r = some (.completed fingerprint response))
    {ops : List (IdempotencyKey × store.Statement)} (h : store.Lasts same b ops)
    {rows : β → Option store.Row} (hrows : rows b = some r) :
    runFrom (execKeyed same store.act) rows ops b = some r := by
  induction ops generalizing rows with
  | nil => exact hrows
  | cons op ops ih =>
    refine ih (fun op hop => h op (List.mem_cons_of_mem _ hop)) ?_
    by_cases hb : same op.1 = b
    · simp only [execKeyed, hb, Function.update_self, hrows]
      exact (hlaws.completed hr (h op List.mem_cons_self hb)).1
    · rw [execKeyed_of_ne hb, hrows]

theorem Laws.fenced (hlaws : store.Laws) : store.Fenced := by
  refine ⟨hlaws, fun same ops key _ _ _ _ hpurp hdone => ?_⟩
  obtain ⟨r, hrow, hr⟩ := hlaws.completes hpurp hdone
  refine ⟨r, fun later hlat => ⟨?_, fun other h => (hlaws.completed hr h).2,
    fun other _ _ hoth => hlaws.superseded hoth (by simp [hr])⟩⟩
  rw [run, runFrom_append, runFrom_cons]
  refine hlaws.kept hr hlat ?_
  simp only [execKeyed, Function.update_self]
  exact hrow

end Store

/-! ## The three stores -/

theorem records_laws : records.Laws where
  completes {statement _ _ _ row} hpurp hdone := by
    cases statement <;> cases hpurp
    simp only [records, RecordStatement.act] at hdone ⊢
    split_ifs at hdone ⊢
    · exact ⟨_, rfl, rfl⟩
    · cases hdone
  completed {statement _ _ r} hr hlasts := by
    cases hr
    cases statement <;>
      simp_all [records, RecordStatement.act, Record.decideExisting] <;> grind
  superseded {statement fingerprint lease row} hsett hrow := by
    have hne : row ≠ some (.inFlight fingerprint lease) := by
      rintro rfl
      exact hrow rfl
    cases statement <;> rcases hsett with hpurp | ⟨_, hpurp⟩ <;> cases hpurp
    · exact if_neg hne
    · exact if_neg hne
  conflicts {statement _ r} hpurp hfirst := by
    cases statement <;> cases r <;>
      simp_all [records, RecordStatement.act, Record.decideExisting] <;> grind

theorem mySql_laws : mySql.Laws where
  completes {statement _ _ _ row} hpurp hdone := by
    cases statement <;> cases hpurp
    cases row with
    | none => cases hdone
    | some row =>
      simp only [mySql, act] at hdone ⊢
      split_ifs at hdone ⊢ with hown
      · simp only [IdempotencyRow.ownedBy, Bool.and_eq_true, decide_eq_true_eq] at hown
        exact ⟨_, rfl, by simp [hown]⟩
      · cases hdone
  completed {statement _ _ r} hr hlasts := by
    cases hst : r.state <;> cases statement <;>
      simp_all [mySql, act, IdempotencyRow.ownedBy, IdempotencyRow.decideExisting]
    grind
  superseded {statement _ _ row} hsett hrow := by
    cases statement <;> rcases hsett with hpurp | ⟨_, hpurp⟩ <;> cases hpurp <;>
      cases row <;> simp_all [mySql, act, IdempotencyRow.ownedBy] <;> grind
  conflicts {statement _ r} hpurp hfirst := by
    cases hst : r.state <;> cases statement <;>
      simp_all [mySql, act, IdempotencyRow.decideExisting] <;> grind

/-- **Fencing.** -/
theorem stores_fenced : records.Fenced ∧ mySql.Fenced :=
  ⟨records_laws.fenced, mySql_laws.fenced⟩

-- only the lease that was granted completes the record
example (key : IdempotencyKey) :
    records.run id [(key, .begin 0 1), (key, .complete 0 2 ⟨500, [], []⟩),
      (key, .complete 0 1 ⟨200, [], []⟩)] key = some (.completed 0 ⟨200, [], []⟩) := by
  simp [Store.run, runFrom, execKeyed, records, RecordStatement.act]

end NasaRuntime.Naidempotency
