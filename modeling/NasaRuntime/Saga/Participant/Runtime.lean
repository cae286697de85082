import NasaRuntime.Lib.Run
import NasaRuntime.Saga.Store.Rows

/-!
# The participant and its gate

`nasaga-mysql/src/participant.rs`: the row of `saga_participant_step` through which every command
for one step of one saga passes. Each phase has an admission, which reads the row under its lock
and decides whether the business handler may be called, and a settlement, which writes what the
handler concluded. The saga and the step are left out of the row, since every statement selects by
them, and two transactions that race for the insertion of the row are serialised by its key: the
loser rolls back.

`history` is not a table. It is a history variable: each transaction appends what it decided to it,
so that what was committed, and in which order, can be spoken about. No statement reads it.

`nasaga-runtime-core/src/participant.rs`: the transaction around each command. If anything fails, or
the handler asks for a retry, all of it rolls back.

What the handler does is not part of the program, so a handler call is an input: a `HandlerRun`
says how it came out, if the gate lets it be called at all. Each `admit*` below is the part of the
transaction up to that point, so a handler is *entered* exactly when it answers `admitted`.
-/

namespace NasaRuntime.Saga

open Tx

/-! ## The row -/

/-- `saga_participant_step`. -/
structure ParticipantGateRow where
  tenant : TenantId
  workflow : WorkflowName
  definitionVersion : Nat
  definitionDigest : String
  forwardStatus : StepForwardStatus
  cancelStatus : StepCancelStatus := .none
  compensationStatus : StepCompensationStatus := .none
  resolutionStatus : StepResolutionStatus := .none
  executeEffectId : String
  cancelEffectId : Option String := none
  compensateEffectId : Option String := none
  resolveEffectId : Option String := none
  deriving DecidableEq

/-- `ParticipantGateKey`, without the saga and the step. -/
structure ParticipantGateKey where
  tenant : TenantId
  workflow : WorkflowName
  definitionVersion : Nat
  definitionDigest : String
  deriving DecidableEq

/-- The contract fields of the row. -/
def ParticipantGateRow.key (row : ParticipantGateRow) : ParticipantGateKey :=
  ⟨row.tenant, row.workflow, row.definitionVersion, row.definitionDigest⟩

/-- The row an admission inserts, before the columns that only some admissions fill. -/
def ParticipantGateKey.newRow (key : ParticipantGateKey) (forward : StepForwardStatus)
    (executeEffect : String) : ParticipantGateRow where
  tenant := key.tenant
  workflow := key.workflow
  definitionVersion := key.definitionVersion
  definitionDigest := key.definitionDigest
  forwardStatus := forward
  executeEffectId := executeEffect

/-! ## What an admission answers -/

inductive ExecuteAdmission
  | admitted
  | alreadyTerminal (status : StepForwardStatus)
  | suppressed
  deriving DecidableEq

inductive CancelAdjudication
  | confirmed
  | alreadyTerminal (forward : StepForwardStatus)
  | resolutionPending
  deriving DecidableEq

inductive ExternalCancelAdmission
  | admitted
  | alreadyAdjudicated (adjudication : CancelAdjudication)
  deriving DecidableEq

inductive CompensationAdmission
  | admitted
  | alreadySettled (status : StepCompensationStatus)
  | missingForwardEffect
  deriving DecidableEq

inductive ResolutionTarget
  | forward | compensation
  deriving DecidableEq

inductive ResolutionAdmission
  | admitted (target : ResolutionTarget)
  | alreadySettled (target : ResolutionTarget) (status : StepResolutionStatus)
  | missingUnknownEffect
  deriving DecidableEq

/-- What a transaction of the gate decided. -/
inductive GateEvent
  /-- The execute handler concluded, and the gate holds its conclusion. -/
  | executed (status : StepForwardStatus)
  /-- A cancel command was answered. -/
  | cancelAnswered (adjudication : CancelAdjudication)
  /-- A compensate command decided the compensation: its handler concluded, or the command broke
  the contract and the compensation was halted. -/
  | compensated (status : StepCompensationStatus)
  /-- The resolve handler concluded about the target. -/
  | resolved (target : ResolutionTarget) (status : StepResolutionStatus)
  deriving DecidableEq

/-- The tables of a participant, as far as one gate reads and writes them. -/
structure ParticipantDb where
  gate : Option ParticipantGateRow := none
  /-- The command ids the inbox still remembers. -/
  inbox : List String := []
  outbox : List SagaResultEnvelope := []
  history : List GateEvent := []
  deriving DecidableEq

/-- A transaction of the participant. -/
abbrev GateTx := Tx ParticipantDb SagaError

/-! ## Statements -/

/-- An `INSERT` of the row, or an `UPDATE` that selects by the key alone. -/
def writeGate (row : ParticipantGateRow) : GateTx Unit :=
  modify fun db => { db with gate := some row }

/-- An `UPDATE` of the row under its `WHERE`, with the number of rows it matched. -/
def updateGate (cond : ParticipantGateRow → Bool)
    (change : ParticipantGateRow → ParticipantGateRow) : GateTx Nat := do
  let db ← get
  match db.gate.filter cond with
  | none => return 0
  | some row =>
    writeGate (change row)
    return 1

def record (event : GateEvent) : GateTx Unit :=
  modify fun db => { db with history := db.history ++ [event] }

def verifyGateContract (row : ParticipantGateRow) (key : ParticipantGateKey) : GateTx Unit :=
  require (row.key = key)
    (.store "gate contract mismatch: command targets a different tenant, workflow, version, or digest")

/-! ## Execute -/

def admitExecute (key : ParticipantGateKey) (executeEffect : String) : GateTx ExecuteAdmission := do
  let db ← get
  match db.gate with
  | none =>
    writeGate (key.newRow .pending executeEffect)
    return .admitted
  | some row =>
    verifyGateContract row key
    require (row.executeEffectId = executeEffect)
      (.store "gate effect identity mismatch; command is not for this step effect")
    match row.forwardStatus with
    | .cancelled => return .suppressed
    | .pending => throw (.store "gate row committed in PENDING state; protocol was bypassed")
    | settled => return .alreadyTerminal settled

/-- The statuses `settle_execute` takes. -/
def StepForwardStatus.isExecuteAdjudication : StepForwardStatus → Bool
  | .succeeded | .rejected | .unknown | .halted => true
  | _ => false

def settleExecute (status : StepForwardStatus) : GateTx Unit := do
  require (status.isExecuteAdjudication)
    (.store "execute settlement requires a business adjudication status")
  let updated ← updateGate (·.forwardStatus = .pending) ({ · with forwardStatus := status })
  require (updated ≠ 0) (.store "execute settlement found no admitted gate row")

/-! ## Cancel -/

/-- The forward statuses that are a terminal outcome of the step's effect. -/
def StepForwardStatus.isTerminal : StepForwardStatus → Bool
  | .succeeded | .rejected | .halted => true
  | _ => false

/-- The adjudication of a cancel that meets a forward status. -/
def StepForwardStatus.adjudication : StepForwardStatus → CancelAdjudication
  | .cancelled => .confirmed
  | .succeeded => .alreadyTerminal .succeeded
  | .rejected => .alreadyTerminal .rejected
  | .halted => .alreadyTerminal .halted
  | .unknown | .pending | .timedOut => .resolutionPending

/-- The column value of an adjudication. -/
def CancelAdjudication.cancelStatus : CancelAdjudication → StepCancelStatus
  | .confirmed => .confirmed
  | .alreadyTerminal _ => .alreadyTerminal
  | .resolutionPending => .resolutionPending

def adjudicateCancel (key : ParticipantGateKey) (executeEffect cancelEffect : String) :
    GateTx CancelAdjudication := do
  let db ← get
  match db.gate with
  | none =>
    writeGate { key.newRow .cancelled executeEffect with
      cancelStatus := .confirmed
      cancelEffectId := some cancelEffect }
    return .confirmed
  | some row =>
    verifyGateContract row key
    require (row.executeEffectId = executeEffect)
      (.store "gate execute effect identity mismatch during cancel adjudication")
    let adjudication := row.forwardStatus.adjudication
    if row.cancelStatus ≠ .none then
      require (row.cancelStatus = adjudication.cancelStatus ∧
          row.cancelEffectId = some cancelEffect)
        (.store "cancel adjudication conflicts with the persisted gate fact")
      return adjudication
    else
      let updated ← updateGate (·.cancelStatus = .none)
        ({ · with
          cancelStatus := adjudication.cancelStatus
          cancelEffectId := some cancelEffect })
      require (updated = 1) (.store "cancel adjudication lost gate authority")
      return adjudication

def persistExistingCancelAdjudication (cancelEffect : String) (status : StepCancelStatus) :
    GateTx Unit := do
  let updated ← updateGate (·.cancelStatus = .none)
    ({ · with cancelStatus := status, cancelEffectId := some cancelEffect })
  require (updated = 1) (.store "existing external cancel adjudication lost gate authority")

/-- The adjudication that the row already holds. -/
def ParticipantGateRow.existingAdjudication (row : ParticipantGateRow) :
    Except SagaError (Option CancelAdjudication) :=
  match row.cancelStatus with
  | .confirmed => .ok (some .confirmed)
  | .alreadyTerminal =>
    if row.forwardStatus.isTerminal then .ok (some (.alreadyTerminal row.forwardStatus))
    else .error (.store "external cancel terminal adjudication has no terminal forward fact")
  | .resolutionPending => .ok (some .resolutionPending)
  | .none => .ok none

def admitExternalCancel (key : ParticipantGateKey) (executeEffect cancelEffect : String) :
    GateTx ExternalCancelAdmission := do
  let db ← get
  match db.gate with
  | none =>
    writeGate { key.newRow .pending executeEffect with cancelEffectId := some cancelEffect }
    return .admitted
  | some row =>
    verifyGateContract row key
    require (row.executeEffectId = executeEffect)
      (.store "gate execute effect identity mismatch during external cancel")
    require (row.cancelEffectId.all (· = cancelEffect))
      (.store "gate cancel effect identity mismatch during external cancel")
    match ← Tx.ofExcept row.existingAdjudication with
    | some existing => return .alreadyAdjudicated existing
    | none =>
      match row.forwardStatus with
      | .cancelled =>
        persistExistingCancelAdjudication cancelEffect .confirmed
        return .alreadyAdjudicated .confirmed
      | .unknown | .timedOut =>
        let _ ← updateGate (·.cancelStatus = .none) ({ · with cancelEffectId := some cancelEffect })
        return .admitted
      | .pending => throw (.store "external cancel gate row was committed in PENDING state")
      | terminal =>
        persistExistingCancelAdjudication cancelEffect .alreadyTerminal
        return .alreadyAdjudicated (.alreadyTerminal terminal)

/-- The combinations `settle_external_cancel` takes. -/
def externalCancelCombination : StepForwardStatus → StepCancelStatus → Bool
  | .cancelled, .confirmed => true
  | .succeeded, .alreadyTerminal | .rejected, .alreadyTerminal | .halted, .alreadyTerminal => true
  | .unknown, .resolutionPending => true
  | _, _ => false

def settleExternalCancel (forward : StepForwardStatus) (cancel : StepCancelStatus) :
    GateTx Unit := do
  require (externalCancelCombination forward cancel)
    (.store "external cancel settlement has an invalid forward/cancel combination")
  let updated ← updateGate
    (fun row => row.cancelStatus = .none &&
      (row.forwardStatus = .pending || row.forwardStatus = .unknown ||
        row.forwardStatus = .timedOut))
    ({ · with forwardStatus := forward, cancelStatus := cancel })
  require (updated = 1) (.store "external cancel settlement lost gate authority")

/-! ## Compensate -/

def admitCompensation (key : ParticipantGateKey) (executeEffect compensateEffect : String)
    (recovery : Option String) : GateTx CompensationAdmission := do
  let db ← get
  match db.gate with
  | none =>
    writeGate { key.newRow .halted executeEffect with
      compensationStatus := .halted
      compensateEffectId := some compensateEffect }
    return .missingForwardEffect
  | some row =>
    verifyGateContract row key
    if row.compensationStatus = .succeeded ∨ row.compensationStatus = .unknown then
      return .alreadySettled row.compensationStatus
    else if row.compensationStatus = .halted ∧
        (recovery = none ∨ row.forwardStatus ≠ .succeeded) then
      return .alreadySettled row.compensationStatus
    else if row.compensationStatus = .pending then
      throw (.store "compensation gate committed in PENDING state; protocol was bypassed")
    else if row.forwardStatus ≠ .succeeded then
      writeGate { row with
        compensationStatus := .halted
        compensateEffectId := some compensateEffect }
      return .missingForwardEffect
    else
      writeGate { row with
        compensationStatus := .pending
        compensateEffectId := some compensateEffect
        resolutionStatus := .none }
      return .admitted

/-- The statuses `settle_compensation` takes. -/
def StepCompensationStatus.isAdjudication : StepCompensationStatus → Bool
  | .succeeded | .unknown | .halted => true
  | _ => false

def settleCompensation (status : StepCompensationStatus) : GateTx Unit := do
  require (status.isAdjudication)
    (.store "compensation settlement requires a business adjudication status")
  let updated ← updateGate (·.compensationStatus = .pending)
    ({ · with compensationStatus := status })
  require (updated ≠ 0) (.store "compensation settlement found no admitted gate row")

/-! ## Resolve -/

def resolvedTarget (row : ParticipantGateRow) : ResolutionTarget :=
  match row.resolutionStatus with
  | .succeeded => if row.compensationStatus = .succeeded then .compensation else .forward
  | .rejected => if row.forwardStatus ≠ .rejected then .compensation else .forward
  | .halted => if row.compensationStatus = .unknown then .compensation else .forward
  | _ => .forward

/-- The fact a resolution has to clear up, the compensation's before the forward one. -/
def ParticipantGateRow.unknownTarget (row : ParticipantGateRow) : Option ResolutionTarget :=
  if row.compensationStatus = .unknown then some .compensation
  else if row.forwardStatus = .unknown then some .forward
  else none

/-- The row with a resolution status and its effect. -/
def ParticipantGateRow.resolving (row : ParticipantGateRow) (status : StepResolutionStatus)
    (resolveEffect : String) : ParticipantGateRow :=
  { row with resolutionStatus := status, resolveEffectId := some resolveEffect }

def admitResolution (key : ParticipantGateKey) (executeEffect resolveEffect : String)
    (recovery : Option String) : GateTx ResolutionAdmission := do
  let db ← get
  match db.gate with
  | none =>
    writeGate ((key.newRow .halted executeEffect).resolving .halted resolveEffect)
    return .missingUnknownEffect
  | some row =>
    verifyGateContract row key
    require (row.resolveEffectId.all (· = resolveEffect))
      (.store "resolution effect identity mismatch; command is not for this step effect")
    if row.resolutionStatus = .succeeded ∨ row.resolutionStatus = .rejected ∨
        (row.resolutionStatus = .halted ∧ recovery = none) then
      return .alreadySettled (resolvedTarget row) row.resolutionStatus
    else if row.resolutionStatus = .none ∧ row.compensationStatus = .none ∧
        (row.forwardStatus = .succeeded ∨ row.forwardStatus = .rejected) then
      let status : StepResolutionStatus :=
        if row.forwardStatus = .succeeded then .succeeded else .rejected
      writeGate (row.resolving status resolveEffect)
      return .alreadySettled .forward status
    else
      match row.unknownTarget with
      | none =>
        writeGate (row.resolving .halted resolveEffect)
        return .missingUnknownEffect
      | some target =>
        writeGate (row.resolving .pending resolveEffect)
        return .admitted target

/-- What a resolution of the forward fact overwrites it with. -/
def StepResolutionStatus.toForward : StepResolutionStatus → Option StepForwardStatus
  | .succeeded => some .succeeded
  | .rejected => some .rejected
  | _ => Option.none

/-- What a resolution of the compensation overwrites it with. -/
def StepResolutionStatus.toCompensation : StepResolutionStatus → Option StepCompensationStatus
  | .succeeded => some .succeeded
  | .rejected => some .none
  | _ => Option.none

/-- The `UPDATE` of `settle_resolution` on the fact that the resolution was about. -/
def overwriteUnknown (target : ResolutionTarget) (status : StepResolutionStatus) : GateTx Nat :=
  match target with
  | .forward =>
    updateGate (fun row => row.forwardStatus = .unknown && row.resolutionStatus = .pending)
      (fun row => { row with
        resolutionStatus := status
        forwardStatus := status.toForward.getD row.forwardStatus })
  | .compensation =>
    updateGate (fun row => row.compensationStatus = .unknown && row.resolutionStatus = .pending)
      (fun row => { row with
        resolutionStatus := status
        compensationStatus := status.toCompensation.getD row.compensationStatus })

def settleResolution (target : ResolutionTarget) (status : StepResolutionStatus) :
    GateTx Unit := do
  require (status ≠ .none) (.store "resolution settlement requires a query adjudication status")
  let updated ← overwriteUnknown target status
  require (updated ≠ 0) (.store "resolution settlement found no matching unknown gate fact")
  -- a cancel that waited for this resolution has its answer now
  when (target = .forward ∧ (status = .succeeded ∨ status = .rejected)) do
    let _ ← updateGate (·.cancelStatus = .resolutionPending)
      ({ · with cancelStatus := .alreadyTerminal })

/-! ## What the statements do -/

variable {db db' : ParticipantDb} {row : ParticipantGateRow} {u : Unit}

theorem ends_writeGate : (writeGate row).Ends db u db' ↔ { db with gate := some row } = db' :=
  ends_modify

theorem ends_record {event : GateEvent} :
    (record event).Ends db u db' ↔ { db with history := db.history ++ [event] } = db' :=
  ends_modify

theorem ends_verifyGateContract {key : ParticipantGateKey} :
    (verifyGateContract row key).Ends db u db' ↔ row.key = key ∧ db = db' :=
  ends_require

/-! ## What handlers conclude -/

/-- `SagaOutcome`, without the value of a success. -/
inductive SagaOutcome
  | succeeded
  | rejected (code : String)
  | unknown (code : String)
  | halted (code : String)
  deriving DecidableEq

inductive CompensationOutcome
  | succeeded
  | unknown (code : String)
  | halted (code : String)
  deriving DecidableEq

inductive TerminalForwardOutcome
  | succeeded
  | rejected (code : String)
  | halted (code : String)
  deriving DecidableEq

inductive CancelOutcome
  | cancelConfirmed
  | alreadyTerminal (terminal : TerminalForwardOutcome)
  | resolutionPending (code : String)
  deriving DecidableEq

/-- How the call of a handler comes out: its payload may not decode, it may ask for a retry, or
it concludes. -/
inductive HandlerRun (α : Type)
  | contractInvalid
  | retryable (code : String)
  | concluded (outcome : α)
  deriving DecidableEq

/-- The handler's conclusion; without one the transaction fails. -/
def HandlerRun.conclusion {α : Type} (run : HandlerRun α) (kind : String) : GateTx α :=
  match run with
  | .contractInvalid => throw (.command .contractInvalid)
  | .retryable code => throw (.runtime ("retryable " ++ kind ++ " error: " ++ code))
  | .concluded outcome => pure outcome

inductive ParticipantHandled
  | executed (status : StepAttemptStatus)
  | duplicate
  | suppressed
  | replayed (status : StepAttemptStatus)
  | contractViolation
  deriving DecidableEq

def safeReasonCode (code : String) : String :=
  if validReasonCode code then code else "participant_reason_code_invalid"

/-! ## What a conclusion is settled and reported as -/

/-- A conclusion of the execute handler; `allowUnknown` is what the step's descriptor declares. -/
def SagaOutcome.ofExecute (allowUnknown : Bool) :
    SagaOutcome → StepForwardStatus × StepAttemptStatus × Option String
  | .succeeded => (.succeeded, .succeeded, none)
  | .rejected code => (.rejected, .rejected, some (safeReasonCode code))
  | .unknown code =>
    if allowUnknown then (.unknown, .unknown, some (safeReasonCode code))
    else (.halted, .halted, some "unknown_not_allowed")
  | .halted code => (.halted, .halted, some (safeReasonCode code))

/-- A conclusion of the compensate handler. -/
def CompensationOutcome.ofCompensate :
    CompensationOutcome → StepCompensationStatus × StepAttemptStatus × Option String
  | .succeeded => (.succeeded, .succeeded, none)
  | .unknown code => (.unknown, .unknown, some (safeReasonCode code))
  | .halted code => (.halted, .halted, some (safeReasonCode code))

/-- A conclusion of the resolve handler; an unknown one leaves the resolution open. -/
def SagaOutcome.ofResolve :
    SagaOutcome → StepResolutionStatus × StepAttemptStatus × Option String
  | .succeeded => (.succeeded, .succeeded, none)
  | .rejected code => (.rejected, .rejected, some (safeReasonCode code))
  | .unknown code => (.pending, .unknown, some (safeReasonCode code))
  | .halted code => (.halted, .halted, some (safeReasonCode code))

def TerminalForwardOutcome.forward : TerminalForwardOutcome → StepForwardStatus
  | .succeeded => .succeeded
  | .rejected _ => .rejected
  | .halted _ => .halted

def TerminalForwardOutcome.reason : TerminalForwardOutcome → Option String
  | .succeeded => none
  | .rejected code => some code
  | .halted code => some code

/-- `external_cancel_result`: the forward status and the adjudication, from which the column, the
status of the attempt and the terminal status follow. -/
def CancelOutcome.result : CancelOutcome → StepForwardStatus × CancelAdjudication × Option String
  | .cancelConfirmed => (.cancelled, .confirmed, none)
  | .alreadyTerminal terminal =>
    (terminal.forward, .alreadyTerminal terminal.forward, terminal.reason)
  | .resolutionPending code => (.unknown, .resolutionPending, some code)

/-- `cancel_adjudication_result`. -/
def CancelAdjudication.result :
    CancelAdjudication → StepAttemptStatus × Option StepForwardStatus
  | .confirmed => (.cancelConfirmed, none)
  | .alreadyTerminal forward => (.alreadyTerminal, some forward)
  | .resolutionPending => (.resolutionPending, none)

def forwardToAttemptStatus : StepForwardStatus → Except SagaError StepAttemptStatus
  | .succeeded => .ok .succeeded
  | .rejected => .ok .rejected
  | .unknown => .ok .unknown
  | .halted => .ok .halted
  | _ => .error (.runtime "gate terminal status is not replayable")

def compensationToAttemptStatus : StepCompensationStatus → Except SagaError StepAttemptStatus
  | .succeeded => .ok .succeeded
  | .unknown => .ok .unknown
  | .halted => .ok .halted
  | _ => .error (.runtime "compensation gate status is not replayable")

def resolutionToAttemptStatus : StepResolutionStatus → Except SagaError StepAttemptStatus
  | .succeeded => .ok .succeeded
  | .rejected => .ok .rejected
  | .halted => .ok .halted
  | _ => .error (.runtime "resolution gate status is not replayable")

/-- The reason a compensation is replayed with. -/
def StepCompensationStatus.replayReason : StepCompensationStatus → Option String
  | .unknown => some "compensation_outcome_unknown"
  | .halted => some "compensation_already_halted"
  | _ => Option.none

/-! ## The runtime -/

/-- `ParticipantRuntime`, at the gate of one step of one saga. -/
structure Participant where
  sagaId : SagaId
  step : StepName
  hashes : Hashes
  /-- The producer trusted for a workflow, a version and a digest, or for any digest. -/
  commandTrust : WorkflowName → Nat → Option String → Option ServiceIdentity

namespace Participant

variable (p : Participant)

/-- A command for the participant's step; the commands of other steps meet other gates. -/
abbrev Command : Type := { e : SagaCommandEnvelope // e.step = p.step }

/-- `EffectId::derive` for the participant's step, as text. -/
def effectId (version : Nat) (phase : StepPhase) : String :=
  uuidText (p.hashes.effectId p.sagaId version p.step phase)

/-- `verify_command_producer`. -/
def trusts (e : SagaCommandEnvelope) (producer : ServiceIdentity) : Bool :=
  p.commandTrust e.workflow e.definitionVersion (some e.definitionDigest) = some producer ||
    p.commandTrust e.workflow e.definitionVersion none = some producer

variable {p}

/-- The gate a command is for. -/
def Command.key (e : p.Command) : ParticipantGateKey :=
  ⟨e.1.tenant, e.1.workflow, e.1.definitionVersion, e.1.definitionDigest⟩

/-- The result `emit_result` publishes. -/
def Command.result (e : p.Command) (status : StepAttemptStatus)
    (terminal : Option StepForwardStatus) (reason : Option String) : SagaResultEnvelope where
  eventId := p.hashes.resultEventId e.1.commandId
  sagaId := p.sagaId
  tenant := e.1.tenant
  workflow := e.1.workflow
  definitionVersion := e.1.definitionVersion
  definitionDigest := e.1.definitionDigest
  step := e.1.step
  phase := e.1.phase
  attempt := e.1.attempt
  effectId := e.1.effectId
  commandId := e.1.commandId
  status := status
  terminal := terminal
  reasonCode := reason

/-- The effect of the command's definition version in a phase. -/
def Command.effect (e : p.Command) (phase : StepPhase) : String :=
  p.effectId e.1.definitionVersion phase

/-- `emit_result`: the result has to pass the contract its consumer checks. -/
def emitResult (e : p.Command) (status : StepAttemptStatus) (terminal : Option StepForwardStatus)
    (reason : Option String) : GateTx Unit := do
  let result := e.result status terminal reason
  require (result.verifyIdentity p.hashes ∧ result.verifyResultContract p.hashes)
    (.command .contractInvalid)
  modify fun db => { db with outbox := db.outbox ++ [result] }

/-- `verified_command_identity` and the claim of the command in the inbox; `false` for a command
that is claimed already. -/
def claim (e : p.Command) (producer : ServiceIdentity) (phase : StepPhase) : GateTx Bool := do
  require (e.1.verified p.hashes p.sagaId) (.command .identityInvalid)
  require (p.trusts e.1 producer) (.command .producerUnauthorized)
  require (e.1.phase = phase) (.command .contractInvalid)
  let db ← get
  if e.1.commandId ∈ db.inbox then return false
  else
    modify fun db => { db with inbox := db.inbox ++ [e.1.commandId] }
    return true

/-- Claim the command, then ask the gate; no answer for a duplicate. -/
def enter {α : Type} (e : p.Command) (producer : ServiceIdentity) (phase : StepPhase)
    (admission : GateTx α) : GateTx (Option α) := do
  if ← claim e producer phase then
    let answer ← admission
    return some answer
  else return none

/-! ## Execute -/

def enterExecute (e : p.Command) (producer : ServiceIdentity) : GateTx (Option ExecuteAdmission) :=
  enter e producer .execute (admitExecute e.key (e.effect .execute))

/-- `handle_authenticated_execute`. -/
def handleExecute (e : p.Command) (producer : ServiceIdentity) (allowUnknown : Bool)
    (run : HandlerRun SagaOutcome) : GateTx ParticipantHandled := do
  match ← enterExecute e producer with
  | none => return .duplicate
  | some .suppressed => return .suppressed
  | some (.alreadyTerminal terminal) =>
    let status ← Tx.ofExcept (forwardToAttemptStatus terminal)
    emitResult e status none none
    return .replayed status
  | some .admitted =>
    let outcome ← run.conclusion "execution"
    let (forward, status, reason) := outcome.ofExecute allowUnknown
    settleExecute forward
    record (.executed forward)
    emitResult e status none reason
    return .executed status

/-! ## Cancel -/

/-- Publish the answer to a cancel command. -/
def answerCancel (e : p.Command) (adjudication : CancelAdjudication) (reason : Option String) :
    GateTx StepAttemptStatus := do
  let (status, terminal) := adjudication.result
  record (.cancelAnswered adjudication)
  emitResult e status terminal reason
  return status

/-- `handle_authenticated_cancel_local`. -/
def handleCancelLocal (e : p.Command) (producer : ServiceIdentity) :
    GateTx ParticipantHandled := do
  match ← enter e producer .cancel
      (adjudicateCancel e.key (e.effect .execute) (e.effect .cancel)) with
  | none => return .duplicate
  | some adjudication =>
    let status ← answerCancel e adjudication none
    return .executed status

def enterCancelExternal (e : p.Command) (producer : ServiceIdentity) :
    GateTx (Option ExternalCancelAdmission) :=
  enter e producer .cancel (admitExternalCancel e.key (e.effect .execute) (e.effect .cancel))

/-- `handle_authenticated_cancel_external`. -/
def handleCancelExternal (e : p.Command) (producer : ServiceIdentity)
    (run : HandlerRun CancelOutcome) : GateTx ParticipantHandled := do
  match ← enterCancelExternal e producer with
  | none => return .duplicate
  | some (.alreadyAdjudicated adjudication) =>
    let status ← answerCancel e adjudication none
    return .replayed status
  | some .admitted =>
    let outcome ← run.conclusion "external cancel"
    let (forward, adjudication, reason) := outcome.result
    settleExternalCancel forward adjudication.cancelStatus
    let status ← answerCancel e adjudication (reason.map safeReasonCode)
    return .executed status

/-! ## Compensate -/

def enterCompensate (e : p.Command) (producer : ServiceIdentity) :
    GateTx (Option CompensationAdmission) :=
  enter e producer .compensate
    (admitCompensation e.key (e.effect .execute) (e.effect .compensate) e.1.recoveryOperationId)

/-- `handle_authenticated_compensate`. -/
def handleCompensate (e : p.Command) (producer : ServiceIdentity)
    (run : HandlerRun CompensationOutcome) : GateTx ParticipantHandled := do
  match ← enterCompensate e producer with
  | none => return .duplicate
  | some (.alreadySettled terminal) =>
    let status ← Tx.ofExcept (compensationToAttemptStatus terminal)
    emitResult e status none terminal.replayReason
    return .replayed status
  | some .missingForwardEffect =>
    record (.compensated .halted)
    emitResult e .halted none (some "compensation_contract_violation")
    return .contractViolation
  | some .admitted =>
    let outcome ← run.conclusion "compensation"
    let (compensation, status, reason) := outcome.ofCompensate
    settleCompensation compensation
    record (.compensated compensation)
    emitResult e status none reason
    return .executed status

/-! ## Resolve -/

def enterResolve (e : p.Command) (producer : ServiceIdentity) :
    GateTx (Option ResolutionAdmission) :=
  enter e producer .resolve
    (admitResolution e.key (e.effect .execute) (e.effect .resolve) e.1.recoveryOperationId)

/-- `handle_authenticated_resolve`. -/
def handleResolve (e : p.Command) (producer : ServiceIdentity) (run : HandlerRun SagaOutcome) :
    GateTx ParticipantHandled := do
  match ← enterResolve e producer with
  | none => return .duplicate
  | some (.alreadySettled _ settled) =>
    let status ← Tx.ofExcept (resolutionToAttemptStatus settled)
    emitResult e status none none
    return .replayed status
  | some .missingUnknownEffect =>
    emitResult e .halted none (some "resolution_contract_violation")
    return .contractViolation
  | some (.admitted target) =>
    let outcome ← run.conclusion "resolution"
    let (resolution, status, reason) := outcome.ofResolve
    settleResolution target resolution
    record (.resolved target resolution)
    emitResult e status none reason
    return .executed status

/-! ## The machine -/

/-- One delivery of a command, with the way the handler comes out should it be called. -/
inductive GateOp (p : Participant)
  | execute (e : p.Command) (producer : ServiceIdentity) (allowUnknown : Bool)
      (run : HandlerRun SagaOutcome)
  | cancelLocal (e : p.Command) (producer : ServiceIdentity)
  | cancelExternal (e : p.Command) (producer : ServiceIdentity) (run : HandlerRun CancelOutcome)
  | compensate (e : p.Command) (producer : ServiceIdentity) (run : HandlerRun CompensationOutcome)
  | resolve (e : p.Command) (producer : ServiceIdentity) (run : HandlerRun SagaOutcome)
  /-- The inbox's retention drops a command. -/
  | forget (commandId : String)

/-- The transaction of an operation. -/
def body : GateOp p → GateTx Unit
  | .execute e producer allowUnknown run => do
    let _ ← handleExecute e producer allowUnknown run
  | .cancelLocal e producer => do let _ ← handleCancelLocal e producer
  | .cancelExternal e producer run => do let _ ← handleCancelExternal e producer run
  | .compensate e producer run => do let _ ← handleCompensate e producer run
  | .resolve e producer run => do let _ ← handleResolve e producer run
  | .forget commandId => modify fun db => { db with inbox := db.inbox.filter (· ≠ commandId) }

/-- Run an operation: its transaction commits or rolls back. -/
def exec (db : ParticipantDb) (op : GateOp p) : ParticipantDb := (body op).commit db

/-- The tables after the operations, in the order in which their transactions committed. -/
def run (p : Participant) (ops : List (GateOp p)) : ParticipantDb := runFrom exec {} ops

end Participant

end NasaRuntime.Saga
