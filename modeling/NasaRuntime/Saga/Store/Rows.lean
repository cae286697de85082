import NasaRuntime.Lib.Table
import NasaRuntime.Lib.Transaction
import NasaRuntime.Saga.Definition

/-!
# The rows of one saga

The rows that the MySQL store keeps for one `saga_id` (`nasaga-mysql/src/schema.rs`), and what the
store's statements write into them. Every table is a list of rows in the order in which they were
inserted; `saga_id` is left out of the rows, since every statement selects by it.

The tables of other sagas meet these only in unique keys over derived identities. The clock of the
database (`CURRENT_TIMESTAMP`) is a reading kept in the store; nothing is assumed about how it
moves.
-/

namespace NasaRuntime.Saga

open Table Tx

/-! ## Errors -/

inductive SagaConcurrencyError
  | staleSnapshot | duplicateTrigger
  deriving DecidableEq

/-- `StartSagaError`, without the payload errors. -/
inductive StartSagaError
  | definitionInactive | definitionEmpty | requestConflict | tenantQuotaExceeded
  deriving DecidableEq

/-- The `SagaResultProcessingError`s of the result path. -/
inductive SagaResultProcessingError
  | identityInvalid | contractInvalid | producerUnauthorized | paused
  deriving DecidableEq

/-- The `SagaCommandProcessingError`s of the participant. -/
inductive SagaCommandProcessingError
  | identityInvalid | contractInvalid | producerUnauthorized
  deriving DecidableEq

/-- The `SagaManagementError`s of the management operations. -/
inductive SagaManagementError
  | permissionDenied | notFound | rateLimitExceeded | preconditionFailed
  deriving DecidableEq

/-- An error of a transaction; any of them rolls the transaction back. -/
inductive SagaError
  /-- `SagaStoreError::new`. -/
  | store (text : String)
  /-- `SagaStoreError::conflict`. -/
  | conflict (text : String)
  /-- `anyhow::anyhow!`. -/
  | runtime (text : String)
  | start (error : StartSagaError)
  | result (error : SagaResultProcessingError)
  | command (error : SagaCommandProcessingError)
  | concurrency (error : SagaConcurrencyError)
  /-- A management error with its context. -/
  | management (error : SagaManagementError) (context : String)
  deriving DecidableEq

/-! ## Rows -/

/-- `saga_instance`. -/
structure SagaInstanceRow where
  tenant : TenantId
  workflow : WorkflowName
  businessKey : BusinessKey
  definitionVersion : Nat
  definitionDigest : String
  startRequestDigest : String
  status : SagaStatus
  controlState : ControlState
  controlVersion : Nat
  direction : Direction
  currentStep : Option StepName
  compensationPlanVersion : Option String
  version : Nat
  deadlineAt : Option Int
  failureCode : Option String
  deriving DecidableEq

/-- `saga_step`. -/
structure SagaStepRow where
  step : StepName
  ordinal : Nat
  forwardStatus : StepForwardStatus := .pending
  cancelStatus : StepCancelStatus := .none
  compensationStatus : StepCompensationStatus := .none
  resolutionStatus : StepResolutionStatus := .none
  executeAttempt : Option AttemptNo := none
  cancelAttempt : Option AttemptNo := none
  compensateAttempt : Option AttemptNo := none
  resolveAttempt : Option AttemptNo := none
  compensationPlanVersion : Option String := none
  compensationOrder : Option Nat := none
  lastErrorCode : Option String := none
  deriving DecidableEq

/-- The attempt a phase is projected at. -/
def SagaStepRow.attempt (row : SagaStepRow) : StepPhase → Option AttemptNo
  | .execute => row.executeAttempt
  | .cancel => row.cancelAttempt
  | .compensate => row.compensateAttempt
  | .resolve => row.resolveAttempt

/-- The `PROJECT_*_SQL` statements: the projection of a phase only moves forward. -/
def SagaStepRow.project (row : SagaStepRow) (phase : StepPhase) (attempt : AttemptNo) :
    SagaStepRow :=
  if (row.attempt phase).getD 0 ≤ attempt then
    match phase with
    | .execute => { row with executeAttempt := some attempt }
    | .cancel => { row with cancelAttempt := some attempt }
    | .compensate => { row with compensateAttempt := some attempt }
    | .resolve => { row with resolveAttempt := some attempt }
  else row

structure StepJournalPatch where
  forwardStatus : Option StepForwardStatus := none
  cancelStatus : Option StepCancelStatus := none
  compensationStatus : Option StepCompensationStatus := none
  resolutionStatus : Option StepResolutionStatus := none
  lastErrorCode : Option String := none
  deriving DecidableEq

/-- The `COALESCE` overwrite of `update_step_journal`. -/
def SagaStepRow.apply (row : SagaStepRow) (patch : StepJournalPatch) : SagaStepRow :=
  { row with
    forwardStatus := patch.forwardStatus.getD row.forwardStatus
    cancelStatus := patch.cancelStatus.getD row.cancelStatus
    compensationStatus := patch.compensationStatus.getD row.compensationStatus
    resolutionStatus := patch.resolutionStatus.getD row.resolutionStatus
    lastErrorCode := patch.lastErrorCode <|> row.lastErrorCode }

/-- The `SET` clause of `mark_compensation_plan`. -/
def SagaStepRow.mark (row : SagaStepRow) (version : String) (order : Nat) : SagaStepRow :=
  { row with
    compensationPlanVersion := some version
    compensationOrder := some order
    compensationStatus :=
      if row.compensationStatus = .none then .pending else row.compensationStatus }

/-- `saga_step_attempt`. -/
structure SagaStepAttemptRow where
  step : StepName
  phase : StepPhase
  attempt : AttemptNo
  effectId : String
  commandId : String
  status : StepAttemptStatus
  outcomeEventId : Option String
  startedAt : Nat
  deriving DecidableEq

/-- The primary key of an attempt. -/
def SagaStepAttemptRow.is (row : SagaStepAttemptRow) (step : StepName) (phase : StepPhase)
    (attempt : AttemptNo) : Bool :=
  row.step = step && row.phase = phase && row.attempt = attempt

/-- `saga_transition`; the state before the first one is `NONE`. -/
structure SagaTransitionRow where
  transitionSeq : Nat
  fromState : Option SagaStatus
  toState : SagaStatus
  triggerKind : TriggerKind
  triggerId : String
  definitionVersion : Nat
  deriving DecidableEq

/-- `saga_control_transition`. -/
structure SagaControlRow where
  controlSeq : Nat
  fromState : ControlState
  toState : ControlState
  operationId : String
  actor : String
  reason : String
  deriving DecidableEq

/-- The actions of `saga_management_audit`. -/
inductive ManagementAction
  | retryFrozenCompensation | retryResolution | manualClose
  deriving DecidableEq

/-- `saga_management_audit`. -/
structure SagaManagementAuditRow where
  operationId : String
  action : ManagementAction
  actor : String
  reason : String
  deriving DecidableEq

inductive SagaConflictKind
  | attemptTerminal | crossPhaseFact
  deriving DecidableEq

/-- `AttemptConflictFact`, the row of `saga_conflict_fact`. -/
structure AttemptConflictFact where
  step : StepName
  phase : StepPhase
  attempt : AttemptNo
  existingStatus : StepAttemptStatus
  incomingStatus : StepAttemptStatus
  incomingEventId : String
  conflictKind : SagaConflictKind
  deriving DecidableEq

inductive TimerState
  | pending | claimed | fired | cancelled
  deriving DecidableEq

/-- `saga_timer`. -/
structure SagaTimerRow where
  timerId : String
  scope : TimerScope
  kind : TimerKind
  attempt : AttemptNo
  dueAt : Int
  availableAt : Int
  state : TimerState
  expectedSagaVersion : Nat
  generation : Nat
  owner : Option String
  fencingToken : Option String
  claimedUntil : Option Int
  deriving DecidableEq

/-- A timer that can still fire. -/
def SagaTimerRow.live (t : SagaTimerRow) : Bool := t.state = .pending || t.state = .claimed

/-- The primary key of a timer. -/
def SagaTimerRow.is (t : SagaTimerRow) (scope : TimerScope) (kind : TimerKind)
    (attempt : AttemptNo) : Bool :=
  t.scope = scope && t.kind = kind && t.attempt = attempt

/-- `SagaCommandEnvelope`, without the business payload. -/
structure SagaCommandEnvelope where
  tenant : TenantId
  workflow : WorkflowName
  definitionVersion : Nat
  definitionDigest : String
  step : StepName
  phase : StepPhase
  attempt : AttemptNo
  effectId : String
  commandId : String
  recoveryOperationId : Option String
  deriving DecidableEq

/-- The tables of one saga. -/
structure Db where
  inst : Option SagaInstanceRow := none
  steps : List SagaStepRow := []
  attempts : List SagaStepAttemptRow := []
  transitions : List SagaTransitionRow := []
  controls : List SagaControlRow := []
  audits : List SagaManagementAuditRow := []
  conflicts : List AttemptConflictFact := []
  timers : List SagaTimerRow := []
  /-- The commands appended to the outbox, first one first. -/
  outbox : List SagaCommandEnvelope := []
  /-- The event ids the inbox still remembers. -/
  inbox : List String := []
  clock : Nat := 0
  deriving DecidableEq

/-- A transaction of the saga store. -/
abbrev SagaTx := Tx Db SagaError

/-! ## What the statements write -/

structure TransitionSpec where
  toStatus : SagaStatus
  direction : Direction
  currentStep : Option StepName
  triggerKind : TriggerKind
  triggerId : String
  definitionVersion : Nat
  failureCode : Option String := none
  compensationPlanVersion : Option String := none

/-- The `SET` clause of the instance's compare-and-swap. -/
def SagaInstanceRow.advanced (row : SagaInstanceRow) (spec : TransitionSpec) : SagaInstanceRow :=
  { row with
    status := spec.toStatus
    direction := spec.direction
    currentStep := spec.currentStep
    failureCode := spec.failureCode <|> row.failureCode
    compensationPlanVersion := spec.compensationPlanVersion <|> row.compensationPlanVersion
    version := row.version + 1 }

/-- A timer whose lease columns are cleared. -/
def SagaTimerRow.unowned (t : SagaTimerRow) (state : TimerState) : SagaTimerRow :=
  { t with state, owner := none, fencingToken := none, claimedUntil := none }

/-- The timer is claimed by this token and its lease has not run out at `now`. -/
def SagaTimerRow.heldBy (t : SagaTimerRow) (token : String) (now : Int) : Bool :=
  t.state = .claimed && t.fencingToken = some token && t.claimedUntil.any (now < ·)

namespace Db

/-- The journal row of a step. -/
def stepRow (db : Db) (step : StepName) : Option SagaStepRow := db.steps.find? (·.step = step)

def patchStep (db : Db) (step : StepName) (patch : StepJournalPatch) : Db :=
  { db with steps := updateWhere (·.step = step) (·.apply patch) db.steps }

def settleAttempt (db : Db) (step : StepName) (phase : StepPhase) (attempt : AttemptNo)
    (status : StepAttemptStatus) (eventId : String) : Db :=
  { db with
    attempts := updateWhere (·.is step phase attempt)
      (fun row => { row with status, outcomeEventId := some eventId }) db.attempts }

def startAttempt (db : Db) (row : SagaStepAttemptRow) : Db :=
  { db with
    attempts := db.attempts ++ [row]
    steps := updateWhere (·.step = row.step) (·.project row.phase row.attempt) db.steps }

def appendCommand (db : Db) (command : SagaCommandEnvelope) : Db :=
  { db with outbox := db.outbox ++ [command] }

def insertTimer (db : Db) (timer : SagaTimerRow) : Db := { db with timers := db.timers ++ [timer] }

/-- Cancel the live timers of a scope, of one kind or of every kind. -/
def cancelTimers (db : Db) (scope : TimerScope) (kind : Option TimerKind) : Db :=
  { db with
    timers := updateWhere (fun t => t.scope = scope && kind.all (· = t.kind) && t.live)
      (·.unowned .cancelled) db.timers }

def fireTimer (db : Db) (timerId token : String) (now : Int) : Db :=
  { db with
    timers := updateWhere (fun t => t.timerId = timerId && t.heldBy token now)
      (·.unowned .fired) db.timers }

/-- The instance's compare-and-swap together with its row of the transition journal. -/
def advance (db : Db) (row : SagaInstanceRow) (spec : TransitionSpec) : Db :=
  { db with
    inst := some (row.advanced spec)
    transitions := db.transitions ++ [⟨row.version + 1, some row.status, spec.toStatus,
      spec.triggerKind, spec.triggerId, spec.definitionVersion⟩] }

/-- `mark_compensation_plan`: every member of the plan carries its version and order. -/
def markPlan (db : Db) (plan : CompensationPlan) : Db :=
  { db with
    steps := plan.entries.foldl (fun steps entry => updateWhere (·.step = entry.step)
      (·.mark plan.version entry.order) steps) db.steps }

end Db

structure SagaResultEnvelope where
  eventId : String
  sagaId : SagaId
  tenant : TenantId
  workflow : WorkflowName
  definitionVersion : Nat
  definitionDigest : String
  step : StepName
  phase : StepPhase
  attempt : AttemptNo
  effectId : String
  commandId : String
  status : StepAttemptStatus
  terminal : Option StepForwardStatus
  reasonCode : Option String
  deriving DecidableEq

structure VerifiedIdentity where
  sagaId : SagaId
  tenant : TenantId
  workflow : WorkflowName
  definitionVersion : Nat
  definitionDigest : String
  step : StepName
  phase : StepPhase
  attempt : AttemptNo
  deriving DecidableEq

/-- The statuses a phase may be answered with. -/
def StepPhase.allowsStatus : StepPhase → StepAttemptStatus → Bool
  | .execute, .succeeded | .execute, .rejected | .execute, .unknown | .execute, .halted => true
  | .cancel, .cancelConfirmed | .cancel, .alreadyTerminal | .cancel, .resolutionPending => true
  | .compensate, .succeeded | .compensate, .unknown | .compensate, .halted => true
  | .resolve, .succeeded | .resolve, .rejected | .resolve, .unknown | .resolve, .halted => true
  | _, _ => false

/-- A terminal status goes with `ALREADY_TERMINAL`, and only with it. -/
def terminalMatches : StepAttemptStatus → Option StepForwardStatus → Bool
  | .alreadyTerminal, some .succeeded | .alreadyTerminal, some .rejected
  | .alreadyTerminal, some .halted => true
  | .alreadyTerminal, _ => false
  | _, some _ => false
  | _, none => true

/-- `verify_identity`: the derived identities are the reported ones. -/
def verifyIdentity (hs : Hashes) (sagaId : SagaId) (version : Nat) (digest : String)
    (step : StepName) (phase : StepPhase) (attempt : AttemptNo) (effectId commandId : String) :
    Bool :=
  let effect := hs.effectId sagaId version step phase
  version ≠ 0 && attempt ≠ 0 && validDigest digest &&
    uuidText effect = effectId && uuidText (hs.commandId effect attempt) = commandId

/-- `SagaCommandEnvelope::verified`, for a command of the saga: only a compensation or a
resolution may carry the identity of a recovery. -/
def SagaCommandEnvelope.verified (hs : Hashes) (sagaId : SagaId) (e : SagaCommandEnvelope) :
    Bool :=
  verifyIdentity hs sagaId e.definitionVersion e.definitionDigest e.step e.phase e.attempt
      e.effectId e.commandId &&
    e.recoveryOperationId.all fun operationId =>
      validTriggerId operationId && (e.phase = .compensate || e.phase = .resolve)

namespace SagaResultEnvelope

variable (hs : Hashes) (e : SagaResultEnvelope)

def verifyIdentity : Bool :=
  Saga.verifyIdentity hs e.sagaId e.definitionVersion e.definitionDigest e.step e.phase e.attempt
    e.effectId e.commandId

def verifyResultContract : Bool :=
  e.eventId = hs.resultEventId e.commandId && e.phase.allowsStatus e.status &&
    terminalMatches e.status e.terminal && e.reasonCode.all validReasonCode

def identity : VerifiedIdentity where
  sagaId := e.sagaId
  tenant := e.tenant
  workflow := e.workflow
  definitionVersion := e.definitionVersion
  definitionDigest := e.definitionDigest
  step := e.step
  phase := e.phase
  attempt := e.attempt

def verifiedForDelivery : Except SagaError VerifiedIdentity :=
  if !e.verifyIdentity hs then .error (.result .identityInvalid)
  else if !e.verifyResultContract hs then .error (.result .contractInvalid)
  else .ok e.identity

theorem verifiedForDelivery_ok {identity : VerifiedIdentity}
    (h : e.verifiedForDelivery hs = .ok identity) :
    identity = e.identity ∧ e.phase.allowsStatus e.status ∧ terminalMatches e.status e.terminal := by
  unfold verifiedForDelivery at h
  split at h
  · cases h
  · split at h
    · cases h
    · rename_i hc
      simp only [verifyResultContract, Bool.not_eq_eq_eq_not, Bool.not_true,
        Bool.not_eq_false, Bool.and_eq_true] at hc
      cases h
      exact ⟨rfl, hc.1.1.2, hc.1.2⟩

end SagaResultEnvelope

/-- `verify_instance_contract`. -/
def SagaInstanceRow.contractMatches (row : SagaInstanceRow) (identity : VerifiedIdentity) : Bool :=
  row.tenant = identity.tenant && row.workflow = identity.workflow &&
    row.definitionVersion = identity.definitionVersion &&
    row.definitionDigest = identity.definitionDigest

end NasaRuntime.Saga
