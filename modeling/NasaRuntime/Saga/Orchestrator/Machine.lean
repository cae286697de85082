import NasaRuntime.Saga.Projection
import NasaRuntime.Saga.Store.Instance

/-!
# The orchestrator

The primitives at the end of `orchestrator.rs`: advancing the instance, issuing a command together
with its attempt row and its timeout, and the ways in which the result handlers leave a segment.

An orchestrator here serves one `saga_id`. Its registry answers for a tenant, a workflow and a
version with the definition registered under them, which never changes.

The remaining entry points of `orchestrator.rs`, starting a saga and the management operations,
and the machine made of all of them: an `Op` is one call of an entry point with everything it is
given from outside, and `exec` is the transaction the call runs in. Operations of concurrent
workers, replicas and administrators are serialised by the store, so a run is a list of
operations; nothing is assumed about their order, about the clocks they carry or about which of
them are repeated.

`run_due_timers` is three operations, since claiming, firing and releasing are separate
transactions. The inbox may forget an event at any time (retention), and the clock of the database
may be read at any value.
-/

namespace NasaRuntime.Saga

open Tx

/-! ## Configuration -/

/-- `OrchestratorConfig`, without the inbox consumer's name, the quotas and the startup scan. -/
structure OrchestratorConfig where
  cancelMaxAttempts : Nat := 5
  compensateMaxAttempts : Nat := 5
  resolveMaxAttempts : Nat := 10
  timerClaimLimit : Nat := 32
  timerLeaseMs : Int := 60000
  pauseBackoffMs : Int := 30000
  enableManualClose : Bool := false

/-- The budget checks of `validate_config`. -/
def OrchestratorConfig.isValid (config : OrchestratorConfig) : Bool :=
  config.cancelMaxAttempts ≠ 0 && config.compensateMaxAttempts ≠ 0 &&
    config.resolveMaxAttempts ≠ 0 && config.timerClaimLimit ≠ 0 && 0 < config.timerLeaseMs &&
    0 < config.pauseBackoffMs

/-- `Orchestrator`, for one saga. -/
structure Orchestrator where
  sagaId : SagaId
  /-- `get_for_tenant`. -/
  registry : TenantId → WorkflowName → Nat → Option WorkflowDefinition
  /-- Whether `get_for_start` finds the definition. -/
  startable : TenantId → WorkflowName → Nat → Bool
  config : OrchestratorConfig
  configValid : config.isValid = true
  hashes : Hashes

/-! ## Time -/

def durationMillis (duration : Nat) : Except SagaError Int :=
  if 2 ^ 63 ≤ duration then
    .error (.runtime "saga duration exceeds the supported millisecond range")
  else if duration = 0 then .error (.runtime "saga duration must be at least one millisecond")
  else .ok duration

def checkedDeadline (now delay : Int) : Except SagaError Int :=
  if delay ≤ 0 then .error (.runtime "saga timer delay must be positive")
  else if now + delay < 2 ^ 63 then .ok (now + delay)
  else .error (.runtime "saga timer deadline overflow")

/-- The deadline a duration after `now`. -/
def deadlineAfter (now : Int) (duration : Nat) : Except SagaError Int := do
  checkedDeadline now (← durationMillis duration)

def ensureApplied : CasOutcome → Except SagaError Nat
  | .applied newVersion => .ok newVersion
  | .conflict => .error (.concurrency .staleSnapshot)
  | .duplicateTrigger => .error (.concurrency .duplicateTrigger)

/-- The store's `advance` and `ensure_applied`, which every caller puts behind it. -/
def advanceApplied (version : Nat) (src : SagaStatus) (spec : TransitionSpec) : SagaTx Nat := do
  let outcome ← advance version src spec
  Tx.ofExcept (ensureApplied outcome)

def nextAttempt (step : StepName) (phase : StepPhase) : SagaTx AttemptNo := do
  let db ← get
  match (db.attemptNos step phase).max? with
  | none => return AttemptNo.first
  | some n => Tx.ofExcept ((AttemptNo.next n).mapError fun v => .runtime ("attempt overflow: " ++ v.code))

/-- The journal row of a step, or the given error. -/
def loadStep (step : StepName) (error : SagaError) : SagaTx SagaStepRow := do
  let db ← get
  orThrow (db.stepRow step) error

namespace Orchestrator

variable (o : Orchestrator)

/-- The definition of an instance. -/
def definitionOf (row : SagaInstanceRow) : Option WorkflowDefinition :=
  o.registry row.tenant row.workflow row.definitionVersion

/-! ## Advancing and issuing -/

/-- The transition `advance` asks the store for. -/
def transitionSpec (row : SagaInstanceRow) (dst : SagaStatus) (direction : Direction)
    (currentStep : Option StepName) (triggerKind : TriggerKind) (triggerId : String)
    (failureCode planVersion : Option String) : TransitionSpec where
  toStatus := dst
  direction := direction
  currentStep := currentStep
  triggerKind := triggerKind
  triggerId := triggerId
  definitionVersion := row.definitionVersion
  failureCode := failureCode
  compensationPlanVersion := planVersion

/-- `advance`, `advance_from`. -/
def advance (row : SagaInstanceRow) (dst : SagaStatus) (direction : Direction)
    (currentStep : Option StepName) (triggerKind : TriggerKind) (triggerId : String)
    (failureCode planVersion : Option String) : SagaTx Nat :=
  advanceApplied row.version row.status
    (transitionSpec row dst direction currentStep triggerKind triggerId failureCode planVersion)

/-- The identity of a timer and what `schedule_timer` of the orchestrator asks for. -/
def timerSpec (scope : TimerScope) (kind : TimerKind) (attempt : AttemptNo) (dueAt : Int)
    (expectedVersion : Nat) : TimerSpec where
  timerId := o.hashes.timerId o.sagaId scope kind attempt
  scope := scope
  kind := kind
  dueAt := dueAt
  attempt := attempt
  expectedSagaVersion := expectedVersion

def scheduleTimer (scope : TimerScope) (kind : TimerKind) (attempt : AttemptNo) (dueAt : Int)
    (expectedVersion : Nat) : SagaTx Unit := do
  let _ ← Saga.scheduleTimer (o.timerSpec scope kind attempt dueAt expectedVersion)

/-- The envelope of a command. -/
def commandEnvelope (row : SagaInstanceRow) (step : StepName) (phase : StepPhase)
    (attempt : AttemptNo) (recovery : Option String) : SagaCommandEnvelope :=
  let effect := o.hashes.effectId o.sagaId row.definitionVersion step phase
  { tenant := row.tenant
    workflow := row.workflow
    definitionVersion := row.definitionVersion
    definitionDigest := row.definitionDigest
    step := step
    phase := phase
    attempt := attempt
    effectId := uuidText effect
    commandId := uuidText (o.hashes.commandId effect attempt)
    recoveryOperationId := recovery }

/-- `issue_command`: the attempt row, the command in the outbox, and its timeout. -/
def issueCommand (row : SagaInstanceRow) (stepDef : StepDefinition) (phase : StepPhase)
    (attempt : AttemptNo) (recovery : Option String) (now : Int) (expectedVersion : Nat) :
    SagaTx Unit := do
  let command := o.commandEnvelope row stepDef.name phase attempt recovery
  let _ ← recordAttemptStarted stepDef.name phase attempt command.effectId command.commandId
  modify (·.appendCommand command)
  let due ← Tx.ofExcept (deadlineAfter now stepDef.timeout)
  o.scheduleTimer (.step stepDef.name) (phaseTimeoutKind phase) attempt due expectedVersion

def cancelResolutionTimers (step : StepName) : SagaTx Unit := do
  cancelScopeTimers (.step step) (some .resolutionBudget)
  cancelScopeTimers (.step step) (some .forwardResolutionBudget)
  cancelScopeTimers (.step step) (some .compensationResolutionBudget)
  cancelScopeTimers (.step step) (some .resolveTimeout)

def escalateManual (row : SagaInstanceRow) (triggerKind : TriggerKind) (triggerId : String)
    (failureCode : String) : SagaTx SagaStatus := do
  let _ ← advance row .manualIntervention row.direction row.currentStep triggerKind triggerId
    (some failureCode) none
  return .manualIntervention

/-! ## Converging -/

/-- The member checks of `verify_compensation_completion`. -/
def verifyMembers (steps : List SagaStepRow) (frozen : String) :
    List CompensationEntry → Except SagaError Unit
  | [] => .ok ()
  | entry :: rest =>
    match steps.find? (·.step = entry.step) with
    | none => .error (.runtime "frozen compensation member is missing")
    | some row =>
      if row.compensationPlanVersion ≠ some frozen ∨ row.compensationOrder ≠ some entry.order ∨
          row.compensationStatus ≠ .succeeded then
        .error (.runtime "frozen compensation member is not durably succeeded")
      else verifyMembers steps frozen rest

def verifyCompensationCompletion (expectedVersion : Nat) : SagaTx Nat := do
  let db ← get
  let row ← orThrow db.inst (.runtime "saga instance not found while converging")
  require (row.status = .compensating ∧ row.version = expectedVersion)
    (.runtime "compensation completion proof used a stale instance snapshot")
  let frozen ← orThrow row.compensationPlanVersion
    (.runtime "compensating instance has no frozen plan")
  let definition ← orThrow (o.definitionOf row)
    (.runtime "instance definition is not registered")
  let rebuilt ← Tx.ofExcept ((freezeCompensationPlan o.hashes definition
    (journalOf db.steps)).mapError fun violation => .runtime violation.code)
  require (rebuilt.version = frozen)
    (.runtime "frozen compensation plan no longer matches durable forward facts")
  Tx.ofExcept (verifyMembers db.steps frozen rebuilt.entries)
  require (markedCount db.steps frozen = rebuilt.entries.length)
    (.runtime "durable compensation plan contains unexpected members")
  return row.definitionVersion

/-- `converge_compensated`, `converge_compensated_at`. -/
def convergeCompensated (version : Nat) (triggerKind : TriggerKind) (causeId : String) :
    SagaTx Unit := do
  let definitionVersion ← o.verifyCompensationCompletion version
  let _ ← advanceApplied version .compensating
    { toStatus := .compensated
      direction := .compensating
      currentStep := none
      triggerKind := triggerKind
      triggerId := o.hashes.convergeTriggerId causeId
      definitionVersion := definitionVersion }
  cancelScopeTimers .inst none

/-! ## Leaving a segment -/

def proceedForward (c : ResultContext) : SagaTx SagaStatus := do
  let db ← get
  match ← Tx.ofExcept (nextPendingForward c.definition db.steps) with
  | some next =>
    let version ← advance c.inst .running .forward (some next) .event c.eventId none none
    let nextDef ← orThrow (c.definition.step next) (.runtime "next step absent from definition")
    let attempt ← nextAttempt next .execute
    o.issueCommand c.inst nextDef .execute attempt none c.now version
    return .running
  | none =>
    let _ ← advance c.inst .completed .forward none .event c.eventId none none
    cancelScopeTimers .inst none
    return .completed

def enterCompensation (c : ResultContext) : SagaTx SagaStatus := do
  let db ← get
  match freezeCompensationPlan o.hashes c.definition (journalOf db.steps) with
  | .error violation => escalateManual c.inst .event c.eventId violation.code
  | .ok plan =>
    let first := plan.entries.head?.map (·.step)
    let version ← advance c.inst .compensating .compensating first .event c.eventId none
      (some plan.version)
    markCompensationPlan plan
    match first with
    | some step =>
      let stepDef ← orThrow (c.definition.step step) (.runtime "plan step absent from definition")
      let attempt ← nextAttempt step .compensate
      o.issueCommand c.inst stepDef .compensate attempt none c.now version
      return .compensating
    | none =>
      o.convergeCompensated version .event c.eventId
      return .compensated

def continueCompensation (c : ResultContext) : SagaTx SagaStatus := do
  let db ← get
  match nextPendingCompensation o.hashes c.inst c.definition db.steps false with
  | .error _ => escalateManual c.inst .event c.eventId "compensation_plan_drift"
  | .ok next =>
    let version ← advance c.inst .compensating .compensating next .event c.eventId none none
    match next with
    | some step =>
      let stepDef ← orThrow (c.definition.step step) (.runtime "plan step absent from definition")
      let attempt ← nextAttempt step .compensate
      o.issueCommand c.inst stepDef .compensate attempt none c.now version
      return .compensating
    | none =>
      o.convergeCompensated version .event c.eventId
      return .compensated

/-- The resolution channel of a step: the hard budget, and a query if the step is polled. -/
def openResolution (row : SagaInstanceRow) (stepDef : StepDefinition) (direction : Direction)
    (budgetAttempt : AttemptNo) (now : Int) (version : Nat) : SagaTx Unit := do
  let due ← Tx.ofExcept (deadlineAfter now stepDef.resolution.budget)
  o.scheduleTimer (.step stepDef.name) (resolutionBudgetKind direction) budgetAttempt due version
  when (stepDef.resolution.mode = some .poll) do
    let attempt ← nextAttempt stepDef.name .resolve
    o.issueCommand row stepDef .resolve attempt none now version

def enterWaitingResolution (c : ResultContext) (direction : Direction) : SagaTx SagaStatus := do
  if !c.stepDef.resolution.allowUnknown then
    when (c.phase = .execute) (updateStepJournal c.step { forwardStatus := some .unknown })
    escalateManual c.inst .event c.eventId "unknown_not_allowed"
  else
    updateStepJournal c.step
      { forwardStatus := if c.phase = .execute then some .unknown else none
        resolutionStatus := some .pending }
    cancelScopeTimers (.step c.step) (some .stepTimeout)
    let version ← advance c.inst .waitingResolution direction (some c.step) .event c.eventId
      none none
    o.openResolution c.inst c.stepDef direction c.attempt c.now version
    return .waitingResolution

def reissueResolve (c : ResultContext) : SagaTx SagaStatus := do
  let db ← get
  if o.config.resolveMaxAttempts ≤ db.countResolutionAttempts c.step c.inst.direction then
    escalateManual c.inst .event c.eventId "resolve_attempts_exhausted"
  else
    let attempt ← nextAttempt c.step .resolve
    let version ← advance c.inst .waitingResolution c.inst.direction (some c.step) .event
      c.eventId none none
    o.issueCommand c.inst c.stepDef .resolve attempt none c.now version
    return .waitingResolution

end Orchestrator

inductive HandleOutcome
  | applied (status : SagaStatus)
  | duplicate
  deriving DecidableEq

inductive TimerOutcome
  | applied (status : SagaStatus)
  | skippedPaused | skippedFencingLost | skippedStale
  deriving DecidableEq

/-- The merge of a projection, unless it denies a compensation that succeeded. -/
def ResultContext.merge (c : ResultContext) (row : SagaStepRow) (patch : StepJournalPatch) :
    Option StepJournalPatch :=
  if c.resolveAfterCompensationSuccess row patch then none else mergeDeferredProjection row patch

/-- An instance that no event can move any more. -/
def SagaStatus.isFrozen (status : SagaStatus) : Bool :=
  status.isTerminal || status = .manualIntervention

namespace Orchestrator

variable (o : Orchestrator)

/-! ## Projections -/

/-- A result that contradicts a settled fact of its step: keep both, freeze the instance. -/
def onCrossPhaseConflict (c : ResultContext) (row : SagaStepRow) : SagaTx SagaStatus := do
  let existing ← orThrow (conflictingProjectionStatus row c)
    (.runtime "conflicting projection has no settled fact")
  recordAttemptConflict ⟨c.step, c.phase, c.attempt, existing, c.status, c.eventId, .crossPhaseFact⟩
  if c.inst.status.isFrozen then return c.inst.status
  else escalateManual c.inst .event c.eventId "cross_phase_fact_conflict"

def projectDeferredResult (c : ResultContext) : SagaTx SagaStatus := do
  let row ← loadStep c.step (.runtime "step journal row is missing")
  if row.attempt c.phase ≠ some c.attempt then return c.inst.status
  else
    let patch ← Tx.ofExcept c.deferredPatch
    match c.merge row patch with
    | none => onCrossPhaseConflict c row
    | some merged =>
      cancelScopeTimers (.step c.step) (some (phaseTimeoutKind c.phase))
      updateStepJournal c.step merged
      return c.inst.status

/-- `apply_monotonic_projection`: `some` status if the result was refused. -/
def applyMonotonicProjection (c : ResultContext) (patch : StepJournalPatch) :
    SagaTx (Option SagaStatus) := do
  let row ← loadStep c.step (.runtime "step journal row is missing")
  match c.merge row patch with
  | none =>
    let status ← onCrossPhaseConflict c row
    return some status
  | some merged =>
    updateStepJournal c.step merged
    return none

/-! ## Results -/

/-- The instance waits for a result of this step in this status. -/
def isHot (c : ResultContext) (status : SagaStatus) : Prop :=
  c.inst.status = status ∧ c.inst.currentStep = some c.step

instance (c : ResultContext) (status : SagaStatus) : Decidable (isHot c status) :=
  inferInstanceAs (Decidable (_ ∧ _))

def onExecuteResult (c : ResultContext) : SagaTx SagaStatus := do
  if ¬ isHot c .running then projectDeferredResult c
  else
    match c.status with
    | .succeeded =>
      updateStepJournal c.step { forwardStatus := some .succeeded }
      cancelScopeTimers (.step c.step) (some .stepTimeout)
      o.proceedForward c
    | .rejected =>
      updateStepJournal c.step { forwardStatus := some .rejected, lastErrorCode := c.reasonCode }
      cancelScopeTimers (.step c.step) (some .stepTimeout)
      o.enterCompensation c
    | .unknown => o.enterWaitingResolution c .forward
    | .halted =>
      updateStepJournal c.step { forwardStatus := some .halted, lastErrorCode := c.reasonCode }
      cancelScopeTimers (.step c.step) none
      escalateManual c.inst .event c.eventId "step_halted"
    | _ => throw (.runtime "cancel-vocabulary status on an execute result")

/-- What `on_cancel_result` does once the forward fact of `ALREADY_TERMINAL` is stored. -/
def onAlreadyTerminal (c : ResultContext) (terminal : StepForwardStatus) : SagaTx SagaStatus :=
  match terminal with
  | .succeeded =>
    match c.stepDef.timeoutPolicy with
    | .acceptLateSuccess => o.proceedForward c
    | .compensateLateSuccess => o.enterCompensation c
  | .rejected => o.enterCompensation c
  | .halted => escalateManual c.inst .event c.eventId "step_halted"
  | _ => throw (.runtime "ALREADY_TERMINAL carried a non-terminal forward status")

def onCancelResult (c : ResultContext) : SagaTx SagaStatus := do
  if ¬ isHot c .cancelling then projectDeferredResult c
  else
    match c.status with
    | .cancelConfirmed =>
      match ← applyMonotonicProjection c
          { forwardStatus := some .cancelled, cancelStatus := some .confirmed } with
      | some status => return status
      | none =>
        cancelScopeTimers (.step c.step) (some .cancelTimeout)
        o.enterCompensation c
    | .alreadyTerminal =>
      let terminal ← orThrow c.terminal (.runtime "ALREADY_TERMINAL requires a terminal status")
      match ← applyMonotonicProjection c
          { forwardStatus := some terminal, cancelStatus := some .alreadyTerminal } with
      | some status => return status
      | none =>
        cancelScopeTimers (.step c.step) (some .cancelTimeout)
        o.onAlreadyTerminal c terminal
    | .resolutionPending =>
      match ← applyMonotonicProjection c { cancelStatus := some .resolutionPending } with
      | some status => return status
      | none =>
        cancelScopeTimers (.step c.step) (some .cancelTimeout)
        o.enterWaitingResolution c .forward
    | _ => throw (.runtime "non-cancel status on a cancel result")

def onCompensateResult (c : ResultContext) : SagaTx SagaStatus := do
  if ¬ isHot c .compensating then projectDeferredResult c
  else
    cancelScopeTimers (.step c.step) (some .compensateTimeout)
    match c.status with
    | .succeeded =>
      updateStepJournal c.step { compensationStatus := some .succeeded }
      o.continueCompensation c
    | .unknown =>
      updateStepJournal c.step { compensationStatus := some .unknown }
      o.enterWaitingResolution c .compensating
    | .halted =>
      updateStepJournal c.step
        { compensationStatus := some .halted, lastErrorCode := c.reasonCode }
      escalateManual c.inst .event c.eventId "compensation_halted"
    | _ => throw (.runtime "invalid status on a compensate result")

/-- What a resolved forward effect leads to when the step's policy decides. -/
def acceptForward (c : ResultContext) : SagaTx SagaStatus :=
  match c.stepDef.timeoutPolicy with
  | .acceptLateSuccess => o.proceedForward c
  | .compensateLateSuccess => o.enterCompensation c

/-- The step already succeeded in the direction the instance has. -/
def committedSuccess (row : SagaStepRow) : Direction → Bool
  | .forward => row.forwardStatus = .succeeded
  | .compensating => row.compensationStatus = .succeeded

def settleResolutionFromCommittedSuccess (c : ResultContext) : SagaTx (Option SagaStatus) := do
  let row ← loadStep c.step (.runtime "step journal row is missing")
  if !committedSuccess row c.inst.direction then return none
  else
    match c.inst.direction with
    | .forward =>
      match ← applyMonotonicProjection c
          { forwardStatus := some .succeeded, resolutionStatus := some .succeeded } with
      | some status => return some status
      | none =>
        cancelResolutionTimers c.step
        let status ← o.acceptForward c
        return some status
    | .compensating =>
      match ← applyMonotonicProjection c
          { compensationStatus := some .succeeded, resolutionStatus := some .succeeded } with
      | some status => return some status
      | none =>
        cancelResolutionTimers c.step
        let status ← o.continueCompensation c
        return some status

/-- The answer `HALTED` of a resolve query, in both directions. -/
def onResolutionHalted (c : ResultContext) : SagaTx SagaStatus := do
  match ← applyMonotonicProjection c
      { resolutionStatus := some .halted, lastErrorCode := c.reasonCode } with
  | some status => return status
  | none => escalateManual c.inst .event c.eventId "resolution_halted"

/-- The compensation did not happen: send it again, within its budget. -/
def requeueCompensation (c : ResultContext) : SagaTx SagaStatus := do
  let attempt ← nextAttempt c.step .compensate
  if o.config.compensateMaxAttempts < attempt then
    escalateManual c.inst .event c.eventId "compensation_attempts_exhausted"
  else
    let version ← advance c.inst .compensating .compensating (some c.step) .event c.eventId
      none none
    o.issueCommand c.inst c.stepDef .compensate attempt none c.now version
    return .compensating

/-- The forward half of `on_resolve_result`. -/
def onForwardResolution (c : ResultContext) : SagaTx SagaStatus := do
  match c.status with
  | .succeeded =>
    match ← applyMonotonicProjection c
        { forwardStatus := some .succeeded, resolutionStatus := some .succeeded } with
    | some status => return status
    | none =>
      cancelResolutionTimers c.step
      o.proceedForward c
  | .rejected =>
    match ← applyMonotonicProjection c
        { forwardStatus := some .rejected
          resolutionStatus := some .rejected
          lastErrorCode := c.reasonCode } with
    | some status => return status
    | none =>
      cancelResolutionTimers c.step
      o.enterCompensation c
  | .unknown => o.reissueResolve c
  | .halted => onResolutionHalted c
  | _ => throw (.runtime "invalid status on a resolve result")

/-- The compensating half of `on_resolve_result`. -/
def onCompensationResolution (c : ResultContext) : SagaTx SagaStatus := do
  match c.status with
  | .succeeded =>
    match ← applyMonotonicProjection c
        { compensationStatus := some .succeeded, resolutionStatus := some .succeeded } with
    | some status => return status
    | none =>
      cancelResolutionTimers c.step
      o.continueCompensation c
  | .rejected =>
    match ← applyMonotonicProjection c
        { compensationStatus := some .pending, resolutionStatus := some .rejected } with
    | some status => return status
    | none =>
      cancelResolutionTimers c.step
      o.requeueCompensation c
  | .unknown => o.reissueResolve c
  | .halted => onResolutionHalted c
  | _ => throw (.runtime "invalid status on a resolve result")

def onResolveResult (c : ResultContext) : SagaTx SagaStatus := do
  if ¬ isHot c .waitingResolution then projectDeferredResult c
  else
    match ← o.settleResolutionFromCommittedSuccess c with
    | some status => return status
    | none =>
      match c.inst.direction with
      | .forward => o.onForwardResolution c
      | .compensating => o.onCompensationResolution c

/-- The routing of `handle_verified_result`. -/
def onResult (c : ResultContext) : SagaTx SagaStatus :=
  match c.phase with
  | .execute => o.onExecuteResult c
  | .cancel => o.onCancelResult c
  | .compensate => o.onCompensateResult c
  | .resolve => o.onResolveResult c

/-- `load_instance`: another saga's rows are not in this store. -/
def loadInstance (sagaId : SagaId) : SagaTx (Option SagaInstanceRow) := do
  let db ← get
  return db.inst.filter fun _ => sagaId = o.sagaId

def handleVerifiedResult (e : SagaResultEnvelope) (identity : VerifiedIdentity) (now : Int) :
    SagaTx HandleOutcome := do
  let db ← get
  if e.eventId ∈ db.inbox then return .duplicate
  else
    modify fun db => { db with inbox := db.inbox ++ [e.eventId] }
    let row ← orThrow (← o.loadInstance identity.sagaId) (.result .contractInvalid)
    require (row.contractMatches identity) (.result .contractInvalid)
    require (row.controlState.allowsAutomaticActions) (.result .paused)
    let definition ← orThrow (o.definitionOf row) (.runtime "instance definition is not registered")
    let stepDef ← orThrow (definition.step identity.step) (.result .contractInvalid)
    match ← recordAttemptOutcome identity.step identity.phase identity.attempt e.status
        e.eventId with
    | .alreadyRecorded => return .applied row.status
    | .conflicting existing =>
      recordAttemptConflict ⟨identity.step, identity.phase, identity.attempt, existing, e.status,
        e.eventId, .attemptTerminal⟩
      if row.status.isFrozen then return .applied row.status
      else
        let status ← escalateManual row .event e.eventId "attempt_outcome_conflict"
        return .applied status
    | .recorded =>
      let status ← o.onResult ⟨row, definition, stepDef, identity, e.status, e.terminal,
        e.reasonCode, e.eventId, now⟩
      return .applied status

def verifyResultProducer (e : SagaResultEnvelope) (producer : ServiceIdentity) :
    Except SagaError VerifiedIdentity := do
  let identity ← e.verifiedForDelivery o.hashes
  match o.registry identity.tenant identity.workflow identity.definitionVersion with
  | none => throw (.result .contractInvalid)
  | some definition =>
    if definition.digest o.hashes ≠ identity.definitionDigest then
      throw (.result .contractInvalid)
    else
      match definition.step identity.step with
      | none => throw (.result .contractInvalid)
      | some step =>
        if step.owner ≠ producer then throw (.result .producerUnauthorized) else return identity

def handleAuthenticatedResult (e : SagaResultEnvelope) (producer : ServiceIdentity) (now : Int) :
    SagaTx HandleOutcome := do
  let identity ← Tx.ofExcept (o.verifyResultProducer e producer)
  o.handleVerifiedResult e identity now

/-! ## Timers -/

def onStepTimeout (row : SagaInstanceRow) (definition : WorkflowDefinition)
    (stepScope : Option StepName) (timer : SagaTimerRow) (now : Int) :
    SagaTx (Option SagaStatus) := do
  let step ← orThrow stepScope (.runtime "step-timeout timer without a step scope")
  if row.status ≠ .running ∨ row.currentStep ≠ some step then return none
  else
    let stepDef ← orThrow (definition.step step) (.runtime "timer step absent from definition")
    if stepDef.cancelMode = .resolveOnly then
      updateStepJournal step
        { forwardStatus := some .unknown, resolutionStatus := some .pending }
      let version ← advance row .waitingResolution .forward (some step) .timer timer.timerId
        none none
      o.openResolution row stepDef .forward timer.attempt now version
      return some .waitingResolution
    else
      updateStepJournal step { forwardStatus := some .timedOut }
      let version ← advance row .cancelling .forward (some step) .timer timer.timerId none none
      let attempt ← nextAttempt step .cancel
      o.issueCommand row stepDef .cancel attempt none now version
      return some .cancelling

/-- Whether the attempts of a phase are used up, as `on_phase_retry_timeout` counts them. -/
def attemptsExhausted (row : SagaInstanceRow) (step : StepName) (phase : StepPhase)
    (maxAttempts : Nat) : SagaTx Bool := do
  if phase = .resolve then
    let db ← get
    return maxAttempts ≤ db.countResolutionAttempts step row.direction
  else
    let attempt ← nextAttempt step phase
    return maxAttempts < attempt

def onPhaseRetryTimeout (row : SagaInstanceRow) (definition : WorkflowDefinition)
    (stepScope : Option StepName) (timer : SagaTimerRow) (phase : StepPhase)
    (requiredStatus : SagaStatus) (maxAttempts : Nat) (exhaustedCode : String) (now : Int) :
    SagaTx (Option SagaStatus) := do
  let step ← orThrow stepScope (.runtime "phase retry timer without a step scope")
  if row.status ≠ requiredStatus ∨ row.currentStep ≠ some step then return none
  else
    let stepDef ← orThrow (definition.step step) (.runtime "timer step absent from definition")
    let exhausted ← attemptsExhausted row step phase maxAttempts
    if exhausted then
      let status ← escalateManual row .timer timer.timerId exhaustedCode
      return some status
    else
      let attempt ← nextAttempt step phase
      let version ← advance row requiredStatus row.direction (some step) .timer timer.timerId
        none none
      o.issueCommand row stepDef phase attempt none now version
      return some requiredStatus

def onInstanceDeadline (row : SagaInstanceRow) (definition : WorkflowDefinition)
    (timer : SagaTimerRow) (now : Int) : SagaTx (Option SagaStatus) := do
  match row.status with
  | .running =>
    match row.currentStep with
    | none => return none
    | some step => o.onStepTimeout row definition (some step) timer now
  | .cancelling | .waitingResolution | .compensating =>
    let status ← escalateManual row .timer timer.timerId "deadline_exceeded"
    return some status
  | _ => return none

/-- The routing of `fire_timer_inner`. -/
def onTimer (row : SagaInstanceRow) (definition : WorkflowDefinition) (timer : SagaTimerRow)
    (now : Int) : SagaTx (Option SagaStatus) := do
  let stepScope := timer.scope.stepScope
  match timer.kind with
  | .stepTimeout => o.onStepTimeout row definition stepScope timer now
  | .cancelTimeout =>
    o.onPhaseRetryTimeout row definition stepScope timer .cancel .cancelling
      o.config.cancelMaxAttempts "cancel_attempts_exhausted" now
  | .compensateTimeout =>
    o.onPhaseRetryTimeout row definition stepScope timer .compensate .compensating
      o.config.compensateMaxAttempts "compensation_attempts_exhausted" now
  | .resolveTimeout =>
    o.onPhaseRetryTimeout row definition stepScope timer .resolve .waitingResolution
      o.config.resolveMaxAttempts "resolve_attempts_exhausted" now
  | .resolutionBudget | .forwardResolutionBudget | .compensationResolutionBudget =>
    -- a budget spans several versions of the instance: only the status is compared
    if row.status = .waitingResolution then
      let status ← escalateManual row .timer timer.timerId "resolution_budget_exhausted"
      return some status
    else return none
  | .instanceDeadline => o.onInstanceDeadline row definition timer now

/-- `fire_timer_inner`, for a claimed timer row, at the time the lease is compared with. -/
def fireTimer (timer : SagaTimerRow) (token : String) (now : Int) : SagaTx TimerOutcome := do
  let db ← get
  match db.inst with
  | none =>
    match ← completeTimer timer.timerId token now with
    | .applied => return .skippedStale
    | .lost => return .skippedFencingLost
  | some row =>
    if !row.controlState.allowsAutomaticActions then return .skippedPaused
    else
      match ← completeTimer timer.timerId token now with
      | .lost => return .skippedFencingLost
      | .applied =>
        if timer.kind.isPhaseTimeout ∧ timer.expectedSagaVersion ≠ row.version then
          return .skippedStale
        else
          let definition ← orThrow (o.definitionOf row)
            (.runtime "instance definition is not registered")
          match ← o.onTimer row definition timer now with
          | some status => return .applied status
          | none => return .skippedStale

end Orchestrator

/-! ## Starting a saga -/

/-- `StartSagaRequest`, without a payload for the first command. -/
structure StartSagaRequest where
  tenant : TenantId
  workflow : WorkflowName
  version : Nat
  businessKey : BusinessKey
  deadlineAt : Option Int
  triggerKind : TriggerKind
  triggerId : String
  now : Int

inductive StartOutcome
  | started (row : SagaInstanceRow)
  | alreadyExists (row : SagaInstanceRow)

def deriveStartRequestDigest (hs : Hashes) (request : StartSagaRequest) (digest : String)
    (firstStep : StepName) : String :=
  hexText (hs.sha256 (canonicalBytes [utf8 request.tenant, utf8 request.workflow,
    beBytes 4 request.version, utf8 digest, utf8 request.businessKey, utf8 firstStep,
    [if request.deadlineAt.isSome then 1 else 0],
    beBytes 8 ((request.deadlineAt.getD 0) % 2 ^ 64).toNat, [0]]))

/-- The conflict of `create_instance` as the caller of `start_saga` sees it. -/
def startConflict : SagaError → SagaError
  | .conflict _ => .start .requestConflict
  | e => e

namespace Orchestrator

variable (o : Orchestrator)

/-- The instance `start_saga` asks the store for. -/
def newInstance (request : StartSagaRequest) (definition : WorkflowDefinition)
    (firstStep : StepDefinition) : NewSagaInstance :=
  let digest := definition.digest o.hashes
  { tenant := request.tenant
    workflow := request.workflow
    businessKey := request.businessKey
    definitionVersion := request.version
    definitionDigest := digest
    startRequestDigest := deriveStartRequestDigest o.hashes request digest firstStep.name
    legacyStartRequestDigest := none
    deadlineAt := request.deadlineAt
    currentStep := some firstStep.name
    triggerKind := request.triggerKind
    triggerId := request.triggerId }

/-- `start_saga`; `quotaAvailable` is the answer of the tenant's quota ledger. -/
def startSaga (request : StartSagaRequest) (quotaAvailable : Bool) : SagaTx StartOutcome := do
  let definition ← orThrow (o.registry request.tenant request.workflow request.version)
    (.start .definitionInactive)
  let firstStep ← orThrow definition.steps.head? (.start .definitionEmpty)
  match ← mapErr startConflict (createInstance (o.newInstance request definition firstStep)) with
  | .existing row => return .alreadyExists row
  | .created row =>
    require (o.startable request.tenant request.workflow request.version)
      (.start .definitionInactive)
    require quotaAvailable (.start .tenantQuotaExceeded)
    registerSteps definition
    o.issueCommand row firstStep .execute AttemptNo.first none request.now row.version
    match request.deadlineAt with
    | some deadline =>
      o.scheduleTimer .inst .instanceDeadline AttemptNo.first deadline row.version
      return .started row
    | none => return .started row

end Orchestrator

/-! ## Management -/

/-- `SagaManagementPermission`, those of the operations that write. -/
inductive SagaManagementPermission
  | pause | resume | retryCompensation | retryResolution | manualClose
  deriving DecidableEq

/-- A call of a management operation: `SagaManagementContext`, the target, and
`SagaManagementExpectation`. `rateAvailable` is the answer of the tenant's action-rate ledger. -/
structure ManagementCall where
  actor : String
  reason : String
  permissions : List SagaManagementPermission
  tenant : TenantId
  operationId : String
  expectedStateVersion : Option Nat
  expectedControlVersion : Option Nat
  rateAvailable : Bool

def managementPrecondition (message : String) : SagaError :=
  .management .preconditionFailed message

namespace ManagementCall

variable (m : ManagementCall)

/-- `SagaManagementContext::require`. -/
def requirePermission (permission : SagaManagementPermission) : SagaTx Unit :=
  require (permission ∈ m.permissions) (.management .permissionDenied "")

/-- `load_instance` of the authorised tenant. -/
def target : SagaTx SagaInstanceRow := do
  let db ← get
  orThrow (db.inst.filter fun row => row.tenant = m.tenant) (.management .notFound "")

/-- `SagaManagementExpectation::verify`. -/
def verifyExpectation (row : SagaInstanceRow) : SagaTx Unit :=
  require (m.expectedStateVersion.all (· = row.version) ∧
    m.expectedControlVersion.all (· = row.controlVersion)) (.concurrency .staleSnapshot)

def reserveActionRateBudget : SagaTx Unit :=
  require m.rateAvailable (.management .rateLimitExceeded "")

end ManagementCall

namespace Orchestrator

variable (o : Orchestrator)

/-- The common part of `pause` and `resume`: `true` if the control state was changed now. -/
def setControl (m : ManagementCall) (src dst : ControlState) (message : String) : SagaTx Bool := do
  let row ← m.target
  match ← setControlState ⟨row.version, row.controlVersion, src, dst, m.operationId, m.actor,
      m.reason⟩ with
  | .applied =>
    m.verifyExpectation row
    m.reserveActionRateBudget
    return true
  | .alreadyApplied => return false
  | .conflict =>
    m.verifyExpectation row
    throw (if row.controlState = src then .concurrency .staleSnapshot
      else managementPrecondition message)

def pause (m : ManagementCall) : SagaTx Unit := do
  m.requirePermission .pause
  let _ ← setControl m .active .paused "pause requires an active control state"

/-- `resume`: a resumed instance's timers are woken. -/
def resume (m : ManagementCall) : SagaTx Unit := do
  m.requirePermission .resume
  let changed ← setControl m .paused .active "resume requires a paused control state"
  when (changed = true) wakeSagaTimers

/-- The common part of the audited operations: the audit row, the rate, the expectation, and an
instance that is `ACTIVE` in `MANUAL_INTERVENTION`. `false` if the operation was recorded
before. -/
def audited (m : ManagementCall) (action : ManagementAction) (name : String) :
    SagaTx (SagaInstanceRow × Bool) := do
  let row ← m.target
  match ← recordManagementOperation m.operationId action m.actor m.reason with
  | .alreadyRecorded => return (row, false)
  | .recorded =>
    m.reserveActionRateBudget
    m.verifyExpectation row
    require (row.controlState.allowsAutomaticActions)
      (managementPrecondition (name ++ " requires ACTIVE control state; resume first"))
    require (row.status = .manualIntervention)
      (managementPrecondition (name ++ " requires MANUAL_INTERVENTION"))
    return (row, true)

/-- What `retry_compensation` does in a fresh `MANUAL_INTERVENTION`. -/
def recoverCompensation (row : SagaInstanceRow) (operationId : String) (now : Int) :
    SagaTx SagaStatus := do
  require (row.compensationPlanVersion.isSome)
    (managementPrecondition "no frozen compensation plan to retry")
  let definition ← orThrow (o.definitionOf row)
    (managementPrecondition "instance definition is not registered")
  let db ← get
  match ← Tx.ofExcept (nextPendingCompensation o.hashes row definition db.steps true) with
  | some step =>
    when (db.steps.any fun r => r.step = step && r.compensationStatus = .halted)
      (reopenHaltedCompensation step operationId)
    let version ← advance row .compensating .compensating (some step) .admin operationId none none
    let stepDef ← orThrow (definition.step step)
      (managementPrecondition "plan step absent from definition")
    let attempt ← nextAttempt step .compensate
    o.issueCommand row stepDef .compensate attempt (some operationId) now version
    return .compensating
  | none =>
    let version ← advance row .compensating .compensating none .admin operationId none none
    o.convergeCompensated version .admin operationId
    return .compensated

def retryCompensation (m : ManagementCall) (now : Int) : SagaTx SagaStatus := do
  m.requirePermission .retryCompensation
  let (row, fresh) ← audited m .retryFrozenCompensation "retry_compensation"
  if fresh then o.recoverCompensation row m.operationId now else return row.status

/-- The step has an unknown effect in the direction of the instance, and its resolution is open. -/
def hasUnknownTarget (row : SagaStepRow) (direction : Direction) : Bool :=
  (match direction with
    | .forward => row.forwardStatus = .unknown
    | .compensating => row.compensationStatus = .unknown) &&
  (row.resolutionStatus = .pending || row.resolutionStatus = .halted)

/-- What `retry_resolution` does in a fresh `MANUAL_INTERVENTION`. -/
def recoverResolution (row : SagaInstanceRow) (operationId : String) (now : Int) :
    SagaTx SagaStatus := do
  let step ← orThrow row.currentStep
    (managementPrecondition "manual resolution has no current step")
  let definition ← orThrow (o.definitionOf row)
    (managementPrecondition "instance definition is not registered")
  let stepDef ← orThrow (definition.step step)
    (managementPrecondition "resolution step absent from definition")
  require (stepDef.resolution.mode = some .poll)
    (managementPrecondition "retry_resolution requires a Poll resolver")
  let stepRow ← loadStep step (managementPrecondition "resolution step journal is missing")
  require (hasUnknownTarget stepRow row.direction)
    (managementPrecondition "retry_resolution requires an unresolved Unknown effect")
  let attempt ← nextAttempt step .resolve
  when (stepRow.resolutionStatus = .halted) (reopenHaltedResolution step operationId)
  let version ← advance row .waitingResolution row.direction (some step) .admin operationId
    none none
  let due ← Tx.ofExcept (deadlineAfter now stepDef.resolution.budget)
  o.scheduleTimer (.step step) (resolutionBudgetKind row.direction) attempt due version
  o.issueCommand row stepDef .resolve attempt (some operationId) now version
  return .waitingResolution

def retryResolution (m : ManagementCall) (now : Int) : SagaTx SagaStatus := do
  m.requirePermission .retryResolution
  let (row, fresh) ← audited m .retryResolution "retry_resolution"
  if fresh then o.recoverResolution row m.operationId now else return row.status

def manualClose (m : ManagementCall) : SagaTx SagaStatus := do
  m.requirePermission .manualClose
  require o.config.enableManualClose (managementPrecondition
    "manual close is disabled: deploy MANUALLY_CLOSED-aware readers to every replica, then enable it explicitly")
  let (row, fresh) ← audited m .manualClose "manual_close"
  if fresh then
    let _ ← advance row .manuallyClosed row.direction none .admin m.operationId none none
    cancelScopeTimers .inst none
    return .manuallyClosed
  else return row.status

end Orchestrator

/-! ## The machine -/

/-- One call of an entry point, or one action of the environment. -/
inductive Op
  | start (request : StartSagaRequest) (quotaAvailable : Bool)
  | result (envelope : SagaResultEnvelope) (producer : ServiceIdentity) (now : Int)
  | claimTimers (owner token : String) (now : Int)
  | fire (timerId token : String) (now : Int)
  | release (timerId token : String) (now : Int)
  | pause (call : ManagementCall)
  | resume (call : ManagementCall)
  | retryCompensation (call : ManagementCall) (now : Int)
  | retryResolution (call : ManagementCall) (now : Int)
  | manualClose (call : ManagementCall)
  /-- The inbox's retention drops an event. -/
  | forget (eventId : String)
  /-- The clock of the database reads another value. -/
  | tick (clock : Nat)

namespace Orchestrator

variable (o : Orchestrator)

/-- The transaction of an operation. -/
def body : Op → SagaTx Unit
  | .start request quotaAvailable => do let _ ← o.startSaga request quotaAvailable
  | .result envelope producer now => do let _ ← o.handleAuthenticatedResult envelope producer now
  | .claimTimers owner token now =>
    claimDueTimers owner token now o.config.timerLeaseMs o.config.timerClaimLimit
  | .fire timerId token now => do
    let db ← get
    match db.timers.find? (·.timerId = timerId) with
    | none => return ()
    | some timer => let _ ← o.fireTimer timer token now
  | .release timerId token now => do
    let availableAt ← Tx.ofExcept (checkedDeadline now o.config.pauseBackoffMs)
    let _ ← releaseTimer timerId token now availableAt
  | .pause call => pause call
  | .resume call => resume call
  | .retryCompensation call now => do let _ ← o.retryCompensation call now
  | .retryResolution call now => do let _ ← o.retryResolution call now
  | .manualClose call => do let _ ← o.manualClose call
  | .forget eventId => modify fun db => { db with inbox := db.inbox.filter (· ≠ eventId) }
  | .tick clock => modify fun db => { db with clock }

/-- Run an operation: its transaction commits or rolls back. -/
def exec (db : Db) (op : Op) : Db := (o.body op).commit db

end Orchestrator

/-! ## A workflow to run

Two compensable steps with external effects that are polled, under hash functions that are cheap
to evaluate; concrete runs are built from these operations.
-/

namespace TwoSteps

def hash (bytes : Bytes) : Nat := bytes.foldl (fun h b => (h * 257 + b.toNat + 1) % 4294967291) 7

def hashes : Hashes where
  sha256 _ := List.replicate 32 0
  uuidV5 namespaceId name := beBytes 4 (hash (namespaceId ++ name))

def stepDefinition (name : StepName) : StepDefinition where
  name := name
  owner := "svc"
  compensation := .compensable
  cancelMode := .externallyCancellable
  resolution := ⟨true, some .poll, 1000⟩
  timeout := 100
  timeoutPolicy := .acceptLateSuccess

def definition : WorkflowDefinition where
  name := "wf"
  version := 1
  steps := [stepDefinition "a", stepDefinition "b"]
  valid := by decide +kernel

def orchestrator : Orchestrator where
  sagaId := "saga"
  registry _ _ _ := some definition
  startable _ _ _ := true
  config := {}
  configValid := rfl
  hashes := hashes

def start : Op := .start ⟨"t", "wf", 1, "key", none, .event, "start", 0⟩ true

/-- The result of an attempt, as its participant reports it. -/
def result (step : StepName) (phase : StepPhase) (attempt : AttemptNo) (status : StepAttemptStatus)
    (now : Int) : Op :=
  let effect := hashes.effectId "saga" 1 step phase
  let command := uuidText (hashes.commandId effect attempt)
  .result ⟨hashes.resultEventId command, "saga", "t", "wf", 1, definition.digest hashes, step,
    phase, attempt, uuidText effect, command, status, none, none⟩ "svc" now

def claim (now : Int) : Op := .claimTimers "w" "tok" now

def fire (step : StepName) (kind : TimerKind) (attempt : AttemptNo) (now : Int) : Op :=
  .fire (hashes.timerId "saga" (.step step) kind attempt) "tok" now

def call (operationId : String) : ManagementCall where
  actor := "admin"
  reason := "why"
  permissions := [.pause, .resume, .retryCompensation, .retryResolution, .manualClose]
  tenant := "t"
  operationId := operationId
  expectedStateVersion := none
  expectedControlVersion := none
  rateAvailable := true

end TwoSteps

end NasaRuntime.Saga
