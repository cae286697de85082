import Mathlib.Algebra.Group.Int.Defs
import Mathlib.Data.List.Sort
import NasaRuntime.Saga.Store.Rows

/-!
# Instances, steps, attempts and timers in the store

`nasaga-mysql/src/instance.rs` and `audit.rs`: creating an instance, advancing it by
compare-and-swap, pausing and resuming it, and the audit rows. An `INSERT` that meets one of the
table's unique keys takes the branch of `is_unique_violation`.

`nasaga-mysql/src/stepjournal.rs`, and `record_attempt_conflict` of `audit.rs`. The step rows are
kept in ordinal order, which is the order they are registered in, so `load_steps` reads them as
they stand.

`nasaga-mysql/src/timer.rs`: scheduling, cancelling, claiming with a lease, completing under the
fencing token, releasing and waking. `reschedule_timer` has no caller in the orchestrator.
-/

namespace NasaRuntime.Saga

open Table Tx

/-! ## Creating an instance -/

structure NewSagaInstance where
  tenant : TenantId
  workflow : WorkflowName
  businessKey : BusinessKey
  definitionVersion : Nat
  definitionDigest : String
  startRequestDigest : String
  legacyStartRequestDigest : Option String
  deadlineAt : Option Int
  currentStep : Option StepName
  triggerKind : TriggerKind
  triggerId : String

inductive SagaCreation
  | created (row : SagaInstanceRow)
  | existing (row : SagaInstanceRow)

inductive CasOutcome
  | applied (newVersion : Nat)
  | conflict
  | duplicateTrigger
  deriving DecidableEq

inductive ControlCasOutcome
  | applied | alreadyApplied | conflict
  deriving DecidableEq

inductive ManagementAuditOutcome
  | recorded | alreadyRecorded
  deriving DecidableEq

/-- The row `create_instance` inserts. -/
def NewSagaInstance.row (spec : NewSagaInstance) : SagaInstanceRow where
  tenant := spec.tenant
  workflow := spec.workflow
  businessKey := spec.businessKey
  definitionVersion := spec.definitionVersion
  definitionDigest := spec.definitionDigest
  startRequestDigest := spec.startRequestDigest
  status := .initial
  controlState := .active
  controlVersion := 1
  direction := .forward
  currentStep := spec.currentStep
  compensationPlanVersion := none
  version := 1
  deadlineAt := spec.deadlineAt
  failureCode := none

def createInstance (spec : NewSagaInstance) : SagaTx SagaCreation := do
  require (validDigest spec.definitionDigest && validDigest spec.startRequestDigest &&
      spec.legacyStartRequestDigest.all validDigest)
    (.store "definition digest must be 64 lowercase hex characters")
  require (validTriggerId spec.triggerId) (.store "invalid trigger id")
  let db ← get
  match db.inst with
  | some existing =>
    require (existing.tenant = spec.tenant ∧ existing.workflow = spec.workflow ∧
        existing.businessKey = spec.businessKey)
      (.conflict "saga_id collides with a different business intent")
    require (existing.startRequestDigest = spec.startRequestDigest ∨
        spec.legacyStartRequestDigest = some existing.startRequestDigest)
      (.conflict "business idempotency key was reused with a different start request")
    return .existing existing
  | none =>
    modify fun db => { db with
      inst := some spec.row
      transitions := db.transitions ++ [⟨1, none, .initial, spec.triggerKind, spec.triggerId,
        spec.definitionVersion⟩] }
    return .created spec.row

def Db.anyCompensationSucceeded (db : Db) : Bool :=
  db.steps.any (·.compensationStatus = .succeeded)

def Db.manualCloseAudited (db : Db) (operationId : String) : Bool :=
  db.audits.any fun a => a.operationId = operationId && a.action = .manualClose

/-- The guard `advance` reads in its own transaction. -/
def Db.transitionGuard (db : Db) (fromStatus : SagaStatus) (spec : TransitionSpec) :
    TransitionGuard :=
  if fromStatus = .manualIntervention ∧ spec.toStatus = .running then
    { anyCompensationSucceeded := db.anyCompensationSucceeded }
  else if spec.toStatus = .manuallyClosed then
    { manualCloseAudited := spec.triggerKind = .admin && db.manualCloseAudited spec.triggerId }
  else {}

/-- `advance`: the compare-and-swap of the instance and its transition row. -/
def advance (expectedVersion : Nat) (fromStatus : SagaStatus) (spec : TransitionSpec) :
    SagaTx CasOutcome := do
  require (validTriggerId spec.triggerId) (.store "invalid trigger id")
  require (spec.failureCode.all validReasonCode)
    (.store "reason code must be a stable identifier of at most 64 bytes")
  require (spec.compensationPlanVersion.all validDigest)
    (.store "definition digest must be 64 lowercase hex characters")
  let db ← get
  Tx.ofExcept ((checkTransition fromStatus spec.toStatus (db.transitionGuard fromStatus spec)).mapError
    fun violation => .store violation.code)
  require (expectedVersion + 1 < 2 ^ 64) (.store "saga version overflow")
  match db.inst.filter fun row =>
      row.version = expectedVersion && row.status = fromStatus && row.controlState = .active with
  | none => return .conflict
  | some row =>
    modify fun db => { db with inst := some (row.advanced spec) }
    -- `uk_trigger`: the instance row is already written, the caller has to roll it back
    if db.transitions.any fun t =>
        t.triggerKind = spec.triggerKind && t.triggerId = spec.triggerId then
      return .duplicateTrigger
    else
      modify fun db => { db with transitions := db.transitions ++ [⟨expectedVersion + 1,
        some fromStatus, spec.toStatus, spec.triggerKind, spec.triggerId,
        spec.definitionVersion⟩] }
      return .applied (expectedVersion + 1)

structure ControlTransitionSpec where
  expectedVersion : Nat
  expectedControlVersion : Nat
  fromState : ControlState
  toState : ControlState
  operationId : String
  actor : String
  reason : String

def setControlState (spec : ControlTransitionSpec) : SagaTx ControlCasOutcome := do
  require (spec.fromState ≠ spec.toState)
    (.store "control state transition requires distinct states")
  require (spec.expectedControlVersion ≠ 0 ∧ spec.expectedControlVersion + 1 < 2 ^ 64)
    (.store "control version must be positive and incrementable")
  require (validTriggerId spec.operationId) (.store "invalid trigger id")
  require (validActor spec.actor) (.store "invalid management actor")
  require (validReason spec.reason) (.store "invalid management reason")
  let db ← get
  match db.controls.find? (·.operationId = spec.operationId) with
  | some prior =>
    require (prior.fromState = spec.fromState ∧ prior.toState = spec.toState ∧
        prior.actor = spec.actor ∧ prior.reason = spec.reason)
      (.conflict "control operation id was reused with different audit facts")
    return .alreadyApplied
  | none =>
    match db.inst.filter fun row => row.version = spec.expectedVersion &&
        row.controlVersion = spec.expectedControlVersion && row.controlState = spec.fromState with
    | none => return .conflict
    | some row =>
      modify fun db => { db with
        inst := some { row with
          controlState := spec.toState
          controlVersion := row.controlVersion + 1 }
        controls := db.controls ++ [⟨spec.expectedControlVersion + 1, spec.fromState, spec.toState,
          spec.operationId, spec.actor, spec.reason⟩] }
      return .applied

def recordManagementOperation (operationId : String) (action : ManagementAction)
    (actor reason : String) : SagaTx ManagementAuditOutcome := do
  require (validTriggerId operationId) (.store "invalid trigger id")
  require (validActor actor) (.store "invalid management actor")
  require (validReason reason) (.store "invalid management reason")
  let db ← get
  match db.audits.find? (·.operationId = operationId) with
  | some prior =>
    require (prior.action = action ∧ prior.actor = actor ∧ prior.reason = reason)
      (.conflict "management operation id was reused with different audit facts")
    return .alreadyRecorded
  | none =>
    modify fun db => { db with audits := db.audits ++ [⟨operationId, action, actor, reason⟩] }
    return .recorded

/-! ## What the statements do -/

/-- The instance can take this transition: it is `ACTIVE`, the edge exists, and the trigger is
new. -/
structure Db.CanAdvance (db : Db) (row : SagaInstanceRow) (spec : TransitionSpec) : Prop where
  inst : db.inst = some row
  active : row.controlState = .active
  edge : row.status.canTransitionTo spec.toStatus = true
  fresh : ∀ t ∈ db.transitions, ¬ (t.triggerKind = spec.triggerKind ∧ t.triggerId = spec.triggerId)

variable {db db' : Db}

/-- **The compare-and-swap.** -/
theorem ends_advance {version n : Nat} {src : SagaStatus} {spec : TransitionSpec}
    (h : (advance version src spec).Ends db (.applied n) db') :
    ∃ row, db.CanAdvance row spec ∧ row.version = version ∧ row.status = src ∧ n = version + 1 ∧
      db' = db.advance row spec := by
  simp only [advance, ends_bind, ends_require, ends_get, ends_ofExcept] at h
  obtain ⟨_, _, ⟨-, rfl⟩, _, _, ⟨-, rfl⟩, _, _, ⟨-, rfl⟩, _, _, ⟨rfl, rfl⟩, _, _, ⟨hcheck, rfl⟩,
    _, _, ⟨-, rfl⟩, h⟩ := h
  split at h
  · simp [ends_pure] at h
  · rename_i row hrow
    simp only [Option.filter_eq_some_iff, Bool.and_eq_true, decide_eq_true_eq] at hrow
    obtain ⟨hinst, ⟨rfl, rfl⟩, hact⟩ := hrow
    simp only [ends_bind, ends_modify, ends_ite, ends_pure] at h
    obtain ⟨_, _, rfl, h⟩ := h
    rcases h with ⟨-, h⟩ | ⟨hfresh, _, _, rfl, h, rfl⟩
    · simp at h
    · cases h
      refine ⟨row, ⟨hinst, hact, ?_, ?_⟩, rfl, rfl, rfl, rfl⟩
      · cases hc : checkTransition row.status spec.toStatus (db.transitionGuard row.status spec) with
        | error e => simp [hc, Except.mapError] at hcheck
        | ok u =>
          unfold checkTransition at hc
          split at hc
          · cases hc
          · simpa using ‹¬ ¬ _›
      · simpa using hfresh

/-- A new instance is written only where there was none; a repeated request changes nothing. -/
theorem ends_createInstance {spec : NewSagaInstance} {r : SagaCreation}
    (h : (createInstance spec).Ends db r db') : (∃ row, r = .existing row ∧ db' = db) ∨
      (r = .created spec.row ∧ db.inst = none ∧ db' = { db with
        inst := some spec.row
        transitions := db.transitions ++ [⟨1, none, .initial, spec.triggerKind, spec.triggerId,
          spec.definitionVersion⟩] }) := by
  simp only [createInstance, ends_bind, ends_require, ends_get] at h
  obtain ⟨_, _, ⟨-, rfl⟩, _, _, ⟨-, rfl⟩, _, _, ⟨rfl, rfl⟩, h⟩ := h
  split at h
  · simp only [ends_bind, ends_require, ends_pure] at h
    obtain ⟨_, _, ⟨-, rfl⟩, _, _, ⟨-, rfl⟩, rfl, rfl⟩ := h
    exact .inl ⟨_, rfl, rfl⟩
  · rename_i hnone
    simp only [ends_bind, ends_modify, ends_pure] at h
    obtain ⟨_, _, rfl, rfl, rfl⟩ := h
    exact .inr ⟨rfl, hnone, rfl⟩

/-- A control change writes the control columns and its audit row, and nothing of the business
state. -/
theorem ends_setControlState {spec : ControlTransitionSpec} {r : ControlCasOutcome}
    (h : (setControlState spec).Ends db r db') : (r ≠ .applied ∧ db' = db) ∨
      (r = .applied ∧ ∃ row, db.inst = some row ∧ db' = { db with
        inst := some { row with
          controlState := spec.toState
          controlVersion := row.controlVersion + 1 }
        controls := db.controls ++ [⟨spec.expectedControlVersion + 1, spec.fromState, spec.toState,
          spec.operationId, spec.actor, spec.reason⟩] }) := by
  simp only [setControlState, ends_bind, ends_require, ends_get] at h
  obtain ⟨_, _, ⟨-, rfl⟩, _, _, ⟨-, rfl⟩, _, _, ⟨-, rfl⟩, _, _, ⟨-, rfl⟩, _, _, ⟨-, rfl⟩, _, _,
    ⟨rfl, rfl⟩, h⟩ := h
  split at h
  · simp only [ends_bind, ends_require, ends_pure] at h
    obtain ⟨_, _, ⟨-, rfl⟩, rfl, rfl⟩ := h
    exact .inl ⟨by simp, rfl⟩
  · split at h
    · obtain ⟨rfl, rfl⟩ := ends_pure.1 h
      exact .inl ⟨by simp, rfl⟩
    · rename_i row hrow
      simp only [ends_bind, ends_modify, ends_pure] at h
      obtain ⟨_, _, rfl, rfl, rfl⟩ := h
      exact .inr ⟨rfl, row, (Option.filter_eq_some_iff.1 hrow).1, rfl⟩

theorem ends_recordManagementOperation {operationId actor reason : String}
    {action : ManagementAction} {r : ManagementAuditOutcome}
    (h : (recordManagementOperation operationId action actor reason).Ends db r db') :
    (r = .alreadyRecorded ∧ db' = db) ∨
      (r = .recorded ∧ db' = { db with
        audits := db.audits ++ [⟨operationId, action, actor, reason⟩] }) := by
  simp only [recordManagementOperation, ends_bind, ends_require, ends_get] at h
  obtain ⟨_, _, ⟨-, rfl⟩, _, _, ⟨-, rfl⟩, _, _, ⟨-, rfl⟩, _, _, ⟨rfl, rfl⟩, h⟩ := h
  split at h
  · simp only [ends_bind, ends_require, ends_pure] at h
    obtain ⟨_, _, ⟨-, rfl⟩, rfl, rfl⟩ := h
    exact .inl ⟨rfl, rfl⟩
  · simp only [ends_bind, ends_modify, ends_pure] at h
    obtain ⟨_, _, rfl, rfl, rfl⟩ := h
    exact .inr ⟨rfl, rfl⟩

open List

/-! ## Registering steps -/

/-- `INSERT IGNORE` of one step row. -/
def insertIgnore (steps : List SagaStepRow) (key : StepName × Nat) : List SagaStepRow :=
  if steps.any (·.step = key.1) then steps else steps ++ [{ step := key.1, ordinal := key.2 }]

def registerSteps (d : WorkflowDefinition) : SagaTx Unit :=
  modify fun db => { db with steps := (d.names.zipIdx 1).foldl insertIgnore db.steps }

theorem registerSteps_empty (d : WorkflowDefinition) :
    (d.names.zipIdx 1).foldl insertIgnore [] =
      (d.names.zipIdx 1).map fun key => { step := key.1, ordinal := key.2 } := by
  have key : ∀ (names : List StepName) (k : Nat) (acc : List SagaStepRow), names.Nodup →
      (∀ n ∈ names, acc.any (·.step = n) = false) →
      (names.zipIdx k).foldl insertIgnore acc =
        acc ++ (names.zipIdx k).map fun key => { step := key.1, ordinal := key.2 } := by
    intro names
    induction names with
    | nil => intro k acc _ _; simp
    | cons n rest ih =>
      intro k acc hnd hacc
      obtain ⟨hn, hrest⟩ := nodup_cons.1 hnd
      simp only [zipIdx_cons, foldl_cons, map_cons]
      rw [show insertIgnore acc (n, k) = acc ++ [{ step := n, ordinal := k }] from
        if_neg (by simp [hacc n mem_cons_self]), ih _ _ hrest ?_]
      · simp
      · intro m hm
        have hne : n ≠ m := fun he => hn (he ▸ hm)
        simp [hacc m (mem_cons_of_mem _ hm), hne]
  simpa using key d.names 1 [] d.names_nodup (by simp)

/-! ## Attempts -/

inductive AttemptStart
  | recorded | alreadyRecorded
  deriving DecidableEq

inductive AttemptOutcomeRecord
  | recorded
  | alreadyRecorded
  | conflicting (existing : StepAttemptStatus)
  deriving DecidableEq

def recordAttemptStarted (step : StepName) (phase : StepPhase) (attempt : AttemptNo)
    (effect command : String) : SagaTx AttemptStart := do
  let db ← get
  match db.attempts.find? (·.is step phase attempt) with
  | some existing =>
    require (existing.effectId = effect ∧ existing.commandId = command)
      (.conflict "attempt already recorded with different identities")
    return .alreadyRecorded
  | none =>
    -- `uk_effect_attempt` and `uk_command`
    require (db.attempts.all fun row =>
        !(row.effectId = effect && row.attempt = attempt) && row.commandId ≠ command)
      (.conflict "attempt identity collides with a different step attempt")
    modify (·.startAttempt ⟨step, phase, attempt, effect, command, .started, none, db.clock⟩)
    return .recorded

def recordAttemptOutcome (step : StepName) (phase : StepPhase) (attempt : AttemptNo)
    (status : StepAttemptStatus) (eventId : String) : SagaTx AttemptOutcomeRecord := do
  require (!status.isInFlight) (.store "attempt outcome must be a settled status")
  let db ← get
  match db.attempts.find? (·.is step phase attempt) with
  | none => throw (.store "attempt outcome arrived for an unrecorded attempt")
  | some row =>
    if row.status = .started then
      modify (·.settleAttempt step phase attempt status eventId)
      return .recorded
    else if row.status = status then
      return .alreadyRecorded
    else
      return .conflicting row.status

def recordAttemptConflict (fact : AttemptConflictFact) : SagaTx Unit := do
  require (!fact.existingStatus.isInFlight && !fact.incomingStatus.isInFlight)
    (.store "attempt conflict requires settled statuses")
  let db ← get
  require (db.conflicts.all (·.incomingEventId ≠ fact.incomingEventId)) (.store "duplicate key")
  modify fun db => { db with conflicts := db.conflicts ++ [fact] }

/-- `load_attempts`, the attempt numbers of one phase. -/
def Db.attemptNos (db : Db) (step : StepName) (phase : StepPhase) : List AttemptNo :=
  (db.attempts.filter fun row => row.step = step && row.phase = phase).map (·.attempt)

/-- `count_resolution_attempts`: the first `compensate` attempt of the step separates the forward
resolve attempts from the compensating ones. -/
def Db.countResolutionAttempts (db : Db) (step : StepName) (direction : Direction) : Nat :=
  let firstCompensation := ((db.attempts.filter fun row =>
    row.step = step && row.phase = .compensate).map (·.startedAt)).min?
  db.attempts.countP fun row => row.step = step && row.phase = .resolve &&
    match direction, firstCompensation with
    | .forward, none => true
    | .forward, some first => row.startedAt < first
    | .compensating, none => false
    | .compensating, some first => first ≤ row.startedAt

/-! ## Step rows -/

def updateStepJournal (step : StepName) (patch : StepJournalPatch) : SagaTx Unit := do
  require (patch.lastErrorCode.all validReasonCode)
    (.store "reason code must be a stable identifier of at most 64 bytes")
  let db ← get
  require (db.steps.any (·.step = step)) (.store "step journal row is missing")
  modify (·.patchStep step patch)

def reopenHaltedCompensation (step : StepName) (operationId : String) : SagaTx Unit := do
  let db ← get
  require ((db.audits.any fun a => a.operationId = operationId &&
      a.action = .retryFrozenCompensation) &&
      db.steps.any fun row => row.step = step && row.compensationPlanVersion.isSome &&
        row.compensationStatus = .halted)
    (.store "halted compensation recovery requires a matching management audit and frozen plan")
  modify (·.patchStep step { compensationStatus := some .pending, resolutionStatus := some .none })

def reopenHaltedResolution (step : StepName) (operationId : String) : SagaTx Unit := do
  let db ← get
  require ((db.audits.any fun a => a.operationId = operationId && a.action = .retryResolution) &&
      db.steps.any fun row => row.step = step && row.resolutionStatus = .halted &&
        (row.forwardStatus = .unknown || row.compensationStatus = .unknown))
    (.store "halted resolution recovery requires a matching management audit and unknown fact")
  modify (·.patchStep step { resolutionStatus := some .pending })

def markCompensationPlan (plan : CompensationPlan) : SagaTx Unit := do
  let db ← get
  require (plan.entries.all fun entry => db.steps.any (·.step = entry.step))
    (.store "compensation plan references a missing step")
  modify (·.markPlan plan)

/-! ## What the statements do -/

/-- The attempt was issued and has no outcome yet. -/
def Db.InFlight (db : Db) (step : StepName) (phase : StepPhase) (attempt : AttemptNo) : Prop :=
  ∃ row, db.attempts.find? (·.is step phase attempt) = some row ∧ row.status = .started

instance (db : Db) (step : StepName) (phase : StepPhase) (attempt : AttemptNo) :
    Decidable (db.InFlight step phase attempt) :=
  match h : db.attempts.find? (·.is step phase attempt) with
  | none => isFalse fun ⟨_, hrow, _⟩ => by simp [h] at hrow
  | some row =>
    if hs : row.status = .started then isTrue ⟨row, h, hs⟩
    else isFalse fun ⟨_, hrow, hs'⟩ => hs (by rw [h] at hrow; cases hrow; exact hs')

variable {db db' : Db} {step : StepName} {attempt : AttemptNo} {phase : StepPhase}
  {operationId : String}

theorem ends_recordAttemptStarted {effect command : String} {r : AttemptStart}
    (h : (recordAttemptStarted step phase attempt effect command).Ends db r db')
    (hnew : ∀ row ∈ db.attempts, row.is step phase attempt = false) :
    db' = db.startAttempt ⟨step, phase, attempt, effect, command, .started, none, db.clock⟩ := by
  simp only [recordAttemptStarted, ends_bind, ends_get] at h
  obtain ⟨_, _, ⟨rfl, rfl⟩, h⟩ := h
  split at h
  · rename_i row hrow
    have hmem := mem_of_find?_eq_some hrow
    have his := find?_some hrow
    rw [hnew row hmem] at his
    cases his
  · simp only [ends_bind, ends_require, ends_modify, ends_pure] at h
    obtain ⟨_, _, ⟨-, rfl⟩, _, _, rfl, -, rfl⟩ := h
    rfl

theorem ends_recordAttemptOutcome {status : StepAttemptStatus} {eventId : String}
    {r : AttemptOutcomeRecord}
    (h : (recordAttemptOutcome step phase attempt status eventId).Ends db r db') :
    (r ≠ .recorded ∧ db' = db) ∨
      (r = .recorded ∧ db.InFlight step phase attempt ∧
        db' = db.settleAttempt step phase attempt status eventId) := by
  simp only [recordAttemptOutcome, ends_bind, ends_require, ends_get] at h
  obtain ⟨_, _, ⟨-, rfl⟩, _, _, ⟨rfl, rfl⟩, h⟩ := h
  split at h
  · exact absurd h ends_throw
  · rename_i row hrow
    simp only [ends_ite, ends_bind, ends_modify, ends_pure] at h
    rcases h with ⟨hstart, _, _, rfl, rfl, rfl⟩ | ⟨-, ⟨-, rfl, rfl⟩ | ⟨-, rfl, rfl⟩⟩
    · exact .inr ⟨rfl, ⟨row, hrow, hstart⟩, rfl⟩
    · exact .inl ⟨by simp, rfl⟩
    · exact .inl ⟨by simp, rfl⟩

variable {u : Unit}

theorem ends_recordAttemptConflict {fact : AttemptConflictFact}
    (h : (recordAttemptConflict fact).Ends db u db') :
    db' = { db with conflicts := db.conflicts ++ [fact] } := by
  simp only [recordAttemptConflict, ends_bind, ends_require, ends_get, ends_modify] at h
  obtain ⟨_, _, ⟨-, rfl⟩, _, _, ⟨rfl, rfl⟩, _, _, ⟨-, rfl⟩, rfl⟩ := h
  rfl

theorem ends_updateStepJournal {patch : StepJournalPatch}
    (h : (updateStepJournal step patch).Ends db u db') : db' = db.patchStep step patch := by
  simp only [updateStepJournal, ends_bind, ends_require, ends_get, ends_modify] at h
  obtain ⟨_, _, ⟨-, rfl⟩, _, _, ⟨rfl, rfl⟩, _, _, ⟨-, rfl⟩, rfl⟩ := h
  rfl

theorem ends_reopenHaltedCompensation
    (h : (reopenHaltedCompensation step operationId).Ends db u db') :
    (∃ row ∈ db.steps, row.step = step ∧ row.compensationStatus = .halted) ∧
      db' = db.patchStep step
        { compensationStatus := some .pending, resolutionStatus := some .none } := by
  simp only [reopenHaltedCompensation, ends_bind, ends_require, ends_get, ends_modify] at h
  obtain ⟨_, _, ⟨rfl, rfl⟩, _, _, ⟨hguard, rfl⟩, rfl⟩ := h
  simp only [Bool.and_eq_true, any_eq_true, decide_eq_true_eq] at hguard
  obtain ⟨-, row, hrow, ⟨hstep, -⟩, hhalt⟩ := hguard
  exact ⟨⟨row, hrow, hstep, hhalt⟩, rfl⟩

theorem ends_reopenHaltedResolution (h : (reopenHaltedResolution step operationId).Ends db u db') :
    (∃ row ∈ db.steps, row.step = step ∧ row.resolutionStatus = .halted) ∧
      db' = db.patchStep step { resolutionStatus := some .pending } := by
  simp only [reopenHaltedResolution, ends_bind, ends_require, ends_get, ends_modify] at h
  obtain ⟨_, _, ⟨rfl, rfl⟩, _, _, ⟨hguard, rfl⟩, rfl⟩ := h
  simp only [Bool.and_eq_true, any_eq_true, decide_eq_true_eq] at hguard
  obtain ⟨-, row, hrow, ⟨hstep, hhalt⟩, -⟩ := hguard
  exact ⟨⟨row, hrow, hstep, hhalt⟩, rfl⟩

theorem ends_markCompensationPlan {plan : CompensationPlan}
    (h : (markCompensationPlan plan).Ends db u db') : db' = db.markPlan plan := by
  simp only [markCompensationPlan, ends_bind, ends_require, ends_get, ends_modify] at h
  obtain ⟨_, _, ⟨rfl, rfl⟩, _, _, ⟨-, rfl⟩, rfl⟩ := h
  rfl

structure TimerSpec where
  timerId : String
  scope : TimerScope
  kind : TimerKind
  dueAt : Int
  attempt : AttemptNo
  expectedSagaVersion : Nat

/-- The row `schedule_timer` inserts. -/
def TimerSpec.row (spec : TimerSpec) : SagaTimerRow where
  timerId := spec.timerId
  scope := spec.scope
  kind := spec.kind
  attempt := spec.attempt
  dueAt := spec.dueAt
  availableAt := spec.dueAt
  state := .pending
  expectedSagaVersion := spec.expectedSagaVersion
  generation := 1
  owner := none
  fencingToken := none
  claimedUntil := none

inductive TimerSchedule
  | scheduled | alreadyScheduled
  deriving DecidableEq

inductive TimerFencing
  | applied | lost
  deriving DecidableEq

/-- `schedule_timer` of the store. A row with the same primary key and the same timer id absorbs
the call, whatever its state. -/
def scheduleTimer (spec : TimerSpec) : SagaTx TimerSchedule := do
  require (validTimerId spec.timerId) (.store "invalid timer id")
  require (0 ≤ spec.dueAt) (.store "timer due_at must be a non-negative epoch millisecond")
  require (spec.expectedSagaVersion ≠ 0) (.store "timer expected saga version must start at 1")
  let db ← get
  match db.timers.find? (·.is spec.scope spec.kind spec.attempt) with
  | some existing =>
    require (existing.timerId = spec.timerId)
      (.store "timer already scheduled with a different timer id")
    return .alreadyScheduled
  | none =>
    require (db.timers.all (·.timerId ≠ spec.timerId))
      (.conflict "timer id collides with a different timer scope")
    modify (·.insertTimer spec.row)
    return .scheduled

def cancelScopeTimers (scope : TimerScope) (kind : Option TimerKind) : SagaTx Unit :=
  modify (·.cancelTimers scope kind)

/-- The timers a claim at `now` may take: the available ones and those whose lease ran out. -/
def SagaTimerRow.claimable (t : SagaTimerRow) (now : Int) : Bool :=
  (t.state = .pending && t.availableAt ≤ now) ||
    (t.state = .claimed && t.claimedUntil.any (· ≤ now))

/-- The timers the claim takes: the `limit` claimable ones that are due first. -/
def Db.claimed (db : Db) (now : Int) (limit : Nat) : List String :=
  (((db.timers.filter (·.claimable now)).insertionSort (·.dueAt ≤ ·.dueAt)).take limit).map
    (·.timerId)

def claimDueTimers (owner token : String) (now lease : Int) (limit : Nat) : SagaTx Unit := do
  require (validOwner owner) (.store "invalid timer owner")
  require (0 ≤ now) (.store "timer claim now must be a non-negative epoch millisecond")
  require (0 < lease ∧ limit ≠ 0) (.store "timer claim requires a positive lease and limit")
  require (now + lease < 2 ^ 63) (.store "timer claim lease deadline overflow")
  modify fun db => { db with
    timers := updateWhere (fun t => t.timerId ∈ db.claimed now limit)
      (fun t => { t with
        state := .claimed
        owner := some owner
        fencingToken := some token
        claimedUntil := some (now + lease) }) db.timers }

def completeTimer (timerId token : String) (now : Int) : SagaTx TimerFencing := do
  require (validTimerId timerId) (.store "invalid timer id")
  require (0 ≤ now) (.store "timer completion now must be a non-negative epoch millisecond")
  let db ← get
  if db.timers.any fun t => t.timerId = timerId && t.heldBy token now then
    modify (·.fireTimer timerId token now)
    return .applied
  else
    return .lost

/-- `release_timer`: the timer goes back, behind the pause's backoff if the instance is paused. -/
def releaseTimer (timerId token : String) (now availableAt : Int) : SagaTx TimerFencing := do
  require (validTimerId timerId) (.store "invalid timer id")
  require (0 ≤ now) (.store "timer release now must be a non-negative epoch millisecond")
  require (0 ≤ availableAt) (.store "timer available_at must be a non-negative epoch millisecond")
  let db ← get
  match db.inst with
  | none => return .lost
  | some row =>
    if db.timers.any fun t => t.timerId = timerId && t.heldBy token now then
      modify fun db => { db with
        timers := updateWhere (fun t => t.timerId = timerId && t.heldBy token now)
          (fun t => { t.unowned .pending with
            availableAt := if row.controlState = .paused then availableAt else t.dueAt }) db.timers }
      return .applied
    else
      return .lost

def wakeSagaTimers : SagaTx Unit :=
  modify fun db => { db with
    timers := updateWhere (fun t => t.state = .pending && t.availableAt ≠ t.dueAt)
      (fun t => { t with availableAt := t.dueAt }) db.timers }

/-! ## What the statements do -/

/-- What scheduling leaves: the timer that was there under the key, or the new one. -/
def Db.schedule (db : Db) (spec : TimerSpec) : Db :=
  if db.timers.any (·.is spec.scope spec.kind spec.attempt) then db else db.insertTimer spec.row

theorem ends_scheduleTimer {db db' : Db} {spec : TimerSpec} {r : TimerSchedule}
    (h : (scheduleTimer spec).Ends db r db') :
    db' = db.schedule spec ∧ ((∀ t ∈ db.timers, t.is spec.scope spec.kind spec.attempt = false) →
      ∀ t ∈ db.timers, t.timerId ≠ spec.timerId) := by
  simp only [scheduleTimer, ends_bind, ends_require, ends_get] at h
  obtain ⟨_, _, ⟨-, rfl⟩, _, _, ⟨-, rfl⟩, _, _, ⟨-, rfl⟩, _, _, ⟨rfl, rfl⟩, h⟩ := h
  split at h
  · rename_i t ht
    simp only [ends_bind, ends_require, ends_pure] at h
    obtain ⟨_, _, ⟨-, rfl⟩, -, rfl⟩ := h
    have hmem := List.mem_of_find?_eq_some ht
    have his := List.find?_some ht
    refine ⟨(if_pos (List.any_eq_true.2 ⟨t, hmem, his⟩)).symm, fun hnone => ?_⟩
    rw [hnone t hmem] at his
    cases his
  · rename_i hnone
    simp only [ends_bind, ends_require, ends_modify, ends_pure] at h
    obtain ⟨_, _, ⟨hid, rfl⟩, _, _, rfl, -, rfl⟩ := h
    refine ⟨(if_neg ?_).symm, fun _ => by simpa using hid⟩
    simpa using hnone

theorem ends_completeTimer {db db' : Db} {timerId token : String} {now : Int} {r : TimerFencing}
    (h : (completeTimer timerId token now).Ends db r db') :
    (r = .lost ∧ db' = db) ∨
      (r = .applied ∧ (∃ t ∈ db.timers, t.timerId = timerId ∧ t.heldBy token now = true) ∧
        db' = db.fireTimer timerId token now) := by
  simp only [completeTimer, ends_bind, ends_require, ends_get, ends_ite, ends_modify,
    ends_pure] at h
  obtain ⟨_, _, ⟨-, rfl⟩, _, _, ⟨-, rfl⟩, _, _, ⟨rfl, rfl⟩, h⟩ := h
  rcases h with ⟨hheld, _, _, rfl, rfl, rfl⟩ | ⟨-, rfl, rfl⟩
  · simp only [List.any_eq_true, Bool.and_eq_true, decide_eq_true_eq] at hheld
    exact .inr ⟨rfl, hheld, rfl⟩
  · exact .inl ⟨rfl, rfl⟩

end NasaRuntime.Saga
