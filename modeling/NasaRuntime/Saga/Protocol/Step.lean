import NasaRuntime.Saga.Orchestrator.Machine

/-!
# What a step of the orchestrator can do

An abstract view of the machine: the protocol that its handlers implement. A step has a `Cause`
(a result, a timer, an administrator) and one of three outcomes.

* It **stays**: rows may be settled, projected or cancelled, and the instance does not move.
* It goes **again**: the instance takes an edge back to its own status and reissues the command it
  waits for.
* It **leaves**: after some writes the instance makes a `Move`, which is an escalation, the end of
  the saga, a command of another phase or step, the wait for a resolution, or the convergence to
  `COMPENSATED`.

The writes before the outcome are a `Quiet` transaction: one relation per table says what may have
become of a row. `Protocol.Refinement` proves that the handlers do nothing else.
-/

namespace NasaRuntime.Saga

open Table

/-! ## Causes -/

/-- What moves the orchestrator. -/
inductive Cause
  | result (c : ResultContext)
  /-- A result of an attempt that already has an outcome. -/
  | clash (eventId : String)
  | timer (t : SagaTimerRow)
  | admin (action : ManagementAction) (operationId : String)

def Cause.triggerKind : Cause → TriggerKind
  | .result _ | .clash _ => .event
  | .timer _ => .timer
  | .admin _ _ => .admin

def Cause.triggerId : Cause → String
  | .result c => c.eventId
  | .clash eventId => eventId
  | .timer t => t.timerId
  | .admin _ operationId => operationId

/-- The transition a cause asks for. -/
def Cause.spec (k : Cause) (i : SagaInstanceRow) (dst : SagaStatus) (direction : Direction)
    (currentStep : Option StepName) (failureCode planVersion : Option String) : TransitionSpec :=
  Orchestrator.transitionSpec i dst direction currentStep k.triggerKind k.triggerId failureCode
    planVersion

/-- How a step of the protocol ends. -/
inductive Mode
  | stay | again | leave
  deriving DecidableEq

/-- The status in which the instance waits for a command of this phase. -/
def StepPhase.hotStatus : StepPhase → SagaStatus
  | .execute => .running
  | .cancel => .cancelling
  | .compensate => .compensating
  | .resolve => .waitingResolution

/-- The instance waits for this result. -/
def ResultContext.Hot (c : ResultContext) : Prop :=
  c.inst.status = c.phase.hotStatus ∧ c.inst.currentStep = some c.step

/-- The instance is on its way forward. -/
def SagaInstanceRow.ForwardSegment (i : SagaInstanceRow) : Prop :=
  i.status = .running ∨ i.status = .cancelling ∨
    (i.status = .waitingResolution ∧ i.direction = .forward)

/-- The instance is working off its compensation plan. -/
def SagaInstanceRow.BackSegment (i : SagaInstanceRow) : Prop :=
  i.status = .compensating ∨ (i.status = .waitingResolution ∧ i.direction = .compensating)

/-! ## Writes that do not move the instance -/

/-- The projections of a result that the instance waits for. -/
def ResultContext.HotPatch (c : ResultContext) (r : SagaStepRow) (patch : StepJournalPatch) :
    Prop :=
  (c.phase = .cancel ∧ patch.compensationStatus = none ∧ patch.resolutionStatus = none) ∨
    (c.phase = .resolve ∧
      (c.inst.direction = .forward → patch.compensationStatus = none) ∧
      (c.inst.direction = .compensating → patch.forwardStatus = none) ∧
      (patch.compensationStatus = some .succeeded →
        c.status = .succeeded ∨ r.compensationStatus = .succeeded))

/-- A patch of the forward and resolution columns: no other fact is touched, and the resolution
can only be opened. -/
def StepJournalPatch.ForwardOnly (patch : StepJournalPatch) : Prop :=
  patch.cancelStatus = none ∧ patch.compensationStatus = none ∧
    (patch.resolutionStatus = none ∨ patch.resolutionStatus = some .pending)

/-- What may become of a step row. -/
inductive RowChange (i : SagaInstanceRow) : Cause → Mode → SagaStepRow → SagaStepRow → Prop
  /-- A late result of the row's latest attempt, merged. -/
  | deferred {c m r patch merged} (hstep : r.step = c.step) (hcold : ¬ c.Hot)
      (hlatest : r.attempt c.phase = some c.attempt) (hpatch : c.deferredPatch = .ok patch)
      (hmerge : c.merge r patch = some merged) : RowChange i (.result c) m r (r.apply merged)
  /-- A cancel or resolve result the instance waits for, merged. -/
  | merged {c r patch merged} (hstep : r.step = c.step) (hhot : c.Hot) (hpatch : c.HotPatch r patch)
      (hmerge : c.merge r patch = some merged) : RowChange i (.result c) .leave r (r.apply merged)
  /-- The same for a cancel result that leads to a resolution. -/
  | mergedWaiting {c r patch merged} (hstep : r.step = c.step) (hhot : c.Hot)
      (hphase : c.phase = .cancel) (hpatch : c.HotPatch r patch)
      (hmerge : c.merge r patch = some merged) :
      RowChange i (.result c) .leave r
        ((r.apply merged).apply { resolutionStatus := some .pending })
  /-- An execute result the instance waits for, written as it is. -/
  | executed {c r patch} (hstep : r.step = c.step) (hhot : c.Hot) (hphase : c.phase = .execute)
      (hpatch : patch.ForwardOnly) : RowChange i (.result c) .leave r (r.apply patch)
  /-- A compensate result the instance waits for, written as it is. -/
  | compensated {c r patch} (hstep : r.step = c.step) (hhot : c.Hot)
      (hphase : c.phase = .compensate) (hforward : patch.forwardStatus = none)
      (hcomp : patch.compensationStatus = c.status.toCompensation)
      (hsome : c.status.toCompensation.isSome)
      (hres : patch.resolutionStatus = none ∨ (patch.resolutionStatus = some .pending ∧
        c.status = .unknown ∧ c.stepDef.resolution.allowUnknown = true)) :
      RowChange i (.result c) .leave r (r.apply patch)
  /-- A step that timed out, before its cancel or its resolution. -/
  | timedOut {t r patch} (hstatus : i.status = .running) (hcur : i.currentStep = some r.step)
      (hpatch : patch = { forwardStatus := some .timedOut } ∨
        patch = { forwardStatus := some .unknown, resolutionStatus := some .pending }) :
      RowChange i (.timer t) .leave r (r.apply patch)
  /-- `reopen_halted_compensation`. -/
  | reopenedCompensation {op r} (hhalted : r.compensationStatus = .halted) :
      RowChange i (.admin .retryFrozenCompensation op) .leave r
        (r.apply { compensationStatus := some .pending, resolutionStatus := some .none })
  /-- `reopen_halted_resolution`. -/
  | reopenedResolution {op r} (hhalted : r.resolutionStatus = .halted) :
      RowChange i (.admin .retryResolution op) .leave r
        (r.apply { resolutionStatus := some .pending })

/-- A timer that the instance does not wait for. -/
def Stale (i : SagaInstanceRow) (t : SagaTimerRow) : Prop :=
  (t.kind.isPhaseTimeout = true ∧ t.expectedSagaVersion ≠ i.version) ∨
    ((∀ p, t.kind = phaseTimeoutKind p →
        ¬ (i.status = p.hotStatus ∧ t.scope.stepScope = i.currentStep)) ∧
      (t.kind.isBudget = true → i.status ≠ .waitingResolution))

/-- What may become of a timer row. -/
inductive TimerChange (i : SagaInstanceRow) : Cause → Mode → SagaTimerRow → SagaTimerRow → Prop
  | leaving {k t state} (hdead : state = .fired ∨ state = .cancelled) :
      TimerChange i k .leave t (t.unowned state)
  /-- The timeout of a phase, when a late result of that phase arrives. -/
  | deferred {c m t} (hcold : ¬ c.Hot) (hscope : t.scope = .step c.step)
      (hkind : t.kind = phaseTimeoutKind c.phase) :
      TimerChange i (.result c) m t (t.unowned .cancelled)
  | fired {t0 m t} (hid : t.timerId = t0.timerId) (hstay : m = .stay → Stale i t0)
      (hagain : m = .again → t0.kind.isBudget = false) :
      TimerChange i (.timer t0) m t (t.unowned .fired)

/-- What may become of an attempt row. -/
inductive AttemptChange : Cause → SagaStepAttemptRow → SagaStepAttemptRow → Prop
  | settled {c a} (his : a.is c.step c.phase c.attempt = true) :
      AttemptChange (.result c) a
        { a with status := c.status, outcomeEventId := some c.eventId }

/-- The writes of a step before its outcome. -/
structure Quiet (i : SagaInstanceRow) (k : Cause) (m : Mode) (db db' : Db) : Prop where
  inst : db'.inst = db.inst
  transitions : db'.transitions = db.transitions
  controls : db'.controls = db.controls
  outbox : db'.outbox = db.outbox
  steps : Rewrites (RowChange i k m) db.steps db'.steps
  attempts : Rewrites (AttemptChange k) db.attempts db'.attempts
  timers : Rewrites (TimerChange i k m) db.timers db'.timers

/-! ## Issuing -/

/-- A number above those of all attempts of the phase. -/
def Db.FreshAttempt (db : Db) (step : StepName) (phase : StepPhase) (n : AttemptNo) : Prop :=
  0 < n ∧ ∀ a ∈ db.attempts, a.step = step → a.phase = phase → a.attempt < n

/-- The number `next_attempt` returns. -/
def Db.nextAttemptNo (db : Db) (step : StepName) (phase : StepPhase) : AttemptNo :=
  (db.attemptNos step phase).max?.elim AttemptNo.first (· + 1)

/-- `schedule_timer`: a new row has a new id. -/
def Db.Schedules (db : Db) (spec : TimerSpec) (db' : Db) : Prop :=
  db' = db.schedule spec ∧ ((∀ t ∈ db.timers, t.is spec.scope spec.kind spec.attempt = false) →
    ∀ t ∈ db.timers, t.timerId ≠ spec.timerId)

/-- `issue_command` of a new attempt. -/
def Db.Issues (o : Orchestrator) (i : SagaInstanceRow) (step : StepName) (phase : StepPhase)
    (n : AttemptNo) (version : Nat) (db db' : Db) : Prop :=
  ∃ recovery due, db.FreshAttempt step phase n ∧
    let command := o.commandEnvelope i step phase n recovery
    ((db.startAttempt ⟨step, phase, n, command.effectId, command.commandId, .started, none,
      db.clock⟩).appendCommand command).Schedules
        (o.timerSpec (.step step) (phaseTimeoutKind phase) n due version) db'

/-! ## Moves -/

section
variable (o : Orchestrator) (i : SagaInstanceRow) (k : Cause)

/-- When a saga ends without compensation. -/
inductive Finishes (db : Db) : SagaStatus → Direction → Prop
  | complete {d} (hseg : i.ForwardSegment) (hdef : o.definitionOf i = some d)
      (hnext : nextPendingForward d db.steps = .ok none) : Finishes db .completed .forward
  | close (hmanual : i.status = .manualIntervention) : Finishes db .manuallyClosed i.direction

/-- When a command of another phase or step is sent; the plan is the one frozen with it. -/
inductive Sends (db : Db) :
    SagaStatus → Direction → StepName → StepPhase → Option CompensationPlan → Prop
  | forward {d next} (hseg : i.ForwardSegment) (hdef : o.definitionOf i = some d)
      (hdone : ∀ r ∈ db.steps, i.currentStep = some r.step → r.forwardStatus = .succeeded)
      (hnext : nextPendingForward d db.steps = .ok (some next)) :
      Sends db .running .forward next .execute none
  | barrier {t step} (hcause : k = .timer t) (hstatus : i.status = .running)
      (hcur : i.currentStep = some step)
      (hout : ∀ r ∈ db.steps, r.step = step → r.forwardStatus = .timedOut) :
      Sends db .cancelling .forward step .cancel none
  | freeze {d plan entry rest} (hseg : i.ForwardSegment) (hdef : o.definitionOf i = some d)
      (hplan : freezeCompensationPlan o.hashes d (journalOf db.steps) = .ok plan)
      (hfirst : plan.entries = entry :: rest) :
      Sends db .compensating .compensating entry.step .compensate (some plan)
  | next {d step} (hseg : i.BackSegment) (hdef : o.definitionOf i = some d)
      (hnext : nextPendingCompensation o.hashes i d db.steps false = .ok (some step)) :
      Sends db .compensating .compensating step .compensate none
  | requeue {step} (hstatus : i.status = .waitingResolution) (hdir : i.direction = .compensating)
      (hcur : i.currentStep = some step) :
      Sends db .compensating .compensating step .compensate none
  /-- After the row of the step was reopened, if it was halted. -/
  | recover {d step op steps} (hstatus : i.status = .manualIntervention)
      (hdef : o.definitionOf i = some d)
      (hsteps : Rewrites (RowChange i (.admin .retryFrozenCompensation op) .leave) steps db.steps)
      (hnext : nextPendingCompensation o.hashes i d steps true = .ok (some step)) :
      Sends db .compensating .compensating step .compensate none

/-- When the instance starts to wait for a resolution, and the attempt its budget is named by. -/
inductive Waits (db : Db) : Cause → Direction → AttemptNo → Prop
  | execute {c} (hhot : c.Hot) (hphase : c.phase = .execute) (hstatus : c.status = .unknown) :
      Waits db (.result c) .forward c.attempt
  | cancel {c} (hhot : c.Hot) (hphase : c.phase = .cancel)
      (hstatus : c.status = .resolutionPending) : Waits db (.result c) .forward c.attempt
  | compensate {c} (hhot : c.Hot) (hphase : c.phase = .compensate) (hstatus : c.status = .unknown) :
      Waits db (.result c) .compensating c.attempt
  | timeout {t} (hstatus : i.status = .running)
      (hkind : t.kind = .stepTimeout ∨ t.kind = .instanceDeadline) :
      Waits db (.timer t) .forward t.attempt
  | retry {op step} (hstatus : i.status = .manualIntervention) (hcur : i.currentStep = some step) :
      Waits db (.admin .retryResolution op) i.direction (db.nextAttemptNo step .resolve)

/-- When the plan is worked off; the plan is the one frozen with it. -/
inductive WorkedOff (db : Db) : Option CompensationPlan → Prop
  | freeze {d plan} (hseg : i.ForwardSegment) (hdef : o.definitionOf i = some d)
      (hplan : freezeCompensationPlan o.hashes d (journalOf db.steps) = .ok plan)
      (hempty : plan.entries = []) : WorkedOff db (some plan)
  | next {d} (hseg : i.BackSegment) (hdef : o.definitionOf i = some d)
      (hnext : nextPendingCompensation o.hashes i d db.steps false = .ok none) : WorkedOff db none
  | recover {d} (hstatus : i.status = .manualIntervention) (hdef : o.definitionOf i = some d)
      (hnext : nextPendingCompensation o.hashes i d db.steps true = .ok none) : WorkedOff db none

/-- What `verify_compensation_completion` has checked. -/
def Db.Compensated (db : Db) : Prop :=
  ∃ row d plan, db.inst = some row ∧ o.definitionOf row = some d ∧
    freezeCompensationPlan o.hashes d (journalOf db.steps) = .ok plan ∧
    row.compensationPlanVersion = some plan.version ∧
    Orchestrator.verifyMembers db.steps plan.version plan.entries = .ok ()

/-- The marks of a plan, if one is frozen in this step. -/
def Db.freezes (db : Db) : Option CompensationPlan → Db
  | none => db
  | some plan => db.markPlan plan

/-- The transition into `COMPENSATED`. -/
def Cause.convergeSpec (i : SagaInstanceRow) : TransitionSpec where
  toStatus := .compensated
  direction := .compensating
  currentStep := none
  triggerKind := k.triggerKind
  triggerId := o.hashes.convergeTriggerId k.triggerId
  definitionVersion := i.definitionVersion

/-- A budget escalates only an instance that waits for a resolution. -/
def Cause.Escalates : Prop :=
  ∀ t, k = .timer t → t.kind.isBudget = true → i.status = .waitingResolution

/-- The moves of an instance. -/
inductive Move (db : Db) : Db → Prop
  | escalate {code} (can : db.CanAdvance i
      (k.spec i .manualIntervention i.direction i.currentStep (some code) none))
      (guard : Cause.Escalates i k) :
      Move db (db.advance i
        (k.spec i .manualIntervention i.direction i.currentStep (some code) none))
  | finish {dst dir} (guard : Finishes o i db dst dir)
      (can : db.CanAdvance i (k.spec i dst dir none none none)) :
      Move db ((db.advance i (k.spec i dst dir none none none)).cancelTimers .inst none)
  | send {dst dir step phase plan n db'} (guard : Sends o i k db dst dir step phase plan)
      (can : db.CanAdvance i (k.spec i dst dir (some step) none (plan.map (·.version))))
      (issues : Db.Issues o i step phase n (i.version + 1)
        ((db.advance i (k.spec i dst dir (some step) none (plan.map (·.version)))).freezes plan)
        db') : Move db db'
  | wait {dir step a due db1 db'} (guard : Waits i db k dir a) (hcur : i.currentStep = some step)
      (can : db.CanAdvance i (k.spec i .waitingResolution dir (some step) none none))
      (budget : (db.advance i (k.spec i .waitingResolution dir (some step) none none)).Schedules
        (o.timerSpec (.step step) (resolutionBudgetKind dir) a due (i.version + 1)) db1)
      (query : db' = db1 ∨ ∃ n, Db.Issues o i step .resolve n (i.version + 1) db1 db') : Move db db'
  | converge {plan db1} (guard : WorkedOff o i db plan)
      (can : db.CanAdvance i
        (k.spec i .compensating .compensating none none (plan.map (·.version))))
      (hdb1 : db1 = (db.advance i
        (k.spec i .compensating .compensating none none (plan.map (·.version)))).freezes plan)
      (proof : db1.Compensated o)
      (can' : db1.CanAdvance (i.advanced
        (k.spec i .compensating .compensating none none (plan.map (·.version))))
          (k.convergeSpec o i)) :
      Move db ((db1.advance (i.advanced
        (k.spec i .compensating .compensating none none (plan.map (·.version))))
          (k.convergeSpec o i)).cancelTimers .inst none)

/-- The command the instance waits for is sent once more. -/
inductive Reissue (db : Db) : Db → Prop
  | send {step phase n db'} (hphase : phase ≠ .execute) (hstatus : i.status = phase.hotStatus)
      (hcur : i.currentStep = some step)
      (can : db.CanAdvance i (k.spec i i.status i.direction (some step) none none))
      (issues : Db.Issues o i step phase n (i.version + 1)
        (db.advance i (k.spec i i.status i.direction (some step) none none)) db') : Reissue db db'

/-- The outcomes of a step. -/
inductive Outcome (db db' : Db) : Prop
  | stay (quiet : Quiet i k .stay db db')
  | again {db1} (quiet : Quiet i k .again db db1) (reissue : Reissue o i k db1 db')
  | leave {db1} (quiet : Quiet i k .leave db db1) (move : Move o i k db1 db')

end

/-! ## Steps of the machine -/

/-- The keys of step rows and of timers are unique, and there are no rows without an instance. -/
structure Db.Keyed (db : Db) : Prop where
  steps : (db.steps.map (·.step)).Nodup
  timers : (db.timers.map (·.timerId)).Nodup
  empty : db.inst = none → db.steps = [] ∧ db.attempts = [] ∧ db.timers = [] ∧
    db.transitions = [] ∧ db.outbox = []

/-- A timer row whose lease changed, or the time it is next looked at. -/
structure SagaTimerRow.Leased (t t' : SagaTimerRow) : Prop where
  timerId : t'.timerId = t.timerId
  scope : t'.scope = t.scope
  kind : t'.kind = t.kind
  attempt : t'.attempt = t.attempt
  expectedSagaVersion : t'.expectedSagaVersion = t.expectedSagaVersion
  live : t'.live = t.live

/-- Everything but the leases, the inbox, the audit tables and the clock is as it was. -/
structure Housekeeping (db db' : Db) : Prop where
  steps : db'.steps = db.steps
  attempts : db'.attempts = db.attempts
  transitions : db'.transitions = db.transitions
  outbox : db'.outbox = db.outbox
  timers : Rewrites SagaTimerRow.Leased db.timers db'.timers

/-- The operation is the cause of what happens to the instance. -/
inductive Arises (o : Orchestrator) (i : SagaInstanceRow) (db : Db) : Op → Cause → Prop
  | result {e producer now c} (hinst : c.inst = i)
      (hdef : o.definitionOf i = some c.definition)
      (hstepDef : c.definition.step c.step = some c.stepDef) (hidentity : c.identity = e.identity)
      (hstatus : c.status = e.status) (hallows : c.phase.allowsStatus c.status = true)
      (hflight : db.InFlight c.step c.phase c.attempt) :
      Arises o i db (.result e producer now) (.result c)
  | clash {e producer now} : Arises o i db (.result e producer now) (.clash e.eventId)
  | timer {t token now} (hmem : t ∈ db.timers) (hheld : t.heldBy token now = true) :
      Arises o i db (.fire t.timerId token now) (.timer t)
  | retryCompensation {call now} :
      Arises o i db (.retryCompensation call now) (.admin .retryFrozenCompensation call.operationId)
  | retryResolution {call now} :
      Arises o i db (.retryResolution call now) (.admin .retryResolution call.operationId)
  | manualClose {call} :
      Arises o i db (.manualClose call) (.admin .manualClose call.operationId)

/-- `start_saga` created the instance. -/
structure Started (o : Orchestrator) (db db' : Db) : Prop where
  vacant : db.inst = none
  created : ∃ row d first kind id, o.definitionOf row = some d ∧ d.steps.head? = some first ∧
    row.status = .running ∧ row.controlState = .active ∧ row.direction = .forward ∧
    row.currentStep = some first.name ∧ row.compensationPlanVersion = none ∧
    row.version = 1 ∧ ∃ db1, Db.Issues o row first.name .execute 1 1
      { db with
        inst := some row
        transitions := [⟨1, none, .running, kind, id, row.definitionVersion⟩]
        steps := (d.names.zipIdx 1).map fun key => { step := key.1, ordinal := key.2 } } db1 ∧
      (db' = db1 ∨ ∃ due, db1.Schedules (o.timerSpec .inst .instanceDeadline 1 due 1) db')

/-- What an operation does. -/
inductive Step (o : Orchestrator) (db : Db) (op : Op) (db' : Db) : Prop
  | idle (same : db' = db)
  | start (started : Started o db db')
  | keep (inst : db'.inst = db.inst) (housekeeping : Housekeeping db db')
  | control {row state version} (inst : db.inst = some row)
      (inst' : db'.inst = some { row with controlState := state, controlVersion := version })
      (housekeeping : Housekeeping db db')
  | act {i k} (inst : db.inst = some i) (active : i.controlState = .active)
      (arises : Arises o i db op k) (outcome : Outcome o i k db db')

/-- Everything is as it was but the control state and what `Housekeeping` leaves open. -/
structure Kept (db db' : Db) : Prop extends Housekeeping db db' where
  inst : ∃ state version, db'.inst =
    db.inst.map ({ · with controlState := state, controlVersion := version })

theorem Kept.source {db db' : Db} {i' : SagaInstanceRow} (h : Kept db db')
    (hi' : db'.inst = some i') : ∃ i state version, db.inst = some i ∧
      i' = { i with controlState := state, controlVersion := version } := by
  obtain ⟨state, version, hinst⟩ := h.inst
  obtain ⟨i, hi, rfl⟩ := Option.map_eq_some_iff.1 (hinst.symm.trans hi')
  exact ⟨i, state, version, hi, rfl⟩

theorem Step.cases {o : Orchestrator} {db db' : Db} {op : Op} (h : Step o db op db') :
    Started o db db' ∨ Kept db db' ∨ ∃ i k, db.inst = some i ∧ i.controlState = .active ∧
      Arises o i db op k ∧ Outcome o i k db db' := by
  have hkeep (hinst : db'.inst = db.inst) (hk : Housekeeping db db') : Kept db db' := by
    refine ⟨hk, ?_⟩
    rw [hinst]
    cases db.inst with
    | none => exact ⟨.active, 0, rfl⟩
    | some row => exact ⟨row.controlState, row.controlVersion, rfl⟩
  cases h with
  | idle same => exact .inr (.inl (hkeep (by rw [same]) (same ▸ ⟨rfl, rfl, rfl, rfl, .refl _ _⟩)))
  | start started => exact .inl started
  | keep inst housekeeping => exact .inr (.inl (hkeep inst housekeeping))
  | control inst inst' housekeeping =>
    exact .inr (.inl ⟨housekeeping, _, _, by rw [inst, inst']; rfl⟩)
  | act inst active arises outcome => exact .inr (.inr ⟨_, _, inst, active, arises, outcome⟩)

end NasaRuntime.Saga
