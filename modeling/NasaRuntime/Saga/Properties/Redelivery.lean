import NasaRuntime.Saga.Protocol.Invariant

/-!
# What lasts, and redelivered results

The attempt journal, the conflict facts and the audits only grow: an attempt is appended, an attempt
in flight is settled, a conflict fact or an audit row is appended, and no other statement writes these
tables. A property that survives these writes lasts: every statement keeps it, and so does every
handler, whose frame is put together from those of its statements.

**Theorem (`Orchestrator.lasting_runFrom`).** A property that lasts holds in every later state.

`Decided e` is what the first processing of the result `e` leaves: its attempt is settled with the
status of `e`, or with another one and the conflict is on record. It lasts.

**Theorem (`redelivery_run`).** A result that has been processed and is delivered again, after the
inbox forgot it, changes nothing but the inbox, whatever has happened in between. A result that
differs from the settled outcome of its attempt changes no step, no attempt, no command and no
timer: it is refused, or it is recorded as a conflict, and it may freeze the instance.
-/

namespace NasaRuntime.Saga

open Tx

section

/-- A property of the attempts, conflicts and audits that the writes to those tables keep. -/
class Lasting (I : Db → Prop) : Prop where
  frame : ∀ {db db' : Db}, I db → db'.attempts = db.attempts → db'.conflicts = db.conflicts →
    db'.audits = db.audits → I db'
  start : ∀ {db : Db} (row : SagaStepAttemptRow), I db → I (db.startAttempt row)
  settle : ∀ {db : Db} {step phase attempt} (status : StepAttemptStatus) (eventId : String),
    db.InFlight step phase attempt → I db → I (db.settleAttempt step phase attempt status eventId)
  conflict : ∀ {db : Db} (fact : AttemptConflictFact),
    I db → I { db with conflicts := db.conflicts ++ [fact] }
  audit : ∀ {db : Db} (row : SagaManagementAuditRow),
    I db → I { db with audits := db.audits ++ [row] }

variable {I : Db → Prop} [hlast : Lasting I]

theorem keeps_modify {f : Db → Db}
    (hf : ∀ db, (f db).attempts = db.attempts ∧ (f db).conflicts = db.conflicts ∧
      (f db).audits = db.audits) :
    Keeps I (modify f : SagaTx PUnit) :=
  .of_modify fun db h => hlast.frame h (hf db).1 (hf db).2.1 (hf db).2.2

theorem keeps_modify_bind {α : Type} {f : Db → Db} {m : PUnit → SagaTx α}
    (hf : ∀ db, (f db).attempts = db.attempts ∧ (f db).conflicts = db.conflicts ∧
      (f db).audits = db.audits)
    (hm : Keeps I (m ⟨⟩)) : Keeps I (modify f >>= m) := by
  have := keeps_modify (I := I) hf
  exact .bind fun _ => hm

variable {row : SagaInstanceRow} {step : StepName} {phase : StepPhase} {attempt : AttemptNo}
  {timer : SagaTimerRow} {definition : WorkflowDefinition} {direction : Direction} {now : Int}
  {version expectedVersion maxAttempts : Nat} {operationId token timerId triggerId : String}
  {src : SagaStatus} {spec : TransitionSpec} {triggerKind : TriggerKind} {action : ManagementAction}
  {patch : StepJournalPatch} {scope : TimerScope} {stepDef : StepDefinition}
  {e : SagaResultEnvelope} {stepScope : Option StepName}

/-! ## The store's statements -/

section Store

instance {spec} : Keeps I (createInstance spec) := by
  unfold createInstance
  refine .bind fun _ => .bind fun _ => .bind fun db => ?_
  split
  · infer_instance
  · exact keeps_modify_bind (fun _ => ⟨rfl, rfl, rfl⟩) inferInstance

instance : Keeps I (advance version src spec) := by
  unfold advance
  refine .bind fun _ => .bind fun _ => .bind fun _ => .bind fun db => .bind fun _ =>
    .bind fun _ => ?_
  split
  · infer_instance
  · refine keeps_modify_bind (fun _ => ⟨rfl, rfl, rfl⟩) ?_
    split
    · infer_instance
    · exact keeps_modify_bind (fun _ => ⟨rfl, rfl, rfl⟩) inferInstance

instance {spec} : Keeps I (setControlState spec) := by
  unfold setControlState
  refine .bind fun _ => .bind fun _ => .bind fun _ => .bind fun _ => .bind fun _ =>
    .bind fun db => ?_
  split
  · infer_instance
  · split
    · infer_instance
    · exact keeps_modify_bind (fun _ => ⟨rfl, rfl, rfl⟩) inferInstance

instance {actor reason} : Keeps I (recordManagementOperation operationId action actor reason) := by
  refine ⟨fun h hends => ?_⟩
  rcases ends_recordManagementOperation hends with ⟨-, rfl⟩ | ⟨-, rfl⟩
  · exact h
  · exact hlast.audit _ h

instance {d} : Keeps I (registerSteps d) :=
  keeps_modify fun _ => ⟨rfl, rfl, rfl⟩

instance {effect command} : Keeps I (recordAttemptStarted step phase attempt effect command) := by
  unfold recordAttemptStarted
  refine .bind fun db => ?_
  split
  · infer_instance
  · have : Keeps I (modify (·.startAttempt
        ⟨step, phase, attempt, effect, command, .started, none, db.clock⟩) : SagaTx PUnit) :=
      .of_modify fun _ h => hlast.start _ h
    infer_instance

instance {status eventId} : Keeps I (recordAttemptOutcome step phase attempt status eventId) := by
  refine ⟨fun h hends => ?_⟩
  rcases ends_recordAttemptOutcome hends with ⟨-, rfl⟩ | ⟨-, hflight, rfl⟩
  · exact h
  · exact hlast.settle status eventId hflight h

instance {fact} : Keeps I (recordAttemptConflict fact) := by
  refine ⟨fun h hends => ?_⟩
  rw [ends_recordAttemptConflict hends]
  exact hlast.conflict fact h

instance : Keeps I (updateStepJournal step patch) := by
  refine ⟨fun h hends => ?_⟩
  rw [ends_updateStepJournal hends]
  exact hlast.frame h rfl rfl rfl

instance : Keeps I (reopenHaltedCompensation step operationId) := by
  refine ⟨fun h hends => ?_⟩
  rw [(ends_reopenHaltedCompensation hends).2]
  exact hlast.frame h rfl rfl rfl

instance : Keeps I (reopenHaltedResolution step operationId) := by
  refine ⟨fun h hends => ?_⟩
  rw [(ends_reopenHaltedResolution hends).2]
  exact hlast.frame h rfl rfl rfl

instance {plan} : Keeps I (markCompensationPlan plan) := by
  refine ⟨fun h hends => ?_⟩
  rw [ends_markCompensationPlan hends]
  exact hlast.frame h rfl rfl rfl

instance {spec} : Keeps I (scheduleTimer spec) := by
  refine ⟨fun {db _ db'} h hends => ?_⟩
  rw [(ends_scheduleTimer hends).1, Db.schedule]
  split
  · exact h
  · exact hlast.frame h rfl rfl rfl

instance {kind} : Keeps I (cancelScopeTimers scope kind) :=
  keeps_modify fun _ => ⟨rfl, rfl, rfl⟩

instance {owner lease limit} : Keeps I (claimDueTimers owner token now lease limit) := by
  unfold claimDueTimers
  refine .bind fun _ => .bind fun _ => .bind fun _ => .bind fun _ => ?_
  exact keeps_modify fun _ => ⟨rfl, rfl, rfl⟩

instance : Keeps I (completeTimer timerId token now) := by
  refine ⟨fun h hends => ?_⟩
  rcases ends_completeTimer hends with ⟨-, rfl⟩ | ⟨-, -, rfl⟩
  · exact h
  · exact hlast.frame h rfl rfl rfl

instance {availableAt} : Keeps I (releaseTimer timerId token now availableAt) := by
  unfold releaseTimer
  refine .bind fun _ => .bind fun _ => .bind fun _ => .bind fun db => ?_
  split
  · infer_instance
  · split
    · exact keeps_modify_bind (fun _ => ⟨rfl, rfl, rfl⟩) inferInstance
    · infer_instance

instance : Keeps I wakeSagaTimers := keeps_modify fun _ => ⟨rfl, rfl, rfl⟩

end Store

/-! ## The handlers -/

namespace Orchestrator

variable (o : Orchestrator) (c : ResultContext)

section Segments

instance : Keeps I (advanceApplied version src spec) := by
  unfold advanceApplied
  infer_instance

instance : Keeps I (nextAttempt step phase) := by
  unfold nextAttempt
  refine .bind fun db => ?_
  split <;> infer_instance

instance {error} : Keeps I (loadStep step error) := by
  unfold loadStep
  infer_instance

instance {dst currentStep failureCode planVersion} :
    Keeps I (advance row dst direction currentStep triggerKind triggerId failureCode
      planVersion) := by
  unfold advance
  infer_instance

instance {kind dueAt} : Keeps I (o.scheduleTimer scope kind attempt dueAt expectedVersion) := by
  unfold scheduleTimer
  infer_instance

instance {recovery} :
    Keeps I (o.issueCommand row stepDef phase attempt recovery now expectedVersion) := by
  unfold issueCommand
  refine .bind fun _ => ?_
  exact keeps_modify_bind (fun _ => ⟨rfl, rfl, rfl⟩) inferInstance

instance : Keeps I (cancelResolutionTimers step) := by
  unfold cancelResolutionTimers
  infer_instance

instance {failureCode} : Keeps I (escalateManual row triggerKind triggerId failureCode) := by
  unfold escalateManual
  infer_instance

instance : Keeps I (o.verifyCompensationCompletion expectedVersion) := by
  unfold verifyCompensationCompletion
  refine .bind fun db => .bind fun row => .bind fun _ => .bind fun frozen => ?_
  infer_instance

instance {causeId} : Keeps I (o.convergeCompensated version triggerKind causeId) := by
  unfold convergeCompensated
  infer_instance

instance : Keeps I (o.proceedForward c) := by
  unfold proceedForward
  refine .bind fun db => .bind fun next => ?_
  split <;> infer_instance

instance : Keeps I (o.enterCompensation c) := by
  unfold enterCompensation
  refine .bind fun db => ?_
  split
  · infer_instance
  · refine .bind fun version => .bind fun _ => ?_
    split <;> infer_instance

instance : Keeps I (o.continueCompensation c) := by
  unfold continueCompensation
  refine .bind fun db => ?_
  split
  · infer_instance
  · refine .bind fun version => ?_
    split <;> infer_instance

instance {budgetAttempt} :
    Keeps I (o.openResolution row stepDef direction budgetAttempt now version) := by
  unfold openResolution
  infer_instance

instance : Keeps I (o.enterWaitingResolution c direction) := by
  unfold enterWaitingResolution
  infer_instance

instance : Keeps I (o.reissueResolve c) := by
  unfold reissueResolve
  infer_instance

end Segments

section Results

instance {row} : Keeps I (onCrossPhaseConflict c row) := by
  unfold onCrossPhaseConflict
  infer_instance

instance : Keeps I (projectDeferredResult c) := by
  unfold projectDeferredResult
  refine .bind fun row => ?_
  split
  · infer_instance
  · refine .bind fun patch => ?_
    split <;> infer_instance

instance : Keeps I (applyMonotonicProjection c patch) := by
  unfold applyMonotonicProjection
  refine .bind fun row => ?_
  split <;> infer_instance

instance : Keeps I (o.onExecuteResult c) := by
  unfold onExecuteResult
  split
  · infer_instance
  · split <;> infer_instance

instance {terminal} : Keeps I (o.onAlreadyTerminal c terminal) := by
  unfold onAlreadyTerminal
  split
  · split <;> infer_instance
  all_goals infer_instance

/-- A projection that refuses the result answers with a status, otherwise the handler goes on. -/
theorem keeps_projected {m : SagaTx SagaStatus} (hm : Keeps I m) :
    Keeps I (do
      match ← applyMonotonicProjection c patch with
      | some status => return status
      | none => m) := by
  refine .bind fun answer => ?_
  split <;> infer_instance

instance : Keeps I (o.onCancelResult c) := by
  unfold onCancelResult
  split
  · infer_instance
  · split
    · exact keeps_projected c inferInstance
    · refine .bind fun terminal => ?_
      exact keeps_projected c inferInstance
    · exact keeps_projected c inferInstance
    · infer_instance

instance : Keeps I (o.onCompensateResult c) := by
  unfold onCompensateResult
  split
  · infer_instance
  · refine .bind fun _ => ?_
    split <;> infer_instance

instance : Keeps I (o.acceptForward c) := by
  unfold acceptForward
  split <;> infer_instance

instance : Keeps I (o.settleResolutionFromCommittedSuccess c) := by
  unfold settleResolutionFromCommittedSuccess
  refine .bind fun row => ?_
  split
  · infer_instance
  · split
    · refine .bind fun answer => ?_
      split <;> infer_instance
    · refine .bind fun answer => ?_
      split <;> infer_instance

instance : Keeps I (onResolutionHalted c) := by
  unfold onResolutionHalted
  exact keeps_projected c inferInstance

instance : Keeps I (o.requeueCompensation c) := by
  unfold requeueCompensation
  infer_instance

instance : Keeps I (o.onForwardResolution c) := by
  unfold onForwardResolution
  split
  · exact keeps_projected c inferInstance
  · exact keeps_projected c inferInstance
  all_goals infer_instance

instance : Keeps I (o.onCompensationResolution c) := by
  unfold onCompensationResolution
  split
  · exact keeps_projected c inferInstance
  · exact keeps_projected c inferInstance
  all_goals infer_instance

instance : Keeps I (o.onResolveResult c) := by
  unfold onResolveResult
  split
  · infer_instance
  · refine .bind fun answer => ?_
    split
    · infer_instance
    · split <;> infer_instance

instance : Keeps I (o.onResult c) := by
  unfold onResult
  split <;> infer_instance

instance {sagaId} : Keeps I (o.loadInstance sagaId) := by
  unfold loadInstance
  infer_instance

instance {identity} : Keeps I (o.handleVerifiedResult e identity now) := by
  unfold handleVerifiedResult
  refine .bind fun db => ?_
  split
  · infer_instance
  · refine keeps_modify_bind (fun _ => ⟨rfl, rfl, rfl⟩) ?_
    refine .bind fun _ => .bind fun row => .bind fun _ => .bind fun _ => .bind fun definition =>
      .bind fun stepDef => .bind fun answer => ?_
    split <;> infer_instance

instance {producer} : Keeps I (o.handleAuthenticatedResult e producer now) := by
  unfold handleAuthenticatedResult
  infer_instance

end Results

section Timers

instance : Keeps I (o.onStepTimeout row definition stepScope timer now) := by
  unfold onStepTimeout
  infer_instance

instance : Keeps I (attemptsExhausted row step phase maxAttempts) := by
  unfold attemptsExhausted
  infer_instance

instance {requiredStatus exhaustedCode} :
    Keeps I (o.onPhaseRetryTimeout row definition stepScope timer phase requiredStatus maxAttempts
      exhaustedCode now) := by
  unfold onPhaseRetryTimeout
  infer_instance

instance : Keeps I (o.onInstanceDeadline row definition timer now) := by
  unfold onInstanceDeadline
  split
  · split <;> infer_instance
  all_goals infer_instance

instance : Keeps I (o.onTimer row definition timer now) := by
  unfold onTimer
  split <;> infer_instance

instance : Keeps I (o.fireTimer timer token now) := by
  unfold fireTimer
  refine .bind fun db => ?_
  split
  · refine .bind fun fencing => ?_
    split <;> infer_instance
  · split
    · infer_instance
    · refine .bind fun fencing => ?_
      split
      · infer_instance
      · split
        · infer_instance
        · refine .bind fun definition => .bind fun answer => ?_
          split <;> infer_instance

end Timers

section Management

variable (m : ManagementCall)

instance {permission} : Keeps I (m.requirePermission permission) := by
  unfold ManagementCall.requirePermission
  infer_instance

instance : Keeps I m.target := by
  unfold ManagementCall.target
  infer_instance

instance : Keeps I (m.verifyExpectation row) := by
  unfold ManagementCall.verifyExpectation
  infer_instance

instance : Keeps I m.reserveActionRateBudget := by
  unfold ManagementCall.reserveActionRateBudget
  infer_instance

instance {src dst message} : Keeps I (setControl m src dst message) := by
  unfold setControl
  refine .bind fun row => .bind fun outcome => ?_
  split <;> infer_instance

instance {name} : Keeps I (audited m action name) := by
  unfold audited
  refine .bind fun row => .bind fun outcome => ?_
  split <;> infer_instance

instance : Keeps I (o.recoverCompensation row operationId now) := by
  unfold recoverCompensation
  refine .bind fun _ => .bind fun definition => .bind fun db => .bind fun next => ?_
  split <;> infer_instance

instance : Keeps I (o.recoverResolution row operationId now) := by
  unfold recoverResolution
  refine .bind fun step => .bind fun definition => .bind fun stepDef => .bind fun _ => ?_
  infer_instance

instance {request quotaAvailable} : Keeps I (o.startSaga request quotaAvailable) := by
  unfold startSaga
  refine .bind fun definition => .bind fun first => .bind fun creation => ?_
  split
  · infer_instance
  · refine .bind fun _ => .bind fun _ => .bind fun _ => .bind fun _ => ?_
    split <;> infer_instance

/-- The frame of every entry point. -/
instance {op} : Keeps I (o.body op) := by
  cases op with
  | fire timerId token now =>
    unfold body
    refine .bind fun db => ?_
    split <;> infer_instance
  | forget eventId => exact keeps_modify fun _ => ⟨rfl, rfl, rfl⟩
  | tick clock => exact keeps_modify fun _ => ⟨rfl, rfl, rfl⟩
  | _ =>
    simp only [body, pause, resume, retryCompensation, retryResolution, manualClose]
    infer_instance

end Management

/-- **What lasts.** -/
theorem lasting_runFrom {db : Db} (h : I db) (ops : List Op) : I (runFrom o.exec db ops) :=
  inv_runFrom_all (fun _ _ h => Keeps.commit h) h ops

end Orchestrator

end

/-! ## Audits -/

/-- The operation has an audit row. -/
def Db.Audited (action : ManagementAction) (operationId : String) (db : Db) : Prop :=
  ∃ a ∈ db.audits, a.operationId = operationId ∧ a.action = action

instance {action : ManagementAction} {operationId : String} :
    Lasting (Db.Audited action operationId) where
  frame h _ _ haud := by
    rw [Db.Audited, haud]
    exact h
  start _ h := h
  settle _ _ _ h := h
  conflict _ h := h
  audit _ h := h.imp fun _ ha => ⟨List.mem_append_left _ ha.1, ha.2⟩

/-- The operations that reopen what was halted. -/
def Op.retry : Op → Option (ManagementAction × String)
  | .retryCompensation call _ => some (.retryFrozenCompensation, call.operationId)
  | .retryResolution call _ => some (.retryResolution, call.operationId)
  | _ => none

/-- An operation that goes on behind its audit row leaves the row there. -/
theorem audited_of_ends {db db1 db' : Db} {m : ManagementCall} {action : ManagementAction}
    {name : String} {row : SagaInstanceRow} {fresh : Bool} {rest : SagaTx SagaStatus}
    {status : SagaStatus} [hrest : Keeps (Db.Audited action m.operationId) rest]
    (haud : (Orchestrator.audited m action name).Ends db (row, fresh) db1)
    (h : (if fresh then rest else return row.status).Ends db1 status db') :
    db' = db ∨ db'.Audited action m.operationId := by
  rcases Orchestrator.ends_audited haud with ⟨rfl, rfl⟩ | ⟨rfl, -, -, -, audits, hmem, rfl⟩
  · exact .inl (ends_pure.1 h).2.symm
  · exact .inr (hrest.ends ⟨_, hmem, rfl, rfl⟩ h)

theorem Orchestrator.audited_exec (o : Orchestrator) (db : Db) (op : Op) : o.exec db op = db ∨
    ∀ action id, op.retry = some (action, id) → (o.exec db op).Audited action id := by
  rcases commit_cases (o.body op) db with ⟨_, db', hends, hexec⟩ | hexec
  · rw [show o.exec db op = db' from hexec]
    cases op with
    | retryCompensation call now | retryResolution call now =>
      obtain ⟨_, _, hretr, hpure⟩ := ends_bind.1 hends
      obtain ⟨-, rfl⟩ := ends_pure.1 hpure
      obtain ⟨_, _, hperm, hretr⟩ := ends_bind.1 hretr
      obtain ⟨-, rfl⟩ := ends_require.1 hperm
      obtain ⟨⟨row, fresh⟩, _, haud, hretr⟩ := ends_bind.1 hretr
      refine (audited_of_ends haud hretr).imp_right fun haud _ _ hop => ?_
      cases hop
      exact haud
    | _ => exact .inr nofun
  · exact .inl hexec

open Table TwoSteps Orchestrator Option

variable {o : Orchestrator} {e : SagaResultEnvelope} {db db' : Db}
variable {a : SagaStepAttemptRow}

/-! ## Settled attempts -/

/-- The attempt the result belongs to. -/
def Db.attemptOf (db : Db) (e : SagaResultEnvelope) : Option SagaStepAttemptRow :=
  db.attempts.find? (·.is e.step e.phase e.attempt)

/-- The attempt of the result is settled: with its status, or with another one and the conflict is
on record. -/
def Decided (e : SagaResultEnvelope) (db : Db) : Prop :=
  ∃ a, db.attemptOf e = some a ∧ a.status ≠ .started ∧
    (a.status = e.status ∨ ∃ fact ∈ db.conflicts, fact.incomingEventId = e.eventId)

theorem attemptOf_settle (db : Db) (e : SagaResultEnvelope) (step : StepName) (phase : StepPhase)
    (attempt : AttemptNo) (status : StepAttemptStatus) (eventId : String) :
    (db.settleAttempt step phase attempt status eventId).attemptOf e =
      (db.attemptOf e).map fun row => if row.is step phase attempt then
        { row with status, outcomeEventId := some eventId } else row :=
  find?_updateWhere fun _ => rfl

theorem attemptOf_settleAttempt {step : StepName} {phase : StepPhase}
    {attempt : AttemptNo} (status : StepAttemptStatus) (eventId : String)
    (ha : db.attemptOf e = some a) (hsettled : a.status ≠ .started)
    (hflight : db.InFlight step phase attempt) :
    (db.settleAttempt step phase attempt status eventId).attemptOf e = some a := by
  have hoth : a.is step phase attempt = false := by
    by_contra his
    rw [Bool.not_eq_false] at his
    obtain ⟨row, hrow, hstart⟩ := hflight
    have hkey := List.find?_some ha
    simp only [SagaStepAttemptRow.is, Bool.and_eq_true, decide_eq_true_eq] at his hkey
    obtain ⟨⟨rfl, rfl⟩, rfl⟩ := his
    obtain ⟨⟨hstep, hph⟩, hatt⟩ := hkey
    rw [Db.attemptOf, ← hstep, ← hph, ← hatt, hrow] at ha
    cases ha
    exact hsettled hstart
  rw [attemptOf_settle, ha, map_some, hoth]
  rfl

instance : Lasting (Decided e) where
  frame h hattempts hconflicts _ := by
    unfold Decided Db.attemptOf at h ⊢
    rwa [hattempts, hconflicts]
  audit _ h := h
  start row h := by
    obtain ⟨a, ha, hsettled, hstatus⟩ := h
    refine ⟨a, ?_, hsettled, hstatus⟩
    unfold Db.attemptOf Db.startAttempt
    rw [List.find?_append]
    unfold Db.attemptOf at ha
    rw [ha, Option.some_or]
  settle status eventId hflight h := by
    obtain ⟨a, ha, hsettled, hstatus⟩ := h
    exact ⟨a, attemptOf_settleAttempt status eventId ha hsettled hflight, hsettled, hstatus⟩
  conflict fact h := by
    obtain ⟨a, ha, hsettled, hstatus⟩ := h
    refine ⟨a, ha, hsettled, hstatus.imp_right ?_⟩
    rintro ⟨known, hmem, hid⟩
    exact ⟨known, List.mem_append_left _ hmem, hid⟩

/-! ## What the journal answers -/

variable {r : AttemptOutcomeRecord} {producer : ServiceIdentity}

theorem ends_recordAttemptOutcome_settled
    (ha : db.attemptOf e = some a) (hsettled : a.status ≠ .started)
    (h : (recordAttemptOutcome e.step e.phase e.attempt e.status e.eventId).Ends db r db') :
    db' = db ∧ ((a.status = e.status ∧ r = .alreadyRecorded) ∨
      (a.status ≠ e.status ∧ r = .conflicting a.status)) := by
  simp only [recordAttemptOutcome, ends_bind, ends_require, ends_get] at h
  obtain ⟨_, _, ⟨-, rfl⟩, _, _, ⟨rfl, rfl⟩, h⟩ := h
  rw [show db.attempts.find? (·.is e.step e.phase e.attempt) = some a from ha] at h
  simp only [if_neg hsettled, ends_ite, ends_pure] at h
  rcases h with ⟨heq, rfl, rfl⟩ | ⟨hne, rfl, rfl⟩
  · exact ⟨rfl, .inl ⟨heq, rfl⟩⟩
  · exact ⟨rfl, .inr ⟨hne, rfl⟩⟩

theorem decided_of_recordAttemptOutcome
    (h : (recordAttemptOutcome e.step e.phase e.attempt e.status e.eventId).Ends db r db') :
    ∃ a, db'.attemptOf e = some a ∧ a.status ≠ .started ∧
      (a.status = e.status ∨ r = .conflicting a.status) := by
  simp only [recordAttemptOutcome, ends_bind, ends_require, ends_get] at h
  obtain ⟨_, _, ⟨hflight, rfl⟩, _, _, ⟨rfl, rfl⟩, h⟩ := h
  split at h
  · exact absurd h ends_throw
  · rename_i a ha
    simp only [ends_ite, ends_bind, ends_modify, ends_pure] at h
    rcases h with ⟨hstart, _, _, rfl, -, rfl⟩ | ⟨hsettled, ⟨heq, -, rfl⟩ | ⟨hne, rfl, rfl⟩⟩
    · refine ⟨{ a with status := e.status, outcomeEventId := some e.eventId }, ?_, ?_, .inl rfl⟩
      · rw [attemptOf_settle, show db.attemptOf e = some a from ha, map_some, List.find?_some ha]
        rfl
      · intro hs
        rw [show e.status = .started from hs] at hflight
        cases hflight
    · exact ⟨a, ha, hsettled, .inl heq⟩
    · exact ⟨a, ha, hsettled, .inr rfl⟩

/-! ## Handling a result -/

/-- The conflict of a result with the settled status of its attempt. -/
def SagaResultEnvelope.clash (e : SagaResultEnvelope) (existing : StepAttemptStatus) :
    AttemptConflictFact :=
  ⟨e.step, e.phase, e.attempt, existing, e.status, e.eventId, .attemptTerminal⟩

theorem ends_handleResult {now : Int} {r : HandleOutcome}
    (h : (o.handleAuthenticatedResult e producer now).Ends db r db') :
    (r = .duplicate ∧ db' = db) ∨ ∃ answer db1,
      (recordAttemptOutcome e.step e.phase e.attempt e.status e.eventId).Ends
        { db with inbox := db.inbox ++ [e.eventId] } answer db1 ∧
      ((answer = .recorded ∧ ∃ c status, (o.onResult c).Ends db1 status db') ∨
        (answer = .alreadyRecorded ∧ db' = db1) ∨
        ∃ existing row db2, answer = .conflicting existing ∧ db.inst = some row ∧
          (recordAttemptConflict (e.clash existing)).Ends db1 () db2 ∧
          ((row.status.isFrozen = true ∧ db' = db2) ∨ (row.status.isFrozen = false ∧
            ∃ status, (Orchestrator.escalateManual row .event e.eventId
              "attempt_outcome_conflict").Ends db2 status db'))) := by
  simp only [handleAuthenticatedResult, handleVerifiedResult,
    loadInstance, ends_bind, ends_ofExcept, ends_get, ends_ite, ends_modify,
    ends_orThrow, ends_require, ends_pure] at h
  obtain ⟨identity, _, ⟨hprod, rfl⟩, _, _, ⟨rfl, rfl⟩, h⟩ := h
  obtain ⟨rfl, -⟩ := verifyResultProducer_ok hprod
  rcases h with ⟨-, rfl, rfl⟩ | ⟨-, _, _, rfl, _, _, ⟨_, _, ⟨rfl, rfl⟩, rfl, rfl⟩, row, _,
    ⟨hrow, rfl⟩, _, _, ⟨-, rfl⟩, _, _, ⟨-, rfl⟩, d, _, ⟨-, rfl⟩, stepDef, _, ⟨-, rfl⟩, answer,
    db1, hrec, h⟩
  · exact .inl ⟨rfl, rfl⟩
  · refine .inr ⟨answer, db1, hrec, ?_⟩
    split at h
    · obtain ⟨-, rfl⟩ := ends_pure.1 h
      exact .inr (.inl ⟨rfl, rfl⟩)
    · rename_i existing
      simp only [ends_bind, ends_ite, ends_pure] at h
      obtain ⟨_, db2, hfact, h⟩ := h
      refine .inr (.inr ⟨existing, row, db2, rfl, (filter_eq_some_iff.1 hrow).1, hfact, ?_⟩)
      rcases h with ⟨hfroz, -, rfl⟩ | ⟨hact, status, _, h, -, rfl⟩
      · exact .inl ⟨hfroz, rfl⟩
      · exact .inr ⟨eq_false_of_ne_true hact, status, h⟩
    · simp only [ends_bind, ends_pure] at h
      obtain ⟨status, _, h, -, rfl⟩ := h
      exact .inl ⟨rfl, _, status, h⟩

theorem decided_of_applied {now : Int} {status : SagaStatus}
    (h : (o.handleAuthenticatedResult e producer now).Ends db (.applied status) db') :
    Decided e db' := by
  rcases ends_handleResult h with ⟨hr, -⟩ | ⟨answer, db1, hrec, hroute⟩
  · cases hr
  · obtain ⟨a, ha, hsettled, hstatus⟩ := decided_of_recordAttemptOutcome hrec
    rcases hroute with ⟨rfl, c, status, hres⟩ | ⟨rfl, rfl⟩ |
      ⟨existing, row, db2, rfl, -, hfact, hrest⟩
    · have heq : a.status = e.status := hstatus.resolve_right nofun
      exact Keeps.ends (I := Decided e) ⟨a, ha, hsettled, .inl heq⟩ hres
    · have heq : a.status = e.status := hstatus.resolve_right nofun
      exact ⟨a, ha, hsettled, .inl heq⟩
    · have hdec : Decided e db2 := by
        rw [ends_recordAttemptConflict hfact]
        refine ⟨a, ha, hsettled, .inr ⟨e.clash existing, ?_, rfl⟩⟩
        exact List.mem_append_right _ List.mem_cons_self
      rcases hrest with ⟨-, rfl⟩ | ⟨-, status, hesc⟩
      · exact hdec
      · exact Keeps.ends hdec hesc

theorem exec_of_decided (h : Decided e db) (producer : ServiceIdentity) (now : Int) :
    ∃ inbox, o.exec db (.result e producer now) = { db with inbox } := by
  rcases commit_cases (o.body (.result e producer now)) db with ⟨u, db', hends, hexec⟩ | hexec
  · rw [show o.exec db (.result e producer now) = db' from hexec]
    simp only [body, ends_bind, ends_pure] at hends
    obtain ⟨r, _, hends, -, rfl⟩ := hends
    rcases ends_handleResult hends with ⟨-, rfl⟩ | ⟨answer, db1, hrec, hroute⟩
    · exact ⟨_, rfl⟩
    · obtain ⟨a, ha, hsettled, hstatus⟩ := h
      have hinb : ({ db with inbox := db.inbox ++ [e.eventId] } : Db).attemptOf e = some a := ha
      obtain ⟨rfl, hans⟩ := ends_recordAttemptOutcome_settled hinb hsettled hrec
      rcases hroute with ⟨rfl, -⟩ | ⟨rfl, rfl⟩ | ⟨existing, row, db2, rfl, -, hfact, -⟩
      · rcases hans with ⟨-, h⟩ | ⟨-, h⟩ <;> cases h
      · exact ⟨_, rfl⟩
      · -- the conflict is on record already, and its key refuses a second one
        rcases hans with ⟨-, h⟩ | ⟨hne, -⟩
        · cases h
        · obtain ⟨fact, hmem, hid⟩ := hstatus.resolve_left hne
          simp only [recordAttemptConflict, ends_bind, ends_require, ends_get] at hfact
          obtain ⟨_, _, ⟨-, rfl⟩, _, _, ⟨rfl, rfl⟩, _, _, ⟨hfresh, -⟩, -⟩ := hfact
          rw [List.all_eq_true] at hfresh
          exact absurd hid (of_decide_eq_true (hfresh fact hmem))
  · exact ⟨db.inbox, hexec⟩

/-! ## Every run -/

/-- Somewhere in the run the result was processed. -/
def Orchestrator.Processed (o : Orchestrator) (ops : List Op) (e : SagaResultEnvelope) : Prop :=
  ∃ pre producer now post status, ops = pre ++ .result e producer now :: post ∧
    (o.handleAuthenticatedResult e producer now).answer (o.run pre) = some (.applied status)

theorem Orchestrator.Processed.decided {ops : List Op} (h : o.Processed ops e) :
    Decided e (o.run ops) := by
  obtain ⟨pre, producer, now, post, status, rfl, hans⟩ := h
  obtain ⟨db', hends⟩ := answer_eq_some.1 hans
  have hbody : (o.body (.result e producer now)).Ends (o.run pre) () db' := by
    simp only [body, ends_bind]
    exact ⟨_, db', hends, ends_pure.2 ⟨rfl, rfl⟩⟩
  rw [run, runFrom_append, runFrom_cons]
  refine o.lasting_runFrom ?_ post
  rw [show o.exec (runFrom o.exec {} pre) (.result e producer now) = db' from commit_of_ends hbody]
  exact decided_of_applied hends

/-- The result is refused, is recorded as a conflict, or is recorded and freezes the instance; all
the rest of the store stays as it is. -/
def OnlyClashes (db : Db) (e : SagaResultEnvelope) (existing : StepAttemptStatus) (db' : Db) :
    Prop :=
  ∃ inbox, db' = { db with inbox } ∨
    db' = { db with inbox, conflicts := db.conflicts ++ [e.clash existing] } ∨
    ∃ row, db.inst = some row ∧ row.status.isFrozen = false ∧
      db' = ({ db with inbox, conflicts := db.conflicts ++ [e.clash existing] }).advance row
        (Orchestrator.transitionSpec row .manualIntervention row.direction row.currentStep .event
          e.eventId (some "attempt_outcome_conflict") none)

theorem exec_of_clash (ha : db.attemptOf e = some a)
    (hsettled : a.status ≠ .started) (hne : a.status ≠ e.status) (producer : ServiceIdentity)
    (now : Int) : OnlyClashes db e a.status (o.exec db (.result e producer now)) := by
  rcases commit_cases (o.body (.result e producer now)) db with ⟨u, db', hends, hexec⟩ | hexec
  · rw [show o.exec db (.result e producer now) = db' from hexec]
    simp only [Orchestrator.body, ends_bind, ends_pure] at hends
    obtain ⟨r, _, hends, -, rfl⟩ := hends
    rcases ends_handleResult hends with ⟨-, rfl⟩ | ⟨answer, db1, hrec, hroute⟩
    · exact ⟨_, .inl rfl⟩
    · have hinb : ({ db with inbox := db.inbox ++ [e.eventId] } : Db).attemptOf e = some a := ha
      obtain ⟨rfl, hans⟩ := ends_recordAttemptOutcome_settled hinb hsettled hrec
      obtain ⟨-, rfl⟩ := hans.resolve_left fun h => hne h.1
      rcases hroute with ⟨h, -⟩ | ⟨h, -⟩ | ⟨existing, row, db2, h, hinst, hfact, hrest⟩
      · cases h
      · cases h
      · cases h
        refine ⟨db.inbox ++ [e.eventId], .inr ?_⟩
        rw [ends_recordAttemptConflict hfact] at hrest
        rcases hrest with ⟨-, rfl⟩ | ⟨hact, status, hesc⟩
        · exact .inl rfl
        · refine .inr ⟨row, hinst, hact, ?_⟩
          simp only [Orchestrator.escalateManual, ends_bind, ends_pure] at hesc
          obtain ⟨_, _, hadv, -, rfl⟩ := hesc
          exact (Orchestrator.ends_advance hadv hinst).2.2
  · exact ⟨db.inbox, .inl hexec⟩

/-- **Redelivery.** -/
theorem redelivery_run (o : Orchestrator) (ops : List Op) :
    (∀ e, o.Processed ops e → ∀ producer now, ∃ inbox,
      o.exec (o.exec (o.run ops) (.forget e.eventId)) (.result e producer now) =
        { o.run ops with inbox }) ∧
    ∀ e a, (o.run ops).attemptOf e = some a → a.status ≠ .started → a.status ≠ e.status →
      ∀ producer now, OnlyClashes (o.run ops) e a.status
        (o.exec (o.run ops) (.result e producer now)) ∧
        (o.exec (o.run ops) (.result e producer now)).steps = (o.run ops).steps ∧
        (o.exec (o.run ops) (.result e producer now)).attempts = (o.run ops).attempts ∧
        (o.exec (o.run ops) (.result e producer now)).outbox = (o.run ops).outbox ∧
        (o.exec (o.run ops) (.result e producer now)).timers = (o.run ops).timers := by
  constructor
  · intro e hproc producer now
    have hforg : Decided e (o.exec (o.run ops) (.forget e.eventId)) := Keeps.commit hproc.decided
    obtain ⟨inbox, hexec⟩ := exec_of_decided (o := o) hforg producer now
    exact ⟨inbox, hexec⟩
  · intro e a ha hsettled hne producer now
    have hclash := exec_of_clash (o := o) ha hsettled hne producer now
    refine ⟨hclash, ?_⟩
    obtain ⟨inbox, h | h | ⟨row, -, -, h⟩⟩ := hclash <;> rw [h] <;> exact ⟨rfl, rfl, rfl, rfl⟩

/-- What the participant of the first step reports about its first attempt. -/
def TwoSteps.report (status : StepAttemptStatus) : SagaResultEnvelope :=
  let effect := hashes.effectId "saga" 1 "a" .execute
  let command := uuidText (hashes.commandId effect 1)
  ⟨hashes.resultEventId command, "saga", "t", "wf", 1, definition.digest hashes, "a", .execute, 1,
    uuidText effect, command, status, none, none⟩

/-- After the success of the first step has been processed, the same report again, and a rejection
under the same attempt. -/
theorem redelivery_run_succeeded :
    let ops := [TwoSteps.start, .result (TwoSteps.report .succeeded) "svc" 1]
    let db := TwoSteps.orchestrator.run ops
    TwoSteps.orchestrator.Processed ops (TwoSteps.report .succeeded) ∧
    (∃ inbox, TwoSteps.orchestrator.exec
      (TwoSteps.orchestrator.exec db (.forget (TwoSteps.report .succeeded).eventId))
      (.result (TwoSteps.report .succeeded) "svc" 2) = { db with inbox }) ∧
    OnlyClashes db (TwoSteps.report .rejected) .succeeded
      (TwoSteps.orchestrator.exec db (.result (TwoSteps.report .rejected) "svc" 3)) := by
  intro ops db
  have hproc : orchestrator.Processed ops (report .succeeded) := by
    refine ⟨[start], "svc", 1, [], .running, rfl, ?_⟩
    decide +kernel
  have hatt : (db.attemptOf (report .rejected)).map (·.status) = some .succeeded := by
    decide +kernel
  obtain ⟨a, ha, hstatus⟩ := map_eq_some_iff.1 hatt
  obtain ⟨hred, hclash⟩ := redelivery_run orchestrator ops
  refine ⟨hproc, hred _ hproc "svc" 2, ?_⟩
  rw [← hstatus]
  refine (hclash _ a ha ?_ ?_ "svc" 3).1
  · rw [hstatus]
    decide
  · rw [hstatus]
    decide

end NasaRuntime.Saga
