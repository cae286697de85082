import NasaRuntime.Saga.Protocol.Step

/-!
# The result handlers refine the protocol

What the primitives of `Orchestrator.Results` do when they succeed, in the words of
`Protocol.Step`: every way of leaving a segment is a `Move`.

**Theorem (`Orchestrator.ends_onResult`).** Whatever a first result of an attempt does, it is an
`Outcome`: it stays, goes again or leaves, and each row it touched changed by one of the cases of
`RowChange`, `TimerChange` and `AttemptChange`.
-/

namespace NasaRuntime.Saga

open Table Tx

variable {o : Orchestrator} {db db' : Db}

/-! ## Primitives -/

variable {version : Nat} {n : AttemptNo} {phase : StepPhase} {step : StepName}

/-- **The compare-and-swap, applied.** -/
theorem ends_advanceApplied {n : Nat} {src : SagaStatus} {spec : TransitionSpec}
    (h : (advanceApplied version src spec).Ends db n db') :
    ∃ row, db.CanAdvance row spec ∧ row.version = version ∧ row.status = src ∧ n = version + 1 ∧
      db' = db.advance row spec := by
  simp only [advanceApplied, ends_bind, ends_ofExcept] at h
  obtain ⟨outcome, _, h, happ, rfl⟩ := h
  cases outcome <;> cases happ
  exact ends_advance h

theorem ends_nextAttempt_eq (h : (nextAttempt step phase).Ends db n db') :
    n = db.nextAttemptNo step phase ∧ db = db' := by
  simp only [nextAttempt, ends_bind, ends_get] at h
  obtain ⟨_, _, ⟨rfl, rfl⟩, h⟩ := h
  unfold Db.nextAttemptNo
  split at h
  · rename_i hmax
    obtain ⟨rfl, rfl⟩ := ends_pure.1 h
    exact ⟨by rw [hmax]; rfl, rfl⟩
  · rename_i m hmax
    obtain ⟨hn, rfl⟩ := ends_ofExcept.1 h
    simp only [AttemptNo.next] at hn
    split at hn
    · cases hn
      exact ⟨by rw [hmax]; rfl, rfl⟩
    · cases hn

theorem freshAttempt_next (db : Db) (step : StepName) (phase : StepPhase) :
    db.FreshAttempt step phase (db.nextAttemptNo step phase) := by
  have hmem : ∀ a ∈ db.attempts, a.step = step → a.phase = phase →
      a.attempt ∈ db.attemptNos step phase := by
    intro a ha hs hp
    exact List.mem_map.2 ⟨a, List.mem_filter.2 ⟨ha, by simp [hs, hp]⟩, rfl⟩
  unfold Db.nextAttemptNo
  cases hmax : (db.attemptNos step phase).max? with
  | none =>
    refine ⟨Nat.one_pos, fun a ha hs hp => ?_⟩
    rw [List.max?_eq_none_iff] at hmax
    simpa [hmax] using hmem a ha hs hp
  | some m =>
    refine ⟨Nat.succ_pos m, fun a ha hs hp => ?_⟩
    exact Nat.lt_succ_of_le ((List.max?_eq_some_iff.1 hmax).2 _ (hmem a ha hs hp))

theorem ends_nextAttempt
    (h : (nextAttempt step phase).Ends db n db') : db.FreshAttempt step phase n ∧ db = db' := by
  obtain ⟨rfl, hdb⟩ := ends_nextAttempt_eq h
  exact ⟨freshAttempt_next db step phase, hdb⟩

namespace Orchestrator

variable {i : SagaInstanceRow} {dir : Direction} {scope : TimerScope} {u : Unit}
  {stepDef : StepDefinition}

theorem ends_advance {dst : SagaStatus}
    {cur : Option StepName} {kind : TriggerKind} {id : String} {code plan : Option String} {n : Nat}
    (h : (advance i dst dir cur kind id code plan).Ends db n db') (hinst : db.inst = some i) :
    db.CanAdvance i (transitionSpec i dst dir cur kind id code plan) ∧ n = i.version + 1 ∧
      db' = db.advance i (transitionSpec i dst dir cur kind id code plan) := by
  obtain ⟨row, can, hv, hs, rfl, rfl⟩ := ends_advanceApplied h
  obtain rfl : i = row := Option.some.inj (hinst.symm.trans can.inst)
  exact ⟨can, rfl, rfl⟩

theorem ends_scheduleTimer {kind : TimerKind} {due : Int}
    (h : (o.scheduleTimer scope kind n due version).Ends db u db') :
    db.Schedules (o.timerSpec scope kind n due version) db' := by
  simp only [scheduleTimer, ends_bind, ends_pure] at h
  obtain ⟨_, _, h, -, rfl⟩ := h
  exact Saga.ends_scheduleTimer h

variable {now : Int} {k : Cause}

theorem ends_issueCommand {recovery : Option String}
    (h : (o.issueCommand i stepDef phase n recovery now version).Ends db u db')
    (hname : stepDef.name = step) (hnew : db.FreshAttempt step phase n) :
    Db.Issues o i step phase n version db db' := by
  subst hname
  simp only [issueCommand, ends_bind, ends_modify, ends_ofExcept] at h
  obtain ⟨_, _, hstart, _, _, rfl, due, _, ⟨-, rfl⟩, h⟩ := h
  have hstarted := ends_recordAttemptStarted hstart fun a ha => by
    by_contra his
    simp only [SagaStepAttemptRow.is, Bool.and_eq_true, decide_eq_true_eq, Bool.not_eq_false] at his
    obtain ⟨⟨hs, hp⟩, hn⟩ := his
    exact absurd (hnew.2 a ha hs hp) (by rw [hn]; exact Nat.lt_irrefl n)
  subst hstarted
  exact ⟨recovery, due, hnew, ends_scheduleTimer h⟩

theorem escalates_result (c : ResultContext) : Cause.Escalates i (.result c) := by
  intro t h
  cases h

theorem escalates_clash (eventId : String) : Cause.Escalates i (.clash eventId) := by
  intro t h
  cases h

theorem ends_escalateManual {code : String} {r : SagaStatus}
    (h : (escalateManual i k.triggerKind k.triggerId code).Ends db r db')
    (hinst : db.inst = some i) (hguard : Cause.Escalates i k) : Move o i k db db' := by
  simp only [escalateManual, ends_bind, ends_pure] at h
  obtain ⟨_, _, h, -, rfl⟩ := h
  obtain ⟨can, -, rfl⟩ := ends_advance h hinst
  exact .escalate can hguard

theorem ends_cancelScopeTimers {kind : Option TimerKind}
    (h : (cancelScopeTimers scope kind).Ends db u db') : db' = db.cancelTimers scope kind :=
  (ends_modify.1 h).symm

theorem ends_convergeCompensated
    (h : (o.convergeCompensated version k.triggerKind k.triggerId).Ends db u db')
    (hinst : db.inst = some i) : db.Compensated o ∧ db.CanAdvance i (k.convergeSpec o i) ∧
      db' = (db.advance i (k.convergeSpec o i)).cancelTimers .inst none := by
  simp only [convergeCompensated, verifyCompensationCompletion, ends_bind, ends_get, ends_orThrow,
    ends_require, ends_ofExcept, ends_pure] at h
  obtain ⟨_, _, ⟨_, _, ⟨rfl, rfl⟩, row, _, ⟨hrow, rfl⟩, _, _, ⟨-, rfl⟩, frozen, _, ⟨hfroz, rfl⟩,
    d, _, ⟨hdef, rfl⟩, plan, _, ⟨hplan, rfl⟩, _, _, ⟨rfl, rfl⟩, _, _, ⟨hmemb, rfl⟩, _, _,
    ⟨-, rfl⟩, rfl, rfl⟩, _, _, hadv, h⟩ := h
  obtain ⟨row', can, -, -, -, rfl⟩ := ends_advanceApplied hadv
  obtain rfl : i = row := Option.some.inj (hinst.symm.trans hrow)
  obtain rfl : i = row' := Option.some.inj (hinst.symm.trans can.inst)
  have hplan' : freezeCompensationPlan o.hashes d (journalOf db.steps) = .ok plan := by
    cases hf : freezeCompensationPlan o.hashes d (journalOf db.steps) with
    | error e => simp [hf, Except.mapError] at hplan
    | ok p => simpa [hf, Except.mapError] using hplan
  exact ⟨⟨i, d, plan, hinst, hdef, hplan', hfroz, hmemb⟩, can, ends_cancelScopeTimers h⟩

/-! ## Leaving a segment -/

section
variable {c : ResultContext} {r : SagaStatus}

theorem ends_proceedForward (h : (o.proceedForward c).Ends db r db')
    (hinst : db.inst = some c.inst) (hdef : o.definitionOf c.inst = some c.definition)
    (hseg : c.inst.ForwardSegment)
    (hdone : ∀ r ∈ db.steps, c.inst.currentStep = some r.step → r.forwardStatus = .succeeded) :
    Move o c.inst (.result c) db db' := by
  simp only [proceedForward, ends_bind, ends_get, ends_ofExcept] at h
  obtain ⟨_, _, ⟨rfl, rfl⟩, next, _, ⟨hnext, rfl⟩, h⟩ := h
  cases next with
  | some next =>
    simp only [ends_bind, ends_orThrow, ends_pure] at h
    obtain ⟨_, _, hadv, nextDef, _, ⟨hstep, rfl⟩, n, _, hn, _, _, hiss, -, rfl⟩ := h
    obtain ⟨can, rfl, rfl⟩ := ends_advance hadv hinst
    obtain ⟨hfresh, rfl⟩ := ends_nextAttempt hn
    exact .send (.forward hseg hdef hdone hnext) can
      (ends_issueCommand hiss (c.definition.step_name hstep).2 hfresh)
  | none =>
    simp only [ends_bind, ends_pure] at h
    obtain ⟨_, _, hadv, _, _, hcanc, -, rfl⟩ := h
    obtain ⟨can, rfl, rfl⟩ := ends_advance hadv hinst
    rw [ends_cancelScopeTimers hcanc]
    exact .finish (.complete hseg hdef hnext) can

theorem ends_enterCompensation (h : (o.enterCompensation c).Ends db r db')
    (hinst : db.inst = some c.inst) (hdef : o.definitionOf c.inst = some c.definition)
    (hseg : c.inst.ForwardSegment) : Move o c.inst (.result c) db db' := by
  simp only [enterCompensation, ends_bind, ends_get] at h
  obtain ⟨_, _, ⟨rfl, rfl⟩, h⟩ := h
  split at h
  · exact ends_escalateManual (k := .result c) h hinst (escalates_result c)
  · rename_i plan hplan
    simp only [ends_bind] at h
    obtain ⟨_, _, hadv, _, _, hmark, h⟩ := h
    obtain ⟨can, rfl, rfl⟩ := ends_advance hadv hinst
    obtain rfl := ends_markCompensationPlan hmark
    cases hents : plan.entries with
    | cons entry rest =>
      simp only [hents, List.head?_cons, Option.map_some, ends_bind, ends_orThrow,
        ends_pure] at h can
      obtain ⟨stepDef, _, ⟨hstep, rfl⟩, n, _, hn, _, _, hiss, -, rfl⟩ := h
      obtain ⟨hfresh, rfl⟩ := ends_nextAttempt hn
      exact .send (.freeze hseg hdef hplan hents) can
        (ends_issueCommand hiss (c.definition.step_name hstep).2 hfresh)
    | nil =>
      simp only [hents, List.head?_nil, Option.map_none, ends_bind, ends_pure] at h can
      obtain ⟨_, _, hconv, -, rfl⟩ := h
      obtain ⟨hproof, can', rfl⟩ := ends_convergeCompensated (k := .result c) hconv rfl
      exact .converge (.freeze hseg hdef hplan hents) can rfl hproof can'

theorem ends_continueCompensation (h : (o.continueCompensation c).Ends db r db')
    (hinst : db.inst = some c.inst) (hdef : o.definitionOf c.inst = some c.definition)
    (hseg : c.inst.BackSegment) : Move o c.inst (.result c) db db' := by
  simp only [continueCompensation, ends_bind, ends_get] at h
  obtain ⟨_, _, ⟨rfl, rfl⟩, h⟩ := h
  split at h
  · exact ends_escalateManual (k := .result c) h hinst (escalates_result c)
  · rename_i next hnext
    simp only [ends_bind] at h
    obtain ⟨_, _, hadv, h⟩ := h
    obtain ⟨can, rfl, rfl⟩ := ends_advance hadv hinst
    cases next with
    | some step =>
      simp only [ends_bind, ends_orThrow, ends_pure] at h
      obtain ⟨stepDef, _, ⟨hstep, rfl⟩, n, _, hn, _, _, hiss, -, rfl⟩ := h
      obtain ⟨hfresh, rfl⟩ := ends_nextAttempt hn
      exact .send (.next hseg hdef hnext) can
        (ends_issueCommand hiss (c.definition.step_name hstep).2 hfresh)
    | none =>
      simp only [ends_bind, ends_pure] at h
      obtain ⟨_, _, hconv, -, rfl⟩ := h
      obtain ⟨hproof, can', rfl⟩ := ends_convergeCompensated (k := .result c) hconv rfl
      exact .converge (.next hseg hdef hnext) can rfl hproof can'

theorem ends_openResolution {a : AttemptNo}
    (h : (o.openResolution i stepDef dir a now version).Ends db u db') :
    ∃ due db1, db.Schedules
        (o.timerSpec (.step stepDef.name) (resolutionBudgetKind dir) a due version) db1 ∧
      (db' = db1 ∨ ∃ n, Db.Issues o i stepDef.name .resolve n version db1 db') := by
  simp only [openResolution, ends_bind, ends_ofExcept, ends_when] at h
  obtain ⟨due, _, ⟨-, rfl⟩, _, db1, hbudg, h⟩ := h
  refine ⟨due, db1, ends_scheduleTimer hbudg, ?_⟩
  rcases h with ⟨-, n, _, hn, hiss⟩ | ⟨-, rfl⟩
  · obtain ⟨hfresh, rfl⟩ := ends_nextAttempt hn
    exact .inr ⟨n, ends_issueCommand hiss rfl hfresh⟩
  · exact .inl rfl

/-- The patch with which `enter_waiting_resolution` opens the resolution. -/
def waitingPatch (c : ResultContext) : StepJournalPatch :=
  { forwardStatus := if c.phase = .execute then some .unknown else none
    resolutionStatus := some .pending }

/-- A step that forbids unknown effects escalates; any other one waits. -/
theorem ends_enterWaitingResolution
    (h : (o.enterWaitingResolution c dir).Ends db r db') (hinst : db.inst = some c.inst)
    (hname : c.stepDef.name = c.step) (hcur : c.inst.currentStep = some c.step)
    (hwait : ∀ db, Waits c.inst db (.result c) dir c.attempt) :
    (∃ db1, (db1 = db ∨ (c.phase = .execute ∧
        db1 = db.patchStep c.step { forwardStatus := some .unknown })) ∧
      Move o c.inst (.result c) db1 db') ∨
    (c.stepDef.resolution.allowUnknown = true ∧
      Move o c.inst (.result c) ((db.patchStep c.step (waitingPatch c)).cancelTimers (.step c.step)
        (some .stepTimeout)) db') := by
  simp only [enterWaitingResolution, ends_ite, ends_bind, ends_when, ends_pure] at h
  rcases h with ⟨-, _, db1, hpatch, h⟩ | ⟨hall, _, _, hpatch, _, _, hcanc, _, _, hadv, _, _,
    hopen, -, rfl⟩
  · refine .inl ⟨db1, ?_, ?_⟩
    · rcases hpatch with ⟨hph, hpatch⟩ | ⟨-, rfl⟩
      · exact .inr ⟨hph, ends_updateStepJournal hpatch⟩
      · exact .inl rfl
    · refine ends_escalateManual (k := .result c) h ?_ (escalates_result c)
      rcases hpatch with ⟨-, hpatch⟩ | ⟨-, rfl⟩
      · rw [ends_updateStepJournal hpatch]
        exact hinst
      · exact hinst
  · rw [ends_updateStepJournal hpatch] at hcanc
    rw [ends_cancelScopeTimers hcanc] at hadv
    obtain ⟨can, rfl, rfl⟩ := ends_advance hadv hinst
    obtain ⟨due, db2, hbudg, hquery⟩ := ends_openResolution hopen
    rw [hname] at hbudg hquery
    exact .inr ⟨by simpa using hall, .wait (hwait _) hcur can hbudg hquery⟩

/-- An unknown answer asks again, within its budget. -/
theorem ends_reissueResolve (h : (o.reissueResolve c).Ends db r db')
    (hinst : db.inst = some c.inst) (hname : c.stepDef.name = c.step)
    (hstat : c.inst.status = .waitingResolution) (hcur : c.inst.currentStep = some c.step) :
    Move o c.inst (.result c) db db' ∨ Reissue o c.inst (.result c) db db' := by
  simp only [reissueResolve, ends_bind, ends_get, ends_ite, ends_pure] at h
  obtain ⟨_, _, ⟨rfl, rfl⟩, h⟩ := h
  rcases h with ⟨-, h⟩ | ⟨-, n, _, hn, _, _, hadv, _, _, hissue, -, rfl⟩
  · exact .inl (ends_escalateManual (k := .result c) h hinst (escalates_result c))
  · obtain ⟨hfresh, rfl⟩ := ends_nextAttempt hn
    obtain ⟨can, rfl, rfl⟩ := ends_advance hadv hinst
    have hiss := ends_issueCommand hissue hname hfresh
    rw [← hstat] at can hiss
    exact .inr (.send (by decide : StepPhase.resolve ≠ .execute) hstat hcur can hiss)

theorem ends_requeueCompensation (h : (o.requeueCompensation c).Ends db r db')
    (hinst : db.inst = some c.inst) (hname : c.stepDef.name = c.step)
    (hstat : c.inst.status = .waitingResolution) (hdir : c.inst.direction = .compensating)
    (hcur : c.inst.currentStep = some c.step) : Move o c.inst (.result c) db db' := by
  simp only [requeueCompensation, ends_bind, ends_ite, ends_pure] at h
  obtain ⟨n, _, hn, h⟩ := h
  obtain ⟨hfresh, rfl⟩ := ends_nextAttempt hn
  rcases h with ⟨-, h⟩ | ⟨-, _, _, hadv, _, _, hiss, -, rfl⟩
  · exact ends_escalateManual (k := .result c) h hinst (escalates_result c)
  · obtain ⟨can, rfl, rfl⟩ := ends_advance hadv hinst
    exact .send (.requeue hstat hdir hcur) can (ends_issueCommand hiss hname hfresh)

end

end Orchestrator

variable {o : Orchestrator} {i : SagaInstanceRow} {k : Cause} {m : Mode} {db db1 db' : Db}

/-! ## Building quiet transactions -/

variable {p : StepJournalPatch} {step : StepName}

namespace Quiet

theorem refl (i : SagaInstanceRow) (k : Cause) (m : Mode) (db : Db) : Quiet i k m db db :=
  ⟨rfl, rfl, rfl, rfl, .refl _ _, .refl _ _, .refl _ _⟩

theorem conflict (q : Quiet i k m db db1) (facts : List AttemptConflictFact) :
    Quiet i k m db { db1 with conflicts := facts } :=
  ⟨q.inst, q.transitions, q.controls, q.outbox, q.steps, q.attempts, q.timers⟩

theorem inbox (q : Quiet i k m db db1) (events : List String) :
    Quiet i k m db { db1 with inbox := events } :=
  ⟨q.inst, q.transitions, q.controls, q.outbox, q.steps, q.attempts, q.timers⟩

theorem audit (q : Quiet i k m db db1) (audits : List SagaManagementAuditRow) :
    Quiet i k m db { db1 with audits } :=
  ⟨q.inst, q.transitions, q.controls, q.outbox, q.steps, q.attempts, q.timers⟩

theorem cancel (q : Quiet i k .leave db db1) (scope : TimerScope) (kind : Option TimerKind) :
    Quiet i k .leave db (db1.cancelTimers scope kind) := by
  refine ⟨q.inst, q.transitions, q.controls, q.outbox, q.steps, q.attempts, ?_⟩
  refine q.timers.comp (S := fun t t' => t' = t.unowned .cancelled)
    (.of_update fun _ _ _ => rfl) fun t _ t' t'' h h' => ?_
  rcases h' with rfl | rfl
  · exact h
  · rcases h with rfl | h
    · exact .inr (.leaving (.inr rfl))
    · cases h <;> exact .inr (.leaving (.inr rfl))

theorem patch (q : Quiet i k m db db1) (hsteps : db1.steps = db.steps)
    (h : ∀ r ∈ db.steps, r.step = step → RowChange i k m r (r.apply p)) :
    Quiet i k m db (db1.patchStep step p) := by
  refine ⟨q.inst, q.transitions, q.controls, q.outbox, ?_, q.attempts, q.timers⟩
  change Rewrites _ _ (updateWhere _ _ db1.steps)
  rw [hsteps]
  exact .of_update fun r hr hp => h r hr (by simpa using hp)

theorem patch_patch (q : Quiet i k m db db1) (hsteps : db1.steps = db.steps)
    {p' : StepJournalPatch} {timers : List SagaTimerRow}
    (htim : Rewrites (TimerChange i k m) db.timers timers)
    (h : ∀ r ∈ db.steps, r.step = step → RowChange i k m r ((r.apply p).apply p')) :
    Quiet i k m db ({ db1.patchStep step p with timers }.patchStep step p') := by
  refine ⟨q.inst, q.transitions, q.controls, q.outbox, ?_, q.attempts, htim⟩
  refine ⟨fun r => if r.step = step then (r.apply p).apply p' else r, ?_, fun r hr => ?_⟩
  · change updateWhere _ _ (updateWhere _ _ db1.steps) = _
    rw [hsteps, updateWhere, updateWhere, List.map_map]
    refine List.map_congr_left fun r _ => ?_
    by_cases hr : r.step = step
    · simp [hr, SagaStepRow.apply]
    · simp [hr]
  · by_cases hstep : r.step = step
    · simp only [hstep, if_true]
      exact .inr (h r hr hstep)
    · simp [hstep]

end Quiet

/-! ## The state in which a handler starts -/

/-- A first result: its attempt is settled, no step row and no timer is touched yet. -/
structure Begun (o : Orchestrator) (c : ResultContext) (db db1 : Db) : Prop where
  inst : db1.inst = some c.inst
  definition : o.definitionOf c.inst = some c.definition
  stepDef : c.definition.step c.step = some c.stepDef
  nodup : (db.steps.map (·.step)).Nodup
  quiet : ∀ m, Quiet c.inst (.result c) m db db1
  steps : db1.steps = db.steps
  timers : db1.timers = db.timers

namespace Begun

variable {c : ResultContext}

theorem name (b : Begun o c db db1) : c.stepDef.name = c.step :=
  (c.definition.step_name b.stepDef).2

theorem row_eq (b : Begun o c db db1) {row r : SagaStepRow} (hrow : db1.stepRow c.step = some row)
    (hr : r ∈ db.steps) (hstep : r.step = c.step) : r = row := by
  have hmem : row ∈ db.steps := b.steps ▸ List.mem_of_find?_eq_some hrow
  have hname : row.step = c.step := by simpa using List.find?_some hrow
  exact eq_of_key b.nodup hr hmem (hstep.trans hname.symm)

theorem inst_of {db2 : Db} (b : Begun o c db db1) (q : Quiet c.inst (.result c) m db db2) :
    db2.inst = some c.inst := q.inst.trans ((b.quiet .stay).inst.symm.trans b.inst)

end Begun

namespace Orchestrator

section
variable {c : ResultContext} {r : SagaStatus}
variable {row : SagaStepRow} {patch merged : StepJournalPatch}

theorem ends_loadStep {error : SagaError}
    (h : (loadStep step error).Ends db row db') : db.stepRow step = some row ∧ db = db' := by
  simp only [loadStep, ends_bind, ends_get, ends_orThrow] at h
  obtain ⟨_, _, ⟨rfl, rfl⟩, hrow, rfl⟩ := h
  exact ⟨hrow, rfl⟩

/-- A handler that cancels timers goes on without them. -/
theorem ends_cancelThen {α : Type} {scope : TimerScope} {kind : Option TimerKind}
    {q : Unit → SagaTx α} {a : α}
    (h : (cancelScopeTimers scope kind >>= q).Ends db a db') :
    (q ()).Ends (db.cancelTimers scope kind) a db' := by
  obtain ⟨_, _, hcanc, h⟩ := ends_bind.1 h
  rw [ends_cancelScopeTimers hcanc] at h
  exact h

theorem ends_updateThen {q : Unit → SagaTx SagaStatus}
    (h : (updateStepJournal step p >>= q).Ends db r db') :
    (q ()).Ends (db.patchStep step p) r db' := by
  obtain ⟨_, _, hupd, h⟩ := ends_bind.1 h
  rw [ends_updateStepJournal hupd] at h
  exact h

theorem ends_cancelResolutionTimers (h : (cancelResolutionTimers step).Ends db u db') :
    db' = (((db.cancelTimers (.step step) (some .resolutionBudget)).cancelTimers (.step step)
      (some .forwardResolutionBudget)).cancelTimers (.step step)
      (some .compensationResolutionBudget)).cancelTimers (.step step) (some .resolveTimeout) :=
  ends_cancelScopeTimers (ends_cancelThen (ends_cancelThen (ends_cancelThen h)))

theorem quiet_cancelResolutionTimers
    (q : Quiet i k .leave db db1) (h : (cancelResolutionTimers step).Ends db1 u db') :
    Quiet i k .leave db db' := by
  rw [ends_cancelResolutionTimers h]
  exact (((q.cancel _ _).cancel _ _).cancel _ _).cancel _ _

variable (b : Begun o c db db1)

include b

theorem ends_onCrossPhaseConflict (h : (onCrossPhaseConflict c row).Ends db1 r db') :
    Outcome o c.inst (.result c) db db' := by
  simp only [onCrossPhaseConflict, ends_bind, ends_orThrow, ends_ite, ends_pure] at h
  obtain ⟨_, _, ⟨-, rfl⟩, _, _, hfact, h⟩ := h
  rw [ends_recordAttemptConflict hfact] at h
  rcases h with ⟨-, -, rfl⟩ | ⟨-, h⟩
  · exact .stay ((b.quiet .stay).conflict _)
  · exact .leave ((b.quiet .leave).conflict _)
      (ends_escalateManual (k := .result c) h b.inst (escalates_result c))

theorem quiet_deferredTimers (hcold : ¬ c.Hot) :
    Quiet c.inst (.result c) m db
      (db1.cancelTimers (.step c.step) (some (phaseTimeoutKind c.phase))) := by
  have q := b.quiet m
  refine ⟨q.inst, q.transitions, q.controls, q.outbox, q.steps, q.attempts, ?_⟩
  change Rewrites _ _ (updateWhere _ _ db1.timers)
  rw [b.timers]
  refine .of_update fun t _ ht => ?_
  simp only [Option.all_some, Bool.and_eq_true, decide_eq_true_eq] at ht
  exact .deferred hcold ht.1.1 ht.1.2.symm

theorem ends_projectDeferredResult (hcold : ¬ c.Hot)
    (h : (projectDeferredResult c).Ends db1 r db') :
    Outcome o c.inst (.result c) db db' := by
  simp only [projectDeferredResult, ends_bind, ends_ite, ends_pure, ends_ofExcept] at h
  obtain ⟨row, _, hload, h⟩ := h
  obtain ⟨hrow, rfl⟩ := ends_loadStep hload
  rcases h with ⟨-, -, rfl⟩ | ⟨hlat, patch, _, ⟨hpatch, rfl⟩, h⟩
  · exact .stay (b.quiet .stay)
  · split at h
    · exact ends_onCrossPhaseConflict b h
    · rename_i merged hmerge
      simp only [ends_bind, ends_pure] at h
      obtain ⟨_, _, hcanc, _, _, hupd, -, rfl⟩ := h
      rw [ends_cancelScopeTimers hcanc] at hupd
      rw [ends_updateStepJournal hupd]
      refine .stay ((quiet_deferredTimers b hcold).patch b.steps fun r hr hstep => ?_)
      obtain rfl := b.row_eq hrow hr hstep
      exact .deferred hstep hcold (by simpa using hlat) hpatch hmerge

variable {answer : Option SagaStatus} {u : Unit}

theorem ends_applyMonotonicProjection (h : (applyMonotonicProjection c patch).Ends db1 answer db') :
    (∃ status, answer = some status ∧ Outcome o c.inst (.result c) db db') ∨
      (answer = none ∧ ∃ row merged, db1.stepRow c.step = some row ∧
        c.merge row patch = some merged ∧ db' = db1.patchStep c.step merged) := by
  simp only [applyMonotonicProjection, ends_bind] at h
  obtain ⟨row, _, hload, h⟩ := h
  obtain ⟨hrow, rfl⟩ := ends_loadStep hload
  split at h
  · simp only [ends_bind, ends_pure] at h
    obtain ⟨_, _, h, rfl, rfl⟩ := h
    exact .inl ⟨_, rfl, ends_onCrossPhaseConflict b h⟩
  · rename_i merged hmerge
    simp only [ends_bind, ends_pure] at h
    obtain ⟨_, _, hupd, rfl, rfl⟩ := h
    exact .inr ⟨rfl, row, merged, hrow, hmerge, ends_updateStepJournal hupd⟩

/-- A handler that projects first ends as the conflict does, or goes on from the merged row. -/
theorem ends_projected {k : Option SagaStatus → SagaTx SagaStatus}
    (h : (applyMonotonicProjection c patch >>= k).Ends db1 r db')
    (hsome : ∀ status, k (some status) = pure status)
    (hnone : ∀ row merged, db1.stepRow c.step = some row → c.merge row patch = some merged →
      (k none).Ends (db1.patchStep c.step merged) r db' → Outcome o c.inst (.result c) db db') :
    Outcome o c.inst (.result c) db db' := by
  obtain ⟨answer, _, happ, h⟩ := ends_bind.1 h
  rcases ends_applyMonotonicProjection b happ with
    ⟨status, rfl, hout⟩ | ⟨rfl, row, merged, hrow, hmerge, rfl⟩
  · rw [hsome] at h
    obtain ⟨-, rfl⟩ := ends_pure.1 h
    exact hout
  · exact hnone row merged hrow hmerge h

theorem quiet_merged (hhot : c.Hot) (hrow : db1.stepRow c.step = some row)
    (hpatch : c.HotPatch row patch) (hmerge : c.merge row patch = some merged) :
    Quiet c.inst (.result c) .leave db (db1.patchStep c.step merged) := by
  refine (b.quiet .leave).patch b.steps fun r hr hstep => ?_
  obtain rfl := b.row_eq hrow hr hstep
  exact .merged hstep hhot hpatch hmerge

omit b in
theorem merge_eq_some
    (h : c.merge row patch = some merged) : mergeDeferredProjection row patch = some merged := by
  unfold ResultContext.merge at h
  split at h
  · cases h
  · exact h

theorem done_merged (hhot : c.Hot) (hrow : db1.stepRow c.step = some row)
    (hmerge : c.merge row patch = some merged) (hpatch : patch.forwardStatus = some .succeeded) :
    ∀ r ∈ (db1.patchStep c.step merged).steps, c.inst.currentStep = some r.step →
      r.forwardStatus = .succeeded := by
  intro r hr hcur
  have hstep : r.step = c.step := Option.some.inj (hcur.symm.trans hhot.2)
  obtain ⟨r0, hr0, rfl⟩ := mem_updateWhere.1 hr
  by_cases hs : r0.step = c.step
  · simp only [hs, decide_true, if_true]
    obtain rfl := b.row_eq hrow (b.steps ▸ hr0) hs
    have hmerge := merge_eq_some hmerge
    simp only [mergeDeferredProjection, Option.bind_eq_bind, Option.bind_eq_some_iff,
      Option.pure_def, Option.some.injEq] at hmerge
    obtain ⟨f, hf, c, -, k, -, r, -, rfl⟩ := hmerge
    rw [hpatch] at hf
    exact mergeColumn_strong hf rfl
  · simp [hs] at hstep

/-! ## The handlers -/

/-- A result that the instance does not wait for is projected. -/
theorem ends_ifHot {status : SagaStatus} {p : SagaTx SagaStatus} (hwaits : c.phase.hotStatus = status)
    (h : (if ¬ isHot c status then projectDeferredResult c else p).Ends db1 r db')
    (hp : c.Hot → c.inst.status = status → p.Ends db1 r db' → Outcome o c.inst (.result c) db db') :
    Outcome o c.inst (.result c) db db' := by
  subst hwaits
  rcases ends_ite.1 h with ⟨hcold, h⟩ | ⟨hhot, h⟩
  · exact ends_projectDeferredResult b hcold h
  · have hhot : c.Hot := not_not.1 hhot
    exact hp hhot hhot.1 h

theorem ends_onExecuteResult (hphase : c.phase = .execute)
    (h : (o.onExecuteResult c).Ends db1 r db') : Outcome o c.inst (.result c) db db' := by
  refine ends_ifHot b (by rw [hphase]; rfl) h fun hhot hstat h => ?_
  have hseg : c.inst.ForwardSegment := .inl hstat
  have hquiet : ∀ p : StepJournalPatch, p.ForwardOnly →
      Quiet c.inst (.result c) .leave db (db1.patchStep c.step p) := fun p hp =>
    (b.quiet .leave).patch b.steps fun r _ hstep => .executed hstep hhot hphase hp
  split at h
  · replace h := ends_cancelThen (ends_updateThen h)
    refine .leave ((hquiet _ ⟨rfl, rfl, .inl rfl⟩).cancel _ _)
      (ends_proceedForward h b.inst b.definition hseg fun r hr hcur => ?_)
    have hstep : r.step = c.step := Option.some.inj (hcur.symm.trans hhot.2)
    obtain ⟨r0, -, rfl⟩ := mem_updateWhere.1 hr
    by_cases hs : r0.step = c.step
    · simp [hs, SagaStepRow.apply]
    · simp [hs] at hstep
  · replace h := ends_cancelThen (ends_updateThen h)
    exact .leave ((hquiet _ ⟨rfl, rfl, .inl rfl⟩).cancel _ _)
      (ends_enterCompensation h b.inst b.definition hseg)
  · rename_i hunk
    rcases ends_enterWaitingResolution h b.inst b.name hhot.2
      (fun _ => .execute hhot hphase hunk) with ⟨db2, hdb2, hmove⟩ | ⟨-, hmove⟩
    · refine .leave ?_ hmove
      rcases hdb2 with rfl | ⟨-, rfl⟩
      · exact b.quiet .leave
      · exact hquiet _ ⟨rfl, rfl, .inl rfl⟩
    · exact .leave ((hquiet _ ⟨rfl, rfl, .inr rfl⟩).cancel _ _) hmove
  · replace h := ends_cancelThen (ends_updateThen h)
    exact .leave ((hquiet _ ⟨rfl, rfl, .inl rfl⟩).cancel _ _)
      (ends_escalateManual (k := .result c) h b.inst (escalates_result c))
  · exact absurd h ends_throw

omit b in
theorem waitingPatch_of_ne (hphase : c.phase ≠ .execute) :
    waitingPatch c = { resolutionStatus := some .pending } := by
  simp [waitingPatch, hphase]

omit b in
theorem ends_onAlreadyTerminal {terminal : StepForwardStatus} {db2 : Db}
    (h : (o.onAlreadyTerminal c terminal).Ends db2 r db') (hinst : db2.inst = some c.inst)
    (hdef : o.definitionOf c.inst = some c.definition) (hseg : c.inst.ForwardSegment)
    (hdone : terminal = .succeeded → ∀ r ∈ db2.steps, c.inst.currentStep = some r.step →
      r.forwardStatus = .succeeded) :
    Move o c.inst (.result c) db2 db' := by
  unfold onAlreadyTerminal at h
  split at h
  · split at h
    · exact ends_proceedForward h hinst hdef hseg (hdone rfl)
    · exact ends_enterCompensation h hinst hdef hseg
  · exact ends_enterCompensation h hinst hdef hseg
  · exact ends_escalateManual (k := .result c) h hinst (escalates_result c)
  · exact absurd h ends_throw

theorem ends_onCancelResult (hphase : c.phase = .cancel) (h : (o.onCancelResult c).Ends db1 r db') :
    Outcome o c.inst (.result c) db db' := by
  refine ends_ifHot b (by rw [hphase]; rfl) h fun hhot hstat h => ?_
  have hseg : c.inst.ForwardSegment := .inr (.inl hstat)
  split at h
  · refine ends_projected b h (fun _ => rfl) fun row merged hrow hmerge h => ?_
    replace h := ends_cancelThen h
    exact .leave ((quiet_merged b hhot hrow (.inl ⟨hphase, rfl, rfl⟩) hmerge).cancel _ _)
      (ends_enterCompensation h b.inst b.definition hseg)
  · simp only [ends_bind, ends_orThrow] at h
    obtain ⟨terminal, _, ⟨-, rfl⟩, h⟩ := h
    refine ends_projected b (ends_bind.2 h) (fun _ => rfl) fun row merged hrow hmerge h => ?_
    replace h := ends_cancelThen h
    exact .leave ((quiet_merged b hhot hrow (.inl ⟨hphase, rfl, rfl⟩) hmerge).cancel _ _)
      (ends_onAlreadyTerminal h b.inst b.definition hseg fun hsucc =>
        done_merged b hhot hrow hmerge (by rw [hsucc]))
  · rename_i hpend
    refine ends_projected b h (fun _ => rfl) fun row merged hrow hmerge h => ?_
    replace h := ends_cancelThen h
    have hpatch : c.HotPatch row { cancelStatus := some .resolutionPending } :=
      .inl ⟨hphase, rfl, rfl⟩
    have q := (quiet_merged b hhot hrow hpatch hmerge).cancel (.step c.step) (some .cancelTimeout)
    rcases ends_enterWaitingResolution h b.inst b.name hhot.2
      (fun _ => .cancel hhot hphase hpend) with ⟨db2, hdb2, hmove⟩ | ⟨-, hmove⟩
    · rcases hdb2 with rfl | ⟨hex, -⟩
      · exact .leave q hmove
      · rw [hphase] at hex
        cases hex
    · refine .leave (((b.quiet .leave).patch_patch b.steps q.timers ?_).cancel _ _) hmove
      intro r hr hstep
      obtain rfl := b.row_eq hrow hr hstep
      rw [waitingPatch_of_ne (by rw [hphase]; decide)]
      exact .mergedWaiting hstep hhot hphase hpatch hmerge
  · exact absurd h ends_throw

theorem ends_onCompensateResult (hphase : c.phase = .compensate)
    (h : (o.onCompensateResult c).Ends db1 r db') : Outcome o c.inst (.result c) db db' := by
  refine ends_ifHot b (by rw [hphase]; rfl) h fun hhot hstat h => ?_
  have hseg : c.inst.BackSegment := .inl hstat
  replace h := ends_cancelThen h
  have q := (b.quiet .leave).cancel (.step c.step) (some .compensateTimeout)
  split at h
  · rename_i hsucc
    replace h := ends_updateThen h
    refine .leave (q.patch b.steps fun r _ hstep => ?_)
      (ends_continueCompensation h b.inst b.definition hseg)
    exact .compensated hstep hhot hphase rfl (by rw [hsucc]; rfl) (by rw [hsucc]; rfl) (.inl rfl)
  · rename_i hunk
    replace h := ends_updateThen h
    rcases ends_enterWaitingResolution h b.inst b.name hhot.2
      (fun _ => .compensate hhot hphase hunk) with ⟨db2, hdb2, hmove⟩ | ⟨hall, hmove⟩
    · rcases hdb2 with rfl | ⟨hex, -⟩
      · refine .leave (q.patch b.steps fun r _ hstep => ?_) hmove
        exact .compensated hstep hhot hphase rfl (by rw [hunk]; rfl) (by rw [hunk]; rfl) (.inl rfl)
      · rw [hphase] at hex
        cases hex
    · refine .leave ((q.patch_patch b.steps q.timers fun r _ hstep => ?_).cancel _ _) hmove
      rw [waitingPatch_of_ne (by rw [hphase]; decide)]
      have hboth : RowChange c.inst (.result c) .leave r
          (r.apply ⟨none, none, some .unknown, some .pending, none⟩) :=
        .compensated hstep hhot hphase rfl (by rw [hunk]; rfl) (by rw [hunk]; rfl)
          (.inr ⟨rfl, hunk, hall⟩)
      exact hboth
  · rename_i hhalt
    replace h := ends_updateThen h
    refine .leave (q.patch b.steps fun r _ hstep => ?_)
      (ends_escalateManual (k := .result c) h b.inst (escalates_result c))
    exact .compensated hstep hhot hphase rfl (by rw [hhalt]; rfl) (by rw [hhalt]; rfl) (.inl rfl)
  · exact absurd h ends_throw

/-! ## Resolve results -/

section

variable (hphase : c.phase = .resolve)

include hphase

omit b in
theorem hotPatch_forward (hdir : c.inst.direction = .forward)
    (hp : p.compensationStatus = none) : c.HotPatch row p := by
  refine .inr ⟨hphase, fun _ => hp, fun hd => ?_, fun hd => ?_⟩
  · rw [hdir] at hd
    cases hd
  · rw [hp] at hd
    cases hd

omit b in
theorem hotPatch_compensating (hdir : c.inst.direction = .compensating)
    (hp : p.forwardStatus = none)
    (hsucc : p.compensationStatus = some .succeeded →
      c.status = .succeeded ∨ row.compensationStatus = .succeeded) :
    c.HotPatch row p := by
  refine .inr ⟨hphase, fun hd => ?_, fun _ => hp, hsucc⟩
  rw [hdir] at hd
  cases hd

theorem ends_settleResolution (hhot : c.Hot)
    (h : (o.settleResolutionFromCommittedSuccess c).Ends db1 answer db') :
    (∃ status, answer = some status ∧ Outcome o c.inst (.result c) db db') ∨
      (answer = none ∧ db1 = db') := by
  have hstat : c.inst.status = .waitingResolution := hhot.1.trans (by rw [hphase]; rfl)
  simp only [settleResolutionFromCommittedSuccess, ends_bind, ends_ite, ends_pure] at h
  obtain ⟨row, _, hload, h⟩ := h
  obtain ⟨hrow, rfl⟩ := ends_loadStep hload
  rcases h with ⟨-, rfl, rfl⟩ | ⟨hcomm, h⟩
  · exact .inr ⟨rfl, rfl⟩
  · left
    cases hdir : c.inst.direction with
    | forward =>
      rw [hdir] at h
      simp only [ends_bind] at h
      obtain ⟨answer', _, happ, h⟩ := h
      rcases ends_applyMonotonicProjection b happ with
        ⟨status, rfl, hout⟩ | ⟨rfl, row, merged, hrow, hmerge, rfl⟩
      · obtain ⟨rfl, rfl⟩ := ends_pure.1 h
        exact ⟨_, rfl, hout⟩
      · simp only [ends_bind, ends_pure] at h
        obtain ⟨_, _, hcanc, status, _, h, rfl, rfl⟩ := h
        have q := quiet_cancelResolutionTimers
          (quiet_merged b hhot hrow (hotPatch_forward hphase hdir rfl) hmerge) hcanc
        have hseg : c.inst.ForwardSegment := .inr (.inr ⟨hstat, hdir⟩)
        have hinst := b.inst_of q
        refine ⟨_, rfl, .leave q ?_⟩
        unfold acceptForward at h
        split at h
        · refine ends_proceedForward h hinst b.definition hseg ?_
          rw [ends_cancelResolutionTimers hcanc]
          exact done_merged b hhot hrow hmerge rfl
        · exact ends_enterCompensation h hinst b.definition hseg
    | compensating =>
      rw [hdir] at h hcomm
      simp only [ends_bind] at h
      obtain ⟨answer', _, happ, h⟩ := h
      rcases ends_applyMonotonicProjection b happ with
        ⟨status, rfl, hout⟩ | ⟨rfl, row', merged, hrow', hmerge, rfl⟩
      · obtain ⟨rfl, rfl⟩ := ends_pure.1 h
        exact ⟨_, rfl, hout⟩
      · simp only [ends_bind, ends_pure] at h
        obtain ⟨_, _, hcanc, status, _, h, rfl, rfl⟩ := h
        obtain rfl : row = row' := Option.some.inj (hrow.symm.trans hrow')
        have hsucc : row.compensationStatus = .succeeded := by
          simpa [committedSuccess] using hcomm
        have q := quiet_cancelResolutionTimers (quiet_merged b hhot hrow
          (hotPatch_compensating hphase hdir rfl fun _ => .inr hsucc) hmerge) hcanc
        have hinst := b.inst_of q
        exact ⟨_, rfl, .leave q
          (ends_continueCompensation h hinst b.definition (.inr ⟨hstat, hdir⟩))⟩

theorem ends_onResolutionHalted (hhot : c.Hot) (h : (onResolutionHalted c).Ends db1 r db') :
    Outcome o c.inst (.result c) db db' := by
  unfold onResolutionHalted at h
  refine ends_projected b h (fun _ => rfl) fun row merged hrow hmerge h => ?_
  have hpatch : c.HotPatch row
      { resolutionStatus := some .halted, lastErrorCode := c.reasonCode } :=
    .inr ⟨hphase, fun _ => rfl, fun _ => rfl, nofun⟩
  exact .leave (quiet_merged b hhot hrow hpatch hmerge)
    (ends_escalateManual (k := .result c) h b.inst (escalates_result c))

omit hphase in
theorem outcome_reissue
    (h : Move o c.inst (.result c) db1 db' ∨ Reissue o c.inst (.result c) db1 db') :
    Outcome o c.inst (.result c) db db' := by
  rcases h with hmove | hreiss
  · exact .leave (b.quiet .leave) hmove
  · exact .again (b.quiet .again) hreiss

theorem ends_onForwardResolution (hhot : c.Hot) (hdir : c.inst.direction = .forward)
    (h : (o.onForwardResolution c).Ends db1 r db') :
    Outcome o c.inst (.result c) db db' := by
  have hstat : c.inst.status = .waitingResolution := hhot.1.trans (by rw [hphase]; rfl)
  have hseg : c.inst.ForwardSegment := .inr (.inr ⟨hstat, hdir⟩)
  unfold onForwardResolution at h
  split at h
  · refine ends_projected b h (fun _ => rfl) fun row merged hrow hmerge h => ?_
    simp only [ends_bind] at h
    obtain ⟨_, _, hcanc, h⟩ := h
    have q := quiet_cancelResolutionTimers
      (quiet_merged b hhot hrow (hotPatch_forward hphase hdir rfl) hmerge) hcanc
    refine .leave q (ends_proceedForward h (b.inst_of q) b.definition hseg ?_)
    rw [ends_cancelResolutionTimers hcanc]
    exact done_merged b hhot hrow hmerge rfl
  · refine ends_projected b h (fun _ => rfl) fun row merged hrow hmerge h => ?_
    simp only [ends_bind] at h
    obtain ⟨_, _, hcanc, h⟩ := h
    have q := quiet_cancelResolutionTimers
      (quiet_merged b hhot hrow (hotPatch_forward hphase hdir rfl) hmerge) hcanc
    exact .leave q (ends_enterCompensation h (b.inst_of q) b.definition hseg)
  · exact outcome_reissue b (ends_reissueResolve h b.inst b.name hstat hhot.2)
  · exact ends_onResolutionHalted b hphase hhot h
  · exact absurd h ends_throw

theorem ends_onCompensationResolution (hhot : c.Hot) (hdir : c.inst.direction = .compensating)
    (h : (o.onCompensationResolution c).Ends db1 r db') :
    Outcome o c.inst (.result c) db db' := by
  have hstat : c.inst.status = .waitingResolution := hhot.1.trans (by rw [hphase]; rfl)
  have hseg : c.inst.BackSegment := .inr ⟨hstat, hdir⟩
  unfold onCompensationResolution at h
  split at h
  · rename_i hsucc
    refine ends_projected b h (fun _ => rfl) fun row merged hrow hmerge h => ?_
    simp only [ends_bind] at h
    obtain ⟨_, _, hcanc, h⟩ := h
    have q := quiet_cancelResolutionTimers (quiet_merged b hhot hrow
      (hotPatch_compensating hphase hdir rfl fun _ => .inl hsucc) hmerge) hcanc
    exact .leave q (ends_continueCompensation h (b.inst_of q) b.definition hseg)
  · refine ends_projected b h (fun _ => rfl) fun row merged hrow hmerge h => ?_
    simp only [ends_bind] at h
    obtain ⟨_, _, hcanc, h⟩ := h
    have q := quiet_cancelResolutionTimers (quiet_merged b hhot hrow
      (hotPatch_compensating hphase hdir rfl fun hd => by cases hd) hmerge) hcanc
    exact .leave q (ends_requeueCompensation h (b.inst_of q) b.name hstat hdir hhot.2)
  · exact outcome_reissue b (ends_reissueResolve h b.inst b.name hstat hhot.2)
  · exact ends_onResolutionHalted b hphase hhot h
  · exact absurd h ends_throw

theorem ends_onResolveResult (h : (o.onResolveResult c).Ends db1 r db') :
    Outcome o c.inst (.result c) db db' := by
  refine ends_ifHot b (by rw [hphase]; rfl) h fun hhot _ h => ?_
  simp only [ends_bind] at h
  obtain ⟨answer, _, hsett, h⟩ := h
  rcases ends_settleResolution b hphase hhot hsett with ⟨status, rfl, hout⟩ | ⟨rfl, rfl⟩
  · obtain ⟨-, rfl⟩ := ends_pure.1 h
    exact hout
  · cases hdir : c.inst.direction with
    | forward =>
      simp only [hdir] at h
      exact ends_onForwardResolution b hphase hhot hdir h
    | compensating =>
      simp only [hdir] at h
      exact ends_onCompensationResolution b hphase hhot hdir h

end

/-- **Every result handler refines the protocol.** -/
theorem ends_onResult (h : (o.onResult c).Ends db1 r db') :
    Outcome o c.inst (.result c) db db' := by
  unfold onResult at h
  split at h
  · exact ends_onExecuteResult b ‹_› h
  · exact ends_onCancelResult b ‹_› h
  · exact ends_onCompensateResult b ‹_› h
  · exact ends_onResolveResult b ‹_› h

end

end Orchestrator

end NasaRuntime.Saga
