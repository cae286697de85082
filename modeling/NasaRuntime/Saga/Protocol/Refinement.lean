import NasaRuntime.Saga.Protocol.Results

/-!
# The machine refines the protocol

The timer handlers and the management operations, and the inversion of a whole operation.

**Theorem (`Orchestrator.exec_step`).** Every operation, on a store that is keyed, is a `Step`: it
changes nothing, starts the saga, does housekeeping that no business state depends on, pauses or
resumes the instance, or is an `Outcome` of the protocol with the operation as its cause.
-/

namespace NasaRuntime.Saga

open Table Tx ManagementCall SagaTimerRow

variable {o : Orchestrator} {i : SagaInstanceRow} {db db1 db' : Db}

namespace Orchestrator

/-! ## Timers -/

section
variable {t : SagaTimerRow} {token : String} {now : Int} {answer : Option SagaStatus}
  {d : WorkflowDefinition}

theorem quiet_fired {m : Mode} (hstay : m = .stay → Stale i t)
    (hag : m = .again → t.kind.isBudget = false) :
    Quiet i (.timer t) m db (db.fireTimer t.timerId token now) := by
  refine ⟨rfl, rfl, rfl, rfl, .refl _ _, .refl _ _, .of_update fun t' _ h => ?_⟩
  simp only [Bool.and_eq_true, decide_eq_true_eq] at h
  exact .fired h.1 hstay hag

theorem quiet_fired_leave :
    Quiet i (.timer t) .leave db (db.fireTimer t.timerId token now) :=
  quiet_fired nofun nofun

theorem escalates_of_not_budget (hbudg : t.kind.isBudget = false) :
    Cause.Escalates i (.timer t) := by
  intro t' ht' hb
  cases ht'
  rw [hbudg] at hb
  cases hb

theorem ends_onStepTimeout {scope : Option StepName} (hinst : db.inst = some i)
    (hkind : t.kind = .stepTimeout ∨ t.kind = .instanceDeadline)
    (hscope : t.kind = .stepTimeout → scope = t.scope.stepScope)
    (h : (o.onStepTimeout i d scope t now).Ends (db.fireTimer t.timerId token now) answer db') :
    Outcome o i (.timer t) db db' := by
  simp only [onStepTimeout, ends_bind, ends_orThrow, ends_ite, ends_pure] at h
  obtain ⟨step, _, ⟨rfl, rfl⟩, h⟩ := h
  rcases h with ⟨hcold, -, rfl⟩ | ⟨hhot, stepDef, _, ⟨hstep, rfl⟩, h⟩
  · refine .stay (quiet_fired (fun _ => .inr ⟨fun p hp hbusy => ?_, fun hb => ?_⟩) nofun)
    · rcases hkind with hkind | hkind
      · obtain rfl : p = .execute := phaseTimeoutKind_injective (hp.symm.trans hkind)
        rw [← hscope hkind] at hbusy
        exact hcold.elim (fun hne => hne hbusy.1) fun hne => hne hbusy.2.symm
      · rw [hkind] at hp
        cases p <;> cases hp
    · rcases hkind with hkind | hkind <;> rw [hkind] at hb <;> cases hb
  · rw [not_or, not_not, not_not] at hhot
    obtain ⟨hstat, hcur⟩ := hhot
    obtain ⟨-, hname⟩ := d.step_name hstep
    have hquiet : ∀ p : StepJournalPatch, p = { forwardStatus := some .timedOut } ∨
        p = { forwardStatus := some .unknown, resolutionStatus := some .pending } →
        Quiet i (.timer t) .leave db
          ((db.fireTimer t.timerId token now).patchStep step p) := fun p hp =>
      quiet_fired_leave.patch rfl fun r _ hr => .timedOut hstat (hr ▸ hcur) hp
    rcases h with ⟨-, _, _, hupd, _, _, hadv, _, _, hopen, -, rfl⟩ |
      ⟨-, _, _, hupd, _, _, hadv, n, _, hn, _, _, hiss, -, rfl⟩
    · rw [ends_updateStepJournal hupd] at hadv
      obtain ⟨can, rfl, rfl⟩ := ends_advance hadv hinst
      obtain ⟨due, db2, hbudg, hquery⟩ := ends_openResolution hopen
      rw [hname] at hbudg hquery
      exact .leave (hquiet _ (.inr rfl)) (.wait (.timeout hstat hkind) hcur can hbudg hquery)
    · rw [ends_updateStepJournal hupd] at hadv
      obtain ⟨can, rfl, rfl⟩ := ends_advance hadv hinst
      obtain ⟨hfresh, rfl⟩ := ends_nextAttempt hn
      refine .leave (hquiet _ (.inl rfl)) (.send (.barrier rfl hstat hcur fun r hr hrs => ?_) can
        (ends_issueCommand hiss hname hfresh))
      obtain ⟨r0, -, rfl⟩ := mem_updateWhere.1 hr
      by_cases hs : r0.step = step
      · simp [hs, SagaStepRow.apply]
      · simp [hs] at hrs

variable {maxAttempts : Nat} {phase : StepPhase}

theorem ends_attemptsExhausted {step : StepName}
    {exhausted : Bool} (h : (attemptsExhausted i step phase maxAttempts).Ends db exhausted db') :
    db = db' := by
  simp only [attemptsExhausted, ends_ite, ends_bind, ends_get, ends_pure] at h
  rcases h with ⟨-, _, _, ⟨-, rfl⟩, -, rfl⟩ | ⟨-, _, _, hn, -, rfl⟩
  · rfl
  · exact (ends_nextAttempt hn).2

theorem ends_onPhaseRetryTimeout {code : String}
    (hinst : db.inst = some i) (hph : phase ≠ .execute) (hkind : t.kind = phaseTimeoutKind phase)
    (h : (o.onPhaseRetryTimeout i d t.scope.stepScope t phase phase.hotStatus maxAttempts code
      now).Ends (db.fireTimer t.timerId token now) answer db') :
    Outcome o i (.timer t) db db' := by
  have hbudg : t.kind.isBudget = false := by rw [hkind, isBudget_phaseTimeoutKind]
  simp only [onPhaseRetryTimeout, ends_bind, ends_orThrow, ends_ite, ends_pure] at h
  obtain ⟨step, _, ⟨hscope, rfl⟩, h⟩ := h
  rcases h with ⟨hcold, -, rfl⟩ | ⟨hhot, stepDef, _, ⟨hstep, rfl⟩, exhausted, _, hex, h⟩
  · refine .stay (quiet_fired (fun _ => .inr ⟨fun p hp hbusy => ?_, fun hb => ?_⟩) nofun)
    · obtain rfl : p = phase := phaseTimeoutKind_injective (hp.symm.trans hkind)
      rw [hscope] at hbusy
      exact hcold.elim (fun hne => hne hbusy.1) fun hne => hne hbusy.2.symm
    · rw [hbudg] at hb
      cases hb
  · obtain rfl := ends_attemptsExhausted hex
    rw [not_or, not_not, not_not] at hhot
    obtain ⟨hstat, hcur⟩ := hhot
    obtain ⟨-, hname⟩ := d.step_name hstep
    rcases h with ⟨-, _, _, h, -, rfl⟩ | ⟨-, n, _, hn, _, _, hadv, _, _, hissue, -, rfl⟩
    · exact .leave quiet_fired_leave (ends_escalateManual (k := .timer t) h hinst
        (escalates_of_not_budget hbudg))
    · obtain ⟨hfresh, rfl⟩ := ends_nextAttempt hn
      obtain ⟨can, rfl, rfl⟩ := ends_advance hadv hinst
      have hiss := ends_issueCommand hissue hname hfresh
      rw [← hstat] at can hiss
      exact .again (quiet_fired nofun fun _ => hbudg) (.send hph hstat hcur can hiss)

theorem ends_onInstanceDeadline (hinst : db.inst = some i) (hkind : t.kind = .instanceDeadline)
    (h : (o.onInstanceDeadline i d t now).Ends (db.fireTimer t.timerId token now) answer db') :
    Outcome o i (.timer t) db db' := by
  have hbudg : t.kind.isBudget = false := by rw [hkind]; rfl
  have hstale : Stale i t := by
    refine .inr ⟨fun p hp => ?_, fun hb => ?_⟩
    · rw [hkind] at hp
      cases p <;> cases hp
    · rw [hbudg] at hb
      cases hb
  have hidle : Outcome o i (.timer t) db (db.fireTimer t.timerId token now) :=
    .stay (quiet_fired (fun _ => hstale) nofun)
  unfold onInstanceDeadline at h
  split at h
  · split at h
    · obtain ⟨-, rfl⟩ := ends_pure.1 h
      exact hidle
    · exact ends_onStepTimeout hinst (.inr hkind) (fun hk => by rw [hkind] at hk; cases hk) h
  iterate 3
    · simp only [ends_bind, ends_pure] at h
      obtain ⟨_, _, h, -, rfl⟩ := h
      exact .leave quiet_fired_leave (ends_escalateManual (k := .timer t) h hinst
        (escalates_of_not_budget hbudg))
  · obtain ⟨-, rfl⟩ := ends_pure.1 h
    exact hidle

/-- An exhausted budget escalates an instance that waits for a resolution. -/
theorem ends_budget {code : String} (hinst : db.inst = some i) (hbudg : t.kind.isBudget = true)
    (h : (if i.status = .waitingResolution then do
        let status ← escalateManual i .timer t.timerId code
        return some status
      else return none : SagaTx (Option SagaStatus)).Ends (db.fireTimer t.timerId token now) answer
        db') : Outcome o i (.timer t) db db' := by
  simp only [ends_ite, ends_bind, ends_pure] at h
  rcases h with ⟨hstat, _, _, h, -, rfl⟩ | ⟨hstat, -, rfl⟩
  · exact .leave quiet_fired_leave (ends_escalateManual (k := .timer t) h hinst fun _ _ _ => hstat)
  · refine .stay (quiet_fired (fun _ => .inr ⟨fun p hp => ?_, fun _ => hstat⟩) nofun)
    rw [hp, isBudget_phaseTimeoutKind] at hbudg
    cases hbudg

/-- **Every timer handler refines the protocol.** -/
theorem ends_onTimer (hinst : db.inst = some i)
    (h : (o.onTimer i d t now).Ends (db.fireTimer t.timerId token now) answer db') :
    Outcome o i (.timer t) db db' := by
  unfold onTimer at h
  split at h
  · exact ends_onStepTimeout hinst (.inl ‹_›) (fun _ => rfl) h
  · exact ends_onPhaseRetryTimeout hinst (by decide : StepPhase.cancel ≠ .execute) ‹_› h
  · exact ends_onPhaseRetryTimeout hinst (by decide : StepPhase.compensate ≠ .execute) ‹_› h
  · exact ends_onPhaseRetryTimeout hinst (by decide : StepPhase.resolve ≠ .execute) ‹_› h
  · exact ends_budget hinst (by simp [*, TimerKind.isBudget]) h
  · exact ends_budget hinst (by simp [*, TimerKind.isBudget]) h
  · exact ends_budget hinst (by simp [*, TimerKind.isBudget]) h
  · exact ends_onInstanceDeadline hinst ‹_› h

end

/-! ## Management operations -/

section
variable {op : String} {now : Int} {r : SagaStatus}

theorem ends_recoverCompensation (hnod : (db.steps.map (·.step)).Nodup)
    (hinst : db1.inst = some i) (hman : i.status = .manualIntervention)
    (hquiet : Quiet i (.admin .retryFrozenCompensation op) .leave db db1)
    (hsteps : db1.steps = db.steps)
    (h : (o.recoverCompensation i op now).Ends db1 r db') :
    Outcome o i (.admin .retryFrozenCompensation op) db db' := by
  simp only [recoverCompensation, ends_bind, ends_require, ends_orThrow, ends_get,
    ends_ofExcept] at h
  obtain ⟨_, _, ⟨-, rfl⟩, d, _, ⟨hdef, rfl⟩, _, _, ⟨rfl, rfl⟩, next, _, ⟨hnext, rfl⟩, h⟩ := h
  cases next with
  | some step =>
    simp only [ends_bind, ends_orThrow, ends_when, ends_pure] at h
    obtain ⟨_, db2, hreop, _, _, hadv, stepDef, _, ⟨hstep, rfl⟩, n, _, hn, _, _, hiss, -, rfl⟩ := h
    have hquiet2 : Quiet i (.admin .retryFrozenCompensation op) .leave db db2 := by
      rcases hreop with ⟨-, hreop⟩ | ⟨-, rfl⟩
      · obtain ⟨⟨row, hrow, hname, hhalt⟩, rfl⟩ := ends_reopenHaltedCompensation hreop
        refine hquiet.patch hsteps fun r hr hrs => ?_
        obtain rfl := eq_of_key hnod hr (hsteps ▸ hrow) (hrs.trans hname.symm)
        exact .reopenedCompensation hhalt
      · exact hquiet
    have hinst2 : db2.inst = some i := hquiet2.inst.trans (hquiet.inst.symm.trans hinst)
    obtain ⟨can, rfl, rfl⟩ := ends_advance hadv hinst2
    obtain ⟨hfresh, rfl⟩ := ends_nextAttempt hn
    refine .leave hquiet2 (.send (.recover hman hdef hquiet2.steps ?_) can
      (ends_issueCommand hiss (d.step_name hstep).2 hfresh))
    rw [← hsteps]
    exact hnext
  | none =>
    simp only [ends_bind, ends_pure] at h
    obtain ⟨_, _, hadv, _, _, hconv, -, rfl⟩ := h
    obtain ⟨can, rfl, rfl⟩ := ends_advance hadv hinst
    obtain ⟨hproof, can', rfl⟩ := ends_convergeCompensated
      (k := .admin .retryFrozenCompensation op) hconv rfl
    exact .leave hquiet (.converge (.recover hman hdef hnext) can rfl hproof can')

theorem ends_recoverResolution (hnod : (db.steps.map (·.step)).Nodup)
    (hinst : db1.inst = some i) (hman : i.status = .manualIntervention)
    (hquiet : Quiet i (.admin .retryResolution op) .leave db db1)
    (hsteps : db1.steps = db.steps) (h : (o.recoverResolution i op now).Ends db1 r db') :
    Outcome o i (.admin .retryResolution op) db db' := by
  simp only [recoverResolution, ends_bind, ends_require, ends_orThrow, ends_ofExcept, ends_when,
    ends_pure] at h
  obtain ⟨step, _, ⟨hcur, rfl⟩, d, _, ⟨-, rfl⟩, stepDef, _, ⟨hstep, rfl⟩, _, _, ⟨-, rfl⟩, row, _,
    hload, _, _, ⟨-, rfl⟩, n, _, hn, _, db2, hreop, _, _, hadv, due, _, ⟨-, rfl⟩, _, _, hbudg,
    _, _, hiss, -, rfl⟩ := h
  obtain ⟨-, rfl⟩ := ends_loadStep hload
  obtain ⟨rfl, rfl⟩ := ends_nextAttempt_eq hn
  have hquiet2 : Quiet i (.admin .retryResolution op) .leave db db2 ∧
      db2.attempts = db1.attempts := by
    rcases hreop with ⟨-, hreop⟩ | ⟨-, rfl⟩
    · obtain ⟨⟨row, hrow, hname, hhalt⟩, rfl⟩ := ends_reopenHaltedResolution hreop
      refine ⟨hquiet.patch hsteps fun r hr hrs => ?_, rfl⟩
      obtain rfl := eq_of_key hnod hr (hsteps ▸ hrow) (hrs.trans hname.symm)
      exact .reopenedResolution hhalt
    · exact ⟨hquiet, rfl⟩
  obtain ⟨hquiet2, hatts⟩ := hquiet2
  have hinst2 : db2.inst = some i := hquiet2.inst.trans (hquiet.inst.symm.trans hinst)
  obtain ⟨can, rfl, rfl⟩ := ends_advance hadv hinst2
  obtain ⟨-, rfl⟩ := d.step_name hstep
  have hbudg := ends_scheduleTimer hbudg
  have hnext : db1.nextAttemptNo stepDef.name .resolve =
      db2.nextAttemptNo stepDef.name .resolve := by
    simp only [Db.nextAttemptNo, Db.attemptNos, hatts]
  rw [hnext] at hbudg hiss
  refine .leave hquiet2 (.wait (.retry hman hcur) hcur can hbudg
    (.inr ⟨db2.nextAttemptNo stepDef.name .resolve, ?_⟩))
  refine ends_issueCommand hiss rfl ?_
  rw [hbudg.1]
  unfold Db.schedule
  split <;> exact freshAttempt_next db2 stepDef.name .resolve

end

/-! ## Operations -/

theorem step_start {request : StartSagaRequest} {quota : Bool} {r : StartOutcome} (hk : db.Keyed)
    (h : (o.startSaga request quota).Ends db r db') :
    Step o db (.start request quota) db' := by
  simp only [startSaga, ends_bind, ends_orThrow, ends_mapErr] at h
  obtain ⟨d, _, ⟨hdef, rfl⟩, first, _, ⟨hfirst, rfl⟩, creation, _, hcreate, h⟩ := h
  rcases ends_createInstance hcreate with ⟨row, rfl, rfl⟩ | ⟨rfl, hnone, rfl⟩
  · obtain ⟨-, rfl⟩ := ends_pure.1 h
    exact .idle rfl
  · obtain ⟨hsteps, hatts, -, htrans, -⟩ := hk.empty hnone
    simp only [registerSteps, ends_bind, ends_require, ends_modify] at h
    obtain ⟨_, _, ⟨-, rfl⟩, _, _, ⟨-, rfl⟩, _, _, rfl, _, db1, hiss, h⟩ := h
    simp only [hsteps, htrans, registerSteps_empty, List.nil_append] at hiss
    have hissu := ends_issueCommand hiss rfl
      ⟨by decide, fun a ha => by simp only [hatts] at ha; cases ha⟩
    refine .start ⟨hnone, (o.newInstance request d first).row, d, first, request.triggerKind,
      request.triggerId, hdef, hfirst, rfl, rfl, rfl, rfl, rfl, rfl, db1, hissu, ?_⟩
    split at h
    · simp only [ends_bind, ends_pure] at h
      obtain ⟨_, _, hdeadl, -, rfl⟩ := h
      exact .inr ⟨_, ends_scheduleTimer hdeadl⟩
    · obtain ⟨-, rfl⟩ := ends_pure.1 h
      exact .inl rfl

variable {e : SagaResultEnvelope} {producer : ServiceIdentity} {now : Int} {timerId token : String}
  {op : Op} {r : SagaStatus}

theorem verifyResultProducer_ok
    {identity : VerifiedIdentity} (h : o.verifyResultProducer e producer = .ok identity) :
    identity = e.identity ∧ e.phase.allowsStatus e.status = true := by
  unfold verifyResultProducer at h
  cases hv : e.verifiedForDelivery o.hashes with
  | error err =>
    rw [hv] at h
    cases h
  | ok identity' =>
    obtain ⟨hid, hall, -⟩ := e.verifiedForDelivery_ok o.hashes hv
    rw [hv] at h
    simp only [bind, Except.bind] at h
    refine ⟨?_, hall⟩
    rw [← hid]
    split at h
    · cases h
    · split at h
      · cases h
      · split at h
        · cases h
        · split at h
          · cases h
          · cases h
            rfl

theorem step_result {r : HandleOutcome} (hk : db.Keyed)
    (h : (o.handleAuthenticatedResult e producer now).Ends db r db') :
    Step o db (.result e producer now) db' := by
  simp only [handleAuthenticatedResult, handleVerifiedResult, loadInstance, ends_bind, ends_ofExcept,
    ends_get, ends_ite, ends_modify, ends_orThrow, ends_require, ends_pure] at h
  obtain ⟨identity, _, ⟨hprod, rfl⟩, _, _, ⟨rfl, rfl⟩, h⟩ := h
  obtain ⟨rfl, hall⟩ := verifyResultProducer_ok hprod
  rcases h with ⟨-, -, rfl⟩ | ⟨-, _, _, rfl, _, _, ⟨_, _, ⟨rfl, rfl⟩, rfl, rfl⟩, row, _,
    ⟨hrow, rfl⟩, _, _, ⟨-, rfl⟩, _, _, ⟨hact, rfl⟩, d, _, ⟨hdef, rfl⟩, stepDef, _,
    ⟨hstepDef, rfl⟩, record, db1, hreco, h⟩
  · exact .idle rfl
  · have hinst : db.inst = some row := (Option.filter_eq_some_iff.1 hrow).1
    have hact : row.controlState = .active := by
      cases hs : row.controlState with
      | active => rfl
      | paused => simp [hs, ControlState.allowsAutomaticActions] at hact
    rcases ends_recordAttemptOutcome hreco with ⟨hrec, rfl⟩ | ⟨rfl, hflight, rfl⟩
    · -- the attempt has an outcome already
      refine .act hinst hact .clash ?_
      have hquiet : ∀ m, Quiet row (.clash e.eventId) m db
          { db with inbox := db.inbox ++ [e.eventId] } := fun m => (Quiet.refl _ _ _ _).inbox _
      split at h
      · obtain ⟨-, rfl⟩ := ends_pure.1 h
        exact .stay (hquiet .stay)
      · simp only [ends_bind, ends_ite, ends_pure] at h
        obtain ⟨_, _, hfact, h⟩ := h
        rw [ends_recordAttemptConflict hfact] at h
        rcases h with ⟨-, -, rfl⟩ | ⟨-, _, _, h, -, rfl⟩
        · exact .stay ((hquiet .stay).conflict _)
        · exact .leave ((hquiet .leave).conflict _)
            (ends_escalateManual (k := .clash e.eventId) h hinst (escalates_clash _))
      · exact absurd rfl hrec
    · simp only [ends_bind, ends_pure] at h
      obtain ⟨status, _, h, -, rfl⟩ := h
      let c : ResultContext :=
        ⟨row, d, stepDef, e.identity, e.status, e.terminal, e.reasonCode, e.eventId, now⟩
      have hbeg : Begun o c db ({ db with inbox := db.inbox ++ [e.eventId] }.settleAttempt
          c.step c.phase c.attempt e.status e.eventId) :=
        ⟨hinst, hdef, hstepDef, hk.steps, fun m => ⟨rfl, rfl, rfl, rfl, .refl _ _,
          .of_update fun a _ ha => .settled ha, .refl _ _⟩, rfl, rfl⟩
      exact .act (k := .result c) hinst hact
        (.result rfl hdef hstepDef rfl rfl hall hflight) (ends_onResult hbeg h)

variable {u : Unit}

theorem step_fire (hk : db.Keyed) (h : (o.body (.fire timerId token now)).Ends db u db') :
    Step o db (.fire timerId token now) db' := by
  simp only [body, ends_bind, ends_get] at h
  obtain ⟨_, _, ⟨rfl, rfl⟩, h⟩ := h
  split at h
  · obtain ⟨-, rfl⟩ := ends_pure.1 h
    exact .idle rfl
  · rename_i t ht
    have hmem := List.mem_of_find?_eq_some ht
    obtain rfl : t.timerId = timerId := by simpa using List.find?_some ht
    simp only [fireTimer, ends_bind, ends_get, ends_pure] at h
    obtain ⟨_, _, ⟨_, _, ⟨rfl, rfl⟩, h⟩, -, rfl⟩ := h
    split at h
    · -- without an instance there is no timer
      rename_i hnone
      rw [(hk.empty hnone).2.2.1] at hmem
      cases hmem
    · rename_i row hinst
      simp only [ends_ite, ends_bind, ends_pure] at h
      rcases h with ⟨-, -, rfl⟩ | ⟨hact, fencing, _, hcomp, h⟩
      · exact .idle rfl
      · have hact : row.controlState = .active := by
          cases hs : row.controlState with
          | active => rfl
          | paused => simp [hs, ControlState.allowsAutomaticActions] at hact
        rcases ends_completeTimer hcomp with ⟨rfl, rfl⟩ | ⟨rfl, ⟨t', hmem', hid, hheld⟩, rfl⟩
        · obtain ⟨-, rfl⟩ := ends_pure.1 h
          exact .idle rfl
        · obtain rfl : t' = t := eq_of_key hk.timers hmem' hmem hid
          refine .act hinst hact (.timer hmem hheld) ?_
          simp only [ends_ite, ends_bind, ends_orThrow, ends_pure] at h
          rcases h with ⟨hstale, -, rfl⟩ | ⟨-, d, _, ⟨-, rfl⟩, answer, _, h, hend⟩
          · exact .stay (quiet_fired (fun _ => .inl hstale) nofun)
          · have hout := ends_onTimer hinst h
            cases answer <;> obtain ⟨-, rfl⟩ := ends_pure.1 hend <;> exact hout

theorem step_claimTimers {owner : String} {lease : Int} {limit : Nat}
    (hk : db.Keyed) (h : (claimDueTimers owner token now lease limit).Ends db u db') :
    Step o db op db' := by
  simp only [claimDueTimers, ends_bind, ends_require, ends_modify] at h
  obtain ⟨_, _, ⟨-, rfl⟩, _, _, ⟨-, rfl⟩, _, _, ⟨-, rfl⟩, _, _, ⟨-, rfl⟩, rfl⟩ := h
  refine .keep rfl ⟨rfl, rfl, rfl, rfl, .of_update fun t ht hclaim => ?_⟩
  refine ⟨rfl, rfl, rfl, rfl, rfl, ?_⟩
  -- a claimed row was pending, or its lease ran out
  simp only [Db.claimed, decide_eq_true_eq, List.mem_map] at hclaim
  obtain ⟨t', ht', hid⟩ := hclaim
  have hmem := List.mem_filter.1 ((List.mem_insertionSort _).1 (List.mem_of_mem_take ht'))
  obtain rfl : t' = t := eq_of_key hk.timers hmem.1 ht hid
  have hclaima := hmem.2
  simp only [claimable, Bool.or_eq_true, Bool.and_eq_true, decide_eq_true_eq] at hclaima
  rcases hclaima with ⟨hs, -⟩ | ⟨hs, -⟩ <;> simp [live, hs]

theorem step_release {at' : Int} {r : TimerFencing}
    (h : (releaseTimer timerId token now at').Ends db r db') : Step o db op db' := by
  simp only [releaseTimer, ends_bind, ends_require, ends_get] at h
  obtain ⟨_, _, ⟨-, rfl⟩, _, _, ⟨-, rfl⟩, _, _, ⟨-, rfl⟩, _, _, ⟨rfl, rfl⟩, h⟩ := h
  split at h
  · obtain ⟨-, rfl⟩ := ends_pure.1 h
    exact .idle rfl
  · simp only [ends_ite, ends_bind, ends_modify, ends_pure] at h
    rcases h with ⟨-, _, _, rfl, -, rfl⟩ | ⟨-, -, rfl⟩
    · refine .keep rfl ⟨rfl, rfl, rfl, rfl, .of_update fun t _ hheld => ?_⟩
      simp only [heldBy, Bool.and_eq_true, decide_eq_true_eq] at hheld
      exact ⟨rfl, rfl, rfl, rfl, rfl, by simp [live, unowned, hheld.2]⟩
    · exact .idle rfl

variable {m : ManagementCall}

/-- A change of the control state keeps everything but the control columns. -/
theorem ends_setControl {src dst : ControlState} {text : String} {b : Bool}
    (h : (setControl m src dst text).Ends db b db') : db = db' ∨ ∃ row version, db.inst = some row ∧
      db'.inst = some { row with controlState := dst, controlVersion := version } ∧
      Housekeeping db db' := by
  simp only [setControl, target, ends_bind, ends_get, ends_orThrow] at h
  obtain ⟨row, _, ⟨_, _, ⟨rfl, rfl⟩, -, rfl⟩, outcome, _, hset, h⟩ := h
  rcases ends_setControlState hset with ⟨hne, rfl⟩ | ⟨rfl, row', hinst, rfl⟩
  · cases outcome with
    | applied => exact absurd rfl hne
    | alreadyApplied =>
      obtain ⟨-, rfl⟩ := ends_pure.1 h
      exact .inl rfl
    | conflict =>
      obtain ⟨_, _, -, h⟩ := ends_bind.1 h
      exact absurd h ends_throw
  · simp only [verifyExpectation, reserveActionRateBudget, ends_bind, ends_require, ends_pure] at h
    obtain ⟨_, _, ⟨-, rfl⟩, _, _, ⟨-, rfl⟩, -, rfl⟩ := h
    exact .inr ⟨row', _, hinst, rfl, rfl, rfl, rfl, rfl, .refl _ _⟩

theorem step_pause (h : (pause m).Ends db u db') : Step o db (.pause m) db' := by
  simp only [pause, requirePermission, ends_bind, ends_require, ends_pure] at h
  obtain ⟨_, _, ⟨-, rfl⟩, _, _, hset, -, rfl⟩ := h
  rcases ends_setControl hset with rfl | ⟨row, version, hinst, hinst', hkeep⟩
  · exact .idle rfl
  · exact .control hinst hinst' hkeep

theorem housekeeping_wake (hkeep : Housekeeping db db1) (h : wakeSagaTimers.Ends db1 () db') :
    db'.inst = db1.inst ∧ Housekeeping db db' := by
  simp only [wakeSagaTimers, ends_modify] at h
  subst h
  refine ⟨rfl, hkeep.steps, hkeep.attempts, hkeep.transitions, hkeep.outbox, ?_⟩
  have hwake : Rewrites SagaTimerRow.Leased db1.timers
      (updateWhere (fun t => t.state = .pending && t.availableAt ≠ t.dueAt)
        (fun t => { t with availableAt := t.dueAt }) db1.timers) :=
    .of_update fun t _ _ => ⟨rfl, rfl, rfl, rfl, rfl, rfl⟩
  refine hkeep.timers.comp hwake fun t _ t' t'' h1 h2 => ?_
  rcases h1 with rfl | h1
  · exact h2
  · rcases h2 with rfl | h2
    · exact .inr h1
    · exact .inr ⟨h2.timerId.trans h1.timerId, h2.scope.trans h1.scope, h2.kind.trans h1.kind,
        h2.attempt.trans h1.attempt, h2.expectedSagaVersion.trans h1.expectedSagaVersion,
        h2.live.trans h1.live⟩

theorem step_resume (h : (resume m).Ends db u db') : Step o db (.resume m) db' := by
  simp only [resume, requirePermission, ends_bind, ends_require, ends_when] at h
  obtain ⟨_, _, ⟨-, rfl⟩, changed, _, hset, h⟩ := h
  rcases ends_setControl hset with rfl | ⟨row, version, hinst, hinst', hkeep⟩
  · have hsame : Housekeeping db db := ⟨rfl, rfl, rfl, rfl, .refl _ _⟩
    rcases h with ⟨-, h⟩ | ⟨-, rfl⟩
    · obtain ⟨hinst, hkeep⟩ := housekeeping_wake hsame h
      exact .keep hinst hkeep
    · exact .idle rfl
  · rcases h with ⟨-, h⟩ | ⟨-, rfl⟩
    · obtain ⟨hwake, hkeep⟩ := housekeeping_wake hkeep h
      exact .control hinst (hwake.trans hinst') hkeep
    · exact .control hinst hinst' hkeep

/-- An audited operation that is new finds the instance `ACTIVE` in `MANUAL_INTERVENTION`; all it
has written is its audit row. -/
theorem ends_audited {action : ManagementAction} {name : String}
    {row : SagaInstanceRow} {fresh : Bool} (h : (audited m action name).Ends db (row, fresh) db') :
    (fresh = false ∧ db = db') ∨ (fresh = true ∧ db.inst = some row ∧
      row.controlState = .active ∧ row.status = .manualIntervention ∧ ∃ audits,
        ⟨m.operationId, action, m.actor, m.reason⟩ ∈ audits ∧ db' = { db with audits }) := by
  simp only [audited, target, ends_bind, ends_get, ends_orThrow] at h
  obtain ⟨row', _, ⟨_, _, ⟨rfl, rfl⟩, hrow, rfl⟩, outcome, _, hrec, h⟩ := h
  rcases ends_recordManagementOperation hrec with ⟨rfl, rfl⟩ | ⟨rfl, rfl⟩
  · obtain ⟨he, rfl⟩ := ends_pure.1 h
    exact .inl ⟨(Prod.mk.inj he).2.symm, rfl⟩
  · simp only [verifyExpectation, reserveActionRateBudget, ends_bind, ends_require, ends_pure] at h
    obtain ⟨_, _, ⟨-, rfl⟩, _, _, ⟨-, rfl⟩, _, _, ⟨hact, rfl⟩, _, _, ⟨hman, rfl⟩, he, rfl⟩ := h
    obtain ⟨rfl, rfl⟩ := Prod.mk.inj he
    refine .inr ⟨rfl, (Option.filter_eq_some_iff.1 hrow).1, ?_, hman, _,
      List.mem_append_right _ List.mem_cons_self, rfl⟩
    cases hs : row'.controlState with
    | active => rfl
    | paused => simp [hs, ControlState.allowsAutomaticActions] at hact

theorem step_retryCompensation (hk : db.Keyed)
    (h : (o.retryCompensation m now).Ends db r db') : Step o db (.retryCompensation m now) db' := by
  simp only [retryCompensation, requirePermission, ends_bind, ends_require] at h
  obtain ⟨_, _, ⟨-, rfl⟩, ⟨row, fresh⟩, _, haud, h⟩ := h
  rcases ends_audited haud with ⟨rfl, rfl⟩ | ⟨rfl, hinst, hact, hman, audits, -, rfl⟩
  · obtain ⟨-, rfl⟩ := ends_pure.1 h
    exact .idle rfl
  · rw [if_pos rfl] at h
    exact .act hinst hact .retryCompensation (ends_recoverCompensation hk.steps (by exact hinst)
      hman ((Quiet.refl _ _ _ _).audit audits) rfl h)

theorem step_retryResolution (hk : db.Keyed)
    (h : (o.retryResolution m now).Ends db r db') : Step o db (.retryResolution m now) db' := by
  simp only [retryResolution, requirePermission, ends_bind, ends_require] at h
  obtain ⟨_, _, ⟨-, rfl⟩, ⟨row, fresh⟩, _, haud, h⟩ := h
  rcases ends_audited haud with ⟨rfl, rfl⟩ | ⟨rfl, hinst, hact, hman, audits, -, rfl⟩
  · obtain ⟨-, rfl⟩ := ends_pure.1 h
    exact .idle rfl
  · rw [if_pos rfl] at h
    exact .act hinst hact .retryResolution (ends_recoverResolution hk.steps (by exact hinst)
      hman ((Quiet.refl _ _ _ _).audit audits) rfl h)

theorem step_manualClose
    (h : (o.manualClose m).Ends db r db') : Step o db (.manualClose m) db' := by
  simp only [manualClose, requirePermission, ends_bind, ends_require] at h
  obtain ⟨_, _, ⟨-, rfl⟩, _, _, ⟨-, rfl⟩, ⟨row, fresh⟩, _, haud, h⟩ := h
  rcases ends_audited haud with ⟨rfl, rfl⟩ | ⟨rfl, hinst, hact, hman, audits, -, rfl⟩
  · obtain ⟨-, rfl⟩ := ends_pure.1 h
    exact .idle rfl
  · simp only [if_true, ends_bind, ends_pure] at h
    obtain ⟨_, _, hadv, _, _, hcanc, -, rfl⟩ := h
    obtain ⟨can, rfl, rfl⟩ := ends_advance hadv hinst
    obtain rfl := ends_cancelScopeTimers hcanc
    exact .act hinst hact .manualClose
      (.leave ((Quiet.refl _ _ _ _).audit audits) (.finish (.close hman) can))

/-- The transaction of every operation refines the protocol. -/
theorem step_body (hk : db.Keyed) (h : (o.body op).Ends db u db') : Step o db op db' := by
  cases op with
  | start request quota =>
    simp only [body, ends_bind, ends_pure] at h
    obtain ⟨_, _, h, -, rfl⟩ := h
    exact step_start hk h
  | result envelope producer now =>
    simp only [body, ends_bind, ends_pure] at h
    obtain ⟨_, _, h, -, rfl⟩ := h
    exact step_result hk h
  | claimTimers owner token now => exact step_claimTimers hk h
  | fire timerId token now => exact step_fire hk h
  | release timerId token now =>
    simp only [body, ends_bind, ends_ofExcept, ends_pure] at h
    obtain ⟨_, _, ⟨-, rfl⟩, _, _, h, -, rfl⟩ := h
    exact step_release h
  | pause call => exact step_pause h
  | resume call => exact step_resume h
  | retryCompensation call now =>
    simp only [body, ends_bind, ends_pure] at h
    obtain ⟨_, _, h, -, rfl⟩ := h
    exact step_retryCompensation hk h
  | retryResolution call now =>
    simp only [body, ends_bind, ends_pure] at h
    obtain ⟨_, _, h, -, rfl⟩ := h
    exact step_retryResolution hk h
  | manualClose call =>
    simp only [body, ends_bind, ends_pure] at h
    obtain ⟨_, _, h, -, rfl⟩ := h
    exact step_manualClose h
  | forget eventId | tick clock =>
    simp only [body, ends_modify] at h
    subst h
    exact .keep rfl ⟨rfl, rfl, rfl, rfl, .refl _ _⟩

/-- **The machine refines the protocol.** -/
theorem exec_step (hk : db.Keyed) (op : Op) : Step o db op (o.exec db op) := by
  rcases commit_cases (o.body op) db with ⟨_, db', hends, hexec⟩ | hexec
  · rw [show o.exec db op = db' from hexec]
    exact step_body hk hends
  · exact .idle hexec

end Orchestrator

end NasaRuntime.Saga
