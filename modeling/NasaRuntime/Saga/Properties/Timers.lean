import NasaRuntime.Saga.Protocol.Invariant

/-!
# No lost command, and resolution budgets

An instance that waits for the result of an execute, cancel or compensate command moves on by
itself if the result never comes: the timeout of the command is in the timer table, alive, and
made for the version the instance has now, so that firing it is not taken for a stale timer.

**Theorem (`timeout_run`).** In every reachable state in which the instance waits for a
participant, the timeout of the latest attempt is alive and current, and firing it is never skipped
as stale.

An instance that starts to wait for a resolution schedules a budget for the wait. The key of a
budget is the step, the direction and an attempt number, and the attempt number comes from whatever
started the wait: an execute, cancel or compensate attempt, the timeout of a step, or the next
resolve attempt when an administrator asks again. Two waits for one step can so arrive at one key,
and the store takes the second scheduling for a repetition of the first, even if the first budget
was fired or cancelled long ago.

**Theorem (`budget_run`).** In a run in which no wait is started under the key of an existing
budget, every wait has a live budget of its own.

**Theorem (`escalation_run`).** In a run in which no wait is started while a budget is alive, a
budget only escalates the wait it was scheduled for.

**Theorems (`budget_run_reused`, `escalation_run_outlived`).** Runs of either kind that do not.
-/

namespace NasaRuntime.Saga

open Table Tx SagaStepAttemptRow List StepPhase Option TwoSteps

variable {o : Orchestrator} {i : SagaInstanceRow} {k : Cause} {m : Mode} {db db1 db' : Db} {op : Op}
  {step : StepName} {phase : StepPhase} {n : AttemptNo} {version : Nat}
variable {t : SagaTimerRow}

/-! ## The invariant -/

/-- The attempt is the last one of its phase that was issued. -/
def Db.Latest (db : Db) (step : StepName) (phase : StepPhase) (n : AttemptNo) : Prop :=
  (∃ a ∈ db.attempts, a.step = step ∧ a.phase = phase ∧ a.attempt = n) ∧
    ∀ a ∈ db.attempts, a.step = step → a.phase = phase → a.attempt ≤ n

/-- A live timeout of the latest attempt, made for this version of the instance. -/
structure Db.Guards (db : Db) (step : StepName) (phase : StepPhase) (version : Nat)
    (t : SagaTimerRow) : Prop where
  mem : t ∈ db.timers
  live : t.live = true
  scope : t.scope = .step step
  kind : t.kind = phaseTimeoutKind phase
  version : t.expectedSagaVersion = version
  latest : db.Latest step phase t.attempt

/-- Every timeout belongs to an attempt. -/
def Db.Known (db : Db) : Prop :=
  ∀ t ∈ db.timers, ∀ step phase, t.scope = .step step → t.kind = phaseTimeoutKind phase →
    ∃ a ∈ db.attempts, a.key = (step, phase, t.attempt)

/-- The command the instance waits for has a timeout. -/
structure Db.Timed (db : Db) : Prop where
  known : db.Known
  guarded : ∀ i step phase, db.inst = some i → phase ≠ .resolve → i.status = phase.hotStatus →
    i.currentStep = some step → ∃ t, db.Guards step phase i.version t

theorem Db.Latest.of_keys (h : db.Latest step phase n)
    (hkeys : db'.attempts.map key = db.attempts.map key) :
    db'.Latest step phase n := by
  have hsrc : ∀ a ∈ db'.attempts, ∃ a0 ∈ db.attempts, a0.key = a.key := by
    intro a ha
    have hmem : a.key ∈ db'.attempts.map key := mem_map_of_mem ha
    rw [hkeys] at hmem
    exact mem_map.1 hmem
  obtain ⟨⟨a, ha, hstep, hph, hn⟩, hmax⟩ := h
  refine ⟨?_, fun a' ha' hstep' hph' => ?_⟩
  · have hmem : a.key ∈ db.attempts.map key := mem_map_of_mem ha
    rw [← hkeys] at hmem
    obtain ⟨a', ha', he⟩ := mem_map.1 hmem
    simp only [key, Prod.mk.injEq] at he
    exact ⟨a', ha', he.1.trans hstep, he.2.1.trans hph, he.2.2.trans hn⟩
  · obtain ⟨a0, ha0, he⟩ := hsrc a' ha'
    simp only [key, Prod.mk.injEq] at he
    rw [← he.2.2]
    exact hmax a0 ha0 (he.1.trans hstep') (he.2.1.trans hph')

/-! ## New commands -/

/-- A command leaves its timeout, since the timeouts of the table belong to older attempts. -/
theorem Db.Issues.guards (h : Db.Issues o i step phase n version db db') (hknown : db.Known) :
    ∃ t, db'.Guards step phase version t := by
  obtain ⟨row, hatts, hstep, hph, hn, -⟩ := h.attempts
  have hlat : db'.Latest step phase n := by
    rw [Db.Latest, hatts]
    refine ⟨⟨row, mem_append_right _ mem_cons_self, hstep, hph, hn⟩, ?_⟩
    intro a ha hast haph
    rcases mem_append.1 ha with ha | ha
    · exact Nat.le_of_lt (h.fresh.2 a ha hast haph)
    · rw [mem_singleton.1 ha, hn]
  have hfresh := h.fresh
  obtain ⟨recovery, due, -, rfl, -⟩ := h
  refine ⟨_, Db.schedule_new fun t ht => ?_, rfl, rfl, rfl, rfl, hlat⟩
  by_contra his
  simp only [SagaTimerRow.is, Bool.not_eq_false, Bool.and_eq_true, decide_eq_true_eq] at his
  obtain ⟨⟨hscope, hkind⟩, hatt⟩ := his
  obtain ⟨a, ha, hkey⟩ := hknown t ht step phase hscope hkind
  simp only [key, Prod.mk.injEq] at hkey
  have hlt := hfresh.2 a ha hkey.1 hkey.2.1
  rw [hkey.2.2, hatt] at hlt
  exact Nat.lt_irrefl _ hlt

/-! ## Steps -/

theorem Db.Known.ages (h : db.Known) (hkeys : ∀ a ∈ db.attempts, ∃ a' ∈ db'.attempts, a'.key = a.key)
    {t t' : SagaTimerRow} (ht : t ∈ db.timers) (hages : t.Ages t') (hscope : t'.scope = .step step)
    (hkind : t'.kind = phaseTimeoutKind phase) :
    ∃ a ∈ db'.attempts, a.key = (step, phase, t'.attempt) := by
  obtain ⟨a, ha, hkey⟩ := h t ht step phase (hages.scope ▸ hscope) (hages.kind ▸ hkind)
  obtain ⟨a', ha', he⟩ := hkeys a ha
  rw [hages.attempt]
  exact ⟨a', ha', he.trans hkey⟩

theorem Quiet.known (q : Quiet i k m db db') (h : db.Known) : db'.Known := by
  intro t' ht' step phase hscope hkind
  obtain ⟨t, ht, hages⟩ := q.timer_source ht'
  refine h.ages (fun a ha => ?_) ht hages hscope hkind
  obtain ⟨a', ha', hch⟩ := q.attempts.target ha
  rcases hch with rfl | hch
  · exact ⟨a', ha', rfl⟩
  · exact ⟨a', ha', hch.key⟩

theorem Step.known (h : Step o db op db') (hb : db.Based o) (hknown : db.Known) : db'.Known := by
  intro t' ht' step phase hscope hkind
  rcases h.timer_source hb ht' with ⟨t, ht, hages⟩ | hnew
  · refine hknown.ages (fun a ha => ?_) ht hages hscope hkind
    obtain ⟨attempts, hkeys, hiss⟩ := h.issued
    have hmem : a.key ∈ attempts.map key := hkeys ▸ mem_map_of_mem ha
    obtain ⟨a', ha', he⟩ := mem_map.1 hmem
    refine ⟨a', ?_, he⟩
    rcases hiss with ⟨hsame, -⟩ | ⟨row, command, hsent⟩
    · rw [hsame]
      exact ha'
    · rw [hsent.attempts_eq]
      exact mem_append_left _ ha'
  · cases hnew with
    | timeout scope kind known =>
      have hs := TimerScope.step.inj (scope.symm.trans hscope)
      have hp := phaseTimeoutKind_injective (kind.symm.trans hkind)
      rw [← hs, ← hp]
      exact known
    | budget inst status cur scope kind version =>
      have hbudg := isBudget_phaseTimeoutKind phase
      rw [← hkind, kind, isBudget_resolutionBudgetKind] at hbudg
      cases hbudg
    | deadline kind =>
      rw [kind] at hkind
      cases phase <;> cases hkind

theorem Quiet.guards (q : Quiet i k .stay db db') (har : Arises o i db op k)
    (hnod : (db.timers.map (·.timerId)).Nodup) (hstat : i.status = phase.hotStatus)
    (hcur : i.currentStep = some step) (h : db.Guards step phase i.version t) :
    db'.Guards step phase i.version t := by
  obtain ⟨t', ht', hch⟩ := q.timers.target h.mem
  have hkeys := q.attempts.map_eq key fun _ _ _ hc => hc.key
  obtain rfl : t' = t := by
    rcases hch with rfl | hch
    · rfl
    · cases hch with
      | @deferred c _ _ hcold hscope hkind =>
        -- a result of the phase the instance waits for, at the step it is at, is not late
        refine absurd ⟨?_, ?_⟩ hcold
        · rw [har.inst c rfl, hstat, phaseTimeoutKind_injective (h.kind.symm.trans hkind)]
        · rw [har.inst c rfl, hcur, TimerScope.step.inj (h.scope.symm.trans hscope)]
      | @fired t0 _ _ hid hstay hag =>
        obtain rfl := eq_of_key hnod h.mem har.timer_mem.1 hid
        -- the timer of that phase is not stale
        rcases hstay rfl with ⟨-, hvers⟩ | ⟨hcold, -⟩
        · exact absurd h.version hvers
        · exact absurd ⟨hstat, by rw [h.scope, hcur]; rfl⟩ (hcold phase h.kind)
  exact ⟨ht', h.live, h.scope, h.kind, h.version, h.latest.of_keys hkeys⟩

theorem StepPhase.hotStatus_injective {p q : StepPhase} (h : p.hotStatus = q.hotStatus) :
    p = q := by
  cases p <;> cases q <;> first | rfl | cases h

theorem Db.Guards.schedule (h : db.Guards step phase version t)
    (spec : TimerSpec) : (db.schedule spec).Guards step phase version t := by
  refine ⟨Db.mem_schedule_of_mem h.mem, h.live, h.scope, h.kind, h.version, ?_⟩
  rw [Db.Latest, Db.schedule_attempts]
  exact h.latest

theorem Started.guards (h : Started o db db') (hb : db.Based o) (hinst : db'.inst = some i)
    (hstat : i.status = phase.hotStatus) (hcur : i.currentStep = some step) :
    ∃ t, db'.Guards step phase i.version t := by
  obtain ⟨hvac, row, d, first, kind, id, -, -, hrunn, -, -, hfirst, -, hvers, db1, issues,
    hdeadl⟩ := h
  have hnone : db.timers = [] := (hb.empty hvac).2.2.1
  obtain ⟨t, hg⟩ := issues.guards fun t ht => by
    have hold : t ∈ db.timers := ht
    rw [hnone] at hold
    cases hold
  obtain ⟨timers, hdb⟩ := Db.deadline_eq hdeadl
  rw [hdb] at hinst
  cases issues.inst.symm.trans hinst
  cases hfirst.symm.trans hcur
  obtain rfl : .execute = phase := hotStatus_injective (hrunn.symm.trans hstat)
  rw [hvers]
  rcases hdeadl with rfl | ⟨due, rfl, -⟩
  · exact ⟨t, hg⟩
  · exact ⟨t, hg.schedule _⟩

/-- A move into a status that waits for a participant issues the command. -/
theorem Move.guards (h : Move o i k db db') (hknown : db.Known) {j : SagaInstanceRow}
    (hinst : db'.inst = some j) (hph : phase ≠ .resolve) (hstat : j.status = phase.hotStatus)
    (hcur : j.currentStep = some step) : ∃ t, db'.Guards step phase j.version t := by
  cases h with
  | escalate can =>
    cases hinst
    cases phase <;> cases hstat
  | finish guard can =>
    cases hinst
    cases guard <;> cases phase <;> cases hstat
  | @send dst dir step' phase' plan n _ guard can issues =>
    rw [issues.inst, Db.freezes_inst] at hinst
    cases hinst
    cases hcur
    have hdst : dst = phase'.hotStatus := by cases guard <;> rfl
    obtain rfl : phase' = phase := hotStatus_injective (hdst.symm.trans hstat)
    refine issues.guards ?_
    rw [Db.Known, Db.freezes_timers, Db.freezes_attempts]
    exact hknown
  | wait guard hcur can budget query =>
    rw [(Db.opened_inst budget query).1] at hinst
    cases hinst
    cases phase <;> first | exact absurd rfl hph | cases hstat
  | converge guard can hdb1 proof can' =>
    cases hinst
    cases phase <;> cases hstat

/-- **One step.** -/
theorem Step.timed (h : Step o db op db') (hb : db.Based o) (ht : db.Timed) : db'.Timed := by
  refine ⟨h.known hb ht.known, fun j step phase hj hph hstat hcur => ?_⟩
  rcases h.cases with started | kept | ⟨i, k, inst, -, arises, outcome⟩
  · exact started.guards hb hj hstat hcur
  · -- leases and control changes keep a live timeout
    obtain ⟨i, state, version, inst, rfl⟩ := kept.source hj
    obtain ⟨t, hg⟩ := ht.guarded i step phase inst hph hstat hcur
    obtain ⟨t', ht', hlease⟩ := kept.timers.target hg.mem
    have hlat : db'.Latest step phase t.attempt := by
      rw [Db.Latest, kept.attempts]
      exact hg.latest
    rcases hlease with rfl | hlease
    · exact ⟨t', ht', hg.live, hg.scope, hg.kind, hg.version, hlat⟩
    · exact ⟨t', ht', hlease.live.trans hg.live, hlease.scope.trans hg.scope,
        hlease.kind.trans hg.kind, hlease.expectedSagaVersion.trans hg.version,
        hlease.attempt ▸ hlat⟩
  · cases outcome with
    | stay quiet =>
      rw [quiet.inst] at hj
      obtain rfl := some.inj (inst.symm.trans hj)
      obtain ⟨t, hg⟩ := ht.guarded i step phase inst hph hstat hcur
      exact ⟨t, quiet.guards arises hb.timers hstat hcur hg⟩
    | again quiet reissue =>
      cases reissue with
      | @send step' phase' n _ hph' hstat' hcur' can issues =>
        rw [issues.inst] at hj
        obtain rfl := some.inj hj
        obtain rfl := some.inj hcur
        obtain rfl : phase' = phase := hotStatus_injective (hstat'.symm.trans hstat)
        exact issues.guards (quiet.known ht.known)
    | leave quiet move => exact move.guards (quiet.known ht.known) hj hph hstat hcur

/-! ## Firing -/

theorem Orchestrator.onTimer_acts {d : WorkflowDefinition} {now : Int}
    {answer : Option SagaStatus} (hkind : t.kind = phaseTimeoutKind phase)
    (hscope : t.scope = .step step) (hstat : i.status = phase.hotStatus)
    (hcur : i.currentStep = some step) (h : (o.onTimer i d t now).Ends db answer db') :
    answer ≠ none := by
  have hhot : ¬ (i.status ≠ phase.hotStatus ∨ i.currentStep ≠ some step) := by simp [hstat, hcur]
  have hex (hp : phase = .execute)
      (h : (o.onStepTimeout i d (some step) t now).Ends db answer db') : answer ≠ none := by
    rw [hp] at hhot
    simp only [onStepTimeout, ends_bind, ends_orThrow, ends_ite, ends_pure] at h
    obtain ⟨_, _, ⟨hs, rfl⟩, h⟩ := h
    cases hs
    rcases h with ⟨hcold, -⟩ | ⟨-, _, _, -, ⟨-, h⟩ | ⟨-, h⟩⟩
    · exact absurd hcold hhot
    · obtain ⟨_, _, -, _, _, -, _, _, -, rfl, -⟩ := h
      simp
    · obtain ⟨_, _, -, _, _, -, _, _, -, _, _, -, rfl, -⟩ := h
      simp
  have hretry {maxAttempts : Nat} {code : String}
      (h : (o.onPhaseRetryTimeout i d (some step) t phase phase.hotStatus maxAttempts code
        now).Ends db answer db') : answer ≠ none := by
    simp only [onPhaseRetryTimeout, ends_bind, ends_orThrow, ends_ite, ends_pure] at h
    obtain ⟨_, _, ⟨hs, rfl⟩, h⟩ := h
    cases hs
    rcases h with ⟨hcold, -⟩ | ⟨-, _, _, -, _, _, -, ⟨-, h⟩ | ⟨-, h⟩⟩
    · exact absurd hcold hhot
    · obtain ⟨_, _, -, rfl, -⟩ := h
      simp
    · obtain ⟨_, _, -, _, _, -, _, _, -, rfl, -⟩ := h
      simp
  unfold onTimer at h
  rw [hkind, hscope] at h
  cases hp : phase with
  | execute =>
    rw [hp] at h
    exact hex hp h
  | cancel | compensate | resolve =>
    subst hp
    exact hretry h

theorem Orchestrator.fireTimer_acts {token : String} {now : Int}
    {outcome : TimerOutcome} (hinst : db.inst = some i) (hg : db.Guards step phase i.version t)
    (hstat : i.status = phase.hotStatus) (hcur : i.currentStep = some step)
    (h : (o.fireTimer t token now).Ends db outcome db') : outcome ≠ .skippedStale := by
  simp only [fireTimer, ends_bind, ends_get] at h
  obtain ⟨_, _, ⟨rfl, rfl⟩, h⟩ := h
  rw [hinst] at h
  simp only [ends_ite, ends_bind, ends_pure] at h
  rcases h with ⟨-, rfl, -⟩ | ⟨-, fencing, _, -, h⟩
  · simp
  · cases fencing with
    | lost =>
      obtain ⟨rfl, -⟩ := ends_pure.1 h
      simp
    | applied =>
      simp only [ends_ite, ends_bind, ends_pure] at h
      rcases h with ⟨⟨-, hvers⟩, -⟩ | ⟨-, d, _, -, answer, _, htim, h⟩
      · exact absurd hg.version hvers
      · have hsome := onTimer_acts hg.kind hg.scope hstat hcur htim
        cases answer with
        | none => exact absurd rfl hsome
        | some status =>
          obtain ⟨rfl, -⟩ := ends_pure.1 h
          simp

/-! ## Every run -/

theorem timed_run (o : Orchestrator) (ops : List Op) : (o.run ops).Timed :=
  Orchestrator.inv_run_all (J := Db.Timed) (fun _ _ _ hb ht hstep => hstep.timed hb ht)
    ⟨fun _ h => (by cases h), fun _ _ _ h => (by cases h)⟩ ops

/-- **No lost command**, in every reachable state. -/
theorem timeout_run (o : Orchestrator) (ops : List Op) (i : SagaInstanceRow) (phase : StepPhase)
    (hinst : (o.run ops).inst = some i) (hphase : phase ≠ .resolve)
    (hstatus : i.status = phase.hotStatus) :
    ∃ step t, i.currentStep = some step ∧ t ∈ (o.run ops).timers ∧ t.live = true ∧
      t.scope = .step step ∧ t.kind = phaseTimeoutKind phase ∧
      (o.run ops).Latest step phase t.attempt ∧ t.expectedSagaVersion = i.version ∧
      ∀ token now outcome db', (o.fireTimer t token now).Ends (o.run ops) outcome db' →
        outcome ≠ .skippedStale := by
  have hc := (o.based_run ops).coherent i hinst
  obtain ⟨step, hcur⟩ := isSome_iff_exists.1 (hc.current (by
    rw [hstatus]
    cases phase <;> rfl))
  obtain ⟨t, hg⟩ := (timed_run o ops).guarded i step phase hinst hphase hstatus hcur
  exact ⟨step, t, hcur, hg.mem, hg.live, hg.scope, hg.kind, hg.latest, hg.version,
    fun _ _ _ _ h => Orchestrator.fireTimer_acts hinst hg hstatus hcur h⟩

/-- A saga that was started and paused keeps the timeout of its first command. -/
theorem timeout_run_paused :
    ∃ i t, (TwoSteps.orchestrator.run [TwoSteps.start, .pause (TwoSteps.call "p")]).inst = some i ∧
      i.controlState = .paused ∧
      t ∈ (TwoSteps.orchestrator.run [TwoSteps.start, .pause (TwoSteps.call "p")]).timers ∧
      t.live = true ∧ t.kind = .stepTimeout ∧ t.expectedSagaVersion = i.version := by
  have hst : (orchestrator.run [start, .pause (call "p")]).inst.map
      (fun i => (i.controlState, i.status)) = some (.paused, .running) := by
    decide +kernel
  obtain ⟨i, hinst, hi⟩ := map_eq_some_iff.1 hst
  obtain ⟨hcont, hstat⟩ := Prod.mk.inj hi
  obtain ⟨step, t, -, hmem, hlive, -, hkind, -, hvers, -⟩ :=
    timeout_run orchestrator _ i .execute hinst (by decide) hstat
  exact ⟨i, t, hinst, hcont, hmem, hlive, hkind, hvers⟩

open Orchestrator SagaTransitionRow Db

variable {dir : Direction} {t' : SagaTimerRow}

/-! ## Waiting periods -/

/-- The transition leads into `WAITING_RESOLUTION` from another status. -/
def SagaTransitionRow.entersWaiting (t : SagaTransitionRow) : Bool :=
  t.toState = .waitingResolution && t.fromState ≠ some .waitingResolution

/-- The number of the transition that entered the current waiting period. -/
def waitingSince (transitions : List SagaTransitionRow) : Option Nat :=
  (transitions.reverse.find? (·.entersWaiting)).map (·.transitionSeq)

theorem waitingSince_concat (transitions : List SagaTransitionRow) (t : SagaTransitionRow) :
    waitingSince (transitions ++ [t]) =
      if t.entersWaiting then some t.transitionSeq else waitingSince transitions := by
  rw [waitingSince, List.reverse_append, List.reverse_singleton, List.singleton_append,
    List.find?_cons]
  cases h : t.entersWaiting <;> simp [waitingSince]

/-- An operation that makes the instance wait for the resolution of a step, if it is accepted; the
attempt is the one its budget is named by. -/
inductive Db.Enters (db : Db) : Op → StepName → Direction → AttemptNo → Prop
  | execute {e producer now i} (inst : db.inst = some i) (status : i.status = .running)
      (cur : i.currentStep = some e.step) (phase : e.phase = .execute)
      (unknown : e.status = .unknown) : Enters db (.result e producer now) e.step .forward e.attempt
  | cancel {e producer now i} (inst : db.inst = some i) (status : i.status = .cancelling)
      (cur : i.currentStep = some e.step) (phase : e.phase = .cancel)
      (unsettled : e.status = .resolutionPending) :
      Enters db (.result e producer now) e.step .forward e.attempt
  | compensate {e producer now i} (inst : db.inst = some i) (status : i.status = .compensating)
      (cur : i.currentStep = some e.step) (phase : e.phase = .compensate)
      (unknown : e.status = .unknown) :
      Enters db (.result e producer now) e.step .compensating e.attempt
  | timeout {t token now i step} (inst : db.inst = some i) (status : i.status = .running)
      (cur : i.currentStep = some step) (mem : t ∈ db.timers)
      (kind : t.kind = .stepTimeout ∨ t.kind = .instanceDeadline) :
      Enters db (.fire t.timerId token now) step .forward t.attempt
  | retry {call now i step} (inst : db.inst = some i) (status : i.status = .manualIntervention)
      (cur : i.currentStep = some step) :
      Enters db (.retryResolution call now) step i.direction (db.nextAttemptNo step .resolve)

/-- No wait is started under the key of a budget that exists. -/
def Db.FreshBudget (db : Db) (op : Op) : Prop :=
  ∀ step dir n, db.Enters op step dir n →
    ∀ t ∈ db.timers, t.is (.step step) (resolutionBudgetKind dir) n = false

/-- No wait is started while a budget is alive. -/
def Db.SpentBudgets (db : Db) (op : Op) : Prop :=
  ∀ step dir n, db.Enters op step dir n → ∀ t ∈ db.timers, t.kind.isBudget = true → t.live = false

theorem Waits.enters (h : Waits i db1 k dir n) (har : Arises o i db op k)
    (hinst : db.inst = some i) (hcur : i.currentStep = some step) (q : Quiet i k m db db1) :
    db.Enters op step dir n := by
  have hres {c : ResultContext} {p : StepPhase} (har : Arises o i db op (.result c))
      (hhot : c.Hot) (hph : c.phase = p) :
      ∃ e producer now, op = .result e producer now ∧ i.status = p.hotStatus ∧ e.phase = p ∧
        e.status = c.status ∧ step = e.step ∧ c.attempt = e.attempt := by
    cases har with
    | @result e producer now _ hcinst hdef hstepDef hide hs hall hflight =>
      subst hcinst
      have hstep := some.inj (hcur.symm.trans hhot.2)
      refine ⟨e, producer, now, rfl, hph ▸ hhot.1, ?_, hs.symm, ?_, ?_⟩
      · exact (congrArg VerifiedIdentity.phase hide).symm.trans hph
      · exact hstep.trans (congrArg VerifiedIdentity.step hide)
      · exact congrArg VerifiedIdentity.attempt hide
  cases h with
  | @execute c hhot hph hstat =>
    obtain ⟨e, producer, now, rfl, hi, hp, hs, rfl, hn⟩ := hres har hhot hph
    rw [hn]
    exact .execute hinst hi hcur hp (hs.trans hstat)
  | @cancel c hhot hph hstat =>
    obtain ⟨e, producer, now, rfl, hi, hp, hs, rfl, hn⟩ := hres har hhot hph
    rw [hn]
    exact .cancel hinst hi hcur hp (hs.trans hstat)
  | @compensate c hhot hph hstat =>
    obtain ⟨e, producer, now, rfl, hi, hp, hs, rfl, hn⟩ := hres har hhot hph
    rw [hn]
    exact .compensate hinst hi hcur hp (hs.trans hstat)
  | timeout hstat hkind =>
    cases har with
    | timer hmem hheld => exact .timeout hinst hstat hcur hmem hkind
  | retry hstat hcur' =>
    have hatts : db1.attempts = db.attempts := by
      have hid := q.attempts.map_eq id fun _ _ _ hch => (by cases hch)
      rwa [List.map_id, List.map_id] at hid
    have hnext : db1.nextAttemptNo step .resolve = db.nextAttemptNo step .resolve := by
      rw [nextAttemptNo, nextAttemptNo, attemptNos, attemptNos, hatts]
    rw [some.inj (hcur'.symm.trans hcur), hnext]
    cases har
    exact .retry hinst hstat hcur

theorem Waits.status_ne (h : Waits i db k dir n) (hk : k.On i) :
    i.status ≠ .waitingResolution := by
  have hres {c : ResultContext} {p : StepPhase} (hhot : c.Hot) (hc : c.inst = i)
      (hph : c.phase = p) (hp : p ≠ .resolve) : i.status ≠ .waitingResolution := by
    rw [← hc, hhot.1, hph]
    cases p <;> first | exact absurd rfl hp | nofun
  cases h with
  | @execute c hhot hph hstat | @cancel c hhot hph hstat
  | @compensate c hhot hph hstat => exact hres hhot (hk c rfl) hph (by decide)
  | timeout hstat hkind | retry hstat hcur =>
    rw [hstat]
    decide

theorem Waits.since {cur : Option StepName} (h : Waits i db k dir n)
    (hk : k.On i) :
    waitingSince (db.advance i (k.spec i .waitingResolution dir cur none none)).transitions =
      some (i.version + 1) := by
  change waitingSince (db.transitions ++ [_]) = _
  rw [waitingSince_concat, if_pos]
  simp [entersWaiting, Cause.spec, transitionSpec, h.status_ne hk]

/-! ## Every wait has its budget -/

/-- A live budget of this wait. -/
structure Db.Budgets (db : Db) (i : SagaInstanceRow) (step : StepName) (t : SagaTimerRow) :
    Prop where
  mem : t ∈ db.timers
  live : t.live = true
  scope : t.scope = .step step
  kind : t.kind = resolutionBudgetKind i.direction
  since : waitingSince db.transitions = some t.expectedSagaVersion

/-- While the instance waits, its wait has a live budget. -/
def Db.Budgeted (db : Db) : Prop :=
  ∀ i step, db.inst = some i → i.status = .waitingResolution → i.currentStep = some step →
    ∃ t, db.Budgets i step t

theorem Quiet.budgets (q : Quiet i k m db db') (hm : m ≠ .leave) (har : Arises o i db op k)
    (hnod : (db.timers.map (·.timerId)).Nodup) (hstat : i.status = .waitingResolution)
    (h : db.Budgets i step t) : db'.Budgets i step t := by
  have hbudg : t.kind.isBudget = true := by rw [h.kind, isBudget_resolutionBudgetKind]
  obtain ⟨t', ht', hch⟩ := q.timers.target h.mem
  obtain rfl : t' = t := by
    rcases hch with rfl | hch
    · rfl
    · cases hch with
      | leaving hdead => exact absurd rfl hm
      | deferred hcold hscope hkind =>
        rw [hkind, isBudget_phaseTimeoutKind] at hbudg
        cases hbudg
      | @fired t0 _ _ hid hstay hag =>
        obtain rfl := eq_of_key hnod h.mem har.timer_mem.1 hid
        cases m with
        | stay =>
          rcases hstay rfl with ⟨hph, -⟩ | ⟨-, hcold⟩
          · rw [h.kind] at hph
            cases hd : i.direction <;> rw [hd] at hph <;> cases hph
          · exact absurd hstat (hcold hbudg)
        | again =>
          rw [hag rfl] at hbudg
          cases hbudg
        | leave => exact absurd rfl hm
  exact ⟨ht', h.live, h.scope, h.kind, by rw [q.transitions]; exact h.since⟩

/-- A move into a wait schedules its budget, if the key is free. -/
theorem Move.budgets (h : Move o i k db db') (hk : k.On i)
    (hfresh : ∀ step dir n, Waits i db k dir n → i.currentStep = some step →
      ∀ t ∈ db.timers, t.is (.step step) (resolutionBudgetKind dir) n = false) :
    db'.Budgeted := by
  intro j step hj hstat hcur
  cases h with
  | escalate can =>
    cases hj
    cases hstat
  | finish guard can =>
    cases hj
    cases guard <;> cases hstat
  | send guard can issues =>
    rw [issues.inst, freezes_inst] at hj
    cases hj
    cases guard <;> cases hstat
  | @wait dir step' a due db1 _ guard hcur' can budget query =>
    obtain ⟨hinst, htrans⟩ := opened_inst budget query
    rw [hinst] at hj
    obtain rfl := some.inj hj
    obtain rfl := some.inj hcur
    let spec := o.timerSpec (.step step') (resolutionBudgetKind dir) a due (i.version + 1)
    have hnew : spec.row ∈ db1.timers := by
      rw [budget.1]
      exact schedule_new (hfresh step' dir a guard hcur')
    refine ⟨spec.row, ?_, rfl, rfl, rfl, ?_⟩
    · rcases query with rfl | ⟨n, issues⟩
      · exact hnew
      · exact issues.mem_timers_of_mem hnew
    · rw [htrans]
      exact guard.since hk
  | converge guard can hdb1 proof can' =>
    cases hj
    cases hstat

/-- **One step.** -/
theorem Step.budgeted (h : Step o db op db') (hb : db.Based o) (hfresh : db.FreshBudget op)
    (hJ : db.Budgeted) : db'.Budgeted := by
  rcases h.cases with started | kept | ⟨i, k, inst, -, arises, outcome⟩
  · intro j step hj hstat hcur
    rw [(started.running hj).1] at hstat
    cases hstat
  · intro j step hj hstat hcur
    obtain ⟨i, state, version, inst, rfl⟩ := kept.source hj
    obtain ⟨t, ht⟩ := hJ i step inst hstat hcur
    have hsince : waitingSince db'.transitions = some t.expectedSagaVersion := by
      rw [kept.transitions]
      exact ht.since
    obtain ⟨t', ht', hlease⟩ := kept.timers.target ht.mem
    rcases hlease with rfl | hlease
    · exact ⟨t', ht', ht.live, ht.scope, ht.kind, hsince⟩
    · exact ⟨t', ht', hlease.live.trans ht.live, hlease.scope.trans ht.scope,
        hlease.kind.trans ht.kind, hlease.expectedSagaVersion ▸ hsince⟩
  · cases outcome with
    | stay quiet =>
      intro j step hj hstat hcur
      rw [quiet.inst] at hj
      cases inst.symm.trans hj
      obtain ⟨t, ht⟩ := hJ i step inst hstat hcur
      exact ⟨t, quiet.budgets (by decide) arises hb.timers hstat ht⟩
    | again quiet reissue =>
      cases reissue with
      | @send step' phase n _ hph hstat' hcur' can issues =>
        intro j step hj hstat hcur
        rw [issues.inst] at hj
        cases hj
        cases hcur
        obtain ⟨t, ht⟩ := hJ i step' inst hstat hcur'
        have ht1 := quiet.budgets (by decide) arises hb.timers hstat ht
        refine ⟨t, issues.mem_timers_of_mem ht1.mem, ht1.live, ht1.scope, ht1.kind, ?_⟩
        -- the instance went from a wait to a wait
        have hstat : i.status = .waitingResolution := hstat
        rw [issues.transitions]
        change waitingSince (_ ++ [_]) = _
        rw [waitingSince_concat, if_neg]
        · exact ht1.since
        · simp [entersWaiting, hstat]
    | leave quiet move =>
      refine move.budgets arises.inst fun step dir n guard hcur t' ht' => ?_
      obtain ⟨t, ht, hages⟩ := quiet.timer_source ht'
      rw [hages.is]
      exact hfresh step dir n (guard.enters arises inst hcur quiet) t ht

/-! ## No other budget is alive -/

/-- The budget belongs to the wait the instance is in. -/
structure Db.Own (db : Db) (i : SagaInstanceRow) (t : SagaTimerRow) : Prop where
  scope : t.scope.stepScope = i.currentStep
  kind : t.kind = resolutionBudgetKind i.direction
  since : waitingSince db.transitions = some t.expectedSagaVersion

/-- While the instance waits, every live budget is that of its wait. -/
def Db.Orderly (db : Db) : Prop :=
  ∀ i, db.inst = some i → i.status = .waitingResolution →
    ∀ t ∈ db.timers, t.kind.isBudget = true → t.live = true → db.Own i t

variable {j : SagaInstanceRow}

theorem Db.Own.ages (h : db.Own i t) (hages : t.Ages t')
    (hi : j.currentStep = i.currentStep ∧ j.direction = i.direction)
    (hsince : waitingSince db'.transitions = waitingSince db.transitions) : db'.Own j t' := by
  refine ⟨?_, ?_, ?_⟩
  · rw [hages.scope, hi.1]
    exact h.scope
  · rw [hages.kind, hi.2]
    exact h.kind
  · rw [hsince, hages.expectedSagaVersion]
    exact h.since

/-- A move into a wait leaves no other budget alive, if none was. -/
theorem Move.orderly (h : Move o i k db db') (hk : k.On i)
    (hspent : ∀ step dir n, Waits i db k dir n → i.currentStep = some step →
      ∀ t ∈ db.timers, t.kind.isBudget = true → t.live = false) : db'.Orderly := by
  intro j hj hstat t ht hbudg hlive
  cases h with
  | escalate can =>
    cases hj
    cases hstat
  | finish guard can =>
    cases hj
    cases guard <;> cases hstat
  | send guard can issues =>
    rw [issues.inst, freezes_inst] at hj
    cases hj
    cases guard <;> cases hstat
  | @wait dir step a due db1 _ guard hcur can budget query =>
    obtain ⟨hinst, htrans⟩ := opened_inst budget query
    rw [hinst] at hj
    cases hj
    have hold : t ∈ db1.timers := by
      rcases query with rfl | ⟨n, issues⟩
      · exact ht
      · rcases issues.mem_timers ht with ht | ⟨-, hkind, -⟩
        · exact ht
        · rw [hkind, isBudget_phaseTimeoutKind] at hbudg
          cases hbudg
    rw [budget.1] at hold
    rcases mem_schedule hold with hold | ⟨rfl, -⟩
    · rw [hspent step dir a guard hcur t hold hbudg] at hlive
      cases hlive
    · refine ⟨rfl, rfl, ?_⟩
      rw [htrans]
      exact guard.since hk
  | converge guard can hdb1 proof can' =>
    cases hj
    cases hstat

/-- **One step.** -/
theorem Step.orderly (h : Step o db op db') (hspent : db.SpentBudgets op) (hJ : db.Orderly) :
    db'.Orderly := by
  rcases h.cases with started | kept | ⟨i, k, inst, -, arises, outcome⟩
  · intro j hj hstat
    rw [(started.running hj).1] at hstat
    cases hstat
  · intro j hj hstat t' ht' hbudg hlive
    obtain ⟨i, state, version, inst, rfl⟩ := kept.source hj
    obtain ⟨t, ht, hages⟩ := ages_of_rewrites kept.timers (fun _ _ => SagaTimerRow.Leased.ages) ht'
    refine (hJ i inst hstat t ht ?_ (hages.live hlive)).ages hages ⟨rfl, rfl⟩ ?_
    · rw [← hages.kind]
      exact hbudg
    · rw [kept.transitions]
  · cases outcome with
    | stay quiet =>
      intro j hj hstat t' ht' hbudg hlive
      rw [quiet.inst] at hj
      obtain ⟨t, ht, hages⟩ := quiet.timer_source ht'
      refine (hJ j hj hstat t ht ?_ (hages.live hlive)).ages hages ⟨rfl, rfl⟩ ?_
      · rw [← hages.kind]
        exact hbudg
      · rw [quiet.transitions]
    | @again db1 quiet reissue =>
      cases reissue with
      | @send step phase n _ hph hstat' hcur can issues =>
        intro j hj hstat t' ht' hbudg hlive
        rw [issues.inst] at hj
        cases hj
        have hstat : i.status = .waitingResolution := hstat
        have hold : t' ∈ db1.timers := by
          rcases issues.mem_timers ht' with ht | ⟨-, hkind, -⟩
          · exact ht
          · rw [hkind, isBudget_phaseTimeoutKind] at hbudg
            cases hbudg
        obtain ⟨t, ht, hages⟩ := quiet.timer_source hold
        refine (hJ i inst hstat t ht ?_ (hages.live hlive)).ages hages ⟨hcur.symm, rfl⟩ ?_
        · rw [← hages.kind]
          exact hbudg
        · rw [issues.transitions, ← quiet.transitions]
          change waitingSince (_ ++ [_]) = _
          rw [waitingSince_concat, if_neg]
          simp [entersWaiting, hstat]
    | leave quiet move =>
      refine move.orderly arises.inst fun step dir n guard hcur t' ht' hbudg => ?_
      obtain ⟨t, ht, hages⟩ := quiet.timer_source ht'
      have hdead := hspent step dir n (guard.enters arises inst hcur quiet) t ht
        (hages.kind ▸ hbudg)
      by_contra hlive
      rw [hages.live (by simpa using hlive)] at hdead
      cases hdead

/-- A budget that escalates was alive, in a wait. -/
theorem Step.escalates {token : String} {now : Int}
    (h : Step o db (.fire t.timerId token now) db') (hb : db.Based o) (hi : db.inst = some i)
    (ht : t ∈ db.timers) (hbudg : t.kind.isBudget = true) (hbef : i.status ≠ .manualIntervention)
    (hj : db'.inst = some j) (haft : j.status = .manualIntervention) :
    i.status = .waitingResolution ∧ t.live = true := by
  rcases h.cases with started | kept | ⟨_, k, inst, -, arises, outcome⟩
  · rw [started.vacant] at hi
    cases hi
  · obtain ⟨_, state, version, inst, rfl⟩ := kept.source hj
    cases inst.symm.trans hi
    exact absurd haft hbef
  · cases inst.symm.trans hi
    obtain ⟨t0, rfl, hid⟩ : ∃ t0, k = .timer t0 ∧ t.timerId = t0.timerId := by
      generalize hop : Op.fire t.timerId token now = op at arises
      cases arises with
      | timer hmem hheld =>
        injection hop with hid
        exact ⟨_, rfl, hid⟩
      | _ => cases hop
    obtain rfl := eq_of_key hb.timers ht arises.timer_mem.1 hid
    refine ⟨?_, arises.timer_mem.2⟩
    cases outcome with
    | stay quiet =>
      rw [quiet.inst] at hj
      cases hi.symm.trans hj
      exact absurd haft hbef
    | again quiet reissue =>
      obtain ⟨-, -, -, can, issues⟩ := reissue
      rw [issues.inst] at hj
      cases hj
      exact absurd haft hbef
    | leave quiet move =>
      cases move with
      | escalate can guard => exact guard t rfl hbudg
      | finish guard can =>
        cases hj
        cases guard <;> cases haft
      | send guard can issues =>
        rw [issues.inst, freezes_inst] at hj
        cases hj
        cases guard <;> cases haft
      | wait guard hcur can budget query =>
        rw [(opened_inst budget query).1] at hj
        cases hj
        cases haft
      | converge guard can hdb1 proof can' =>
        cases hj
        cases haft

/-! ## Every run -/

/-- **Every wait has a budget of its own**, if none is started under the key of an old one. -/
theorem budget_run (o : Orchestrator) (ops : List Op) (h : Along o.exec Db.FreshBudget {} ops)
    (i : SagaInstanceRow) (step : StepName) (hinst : (o.run ops).inst = some i)
    (hstatus : i.status = .waitingResolution) (hcur : i.currentStep = some step) :
    ∃ t ∈ (o.run ops).timers, t.live = true ∧ t.scope = .step step ∧
      t.kind = resolutionBudgetKind i.direction ∧
      waitingSince (o.run ops).transitions = some t.expectedSagaVersion := by
  have hJ : (o.run ops).Budgeted :=
    inv_run (J := Db.Budgeted) (P := Db.FreshBudget)
      (fun _ _ _ hb hJ hP hstep => hstep.budgeted hb hP hJ) (fun _ _ h => by cases h) h
  obtain ⟨t, ht⟩ := hJ i step hinst hstatus hcur
  exact ⟨t, ht.mem, ht.live, ht.scope, ht.kind, ht.since⟩

theorem TwoSteps.no_budget : ∀ t ∈ (orchestrator.run [start]).timers, t.kind.isBudget = false := by
  decide +kernel

/-- The first step of a saga has an unknown outcome: its wait has a budget. -/
theorem budget_run_first :
    ∃ t ∈ (orchestrator.run
        [start, result "a" .execute 1 .unknown 10]).timers,
      t.live = true ∧ t.scope = .step "a" ∧ t.kind = .forwardResolutionBudget := by
  have hst : (orchestrator.run
      [start, result "a" .execute 1 .unknown 10]).inst.map
        (fun i => (i.status, i.direction, i.currentStep)) =
      some (.waitingResolution, .forward, some "a") := by
    decide +kernel
  obtain ⟨i, hinst, hi⟩ := map_eq_some_iff.1 hst
  simp only [Prod.mk.injEq] at hi
  obtain ⟨hstat, hdir, hcur⟩ := hi
  have hal : Along orchestrator.exec Db.FreshBudget {}
      [start, result "a" .execute 1 .unknown 10] := by
    refine ⟨fun _ _ _ h => (by cases h), fun step dir n h t ht => ?_, trivial⟩
    have hkind := no_budget t ht
    by_contra his
    simp only [SagaTimerRow.is, Bool.not_eq_false, Bool.and_eq_true, decide_eq_true_eq] at his
    rw [his.1.2, isBudget_resolutionBudgetKind] at hkind
    cases hkind
  obtain ⟨t, ht, hlive, hscope, hkind, -⟩ := budget_run orchestrator _ hal i "a" hinst hstat hcur
  rw [hdir] at hkind
  exact ⟨t, ht, hlive, hscope, hkind⟩

/-- The compensation of a step is unknown twice. The first wait is escalated by its budget, which is
numbered by the first compensate attempt; an administrator starts a second one, whose budget is
numbered by the second resolve attempt and cancelled by its answer; the third is numbered by the
second compensate attempt. -/
def TwoSteps.unknownTwice : List Op :=
  [start, result "a" .execute 1 .succeeded 1, result "b" .execute 1 .rejected 2,
    result "a" .compensate 1 .unknown 3, claim 1003, fire "a" .compensationResolutionBudget 1 1003,
    .retryResolution (call "op1") 1010, result "a" .resolve 2 .rejected 1020,
    result "a" .compensate 2 .unknown 1030]

/-- In the third wait no budget is alive. -/
theorem budget_run_reused :
    let db := orchestrator.run unknownTwice
    db.inst.map (fun i => (i.status, i.direction, i.currentStep)) =
      some (.waitingResolution, .compensating, some "a") ∧
    ¬ ∃ t ∈ db.timers, t.live = true ∧ t.scope = .step "a" ∧
      t.kind = resolutionBudgetKind .compensating := by
  decide +kernel

/-- **A budget escalates its own wait only**, if no wait is started while a budget is alive. -/
theorem escalation_run (o : Orchestrator) (ops : List Op) (h : Along o.exec Db.SpentBudgets {} ops)
    (t : SagaTimerRow) (token : String) (now : Int) (i j : SagaInstanceRow)
    (hinst : (o.run ops).inst = some i) (ht : t ∈ (o.run ops).timers)
    (hbudget : t.kind.isBudget = true) (hbefore : i.status ≠ .manualIntervention)
    (hj : (o.run (ops ++ [.fire t.timerId token now])).inst = some j)
    (hafter : j.status = .manualIntervention) :
    i.status = .waitingResolution ∧ t.scope.stepScope = i.currentStep ∧
      t.kind = resolutionBudgetKind i.direction ∧
      waitingSince (o.run ops).transitions = some t.expectedSagaVersion := by
  have hJ : (o.run ops).Orderly :=
    inv_run (J := Db.Orderly) (P := Db.SpentBudgets)
      (fun _ _ _ _ hJ hP hstep => hstep.orderly hP hJ) (fun _ h => by cases h) h
  have hb := o.based_run ops
  rw [run_concat] at hj
  obtain ⟨hstat, hlive⟩ := (exec_step (o := o) hb.toKeyed _).escalates hb hinst ht
    hbudget hbefore hj hafter
  have hown := hJ i hinst hstat t ht hbudget hlive
  exact ⟨hstat, hown.scope, hown.kind, hown.since⟩

/-- The budget of the only wait of a saga escalates it. -/
theorem escalation_run_first :
    ∃ t ∈ (orchestrator.run [start, result "a" .execute 1 .unknown 10,
        claim 1015]).timers, t.kind.isBudget = true ∧ t.scope.stepScope = some "a" ∧
      waitingSince (orchestrator.run [start,
        result "a" .execute 1 .unknown 10, claim 1015]).transitions =
          some t.expectedSagaVersion := by
  have hstat : let db := orchestrator.run [start, result "a" .execute 1 .unknown 10, claim 1015]
      let db' := orchestrator.exec db (fire "a" .forwardResolutionBudget 1 1015)
      db.inst.map (fun i => (i.status, i.currentStep)) = some (.waitingResolution, some "a") ∧
        db'.inst.map (·.status) = some .manualIntervention ∧
        ∃ t ∈ db.timers, t.kind.isBudget = true ∧
          t.timerId = hashes.timerId "saga" (.step "a") .forwardResolutionBudget 1 := by
    decide +kernel
  simp only [← run_concat] at hstat
  obtain ⟨hbef, haft, t, ht, hbudg, hid⟩ := hstat
  obtain ⟨i, hinst, hi⟩ := map_eq_some_iff.1 hbef
  obtain ⟨hstatus, hcur⟩ := Prod.mk.inj hi
  obtain ⟨j, hj, hman⟩ := map_eq_some_iff.1 haft
  have hal : Along orchestrator.exec Db.SpentBudgets {}
      [start, result "a" .execute 1 .unknown 10, claim 1015] := by
    refine ⟨fun _ _ _ h => (by cases h), fun step dir n h t ht hbudg => ?_,
      fun _ _ _ h => (by cases h), trivial⟩
    rw [no_budget t ht] at hbudg
    cases hbudg
  rw [fire, ← hid] at hj
  obtain ⟨-, hscope, -, hsince⟩ := escalation_run orchestrator _ hal t "tok" 1015 i j
    hinst ht hbudg (by rw [hstatus]; decide) hj hman
  exact ⟨t, ht, hbudg, hscope.trans hcur, hsince⟩

/-- A wait is ended by a halted answer, which escalates the instance; an administrator starts
another one. -/
def TwoSteps.askedAgain : List Op :=
  [start, result "a" .execute 1 .unknown 10, result "a" .resolve 1 .halted 20,
    .retryResolution (call "op1") 30, claim 1015]

/-- The budget of the first wait escalates the second one. -/
theorem escalation_run_outlived :
    let db := orchestrator.run askedAgain
    let db' := orchestrator.run (askedAgain ++ [fire "a" .forwardResolutionBudget 1 1015])
    db.inst.map (·.status) = some .waitingResolution ∧
    db'.inst.map (·.status) = some .manualIntervention ∧
    ∃ t ∈ db.timers, t.kind.isBudget = true ∧
      t.timerId = hashes.timerId "saga" (.step "a") .forwardResolutionBudget 1 ∧
      waitingSince db.transitions ≠ some t.expectedSagaVersion := by
  simp only [run_concat]
  decide +kernel

end NasaRuntime.Saga
