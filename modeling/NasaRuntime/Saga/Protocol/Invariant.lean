import NasaRuntime.Lib.Run
import NasaRuntime.Saga.Protocol.Refinement

/-!
# Frames and the base invariant

Frame lemmas, table by table, for the writes that a step of the protocol is made of: scheduling a
timer, issuing a command, marking a plan. Together with `Quiet` they say what became of any row.

Every other invariant is proved on top of this one: the keys of step rows and timers are unique, the
step rows are the steps of the definition in their order, and the status of the instance fits its
direction, its plan and its current step.

**Theorem (`Orchestrator.based_run`).** Whatever operations are run from an empty store, and in
whatever order, the store they leave is `Based`.

**Theorem (`Step.timer_source`).** Every timer after a step is one from before the step, aged, or
new: the timeout of a command that was just issued, the budget of a wait that was just entered, or
the deadline of an instance that was just created.
-/

namespace NasaRuntime.Saga

section

open Table List Db

variable {o : Orchestrator} {i : SagaInstanceRow} {k : Cause} {m : Mode} {db db1 db' : Db}
variable {r r' : SagaStepRow} {spec : TimerSpec}

/-! ## Scheduling -/

section
variable (db : Db) (spec : TimerSpec)

theorem Db.schedule_eq : db.schedule spec = { db with timers := (db.schedule spec).timers } := by
  unfold schedule
  split <;> rfl

theorem Db.deadline_eq {db db' : Db} {spec : Int → TimerSpec}
    (h : db' = db ∨ ∃ due, db.Schedules (spec due) db') : ∃ timers, db' = { db with timers } := by
  rcases h with rfl | ⟨due, rfl, -⟩
  · exact ⟨_, rfl⟩
  · exact ⟨_, db.schedule_eq _⟩

@[simp] theorem Db.schedule_inst : (db.schedule spec).inst = db.inst := by
  rw [schedule_eq]

@[simp] theorem Db.schedule_steps : (db.schedule spec).steps = db.steps := by
  rw [schedule_eq]

@[simp] theorem Db.schedule_attempts : (db.schedule spec).attempts = db.attempts := by
  rw [schedule_eq]

@[simp] theorem Db.schedule_transitions : (db.schedule spec).transitions = db.transitions := by
  rw [schedule_eq]

@[simp] theorem Db.schedule_outbox : (db.schedule spec).outbox = db.outbox := by
  rw [schedule_eq]

end

variable {t : SagaTimerRow} {phase : StepPhase} {step : StepName} {version : Nat}
  {plan : CompensationPlan} {a' : SagaStepAttemptRow}

theorem Db.mem_schedule_of_mem (ht : t ∈ db.timers) : t ∈ (db.schedule spec).timers := by
  unfold schedule
  split
  · exact ht
  · exact mem_append_left _ ht

theorem Db.mem_schedule (ht : t ∈ (db.schedule spec).timers) :
    t ∈ db.timers ∨ (t = spec.row ∧
      ∀ t' ∈ db.timers, t'.is spec.scope spec.kind spec.attempt = false) := by
  unfold schedule at ht
  split at ht
  · exact .inl ht
  · rename_i hnone
    rcases mem_append.1 ht with ht | ht
    · exact .inl ht
    · exact .inr ⟨mem_singleton.1 ht, by simpa using hnone⟩

theorem Db.schedule_new (hnew : ∀ t ∈ db.timers, t.is spec.scope spec.kind spec.attempt = false) :
    spec.row ∈ (db.schedule spec).timers := by
  have hnone : ¬ db.timers.any (·.is spec.scope spec.kind spec.attempt) = true := by
    simpa using hnew
  rw [schedule, if_neg hnone]
  exact mem_append_right _ mem_cons_self

theorem Db.Schedules.nodup (h : db.Schedules spec db')
    (hn : (db.timers.map (·.timerId)).Nodup) : (db'.timers.map (·.timerId)).Nodup := by
  obtain ⟨rfl, hid⟩ := h
  unfold schedule
  split
  · exact hn
  · rename_i hnone
    change ((db.timers ++ [spec.row]).map _).Nodup
    rw [map_append, nodup_append]
    refine ⟨hn, nodup_singleton _, ?_⟩
    rintro _ ha _ hb rfl
    obtain ⟨t, ht, hta⟩ := mem_map.1 ha
    have hb := mem_singleton.1 hb
    exact hid (by simpa using hnone) t ht (hta.trans hb)

/-! ## Issuing -/

section
variable {step : StepName} {phase : StepPhase} {n : AttemptNo} {version : Nat}

namespace Db.Issues

variable (h : Db.Issues o i step phase n version db db')
include h

theorem inst : db'.inst = db.inst := by
  obtain ⟨_, _, -, rfl, -⟩ := h
  exact schedule_inst _ _

theorem transitions : db'.transitions = db.transitions := by
  obtain ⟨_, _, -, rfl, -⟩ := h
  exact schedule_transitions _ _

theorem fresh : db.FreshAttempt step phase n := by
  obtain ⟨_, _, hfresh, -⟩ := h
  exact hfresh

theorem steps : db'.steps = updateWhere (·.step = step) (·.project phase n) db.steps := by
  obtain ⟨_, _, -, rfl, -⟩ := h
  exact schedule_steps _ _

theorem attempts : ∃ row : SagaStepAttemptRow, db'.attempts = db.attempts ++ [row] ∧
    row.step = step ∧ row.phase = phase ∧ row.attempt = n ∧ row.status = .started := by
  obtain ⟨recovery, _, -, rfl, -⟩ := h
  exact ⟨_, schedule_attempts _ _, rfl, rfl, rfl, rfl⟩

theorem outbox : ∃ command : SagaCommandEnvelope, db'.outbox = db.outbox ++ [command] ∧
    command.step = step ∧ command.phase = phase ∧ command.attempt = n := by
  obtain ⟨recovery, _, -, rfl, -⟩ := h
  exact ⟨_, schedule_outbox _ _, rfl, rfl, rfl⟩

theorem nodup (hn : (db.timers.map (·.timerId)).Nodup) : (db'.timers.map (·.timerId)).Nodup := by
  obtain ⟨_, _, -, hs⟩ := h
  exact hs.nodup hn

/-- The timers: those that were there, and perhaps the timeout of the command. -/
theorem mem_timers (ht : t ∈ db'.timers) :
    t ∈ db.timers ∨ (t.scope = .step step ∧ t.kind = phaseTimeoutKind phase ∧ t.attempt = n ∧
      t.expectedSagaVersion = version) := by
  obtain ⟨_, _, -, rfl, -⟩ := h
  rcases mem_schedule ht with ht | ⟨rfl, -⟩
  · exact .inl ht
  · exact .inr ⟨rfl, rfl, rfl, rfl⟩

theorem mem_timers_of_mem (ht : t ∈ db.timers) : t ∈ db'.timers := by
  obtain ⟨_, _, -, rfl, -⟩ := h
  exact mem_schedule_of_mem ht

end Db.Issues

end

/-- A command is sent and its attempt started, by an instance that now waits for it. -/
structure Sent (db : Db) (attempts : List SagaStepAttemptRow) (outbox : List SagaCommandEnvelope)
    (row : SagaStepAttemptRow) (command : SagaCommandEnvelope) : Prop where
  attempts_eq : db.attempts = attempts ++ [row]
  outbox_eq : db.outbox = outbox ++ [command]
  hot : ∃ i, db.inst = some i ∧ i.status = command.phase.hotStatus ∧
    i.currentStep = some command.step
  step : row.step = command.step
  phase : row.phase = command.phase
  attempt : row.attempt = command.attempt
  started : row.status = .started
  fresh : ∀ a ∈ attempts, a.step = row.step → a.phase = row.phase → a.attempt < row.attempt

theorem Db.Issues.sent {n : AttemptNo}
    {i' : SagaInstanceRow} (h : Issues o i step phase n version db db')
    (hinst : db.inst = some i') (hstat : i'.status = phase.hotStatus)
    (hcur : i'.currentStep = some step) :
    ∃ row command, Sent db' db.attempts db.outbox row command := by
  obtain ⟨row, hatts, rfl, rfl, rfl, hstart⟩ := h.attempts
  obtain ⟨command, houtb, hstep, hph, hatt⟩ := h.outbox
  refine ⟨row, command, hatts, houtb, ⟨i', h.inst.trans hinst, ?_, ?_⟩, hstep.symm,
    hph.symm, hatt.symm, hstart, h.fresh.2⟩
  · rw [hph]
    exact hstat
  · rw [hstep]
    exact hcur

/-- The resolution is opened: a budget, and perhaps a query. -/
theorem Db.opened_inst (budget : db.Schedules spec db1)
    (query : db' = db1 ∨ ∃ n, Issues o i step .resolve n version db1 db') :
    db'.inst = db.inst ∧ db'.transitions = db.transitions := by
  obtain ⟨rfl, -⟩ := budget
  rcases query with rfl | ⟨n, issues⟩
  · exact ⟨schedule_inst _ _, schedule_transitions _ _⟩
  · exact ⟨issues.inst.trans (schedule_inst _ _),
      issues.transitions.trans (schedule_transitions _ _)⟩

/-! ## Marking a plan -/

/-- What `mark_compensation_plan` does to one row. -/
def CompensationPlan.markRow (plan : CompensationPlan) (r : SagaStepRow) : SagaStepRow :=
  plan.entries.foldl (fun r e => if r.step = e.step then r.mark plan.version e.order else r) r

theorem Db.markPlan_steps (db : Db) (plan : CompensationPlan) :
    (db.markPlan plan).steps = db.steps.map plan.markRow := by
  have hfold : ∀ (entries : List CompensationEntry) (rows : List SagaStepRow),
      entries.foldl (fun steps e => updateWhere (·.step = e.step)
        (·.mark plan.version e.order) steps) rows =
      rows.map fun r => entries.foldl
        (fun r e => if r.step = e.step then r.mark plan.version e.order else r) r := by
    intro entries
    induction entries with
    | nil => intro rows; exact (map_id rows).symm
    | cons e rest ih =>
      intro rows
      rw [foldl_cons, ih, updateWhere, map_map]
      refine map_congr_left fun r _ => ?_
      simp
  exact hfold plan.entries db.steps

theorem CompensationPlan.markRow_of_mem (h : r.step ∈ plan.entries.map (·.step)) :
    (plan.markRow r).compensationPlanVersion = some plan.version := by
  have hkeep : ∀ (entries : List CompensationEntry) (r : SagaStepRow),
      r.compensationPlanVersion = some plan.version → (entries.foldl
        (fun r e => if r.step = e.step then r.mark plan.version e.order else r)
          r).compensationPlanVersion = some plan.version := by
    intro entries
    induction entries with
    | nil => exact fun r hr => hr
    | cons e rest ih =>
      intro r hr
      rw [foldl_cons]
      refine ih _ ?_
      split
      · rfl
      · exact hr
  unfold CompensationPlan.markRow
  revert h
  induction plan.entries generalizing r with
  | nil =>
    nofun
  | cons e rest ih =>
    intro h
    rw [foldl_cons]
    by_cases he : r.step = e.step
    · rw [if_pos he]
      exact hkeep rest _ rfl
    · rw [if_neg he]
      refine ih ?_
      rcases mem_cons.1 h with h | h
      · exact absurd h he
      · exact h

theorem CompensationPlan.markRow_of_not_mem
    (h : r.step ∉ plan.entries.map (·.step)) : plan.markRow r = r := by
  unfold CompensationPlan.markRow
  revert h
  induction plan.entries with
  | nil => exact fun _ => rfl
  | cons e rest ih =>
    intro h
    rw [map_cons, mem_cons, not_or] at h
    rw [foldl_cons, if_neg h.1]
    exact ih h.2

/-- Only the attempt numbers and the marks differ; a mark opens a compensation that was not. -/
structure SagaStepRow.Tagged (r r' : SagaStepRow) : Prop where
  step : r'.step = r.step
  ordinal : r'.ordinal = r.ordinal
  forwardStatus : r'.forwardStatus = r.forwardStatus
  cancelStatus : r'.cancelStatus = r.cancelStatus
  resolutionStatus : r'.resolutionStatus = r.resolutionStatus
  compensationStatus : r'.compensationStatus = r.compensationStatus ∨
    (r.compensationStatus = .none ∧ r'.compensationStatus = .pending)

namespace SagaStepRow.Tagged

theorem refl (r : SagaStepRow) : r.Tagged r := ⟨rfl, rfl, rfl, rfl, rfl, .inl rfl⟩

theorem trans {r'' : SagaStepRow} (h : r.Tagged r') (h' : r'.Tagged r'') : r.Tagged r'' := by
  refine ⟨h'.step.trans h.step, h'.ordinal.trans h.ordinal,
    h'.forwardStatus.trans h.forwardStatus, h'.cancelStatus.trans h.cancelStatus,
    h'.resolutionStatus.trans h.resolutionStatus, ?_⟩
  rcases h.compensationStatus with he | ⟨hn, hp⟩
  · rw [← he]
    exact h'.compensationStatus
  · rcases h'.compensationStatus with he | ⟨hn', -⟩
    · exact .inr ⟨hn, he.trans hp⟩
    · rw [hp] at hn'
      cases hn'

theorem project (r : SagaStepRow) (phase : StepPhase) (n : AttemptNo) :
    r.Tagged (r.project phase n) := by
  unfold SagaStepRow.project
  split
  · cases phase <;> exact ⟨rfl, rfl, rfl, rfl, rfl, .inl rfl⟩
  · exact refl r

theorem mark (r : SagaStepRow) (version : String) (order : Nat) :
    r.Tagged (r.mark version order) := by
  refine ⟨rfl, rfl, rfl, rfl, rfl, ?_⟩
  by_cases h : r.compensationStatus = .none
  · exact .inr ⟨h, by simp [SagaStepRow.mark, h]⟩
  · exact .inl (by simp [SagaStepRow.mark, h])

theorem markRow (plan : CompensationPlan) (r : SagaStepRow) : r.Tagged (plan.markRow r) := by
  unfold CompensationPlan.markRow
  induction plan.entries generalizing r with
  | nil => exact refl r
  | cons e rest ih =>
    rw [foldl_cons]
    refine Tagged.trans ?_ (ih _)
    split
    · exact mark r plan.version e.order
    · exact refl r

end SagaStepRow.Tagged

section
variable (db : Db) (plan : Option CompensationPlan)

@[simp] theorem Db.freezes_inst : (db.freezes plan).inst = db.inst := by
  cases plan <;> rfl

@[simp] theorem Db.freezes_transitions : (db.freezes plan).transitions = db.transitions := by
  cases plan <;> rfl

@[simp] theorem Db.freezes_attempts : (db.freezes plan).attempts = db.attempts := by
  cases plan <;> rfl

@[simp] theorem Db.freezes_outbox : (db.freezes plan).outbox = db.outbox := by
  cases plan <;> rfl

@[simp] theorem Db.freezes_timers : (db.freezes plan).timers = db.timers := by
  cases plan <;> rfl

theorem Db.freezes_tagged : Rewrites SagaStepRow.Tagged db.steps (db.freezes plan).steps := by
  cases plan with
  | none => exact .refl _ _
  | some plan =>
    refine ⟨plan.markRow, db.markPlan_steps plan, fun r _ => .inr (.markRow plan r)⟩

end

/-! ## Outcomes -/

/-- A change of a row keeps its key, its attempt numbers and its marks. -/
theorem RowChange.keeps (h : RowChange i k m r r') :
    r'.step = r.step ∧ r'.ordinal = r.ordinal ∧ (∀ p, r'.attempt p = r.attempt p) ∧
      r'.compensationPlanVersion = r.compensationPlanVersion ∧
      r'.compensationOrder = r.compensationOrder := by
  cases h <;> exact ⟨rfl, rfl, fun p => by cases p <;> rfl, rfl, rfl⟩

/-- A result that is the cause is one of this instance. -/
abbrev Cause.On (k : Cause) (i : SagaInstanceRow) : Prop := ∀ c, k = .result c → c.inst = i

/-- A forward fact that is settled changes at most in the step a running instance is at. -/
theorem RowChange.forwardStatus (h : RowChange i k m r r')
    (hk : k.On i) : r'.forwardStatus = r.forwardStatus ∨
      r.forwardStatus.isOpen = true ∨ (i.status = .running ∧ i.currentStep = some r.step) := by
  have hmerge {c : ResultContext} {patch merged : StepJournalPatch}
      (hmerge : c.merge r patch = some merged) :
      (r.apply merged).forwardStatus = r.forwardStatus ∨ r.forwardStatus.isOpen = true :=
    (apply_merge (Orchestrator.merge_eq_some hmerge)).1.imp_right And.left
  cases h with
  | deferred _ _ _ _ hm | merged _ _ _ hm | mergedWaiting _ _ _ _ hm =>
    exact (hmerge hm).imp_right .inl
  | @executed c _ _ hstep hhot hph hpatch =>
    right
    right
    rw [← hk c rfl, hstep, hhot.1, hhot.2, hph]
    exact ⟨rfl, rfl⟩
  | compensated _ _ _ hforw =>
    left
    simp [SagaStepRow.apply, hforw]
  | timedOut hstat hcur => exact .inr (.inr ⟨hstat, hcur⟩)
  | reopenedCompensation _ | reopenedResolution _ => exact .inl rfl

/-- A compensation that succeeded can only be rewritten in the step that is being compensated. -/
theorem RowChange.compensated_keeps (h : RowChange i k m r r')
    (hk : k.On i) (hsucc : r.compensationStatus = .succeeded) :
    r'.compensationStatus = .succeeded ∨ i.currentStep = some r.step := by
  have hmerge {c : ResultContext} {patch merged : StepJournalPatch}
      (hmerge : c.merge r patch = some merged) :
      (r.apply merged).compensationStatus = .succeeded := by
    rcases (apply_merge (Orchestrator.merge_eq_some hmerge)).2.1 with he | ⟨hopen, -⟩
    · exact he.trans hsucc
    · rw [hsucc] at hopen
      cases hopen
  cases h with
  | deferred _ _ _ _ hm | merged _ _ _ hm | mergedWaiting _ _ _ _ hm => exact .inl (hmerge hm)
  | executed _ _ _ hpatch =>
    left
    simp [SagaStepRow.apply, hpatch.2.1, hsucc]
  | @compensated c _ _ hstep hhot =>
    right
    rw [← hk c rfl, hstep]
    exact hhot.2
  | timedOut _ _ hpatch =>
    left
    rcases hpatch with rfl | rfl <;> exact hsucc
  | reopenedCompensation hhalt =>
    rw [hsucc] at hhalt
    cases hhalt
  | reopenedResolution _ => exact .inl hsucc

/-- Which rows a change can touch. -/
theorem RowChange.touches (h : RowChange i k m r r') :
    (∃ c, k = .result c ∧ r.step = c.step) ∨ i.currentStep = some r.step ∨
      r.compensationStatus = .halted ∨ r.resolutionStatus = .halted := by
  cases h with
  | deferred hstep | merged hstep | mergedWaiting hstep | executed hstep | compensated hstep =>
    exact .inl ⟨_, rfl, hstep⟩
  | timedOut hstat hcur => exact .inr (.inl hcur)
  | reopenedCompensation hhalt => exact .inr (.inr (.inl hhalt))
  | reopenedResolution hhalt => exact .inr (.inr (.inr hhalt))

theorem Db.Issues.tagged {n : AttemptNo} (h : Issues o i step phase n version db db') :
    Rewrites SagaStepRow.Tagged db.steps db'.steps := by
  rw [h.steps]
  exact .of_update fun r _ _ => .project r phase n

theorem Reissue.tagged (h : Reissue o i k db db') :
    Rewrites SagaStepRow.Tagged db.steps db'.steps := by
  obtain ⟨-, -, -, can, issues⟩ := h
  exact issues.tagged

theorem Move.tagged (h : Move o i k db db') :
    Rewrites SagaStepRow.Tagged db.steps db'.steps := by
  cases h with
  | escalate can | finish guard can => exact .refl _ _
  | @send dst dir step _ plan _ _ guard can issues =>
    have hmks := freezes_tagged
      (db.advance i (k.spec i dst dir (some step) none (plan.map (·.version)))) plan
    exact hmks.trans issues.tagged fun _ _ _ => SagaStepRow.Tagged.trans
  | wait guard hcur can budget query =>
    obtain ⟨rfl, -⟩ := budget
    rcases query with rfl | ⟨n, issues⟩
    · rw [schedule_steps]
      exact .refl _ _
    · have htagg := issues.tagged
      rwa [schedule_steps] at htagg
  | @converge plan _ guard can hdb1 proof can' =>
    subst hdb1
    exact freezes_tagged (db.advance i _) plan

/-- **Facts.** The rows change as the cause says, and then in attempt numbers and marks only. -/
theorem Outcome.facts (h : Outcome o i k db db') :
    ∃ m steps, Rewrites (RowChange i k m) db.steps steps ∧
      Rewrites SagaStepRow.Tagged steps db'.steps := by
  cases h with
  | stay quiet => exact ⟨_, _, quiet.steps, .refl _ _⟩
  | again quiet reissue => exact ⟨_, _, quiet.steps, reissue.tagged⟩
  | leave quiet move => exact ⟨_, _, quiet.steps, move.tagged⟩

/-- **Keys.** No step row is added, removed or renamed. -/
theorem Outcome.keys (h : Outcome o i k db db') :
    db'.steps.map (fun r => (r.step, r.ordinal)) = db.steps.map (fun r => (r.step, r.ordinal)) := by
  obtain ⟨m, steps, hch, htagg⟩ := h.facts
  calc db'.steps.map (fun r => (r.step, r.ordinal))
      = steps.map (fun r => (r.step, r.ordinal)) :=
        htagg.map_eq _ fun r _ r' ht => by rw [ht.step, ht.ordinal]
    _ = db.steps.map (fun r => (r.step, r.ordinal)) :=
        hch.map_eq _ fun r _ r' hr => by rw [hr.keeps.1, hr.keeps.2.1]

/-- The primary key of an attempt, as a value. -/
def SagaStepAttemptRow.key (a : SagaStepAttemptRow) : StepName × StepPhase × AttemptNo :=
  (a.step, a.phase, a.attempt)

theorem AttemptChange.key {a : SagaStepAttemptRow} (h : AttemptChange k a a') : a'.key = a.key := by
  cases h
  rfl

theorem Quiet.attempt_source (q : Quiet i k m db db')
    (ha' : a' ∈ db'.attempts) : ∃ a ∈ db.attempts, a'.step = a.step ∧ a'.phase = a.phase ∧
      a'.attempt = a.attempt := by
  obtain ⟨a, ha, hch⟩ := q.attempts.source ha'
  rcases hch with rfl | hch
  · exact ⟨a', ha, rfl, rfl, rfl⟩
  · cases hch
    exact ⟨a, ha, rfl, rfl, rfl⟩

theorem TimerChange.timerId {t' : SagaTimerRow} (h : TimerChange i k m t t') :
    t'.timerId = t.timerId := by
  cases h <;> rfl

theorem Quiet.timerIds (q : Quiet i k m db db') :
    db'.timers.map (·.timerId) = db.timers.map (·.timerId) :=
  q.timers.map_eq _ fun _ _ _ h => h.timerId

theorem Db.cancelTimers_timerIds (db : Db) (scope : TimerScope) (kind : Option TimerKind) :
    (db.cancelTimers scope kind).timers.map (·.timerId) = db.timers.map (·.timerId) :=
  map_updateWhere _ fun _ => rfl

theorem Move.nodup (h : Move o i k db db') (hn : (db.timers.map (·.timerId)).Nodup) :
    (db'.timers.map (·.timerId)).Nodup := by
  cases h with
  | escalate can => exact hn
  | finish guard can =>
    rw [cancelTimers_timerIds]
    exact hn
  | send guard can issues =>
    refine issues.nodup ?_
    rw [freezes_timers]
    exact hn
  | wait guard hcur can budget query =>
    have hbudg := budget.nodup hn
    rcases query with rfl | ⟨n, issues⟩
    · exact hbudg
    · exact issues.nodup hbudg
  | converge guard can hdb1 proof can' =>
    subst hdb1
    rw [cancelTimers_timerIds]
    change (((db.advance i _).freezes _).timers.map _).Nodup
    rw [freezes_timers]
    exact hn

theorem Outcome.nodup (h : Outcome o i k db db') (hn : (db.timers.map (·.timerId)).Nodup) :
    (db'.timers.map (·.timerId)).Nodup := by
  cases h with
  | stay quiet =>
    rw [quiet.timerIds]
    exact hn
  | again quiet reissue =>
    obtain ⟨-, -, -, can, issues⟩ := reissue
    exact issues.nodup (by rw [← quiet.timerIds] at hn; exact hn)
  | leave quiet move => exact move.nodup (by rw [quiet.timerIds]; exact hn)

/-- The attempts and the outbox of a move. -/
theorem Move.sent (h : Move o i k db db') :
    (db'.attempts = db.attempts ∧ db'.outbox = db.outbox) ∨
      ∃ row command, Sent db' db.attempts db.outbox row command := by
  cases h with
  | escalate can | finish guard can => exact .inl ⟨rfl, rfl⟩
  | @send dst dir step phase plan n _ guard can issues =>
    have hsent := issues.sent (freezes_inst _ _) (by cases guard <;> rfl) rfl
    rw [freezes_attempts, freezes_outbox] at hsent
    exact .inr hsent
  | wait guard hcur can budget query =>
    obtain ⟨rfl, -⟩ := budget
    rcases query with rfl | ⟨n, issues⟩
    · exact .inl ⟨schedule_attempts _ _, schedule_outbox _ _⟩
    · have hsent := issues.sent (schedule_inst _ _) rfl rfl
      rw [schedule_attempts, schedule_outbox] at hsent
      exact .inr hsent
  | converge guard can hdb1 proof can' =>
    subst hdb1
    exact .inl ⟨freezes_attempts _ _, freezes_outbox _ _⟩

/-- **Sending.** An outcome settles attempts and sends at most one command, for which the instance
then waits. -/
theorem Outcome.sent (h : Outcome o i k db db') :
    ∃ attempts, Rewrites (AttemptChange k) db.attempts attempts ∧
      ((db'.attempts = attempts ∧ db'.outbox = db.outbox) ∨
        ∃ row command, Sent db' attempts db.outbox row command) := by
  cases h with
  | stay quiet => exact ⟨_, quiet.attempts, .inl ⟨rfl, quiet.outbox⟩⟩
  | again quiet reissue =>
    obtain ⟨-, hstat, hcur, can, issues⟩ := reissue
    refine ⟨_, quiet.attempts, .inr ?_⟩
    rw [← quiet.outbox]
    exact issues.sent rfl hstat rfl
  | leave quiet move =>
    refine ⟨_, quiet.attempts, ?_⟩
    rw [← quiet.outbox]
    exact move.sent

end

open Table List

variable {o : Orchestrator} {i : SagaInstanceRow} {k : Cause} {db db1 db' : Db} {op : Op}

/-! ## The instance -/

/-- The status of an instance fits its direction, its plan and its current step. -/
structure SagaInstanceRow.Coherent (i : SagaInstanceRow) : Prop where
  forward : i.status = .running ∨ i.status = .cancelling ∨ i.status = .completed →
    i.direction = .forward
  compensating : i.status = .compensating ∨ i.status = .compensated → i.direction = .compensating
  plan : i.compensationPlanVersion.isSome = true ↔ i.direction = .compensating
  current : i.status.isTerminal = false → i.currentStep.isSome = true
  ended : i.status.isTerminal = true → i.currentStep = none

variable {d : WorkflowDefinition}

namespace SagaInstanceRow.Coherent

theorem of_forwardSegment (hc : i.Coherent) (hseg : i.ForwardSegment) :
    i.direction = .forward := by
  rcases hseg with hs | hs | ⟨-, hd⟩
  · exact hc.forward (.inl hs)
  · exact hc.forward (.inr (.inl hs))
  · exact hd

theorem of_backSegment (hc : i.Coherent) (hseg : i.BackSegment) :
    i.direction = .compensating := by
  rcases hseg with hs | ⟨-, hd⟩
  · exact hc.compensating (.inl hs)
  · exact hd

theorem of_nextPendingCompensation {hs : Hashes}
    {steps : List SagaStepRow} {recovery : Bool} {next : Option StepName} (hc : i.Coherent)
    (h : nextPendingCompensation hs i d steps recovery = .ok next) :
    i.direction = .compensating := by
  refine hc.plan.1 ?_
  unfold nextPendingCompensation at h
  split at h
  · cases h
  · rename_i hplan
    rw [hplan]
    rfl

/-- An edge to a status that is not terminal, with a step, in the direction it had. -/
theorem advanced {spec : TransitionSpec} (hc : i.Coherent)
    (hterm : spec.toStatus.isTerminal = false) (hcur : spec.currentStep.isSome = true)
    (hforw : spec.toStatus = .running ∨ spec.toStatus = .cancelling → spec.direction = .forward)
    (hcomp : spec.toStatus = .compensating → spec.direction = .compensating)
    (hdir : spec.direction = i.direction) (hplan : spec.compensationPlanVersion = none) :
    (i.advanced spec).Coherent := by
  refine ⟨?_, ?_, ?_, fun _ => hcur, ?_⟩
  · rintro (h | h | h)
    · exact hforw (.inl h)
    · exact hforw (.inr h)
    · rw [show spec.toStatus = .completed from h] at hterm
      cases hterm
  · rintro (h | h)
    · exact hcomp h
    · rw [show spec.toStatus = .compensated from h] at hterm
      cases hterm
  · change (spec.compensationPlanVersion <|> i.compensationPlanVersion).isSome = true ↔
      spec.direction = .compensating
    rw [hplan, hdir]
    exact hc.plan
  · intro h
    rw [show spec.toStatus.isTerminal = true from h] at hterm
    cases hterm

end SagaInstanceRow.Coherent

theorem Waits.direction {dir : Direction} {a : AttemptNo} (hc : i.Coherent)
    (hk : k.On i) (h : Waits i db k dir a) : dir = i.direction := by
  cases h with
  | @execute c hhot hph hstat =>
    refine (hc.forward (.inl ?_)).symm
    rw [← hk c rfl, hhot.1, hph]
    rfl
  | @cancel c hhot hph hstat =>
    refine (hc.forward (.inr (.inl ?_))).symm
    rw [← hk c rfl, hhot.1, hph]
    rfl
  | @compensate c hhot hph hstat =>
    refine (hc.compensating (.inl ?_)).symm
    rw [← hk c rfl, hhot.1, hph]
    rfl
  | timeout hstat hkind => exact (hc.forward (.inl hstat)).symm
  | retry hstat hcur => rfl

theorem Arises.inst (h : Arises o i db op k) : k.On i := by
  rintro c rfl
  cases h
  assumption

theorem Arises.inFlight {c : ResultContext} (h : Arises o i db op (.result c)) :
    ∃ a ∈ db.attempts, a.step = c.step ∧ a.phase = c.phase ∧ a.attempt = c.attempt ∧
      a.status = .started := by
  cases h with
  | result _ _ _ _ _ _ hflight =>
    obtain ⟨a, hfind, hstart⟩ := hflight
    have his := find?_some hfind
    simp only [SagaStepAttemptRow.is, Bool.and_eq_true, decide_eq_true_eq] at his
    exact ⟨a, mem_of_find?_eq_some hfind, his.1.1, his.1.2, his.2, hstart⟩

theorem Arises.timer_mem {t : SagaTimerRow} (h : Arises o i db op (.timer t)) :
    t ∈ db.timers ∧ t.live = true := by
  cases h with
  | timer hmem hheld =>
    refine ⟨hmem, ?_⟩
    simp only [SagaTimerRow.heldBy, Bool.and_eq_true, decide_eq_true_eq] at hheld
    simp [SagaTimerRow.live, hheld.1.1]

/-- **What a move makes of the instance**: a row of the same definition that is coherent again. -/
theorem Move.coherent (h : Move o i k db db') (hk : k.On i)
    (hc : i.Coherent) :
    ∃ i', db'.inst = some i' ∧ o.definitionOf i' = o.definitionOf i ∧ i'.Coherent := by
  cases h with
  | escalate can =>
    refine ⟨_, rfl, rfl, hc.advanced rfl ?_ ?_ ?_ rfl rfl⟩
    · -- no edge leads from a terminal status to manual intervention
      refine hc.current ?_
      have hedge := can.edge
      cases hs : i.status <;> rw [hs] at hedge <;> first | rfl | cases hedge
    · nofun
    · nofun
  | finish guard can =>
    refine ⟨_, rfl, rfl, ?_⟩
    cases guard with
    | complete hseg hdef hnext =>
      have hdir := hc.of_forwardSegment hseg
      refine ⟨fun _ => rfl, ?_, ?_, nofun, fun _ => rfl⟩
      · nofun
      · change i.compensationPlanVersion.isSome = true ↔ _
        rw [hc.plan, hdir]
        exact Iff.rfl
    | close hman =>
      refine ⟨?_, ?_, hc.plan, nofun, fun _ => rfl⟩
      · rintro (h | h | h) <;> cases h
      · nofun
  | send guard can issues =>
    refine ⟨_, issues.inst.trans (Db.freezes_inst _ _), rfl, ?_⟩
    have hsend {dst : SagaStatus} {dir : Direction} {step : StepName}
        (hdir : dir = i.direction) (hterm : dst.isTerminal = false)
        (hforw : dst = .running ∨ dst = .cancelling → dir = .forward)
        (hback : dst = .compensating → dir = .compensating) :
        (i.advanced (k.spec i dst dir (some step) none none)).Coherent :=
      hc.advanced hterm rfl hforw hback hdir rfl
    cases guard with
    | forward hseg hdef hdone hnext =>
      exact hsend (hc.of_forwardSegment hseg).symm rfl (fun _ => rfl) nofun
    | barrier hcause hstat hcur hout =>
      exact hsend (hc.forward (.inl hstat)).symm rfl (fun _ => rfl) nofun
    | freeze hseg hdef hplan hfirst =>
      refine ⟨?_, fun _ => rfl, ⟨fun _ => rfl, fun _ => rfl⟩, fun _ => rfl, nofun⟩
      rintro (h | h | h) <;> cases h
    | next hseg hdef hnext =>
      refine hsend (hc.of_backSegment hseg).symm rfl ?_ fun _ => rfl
      nofun
    | requeue hstat hdir hcur =>
      refine hsend hdir.symm rfl ?_ fun _ => rfl
      nofun
    | recover hstat hdef hsteps hnext =>
      refine hsend (hc.of_nextPendingCompensation hnext).symm rfl ?_ fun _ => rfl
      nofun
  | @wait dir step _ _ _ _ guard hcur can budget query =>
    have hnext : (i.advanced (k.spec i .waitingResolution dir (some step) none none)).Coherent := by
      refine hc.advanced rfl rfl ?_ ?_ (guard.direction hc hk) rfl
      · nofun
      · nofun
    exact ⟨_, (Db.opened_inst budget query).1, rfl, hnext⟩
  | converge guard can hdb1 proof can' =>
    refine ⟨_, rfl, rfl, ?_, fun _ => rfl, ?_, nofun, fun _ => rfl⟩
    · rintro (h | h | h) <;> cases h
    · refine ⟨fun _ => rfl, fun _ => ?_⟩
      cases guard with
      | freeze hseg hdef hplan hemp => rfl
      | next hseg hdef hnext => exact hc.plan.2 (hc.of_backSegment hseg)
      | recover hstat hdef hnext => exact hc.plan.2 (hc.of_nextPendingCompensation hnext)

theorem Outcome.coherent (h : Outcome o i k db db') (hinst : db.inst = some i)
    (hk : k.On i) (hc : i.Coherent) :
    ∃ i', db'.inst = some i' ∧ o.definitionOf i' = o.definitionOf i ∧ i'.Coherent := by
  cases h with
  | stay quiet => exact ⟨i, quiet.inst.trans hinst, rfl, hc⟩
  | again quiet reissue =>
    cases reissue with
    | @send step phase n _ hph hstat hcur can issues =>
      refine ⟨_, issues.inst, rfl, hc.advanced ?_ rfl ?_ ?_ rfl rfl⟩
      · change i.status.isTerminal = false
        rw [hstat]
        cases phase <;> rfl
      · exact fun h => hc.forward (h.imp_right .inl)
      · exact fun h => hc.compensating (.inl h)
  | leave quiet move => exact move.coherent hk hc

/-! ## The store -/

/-- The step rows are the steps of the instance's definition, numbered from 1. -/
def Db.Laid (o : Orchestrator) (i : SagaInstanceRow) (db : Db) : Prop :=
  ∃ d, o.definitionOf i = some d ∧
    db.steps.map (fun r => (r.step, r.ordinal)) = d.names.zipIdx 1

theorem Db.Laid.quiet {m : Mode} (h : db.Laid o i) (q : Quiet i k m db db') : db'.Laid o i := by
  obtain ⟨d, hdef, hkeys⟩ := h
  refine ⟨d, hdef, ?_⟩
  rw [q.steps.map_eq _ fun r _ r' hr => by rw [hr.keeps.1, hr.keeps.2.1]]
  exact hkeys

/-- The invariant below all others. -/
structure Db.Based (o : Orchestrator) (db : Db) : Prop extends db.Keyed where
  coherent : ∀ i, db.inst = some i → i.Coherent
  laid : ∀ i, db.inst = some i → db.Laid o i

theorem Db.based_empty (o : Orchestrator) : Db.Based o {} := by
  refine ⟨⟨nodup_nil, nodup_nil, fun _ => ⟨rfl, rfl, rfl, rfl, rfl⟩⟩, ?_, ?_⟩ <;>
    · intro i h
      cases h

theorem Db.Laid.names (h : db.Laid o i)
    (hdef : o.definitionOf i = some d) : db.steps.map (·.step) = d.names := by
  obtain ⟨d', hdef', hkeys⟩ := h
  obtain rfl := Option.some.inj (hdef'.symm.trans hdef)
  calc db.steps.map (·.step)
      = (db.steps.map (fun r => (r.step, r.ordinal))).map Prod.fst := by
        rw [map_map]
        rfl
    _ = d'.names := by rw [hkeys, zipIdx_map_fst]

theorem Db.Laid.nodup (h : db.Laid o i) : (db.steps.map (·.step)).Nodup := by
  obtain ⟨d, hdef, -⟩ := id h
  rw [h.names hdef]
  exact d.names_nodup

theorem Db.Laid.ordered (h : db.Laid o i) : db.steps.Pairwise (·.ordinal < ·.ordinal) := by
  obtain ⟨d, -, hkeys⟩ := h
  have hord : db.steps.map (·.ordinal) = range' 1 d.names.length := by
    calc db.steps.map (·.ordinal)
        = (db.steps.map (fun r => (r.step, r.ordinal))).map Prod.snd := by
          rw [map_map]
          rfl
      _ = range' 1 d.names.length := by rw [hkeys, zipIdx_map_snd]
  have hsort := pairwise_lt_range' (s := 1) (n := d.names.length)
  rw [← hord] at hsort
  exact pairwise_map.1 hsort

theorem Started.running (h : Started o db db') (hi : db'.inst = some i) :
    i.status = .running ∧ i.compensationPlanVersion = none := by
  obtain ⟨-, row, d, first, kind, id, -, -, hstat, -, -, -, hplan, -, db1, issues, hdeadl⟩ := h
  obtain ⟨timers, rfl⟩ := Db.deadline_eq hdeadl
  cases issues.inst.symm.trans hi
  exact ⟨hstat, hplan⟩

theorem Started.based (h : Started o db db') (hb : db.Based o) : db'.Based o := by
  obtain ⟨hnone, row, d, first, kind, id, hdef, hfirst, hstat, -, hdir, hcur, hplan, -, db1,
    issues, hdeadl⟩ := h
  have hsteps : db1.steps.map (fun r => (r.step, r.ordinal)) = d.names.zipIdx 1 := by
    rw [issues.steps, map_updateWhere, map_map]
    · exact map_id _
    · intro r
      have htagg := SagaStepRow.Tagged.project r .execute 1
      rw [htagg.step, htagg.ordinal]
  have hnod1 : (db1.timers.map (·.timerId)).Nodup := issues.nodup hb.timers
  have hnod : (db'.timers.map (·.timerId)).Nodup := by
    rcases hdeadl with rfl | ⟨due, hsched⟩
    · exact hnod1
    · exact hsched.nodup hnod1
  obtain ⟨timers, rfl⟩ := Db.deadline_eq hdeadl
  have hinst : { db1 with timers }.inst = some row := issues.inst
  have hlaid : { db1 with timers }.Laid o row := ⟨d, hdef, hsteps⟩
  refine ⟨⟨hlaid.nodup, hnod, fun h => ?_⟩, fun i hi => ?_, fun i hi => ?_⟩
  · rw [hinst] at h
    cases h
  · cases hinst.symm.trans hi
    refine ⟨fun _ => hdir, ?_, ?_, fun _ => by rw [hcur]; rfl, ?_⟩
    · rw [hstat]
      nofun
    · rw [hplan, hdir]
      simp
    · rw [hstat]
      nofun
  · cases hinst.symm.trans hi
    exact hlaid

theorem Housekeeping.timerIds (h : Housekeeping db db') :
    db'.timers.map (·.timerId) = db.timers.map (·.timerId) :=
  h.timers.map_eq _ fun _ _ _ hl => hl.timerId

theorem Housekeeping.keyed (h : Housekeeping db db') (hinst : db'.inst = none → db.inst = none)
    (hk : db.Keyed) : db'.Keyed := by
  refine ⟨by rw [h.steps]; exact hk.steps, by rw [h.timerIds]; exact hk.timers, fun hnone => ?_⟩
  obtain ⟨hsteps, hatts, htim, htrans, houtb⟩ := hk.empty (hinst hnone)
  rw [h.steps, h.attempts, h.transitions, h.outbox]
  have hnil : db'.timers = [] := by
    have hids := h.timerIds
    rw [htim] at hids
    exact map_eq_nil_iff.1 hids
  exact ⟨hsteps, hatts, hnil, htrans, houtb⟩

/-- **One step.** -/
theorem Step.based (h : Step o db op db') (hb : db.Based o) : db'.Based o := by
  rcases h.cases with started | kept | ⟨i, k, inst, -, arises, outcome⟩
  · exact started.based hb
  · refine ⟨kept.keyed (fun h => ?_) hb.toKeyed, fun i' hi' => ?_, fun i' hi' => ?_⟩
    · obtain ⟨state, version, inst⟩ := kept.inst
      exact Option.map_eq_none_iff.1 (inst.symm.trans h)
    · obtain ⟨i, state, version, inst, rfl⟩ := kept.source hi'
      have hc := hb.coherent i inst
      exact ⟨hc.forward, hc.compensating, hc.plan, hc.current, hc.ended⟩
    · obtain ⟨i, state, version, inst, rfl⟩ := kept.source hi'
      obtain ⟨d, hdef, hkeys⟩ := hb.laid i inst
      exact ⟨d, hdef, by rw [kept.steps]; exact hkeys⟩
  · obtain ⟨i', hi', hdef', hc'⟩ := outcome.coherent inst arises.inst (hb.coherent _ inst)
    obtain ⟨d, hdef, hkeys⟩ := hb.laid _ inst
    have hlaid : db'.Laid o i' := ⟨d, hdef'.trans hdef, outcome.keys.trans hkeys⟩
    refine ⟨⟨hlaid.nodup, outcome.nodup hb.timers, fun h => ?_⟩, fun j hj => ?_, fun j hj => ?_⟩
    · rw [hi'] at h
      cases h
    · cases hi'.symm.trans hj
      exact hc'
    · cases hi'.symm.trans hj
      exact hlaid

/-- **Issuing.** An operation renames no attempt, and starts at most one, with its command. -/
theorem Step.issued (h : Step o db op db') :
    ∃ attempts, attempts.map SagaStepAttemptRow.key = db.attempts.map SagaStepAttemptRow.key ∧
      ((db'.attempts = attempts ∧ db'.outbox = db.outbox) ∨
        ∃ row command, Sent db' attempts db.outbox row command) := by
  rcases h.cases with started | kept | ⟨i, k, inst, -, arises, outcome⟩
  · obtain ⟨-, row, d, first, kind, id, -, -, hstat, -, -, hcur, -, -, db1, issues,
      hdeadl⟩ := started
    obtain ⟨attempt, command, hsent⟩ := issues.sent rfl hstat hcur
    refine ⟨_, rfl, .inr ⟨attempt, command, ?_⟩⟩
    obtain ⟨timers, rfl⟩ := Db.deadline_eq hdeadl
    exact { hsent with }
  · exact ⟨_, rfl, .inl ⟨kept.attempts, kept.outbox⟩⟩
  · obtain ⟨attempts, hatts, hsent⟩ := outcome.sent
    exact ⟨attempts, hatts.map_eq _ fun _ _ _ hch => hch.key, hsent⟩

/-- **Sending.** Whatever an operation sends, the instance then waits for it. -/
theorem Step.sent (h : Step o db op db') :
    ∃ sent, db'.outbox = db.outbox ++ sent ∧ ∀ command ∈ sent, ∃ i, db'.inst = some i ∧
      i.status = command.phase.hotStatus ∧ i.currentStep = some command.step := by
  obtain ⟨attempts, -, ⟨-, hsame⟩ | ⟨row, command, hsent⟩⟩ := h.issued
  · exact ⟨[], by rw [hsame, append_nil], nofun⟩
  · refine ⟨[command], hsent.outbox_eq, fun c hc => ?_⟩
    rw [mem_singleton.1 hc]
    exact hsent.hot

namespace Orchestrator

/-- The store after the operations, from an empty one. -/
def run (o : Orchestrator) (ops : List Op) : Db := runFrom o.exec {} ops

theorem run_append (o : Orchestrator) (ops later : List Op) :
    o.run (ops ++ later) = runFrom o.exec (o.run ops) later :=
  foldl_append

theorem run_concat (o : Orchestrator) (ops : List Op) (op : Op) :
    o.run (ops ++ [op]) = o.exec (o.run ops) op :=
  o.run_append ops [op]

theorem based_exec (hb : db.Based o) (op : Op) : (o.exec db op).Based o :=
  (exec_step hb.toKeyed op).based hb

/-- **Every run.** -/
theorem based_run (o : Orchestrator) (ops : List Op) : (o.run ops).Based o :=
  inv_runFrom_all (I := Db.Based o) (fun _ op hb => based_exec hb op) (Db.based_empty o) ops

/-- **Every operation of a run takes a step of the protocol.** -/
theorem refines_run (o : Orchestrator) (ops : List Op) (op : Op) :
    (o.run ops).Based o ∧ Step o (o.run ops) op (o.run (ops ++ [op])) := by
  have hb := o.based_run ops
  rw [run_concat]
  exact ⟨hb, exec_step hb.toKeyed op⟩

/-! ## The rule for further invariants -/

section
variable {J : Db → Prop} {P : Db → Op → Prop}

/-- An invariant of the protocol's steps is an invariant of the machine, on top of `Based` and
along any condition on the steps. -/
theorem inv_run (hJ : ∀ db op db', db.Based o → J db → P db op → Step o db op db' → J db')
    (hemp : J {}) {ops : List Op} (h : Along o.exec P {} ops) : J (o.run ops) := by
  refine (inv_runFrom (I := fun db => db.Based o ∧ J db) (fun db op hI hP => ?_)
    ⟨Db.based_empty o, hemp⟩ h).2
  exact ⟨based_exec hI.1 op, hJ db op _ hI.1 hI.2 hP (exec_step hI.1.toKeyed op)⟩

theorem inv_run_all (hJ : ∀ db op db', db.Based o → J db → Step o db op db' → J db')
    (hemp : J {}) (ops : List Op) : J (o.run ops) :=
  inv_run (P := fun _ _ => True) (fun db op db' hb hj _ hstep => hJ db op db' hb hj hstep) hemp
    (along_true _ ops)

end

end Orchestrator

variable {m : Mode} {t t' : SagaTimerRow}

/-! ## Ageing -/

/-- The same timer later: its key and its version are kept, and a dead one stays dead. -/
structure SagaTimerRow.Ages (t t' : SagaTimerRow) : Prop where
  timerId : t'.timerId = t.timerId
  scope : t'.scope = t.scope
  kind : t'.kind = t.kind
  attempt : t'.attempt = t.attempt
  expectedSagaVersion : t'.expectedSagaVersion = t.expectedSagaVersion
  live : t'.live = true → t.live = true

namespace SagaTimerRow.Ages

theorem refl (t : SagaTimerRow) : t.Ages t := ⟨rfl, rfl, rfl, rfl, rfl, id⟩

theorem trans {t'' : SagaTimerRow} (h : t.Ages t') (h' : t'.Ages t'') : t.Ages t'' :=
  ⟨h'.timerId.trans h.timerId, h'.scope.trans h.scope, h'.kind.trans h.kind,
    h'.attempt.trans h.attempt, h'.expectedSagaVersion.trans h.expectedSagaVersion,
    fun hl => h.live (h'.live hl)⟩

theorem unowned {state : TimerState} (hdead : state = .fired ∨ state = .cancelled) :
    t.Ages (t.unowned state) := by
  refine ⟨rfl, rfl, rfl, rfl, rfl, fun hl => ?_⟩
  rcases hdead with rfl | rfl <;> cases hl

theorem is (h : t.Ages t') (scope : TimerScope) (kind : TimerKind) (n : AttemptNo) :
    t'.is scope kind n = t.is scope kind n := by
  simp only [SagaTimerRow.is, h.scope, h.kind, h.attempt]

end SagaTimerRow.Ages

theorem TimerChange.ages (h : TimerChange i k m t t') : t.Ages t' := by
  cases h with
  | leaving hdead => exact .unowned hdead
  | deferred => exact .unowned (.inr rfl)
  | fired => exact .unowned (.inl rfl)

theorem SagaTimerRow.Leased.ages (h : t.Leased t') : t.Ages t' :=
  ⟨h.timerId, h.scope, h.kind, h.attempt, h.expectedSagaVersion, fun hl => h.live ▸ hl⟩

theorem ages_of_rewrites {R : SagaTimerRow → SagaTimerRow → Prop} {timers timers' : List SagaTimerRow}
    (h : Rewrites R timers timers') (hR : ∀ t t', R t t' → t.Ages t') (ht' : t' ∈ timers') :
    ∃ t ∈ timers, t.Ages t' := by
  obtain ⟨t, ht, hch⟩ := h.source ht'
  rcases hch with rfl | hch
  · exact ⟨t', ht, .refl t'⟩
  · exact ⟨t, ht, hR t t' hch⟩

theorem Quiet.timer_source (q : Quiet i k m db db') (ht' : t' ∈ db'.timers) :
    ∃ t ∈ db.timers, t.Ages t' :=
  ages_of_rewrites q.timers (fun _ _ => TimerChange.ages) ht'

theorem Db.cancelTimers_source {scope : TimerScope} {kind : Option TimerKind}
    (ht' : t' ∈ (db.cancelTimers scope kind).timers) : ∃ t ∈ db.timers, t.Ages t' := by
  refine ages_of_rewrites (R := SagaTimerRow.Ages) (.of_update fun t _ _ => ?_) (fun _ _ => id) ht'
  exact .unowned (.inr rfl)

/-! ## New timers -/

/-- A timer that the step into `db` scheduled. -/
inductive NewTimer (db : Db) (t : SagaTimerRow) : Prop
  | timeout {step phase} (scope : t.scope = .step step) (kind : t.kind = phaseTimeoutKind phase)
      (known : ∃ a ∈ db.attempts, a.key = (step, phase, t.attempt))
  | budget {i step} (inst : db.inst = some i) (status : i.status = .waitingResolution)
      (cur : i.currentStep = some step) (scope : t.scope = .step step)
      (kind : t.kind = resolutionBudgetKind i.direction)
      (version : t.expectedSagaVersion = i.version)
  | deadline (kind : t.kind = .instanceDeadline)

theorem Db.Issues.timer_source {step : StepName} {phase : StepPhase} {n : AttemptNo} {version : Nat}
    (h : Db.Issues o i step phase n version db db') (ht' : t' ∈ db'.timers) :
    t' ∈ db.timers ∨ NewTimer db' t' := by
  rcases h.mem_timers ht' with ht | ⟨hscope, hkind, hatt, -⟩
  · exact .inl ht
  · obtain ⟨row, hatts, hstep, hph, hn, -⟩ := h.attempts
    refine .inr (.timeout hscope hkind ⟨row, ?_, ?_⟩)
    · rw [hatts]
      exact List.mem_append_right _ List.mem_cons_self
    · rw [SagaStepAttemptRow.key, hstep, hph, hn, hatt]

theorem Move.timer_source (h : Move o i k db db') (ht' : t' ∈ db'.timers) :
    (∃ t ∈ db.timers, t.Ages t') ∨ NewTimer db' t' := by
  cases h with
  | escalate can => exact .inl ⟨t', ht', .refl t'⟩
  | finish guard can => exact .inl (Db.cancelTimers_source ht')
  | send guard can issues =>
    rcases issues.timer_source ht' with ht | hnew
    · rw [Db.freezes_timers] at ht
      exact .inl ⟨t', ht, .refl t'⟩
    · exact .inr hnew
  | @wait dir step a due db1 _ guard hcur can budget query =>
    have hop := (Db.opened_inst budget query).1
    -- the budget itself, or a timer from before
    have hbudg : t' ∈ db1.timers → (∃ t ∈ db.timers, t.Ages t') ∨ NewTimer db' t' := by
      intro ht
      rw [budget.1] at ht
      rcases Db.mem_schedule ht with ht | ⟨rfl, -⟩
      · exact .inl ⟨t', ht, .refl t'⟩
      · exact .inr (.budget hop rfl rfl rfl rfl rfl)
    rcases query with rfl | ⟨n, issues⟩
    · exact hbudg ht'
    · rcases issues.timer_source ht' with ht | hnew
      · exact hbudg ht
      · exact .inr hnew
  | converge guard can hdb1 proof can' =>
    subst hdb1
    obtain ⟨t, ht, hages⟩ := Db.cancelTimers_source ht'
    have ht : t ∈ ((db.advance i _).freezes _).timers := ht
    rw [Db.freezes_timers] at ht
    exact .inl ⟨t, ht, hages⟩

theorem Outcome.timer_source (h : Outcome o i k db db') (ht' : t' ∈ db'.timers) :
    (∃ t ∈ db.timers, t.Ages t') ∨ NewTimer db' t' := by
  cases h with
  | stay quiet => exact .inl (quiet.timer_source ht')
  | again quiet reissue =>
    obtain ⟨-, -, -, can, issues⟩ := reissue
    rcases issues.timer_source ht' with ht | hnew
    · exact .inl (quiet.timer_source ht)
    · exact .inr hnew
  | leave quiet move =>
    rcases move.timer_source ht' with ⟨t, ht, hages⟩ | hnew
    · obtain ⟨t0, ht0, hages0⟩ := quiet.timer_source ht
      exact .inl ⟨t0, ht0, hages0.trans hages⟩
    · exact .inr hnew

/-- **Timers of a step.** -/
theorem Step.timer_source (h : Step o db op db') (hb : db.Based o) (ht' : t' ∈ db'.timers) :
    (∃ t ∈ db.timers, t.Ages t') ∨ NewTimer db' t' := by
  rcases h.cases with started | kept | ⟨i, k, inst, -, arises, outcome⟩
  · obtain ⟨hvac, row, d, first, kind, id, -, -, -, -, -, -, -, -, db1, issues, hdeadl⟩ := started
    have hnone : db.timers = [] := (hb.empty hvac).2.2.1
    have hiss (ht : t' ∈ db1.timers) : NewTimer db1 t' := by
      rcases issues.timer_source ht with ht | hnew
      · have hold : t' ∈ db.timers := ht
        rw [hnone] at hold
        cases hold
      · exact hnew
    rcases hdeadl with rfl | ⟨due, rfl, -⟩
    · exact .inr (hiss ht')
    · rcases Db.mem_schedule ht' with ht | ⟨rfl, -⟩
      · cases hiss ht with
        | timeout scope kind known =>
          exact .inr (.timeout scope kind (by rw [Db.schedule_attempts]; exact known))
        | budget inst status cur scope kind version =>
          exact .inr (.budget (by rw [Db.schedule_inst]; exact inst) status cur scope kind version)
        | deadline kind => exact .inr (.deadline kind)
      · exact .inr (.deadline rfl)
  · exact .inl (ages_of_rewrites kept.timers (fun _ _ => SagaTimerRow.Leased.ages) ht')
  · exact outcome.timer_source ht'

end NasaRuntime.Saga
