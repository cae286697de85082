import NasaRuntime.Saga.Orchestrator.Machine
import NasaRuntime.Saga.Participant.Refinement

/-!
# What the gate guarantees

The row of a gate stands in a fixed relation to the history of what was decided there.

**Theorem (`consistent_run`).** It does (`Sound`, `Explains`) after every sequence of operations.

**Theorem (`gate_run`).** In every run

* an execution is committed at most once, never after a cancel was answered `CONFIRMED`, and it is
  followed by such an answer only if its own outcome was `UNKNOWN`;
* the compensate handler is entered only if the step succeeded, never after a compensation that
  was committed as `SUCCEEDED` or `UNKNOWN` unless a resolution has rejected it since, and, while
  the last word on the compensation is `HALTED`, only under the identity of a recovery;
* a forward status other than `UNKNOWN` never changes;
* the resolve handler is entered only for a fact that is `UNKNOWN`.

An external cancel may find out that an unknown effect did not take place, so a confirmed cancel
can follow an execution, and a halted compensation that was recovered and then rejected is open
again to any command (`gate_run_reopened`).

**Theorem (`cancel_run`).** The cancel status of every committed row agrees with its forward
status, and a cancel that is issued again is answered again, in the same way or with the terminal
status that a pending answer was promoted to.
-/

namespace NasaRuntime.Saga

open List

/-! ## The row -/

/-- The row is one that a committed transaction may leave. -/
structure ParticipantGateRow.Sound (p : Participant) (row : ParticipantGateRow) : Prop where
  decided : row.forwardStatus.isDecided
  compensation : row.compensationStatus ≠ .pending
  cancel : row.cancelStatus = .none ∨
    row.cancelStatus = row.forwardStatus.adjudication.cancelStatus
  executeEffect : row.executeEffectId = p.rowEffect row .execute
  cancelEffect : row.cancelStatus ≠ .none → row.cancelEffectId = some (p.rowEffect row .cancel)

variable {forward : StepForwardStatus} {row : ParticipantGateRow}

theorem ParticipantGateRow.promotedCancel_eq
    (status : StepResolutionStatus) (unknown : row.forwardStatus = .unknown)
    (cancel : row.cancelStatus = .none ∨
      row.cancelStatus = row.forwardStatus.adjudication.cancelStatus) :
    row.cancelStatus = .none ∧ row.promotedCancel status = .none ∨
      row.cancelStatus = .resolutionPending ∧ row.promotedCancel status =
        (status.toForward.getD row.forwardStatus).adjudication.cancelStatus := by
  unfold ParticipantGateRow.promotedCancel
  rw [unknown] at cancel ⊢
  rcases cancel with hc | hc
  · simp [hc]
  · right
    rw [hc]
    cases status <;> simp [StepForwardStatus.adjudication, CancelAdjudication.cancelStatus,
      StepResolutionStatus.toForward]

variable {events : List GateEvent} {p : Participant} {gate : Option ParticipantGateRow}
  {row' : ParticipantGateRow}

theorem GateMove.sound (m : GateMove p gate row' events)
    (h : ∀ row, gate = some row → row.Sound p) : row'.Sound p := by
  cases m with
  | execute key decided =>
    refine ⟨?_, nofun, .inl rfl, rfl, nofun⟩
    rename_i forward
    cases forward <;> first | rfl | cases decided
  | cancelFirst key decided => exact ⟨decided, nofun, .inr rfl, rfl, fun _ => rfl⟩
  | orphanCompensation key | orphanResolution key => exact ⟨rfl, nofun, .inl rfl, rfl, nofun⟩
  | adjudicate row first =>
    have hrow := h row rfl
    exact ⟨hrow.decided, hrow.compensation, .inr rfl, hrow.executeEffect, fun _ => rfl⟩
  | cancelUnknown row first unknown decided =>
    have hrow := h row rfl
    exact ⟨decided, hrow.compensation, .inr rfl, hrow.executeEffect, fun _ => rfl⟩
  | repeatCancel row holds => exact h _ rfl
  | refuseCompensation row notDone first =>
    have hrow := h row rfl
    exact ⟨hrow.decided, nofun, hrow.cancel, hrow.executeEffect, hrow.cancelEffect⟩
  | compensate row decided done open_ =>
    have hrow := h row rfl
    refine ⟨hrow.decided, ?_, hrow.cancel, hrow.executeEffect, hrow.cancelEffect⟩
    rintro rfl
    cases decided
  | markResolution row status =>
    have hrow := h row rfl
    exact ⟨hrow.decided, hrow.compensation, hrow.cancel, hrow.executeEffect, hrow.cancelEffect⟩
  | resolveForward row status unknown =>
    have hrow := h row rfl
    refine ⟨?_, hrow.compensation, ?_, hrow.executeEffect, ?_⟩
    · cases status <;> first | rfl | exact hrow.decided
    · exact (row.promotedCancel_eq status unknown hrow.cancel).imp And.right And.right
    · intro hc
      rcases row.promotedCancel_eq status unknown hrow.cancel with ⟨-, hnone⟩ | ⟨hpend, -⟩
      · exact absurd hnone hc
      · exact hrow.cancelEffect (by rw [hpend]; nofun)
  | resolveCompensation row status unknown =>
    have hrow := h row rfl
    refine ⟨hrow.decided, ?_, hrow.cancel, hrow.executeEffect, hrow.cancelEffect⟩
    cases status <;> first | exact hrow.compensation | nofun

/-! ## From one row to the next -/

/-- A cancel that was answered with `prior` may be answered with `next` later: the same
adjudication, or the terminal one that a pending one is promoted to. -/
def CancelAdjudication.Follows (next prior : CancelAdjudication) : Prop :=
  next = prior ∨ (prior = .resolutionPending ∧ ∃ forward, next = .alreadyTerminal forward)

theorem CancelAdjudication.Follows.trans {a b c : CancelAdjudication} (hab : b.Follows a)
    (hbc : c.Follows b) : c.Follows a := by
  rcases hab with rfl | ⟨rfl, forward, rfl⟩
  · exact hbc
  · rcases hbc with rfl | ⟨hb, -⟩
    · exact .inr ⟨rfl, forward, rfl⟩
    · cases hb

/-- What no command changes of a row: a forward status other than `UNKNOWN`, and an adjudication
other than by promotion. -/
structure ParticipantGateRow.Advances (row row' : ParticipantGateRow) : Prop where
  forward : row'.forwardStatus = row.forwardStatus ∨ row.forwardStatus = .unknown
  cancel : row.cancelStatus ≠ .none → row'.cancelStatus ≠ .none ∧
    row'.forwardStatus.adjudication.Follows row.forwardStatus.adjudication

theorem GateMove.advances
    (m : GateMove p (some row) row' events) (h : row.Sound p) : row.Advances row' := by
  cases m with
  | adjudicate _ first => exact ⟨.inl rfl, fun hc => absurd first hc⟩
  | cancelUnknown _ first unknown decided =>
    refine ⟨.inr (unknown.resolve_right fun ht => ?_), fun hc => absurd first hc⟩
    have hd := h.decided
    rw [ht] at hd
    cases hd
  | repeatCancel _ holds | refuseCompensation | compensate | markResolution | resolveCompensation =>
    exact ⟨.inl rfl, fun hc => ⟨hc, .inl rfl⟩⟩
  | resolveForward _ status unknown =>
    refine ⟨.inr unknown, fun hc => ?_⟩
    rcases row.promotedCancel_eq status unknown h.cancel with ⟨hnone, -⟩ | ⟨-, hprom⟩
    · exact absurd hnone hc
    · change row.promotedCancel status ≠ .none ∧ CancelAdjudication.Follows
        (status.toForward.getD row.forwardStatus).adjudication row.forwardStatus.adjudication
      rw [hprom, unknown]
      -- a resolution that settles the fact promotes the answer, any other repeats it
      cases status with
      | succeeded => exact ⟨nofun, .inr ⟨rfl, .succeeded, rfl⟩⟩
      | rejected => exact ⟨nofun, .inr ⟨rfl, .rejected, rfl⟩⟩
      | none | pending | halted => exact ⟨nofun, .inl rfl⟩

theorem GateMove.answers (m : GateMove p gate row' events)
    (h : ∀ row, gate = some row → row.Sound p) {adjudication : CancelAdjudication}
    (hmem : .cancelAnswered adjudication ∈ events) :
    row'.cancelStatus ≠ .none ∧ row'.forwardStatus.adjudication = adjudication := by
  have hne (forward : StepForwardStatus) : forward.adjudication.cancelStatus ≠ .none := by
    cases forward <;> nofun
  cases m with
  | cancelFirst key decided | adjudicate row first | cancelUnknown row first unknown decided =>
    cases mem_singleton.mp hmem
    exact ⟨hne _, rfl⟩
  | repeatCancel _ holds =>
    cases mem_singleton.mp hmem
    rcases (h _ rfl).cancel with hc | hc
    · simp [ParticipantGateRow.existingAdjudication, hc] at holds
    · rw [existingAdjudication_of_consistent hc] at holds
      exact ⟨hc ▸ hne _, Option.some.inj (Except.ok.inj holds)⟩
  | execute | orphanCompensation => cases mem_singleton.mp hmem
  | orphanResolution => cases hmem
  | refuseCompensation | compensate => cases mem_singleton.mp hmem
  | markResolution => cases hmem
  | resolveForward | resolveCompensation => cases mem_singleton.mp hmem

/-! ## The history -/

/-- What an event makes of the compensation status. -/
def StepCompensationStatus.after (status : StepCompensationStatus) :
    GateEvent → StepCompensationStatus
  | .compensated status' => status'
  | .resolved .compensation resolution => resolution.toCompensation.getD status
  | _ => status

/-- The events that may meet a compensation status. -/
def StepCompensationStatus.Allows (status : StepCompensationStatus) : GateEvent → Prop
  | .compensated _ => status = .none ∨ status = .halted
  | .resolved .compensation _ => status = .unknown
  | _ => True

/-- The history accounts for the row. -/
structure ParticipantGateRow.Explains (row : ParticipantGateRow) (history : List GateEvent) :
    Prop where
  first : ∀ status, .executed status ∉ history.tail
  executed : ∀ status, .executed status ∈ history →
    status.isExecuteAdjudication ∧ (status = .unknown ∨ row.forwardStatus = status)
  answered : ∀ adjudication, .cancelAnswered adjudication ∈ history →
    row.cancelStatus ≠ .none ∧ row.forwardStatus.adjudication.Follows adjudication
  compensation : row.compensationStatus = runFrom StepCompensationStatus.after .none history
  allowed : Along StepCompensationStatus.after StepCompensationStatus.Allows .none history

/-- The compensation status a gate starts from. -/
def gateCompensation (gate : Option ParticipantGateRow) : StepCompensationStatus :=
  gate.elim .none (·.compensationStatus)

theorem GateMove.compensation (m : GateMove p gate row' events) : row'.compensationStatus =
        runFrom StepCompensationStatus.after (gateCompensation gate) events ∧
      Along StepCompensationStatus.after StepCompensationStatus.Allows (gateCompensation gate)
        events := by
  cases m with
  | refuseCompensation row notDone first => exact ⟨rfl, .inl first, trivial⟩
  | compensate row decided done open_ => exact ⟨rfl, open_, trivial⟩
  | resolveCompensation row status unknown => exact ⟨rfl, unknown, trivial⟩
  | orphanCompensation key => exact ⟨rfl, .inl rfl, trivial⟩
  | orphanResolution key | markResolution row status => exact ⟨rfl, trivial⟩
  | execute key decided | cancelFirst key decided | adjudicate row first
  | cancelUnknown row first unknown decided | repeatCancel row holds
  | resolveForward row status unknown => exact ⟨rfl, trivial, trivial⟩

/-- Only a command that meets no row is executed, with a conclusion of the handler. -/
theorem GateMove.executes (m : GateMove p gate row' events)
    {status : StepForwardStatus} (h : .executed status ∈ events) :
    gate = none ∧ events = [.executed status] ∧ row'.forwardStatus = status ∧
      status.isExecuteAdjudication := by
  cases m <;> simp only [mem_singleton, not_mem_nil, reduceCtorEq, GateEvent.executed.injEq] at h
  case execute key forward decided =>
    subst h
    exact ⟨rfl, rfl, rfl, decided⟩

theorem GateMove.explains_first (m : GateMove p none row' events) : row'.Explains events where
  first status hmem := by
    obtain ⟨-, rfl, -⟩ := m.executes (mem_of_mem_tail hmem)
    cases hmem
  executed status hmem := by
    obtain ⟨-, -, hf, hs⟩ := m.executes hmem
    exact ⟨hs, .inr hf⟩
  answered adjudication hmem := by
    obtain ⟨hc, ha⟩ := m.answers (fun _ heq => by cases heq) hmem
    exact ⟨hc, .inl ha⟩
  compensation := m.compensation.1
  allowed := m.compensation.2

theorem GateMove.explains_next {history : List GateEvent} (m : GateMove p (some row) row' events)
    (hsound : row.Sound p) (h : row.Explains history) : row'.Explains (history ++ events) := by
  have hadv := m.advances hsound
  have hnone (status : StepForwardStatus) : .executed status ∉ events := fun hmem =>
    nomatch (m.executes hmem).1
  refine ⟨fun status hmem => ?_, fun status hmem => ?_, fun adjudication hmem => ?_, ?_, ?_⟩
  · cases history with
    | nil => exact hnone status (mem_of_mem_tail hmem)
    | cons event history =>
      rcases mem_append.mp hmem with hmem | hmem
      · exact h.first status hmem
      · exact hnone status hmem
  · have hmem := (mem_append.mp hmem).resolve_right (hnone status)
    obtain ⟨hs, hrow⟩ := h.executed status hmem
    refine ⟨hs, hrow.elim .inl fun hrow => ?_⟩
    rcases hadv.forward with hsame | hunk
    · exact .inr (hsame.trans hrow)
    · exact .inl (hrow.symm.trans hunk)
  · rcases mem_append.mp hmem with hmem | hmem
    · obtain ⟨hc, hfoll⟩ := h.answered adjudication hmem
      obtain ⟨hc', hnext⟩ := hadv.cancel hc
      exact ⟨hc', hfoll.trans hnext⟩
    · obtain ⟨hc, ha⟩ := m.answers (fun _ heq => Option.some.inj heq ▸ hsound) hmem
      exact ⟨hc, .inl ha⟩
  · rw [runFrom_append, ← h.compensation]
    exact m.compensation.1
  · rw [along_append, ← h.compensation]
    exact ⟨h.allowed, m.compensation.2⟩

/-! ## Over whole runs -/

/-- The tables of a participant are consistent. -/
structure ParticipantDb.Consistent (p : Participant) (db : ParticipantDb) : Prop where
  empty : db.gate = none → db.history = []
  sound : ∀ row, db.gate = some row → row.Sound p
  explains : ∀ row, db.gate = some row → row.Explains db.history

theorem GateStep.consistent {db db' : ParticipantDb} (step : GateStep p db db')
    (h : db.Consistent p) : db'.Consistent p := by
  cases step with
  | quiet gate history =>
    refine ⟨?_, ?_, ?_⟩ <;> rw [gate]
    · rw [history]
      exact h.empty
    · exact h.sound
    · rw [history]
      exact h.explains
  | @move row' events moves gate history =>
    refine ⟨fun hg => ?_, fun row'' hg => ?_, fun row'' hg => ?_⟩ <;> rw [gate] at hg
    · cases hg
    · cases hg
      exact moves.sound h.sound
    · cases hg
      rw [history]
      cases hgate : db.gate with
      | none =>
        rw [hgate] at moves
        rw [h.empty hgate]
        exact moves.explains_first
      | some row =>
        rw [hgate] at moves
        exact moves.explains_next (h.sound row hgate) (h.explains row hgate)

namespace Participant

variable {p : Participant}

theorem run_append (ops later : List (GateOp p)) :
    p.run (ops ++ later) = runFrom exec (p.run ops) later := runFrom_append _ _ _

/-- **The gate is consistent after every run.** -/
theorem consistent_run (ops : List (GateOp p)) : (p.run ops).Consistent p := by
  refine inv_runFrom_all (fun db op h => (exec_gateStep db op).consistent h) ?_ ops
  refine ⟨fun _ => rfl, fun row hgate => ?_, fun row hgate => ?_⟩ <;> cases hgate

/-- **A forward status other than `UNKNOWN` stays**, whatever is run next. -/
theorem forwardStatus_run (ops later : List (GateOp p))
    (hgate : (p.run ops).gate = some row) (hstat : row.forwardStatus ≠ .unknown) :
    ∃ row', (p.run (ops ++ later)).gate = some row' ∧ row'.forwardStatus = row.forwardStatus := by
  rw [run_append]
  refine (inv_runFrom_all (I := fun db : ParticipantDb => db.Consistent p ∧
    ∃ row', db.gate = some row' ∧ row'.forwardStatus = row.forwardStatus) (fun db op h => ?_)
    ⟨consistent_run ops, row, hgate, rfl⟩ later).2
  obtain ⟨hdb, row', hgate', hsame⟩ := h
  have step := exec_gateStep db op
  refine ⟨step.consistent hdb, ?_⟩
  cases step with
  | quiet gate history => exact ⟨row', gate.trans hgate', hsame⟩
  | @move row'' events moves gate history =>
    rw [hgate'] at moves
    rcases (moves.advances (hdb.sound row' hgate')).forward with heq | hunk
    · exact ⟨row'', gate, heq.trans hsame⟩
    · exact absurd (hsame.symm.trans hunk) hstat

end Participant

open Tx StepForwardStatus

variable {target : ResolutionTarget} {after : List GateEvent} {p : Participant}

namespace Participant

variable {p : Participant} {e : p.Command} {producer : ServiceIdentity} {db : ParticipantDb}

/-! ## Entering a handler -/

theorem enterCompensate_admitted
    (h : (enterCompensate e producer).answer db = some (some .admitted)) :
    ∃ row, db.gate = some row ∧ row.forwardStatus = .succeeded ∧
      (row.compensationStatus = .none ∨
        row.compensationStatus = .halted ∧ e.1.recoveryOperationId ≠ none) := by
  obtain ⟨db', h⟩ := answer_eq_some.mp h
  obtain ⟨-, -, hadm⟩ := ends_enter_some.mp h
  rcases ends_admitCompensation hadm with ⟨-, hne, -⟩ |
    ⟨row, hgate, -, ⟨_, hne, -⟩ | ⟨hne, -⟩ | ⟨-, hdone, hopen, -⟩⟩
  · cases hne
  · cases hne
  · cases hne
  · exact ⟨row, hgate, hdone, hopen⟩

theorem enterResolve_admitted
    (h : (enterResolve e producer).answer db = some (some (.admitted target))) :
    ∃ row, db.gate = some row ∧ row.unknownTarget = some target := by
  obtain ⟨db', h⟩ := answer_eq_some.mp h
  obtain ⟨-, -, hadm⟩ := ends_enter_some.mp h
  rcases ends_admitResolution hadm with ⟨-, hne, -⟩ |
    ⟨row, hgate, -, ⟨_, _, hne, -⟩ | ⟨hne, -⟩ | ⟨_, heq, hunk, -⟩⟩
  · cases hne
  · cases hne
  · exact absurd rfl (hne target)
  · cases heq
    exact ⟨row, hgate, hunk⟩

end Participant

variable {row : ParticipantGateRow}

theorem ParticipantGateRow.unknownTarget_eq (h : row.unknownTarget = some target) :
    (target = .compensation → row.compensationStatus = .unknown) ∧
      (target = .forward → row.forwardStatus = .unknown) := by
  unfold ParticipantGateRow.unknownTarget at h
  split at h
  · cases h
    exact ⟨fun _ => ‹_›, nofun⟩
  · split at h
    · cases h
      exact ⟨nofun, fun _ => ‹_›⟩
    · cases h

/-! ## The compensation's history -/

/-- A compensation that took place, or may have, stays so until a resolution rejects it. -/
theorem compensated_unless {status : StepCompensationStatus}
    (hstat : status = .succeeded ∨ status = .unknown)
    (h : Along StepCompensationStatus.after StepCompensationStatus.Allows status after) :
    (runFrom StepCompensationStatus.after status after = .succeeded ∨
        runFrom StepCompensationStatus.after status after = .unknown) ∨
      .resolved .compensation .rejected ∈ after := by
  have := runFrom_unless (I := fun status => status = .succeeded ∨ status = .unknown)
    (R := fun event => event = .resolved .compensation .rejected)
    (fun status event hstat hall hnot => ?_) hstat h
  · simpa using this
  · cases event with
    | executed _ | cancelAnswered _ => exact hstat
    | compensated _ => rcases hstat with rfl | rfl <;> rcases hall with h | h <;> cases h
    | resolved target resolution =>
      cases target with
      | forward => exact hstat
      | compensation =>
        cases resolution <;> first | exact hstat | exact .inl rfl | exact absurd rfl hnot

theorem halted_unless
    (h : Along StepCompensationStatus.after StepCompensationStatus.Allows .halted after) :
    runFrom StepCompensationStatus.after .halted after = .halted ∨
      ∃ status, .compensated status ∈ after := by
  have := runFrom_unless (I := fun status => status = .halted)
    (R := fun event => ∃ status, event = .compensated status)
    (fun status event hstat hall hnot => ?_) rfl h
  · rcases this with hend | ⟨_, hmem, status, rfl⟩
    · exact .inl hend
    · exact .inr ⟨status, hmem⟩
  · subst hstat
    cases event with
    | executed _ | cancelAnswered _ => rfl
    | compensated status => exact absurd ⟨status, rfl⟩ hnot
    | resolved target resolution =>
      cases target with
      | forward => rfl
      | compensation => cases hall

/-! ## The guarantees -/

/-- An execution is committed at most once, never after a confirmed cancel, and before one only if
its outcome was unknown. -/
def ParticipantDb.ExecutesOnce (db : ParticipantDb) : Prop :=
  ∀ before status after, db.history = before ++ .executed status :: after →
    (∀ other, .executed other ∉ before ++ after) ∧ .cancelAnswered .confirmed ∉ before ∧
      (.cancelAnswered .confirmed ∈ after → status = .unknown)

/-- The compensate handler may be entered over this history by a command with this recovery
identity: what took place, or may have, was rejected since, and what was halted last is being
recovered. -/
def MayCompensate (history : List GateEvent) (recovery : Option String) : Prop :=
  ∀ before status after, history = before ++ .compensated status :: after →
    (status = .succeeded ∨ status = .unknown → .resolved .compensation .rejected ∈ after) ∧
      (status = .halted → (∀ other, .compensated other ∉ after) → recovery ≠ none)

theorem ParticipantDb.Consistent.executesOnce {db : ParticipantDb}
    (h : db.Consistent p) : db.ExecutesOnce := by
  intro before status after hhist
  cases hgate : db.gate with
  | none =>
    rw [h.empty hgate] at hhist
    simp at hhist
  | some row =>
    have hrow := h.explains row hgate
    rw [hhist] at hrow
    cases before with
    | cons event before => exact absurd (by simp) (hrow.first status)
    | nil =>
      refine ⟨hrow.first, List.not_mem_nil, fun hconf => ?_⟩
      obtain ⟨hex, hforw⟩ := hrow.executed status List.mem_cons_self
      obtain ⟨-, hfoll⟩ := hrow.answered .confirmed (List.mem_cons_of_mem _ hconf)
      rcases hforw with hunk | rfl
      · exact hunk
      -- the forward status of a confirmed cancel is `CANCELLED`, which no handler concludes
      · rcases hfoll with heq | ⟨hpend, -⟩
        · cases hf : row.forwardStatus <;> simp [hf, adjudication] at heq
          simp [hf, isExecuteAdjudication] at hex
        · cases hpend

theorem ParticipantGateRow.Explains.mayCompensate
    {history : List GateEvent} {recovery : Option String} (h : row.Explains history)
    (hopen : row.compensationStatus = .none ∨
      row.compensationStatus = .halted ∧ recovery ≠ none) : MayCompensate history recovery := by
  intro before status after hhist
  have hend : row.compensationStatus = runFrom StepCompensationStatus.after status after := by
    rw [h.compensation, hhist, runFrom_append]
    rfl
  have hall := h.allowed
  rw [hhist, along_append] at hall
  refine ⟨fun hstat => ?_, fun hhalt hlast => ?_⟩
  · rcases compensated_unless hstat hall.2.2 with hstill | hrej
    · rw [← hend] at hstill
      rcases hopen with hopen | ⟨hopen, -⟩ <;> rw [hopen] at hstill <;> simp at hstill
    · exact hrej
  · subst hhalt
    rcases halted_unless hall.2.2 with hstill | ⟨other, hmem⟩
    · rcases hopen with hopen | ⟨-, hrec⟩
      · rw [← hend, hopen] at hstill
        cases hstill
      · exact hrec
    · exact absurd hmem (hlast other)

namespace Participant

/-- **What the gate guarantees**, after every sequence of deliveries. -/
theorem gate_run (p : Participant) (ops : List (GateOp p)) :
    (p.run ops).ExecutesOnce ∧
    (∀ (e : p.Command) (producer : ServiceIdentity),
      (enterCompensate e producer).answer (p.run ops) = some (some .admitted) →
      (∃ row, (p.run ops).gate = some row ∧ row.forwardStatus = .succeeded) ∧
        MayCompensate (p.run ops).history e.1.recoveryOperationId) ∧
    (∀ (row : ParticipantGateRow) (later : List (GateOp p)), (p.run ops).gate = some row →
      row.forwardStatus = .succeeded ∨ row.forwardStatus = .rejected ∨
        row.forwardStatus = .cancelled ∨ row.forwardStatus = .halted →
      ∃ row', (p.run (ops ++ later)).gate = some row' ∧
        row'.forwardStatus = row.forwardStatus) ∧
    (∀ (e : p.Command) (producer : ServiceIdentity) (target : ResolutionTarget),
      (enterResolve e producer).answer (p.run ops) = some (some (.admitted target)) →
      ∃ row, (p.run ops).gate = some row ∧
        (target = .compensation → row.compensationStatus = .unknown) ∧
        (target = .forward → row.forwardStatus = .unknown)) := by
  have hdb := consistent_run ops
  refine ⟨hdb.executesOnce, fun e producer h => ?_, fun row later hgate hstat => ?_,
    fun e producer target h => ?_⟩
  · obtain ⟨row, hgate, hdone, hopen⟩ := enterCompensate_admitted h
    exact ⟨⟨row, hgate, hdone⟩, (hdb.explains row hgate).mayCompensate hopen⟩
  · refine forwardStatus_run ops later hgate ?_
    rcases hstat with h | h | h | h <;> simp [h]
  · obtain ⟨row, hgate, hunk⟩ := enterResolve_admitted h
    exact ⟨row, hgate, row.unknownTarget_eq hunk⟩

end Participant

/-! ### The first step of the workflow, at its participant -/

namespace TwoSteps

def participant : Participant where
  sagaId := "saga"
  step := "a"
  hashes := hashes
  commandTrust _ _ _ := some "orchestrator"

/-- A command of the orchestrator. -/
def command (phase : StepPhase) (attempt : AttemptNo) (recovery : Option String) :
    participant.Command :=
  let effect := hashes.effectId "saga" 1 "a" phase
  ⟨⟨"t", "wf", 1, definition.digest hashes, "a", phase, attempt, uuidText effect,
    uuidText (hashes.commandId effect attempt), recovery⟩, rfl⟩

def execute (attempt : AttemptNo) (outcome : SagaOutcome) : participant.GateOp :=
  .execute (command .execute attempt none) "orchestrator" true (.concluded outcome)

def cancelExternal (attempt : AttemptNo) (outcome : CancelOutcome) : participant.GateOp :=
  .cancelExternal (command .cancel attempt none) "orchestrator" (.concluded outcome)

def compensate (attempt : AttemptNo) (recovery : Option String) (outcome : CompensationOutcome) :
    participant.GateOp :=
  .compensate (command .compensate attempt recovery) "orchestrator" (.concluded outcome)

def resolve (attempt : AttemptNo) (outcome : SagaOutcome) : participant.GateOp :=
  .resolve (command .resolve attempt none) "orchestrator" (.concluded outcome)

/-- A compensation that halts, is recovered with an unknown outcome and then rejected. -/
def recoveredAndRejected : List participant.GateOp :=
  [execute 1 .succeeded, compensate 1 none (.halted "h"), compensate 2 (some "op") (.unknown "u"),
    resolve 1 (.rejected "r")]

end TwoSteps

namespace Participant

open TwoSteps

/-- A compensation with an unknown outcome may be run again once it was rejected. -/
theorem gate_run_rejected :
    let db := participant.run [execute 1 .succeeded, compensate 1 none (.unknown "u"),
      resolve 1 (.rejected "r")]
    (enterCompensate (command .compensate 2 none) "orchestrator").answer db =
        some (some .admitted) ∧
      (∃ row, db.gate = some row ∧ row.forwardStatus = .succeeded) ∧
      MayCompensate db.history none := by
  intro db
  have hent : (enterCompensate (command .compensate 2 none) "orchestrator").answer db =
      some (some .admitted) := by decide +kernel
  exact ⟨hent, (gate_run participant _).2.1 (command .compensate 2 none) _ hent⟩

/-- A cancel is confirmed after the execution that it is about was committed, and the compensate
handler is entered without a recovery identity after a compensation was halted. -/
theorem gate_run_reopened :
    (participant.run [execute 1 (.unknown "u"), cancelExternal 1 .cancelConfirmed]).history =
        [.executed .unknown, .cancelAnswered .confirmed] ∧
      (participant.run recoveredAndRejected).history =
        [.executed .succeeded, .compensated .halted, .compensated .unknown,
          .resolved .compensation .rejected] ∧
      (command .compensate 3 none).1.recoveryOperationId = none ∧
      (enterCompensate (command .compensate 3 none) "orchestrator").answer
        (participant.run recoveredAndRejected) = some (some .admitted) := by
  decide +kernel

end Participant

/-! ## Cancels that are issued again -/

/-- The cancel status of a row agrees with its forward status. -/
structure ParticipantGateRow.CancelAgrees (row : ParticipantGateRow) : Prop where
  confirmed : row.cancelStatus = .confirmed → row.forwardStatus = .cancelled
  alreadyTerminal : row.cancelStatus = .alreadyTerminal →
    row.forwardStatus = .succeeded ∨ row.forwardStatus = .rejected ∨ row.forwardStatus = .halted
  resolutionPending : row.cancelStatus = .resolutionPending → row.forwardStatus = .unknown

theorem ParticipantGateRow.Sound.cancelAgrees (h : row.Sound p) : row.CancelAgrees := by
  have hdec := h.decided
  have hcanc := h.cancel
  cases hf : row.forwardStatus <;> rw [hf] at hcanc hdec <;>
    simp only [adjudication, CancelAdjudication.cancelStatus] at hcanc
  case pending => cases hdec
  case timedOut => cases hdec
  all_goals constructor <;> intro hc <;> simp_all

namespace Participant

variable {p : Participant} {e : p.Command} {producer : ServiceIdentity}
  {db : ParticipantDb} {row : ParticipantGateRow}

/-- The command is another attempt of a cancel that was answered before. -/
structure Reissues (db : ParticipantDb) (row : ParticipantGateRow) (e : p.Command)
    (producer : ServiceIdentity) : Prop where
  accepted : e.Accepted producer .cancel
  contract : row.key = e.key
  fresh : e.1.commandId ∉ db.inbox
  answered : ∃ prior, .cancelAnswered prior ∈ db.history

/-- The tables once the cancel is answered with the adjudication. -/
def Command.answered (e : p.Command) (db : ParticipantDb) (adjudication : CancelAdjudication) :
    ParticipantDb :=
  { db with
    inbox := db.inbox ++ [e.1.commandId]
    outbox := db.outbox ++ [e.result adjudication.result.1 adjudication.result.2 none]
    history := db.history ++ [.cancelAnswered adjudication] }

theorem ends_answerCancel_of (hacc : e.Accepted producer .cancel)
    (forward : StepForwardStatus) :
    (answerCancel e forward.adjudication none).Ends
      { db with inbox := db.inbox ++ [e.1.commandId] } forward.adjudication.result.1
      (e.answered db forward.adjudication) := by
  have hid : (e.result forward.adjudication.result.1 forward.adjudication.result.2
      none).verifyIdentity p.hashes := by
    have hver := hacc.1
    rw [SagaCommandEnvelope.verified, Bool.and_eq_true] at hver
    exact hver.1
  have hcont : (e.result forward.adjudication.result.1 forward.adjudication.result.2
      none).verifyResultContract p.hashes := by
    simp only [SagaResultEnvelope.verifyResultContract, Command.result, hacc.2.2]
    cases forward <;> simp [adjudication, CancelAdjudication.result,
      StepPhase.allowsStatus, terminalMatches]
  simp only [answerCancel, ends_bind, ends_record, ends_emitResult, ends_pure]
  exact ⟨(), _, rfl, (), _, ⟨⟨hid, hcont⟩, rfl⟩, trivial, rfl⟩

theorem ends_adjudicateCancel_of (hgate : db.gate = some row) (hsound : row.Sound p)
    (hkey : row.key = e.key) (hcanc : row.cancelStatus ≠ .none) :
    (adjudicateCancel e.key (e.effect .execute) (e.effect .cancel)).Ends db
      row.forwardStatus.adjudication db := by
  have hsame := hsound.cancel.resolve_left hcanc
  simp only [adjudicateCancel, ends_bind, ends_get]
  refine ⟨db, db, ⟨rfl, rfl⟩, ?_⟩
  simp only [hgate, ends_bind, ends_verifyGateContract, ends_require, ends_ite, ends_pure,
    rowEffect_of_key hkey]
  exact ⟨(), db, ⟨hkey, rfl⟩, (), db, ⟨hsound.executeEffect, rfl⟩,
    .inl ⟨hcanc, (), db, ⟨⟨hsame, hsound.cancelEffect hcanc⟩, rfl⟩, trivial, rfl⟩⟩

theorem ends_admitExternalCancel_of (hgate : db.gate = some row) (hsound : row.Sound p)
    (hkey : row.key = e.key) (hcanc : row.cancelStatus ≠ .none) :
    (admitExternalCancel e.key (e.effect .execute) (e.effect .cancel)).Ends db
      (.alreadyAdjudicated row.forwardStatus.adjudication) db := by
  have hex := existingAdjudication_of_consistent (hsound.cancel.resolve_left hcanc)
  simp only [admitExternalCancel, ends_bind, ends_get]
  refine ⟨db, db, ⟨rfl, rfl⟩, ?_⟩
  simp only [hgate, ends_bind, ends_verifyGateContract, ends_require, ends_ofExcept,
    rowEffect_of_key hkey]
  refine ⟨(), db, ⟨hkey, rfl⟩, (), db, ⟨hsound.executeEffect, rfl⟩, (), db, ⟨?_, rfl⟩, _, db,
    ⟨hex, rfl⟩, ends_pure.mpr ⟨rfl, rfl⟩⟩
  rw [hsound.cancelEffect hcanc]
  simp

/-- **A cancel agrees with the forward fact and is answered again.** -/
theorem cancel_run (p : Participant) (ops : List (GateOp p)) (row : ParticipantGateRow)
    (hgate : (p.run ops).gate = some row) :
    row.CancelAgrees ∧ row.forwardStatus ≠ .pending ∧ row.compensationStatus ≠ .pending ∧
    ∀ (e : p.Command) (producer : ServiceIdentity), Reissues (p.run ops) row e producer →
      ∃ adjudication : CancelAdjudication,
        (∀ prior, .cancelAnswered prior ∈ (p.run ops).history → adjudication.Follows prior) ∧
        (handleCancelLocal e producer).Ends (p.run ops) (.executed adjudication.result.1)
          (e.answered (p.run ops) adjudication) ∧
        ∀ run, (handleCancelExternal e producer run).Ends (p.run ops)
          (.replayed adjudication.result.1) (e.answered (p.run ops) adjudication) := by
  have hsound := (consistent_run ops).sound row hgate
  have hexp := (consistent_run ops).explains row hgate
  refine ⟨hsound.cancelAgrees, ?_, hsound.compensation, fun e producer h => ?_⟩
  · intro hpend
    have hdec := hsound.decided
    rw [hpend] at hdec
    cases hdec
  obtain ⟨prior, hprior⟩ := h.answered
  have hcanc := (hexp.answered prior hprior).1
  have hans : (answerCancel e row.forwardStatus.adjudication none).Ends
      { p.run ops with inbox := (p.run ops).inbox ++ [e.1.commandId] } _
      (e.answered (p.run ops) row.forwardStatus.adjudication) :=
    ends_answerCancel_of h.accepted row.forwardStatus
  refine ⟨row.forwardStatus.adjudication, fun prior hprior => (hexp.answered prior hprior).2,
    ?_, fun run => ?_⟩
  · simp only [handleCancelLocal, ends_bind]
    exact ⟨_, _, ends_enter_some.mpr ⟨h.accepted, h.fresh,
      ends_adjudicateCancel_of hgate hsound h.contract hcanc⟩,
      ends_bind.mpr ⟨_, _, hans, ends_pure.mpr ⟨rfl, rfl⟩⟩⟩
  · simp only [handleCancelExternal, enterCancelExternal, ends_bind]
    exact ⟨_, _, ends_enter_some.mpr ⟨h.accepted, h.fresh,
      ends_admitExternalCancel_of hgate hsound h.contract hcanc⟩,
      ends_bind.mpr ⟨_, _, hans, ends_pure.mpr ⟨rfl, rfl⟩⟩⟩

open TwoSteps in
/-- A second attempt of a cancel that waits for a resolution. -/
theorem cancel_run_again :
    let db := participant.run [execute 1 (.unknown "u"),
      cancelExternal 1 (.resolutionPending "c")]
    ∃ row adjudication, db.gate = some row ∧ row.CancelAgrees ∧
      adjudication.Follows .resolutionPending ∧
      (handleCancelLocal (command .cancel 2 none) "orchestrator").Ends db
        (.executed adjudication.result.1)
        ((command .cancel 2 none).answered db adjudication) := by
  intro db
  have hfacts : db.gate.map (·.key) = some (command .cancel 2 none).key ∧
      (command .cancel 2 none).1.commandId ∉ db.inbox ∧
      .cancelAnswered .resolutionPending ∈ db.history ∧
      (command .cancel 2 none).1.verified TwoSteps.hashes "saga" := by decide +kernel
  obtain ⟨hkey, hfresh, hans, hver⟩ := hfacts
  obtain ⟨row, hgate, hkey⟩ := Option.map_eq_some_iff.mp hkey
  obtain ⟨hagr, -, -, hag⟩ := cancel_run participant _ row hgate
  obtain ⟨adjudication, hfoll, hloc, -⟩ := hag (command .cancel 2 none) "orchestrator"
    ⟨⟨hver, rfl, rfl⟩, hkey, hfresh, _, hans⟩
  exact ⟨row, adjudication, hgate, hagr, hfoll _ hans, hloc⟩

end Participant

end NasaRuntime.Saga
