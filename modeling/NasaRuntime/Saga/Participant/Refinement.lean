import NasaRuntime.Saga.Participant.Runtime

/-!
# The runtime refines the abstract gate

An abstract view of the participant: a committed command makes one of a few moves on the row of
the gate, and appends to the history what it decided. A command meets an open gate, which has no
row yet, or the row that the first command left there.

**Theorem (`exec_gateStep`).** Every operation of the participant makes a move of the abstract gate
or leaves the row and the history as they were.
-/

namespace NasaRuntime.Saga

/-! ## Rows -/

/-- A status that a gate row may be committed with. -/
def StepForwardStatus.isDecided : StepForwardStatus → Bool
  | .pending | .timedOut => false
  | _ => true

/-- The row with a forward status and the adjudication that goes with it. -/
def ParticipantGateRow.adjudicated (row : ParticipantGateRow) (forward : StepForwardStatus)
    (cancelEffect : String) : ParticipantGateRow :=
  { row with
    forwardStatus := forward
    cancelStatus := forward.adjudication.cancelStatus
    cancelEffectId := some cancelEffect }

/-- The row after a compensate command. -/
def ParticipantGateRow.compensated (row : ParticipantGateRow) (status : StepCompensationStatus)
    (resolution : StepResolutionStatus) (compensateEffect : String) : ParticipantGateRow :=
  { row with
    compensationStatus := status
    resolutionStatus := resolution
    compensateEffectId := some compensateEffect }

/-- The cancel status once the forward fact is resolved. -/
def ParticipantGateRow.promotedCancel (row : ParticipantGateRow) (status : StepResolutionStatus) :
    StepCancelStatus :=
  if (status = .succeeded ∨ status = .rejected) ∧ row.cancelStatus = .resolutionPending then
    .alreadyTerminal
  else row.cancelStatus

/-- The row after a resolution of the forward fact. -/
def ParticipantGateRow.resolvedForward (row : ParticipantGateRow) (status : StepResolutionStatus)
    (resolveEffect : String) : ParticipantGateRow :=
  { row.resolving status resolveEffect with
    forwardStatus := status.toForward.getD row.forwardStatus
    cancelStatus := row.promotedCancel status }

/-- The row after a resolution of the compensation. -/
def ParticipantGateRow.resolvedCompensation (row : ParticipantGateRow)
    (status : StepResolutionStatus) (resolveEffect : String) : ParticipantGateRow :=
  { row.resolving status resolveEffect with
    compensationStatus := status.toCompensation.getD row.compensationStatus }

/-- The row the first command of a gate starts from. -/
def Participant.newRow (p : Participant) (key : ParticipantGateKey)
    (forward : StepForwardStatus) : ParticipantGateRow :=
  key.newRow forward (p.effectId key.definitionVersion .execute)

/-- The effect of the row's definition version in a phase. -/
def Participant.rowEffect (p : Participant) (row : ParticipantGateRow) (phase : StepPhase) :
    String :=
  p.effectId row.definitionVersion phase

/-! ## Moves -/

/-- What a command does to the gate: the row before, the row after, and what was decided. -/
inductive GateMove (p : Participant) :
    Option ParticipantGateRow → ParticipantGateRow → List GateEvent → Prop
  | execute (key : ParticipantGateKey) {forward : StepForwardStatus}
      (decided : forward.isExecuteAdjudication) :
      GateMove p none (p.newRow key forward) [.executed forward]
  | cancelFirst (key : ParticipantGateKey) {forward : StepForwardStatus}
      (decided : forward.isDecided) :
      GateMove p none
        ((p.newRow key .pending).adjudicated forward (p.effectId key.definitionVersion .cancel))
        [.cancelAnswered forward.adjudication]
  | orphanCompensation (key : ParticipantGateKey) :
      GateMove p none
        ((p.newRow key .halted).compensated .halted .none
          (p.effectId key.definitionVersion .compensate))
        [.compensated .halted]
  | orphanResolution (key : ParticipantGateKey) :
      GateMove p none
        ((p.newRow key .halted).resolving .halted (p.effectId key.definitionVersion .resolve)) []
  | adjudicate (row : ParticipantGateRow) (first : row.cancelStatus = .none) :
      GateMove p (some row) (row.adjudicated row.forwardStatus (p.rowEffect row .cancel))
        [.cancelAnswered row.forwardStatus.adjudication]
  | cancelUnknown (row : ParticipantGateRow) {forward : StepForwardStatus}
      (first : row.cancelStatus = .none)
      (unknown : row.forwardStatus = .unknown ∨ row.forwardStatus = .timedOut)
      (decided : forward.isDecided) :
      GateMove p (some row) (row.adjudicated forward (p.rowEffect row .cancel))
        [.cancelAnswered forward.adjudication]
  | repeatCancel (row : ParticipantGateRow) {adjudication : CancelAdjudication}
      (holds : row.existingAdjudication = .ok (some adjudication)) :
      GateMove p (some row) row [.cancelAnswered adjudication]
  | refuseCompensation (row : ParticipantGateRow) (notDone : row.forwardStatus ≠ .succeeded)
      (first : row.compensationStatus = .none) :
      GateMove p (some row)
        (row.compensated .halted row.resolutionStatus (p.rowEffect row .compensate))
        [.compensated .halted]
  | compensate (row : ParticipantGateRow) {status : StepCompensationStatus}
      (decided : status.isAdjudication) (done : row.forwardStatus = .succeeded)
      (open_ : row.compensationStatus = .none ∨ row.compensationStatus = .halted) :
      GateMove p (some row) (row.compensated status .none (p.rowEffect row .compensate))
        [.compensated status]
  | markResolution (row : ParticipantGateRow) (status : StepResolutionStatus) :
      GateMove p (some row) (row.resolving status (p.rowEffect row .resolve)) []
  | resolveForward (row : ParticipantGateRow) (status : StepResolutionStatus)
      (unknown : row.forwardStatus = .unknown) :
      GateMove p (some row) (row.resolvedForward status (p.rowEffect row .resolve))
        [.resolved .forward status]
  | resolveCompensation (row : ParticipantGateRow) (status : StepResolutionStatus)
      (unknown : row.compensationStatus = .unknown) :
      GateMove p (some row) (row.resolvedCompensation status (p.rowEffect row .resolve))
        [.resolved .compensation status]

/-- What an operation of the participant may do. -/
inductive GateStep (p : Participant) (db db' : ParticipantDb) : Prop
  | quiet (gate : db'.gate = db.gate) (history : db'.history = db.history)
  | move {row : ParticipantGateRow} {events : List GateEvent}
      (moves : GateMove p db.gate row events) (gate : db'.gate = some row)
      (history : db'.history = db.history ++ events)

open Tx ParticipantGateRow Option

/-! ## The statements -/

variable {db db' : ParticipantDb} {change : ParticipantGateRow → ParticipantGateRow}
  {cond : ParticipantGateRow → Bool} {n : Nat} {cancel : StepCancelStatus}
  {forward : StepForwardStatus} {row : ParticipantGateRow} {status : StepResolutionStatus}
  {reason : Option String} {α : Type}

theorem ends_updateGate (h : (updateGate cond change).Ends db n db') :
    (∃ row, db.gate = some row ∧ cond row ∧ db' = { db with gate := some (change row) }) ∨
      (db.gate.filter cond = none ∧ n = 0 ∧ db' = db) := by
  simp only [updateGate, ends_bind, ends_get] at h
  obtain ⟨_, _, ⟨rfl, rfl⟩, h⟩ := h
  cases hf : db.gate.filter cond with
  | none =>
    simp only [hf, ends_pure] at h
    exact .inr ⟨rfl, h.1.symm, h.2.symm⟩
  | some row =>
    simp only [hf, ends_bind, ends_writeGate, ends_pure] at h
    obtain ⟨_, _, rfl, rfl, rfl⟩ := h
    obtain ⟨hg, hc⟩ := filter_eq_some_iff.mp hf
    exact .inl ⟨row, hg, hc, rfl⟩

theorem updateGate_matched (h : (updateGate cond change).Ends db n db') (hn : n ≠ 0) :
    ∃ row, db.gate = some row ∧ cond row ∧ db' = { db with gate := some (change row) } :=
  (ends_updateGate h).resolve_right fun hnone => hn hnone.2.1

variable {u : Unit}

theorem ends_settleExecute {status : StepForwardStatus} (h : (settleExecute status).Ends db u db') :
    status.isExecuteAdjudication ∧ ∃ row, db.gate = some row ∧
      db' = { db with gate := some { row with forwardStatus := status } } := by
  simp only [settleExecute, ends_bind, ends_require] at h
  obtain ⟨_, _, ⟨hstat, rfl⟩, n, _, hu, hn, rfl⟩ := h
  obtain ⟨row, hg, -, rfl⟩ := updateGate_matched hu hn
  exact ⟨hstat, row, hg, rfl⟩

theorem ends_settleExternalCancel (h : (settleExternalCancel forward cancel).Ends db u db') :
    externalCancelCombination forward cancel ∧ ∃ row, db.gate = some row ∧
      db' = { db with gate := some { row with forwardStatus := forward, cancelStatus := cancel } } := by
  simp only [settleExternalCancel, ends_bind, ends_require] at h
  obtain ⟨_, _, ⟨hval, rfl⟩, n, _, hu, hn, rfl⟩ := h
  obtain ⟨row, hg, -, rfl⟩ := updateGate_matched hu (by omega)
  exact ⟨hval, row, hg, rfl⟩

theorem ends_settleCompensation {status : StepCompensationStatus}
    (h : (settleCompensation status).Ends db u db') :
    status.isAdjudication ∧ ∃ row, db.gate = some row ∧
      db' = { db with gate := some { row with compensationStatus := status } } := by
  simp only [settleCompensation, ends_bind, ends_require] at h
  obtain ⟨_, _, ⟨hstat, rfl⟩, n, _, hu, hn, rfl⟩ := h
  obtain ⟨row, hg, -, rfl⟩ := updateGate_matched hu hn
  exact ⟨hstat, row, hg, rfl⟩

theorem ends_persistExistingCancelAdjudication {cancelEffect : String} {status : StepCancelStatus}
    (h : (persistExistingCancelAdjudication cancelEffect status).Ends db u db') :
    ∃ row, db.gate = some row ∧
      db' = { db with gate := some { row with
        cancelStatus := status
        cancelEffectId := some cancelEffect } } := by
  simp only [persistExistingCancelAdjudication, ends_bind, ends_require] at h
  obtain ⟨n, _, hu, hn, rfl⟩ := h
  obtain ⟨row, hg, -, rfl⟩ := updateGate_matched hu (by omega)
  exact ⟨row, hg, rfl⟩

theorem ends_promoteCancel (hg : db.gate = some row)
    (h : (updateGate (·.cancelStatus = .resolutionPending)
      ({ · with cancelStatus := .alreadyTerminal })).Ends db n db') :
    db' = { db with gate := some { row with
      cancelStatus := if row.cancelStatus = .resolutionPending then .alreadyTerminal
        else row.cancelStatus } } := by
  rcases ends_updateGate h with ⟨row', hg', hc, rfl⟩ | ⟨hf, -, rfl⟩
  · obtain rfl : row' = row := some.inj (hg'.symm.trans hg)
    rw [if_pos (of_decide_eq_true hc)]
  · rw [hg, filter_eq_none_iff] at hf
    rw [if_neg fun hc => hf row rfl (decide_eq_true hc), ← hg]

theorem ends_settleResolution_forward (h : (settleResolution .forward status).Ends db u db') :
    ∃ row, db.gate = some row ∧ row.forwardStatus = .unknown ∧
      db' = { db with gate := some { row with
        resolutionStatus := status
        forwardStatus := status.toForward.getD row.forwardStatus
        cancelStatus := row.promotedCancel status } } := by
  simp only [settleResolution, overwriteUnknown, ends_bind, ends_require, ends_when, ends_pure,
    true_and] at h
  obtain ⟨_, _, ⟨-, rfl⟩, n, _, hu, _, _, ⟨hn, rfl⟩, h⟩ := h
  obtain ⟨row, hg, hc, rfl⟩ := updateGate_matched hu hn
  simp only [Bool.and_eq_true, decide_eq_true_eq] at hc
  refine ⟨row, hg, hc.1, ?_⟩
  rcases h with ⟨hs, m, _, hp, -, rfl⟩ | ⟨hs, rfl⟩
  · rw [ends_promoteCancel rfl hp]
    simp [promotedCancel, hs]
  · simp [promotedCancel, hs]

theorem ends_settleResolution_compensation
    (h : (settleResolution .compensation status).Ends db u db') :
    ∃ row, db.gate = some row ∧ row.compensationStatus = .unknown ∧
      db' = { db with gate := some { row with
        resolutionStatus := status
        compensationStatus := status.toCompensation.getD row.compensationStatus } } := by
  simp only [settleResolution, overwriteUnknown, ends_bind, ends_require, ends_when, reduceCtorEq,
    false_and, not_false_eq_true, true_and, false_or] at h
  obtain ⟨_, _, ⟨-, rfl⟩, n, _, hu, _, _, ⟨hn, rfl⟩, rfl⟩ := h
  obtain ⟨row, hg, hc, rfl⟩ := updateGate_matched hu hn
  simp only [Bool.and_eq_true, decide_eq_true_eq] at hc
  exact ⟨row, hg, hc.1, rfl⟩

/-! ## Claims and results -/

variable {a : α} {admission : GateTx α}

namespace Participant

variable {p : Participant} {e : p.Command} {producer : ServiceIdentity} {phase : StepPhase}
  {db db' : ParticipantDb}

/-- The command passes the checks before the transaction. -/
def Command.Accepted (e : p.Command) (producer : ServiceIdentity) (phase : StepPhase) : Prop :=
  e.1.verified p.hashes p.sagaId ∧ p.trusts e.1 producer ∧ e.1.phase = phase

theorem ends_claim {claimed : Bool} :
    (claim e producer phase).Ends db claimed db' ↔
      e.Accepted producer phase ∧
        ((e.1.commandId ∈ db.inbox ∧ claimed = false ∧ db' = db) ∨
          (e.1.commandId ∉ db.inbox ∧ claimed = true ∧
            db' = { db with inbox := db.inbox ++ [e.1.commandId] })) := by
  simp only [claim, ends_bind, ends_require, ends_get, ends_ite, ends_modify, ends_pure]
  constructor
  · rintro ⟨_, _, ⟨hv, rfl⟩, _, _, ⟨ht, rfl⟩, _, _, ⟨hp, rfl⟩, _, _, ⟨rfl, rfl⟩, h⟩
    refine ⟨⟨hv, ht, hp⟩, ?_⟩
    rcases h with ⟨hm, rfl, rfl⟩ | ⟨hm, _, _, rfl, rfl, rfl⟩
    · exact .inl ⟨hm, rfl, rfl⟩
    · exact .inr ⟨hm, rfl, rfl⟩
  · rintro ⟨⟨hv, ht, hp⟩, h⟩
    refine ⟨(), db, ⟨hv, rfl⟩, (), db, ⟨ht, rfl⟩, (), db, ⟨hp, rfl⟩, db, db, ⟨rfl, rfl⟩, ?_⟩
    rcases h with ⟨hm, rfl, rfl⟩ | ⟨hm, rfl, rfl⟩
    · exact .inl ⟨hm, rfl, rfl⟩
    · exact .inr ⟨hm, (), _, rfl, rfl, rfl⟩

/-- A command that the gate answers was accepted and claimed for the first time. -/
theorem ends_enter_some :
    (enter e producer phase admission).Ends db (some a) db' ↔
      e.Accepted producer phase ∧ e.1.commandId ∉ db.inbox ∧
        admission.Ends { db with inbox := db.inbox ++ [e.1.commandId] } a db' := by
  simp only [enter, ends_bind, ends_ite, ends_claim, ends_pure]
  constructor
  · rintro ⟨claimed, _, ⟨ha, hc⟩, h⟩
    rcases hc with ⟨hm, rfl, rfl⟩ | ⟨hm, rfl, rfl⟩
    · simp at h
    · simp only [true_and, not_true_eq_false, false_and, or_false, some.injEq] at h
      obtain ⟨_, _, h, rfl, rfl⟩ := h
      exact ⟨ha, hm, h⟩
  · rintro ⟨ha, hm, h⟩
    exact ⟨true, _, ⟨ha, .inr ⟨hm, rfl, rfl⟩⟩, .inl ⟨rfl, a, db', h, rfl, rfl⟩⟩

theorem ends_enter_none (h : (enter e producer phase admission).Ends db none db') : db' = db := by
  simp only [enter, ends_bind, ends_ite, ends_claim, ends_pure] at h
  obtain ⟨claimed, _, ⟨-, hc⟩, h⟩ := h
  rcases hc with ⟨-, rfl, rfl⟩ | ⟨-, rfl, rfl⟩
  · simpa [eq_comm] using h
  · simp at h

theorem ends_emitResult {status : StepAttemptStatus} {terminal : Option StepForwardStatus} :
    (emitResult e status terminal reason).Ends db u db' ↔
      ((e.result status terminal reason).verifyIdentity p.hashes ∧
        (e.result status terminal reason).verifyResultContract p.hashes) ∧
      db' = { db with outbox := db.outbox ++ [e.result status terminal reason] } := by
  simp only [emitResult, ends_bind, ends_require, ends_modify]
  constructor
  · rintro ⟨_, _, ⟨hv, rfl⟩, rfl⟩
    exact ⟨hv, rfl⟩
  · rintro ⟨hv, rfl⟩
    exact ⟨(), db, ⟨hv, rfl⟩, rfl⟩

end Participant

/-! ## Admissions -/

section Admissions

variable {key : ParticipantGateKey} {executeEffect cancelEffect compensateEffect resolveEffect : String}
  {recovery : Option String} {db db' : ParticipantDb}

/-- An admission writes the first row of the gate, or verifies the row and goes on. -/
theorem ends_onGate {first : ParticipantGateRow} {answer : α} {f : ParticipantGateRow → GateTx α}
    (h : Tx.Ends (do
      let db ← get
      match db.gate with
      | none => do
        writeGate first
        return answer
      | some row => do
        verifyGateContract row key
        f row) db a db') :
    (db.gate = none ∧ a = answer ∧ db' = { db with gate := some first }) ∨
      ∃ row, db.gate = some row ∧ row.key = key ∧ (f row).Ends db a db' := by
  simp only [ends_bind, ends_get] at h
  obtain ⟨_, _, ⟨rfl, rfl⟩, h⟩ := h
  cases hg : db.gate with
  | none =>
    simp only [hg, ends_bind, ends_writeGate, ends_pure] at h
    obtain ⟨_, _, rfl, rfl, rfl⟩ := h
    exact .inl ⟨rfl, rfl, rfl⟩
  | some row =>
    simp only [hg, ends_bind, ends_verifyGateContract] at h
    obtain ⟨_, _, ⟨hkey, rfl⟩, h⟩ := h
    exact .inr ⟨row, rfl, hkey, h⟩

theorem ends_admitExecute {a : ExecuteAdmission}
    (h : (admitExecute key executeEffect).Ends db a db') :
    (db.gate = none ∧ a = .admitted ∧
        db' = { db with gate := some (key.newRow .pending executeEffect) }) ∨
      (a ≠ .admitted ∧ db' = db) := by
  rcases ends_onGate h with hnone | ⟨row, -, -, h⟩
  · exact .inl hnone
  simp only [ends_bind, ends_require] at h
  obtain ⟨_, _, ⟨-, rfl⟩, h⟩ := h
  right
  cases hf : row.forwardStatus <;> simp only [hf, ends_pure, ends_throw] at h <;>
    obtain ⟨rfl, rfl⟩ := h <;> exact ⟨nofun, rfl⟩

theorem existingAdjudication_of_consistent
    (h : row.cancelStatus = row.forwardStatus.adjudication.cancelStatus) :
    row.existingAdjudication = .ok (some row.forwardStatus.adjudication) := by
  unfold existingAdjudication
  rw [h]
  cases row.forwardStatus <;> rfl

theorem ends_adjudicateCancel {a : CancelAdjudication}
    (h : (adjudicateCancel key executeEffect cancelEffect).Ends db a db') :
    (db.gate = none ∧ a = .confirmed ∧
        db' = { db with
          gate := some ((key.newRow .pending executeEffect).adjudicated .cancelled cancelEffect) }) ∨
      ∃ row, db.gate = some row ∧ row.key = key ∧
        ((row.existingAdjudication = .ok (some a) ∧ db' = db) ∨
          (row.cancelStatus = .none ∧ a = row.forwardStatus.adjudication ∧
            db' = { db with gate := some (row.adjudicated row.forwardStatus cancelEffect) })) := by
  rcases ends_onGate h with hnone | ⟨row, hg, hkey, h⟩
  · exact .inl hnone
  simp only [ends_bind, ends_require, ends_ite, ends_pure] at h
  obtain ⟨_, _, ⟨-, rfl⟩, h⟩ := h
  refine .inr ⟨row, hg, hkey, ?_⟩
  rcases h with ⟨-, _, _, ⟨⟨hsame, -⟩, rfl⟩, rfl, rfl⟩ |
    ⟨hc, n, _, hu, _, _, ⟨hn, rfl⟩, rfl, rfl⟩
  · exact .inl ⟨existingAdjudication_of_consistent hsame, rfl⟩
  · obtain ⟨row', hg', -, rfl⟩ := updateGate_matched hu (by omega)
    rw [some.inj (hg'.symm.trans hg)]
    exact .inr ⟨not_not.mp hc, rfl, rfl⟩

theorem ends_admitExternalCancel {a : ExternalCancelAdmission}
    (h : (admitExternalCancel key executeEffect cancelEffect).Ends db a db') :
    (db.gate = none ∧ a = .admitted ∧
        db' = { db with
          gate := some { key.newRow .pending executeEffect with
            cancelEffectId := some cancelEffect } }) ∨
      ∃ row, db.gate = some row ∧ row.key = key ∧
        ((∃ adjudication, a = .alreadyAdjudicated adjudication ∧
            row.existingAdjudication = .ok (some adjudication) ∧ db' = db) ∨
          (row.cancelStatus = .none ∧ a = .alreadyAdjudicated row.forwardStatus.adjudication ∧
            db' = { db with gate := some (row.adjudicated row.forwardStatus cancelEffect) }) ∨
          (row.cancelStatus = .none ∧
            (row.forwardStatus = .unknown ∨ row.forwardStatus = .timedOut) ∧ a = .admitted ∧
            db' = { db with gate := some { row with cancelEffectId := some cancelEffect } })) := by
  rcases ends_onGate h with hnone | ⟨row, hg, hkey, h⟩
  · exact .inl hnone
  simp only [ends_bind, ends_require, ends_ofExcept] at h
  obtain ⟨_, _, ⟨-, rfl⟩, _, _, ⟨-, rfl⟩, existing, _, ⟨hex, rfl⟩, h⟩ := h
  refine .inr ⟨row, hg, hkey, ?_⟩
  cases existing with
  | some adjudication =>
    simp only [ends_pure] at h
    obtain ⟨rfl, rfl⟩ := h
    exact .inl ⟨adjudication, rfl, hex, rfl⟩
  | none =>
    have hc : row.cancelStatus = .none := by
      unfold existingAdjudication at hex
      cases hcs : row.cancelStatus <;> simp only [hcs] at hex <;> first | rfl | skip
      all_goals (try split at hex) <;> cases hex
    right
    cases hf : row.forwardStatus <;>
      simp only [hf, ends_bind, ends_pure, ends_throw] at h
    case cancelled | succeeded | rejected | halted =>
      obtain ⟨_, _, hp, rfl, rfl⟩ := h
      obtain ⟨row', hg', rfl⟩ := ends_persistExistingCancelAdjudication hp
      rw [some.inj (hg'.symm.trans hg)]
      exact .inl ⟨hc, rfl, by simp [adjudicated, hf]; rfl⟩
    case unknown | timedOut =>
      obtain ⟨n, _, hu, rfl, rfl⟩ := h
      right
      refine ⟨hc, by simp, rfl, ?_⟩
      rcases ends_updateGate hu with ⟨row', hg', -, rfl⟩ | ⟨hn, -, -⟩
      · rw [some.inj (hg'.symm.trans hg), hf]
      · simp [hg, hc] at hn

theorem ends_admitCompensation {a : CompensationAdmission}
    (h : (admitCompensation key executeEffect compensateEffect recovery).Ends db a db') :
    (db.gate = none ∧ a = .missingForwardEffect ∧
        db' = { db with
          gate := some ((key.newRow .halted executeEffect).compensated .halted .none
            compensateEffect) }) ∨
      ∃ row, db.gate = some row ∧ row.key = key ∧
        ((∃ status, a = .alreadySettled status ∧ db' = db) ∨
          (a = .missingForwardEffect ∧ row.forwardStatus ≠ .succeeded ∧
            row.compensationStatus = .none ∧
            db' = { db with
              gate := some (row.compensated .halted row.resolutionStatus compensateEffect) }) ∨
          (a = .admitted ∧ row.forwardStatus = .succeeded ∧
            (row.compensationStatus = .none ∨ row.compensationStatus = .halted ∧ recovery ≠ none) ∧
            db' = { db with gate := some (row.compensated .pending .none compensateEffect) })) := by
  rcases ends_onGate h with hnone | ⟨row, hg, hkey, h⟩
  · exact .inl hnone
  simp only [ends_bind, ends_ite, ends_writeGate, ends_pure, ends_throw, and_false, false_or] at h
  refine .inr ⟨row, hg, hkey, ?_⟩
  rcases h with ⟨-, rfl, rfl⟩ | ⟨hsu, ⟨-, rfl, rfl⟩ | ⟨hh, hp, h⟩⟩
  · exact .inl ⟨_, rfl, rfl⟩
  · exact .inl ⟨_, rfl, rfl⟩
  · rcases h with ⟨hf, _, _, rfl, rfl, rfl⟩ | ⟨hf, _, _, rfl, rfl, rfl⟩
    · refine .inr (.inl ⟨rfl, hf, ?_, rfl⟩)
      cases hc : row.compensationStatus <;> simp_all
    · refine .inr (.inr ⟨rfl, not_not.mp hf, ?_, rfl⟩)
      cases hc : row.compensationStatus <;> simp_all

theorem ends_admitResolution {a : ResolutionAdmission}
    (h : (admitResolution key executeEffect resolveEffect recovery).Ends db a db') :
    (db.gate = none ∧ a = .missingUnknownEffect ∧
        db' = { db with
          gate := some ((key.newRow .halted executeEffect).resolving .halted resolveEffect) }) ∨
      ∃ row, db.gate = some row ∧ row.key = key ∧
        ((∃ target status, a = .alreadySettled target status ∧ db' = db) ∨
          ((∀ target, a ≠ .admitted target) ∧ ∃ status,
            db' = { db with gate := some (row.resolving status resolveEffect) }) ∨
          (∃ target, a = .admitted target ∧ row.unknownTarget = some target ∧
            db' = { db with gate := some (row.resolving .pending resolveEffect) })) := by
  rcases ends_onGate h with hnone | ⟨row, hg, hkey, h⟩
  · exact .inl hnone
  simp only [ends_bind, ends_require, ends_ite, ends_writeGate, ends_pure] at h
  obtain ⟨_, _, ⟨-, rfl⟩, h⟩ := h
  refine .inr ⟨row, hg, hkey, ?_⟩
  rcases h with ⟨-, rfl, rfl⟩ | ⟨-, ⟨-, _, _, rfl, rfl, rfl⟩ | ⟨-, h⟩⟩
  · exact .inl ⟨_, _, rfl, rfl⟩
  · exact .inr (.inl ⟨nofun, _, rfl⟩)
  · cases ht : row.unknownTarget with
    | none =>
      simp only [ht, ends_bind, ends_writeGate, ends_pure] at h
      obtain ⟨_, _, rfl, rfl, rfl⟩ := h
      exact .inr (.inl ⟨nofun, _, rfl⟩)
    | some target =>
      simp only [ht, ends_bind, ends_writeGate, ends_pure] at h
      obtain ⟨_, _, rfl, rfl, rfl⟩ := h
      exact .inr (.inr ⟨target, rfl, rfl, rfl⟩)

end Admissions

/-! ## Handlers -/

theorem ends_conclusion {run : HandlerRun α} {kind : String}
    (h : (run.conclusion kind).Ends db a db') : db' = db := by
  cases run with
  | contractInvalid | retryable code => exact absurd h ends_throw
  | concluded outcome => exact (ends_pure.mp h).2.symm

namespace Participant

variable {p : Participant} {e : p.Command} {producer : ServiceIdentity} {db db' : ParticipantDb}
  {handled : ParticipantHandled}

theorem rowEffect_of_key (h : row.key = e.key) (phase : StepPhase) :
    e.effect phase = p.rowEffect row phase := by
  have hv : row.definitionVersion = e.1.definitionVersion :=
    congrArg ParticipantGateKey.definitionVersion h
  unfold Command.effect rowEffect
  rw [hv]

/-- A handler leaves a duplicate alone, and goes on from the admission of a new command. -/
theorem step_of_entered {phase : StepPhase} {k : Option α → GateTx ParticipantHandled}
    (h : (enter e producer phase admission >>= k).Ends db handled db')
    (hnone : k none = pure .duplicate)
    (hsome : ∀ a db1, admission.Ends { db with inbox := db.inbox ++ [e.1.commandId] } a db1 →
      (k (some a)).Ends db1 handled db' → GateStep p db db') : GateStep p db db' := by
  obtain ⟨answer, db1, hent, h⟩ := ends_bind.1 h
  cases answer with
  | none =>
    cases ends_enter_none hent
    rw [hnone] at h
    cases (ends_pure.mp h).2
    exact .quiet rfl rfl
  | some a => exact hsome a db1 (ends_enter_some.mp hent).2.2 h

variable {run : HandlerRun SagaOutcome}

theorem handleExecute_step {allowUnknown : Bool}
    (h : (handleExecute e producer allowUnknown run).Ends db handled db') : GateStep p db db' := by
  refine step_of_entered h rfl fun answer db1 hadm h => ?_
  rcases ends_admitExecute hadm with ⟨hg, rfl, rfl⟩ | ⟨hne, rfl⟩
  · simp only [ends_bind, ends_record, ends_emitResult, ends_pure] at h
    obtain ⟨outcome, _, hrun, _, _, hsett, _, _, rfl, _, _, ⟨-, rfl⟩, -, rfl⟩ := h
    cases ends_conclusion hrun
    obtain ⟨hstat, row, hrow, rfl⟩ := ends_settleExecute hsett
    cases hrow
    exact .move (hg ▸ .execute e.key hstat) rfl rfl
  · cases answer with
    | admitted => exact absurd rfl hne
    | suppressed =>
      cases (ends_pure.mp h).2
      exact .quiet rfl rfl
    | alreadyTerminal terminal =>
      simp only [ends_bind, ends_ofExcept, ends_emitResult, ends_pure] at h
      obtain ⟨_, _, ⟨-, rfl⟩, _, _, ⟨-, rfl⟩, -, rfl⟩ := h
      exact .quiet rfl rfl

theorem ends_answerCancel {adjudication : CancelAdjudication}
    {status : StepAttemptStatus} (h : (answerCancel e adjudication reason).Ends db status db') :
    db'.gate = db.gate ∧ db'.history = db.history ++ [.cancelAnswered adjudication] := by
  simp only [answerCancel, ends_bind, ends_record, ends_emitResult, ends_pure] at h
  obtain ⟨_, _, rfl, _, _, ⟨-, rfl⟩, -, rfl⟩ := h
  exact ⟨rfl, rfl⟩

theorem handleCancelLocal_step (h : (handleCancelLocal e producer).Ends db handled db') :
    GateStep p db db' := by
  refine step_of_entered h rfl fun adjudication db1 hadm h => ?_
  simp only [ends_bind, ends_pure] at h
  obtain ⟨_, _, hans, -, rfl⟩ := h
  obtain ⟨hgate, hhist⟩ := ends_answerCancel hans
  rcases ends_adjudicateCancel hadm with ⟨hg, rfl, rfl⟩ |
    ⟨row, hg, hkey, ⟨hex, rfl⟩ | ⟨hc, rfl, rfl⟩⟩
  · have hdec : StepForwardStatus.cancelled.isDecided := rfl
    exact .move (hg ▸ .cancelFirst e.key hdec) hgate hhist
  · exact .move (hg ▸ .repeatCancel row hex) (hgate.trans hg) hhist
  · rw [rowEffect_of_key hkey] at hgate
    exact .move (hg ▸ .adjudicate row hc) hgate hhist

theorem handleCancelExternal_step {run : HandlerRun CancelOutcome}
    (h : (handleCancelExternal e producer run).Ends db handled db') : GateStep p db db' := by
  refine step_of_entered h rfl fun answer db1 hadm h => ?_
  cases answer with
  | alreadyAdjudicated adjudication =>
    simp only [ends_bind, ends_pure] at h
    obtain ⟨_, _, hans, -, rfl⟩ := h
    obtain ⟨hgate, hhist⟩ := ends_answerCancel hans
    rcases ends_admitExternalCancel hadm with ⟨-, hne, -⟩ |
      ⟨row, hg, hkey, ⟨_, heq, hex, rfl⟩ | ⟨hc, heq, rfl⟩ | ⟨-, -, hne, -⟩⟩
    · cases hne
    · cases heq
      exact .move (hg ▸ .repeatCancel row hex) (hgate.trans hg) hhist
    · cases heq
      rw [rowEffect_of_key hkey] at hgate
      exact .move (hg ▸ .adjudicate row hc) hgate hhist
    · cases hne
  | admitted =>
    simp only [ends_bind, ends_pure] at h
    obtain ⟨outcome, _, hrun, _, _, hsett, _, _, hans, -, rfl⟩ := h
    cases ends_conclusion hrun
    obtain ⟨hval, row', hrow', rfl⟩ := ends_settleExternalCancel hsett
    have hdec : outcome.result.1.isDecided := by
      rcases outcome with _ | terminal | _ <;> first | rfl | cases terminal <;> rfl
    obtain ⟨hgate, hhist⟩ := ends_answerCancel hans
    have hsame : outcome.result.1.adjudication = outcome.result.2.1 := by
      rcases outcome with _ | terminal | _ <;> first | rfl | cases terminal <;> rfl
    rw [← hsame] at hgate hhist
    rcases ends_admitExternalCancel hadm with ⟨hg, -, rfl⟩ |
      ⟨row, hg, hkey, ⟨_, hne, -, -⟩ | ⟨-, hne, -⟩ | ⟨hc, hf, -, rfl⟩⟩
    · cases hrow'
      exact .move (hg ▸ .cancelFirst e.key hdec) hgate hhist
    · cases hne
    · cases hne
    · cases hrow'
      rw [rowEffect_of_key hkey] at hgate
      exact .move (hg ▸ .cancelUnknown row hc hf hdec) hgate hhist

theorem handleCompensate_step {run : HandlerRun CompensationOutcome}
    (h : (handleCompensate e producer run).Ends db handled db') : GateStep p db db' := by
  refine step_of_entered h rfl fun answer db1 hadm h => ?_
  rcases ends_admitCompensation hadm with ⟨hg, rfl, rfl⟩ | ⟨row, hg, hkey, hadm⟩
  · simp only [ends_bind, ends_record, ends_emitResult, ends_pure] at h
    obtain ⟨_, _, rfl, _, _, ⟨-, rfl⟩, -, rfl⟩ := h
    exact .move (hg ▸ .orphanCompensation e.key) rfl rfl
  rcases hadm with ⟨status, rfl, rfl⟩ | ⟨rfl, hf, hc, rfl⟩ | ⟨rfl, hf, hc, rfl⟩
  · simp only [ends_bind, ends_ofExcept, ends_emitResult, ends_pure] at h
    obtain ⟨_, _, ⟨-, rfl⟩, _, _, ⟨-, rfl⟩, -, rfl⟩ := h
    exact .quiet rfl rfl
  · simp only [ends_bind, ends_record, ends_emitResult, ends_pure] at h
    obtain ⟨_, _, rfl, _, _, ⟨-, rfl⟩, -, rfl⟩ := h
    rw [rowEffect_of_key hkey]
    exact .move (hg ▸ .refuseCompensation row hf hc) rfl rfl
  · simp only [ends_bind, ends_record, ends_emitResult, ends_pure] at h
    obtain ⟨outcome, _, hrun, _, _, hsett, _, _, rfl, _, _, ⟨-, rfl⟩, -, rfl⟩ := h
    cases ends_conclusion hrun
    obtain ⟨hstat, row', hrow', rfl⟩ := ends_settleCompensation hsett
    cases hrow'
    rw [rowEffect_of_key hkey]
    exact .move (hg ▸ .compensate row hstat hf (hc.imp_right And.left)) rfl rfl

theorem handleResolve_step
    (h : (handleResolve e producer run).Ends db handled db') : GateStep p db db' := by
  refine step_of_entered h rfl fun answer db1 hadm h => ?_
  cases answer with
  | alreadySettled target settled =>
    simp only [ends_bind, ends_ofExcept, ends_emitResult, ends_pure] at h
    obtain ⟨_, _, ⟨-, rfl⟩, _, _, ⟨-, rfl⟩, -, rfl⟩ := h
    rcases ends_admitResolution hadm with ⟨-, hne, -⟩ |
      ⟨row, hg, hkey, ⟨_, _, -, rfl⟩ | ⟨-, status, rfl⟩ | ⟨_, hne, -⟩⟩
    · cases hne
    · exact .quiet rfl rfl
    · rw [rowEffect_of_key hkey]
      exact .move (hg ▸ .markResolution row status) rfl (List.append_nil _).symm
    · cases hne
  | missingUnknownEffect =>
    simp only [ends_bind, ends_emitResult, ends_pure] at h
    obtain ⟨_, _, ⟨-, rfl⟩, -, rfl⟩ := h
    rcases ends_admitResolution hadm with ⟨hg, -, rfl⟩ |
      ⟨row, hg, hkey, ⟨_, _, hne, -⟩ | ⟨-, status, rfl⟩ | ⟨_, hne, -⟩⟩
    · exact .move (hg ▸ .orphanResolution e.key) rfl (List.append_nil _).symm
    · cases hne
    · rw [rowEffect_of_key hkey]
      exact .move (hg ▸ .markResolution row status) rfl (List.append_nil _).symm
    · cases hne
  | admitted target =>
    simp only [ends_bind, ends_record, ends_emitResult, ends_pure] at h
    obtain ⟨outcome, _, hrun, _, _, hsett, _, _, rfl, _, _, ⟨-, rfl⟩, -, rfl⟩ := h
    cases ends_conclusion hrun
    rcases ends_admitResolution hadm with ⟨-, hne, -⟩ |
      ⟨row, hg, hkey, ⟨_, _, hne, -⟩ | ⟨hne, -⟩ | ⟨_, -, -, rfl⟩⟩
    · cases hne
    · cases hne
    · exact absurd rfl (hne target)
    rw [rowEffect_of_key hkey] at hsett
    cases target with
    | forward =>
      obtain ⟨row', hrow', hunk, rfl⟩ := ends_settleResolution_forward hsett
      cases hrow'
      have moves := GateMove.resolveForward (p := p) row outcome.ofResolve.1 hunk
      exact .move (hg ▸ moves) rfl rfl
    | compensation =>
      obtain ⟨row', hrow', hunk, rfl⟩ := ends_settleResolution_compensation hsett
      cases hrow'
      have moves := GateMove.resolveCompensation (p := p) row outcome.ofResolve.1 hunk
      exact .move (hg ▸ moves) rfl rfl

/-- **Refinement.** Every operation of the participant is a step of the abstract gate. -/
theorem exec_gateStep (db : ParticipantDb) (op : GateOp p) : GateStep p db (exec db op) := by
  rcases Tx.commit_cases (body op) db with ⟨u, db', hends, heq⟩ | heq
  · unfold exec
    rw [heq]
    cases op <;> simp only [body, ends_bind, ends_pure, ends_modify] at hends
    case forget commandId =>
      cases hends
      exact .quiet rfl rfl
    all_goals obtain ⟨handled, _, hhand, -, rfl⟩ := hends
    case execute => exact handleExecute_step hhand
    case cancelLocal => exact handleCancelLocal_step hhand
    case cancelExternal => exact handleCancelExternal_step hhand
    case compensate => exact handleCompensate_step hhand
    case resolve => exact handleResolve_step hhand
  · unfold exec
    rw [heq]
    exact .quiet rfl rfl

end Participant

end NasaRuntime.Saga
