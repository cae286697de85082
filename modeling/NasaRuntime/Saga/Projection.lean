import NasaRuntime.Saga.Store.Rows
import Mathlib.Data.List.Perm.Subperm

/-!
# The pure decisions of the orchestrator

The functions at the end of `orchestrator.rs` that read rows and decide: how a late result is
merged into a step row, which fact it contradicts, and which step comes next forward or back.

**Theorem (`scanForward_some`, `scanForward_none`).** The next forward step has only succeeded
steps before it and only pending ones after it; without a next step every step succeeded.

**Theorem (`nextPendingCompensation_some`).** The next member of the plan to compensate has only
compensated members before it, and the marked rows are the members.
-/

namespace NasaRuntime.Saga

open List

/-! ## The context of a result -/

structure ResultContext where
  inst : SagaInstanceRow
  definition : WorkflowDefinition
  stepDef : StepDefinition
  identity : VerifiedIdentity
  status : StepAttemptStatus
  terminal : Option StepForwardStatus
  reasonCode : Option String
  eventId : String
  now : Int

namespace ResultContext

variable (c : ResultContext)

def step : StepName := c.identity.step

def phase : StepPhase := c.identity.phase

def attempt : AttemptNo := c.identity.attempt

end ResultContext

/-! ## Merging a projection -/

/-- One column of `merge_deferred_projection`: what to write, or `none` on a contradiction. -/
def mergeColumn {α : Type} [DecidableEq α] (isOpen weak : α → Bool) (current : α) :
    Option α → Option (Option α)
  | none => some none
  | some next =>
    if current = next then some none
    else if isOpen current then some (some next)
    else if weak next then some none
    else none

def StepForwardStatus.isOpen : StepForwardStatus → Bool
  | .pending | .unknown | .timedOut => true
  | _ => false

def StepCancelStatus.isOpen : StepCancelStatus → Bool
  | .none | .resolutionPending => true
  | _ => false

def StepCompensationStatus.isOpen : StepCompensationStatus → Bool
  | .none | .pending | .unknown => true
  | _ => false

def StepResolutionStatus.isOpen : StepResolutionStatus → Bool
  | .none | .pending => true
  | _ => false

def mergeDeferredProjection (row : SagaStepRow) (patch : StepJournalPatch) :
    Option StepJournalPatch := do
  let forwardStatus ← mergeColumn StepForwardStatus.isOpen
    (fun s => s = .unknown || s = .timedOut) row.forwardStatus patch.forwardStatus
  let cancelStatus ← mergeColumn StepCancelStatus.isOpen
    (fun s => s = .resolutionPending) row.cancelStatus patch.cancelStatus
  let compensationStatus ← mergeColumn StepCompensationStatus.isOpen
    (fun s => s = .unknown || s = .pending) row.compensationStatus patch.compensationStatus
  let resolutionStatus ← mergeColumn StepResolutionStatus.isOpen
    (fun s => s = .pending) row.resolutionStatus patch.resolutionStatus
  return { patch with forwardStatus, cancelStatus, compensationStatus, resolutionStatus }

theorem mergeColumn_getD {α : Type} [DecidableEq α] {isOpen weak : α → Bool} {current : α}
    {next merged : Option α} (h : mergeColumn isOpen weak current next = some merged) :
    merged.getD current = current ∨ (isOpen current = true ∧ next = some (merged.getD current)) := by
  cases next with
  | none =>
    cases h
    exact .inl rfl
  | some n =>
    simp only [mergeColumn] at h
    split at h
    · cases h
      exact .inl rfl
    · split at h
      · cases h
        exact .inr ⟨‹_›, rfl⟩
      · split at h
        · cases h
          exact .inl rfl
        · cases h

theorem mergeColumn_strong {α : Type} [DecidableEq α] {isOpen weak : α → Bool} {current next : α}
    {merged : Option α} (h : mergeColumn isOpen weak current (some next) = some merged)
    (hstrong : weak next = false) : merged.getD current = next := by
  simp only [mergeColumn, hstrong] at h
  split at h
  · cases h
    assumption
  · split at h
    · cases h
      rfl
    · cases h

variable {row : SagaStepRow} {merged patch : StepJournalPatch} {s : StepAttemptStatus} {index : Nat}
  {next : Option StepName} {name : StepName}

theorem apply_merge (h : mergeDeferredProjection row patch = some merged) :
    ((row.apply merged).forwardStatus = row.forwardStatus ∨ (row.forwardStatus.isOpen = true ∧
        patch.forwardStatus = some (row.apply merged).forwardStatus)) ∧
      ((row.apply merged).compensationStatus = row.compensationStatus ∨
        (row.compensationStatus.isOpen = true ∧
          patch.compensationStatus = some (row.apply merged).compensationStatus)) ∧
      ((row.apply merged).resolutionStatus = row.resolutionStatus ∨
        (row.resolutionStatus.isOpen = true ∧
          patch.resolutionStatus = some (row.apply merged).resolutionStatus)) := by
  simp only [mergeDeferredProjection, Option.bind_eq_bind, Option.bind_eq_some_iff,
    Option.pure_def, Option.some.injEq] at h
  obtain ⟨f, hf, c, -, k, hk, r, hr, rfl⟩ := h
  exact ⟨mergeColumn_getD hf, mergeColumn_getD hk, mergeColumn_getD hr⟩

/-! ## What a result projects -/

/-- The forward status an `execute` result projects, also that of a forward `resolve` result. -/
def StepAttemptStatus.toForward : StepAttemptStatus → Option StepForwardStatus
  | .succeeded => some .succeeded
  | .rejected => some .rejected
  | .unknown => some .unknown
  | .halted => some .halted
  | _ => none

/-- The compensation status a `compensate` result projects. -/
def StepAttemptStatus.toCompensation : StepAttemptStatus → Option StepCompensationStatus
  | .succeeded => some .succeeded
  | .unknown => some .unknown
  | .halted => some .halted
  | _ => none

/-- The compensation status a `resolve` result projects while compensating. -/
def StepAttemptStatus.toResolvedCompensation : StepAttemptStatus → Option StepCompensationStatus
  | .succeeded => some .succeeded
  | .rejected => some .pending
  | .halted => some .halted
  | .unknown => some .unknown
  | _ => none

theorem StepAttemptStatus.toCompensation_eq_succeeded :
    s.toCompensation = some .succeeded ↔ s = .succeeded := by
  cases s <;> simp [toCompensation]

/-- The resolution status a `resolve` result projects. -/
def StepAttemptStatus.toResolution : StepAttemptStatus → Option StepResolutionStatus
  | .succeeded => some .succeeded
  | .rejected => some .rejected
  | .unknown => some .pending
  | .halted => some .halted
  | _ => none

/-- The patch of `project_deferred_result`. -/
def ResultContext.deferredPatch (c : ResultContext) : Except SagaError StepJournalPatch :=
  let base : StepJournalPatch := { lastErrorCode := c.reasonCode }
  match c.phase with
  | .execute =>
    match c.status.toForward with
    | some f => .ok { base with forwardStatus := some f }
    | none => .error (.runtime "invalid deferred execute status")
  | .cancel =>
    match c.status with
    | .cancelConfirmed =>
      .ok { base with forwardStatus := some .cancelled, cancelStatus := some .confirmed }
    | .alreadyTerminal =>
      .ok { base with forwardStatus := c.terminal, cancelStatus := some .alreadyTerminal }
    | .resolutionPending => .ok { base with cancelStatus := some .resolutionPending }
    | _ => .error (.runtime "invalid deferred cancel status")
  | .compensate =>
    match c.status.toCompensation with
    | some k => .ok { base with compensationStatus := some k }
    | none => .error (.runtime "invalid deferred compensation status")
  | .resolve =>
    match c.status.toResolution with
    | some r =>
      -- the answer is read in the direction the instance has now
      match c.inst.direction with
      | .forward =>
        .ok { base with resolutionStatus := some r, forwardStatus := c.status.toForward }
      | .compensating =>
        .ok { base with
          resolutionStatus := some r
          compensationStatus := c.status.toResolvedCompensation }
    | none => .error (.runtime "invalid deferred resolution status")

theorem deferredPatch_ok {c : ResultContext} (h : c.deferredPatch = .ok patch) :
    (c.phase = .execute → patch.compensationStatus = none ∧ patch.resolutionStatus = none) ∧
      (c.phase = .cancel → patch.compensationStatus = none ∧ patch.resolutionStatus = none) ∧
      (c.phase = .compensate → patch.forwardStatus = none ∧
        patch.compensationStatus = c.status.toCompensation ∧ patch.resolutionStatus = none) ∧
      (c.phase = .resolve →
        (c.inst.direction = .forward → patch.compensationStatus = none) ∧
        (c.inst.direction = .compensating →
          patch.compensationStatus = c.status.toResolvedCompensation)) := by
  unfold ResultContext.deferredPatch at h
  cases hp : c.phase with
  | execute =>
    simp only [hp] at h
    split at h
    · cases h
      simp
    · cases h
  | cancel =>
    simp only [hp] at h
    split at h <;> cases h <;> simp
  | compensate =>
    simp only [hp] at h
    split at h
    · cases h
      simp [*]
    · cases h
  | resolve =>
    simp only [hp] at h
    split at h
    · cases hd : c.inst.direction with
      | forward | compensating =>
        rw [hd] at h
        cases h
        simp
    · cases h

/-- A `REJECTED` answer to a resolve query of a compensation that already succeeded. -/
def ResultContext.resolveAfterCompensationSuccess (c : ResultContext) (row : SagaStepRow)
    (patch : StepJournalPatch) : Bool :=
  c.phase = .resolve && c.inst.direction = .compensating && c.status = .rejected &&
    row.compensationStatus = .succeeded && patch.compensationStatus = some .pending

def StepForwardStatus.fact : StepForwardStatus → Option StepAttemptStatus
  | .succeeded => some .succeeded
  | .rejected => some .rejected
  | .cancelled => some .cancelConfirmed
  | .halted => some .halted
  | _ => .none

def StepCancelStatus.fact : StepCancelStatus → Option StepAttemptStatus
  | .confirmed => some .cancelConfirmed
  | .alreadyTerminal => some .alreadyTerminal
  | _ => .none

def StepCompensationStatus.fact : StepCompensationStatus → Option StepAttemptStatus
  | .succeeded => some .succeeded
  | .halted => some .halted
  | _ => .none

def StepResolutionStatus.fact : StepResolutionStatus → Option StepAttemptStatus
  | .succeeded => some .succeeded
  | .rejected => some .rejected
  | .halted => some .halted
  | _ => .none

def conflictingProjectionStatus (row : SagaStepRow) (c : ResultContext) :
    Option StepAttemptStatus :=
  match c.phase with
  | .execute => row.forwardStatus.fact <|> row.cancelStatus.fact
  | .cancel => row.cancelStatus.fact <|> row.forwardStatus.fact
  | .compensate => row.compensationStatus.fact <|> row.resolutionStatus.fact
  | .resolve => row.resolutionStatus.fact <|>
      if c.inst.direction = .compensating then row.compensationStatus.fact
      else row.forwardStatus.fact

/-! ## The next forward step -/

/-- The loop of `next_pending_forward`, from position `index` with the step found so far. -/
def scanForward : Nat → Option StepName → List (StepDefinition × SagaStepRow) →
    Except SagaError (Option StepName)
  | _, next, [] => .ok next
  | index, next, (stepDef, row) :: rest =>
    if row.step ≠ stepDef.name ∨ row.ordinal ≠ index + 1 then
      .error (.runtime "step journal order does not match the workflow definition")
    else
      match next, row.forwardStatus with
      | none, .succeeded => scanForward (index + 1) none rest
      | none, .pending => scanForward (index + 1) (some row.step) rest
      | some found, .pending => scanForward (index + 1) (some found) rest
      | _, _ => .error (.runtime "forward journal is not a succeeded-prefix/pending-suffix")

def nextPendingForward (d : WorkflowDefinition) (steps : List SagaStepRow) :
    Except SagaError (Option StepName) :=
  if steps.length ≠ d.steps.length then
    .error (.runtime "step journal does not completely cover the workflow definition")
  else scanForward 0 none (d.steps.zip steps)

variable {rows : List (StepDefinition × SagaStepRow)}

theorem scanForward_found {found : StepName} (h : scanForward index (some found) rows = .ok next) :
    next = some found ∧ ∀ r ∈ rows, r.2.forwardStatus = .pending := by
  induction rows generalizing index with
  | nil =>
    cases h
    simp
  | cons r rest ih =>
    unfold scanForward at h
    split at h
    · cases h
    · split at h
      · rename_i heq _
        cases heq
      · rename_i heq _
        cases heq
      · rename_i heq hp
        cases heq
        obtain ⟨hn, hrest⟩ := ih h
        exact ⟨hn, forall_mem_cons.2 ⟨hp, hrest⟩⟩
      · cases h

theorem scanForward_none
    (h : scanForward index none rows = .ok none) : ∀ r ∈ rows, r.2.forwardStatus = .succeeded := by
  induction rows generalizing index with
  | nil => simp
  | cons r rest ih =>
    unfold scanForward at h
    split at h
    · cases h
    · split at h
      · exact forall_mem_cons.2 ⟨‹_›, ih h⟩
      · cases (scanForward_found h).1
      · rename_i heq _
        cases heq
      · cases h

theorem scanForward_some (h : scanForward index none rows = .ok (some name)) :
    ∃ before r after, rows = before ++ r :: after ∧ r.2.step = name ∧
      (∀ b ∈ before, b.2.forwardStatus = .succeeded) ∧ r.2.forwardStatus = .pending ∧
      ∀ a ∈ after, a.2.forwardStatus = .pending := by
  induction rows generalizing index with
  | nil => cases h
  | cons r rest ih =>
    unfold scanForward at h
    split at h
    · cases h
    · split at h
      · rename_i hsucc
        obtain ⟨before, r', after, rfl, hname, hb, hp, ha⟩ := ih h
        exact ⟨r :: before, r', after, rfl, hname, forall_mem_cons.2 ⟨hsucc, hb⟩, hp, ha⟩
      · rename_i hp
        obtain ⟨hn, ha⟩ := scanForward_found h
        exact ⟨[], r, rest, rfl, (Option.some.inj hn).symm, by simp, hp, ha⟩
      · rename_i heq _
        cases heq
      · cases h

variable {steps : List SagaStepRow} {d : WorkflowDefinition}

theorem nextPendingForward_none
    (h : nextPendingForward d steps = .ok none) : ∀ r ∈ steps, r.forwardStatus = .succeeded := by
  unfold nextPendingForward at h
  split at h
  · cases h
  · rename_i hlen
    have hsnd : (d.steps.zip steps).map Prod.snd = steps := map_snd_zip (by omega)
    intro r hr
    rw [← hsnd] at hr
    obtain ⟨p, hp, rfl⟩ := mem_map.1 hr
    exact scanForward_none h p hp

theorem nextPendingForward_some (h : nextPendingForward d steps = .ok (some name)) :
    ∃ before r after, steps = before ++ r :: after ∧ r.step = name ∧
      (∀ b ∈ before, b.forwardStatus = .succeeded) ∧ r.forwardStatus = .pending ∧
      ∀ a ∈ after, a.forwardStatus = .pending := by
  unfold nextPendingForward at h
  split at h
  · cases h
  · rename_i hlen
    have hsnd : (d.steps.zip steps).map Prod.snd = steps := map_snd_zip (by omega)
    obtain ⟨before, r, after, heq, hname, hb, hp, ha⟩ := scanForward_some h
    refine ⟨before.map Prod.snd, r.2, after.map Prod.snd, ?_, hname, ?_, hp, ?_⟩
    · rw [← hsnd, heq, map_append, map_cons]
    · simpa using fun s d' hm => hb (d', s) hm
    · simpa using fun s d' hm => ha (d', s) hm

/-! ## The next compensation -/

/-- The journal that a plan is frozen from. -/
def journalOf (steps : List SagaStepRow) : List StepJournalEntry :=
  steps.map fun row => ⟨row.step, row.forwardStatus⟩

/-- The row of a plan entry, if it carries the plan's mark. -/
def memberRow (steps : List SagaStepRow) (frozen : String) (entry : CompensationEntry) :
    Except SagaError SagaStepRow :=
  match steps.find? (·.step = entry.step) with
  | none => .error (.runtime "frozen compensation member is missing")
  | some row =>
    if row.compensationPlanVersion ≠ some frozen ∨ row.compensationOrder ≠ some entry.order then
      .error (.runtime "durable compensation member metadata drifted")
    else .ok row

/-- The loop of `next_pending_compensation`, with the step found so far. -/
def scanCompensation (steps : List SagaStepRow) (frozen : String) (allowHaltedRecovery : Bool) :
    Option StepName → List CompensationEntry → Except SagaError (Option StepName)
  | next, [] => .ok next
  | next, entry :: rest =>
    match memberRow steps frozen entry with
    | .error e => .error e
    | .ok row =>
      match next, row.compensationStatus with
      | none, .succeeded => scanCompensation steps frozen allowHaltedRecovery none rest
      | none, .pending => scanCompensation steps frozen allowHaltedRecovery (some row.step) rest
      | none, .halted =>
        if allowHaltedRecovery then
          scanCompensation steps frozen allowHaltedRecovery (some row.step) rest
        else .error (.runtime "compensation journal is not a succeeded-prefix/pending-suffix")
      | some found, .pending => scanCompensation steps frozen allowHaltedRecovery (some found) rest
      | _, _ => .error (.runtime "compensation journal is not a succeeded-prefix/pending-suffix")

/-- The number of rows that carry the plan's mark. -/
def markedCount (steps : List SagaStepRow) (frozen : String) : Nat :=
  steps.countP (·.compensationPlanVersion = some frozen)

def nextPendingCompensation (hs : Hashes) (row : SagaInstanceRow) (d : WorkflowDefinition)
    (steps : List SagaStepRow) (allowHaltedRecovery : Bool) :
    Except SagaError (Option StepName) :=
  match row.compensationPlanVersion with
  | none => .error (.runtime "compensating instance has no frozen plan")
  | some frozen =>
    match freezeCompensationPlan hs d (journalOf steps) with
    | .error violation => .error (.runtime violation.code)
    | .ok rebuilt =>
      if rebuilt.version ≠ frozen then
        .error (.runtime "frozen compensation plan digest drifted")
      else
        match scanCompensation steps frozen allowHaltedRecovery none rebuilt.entries with
        | .error e => .error e
        | .ok next =>
          if markedCount steps frozen ≠ rebuilt.entries.length then
            .error (.runtime "durable compensation plan contains unexpected members")
          else .ok next

theorem memberRow_ok {frozen : String} {entry : CompensationEntry}
    (h : memberRow steps frozen entry = .ok row) :
    row ∈ steps ∧ row.step = entry.step ∧ row.compensationPlanVersion = some frozen := by
  unfold memberRow at h
  split at h
  · cases h
  · rename_i r hr
    split at h
    · cases h
    · rename_i hmark
      cases h
      refine ⟨mem_of_find?_eq_some hr, by simpa using find?_some hr, ?_⟩
      by_contra hne
      exact hmark (.inl hne)

section
variable {steps : List SagaStepRow} {frozen : String} {recovery : Bool}
  {entries : List CompensationEntry}

/-- A scan passes only marked members, and keeps the step it found. -/
theorem scanCompensation_ok {found : Option StepName}
    (h : scanCompensation steps frozen recovery next entries = .ok found) :
    (∀ e ∈ entries, ∃ r ∈ steps, r.step = e.step ∧ r.compensationPlanVersion = some frozen) ∧
      (∀ name, next = some name → found = some name) := by
  induction entries generalizing next with
  | nil =>
    cases h
    exact ⟨by simp, fun name hname => hname⟩
  | cons e rest ih =>
    unfold scanCompensation at h
    split at h
    · cases h
    · rename_i row hrow
      have hmemb := memberRow_ok hrow
      have hcons : ∀ next', scanCompensation steps frozen recovery next' rest = .ok found →
          (∀ name, next = some name → next' = some name) →
          (∀ e' ∈ e :: rest, ∃ r ∈ steps, r.step = e'.step ∧
            r.compensationPlanVersion = some frozen) ∧
          (∀ name, next = some name → found = some name) := by
        intro next' h' hnext
        obtain ⟨hrest, hfnd⟩ := ih h'
        exact ⟨forall_mem_cons.2 ⟨⟨row, hmemb⟩, hrest⟩,
          fun name hname => hfnd name (hnext name hname)⟩
      split at h
      · exact hcons _ h fun name hname => hname
      · exact hcons _ h nofun
      · split at h
        · exact hcons _ h nofun
        · cases h
      · exact hcons _ h fun name hname => hname
      · cases h

theorem scanCompensation_some
    (h : scanCompensation steps frozen recovery none entries = .ok (some name)) :
    ∃ before entry after, entries = before ++ entry :: after ∧ entry.step = name ∧
      ∀ e ∈ before, ∃ r ∈ steps, r.step = e.step ∧ r.compensationStatus = .succeeded := by
  induction entries with
  | nil => cases h
  | cons e rest ih =>
    unfold scanCompensation at h
    split at h
    · cases h
    · rename_i row hrow
      obtain ⟨hmem, hstep, -⟩ := memberRow_ok hrow
      have hhere : ∀ {next}, scanCompensation steps frozen recovery (some row.step) rest = .ok next →
          next = some name → ∃ before entry after, e :: rest = before ++ entry :: after ∧
            entry.step = name ∧
            ∀ e ∈ before, ∃ r ∈ steps, r.step = e.step ∧ r.compensationStatus = .succeeded := by
        intro next h' hnext
        have hfnd := (scanCompensation_ok h').2 _ rfl
        exact ⟨[], e, rest, rfl, hstep.symm.trans (Option.some.inj (hfnd.symm.trans hnext)),
          by simp⟩
      split at h
      · rename_i hsucc
        obtain ⟨before, entry, after, rfl, hname, hbef⟩ := ih h
        exact ⟨e :: before, entry, after, rfl, hname,
          forall_mem_cons.2 ⟨⟨row, hmem, hstep, hsucc⟩, hbef⟩⟩
      · exact hhere h rfl
      · split at h
        · exact hhere h rfl
        · cases h
      · rename_i heq _
        cases heq
      · cases h

theorem mem_entries_of_marked (hents : (entries.map (·.step)).Nodup)
    (hmarked : ∀ e ∈ entries, ∃ r ∈ steps, r.step = e.step ∧
      r.compensationPlanVersion = some frozen)
    (hcnt : markedCount steps frozen = entries.length) {r : SagaStepRow} (hr : r ∈ steps)
    (hmark : r.compensationPlanVersion = some frozen) : r.step ∈ entries.map (·.step) := by
  let marked := (steps.filter (·.compensationPlanVersion = some frozen)).map (·.step)
  have hsub : entries.map (·.step) ⊆ marked := by
    intro name hname
    obtain ⟨e, he, rfl⟩ := mem_map.1 hname
    obtain ⟨x, hx, hstep, hxm⟩ := hmarked e he
    exact mem_map.2 ⟨x, mem_filter.2 ⟨hx, by simp [hxm]⟩, hstep⟩
  have hlen : marked.length = (entries.map (·.step)).length := by
    rw [length_map, length_map, ← hcnt, markedCount, countP_eq_length_filter]
  have hperm := (subperm_of_subset hents hsub).perm_of_length_le (Nat.le_of_eq hlen)
  exact hperm.mem_iff.2 (mem_map.2 ⟨r, mem_filter.2 ⟨hr, by simp [hmark]⟩, rfl⟩)

end

/-- **The next compensation** is a member of the rebuilt plan, the marked rows are the members, and
the members before it are compensated. -/
theorem nextPendingCompensation_some {hs : Hashes} {row : SagaInstanceRow} {recovery : Bool}
    (h : nextPendingCompensation hs row d steps recovery = .ok (some name)) :
    ∃ plan before entry after, freezeCompensationPlan hs d (journalOf steps) = .ok plan ∧
      row.compensationPlanVersion = some plan.version ∧
      plan.entries = before ++ entry :: after ∧ entry.step = name ∧
      (∀ e ∈ before, ∃ r ∈ steps, r.step = e.step ∧ r.compensationStatus = .succeeded) ∧
      (∀ e ∈ plan.entries, ∃ r ∈ steps, r.step = e.step ∧
        r.compensationPlanVersion = some plan.version) ∧
      ∀ r ∈ steps, r.compensationPlanVersion = some plan.version →
        r.step ∈ plan.entries.map (·.step) := by
  unfold nextPendingCompensation at h
  split at h
  · cases h
  · rename_i frozen hfroz
    split at h
    · cases h
    · rename_i plan hplan
      split at h
      · cases h
      · rename_i hvers
        split at h
        · cases h
        · rename_i next hscan
          split at h
          · cases h
          · rename_i hcnt
            cases h
            rw [not_not] at hvers hcnt
            subst hvers
            obtain ⟨before, entry, after, hsplit, hname, hbef⟩ := scanCompensation_some hscan
            have hmarked := (scanCompensation_ok hscan).1
            have hnod : (plan.entries.map (·.step)).Nodup :=
              (entries_freeze_sublist hplan).nodup (nodup_reverse.2 d.names_nodup)
            exact ⟨plan, before, entry, after, hplan, hfroz, hsplit, hname, hbef, hmarked,
              fun r hr hmark => mem_entries_of_marked hnod hmarked hcnt hr hmark⟩

end NasaRuntime.Saga
