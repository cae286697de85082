import Mathlib.Data.Finset.Card
import NasaRuntime.Napart.Queue

/-!
# Strict order and the admission of tasks

A strict task type numbers its tasks as they are admitted. A task may run when all tasks with
smaller numbers are settled, in whatever way they ended, and settlements arrive in any order:
`next_run` is the first number that is not settled, and the numbers behind it that are settled
already wait in a set.

**Theorem (`StrictOrder.Tracks.settle`).** Whatever is settled, once or again, `next_run` stays the
least number that is not settled.

**Modelling choice.** A loop around `fetch_update` is one step, and so is the section under the lock
of `settle`. The loop in it passes over at most as many numbers as the set has.

**Modelling choice.** Every access to an atomic and every section under a lock is a step. What the
task entry, the timer and the queues answer is given with the call (`Answers`). The end of a task
settles its number, and several parties may do so: `settleTask` settles any number that was issued.
The store has three fields that no program reads: `held`, the number that a submission has drawn and
neither passed on nor settled; `accepted`, the tasks that were published with a number; and in each
type the numbers that were `settled`. Metrics are left out.
-/

namespace NasaRuntime.Napart

open Finset

structure StrictOrder where
  nextIssue : ℕ
  nextRun : ℕ
  settledAhead : Finset ℕ
deriving DecidableEq

namespace StrictOrder

def new : StrictOrder := ⟨0, 0, ∅⟩

/-- The next number, as long as there is one. -/
def issue (order : StrictOrder) : Option ℕ × StrictOrder :=
  if order.nextIssue < u64Max then
    (some order.nextIssue, { order with nextIssue := order.nextIssue + 1 })
  else (none, order)

def turnReady (order : StrictOrder) (sequence : ℕ) : Bool := sequence ≤ order.nextRun

/-- The loop of `settle`. -/
def skip : ℕ → StrictOrder → StrictOrder
  | 0, order => order
  | rounds + 1, order =>
    if order.nextRun ∈ order.settledAhead then
      skip rounds { order with
        nextRun := order.nextRun + 1
        settledAhead := order.settledAhead.erase order.nextRun }
    else order

/-- How far the head went, and the order after it. -/
def settle (order : StrictOrder) (sequence : ℕ) : ℕ × StrictOrder :=
  if sequence < order.nextRun ∨ sequence ∈ order.settledAhead then (0, order)
  else
    let settledAhead := insert sequence order.settledAhead
    let settled := skip settledAhead.card { order with settledAhead }
    (settled.nextRun - order.nextRun, settled)

/-! ## The head -/

/-- Everything before the head is settled, and behind it what the set has. -/
structure Covers (order : StrictOrder) (settled : Finset ℕ) : Prop where
  before : ∀ n, n < order.nextRun → n ∈ settled
  ahead : ∀ n, n ∈ order.settledAhead ↔ n ∈ settled ∧ order.nextRun ≤ n

/-- The order after the numbers in `settled` were settled. -/
structure Tracks (order : StrictOrder) (settled : Finset ℕ) : Prop
    extends Covers order settled where
  head : order.nextRun ∉ settled
  issued : ∀ n ∈ settled, n < order.nextIssue

variable {order : StrictOrder} {settled : Finset ℕ} {sequence : ℕ}

theorem tracks_new : new.Tracks ∅ := by
  refine ⟨⟨?_, ?_⟩, ?_, ?_⟩ <;> simp [new]

theorem skip_nextIssue (rounds : ℕ) (order : StrictOrder) :
    (skip rounds order).nextIssue = order.nextIssue := by
  induction rounds generalizing order with
  | zero => rfl
  | succ rounds ih =>
    rw [skip]
    split
    · rw [ih]
    · rfl

theorem Covers.pass (h : order.Covers settled) (hmem : order.nextRun ∈ order.settledAhead) :
    Covers { order with
      nextRun := order.nextRun + 1
      settledAhead := order.settledAhead.erase order.nextRun } settled where
  before n hn := by
    rcases Nat.lt_succ_iff_lt_or_eq.1 hn with hlt | heq
    · exact h.before n hlt
    · rw [heq]
      exact ((h.ahead _).1 hmem).1
  ahead n := by
    simp only [mem_erase, h.ahead n]
    constructor
    · intro ⟨hne, hsett, hle⟩
      exact ⟨hsett, by omega⟩
    · intro ⟨hsett, hle⟩
      exact ⟨by omega, hsett, by omega⟩

theorem Covers.skip (h : order.Covers settled) {rounds : ℕ}
    (hrounds : order.settledAhead.card ≤ rounds) :
    (StrictOrder.skip rounds order).Covers settled ∧
      (StrictOrder.skip rounds order).nextRun ∉ settled := by
  induction rounds generalizing order with
  | zero =>
    refine ⟨h, fun hmem => ?_⟩
    have hin : order.nextRun ∈ order.settledAhead := (h.ahead _).2 ⟨hmem, le_rfl⟩
    have hemp : order.settledAhead = ∅ := card_eq_zero.1 (Nat.le_zero.1 hrounds)
    simp [hemp] at hin
  | succ rounds ih =>
    rw [StrictOrder.skip]
    split
    · next hmem =>
      have hcard := card_erase_of_mem hmem
      exact ih (h.pass hmem) (by simp only [hcard]; omega)
    · next hmem => exact ⟨h, fun hin => hmem ((h.ahead _).2 ⟨hin, le_rfl⟩)⟩

theorem Tracks.issue (h : order.Tracks settled) : order.issue.2.Tracks settled := by
  rw [StrictOrder.issue]
  split
  · exact ⟨⟨h.before, h.ahead⟩, h.head, fun n hn => Nat.lt_succ_of_lt (h.issued n hn)⟩
  · exact h

/-- **Settlements.** A number that is settled again changes nothing. -/
theorem Tracks.settle (h : order.Tracks settled) (hiss : sequence < order.nextIssue) :
    (order.settle sequence).2.Tracks (insert sequence settled) := by
  rw [StrictOrder.settle]
  by_cases hag : sequence < order.nextRun ∨ sequence ∈ order.settledAhead
  · have hmem : sequence ∈ settled := by
      rcases hag with hlt | hin
      · exact h.before _ hlt
      · exact ((h.ahead _).1 hin).1
    rw [if_pos hag, insert_eq_of_mem hmem]
    exact h
  · rw [if_neg hag]
    have hcov : Covers { order with settledAhead := insert sequence order.settledAhead }
        (insert sequence settled) := by
      refine ⟨fun n hn => mem_insert_of_mem (h.before n hn), fun n => ?_⟩
      simp only [mem_insert, h.ahead n]
      constructor
      · intro hn
        rcases hn with heq | ⟨hsett, hle⟩
        · exact ⟨.inl heq, by omega⟩
        · exact ⟨.inr hsett, hle⟩
      · intro ⟨hn, hle⟩
        exact hn.imp_right fun hsett => ⟨hsett, hle⟩
    have hskip := hcov.skip le_rfl
    refine ⟨hskip.1, hskip.2, fun n hn => ?_⟩
    rw [skip_nextIssue]
    rcases mem_insert.1 hn with heq | hsett
    · exact heq ▸ hiss
    · exact h.issued n hsett

theorem Tracks.nextRun_le (h : order.Tracks settled) : order.nextRun ≤ order.nextIssue := by
  by_contra hlt
  exact lt_irrefl _ (h.issued _ (h.before _ (not_le.1 hlt)))

end StrictOrder

inductive TaskOrdering
  | strict | relaxed
deriving DecidableEq

/-- A validated configuration. -/
structure RunnerConfig where
  partitions : ℕ
  queueCapacityPerType : ℕ
  globalInflight : ℕ
  maxTypeStates : ℕ
  within : 0 < partitions ∧ partitions ≤ 65536

/-- The slot of a hash. The number of slots is a power of two, and the code masks. -/
def RunnerConfig.home (config : RunnerConfig) (hash : ℕ) : ℕ := hash % config.partitions

structure TaskSpec where
  ty : ℕ
  ordering : TaskOrdering
deriving DecidableEq

inductive RunnerPhase
  | starting | accepting | stopping | stopped | failed
deriving DecidableEq

inductive SubmitRejection
  | shuttingDown | queueFull | overloaded | orderingConflict | laneFailed | laneLimitExceeded
  | reservedTaskType
  /-- The future that waited for a permit was dropped. -/
  | abandoned
deriving DecidableEq

/-- A semaphore: its free permits, and whether it is closed. -/
structure Budget where
  permits : ℕ
  closed : Bool
deriving DecidableEq

/-- `try_acquire_owned`. -/
def Budget.tryAcquire (budget : Budget) : Bool × Budget :=
  if budget.closed = false ∧ 0 < budget.permits then
    (true, { budget with permits := budget.permits - 1 })
  else (false, budget)

/-- A permit is dropped. -/
def Budget.release (budget : Budget) : Budget := { budget with permits := budget.permits + 1 }

/-- The home slot and the type of a task. -/
abbrev TypeKey := ℕ × ℕ

/-- What admission reads and writes of a task type. -/
structure TypeState where
  ordering : TaskOrdering
  failed : Bool
  queuedBudget : Budget
  strictOrder : StrictOrder
  settled : Finset ℕ
deriving DecidableEq

namespace TypeState

def new (ordering : TaskOrdering) (queueCapacity : ℕ) : TypeState where
  ordering := ordering
  failed := false
  queuedBudget := ⟨queueCapacity, false⟩
  strictOrder := .new
  settled := ∅

/-- The type is frozen, and nobody waits for its permits any more. -/
def fail (state : TypeState) : TypeState :=
  { state with failed := true, queuedBudget := { state.queuedBudget with closed := true } }

def issue (state : TypeState) : TypeState := { state with strictOrder := state.strictOrder.issue.2 }

def settle (state : TypeState) (sequence : ℕ) : TypeState :=
  { state with
    strictOrder := (state.strictOrder.settle sequence).2
    settled := insert sequence state.settled }

end TypeState

/-- A task with a number of the strict order. -/
structure Accepted where
  key : TypeKey
  sequence : ℕ
  id : ℕ
deriving DecidableEq

structure DelayedTask where
  home : ℕ
  hash : ℕ
  spec : TaskSpec
deriving DecidableEq

/-- What admission reads and writes of a runner. -/
structure RunnerStore where
  phase : RunnerPhase
  producers : ℕ
  slotAccepting : ℕ → Bool
  types : TypeKey → Option TypeState
  typeStateCount : ℕ
  typeLimit : ℕ
  global : Budget
  nextTaskId : ℕ
  delayed : ℕ → Option DelayedTask
  held : ℕ → Option (TypeKey × ℕ)
  accepted : List Accepted

namespace RunnerStore

/-- A runner that accepts. -/
def new (config : RunnerConfig) : RunnerStore where
  phase := .accepting
  producers := 0
  slotAccepting := fun _ => true
  types := fun _ => none
  typeStateCount := 0
  typeLimit := config.maxTypeStates
  global := ⟨config.globalInflight, false⟩
  nextTaskId := 1
  delayed := fun _ => none
  held := fun _ => none
  accepted := []

/-- The state of a type is changed, if there is one. -/
def updateType (s : RunnerStore) (key : TypeKey) (f : TypeState → TypeState) : RunnerStore :=
  { s with types := Function.update s.types key ((s.types key).map f) }

def setHeld (s : RunnerStore) (i : ℕ) (held : Option (TypeKey × ℕ)) : RunnerStore :=
  { s with held := Function.update s.held i held }

end RunnerStore

/-- What the other parts of the runner answer to one submission. -/
structure Answers where
  /-- `claim_expired` of the entry succeeds. -/
  claimed : Bool
  /-- `install_queued_permit` of the entry succeeds. -/
  installed : Bool
  /-- The binding of the envelope was free. -/
  bound : Bool
  registered : Bool
  /-- `publish_initial`. -/
  published : Except SubmitRejection Unit
  /-- `publish_initial` has settled the task before it failed. -/
  finalized : Bool

/-- A program on the runner. -/
abbrev RunnerProg := Prog RunnerStore SubmitRejection

variable (config : RunnerConfig)

/-! ## The gates -/

/-- `ProducerGuard::enter`, and the guard is dropped at the end. -/
def withProducer {α : Type} (p : RunnerProg α) : RunnerProg α := do
  let phase ← .read (·.phase)
  if phase ≠ .accepting then .fail .shuttingDown
  else do
    .modify fun s => { s with producers := s.producers + 1 }
    let again ← .read (·.phase)
    if again ≠ .accepting then do
      .modify fun s => { s with producers := s.producers - 1 }
      .fail .shuttingDown
    else do
      let outcome ← p.attempt
      .modify fun s => { s with producers := s.producers - 1 }
      match outcome with
      | .ok a => return a
      | .error e => .fail e

/-- The state that is there has the ordering of the task and has not failed. -/
def useType (state : TypeState) (spec : TaskSpec) : RunnerProg Unit :=
  if state.ordering ≠ spec.ordering then .fail .orderingConflict
  else if state.failed then .fail .laneFailed
  else return

/-- The same, in the other order, for a state that another submission has just created. -/
def useRacedType (state : TypeState) (spec : TaskSpec) : RunnerProg Unit :=
  if state.failed then .fail .laneFailed
  else if state.ordering ≠ spec.ordering then .fail .orderingConflict
  else return

/-- The state is created, unless another submission was faster. -/
def createType (home : ℕ) (spec : TaskSpec) : RunnerProg (Option TypeState) :=
  .atomic fun s =>
    match s.types (home, spec.ty) with
    | some existing => (some existing, { s with typeStateCount := s.typeStateCount - 1 })
    | none =>
      (none, { s with
        types := Function.update s.types (home, spec.ty)
          (some (.new spec.ordering config.queueCapacityPerType)) })

def getOrCreateType (home : ℕ) (spec : TaskSpec) : RunnerProg Unit := do
  let phase ← .read (·.phase)
  if phase ≠ .accepting then .fail .shuttingDown
  else do
    let accepting ← .read (·.slotAccepting home)
    if accepting = false then .fail .laneFailed
    else do
      let existing ← .read (·.types (home, spec.ty))
      match existing with
      | some state => useType state spec
      | none => do
        let room ← .atomic fun s =>
          if s.typeStateCount < s.typeLimit then
            (true, { s with typeStateCount := s.typeStateCount + 1 })
          else (false, s)
        if room = false then .fail .laneLimitExceeded
        else do
          let raced ← createType config home spec
          match raced with
          | some state => useRacedType state spec
          | none => do
            let still ← .read fun s => decide (s.phase = .accepting) && s.slotAccepting home
            if still then return
            else do
              .modify fun s => s.updateType (home, spec.ty) .fail
              .fail .shuttingDown

/-- A permit of the type. -/
def acquireQueued (key : TypeKey) (rejection : SubmitRejection) : RunnerProg Unit := do
  let taken ← .atomic fun s =>
    match s.types key with
    | some state =>
      (state.queuedBudget.tryAcquire.1, s.updateType key fun state =>
        { state with queuedBudget := state.queuedBudget.tryAcquire.2 })
    | none => (false, s)
  if taken then return else .fail rejection

def releaseQueued (key : TypeKey) : RunnerProg Unit :=
  .modify fun s => s.updateType key fun state =>
    { state with queuedBudget := state.queuedBudget.release }

/-- A permit of the runner. -/
def acquireGlobal (rejection : SubmitRejection) : RunnerProg Unit := do
  let taken ← .atomic fun s => (s.global.tryAcquire.1, { s with global := s.global.tryAcquire.2 })
  if taken then return else .fail rejection

def releaseGlobal : RunnerProg Unit :=
  .modify fun s => { s with global := s.global.release }

/-- The permit is dropped if the rest fails. -/
def dropping {α : Type} (release : RunnerProg Unit) (p : RunnerProg α) : RunnerProg α := do
  let outcome ← p.attempt
  match outcome with
  | .ok a => return a
  | .error e => do
    release
    .fail e

/-! ## Numbers and identities -/

def issueStrictSequence (i : ℕ) (key : TypeKey) : RunnerProg (Option ℕ) :=
  .atomic fun s =>
    match s.types key with
    | some state =>
      match state.strictOrder.issue.1 with
      | some sequence => (some sequence, (s.updateType key .issue).setHeld i (some (key, sequence)))
      | none => (none, s)
    | none => (none, s)

/-- `settle_strict`. The submission has no number any more. -/
def settleStrict (i : ℕ) (key : TypeKey) : Option ℕ → RunnerProg Unit
  | some sequence =>
    .modify fun s => (s.updateType key fun state => state.settle sequence).setHeld i none
  | none => return

def nextTaskId : RunnerProg ℕ := do
  let id ← .atomic fun s =>
    if s.nextTaskId < u64Max then (some s.nextTaskId, { s with nextTaskId := s.nextTaskId + 1 })
    else (none, s)
  match id with
  | some id => return id
  | none => .fail .laneFailed

/-- The owner of a new entry has to fit into an `i32`. -/
def newEntry (home : ℕ) : RunnerProg Unit :=
  if home < 2 ^ 31 then return else .fail .laneFailed

/-- The task is in a queue, and its number is its own. -/
def carry (i : ℕ) (key : TypeKey) (id : ℕ) : Option ℕ → RunnerProg Unit
  | some sequence =>
    .modify fun s => { s.setHeld i none with accepted := s.accepted ++ [⟨key, sequence, id⟩] }
  | none => return

/-- `finalize_terminal` inside of `publish_initial`. -/
def finalizeInside (answers : Answers) (key : TypeKey) : Option ℕ → RunnerProg Unit
  | some sequence =>
    if answers.finalized then
      .modify fun s => s.updateType key fun state => state.settle sequence
    else return
  | none => return

def publishInitial (i : ℕ) (answers : Answers) (key : TypeKey) (id : ℕ) (sequence : Option ℕ) :
    RunnerProg Unit := do
  match answers.published with
  | .ok () => carry i key id sequence
  | .error e => do
    finalizeInside answers key sequence
    .fail e

/-- The number of a task of this type. -/
def drawSequence (i : ℕ) (key : TypeKey) (ordering : TaskOrdering) (exhausted : SubmitRejection) :
    RunnerProg (Option ℕ) :=
  match ordering with
  | .relaxed => return none
  | .strict => do
    let sequence ← issueStrictSequence i key
    match sequence with
    | some sequence => return some sequence
    | none => .fail exhausted

/-! ## Submissions -/

/-- What follows the permits: number, identity, entry, binding, publication. -/
def submitAdmitted (i : ℕ) (answers : Answers) (home : ℕ) (spec : TaskSpec) : RunnerProg ℕ :=
  withProducer do
    let key : TypeKey := (home, spec.ty)
    let failed ← .read fun s => (s.types key).any (·.failed)
    if failed then .fail .laneFailed
    else do
      let sequence ← drawSequence i key spec.ordering .laneFailed
      let id ← nextTaskId
      newEntry home
      if answers.bound = false then do
        settleStrict i key sequence
        .fail .laneFailed
      else do
        let published ← (publishInitial i answers key id sequence).attempt
        match published with
        | .ok () => return id
        | .error e => do
          settleStrict i key sequence
          .fail e

def submitNow (i : ℕ) (answers : Answers) (hash : ℕ) (spec : TaskSpec) : RunnerProg ℕ :=
  withProducer do
    let home := config.home hash
    getOrCreateType config home spec
    acquireQueued (home, spec.ty) .queueFull
    dropping (releaseQueued (home, spec.ty)) do
      acquireGlobal .overloaded
      dropping releaseGlobal (submitAdmitted i answers home spec)

/-- `submit_async`: the permits are waited for. -/
def submitAsync (i : ℕ) (answers : Answers) (hash : ℕ) (spec : TaskSpec) : RunnerProg ℕ := do
  let home := config.home hash
  getOrCreateType config home spec
  acquireQueued (home, spec.ty) .abandoned
  dropping (releaseQueued (home, spec.ty)) do
    acquireGlobal .abandoned
    dropping releaseGlobal (submitAdmitted i answers home spec)

def submitDelayed (answers : Answers) (hash : ℕ) (spec : TaskSpec) : RunnerProg ℕ :=
  withProducer do
    let home := config.home hash
    acquireGlobal .overloaded
    dropping releaseGlobal do
      let id ← nextTaskId
      newEntry home
      .modify fun s => { s with delayed := Function.update s.delayed id (some ⟨home, hash, spec⟩) }
      if answers.registered then return id
      else do
        .modify fun s => { s with delayed := Function.update s.delayed id none }
        .fail .shuttingDown

/-- A delayed task is taken out of the table. -/
def takeDelayed (id : ℕ) : RunnerProg (Option DelayedTask) :=
  .atomic fun s => (s.delayed id, { s with delayed := Function.update s.delayed id none })

/-- The admission of a delayed task, up to its permit. -/
def requalify (answers : Answers) (task : DelayedTask) : RunnerProg Unit := do
  let phase ← .read (·.phase)
  if phase ≠ .accepting then .fail .shuttingDown
  else do
    let home := config.home task.hash
    if home ≠ task.home then .fail .laneFailed
    else do
      getOrCreateType config home task.spec
      acquireQueued (home, task.spec.ty) .queueFull
      if answers.installed then return
      else do
        releaseQueued (home, task.spec.ty)
        .fail .laneFailed

/-- A delayed task is rejected: the runner's permit comes back. -/
def rejectDelayed (e : SubmitRejection) : RunnerProg ℕ := do
  releaseGlobal
  .fail e

/-- A delayed task is rejected that has a permit of its type. -/
def rejectQueued (key : TypeKey) (e : SubmitRejection) : RunnerProg ℕ := do
  releaseQueued key
  rejectDelayed e

def expireDelayed (i : ℕ) (answers : Answers) (id : ℕ) : RunnerProg ℕ := do
  let delayed ← takeDelayed id
  match delayed with
  | none => return id
  | some task =>
    if answers.claimed = false then return id
    else do
      let key : TypeKey := (task.home, task.spec.ty)
      let ready ← (requalify config answers task).attempt
      match ready with
      | .error e => rejectDelayed e
      | .ok () => do
        let drawn ← (drawSequence i key task.spec.ordering .laneFailed).attempt
        match drawn with
        | .error e => rejectQueued key e
        | .ok sequence =>
          if answers.bound = false then do
            settleStrict i key sequence
            rejectQueued key .laneFailed
          else do
            let published ← (publishInitial i answers key id sequence).attempt
            match published with
            | .ok () => return id
            | .error e => do
              settleStrict i key sequence
              rejectQueued key e

/-- A task that has ended settles its number. -/
def settleTask (key : TypeKey) (sequence : ℕ) : RunnerProg Unit :=
  .modify fun s =>
    if (s.types key).any (sequence < ·.strictOrder.nextIssue) then
      s.updateType key fun state => state.settle sequence
    else s

/-! ## The system -/

inductive RunnerCall
  | submitNow (hash : ℕ) (spec : TaskSpec)
  | submitAsync (hash : ℕ) (spec : TaskSpec)
  | submitDelayed (hash : ℕ) (spec : TaskSpec)
  | expireDelayed (id : ℕ)
  | settleTask (key : TypeKey) (sequence : ℕ)

/-- The call of program `i`. Its outcome is the identity of the task, or a rejection. -/
def RunnerCall.prog (i : ℕ) (answers : Answers) :
    RunnerCall → RunnerProg (Except SubmitRejection ℕ)
  | .submitNow hash spec => (Napart.submitNow config i answers hash spec).attempt
  | .submitAsync hash spec => (Napart.submitAsync config i answers hash spec).attempt
  | .submitDelayed hash spec => (Napart.submitDelayed config answers hash spec).attempt
  | .expireDelayed id => (Napart.expireDelayed config i answers id).attempt
  | .settleTask key sequence => do
    Napart.settleTask key sequence
    return .ok 0

/-- What the rest of the runner does. -/
inductive RunnerEvent
  | phase (phase : RunnerPhase)
  | slot (home : ℕ) (accepting : Bool)
  | typeLimit (limit : ℕ)
  | failType (key : TypeKey)
  | closeQueued (key : TypeKey)
  | releaseQueued (key : TypeKey)
  | closeGlobal
  | releaseGlobal
  | retireDelayed (id : ℕ)

def RunnerStore.apply (s : RunnerStore) : RunnerEvent → RunnerStore
  | .phase phase => { s with phase }
  | .slot home accepting =>
    { s with slotAccepting := Function.update s.slotAccepting home accepting }
  | .typeLimit typeLimit => { s with typeLimit }
  | .failType key => s.updateType key .fail
  | .closeQueued key => s.updateType key fun state =>
    { state with queuedBudget := { state.queuedBudget with closed := true } }
  | .releaseQueued key => s.updateType key fun state =>
    { state with queuedBudget := state.queuedBudget.release }
  | .closeGlobal => { s with global := { s.global with closed := true } }
  | .releaseGlobal => { s with global := s.global.release }
  | .retireDelayed id => { s with delayed := Function.update s.delayed id none }

/-- Any number of calls on one runner. -/
def admission (calls : ℕ → RunnerCall × Answers) :
    Sys RunnerStore SubmitRejection (Except SubmitRejection ℕ) :=
  .launch (.new config) fun i => (calls i).1.prog config i (calls i).2

/-- The calls and the rest of the runner take a step. -/
def admissionExec : Sys RunnerStore SubmitRejection (Except SubmitRejection ℕ) →
    Input RunnerEvent → Sys RunnerStore SubmitRejection (Except SubmitRejection ℕ) :=
  Sys.exec RunnerStore.apply .abandoned

end NasaRuntime.Napart
