import NasaRuntime.Lib.Run
import NasaRuntime.Saga.Store.Instance

/-!
# The timer table of every saga and its leases

`nasaga-mysql/src/timer.rs` over the whole table `saga_timer`: the rows of all sagas, with the
statements of any number of workers. `Saga/Store/Instance.lean` has the same statements as one saga
sees them inside its transactions; here the table is shared, a timer's kind is any text, and the
workers bring their own clocks.

Every statement is one atomic `UPDATE … SET … WHERE …` or `INSERT`. `TimerOp.takes` is its `WHERE`
clause (with the argument checks in front of it) and `TimerOp.write` its `SET` clause.
`claim_due_timers` sends two statements, an `UPDATE` and a `SELECT`; between them any other
statement may run, so the `SELECT` is a query of its own, `claimBatch`.

**Theorem (`ofDb_run`).** The table that holds one saga's rows goes with every run of the saga: each
statement here does what the one of `Saga/Store/Instance.lean` does to the saga's timers.

Nothing is assumed of the clocks the workers bring; the fencing tokens of the claims are distinct, as
their issuer makes them.

**Theorem (`fenced_run`).** Over every interleaving, a row becomes `FIRED` at most once, and a
`FIRED` or `CANCELLED` row never changes; a completion or a release succeeds only while the lease
of its token is in force and unexpired, with no statement on the row since the claim; and a claim
takes a row only after every lease that was put on it has run out at the claimer's clock or has
ended.
-/

namespace NasaRuntime.Saga.TimerStore

open Table Tx List

/-! ## Rows -/

/-- A row of `saga_timer`. -/
structure TimerRow where
  sagaId : SagaId
  scope : TimerScope
  kind : String
  attempt : AttemptNo
  timerId : String
  dueAt : Int
  availableAt : Int
  state : TimerState
  expectedSagaVersion : Nat
  generation : Nat
  owner : Option String
  fencingToken : Option String
  claimedUntil : Option Int
  deriving DecidableEq

namespace TimerRow

/-- `state IN (PENDING, CLAIMED)`. -/
def live (r : TimerRow) : Bool := r.state = .pending || r.state = .claimed

/-- The primary key of a row. -/
def is (r : TimerRow) (saga : SagaId) (scope : TimerScope) (kind : String) (attempt : AttemptNo) :
    Bool :=
  r.sagaId = saga && r.scope = scope && r.kind = kind && r.attempt = attempt

/-- A row whose lease columns are cleared. -/
def unowned (r : TimerRow) (state : TimerState) : TimerRow :=
  { r with state, owner := none, fencingToken := none, claimedUntil := none }

/-- `CLAIMED` by this token, with a lease that runs beyond `now`. -/
def heldBy (r : TimerRow) (token : String) (now : Int) : Bool :=
  r.state = .claimed && r.fencingToken = some token && r.claimedUntil.any (now < ·)

/-- The rows a claim at `now` may take: the available ones and those whose lease ran out. -/
def claimable (r : TimerRow) (now : Int) : Bool :=
  (r.state = .pending && r.availableAt ≤ now) ||
    (r.state = .claimed && r.claimedUntil.any (· ≤ now))

/-- `ORDER BY due_at ASC`; rows that are due at once come in the order `tie` that the database
reads them in. -/
def dueBefore (tie : String → Nat) (r r' : TimerRow) : Prop :=
  r.dueAt < r'.dueAt ∨ (r.dueAt = r'.dueAt ∧ tie r.timerId ≤ tie r'.timerId)

instance (tie : String → Nat) : DecidableRel (dueBefore tie) := fun r r' =>
  inferInstanceAs (Decidable (r.dueAt < r'.dueAt ∨ _))

end TimerRow

/-- The table `saga_timer`. -/
abbrev Timers := List TimerRow

/-- A statement on the table. -/
abbrev TimerTx := Tx Timers SagaError

structure TimerSpec where
  timerId : String
  sagaId : SagaId
  scope : TimerScope
  kind : String
  dueAt : Int
  attempt : AttemptNo
  expectedSagaVersion : Nat

/-- The row `schedule_timer` inserts. -/
def TimerSpec.row (spec : TimerSpec) : TimerRow where
  sagaId := spec.sagaId
  scope := spec.scope
  kind := spec.kind
  attempt := spec.attempt
  timerId := spec.timerId
  dueAt := spec.dueAt
  availableAt := spec.dueAt
  state := .pending
  expectedSagaVersion := spec.expectedSagaVersion
  generation := 1
  owner := none
  fencingToken := none
  claimedUntil := none

/-- `validate_kind`. -/
def validKind (kind : String) : Bool := validCode 64 kind

inductive TimerReschedule
  | rescheduled | notFound
  deriving DecidableEq

/-! ## Statements -/

/-- `UPDATE saga_timer SET f WHERE p`, with the number of rows it matched. -/
def update (p : TimerRow → Bool) (f : TimerRow → TimerRow) : TimerTx Nat := do
  let rows ← get
  modify (updateWhere p f)
  return rows.countP p

/-- `schedule_timer`: the unique keys refuse a second row under a key or an id. -/
def scheduleTimer (spec : TimerSpec) : TimerTx TimerSchedule := do
  require (validTimerId spec.timerId) (.store "invalid timer id")
  require (validKind spec.kind) (.store "invalid timer kind")
  require (0 ≤ spec.dueAt) (.store "timer due_at must be a non-negative epoch millisecond")
  require (spec.expectedSagaVersion ≠ 0) (.store "timer expected saga version must start at 1")
  let rows ← get
  match rows.find? (·.is spec.sagaId spec.scope spec.kind spec.attempt) with
  | some existing =>
    require (existing.timerId = spec.timerId)
      (.store "timer already scheduled with a different timer id")
    return .alreadyScheduled
  | none =>
    require (rows.all (·.timerId ≠ spec.timerId))
      (.conflict "timer id collides with a different timer scope")
    modify (· ++ [spec.row])
    return .scheduled

/-- `cancel_scope_timers`: the number of rows cancelled. -/
def cancelScopeTimers (saga : SagaId) (scope : TimerScope) (kind : Option String) :
    TimerTx Nat := do
  require (kind.all validKind) (.store "invalid timer kind")
  update (fun r => r.sagaId = saga && r.scope = scope && kind.all (· = r.kind) && r.live)
    (·.unowned .cancelled)

/-- `reschedule_timer`: the row goes back under a new deadline and a new generation. -/
def rescheduleTimer (saga : SagaId) (scope : TimerScope) (kind : String) (attempt : AttemptNo)
    (dueAt : Int) (expectedSagaVersion : Nat) : TimerTx TimerReschedule := do
  require (validKind kind) (.store "invalid timer kind")
  require (0 ≤ dueAt) (.store "timer due_at must be a non-negative epoch millisecond")
  require (expectedSagaVersion ≠ 0) (.store "timer expected saga version must start at 1")
  let updated ← update (fun r => r.is saga scope kind attempt && r.live) fun r =>
    { r.unowned .pending with
      dueAt, availableAt := dueAt, expectedSagaVersion, generation := r.generation + 1 }
  return if updated = 0 then .notFound else .rescheduled

/-- The rows a claim takes: the `limit` claimable ones that are due first. -/
def dueFirst (rows : Timers) (now : Int) (limit : Nat) (tie : String → Nat) : Timers :=
  ((rows.filter (·.claimable now)).insertionSort (TimerRow.dueBefore tie)).take limit

/-- The `UPDATE` of `claim_due_timers`. -/
def claimDueTimers (owner token : String) (now lease : Int) (limit : Nat) (tie : String → Nat) :
    TimerTx Unit := do
  require (validOwner owner) (.store "invalid timer owner")
  require (0 ≤ now) (.store "timer claim now must be a non-negative epoch millisecond")
  require (0 < lease ∧ limit ≠ 0) (.store "timer claim requires a positive lease and limit")
  require (now + lease < 2 ^ 63) (.store "timer claim lease deadline overflow")
  modify fun rows => updateWhere (· ∈ dueFirst rows now limit tie)
    (fun r => { r with
      state := .claimed
      owner := some owner
      fencingToken := some token
      claimedUntil := some (now + lease) }) rows

/-- The `SELECT` of `claim_due_timers`: the rows it returns with the token. -/
def claimBatch (rows : Timers) (owner token : String) : Timers :=
  (rows.filter fun r =>
    r.owner = some owner && r.fencingToken = some token && r.state = .claimed).insertionSort
      (·.dueAt ≤ ·.dueAt)

def completeTimer (timerId token : String) (now : Int) : TimerTx TimerFencing := do
  require (validTimerId timerId) (.store "invalid timer id")
  require (0 ≤ now) (.store "timer completion now must be a non-negative epoch millisecond")
  let updated ← update (fun r => r.timerId = timerId && r.heldBy token now) (·.unowned .fired)
  return if updated = 0 then .lost else .applied

/-- `release_timer`. The statement joins the timer with its instance: `control` is the instance's
control state as the join reads it, none if there is no such instance. -/
def releaseTimer (timerId token : String) (now availableAt : Int) (control : Option ControlState) :
    TimerTx TimerFencing := do
  require (validTimerId timerId) (.store "invalid timer id")
  require (0 ≤ now) (.store "timer release now must be a non-negative epoch millisecond")
  require (0 ≤ availableAt) (.store "timer available_at must be a non-negative epoch millisecond")
  let updated ← update
    (fun r => control.isSome && r.timerId = timerId && r.heldBy token now)
    fun r => { r.unowned .pending with
      availableAt := if control = some .paused then availableAt else r.dueAt }
  return if updated = 0 then .lost else .applied

/-- `wake_saga_timers`: the number of rows woken. -/
def wakeSagaTimers (saga : SagaId) : TimerTx Nat :=
  update (fun r => r.sagaId = saga && r.state = .pending && r.availableAt ≠ r.dueAt)
    fun r => { r with availableAt := r.dueAt }

/-! ## The machine -/

/-- One call of a worker or of an orchestrator. -/
inductive TimerOp
  | schedule (spec : TimerSpec)
  | claim (owner token : String) (now lease : Int) (limit : Nat) (tie : String → Nat)
  | complete (timerId token : String) (now : Int)
  | release (timerId token : String) (now availableAt : Int) (control : Option ControlState)
  | cancel (saga : SagaId) (scope : TimerScope) (kind : Option String)
  | reschedule (saga : SagaId) (scope : TimerScope) (kind : String) (attempt : AttemptNo)
      (dueAt : Int) (expectedSagaVersion : Nat)
  | wake (saga : SagaId)

/-- The table after a call; a call that is refused leaves it as it was. -/
def exec (rows : Timers) : TimerOp → Timers
  | .schedule spec => (scheduleTimer spec).commit rows
  | .claim owner token now lease limit tie =>
    (claimDueTimers owner token now lease limit tie).commit rows
  | .complete timerId token now => (completeTimer timerId token now).commit rows
  | .release timerId token now availableAt control =>
    (releaseTimer timerId token now availableAt control).commit rows
  | .cancel saga scope kind => (cancelScopeTimers saga scope kind).commit rows
  | .reschedule saga scope kind attempt dueAt version =>
    (rescheduleTimer saga scope kind attempt dueAt version).commit rows
  | .wake saga => (wakeSagaTimers saga).commit rows

/-- The table after a run from the empty one. -/
def run (ops : List TimerOp) : Timers := runFrom exec [] ops

/-- The row under a timer id. -/
def rowOf (rows : Timers) (timerId : String) : Option TimerRow :=
  rows.find? (·.timerId = timerId)

namespace TimerOp

/-- The fencing token a claim brings. -/
def claimToken : TimerOp → Option String
  | .claim _ token _ _ _ _ => some token
  | _ => none

/-- The argument checks in front of the statement. -/
def accepted : TimerOp → Bool
  | .schedule _ => false
  | .claim owner _ now lease limit _ =>
    validOwner owner && 0 ≤ now && (0 < lease && limit ≠ 0) && now + lease < 2 ^ 63
  | .complete timerId _ now => validTimerId timerId && 0 ≤ now
  | .release timerId _ now availableAt _ => validTimerId timerId && 0 ≤ now && 0 ≤ availableAt
  | .cancel _ _ kind => kind.all validKind
  | .reschedule _ _ kind _ dueAt version => validKind kind && 0 ≤ dueAt && version ≠ 0
  | .wake _ => true

/-- The `WHERE` clause. -/
def selects (rows : Timers) : TimerOp → TimerRow → Bool
  | .schedule _ => fun _ => false
  | .claim _ _ now _ limit tie => fun r => r ∈ dueFirst rows now limit tie
  | .complete timerId token now => fun r => r.timerId = timerId && r.heldBy token now
  | .release timerId token now _ control =>
    fun r => control.isSome && r.timerId = timerId && r.heldBy token now
  | .cancel saga scope kind =>
    fun r => r.sagaId = saga && r.scope = scope && kind.all (· = r.kind) && r.live
  | .reschedule saga scope kind attempt _ _ => fun r => r.is saga scope kind attempt && r.live
  | .wake saga => fun r => r.sagaId = saga && r.state = .pending && r.availableAt ≠ r.dueAt

/-- The call is accepted and its `WHERE` clause selects the row. -/
def takes (op : TimerOp) (rows : Timers) (r : TimerRow) : Bool :=
  op.accepted && op.selects rows r

/-- The `SET` clause. -/
def write : TimerOp → TimerRow → TimerRow
  | .schedule _ => id
  | .claim owner token now lease _ _ => fun r => { r with
      state := .claimed
      owner := some owner
      fencingToken := some token
      claimedUntil := some (now + lease) }
  | .complete _ _ _ => (·.unowned .fired)
  | .release _ _ _ availableAt control => fun r => { r.unowned .pending with
      availableAt := if control = some .paused then availableAt else r.dueAt }
  | .cancel _ _ _ => (·.unowned .cancelled)
  | .reschedule _ _ _ _ dueAt version => fun r => { r.unowned .pending with
      dueAt, availableAt := dueAt, expectedSagaVersion := version,
      generation := r.generation + 1 }
  | .wake _ => fun r => { r with availableAt := r.dueAt }

end TimerOp

/-! ## What a statement does to the table -/

variable {f : TimerRow → TimerRow} {p : TimerRow → Bool} {α : Type} {db db' : Db}

theorem commit_update (answer : Nat → α) (rows : Timers) :
    (update p f >>= fun n => pure (answer n)).commit rows = updateWhere p f rows := rfl

variable (rows : Timers)

theorem commit_update_only : (update p f).commit rows = updateWhere p f rows := rfl

theorem commit_modify {f : Timers → Timers} :
    (modify f : TimerTx PUnit).commit rows = f rows := rfl

/-- A call that is accepted updates the rows its `WHERE` clause selects. -/
theorem exec_eq_ite (op : TimerOp) (hop : ∀ spec, op ≠ .schedule spec) :
    exec rows op = if op.accepted then updateWhere (op.selects rows) op.write rows else rows := by
  cases op with
  | schedule spec => exact absurd rfl (hop spec)
  | wake saga => rfl
  | cancel saga scope kind =>
    simp only [exec, cancelScopeTimers, commit_require, commit_update_only, TimerOp.accepted]
    rfl
  | complete timerId token now =>
    simp only [exec, completeTimer, commit_require, commit_update, TimerOp.accepted,
      Bool.and_eq_true, decide_eq_true_eq, ite_and]
    rfl
  | release timerId token now availableAt control =>
    simp only [exec, releaseTimer, commit_require, commit_update, TimerOp.accepted,
      Bool.and_eq_true, decide_eq_true_eq, ite_and]
    rfl
  | reschedule saga scope kind attempt dueAt version =>
    simp only [exec, rescheduleTimer, commit_require, commit_update, TimerOp.accepted,
      Bool.and_eq_true, decide_eq_true_eq, ite_and]
    rfl
  | claim owner token now lease limit tie =>
    simp only [exec, claimDueTimers, commit_require, commit_modify, TimerOp.accepted,
      Bool.and_eq_true, decide_eq_true_eq, ite_and]
    rfl

/-- **What a call does.** Every call but a schedule rewrites the rows it takes by its `SET` clause
and leaves the others. -/
theorem exec_eq_updateWhere (op : TimerOp) (hop : ∀ spec, op ≠ .schedule spec) :
    exec rows op = updateWhere (op.takes rows) op.write rows := by
  rw [exec_eq_ite rows op hop]
  by_cases ha : op.accepted = true
  · simp only [ha, if_true, updateWhere, TimerOp.takes, Bool.true_and]
  · simp only [ha, if_false, updateWhere, TimerOp.takes, Bool.false_and, map_id',
      Bool.false_eq_true]

theorem exec_schedule (spec : TimerSpec) :
    exec rows (.schedule spec) = rows ∨
      (exec rows (.schedule spec) = rows ++ [spec.row] ∧ ∀ r ∈ rows, r.timerId ≠ spec.timerId) := by
  rcases commit_cases (scheduleTimer spec) rows with ⟨a, rows', hends, hcomm⟩ | hsame
  · rw [exec, hcomm]
    simp only [scheduleTimer, ends_bind, ends_require, ends_get] at hends
    obtain ⟨_, _, ⟨-, rfl⟩, _, _, ⟨-, rfl⟩, _, _, ⟨-, rfl⟩, _, _, ⟨-, rfl⟩, _, _, ⟨rfl, rfl⟩, h⟩ :=
      hends
    split at h
    · simp only [ends_bind, ends_require, ends_pure] at h
      obtain ⟨_, _, ⟨-, rfl⟩, -, rfl⟩ := h
      exact .inl rfl
    · simp only [ends_bind, ends_require, ends_modify, ends_pure] at h
      obtain ⟨_, _, ⟨hid, rfl⟩, _, _, rfl, -, rfl⟩ := h
      exact .inr ⟨rfl, by simpa using hid⟩
  · exact .inl hsame

@[simp] theorem timerId_write (op : TimerOp) (r : TimerRow) :
    (op.write r).timerId = r.timerId := by
  cases op <;> rfl

/-- Timer ids are unique. -/
def Keyed (rows : Timers) : Prop := (rows.map (·.timerId)).Nodup

theorem keyed_exec {rows : Timers} (hk : Keyed rows) (op : TimerOp) : Keyed (exec rows op) := by
  by_cases hop : ∃ spec, op = .schedule spec
  · obtain ⟨spec, rfl⟩ := hop
    rcases exec_schedule rows spec with h | ⟨h, hnew⟩
    · rwa [h]
    · rw [h, Keyed, map_append, nodup_append]
      refine ⟨hk, by simp, fun a ha b hb => ?_⟩
      obtain ⟨r, hr, rfl⟩ := mem_map.1 ha
      rw [map_singleton, mem_singleton] at hb
      rw [hb]
      exact hnew r hr
  · rw [exec_eq_updateWhere rows op fun spec h => hop ⟨spec, h⟩, Keyed,
      map_updateWhere _ (timerId_write op)]
    exact hk

theorem keyed_run (ops : List TimerOp) : Keyed (run ops) := by
  refine inv_runFrom_all (I := Keyed) (fun _ op hk => keyed_exec hk op) ?_ ops
  exact nodup_nil

/-- **One row.** A call leaves the row under an id, rewrites it if it takes it, or is the schedule
that inserts it. -/
theorem rowOf_exec (op : TimerOp) (id : String) :
    (rowOf (exec rows op) id = rowOf rows id ∧
        ∀ r, rowOf rows id = some r → op.takes rows r = false) ∨
      (∃ r, rowOf rows id = some r ∧ op.takes rows r = true ∧
        rowOf (exec rows op) id = some (op.write r)) ∨
      (∃ spec, op = .schedule spec ∧ rowOf rows id = none ∧
        rowOf (exec rows op) id = some spec.row) := by
  by_cases hop : ∃ spec, op = .schedule spec
  · obtain ⟨spec, rfl⟩ := hop
    have htak : ∀ r, (TimerOp.schedule spec).takes rows r = false := fun _ => rfl
    rcases exec_schedule rows spec with h | ⟨h, hnew⟩
    · exact .inl ⟨by rw [h], fun r _ => htak r⟩
    · rw [h]
      unfold rowOf
      rw [find?_append]
      cases hrow : rows.find? (·.timerId = id) with
      | some r => exact .inl ⟨rfl, fun r _ => htak r⟩
      | none =>
        by_cases hid : spec.row.timerId = id
        · exact .inr (.inr ⟨spec, rfl, rfl, by simp [hid]⟩)
        · exact .inl ⟨by simp [hid], nofun⟩
  · rw [exec_eq_updateWhere rows op fun spec h => hop ⟨spec, h⟩, rowOf,
      find?_updateWhere fun r => by rw [timerId_write], ← rowOf]
    cases hrow : rowOf rows id with
    | none => exact .inl ⟨rfl, nofun⟩
    | some r =>
      by_cases ht : op.takes rows r = true
      · exact .inr (.inl ⟨r, rfl, ht, by simp [ht]⟩)
      · refine .inl ⟨by simp [ht], fun r' hr' => ?_⟩
        cases hr'
        exact eq_false_of_ne_true ht

theorem rowOf_exec_of_takes {rows : Timers} {op : TimerOp} {id : String} {r : TimerRow}
    (hrow : rowOf rows id = some r) (ht : op.takes rows r = true) :
    rowOf (exec rows op) id = some (op.write r) := by
  rcases rowOf_exec rows op id with ⟨-, hno⟩ | ⟨r', hr', -, hnew⟩ | ⟨-, -, hnone, -⟩
  · rw [hno r hrow] at ht
    cases ht
  · rw [hrow] at hr'
    cases hr'
    exact hnew
  · rw [hrow] at hnone
    cases hnone

/-! ## One saga's view

The statements of `Saga/Store/Instance.lean` are these, on a table that holds one saga's rows. -/

@[simp] theorem asStr_eq_iff {k k' : TimerKind} : k.asStr = k'.asStr ↔ k = k' := by
  constructor
  · cases k <;> cases k' <;> first | exact fun _ => rfl | exact fun h => absurd h (by decide)
  · exact congrArg TimerKind.asStr

variable (saga : SagaId)

/-- The statements on the timers in the transactions of one saga. -/
inductive Statement
  | schedule (spec : Saga.TimerSpec)
  | cancel (scope : TimerScope) (kind : Option TimerKind)
  | claim (owner token : String) (now lease : Int) (limit : Nat)
  | complete (timerId token : String) (now : Int)
  | release (timerId token : String) (now availableAt : Int)
  | wake

namespace Statement

def commit (db : Db) : Statement → Db
  | .schedule spec => (Saga.scheduleTimer spec).commit db
  | .cancel scope kind => (Saga.cancelScopeTimers scope kind).commit db
  | .claim owner token now lease limit =>
    (Saga.claimDueTimers owner token now lease limit).commit db
  | .complete timerId token now => (Saga.completeTimer timerId token now).commit db
  | .release timerId token now availableAt =>
    (Saga.releaseTimer timerId token now availableAt).commit db
  | .wake => Saga.wakeSagaTimers.commit db

end Statement

open TimerRow TimerOp

/-! ## What a statement needs of a row it takes -/

variable {r : TimerRow} {rows : Timers} {now : Int} {tie : String → Nat} {op : TimerOp}
  {deadline : Int} {p : TimerRow → Bool} {limit : Nat} {id : String}

theorem claimable_of_dueFirst (h : r ∈ dueFirst rows now limit tie) : r.claimable now = true := by
  have hmem := mem_of_mem_take h
  rw [mem_insertionSort] at hmem
  exact (mem_filter.1 hmem).2

theorem live_of_heldBy {token : String} (h : r.heldBy token now = true) : r.live = true := by
  simp only [heldBy, Bool.and_eq_true, decide_eq_true_eq] at h
  simp [live, h.1.1]

theorem live_of_claimable (h : r.claimable now = true) : r.live = true := by
  simp only [claimable, Bool.or_eq_true, Bool.and_eq_true, decide_eq_true_eq] at h
  rcases h with h | h <;> simp [live, h.1]

theorem live_of_takes (h : op.takes rows r = true) : r.live = true := by
  simp only [takes, Bool.and_eq_true] at h
  obtain ⟨-, h⟩ := h
  cases op with
  | schedule spec => cases h
  | claim owner token now lease limit tie =>
    exact live_of_claimable (claimable_of_dueFirst (of_decide_eq_true h))
  | complete timerId token now | release timerId token now availableAt control =>
    simp only [selects, Bool.and_eq_true] at h
    exact live_of_heldBy h.2
  | cancel saga scope kind | reschedule saga scope kind attempt dueAt version =>
    simp only [selects, Bool.and_eq_true] at h
    exact h.2
  | wake saga =>
    simp only [selects, Bool.and_eq_true, decide_eq_true_eq] at h
    simp [live, h.1.2]

/-- Only a claim leaves a row `CLAIMED`, under its own token. -/
theorem claim_of_claimed (h : op.takes rows r = true) (hc : (op.write r).state = .claimed) :
    ∃ owner token now lease limit tie, op = .claim owner token now lease limit tie := by
  cases op with
  | claim owner token now lease limit tie => exact ⟨owner, token, now, lease, limit, tie, rfl⟩
  | schedule spec => cases h
  | wake saga =>
    simp only [takes, selects, Bool.and_eq_true, decide_eq_true_eq] at h
    rw [show (write (.wake saga) r).state = r.state from rfl, h.2.1.2] at hc
    cases hc
  | _ => cases hc

/-! ## Rows that are done -/

theorem rowOf_runFrom_of_not_live
    (hrow : rowOf rows id = some r) (hr : r.live = false) (ops : List TimerOp) :
    rowOf (runFrom exec rows ops) id = some r := by
  induction ops generalizing rows with
  | nil => exact hrow
  | cons op ops ih =>
    refine ih ?_
    rcases rowOf_exec rows op id with ⟨hsame, -⟩ | ⟨r', hr', ht, -⟩ | ⟨-, -, hnone, -⟩
    · rw [hsame, hrow]
    · rw [hrow] at hr'
      cases hr'
      rw [live_of_takes ht] at hr
      cases hr
    · rw [hrow] at hnone
      cases hnone

/-! ## Leases -/

/-- The call takes the row under the id. -/
def Takes (rows : Timers) (op : TimerOp) (id : String) : Prop :=
  ∃ r, rowOf rows id = some r ∧ op.takes rows r = true

/-- The call makes the row under the id `FIRED`. -/
def Fires (rows : Timers) (op : TimerOp) (id : String) : Prop :=
  (∀ r, rowOf rows id = some r → r.state ≠ .fired) ∧
    ∃ r, rowOf (exec rows op) id = some r ∧ r.state = .fired

/-- After the run the lease of `token` on the row is in force: a claim of that token put it there
and no statement has taken the row since. -/
def InForce (ops : List TimerOp) (id token : String) (deadline : Int) : Prop :=
  (∃ r, rowOf (run ops) id = some r ∧ r.state = .claimed ∧ r.fencingToken = some token ∧
    r.claimedUntil = some deadline) ∧
  ∃ pre owner start lease limit tie post,
    ops = pre ++ .claim owner token start lease limit tie :: post ∧ deadline = start + lease ∧
    Takes (run pre) (.claim owner token start lease limit tie) id ∧
    ∀ mid op rest, post = mid ++ op :: rest →
      ¬ Takes (run (pre ++ .claim owner token start lease limit tie :: mid)) op id

/-- What ends a lease without ending the timer: its holder gives it back, the timer is rescheduled,
or a claim finds it run out. -/
def TimerOp.endsLease (token : String) (deadline : Int) : TimerOp → Prop
  | .release _ t _ _ _ => t = token
  | .reschedule _ _ _ _ _ _ => True
  | .claim _ _ now _ _ _ => deadline ≤ now
  | _ => False

theorem run_append (ops ops' : List TimerOp) : run (ops ++ ops') = runFrom exec (run ops) ops' :=
  runFrom_append [] ops ops'

theorem run_concat (ops : List TimerOp) (op : TimerOp) : run (ops ++ [op]) = exec (run ops) op :=
  run_append ops [op]

variable {ops : List TimerOp}

/-- A row that is `CLAIMED` after a run carries the lease of a claim that took it, and has been as
it is since. -/
theorem claimed_since (hrow : rowOf (run ops) id = some r) (hc : r.state = .claimed) :
    ∃ pre owner token start lease limit tie post,
      ops = pre ++ .claim owner token start lease limit tie :: post ∧
      r.fencingToken = some token ∧ r.claimedUntil = some (start + lease) ∧
      Takes (run pre) (.claim owner token start lease limit tie) id ∧
      ∀ mid rest, post = mid ++ rest →
        rowOf (run (pre ++ .claim owner token start lease limit tie :: mid)) id = some r := by
  have hstart : rowOf [] id ≠ rowOf (run ops) id := by
    rw [hrow]
    exact Option.some_ne_none r ∘ Eq.symm
  obtain ⟨pre, op, post, rfl, hne, hpost⟩ := runFrom_last_change (rowOf · id) hstart
  have hset : rowOf (exec (run pre) op) id = some r := by
    rw [← run_concat, ← hrow]
    exact hpost [] post rfl
  rcases rowOf_exec (run pre) op id with ⟨hsame, -⟩ | ⟨r0, hr0, ht, hnew⟩ | ⟨spec, -, -, hnew⟩
  · refine absurd ?_ hne
    rw [hset] at hsame
    exact hsame.symm.trans hrow.symm
  · rw [hset] at hnew
    cases hnew
    obtain ⟨owner, token, start, lease, limit, tie, rfl⟩ := claim_of_claimed ht hc
    refine ⟨pre, owner, token, start, lease, limit, tie, post, rfl, rfl, rfl, ⟨r0, hr0, ht⟩, ?_⟩
    intro mid rest heq
    rw [← hrow]
    exact hpost mid rest heq
  · rw [hset] at hnew
    cases hnew
    cases hc

variable {id token : String}

theorem inForce_of_claimed (hn : (ops.filterMap claimToken).Nodup)
    (hrow : rowOf (run ops) id = some r)
    (hc : r.state = .claimed) (ht : r.fencingToken = some token)
    (hd : r.claimedUntil = some deadline) : InForce ops id token deadline := by
  refine ⟨⟨r, hrow, hc, ht, hd⟩, ?_⟩
  obtain ⟨pre, owner, token', start, lease, limit, tie, post, rfl, ht', hd', htakes, hstays⟩ :=
    claimed_since hrow hc
  rw [ht] at ht'
  rw [hd] at hd'
  cases ht'
  cases hd'
  refine ⟨pre, owner, start, lease, limit, tie, post, rfl, rfl, htakes, ?_⟩
  -- a statement that took the row would have left another state or another token
  rintro mid op rest rfl ⟨r', hr', htak⟩
  rw [hstays mid (op :: rest) rfl] at hr'
  cases hr'
  have haft := rowOf_exec_of_takes (hstays mid (op :: rest) rfl) htak
  rw [← run_concat] at haft
  have hsame := hstays (mid ++ [op]) rest (by simp)
  rw [show pre ++ claim owner token start lease limit tie :: (mid ++ [op]) =
    pre ++ claim owner token start lease limit tie :: mid ++ [op] by simp, haft] at hsame
  have hw : op.write r = r := Option.some_inj.1 hsame
  obtain ⟨owner', token', start', lease', limit', tie', rfl⟩ :=
    claim_of_claimed htak (by rw [hw, hc])
  have htok : some token' = some token := by
    rw [← ht, ← hw]
    rfl
  rw [filterMap_append, nodup_append, filterMap_cons_some (f := claimToken) rfl, nodup_cons] at hn
  exact hn.2.1.1 (mem_filterMap.2 ⟨_, mem_append_right mid mem_cons_self, htok⟩)

/-! ## Completing and releasing -/

theorem rowOf_of_mem (hk : Keyed rows) (hr : r ∈ rows) : rowOf rows r.timerId = some r :=
  find?_of_mem hk hr

theorem heldBy_of_applied (hk : Keyed rows)
    (h : (if rows.countP p = 0 then TimerFencing.lost else .applied) = .applied)
    (hp : ∀ r, p r = true → r.timerId = id ∧ r.heldBy token now = true) :
    ∃ r, rowOf rows id = some r ∧ r.heldBy token now = true := by
  have hcnt : rows.countP p ≠ 0 := by
    intro hzero
    rw [if_pos hzero] at h
    cases h
  obtain ⟨r, hmem, hr⟩ := countP_pos_iff.1 (Nat.pos_of_ne_zero hcnt)
  obtain ⟨rfl, hheld⟩ := hp r hr
  exact ⟨r, rowOf_of_mem hk hmem, hheld⟩

theorem ends_update {rows' : Timers} {f : TimerRow → TimerRow} {n : Nat}
    (h : (update p f).Ends rows n rows') : n = rows.countP p := by
  cases h
  rfl

theorem heldBy_of_complete (hk : Keyed rows)
    (h : (completeTimer id token now).answer rows = some .applied) :
    ∃ r, rowOf rows id = some r ∧ r.heldBy token now = true := by
  obtain ⟨rows', hends⟩ := answer_eq_some.1 h
  simp only [completeTimer, ends_bind, ends_require, ends_pure] at hends
  obtain ⟨_, _, ⟨-, rfl⟩, _, _, ⟨-, rfl⟩, n, _, hn, happ, rfl⟩ := hends
  rw [ends_update hn] at happ
  exact heldBy_of_applied hk happ fun r hr => by simpa using hr

theorem heldBy_of_release (hk : Keyed rows) {availableAt : Int} {control : Option ControlState}
    (h : (releaseTimer id token now availableAt control).answer rows = some .applied) :
    ∃ r, rowOf rows id = some r ∧ r.heldBy token now = true := by
  obtain ⟨rows', hends⟩ := answer_eq_some.1 h
  simp only [releaseTimer, ends_bind, ends_require, ends_pure] at hends
  obtain ⟨_, _, ⟨-, rfl⟩, _, _, ⟨-, rfl⟩, _, _, ⟨-, rfl⟩, n, _, hn, happ, rfl⟩ := hends
  rw [ends_update hn] at happ
  refine heldBy_of_applied hk happ fun r hr => ?_
  simp only [Bool.and_eq_true, decide_eq_true_eq] at hr
  exact ⟨hr.1.2, hr.2⟩

theorem inForce_of_heldBy (hn : (ops.filterMap claimToken).Nodup)
    (h : ∃ r, rowOf (run ops) id = some r ∧ r.heldBy token now = true) :
    ∃ deadline, now < deadline ∧ InForce ops id token deadline := by
  obtain ⟨r, hrow, hheld⟩ := h
  simp only [heldBy, Bool.and_eq_true, decide_eq_true_eq, Option.any_eq_true] at hheld
  obtain ⟨⟨hc, ht⟩, deadline, hd, hnow⟩ := hheld
  exact ⟨deadline, hnow, inForce_of_claimed hn hrow hc ht hd⟩

/-! ## Claims after claims -/

theorem deadline_le_of_takes {owner token : String} {lease : Int}
    (h : (claim owner token now lease limit tie).takes rows r = true)
    (hc : r.state = .claimed) (hd : r.claimedUntil = some deadline) : deadline ≤ now := by
  simp only [takes, selects, Bool.and_eq_true, decide_eq_true_eq] at h
  have hclaim := claimable_of_dueFirst h.2
  simpa [claimable, hc, hd] using hclaim

/-- A statement that takes a row under a lease, and leaves a timer that can still be claimed, ends
the lease. -/
theorem endsLease_of_takes {token : String} (h : op.takes rows r = true) (hc : r.state = .claimed)
    (ht : r.fencingToken = some token) (hd : r.claimedUntil = some deadline) :
    op.endsLease token deadline ∨ (op.write r).live = false := by
  cases op with
  | schedule spec => cases h
  | claim owner token' now lease limit tie => exact .inl (deadline_le_of_takes h hc hd)
  | complete timerId token' now => exact .inr rfl
  | release timerId token' now availableAt control =>
    simp only [takes, selects, heldBy, Bool.and_eq_true,
      decide_eq_true_eq, ht, Option.some_inj] at h
    exact .inl h.2.2.1.2.symm
  | cancel saga scope kind => exact .inr rfl
  | reschedule saga scope kind attempt dueAt version => exact .inl trivial
  | wake saga =>
    simp only [takes, selects, Bool.and_eq_true, decide_eq_true_eq] at h
    rw [hc] at h
    cases h.2.1.2

/-- Between two claims of a row, the first lease runs out at the second claimer's clock or ends. -/
theorem lease_over_of_claims {pre mid : List TimerOp} {id owner1 token1 owner2 token2 : String}
    {start1 lease1 start2 lease2 : Int} {limit1 limit2 : Nat} {tie1 tie2 : String → Nat}
    (h1 : Takes (run pre) (.claim owner1 token1 start1 lease1 limit1 tie1) id)
    (h2 : Takes (run (pre ++ .claim owner1 token1 start1 lease1 limit1 tie1 :: mid))
      (.claim owner2 token2 start2 lease2 limit2 tie2) id) :
    start1 + lease1 ≤ start2 ∨ ∃ mid1 op mid2, mid = mid1 ++ op :: mid2 ∧
      Takes (run (pre ++ .claim owner1 token1 start1 lease1 limit1 tie1 :: mid1)) op id ∧
      op.endsLease token1 (start1 + lease1) := by
  obtain ⟨r0, hr0, ht0⟩ := h1
  obtain ⟨r2, hr2, ht2⟩ := h2
  have hsplit : ∀ rest, run (pre ++ .claim owner1 token1 start1 lease1 limit1 tie1 :: rest) =
      runFrom exec (exec (run pre) (.claim owner1 token1 start1 lease1 limit1 tie1)) rest :=
    fun rest => run_append pre (_ :: rest)
  have hset := rowOf_exec_of_takes hr0 ht0
  rw [hsplit] at hr2 ht2
  rcases runFrom_first_change (rowOf · id)
    (exec (run pre) (.claim owner1 token1 start1 lease1 limit1 tie1)) mid with
    hall | ⟨mid1, op, mid2, rfl, hbef, haft⟩
  · -- the row is as the first claim left it
    rw [hall mid [] (append_nil mid).symm, hset] at hr2
    cases hr2
    exact .inl (deadline_le_of_takes ht2 rfl rfl)
  · refine .inr ⟨mid1, op, mid2, rfl, ?_⟩
    rw [hsplit]
    rw [hset] at hbef haft
    rw [runFrom_append] at haft
    rcases rowOf_exec (runFrom exec (exec (run pre)
      (.claim owner1 token1 start1 lease1 limit1 tie1)) mid1) op id with
      ⟨hsame, -⟩ | ⟨r, hr, ht, hnew⟩ | ⟨-, -, hnone, -⟩
    · exact absurd (hsame.trans hbef) haft
    · refine ⟨⟨r, hr, ht⟩, ?_⟩
      rw [hbef] at hr
      cases hr
      rcases endsLease_of_takes ht rfl rfl rfl with hends | hdone
      · exact hends
      · -- a timer that is done is never claimed again
        rw [runFrom_append, runFrom_cons, rowOf_runFrom_of_not_live hnew hdone] at hr2
        cases hr2
        rw [live_of_takes ht2] at hdone
        cases hdone
    · rw [hbef] at hnone
      cases hnone

/-! ## The theorem -/

/-- **Fenced timers.** -/
theorem fenced_run (ops : List TimerOp) (htokens : (ops.filterMap claimToken).Nodup) :
    (∀ id pre op mid op' post, ops = pre ++ op :: mid ++ op' :: post →
      Fires (run pre) op id → ¬ Fires (run (pre ++ op :: mid)) op' id) ∧
    (∀ id r pre post, ops = pre ++ post → rowOf (run pre) id = some r →
      r.state = .fired ∨ r.state = .cancelled → rowOf (run ops) id = some r) ∧
    (∀ id token now, (completeTimer id token now).answer (run ops) = some .applied →
      ∃ deadline, now < deadline ∧ InForce ops id token deadline) ∧
    (∀ id token now availableAt control,
      (releaseTimer id token now availableAt control).answer (run ops) = some .applied →
      ∃ deadline, now < deadline ∧ InForce ops id token deadline) ∧
    (∀ owner token, ∀ r ∈ claimBatch (run ops) owner token,
      ∃ deadline, InForce ops r.timerId token deadline) ∧
    (∀ id pre owner1 token1 start1 lease1 limit1 tie1 mid owner2 token2 start2 lease2 limit2 tie2
      post, ops = pre ++ .claim owner1 token1 start1 lease1 limit1 tie1 :: mid ++
        .claim owner2 token2 start2 lease2 limit2 tie2 :: post →
      Takes (run pre) (.claim owner1 token1 start1 lease1 limit1 tie1) id →
      Takes (run (pre ++ .claim owner1 token1 start1 lease1 limit1 tie1 :: mid))
        (.claim owner2 token2 start2 lease2 limit2 tie2) id →
      start1 + lease1 ≤ start2 ∨ ∃ mid1 op mid2, mid = mid1 ++ op :: mid2 ∧
        Takes (run (pre ++ .claim owner1 token1 start1 lease1 limit1 tie1 :: mid1)) op id ∧
        op.endsLease token1 (start1 + lease1)) := by
  refine ⟨?_, ?_, ?_, ?_, ?_, ?_⟩
  · intro id pre op mid op' post _ hfir hfir'
    obtain ⟨-, r, hr, hfired⟩ := hfir
    have hlat : rowOf (run (pre ++ op :: mid)) id = some r := by
      rw [run_append, runFrom_cons]
      exact rowOf_runFrom_of_not_live hr (by simp [live, hfired]) mid
    exact hfir'.1 r hlat hfired
  · intro id r pre post hops hrow hdone
    rw [hops, run_append]
    refine rowOf_runFrom_of_not_live hrow ?_ post
    rcases hdone with hdone | hdone <;> simp [live, hdone]
  · intro id token now h
    exact inForce_of_heldBy htokens (heldBy_of_complete (keyed_run ops) h)
  · intro id token now availableAt control h
    exact inForce_of_heldBy htokens (heldBy_of_release (keyed_run ops) h)
  · intro owner token r hr
    rw [claimBatch, mem_insertionSort, mem_filter] at hr
    simp only [Bool.and_eq_true, decide_eq_true_eq] at hr
    obtain ⟨hmem, ⟨-, ht⟩, hc⟩ := hr
    have hrow := rowOf_of_mem (keyed_run ops) hmem
    obtain ⟨-, -, -, start, lease, -, -, -, -, -, hd, -⟩ := claimed_since hrow hc
    exact ⟨start + lease, inForce_of_claimed htokens hrow hc ht hd⟩
  · intro id pre owner1 token1 start1 lease1 limit1 tie1 mid owner2 token2 start2 lease2 limit2
      tie2 post _ h1 h2
    exact lease_over_of_claims h1 h2

/-- A timer is taken over after its lease ran out: the first worker, whose clock is behind, can no
longer complete it, and the second one can. -/
def takenOver : List TimerOp :=
  [.schedule ⟨"timer", "saga", .inst, "step-timeout", 10, 1, 1⟩,
    .claim "first" "token-1" 20 100 5 (fun _ => 0),
    .claim "second" "token-2" 150 100 5 (fun _ => 0)]

theorem fenced_run_takenOver :
    (completeTimer "timer" "token-1" 90).answer (run takenOver) = some .lost ∧
      (completeTimer "timer" "token-2" 160).answer (run takenOver) = some .applied ∧
      ∃ deadline, 160 < deadline ∧ InForce takenOver "timer" "token-2" deadline := by
  have happ : (completeTimer "timer" "token-2" 160).answer (run takenOver) = some .applied := by
    decide +kernel
  refine ⟨by decide +kernel, happ, ?_⟩
  exact (fenced_run takenOver (by decide)).2.2.1 "timer" "token-2" 160 happ

end NasaRuntime.Saga.TimerStore
