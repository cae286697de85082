import NasaRuntime.Napart.Queue

/-!
# The entry of a task and its users

The entry is the authority over a task: its state, who owns it, where it is kept, the move that is
under way, the payload, the permits, and the record of how it ends. What threads may do with it is
decided by compare-and-swap on the state, on the owner and on the retention, and by taking something
out of a cell that has it once.

A task ends in two steps. `begin_termination` fixes the terminal record and makes the state
`Terminating`; then whoever is allowed to (`finalize_termination_with_accounting`) closes the owner,
gives everything back and publishes the status.

**Modelling choice.** Every access to an atomic and every section under a lock is a step, with
sequentially consistent atomics. In `begin_termination` and `prepare_initial_queue` a lock is held
across a compare-and-swap on the state; what is written under the lock cannot be seen before it is
released, so it is written together with that last step. `history` has what no program reads: who has
the task in hand, what each thread still has to give back, and what happened.

Any number of them work at the same time, in any interleaving (`TaskCall.prog`, `taskSystem`). What is
decided elsewhere is given with the call: whether a queue accepts the task, where it goes, how the
payload ends.

**Modelling choice.** The runner outlives the entry, so its counters are there when the task is
cancelled. Metrics, wake-ups, the depth of queues and the settlement of strict sequences are left out.
A thread that runs a task goes on as its executor; a task whose future is dropped is one that ends as
`aborted`.
-/

namespace NasaRuntime.Napart

/-! ## Data -/

inductive EntryState
  | enqueueing | delayed | queued | moving | running | terminating
  | completed | cancelled | rejected | failed
deriving DecidableEq

def EntryState.isTerminal : EntryState → Bool
  | .completed | .cancelled | .rejected | .failed => true
  | _ => false

inductive Owner
  | slot (slot : ℕ) | returnStaging | cancelled | completed | rejected | failed
deriving DecidableEq

namespace Owner

def isTerminal : Owner → Bool
  | .slot _ | .returnStaging => false
  | _ => true

/-- `for_terminal`, of a terminal state. -/
def forTerminal : EntryState → Owner
  | .completed => .completed
  | .cancelled => .cancelled
  | .rejected => .rejected
  | _ => .failed

end Owner

inductive PhysicalRetention
  | detached | container | handling | failureQueued | failureHandling
deriving DecidableEq

/-- A task that is kept like this may be finalized. -/
def PhysicalRetention.settles : PhysicalRetention → Bool
  | .detached | .handling | .failureHandling => true
  | _ => false

inductive LogicalContainer
  | main | nonStrictTunnel | strictStock | strictIncremental | returnStaging | failureRetention
deriving DecidableEq

structure LogicalOwner where
  slot : ℕ
  routeEpoch : ℕ
  container : LogicalContainer
deriving DecidableEq

/-- The owner of a task in this container. -/
def LogicalOwner.owner (logical : LogicalOwner) : Owner :=
  if logical.container = .returnStaging then .returnStaging else .slot logical.slot

inductive MoveStage
  | nonStrictOutbound | strictStock | strictIncremental | returnStaging | returnToSource
  | failureRetention
deriving DecidableEq

/-- Where a move of this stage goes. -/
def MoveStage.container : MoveStage → LogicalContainer
  | .nonStrictOutbound => .nonStrictTunnel
  | .strictStock => .strictStock
  | .strictIncremental => .strictIncremental
  | .returnStaging => .returnStaging
  | .returnToSource => .main
  | .failureRetention => .failureRetention

/-- The move that is under way. -/
structure MoveDescriptor where
  stage : MoveStage
  sourceSlot : ℕ
  sourceOwner : Owner
  targetSlot : ℕ
  moveEpoch : ℕ
deriving DecidableEq

/-- The owner after the move. -/
def MoveDescriptor.targetOwner (descriptor : MoveDescriptor) : Owner :=
  if descriptor.stage = .returnStaging then .returnStaging else .slot descriptor.targetSlot

inductive CancelDecision
  | accepted | deferredMoving | alreadyDeferred | tooLate
deriving DecidableEq

inductive TaskAuthorityError
  | invalidState | ownerMismatch | retentionMismatch | moveAlreadyPrepared | moveTicketMismatch
  | moveEpochExhausted | invalidTerminal | settlementConflict | settlementOwned | taskMissing
  | authorityCorrupted
  | paused
deriving DecidableEq

structure TerminalRecord where
  state : EntryState
  reason : Option String
deriving DecidableEq

/-- A record that the caller's cancellation leaves. -/
def cancelRecord : TerminalRecord := ⟨.cancelled, some "cancelled_by_caller"⟩

/-- What is counted for a task. -/
inductive Account
  | logical
  | container (slot : ℕ) (main : Bool)
  | queued
  | global
deriving DecidableEq

/-- The counter of a container. -/
def LogicalOwner.account (logical : LogicalOwner) : Account :=
  .container logical.slot (logical.container = .main)

/-! ## The store -/

/-- What was counted, and what was given back. -/
inductive LedgerNote
  | acquired (account : Account)
  | released (account : Account)
deriving DecidableEq

/-- What happened. -/
inductive EntryNote
  | taken
  | ran (state : EntryState)
  | published (state : EntryState)
deriving DecidableEq

/-- Who has the task in hand. -/
inductive Holder
  /-- It waits to be published for the first time. -/
  | fresh
  /-- Thread `i` is about to publish it. -/
  | producer (i : ℕ)
  /-- Thread `i` has made it queued and has yet to put it into the container. -/
  | placed (i : ℕ)
  | queued
  /-- Thread `i` has taken it out of a container. -/
  | handler (i : ℕ)
  /-- Thread `i` has ended it before it was published. -/
  | closer (i : ℕ)
deriving DecidableEq

/-- Whether the mover has looked for a request to cancel. -/
inductive Handover
  | idle
  /-- The mover has made the task queued and has yet to look. -/
  | unseen
  /-- The mover has found a request and answers it. -/
  | seen
deriving DecidableEq

structure History where
  holder : Holder
  /-- A delayed task was taken out of the table by this thread. -/
  taker : Option ℕ
  /-- Somebody has found that the task may be finalized where it is kept. -/
  settling : Bool
  /-- The threads that have closed the owner. -/
  finishers : List ℕ
  /-- Somebody who finalizes has taken the logical owner. -/
  collected : Bool
  /-- Who has set the terminal record. -/
  settler : Option ℕ
  /-- What the threads have in hand and have to give back. -/
  owed : List (ℕ × Account)
  ledger : List LedgerNote
  notes : List EntryNote
  epochs : List ℕ
  /-- The calls of `cancel` that were accepted, or deferred. -/
  promises : List ℕ
  /-- The call of `cancel` that has begun the end. -/
  canceller : Option ℕ
  /-- Somebody who cancels has found the task in a container. -/
  blocked : Bool
  handover : Handover
  /-- An audit has found a move overdue, or has removed a descriptor. -/
  audited : Bool
  /-- A cancellation was deferred when the task was not moving any more. -/
  late : Bool
  /-- Somebody who cancels has found a descriptor. -/
  collided : Bool
  /-- A cancellation was accepted while the task was about to be published. -/
  crossed : Bool
  /-- The owner was changed for a task that was about to be published and has ended. -/
  shifted : Bool
  refused : Bool

structure EntryStore where
  state : EntryState
  owner : Owner
  cancelRequested : Bool
  terminal : Option TerminalRecord
  pendingTerminal : Option TerminalRecord
  task : Bool
  logicalOwner : Option LogicalOwner
  physicalRetention : PhysicalRetention
  moveDescriptor : Option MoveDescriptor
  nextMoveEpoch : ℕ
  globalPermit : Bool
  queuedPermit : Bool
  bound : Bool
  delayed : Bool
  handle : Bool
  moving : Bool
  /-- Where the task is, as seen by the consumers of the containers. -/
  items : List LogicalOwner
  typeFailed : Bool
  recorded : ℕ
  /-- The control plane of the runner has failed. -/
  stopped : Bool
  history : History

namespace History

/-- Before anything happened. -/
def new (holder : Holder) (ledger : List LedgerNote) : History where
  holder := holder
  taker := none
  settling := false
  finishers := []
  collected := false
  settler := none
  owed := []
  ledger := ledger
  notes := []
  epochs := []
  promises := []
  canceller := none
  blocked := false
  handover := .idle
  audited := false
  late := false
  collided := false
  crossed := false
  shifted := false
  refused := false

end History

namespace EntryStore

/-- `TaskEntry::new`, with the permits of an immediate submission, which is thread 0. -/
def immediate (home : ℕ) : EntryStore where
  state := .enqueueing
  owner := .slot home
  cancelRequested := false
  terminal := none
  pendingTerminal := none
  task := true
  logicalOwner := none
  physicalRetention := .detached
  moveDescriptor := none
  nextMoveEpoch := 0
  globalPermit := true
  queuedPermit := true
  bound := true
  delayed := false
  handle := false
  moving := false
  items := []
  typeFailed := false
  recorded := 0
  stopped := false
  history := .new (.producer 0) [.acquired .global, .acquired .queued]

/-- A delayed task in the table, with the permit of the runner. -/
def postponed (home : ℕ) : EntryStore :=
  { immediate home with
    state := .delayed
    queuedPermit := false
    bound := false
    delayed := true
    handle := true
    history := .new .fresh [.acquired .global] }

/-- The end has begun. -/
def ended (s : EntryStore) : Bool := s.state == .terminating || s.state.isTerminal

/-- Thread `i` acquires, and has to give back. -/
def acquire (s : EntryStore) (i : ℕ) (account : Account) : EntryStore :=
  { s with
    history.owed := (i, account) :: s.history.owed
    history.ledger := s.history.ledger ++ [.acquired account] }

def release (s : EntryStore) (i : ℕ) (account : Account) : EntryStore :=
  { s with
    history.owed := s.history.owed.erase (i, account)
    history.ledger := s.history.ledger ++ [.released account] }

/-- The end of the task begins. A task that nobody has in hand is in the hands of who ends it. -/
def terminate (s : EntryStore) (i : ℕ) (record : TerminalRecord) : EntryStore :=
  { s with
    state := .terminating
    pendingTerminal := some record
    history.holder := if s.history.holder = .fresh then .closer i else s.history.holder }

/-- A call of `cancel` begins the end. -/
def cancelBy (s : EntryStore) (i : ℕ) : EntryStore :=
  { s.terminate i cancelRecord with
    history.promises := i :: s.history.promises
    history.canceller := some i
    history.crossed := s.history.crossed || s.state == .enqueueing }

/-- The task is queued for the first time. What was acquired for it is kept in the entry. -/
def enqueue (s : EntryStore) (i : ℕ) (logical : LogicalOwner) : EntryStore :=
  { s with
    state := .queued
    logicalOwner := some logical
    history.holder := .placed i
    history.owed := (s.history.owed.erase (i, logical.account)).erase (i, .logical) }

/-- The logical owner is exchanged. Thread `i` has the old one in hand. -/
def replaceLogical (s : EntryStore) (i : ℕ) (target : LogicalOwner) : EntryStore :=
  { s with
    logicalOwner := some target
    history.owed := (s.logicalOwner.map fun old => (i, old.account)).toList ++
      s.history.owed.erase (i, target.account) }

/-- The task is put into a container. -/
def push (s : EntryStore) (logical : LogicalOwner) : EntryStore :=
  { s with
    items := s.items ++ [logical]
    history.holder := .queued }

/-- Thread `i` takes the task out of a container. -/
def pop (s : EntryStore) (i : ℕ) : EntryStore :=
  { s with items := s.items.tail, history.holder := .handler i }

/-- Thread `i` takes the logical owner, to give back what is counted for it. -/
def collect (s : EntryStore) (i : ℕ) : EntryStore :=
  { s with
    logicalOwner := none
    history.collected := true
    history.owed := (s.logicalOwner.map fun old => [(i, old.account), (i, .logical)]).getD [] ++
      s.history.owed }

/-- The rest of the entry is dropped with it. -/
def drop (s : EntryStore) : EntryStore :=
  { s with
    task := false
    queuedPermit := false
    globalPermit := false
    history.ledger := s.history.ledger ++ (if s.queuedPermit then [.released .queued] else []) ++
      (if s.globalPermit then [.released .global] else []) }

end EntryStore

/-- A program on the entry. -/
abbrev EntryProg := Prog EntryStore TaskAuthorityError

namespace TaskEntry

/-! ## Steps -/

/-- A compare-and-swap: if the condition holds the store is changed. -/
def swapIf (c : EntryStore → Bool) (f : EntryStore → EntryStore) (e : TaskAuthorityError) :
    EntryProg Unit := do
  let done ← .atomic fun s => if c s then (true, f s) else (false, s)
  if done then return else .fail e

def transition (before : EntryState) (f : EntryStore → EntryStore) : EntryProg Unit :=
  swapIf (·.state == before) f .invalidState

def changeRetention (before after : PhysicalRetention) : EntryProg Unit :=
  swapIf (·.physicalRetention == before) (fun s => { s with physicalRetention := after })
    .retentionMismatch

/-- A compare-and-swap of the owner. -/
def changeOwner (before after : Owner) : EntryProg Unit :=
  swapIf (·.owner == before) (fun s => { s with owner := after }) .ownerMismatch

def acquire (i : ℕ) (account : Account) : EntryProg Unit := .modify (·.acquire i account)

def release (i : ℕ) (account : Account) : EntryProg Unit := .modify (·.release i account)

/-- The end begins (`f`), unless it has begun, or the state is another one. -/
def beginEnd (expected : EntryState) (f : EntryStore → EntryStore) : EntryProg Unit := do
  let refusal ← .atomic fun s =>
    if s.pendingTerminal.isSome then (some .settlementConflict, s)
    else if s.state = expected then (none, f s)
    else (some TaskAuthorityError.invalidState, s)
  match refusal with
  | none => return
  | some e => .fail e

def beginTermination (i : ℕ) (expected : EntryState) (record : TerminalRecord) : EntryProg Unit :=
  if record.state.isTerminal = false ∨ (record.state = .completed ∧ record.reason.isSome) ∨
      (record.state ≠ .completed ∧ record.reason = none) then .fail .invalidTerminal
  else beginEnd expected (·.terminate i record)

def failFrom (i : ℕ) (expected terminal : EntryState) (reason : String) : EntryProg Unit :=
  if terminal ≠ .rejected ∧ terminal ≠ .failed then .fail .invalidTerminal
  else if expected = .moving then .fail .moveTicketMismatch
  else beginTermination i expected ⟨terminal, some reason⟩

def finishRunning (i : ℕ) (terminal : EntryState) (reason : Option String) : EntryProg Unit :=
  if terminal ≠ .completed ∧ terminal ≠ .failed then .fail .invalidTerminal
  else beginTermination i .running ⟨terminal, reason⟩

/-! ## Publishing for the first time -/

def installQueuedPermit (i : ℕ) : EntryProg Unit := do
  let state ← .read (·.state)
  if state ≠ .enqueueing then do
    release i .queued
    .fail .invalidState
  else do
    let installed ← .atomic fun s =>
      if s.queuedPermit then (false, s)
      else (true, { s with
        queuedPermit := true
        history.owed := s.history.owed.erase (i, .queued) })
    if installed then return
    else do
      release i .queued
      .fail .settlementConflict

/-- The owner of a task that is about to be published. -/
def setOwner (owner : Owner) (s : EntryStore) : EntryStore :=
  { s with owner, history.shifted := s.history.shifted || s.ended }

/-- The last part of `prepare_initial_queue`, and its roll-back. -/
def enqueueOrRollBack (i : ℕ) (expected : Owner) (logical : LogicalOwner) : EntryProg Unit := do
  let queued ← (transition .enqueueing (·.enqueue i logical)).attempt
  match queued with
  | .ok () => return
  | .error e => do
    .modify fun s => { s with physicalRetention := .detached }
    .modify (setOwner expected)
    .fail e

def prepareInitialQueue (i : ℕ) (expected : Owner) (logical : LogicalOwner) : EntryProg Unit := do
  let state ← .read (·.state)
  if state ≠ .enqueueing then .fail .invalidState
  else do
    let taken ← .read (·.logicalOwner.isSome)
    if taken then .fail .settlementConflict
    else do
      swapIf (·.owner == expected) (setOwner logical.owner) .ownerMismatch
      let kept ← (changeRetention .detached .container).attempt
      match kept with
      | .ok () => enqueueOrRollBack i expected logical
      | .error e => do
        .modify (setOwner expected)
        .fail e

/-! ## Containers -/

/-- `clear_published_move_at_container`. -/
def clearPublishedMove (expected : Owner) : EntryProg Unit := do
  let current ← .read (·.moveDescriptor)
  match current with
  | none => return
  | some descriptor => do
    let state ← .read (·.state)
    if state ≠ .queued ∧ state ≠ .terminating then .fail .invalidState
    else do
      let retention ← .read (·.physicalRetention)
      if retention ≠ .container then .fail .retentionMismatch
      else do
        let owner ← .read (·.owner)
        if owner ≠ expected ∨ descriptor.targetOwner ≠ expected then .fail .ownerMismatch
        else .modify fun s => { s with moveDescriptor := none }

def claimContainer (expected : Owner) : EntryProg Unit := do
  clearPublishedMove expected
  let owner ← .read (·.owner)
  if owner ≠ expected then .fail .ownerMismatch
  else changeRetention .container .handling

def claimReturnStaging (target : ℕ) : EntryProg Unit := do
  clearPublishedMove .returnStaging
  changeOwner .returnStaging (.slot target)
  let claimed ← (changeRetention .container .handling).attempt
  match claimed with
  | .ok () => return
  | .error e => do
    let restored ← (changeOwner (.slot target) .returnStaging).attempt
    match restored with
    | .ok () => .fail e
    | .error _ => .fail .authorityCorrupted

/-! ## Moves -/

/-- The descriptor of a ticket. -/
def ensureMove (epoch : ℕ) : EntryProg MoveDescriptor := do
  let current ← .read (·.moveDescriptor)
  match current with
  | none => .fail .moveTicketMismatch
  | some descriptor =>
    if descriptor.moveEpoch ≠ epoch then .fail .moveTicketMismatch else return descriptor

def activeMove (epoch : ℕ) : EntryProg MoveDescriptor := do
  let state ← .read (·.state)
  if state ≠ .moving then .fail .invalidState else ensureMove epoch

def prepareMove (i : ℕ) (stage : MoveStage) (source target : ℕ) : EntryProg ℕ := do
  let state ← .read (·.state)
  if state ≠ .queued then .fail .invalidState
  else do
    let owner ← .read (·.owner)
    if owner ≠ .slot source ∧ ¬ (stage = .returnToSource ∧ owner = .returnStaging) then
      .fail .ownerMismatch
    else do
      let retention ← .read (·.physicalRetention)
      if retention ≠ .handling then .fail .retentionMismatch
      else do
        let drawn ← .atomic fun s =>
          if s.nextMoveEpoch < u64Max then
            (some (s.nextMoveEpoch + 1), { s with
              nextMoveEpoch := s.nextMoveEpoch + 1
              history.epochs := s.history.epochs ++ [i] })
          else (none, s)
        match drawn with
        | none => .fail .moveEpochExhausted
        | some epoch => do
          swapIf (·.moveDescriptor.isNone)
            (fun s => { s with moveDescriptor := some ⟨stage, source, owner, target, epoch⟩ })
            .moveAlreadyPrepared
          return epoch

def activateMove (epoch : ℕ) : EntryProg Unit := do
  let _ ← ensureMove epoch
  transition .queued fun s => { s with state := .moving }

/-- `clear_move`, by an audit or by somebody else. -/
def clearMove (audit : Bool) (epoch : ℕ) : EntryProg Unit :=
  swapIf (fun s => s.moveDescriptor.any (·.moveEpoch == epoch))
    (fun s => { s with
      moveDescriptor := none
      history.audited := s.history.audited || audit })
    .moveTicketMismatch

/-- `abandon_prepared_move`, and `clear_completed_move`. -/
def clearInactiveMove (audit : Bool) (epoch : ℕ) : EntryProg Unit := do
  let state ← .read (·.state)
  if state = .moving then .fail .invalidState else clearMove audit epoch

def transferMoveOwner (epoch : ℕ) : EntryProg Unit := do
  let descriptor ← activeMove epoch
  changeOwner descriptor.sourceOwner descriptor.targetOwner

def prepareMoveContainer (epoch : ℕ) : EntryProg Unit := do
  let _ ← activeMove epoch
  changeRetention .handling .container

def replaceLogicalOwner (i epoch : ℕ) (target : LogicalOwner) : EntryProg LogicalOwner := do
  let _ ← activeMove epoch
  let retention ← .read (·.physicalRetention)
  if retention ≠ .container then .fail .retentionMismatch
  else do
    let old ← .atomic fun s => (s.logicalOwner, s.replaceLogical i target)
    match old with
    | some old => return old
    | none => .fail .authorityCorrupted

def moveCompletion : EntryProg Unit := do
  let state ← .read (·.state)
  if state = .queued then return
  else if state = .terminating then do
    let pending ← .read (·.pendingTerminal)
    if pending = some cancelRecord then return else .fail .settlementConflict
  else .fail .invalidState

/-- A request to cancel is answered by the mover. -/
def answerRequest (i : ℕ) : EntryProg Unit := do
  let begun ← (beginTermination i .queued cancelRecord).attempt
  match begun with
  | .ok () => moveCompletion
  | .error e => do
    .modify fun s => { s with cancelRequested := true }
    let state ← .read (·.state)
    if state ≠ .terminating then .fail e else moveCompletion

def publishMove (i epoch : ℕ) : EntryProg Unit := do
  let descriptor ← activeMove epoch
  let retention ← .read (·.physicalRetention)
  if retention ≠ .container then .fail .retentionMismatch
  else do
    let owner ← .read (·.owner)
    if owner ≠ descriptor.targetOwner then .fail .ownerMismatch
    else do
      transition .moving fun s => { s with state := .queued, history.handover := .unseen }
      let requested ← .atomic fun s => (s.cancelRequested, { s with
        cancelRequested := false
        history.handover := if s.cancelRequested then .seen else .idle })
      if requested then answerRequest i else moveCompletion

def failMove (i epoch : ℕ) (reason : String) : EntryProg Unit := do
  let _ ← activeMove epoch
  beginTermination i .moving ⟨.failed, some reason⟩

/-! ## Cancelling -/

/-- `request_cancel`. The rounds of its loop are given. -/
def requestCancel (i : ℕ) : ℕ → EntryProg CancelDecision
  | 0 => .fail .paused
  | rounds + 1 => do
    let state ← .read (·.state)
    match state with
    | .enqueueing | .delayed | .queued => do
      let begun ← (beginEnd state (·.cancelBy i)).attempt
      match begun with
      | .ok () => return .accepted
      | .error .invalidState => requestCancel i rounds
      | .error _ => return .tooLate
    | .moving => do
      let already ← .atomic fun s => (s.cancelRequested, { s with
        cancelRequested := true
        history.promises :=
          if s.cancelRequested then s.history.promises else i :: s.history.promises
        history.late := s.history.late || s.state != .moving })
      return if already then .alreadyDeferred else .deferredMoving
    | _ => return .tooLate

/-! ## Running -/

/-- `take_for_running`. The permit is dropped when the payload is out. -/
def takeForRunning (i slot : ℕ) : EntryProg Unit := do
  let owner ← .read (·.owner)
  if owner ≠ .slot slot then .fail .ownerMismatch
  else do
    let retention ← .read (·.physicalRetention)
    if retention ≠ .handling then .fail .retentionMismatch
    else do
      transition .queued fun s => { s with state := .running }
      swapIf (·.task)
        (fun s => { s with task := false, history.notes := s.history.notes ++ [.taken] })
        .taskMissing
      let queued ← .atomic fun s => (s.queuedPermit, { s with
        queuedPermit := false
        history.owed :=
          if s.queuedPermit then (i, .queued) :: s.history.owed else s.history.owed })
      if queued then release i .queued else return

/-! ## Finalizing -/

/-- What is counted for the container and for the type is given back. With `commits = false` the caller
gives nothing back. -/
def commitLogical (i : ℕ) (commits : Bool) : Option LogicalOwner → EntryProg Unit
  | some logical =>
    if commits then do
      release i logical.account
      release i .logical
    else return
  | none => return

/-- The permits that are in the entry are taken out and dropped. -/
def dropPermits (i : ℕ) : EntryProg Unit := do
  let queued ← .atomic fun s => (s.queuedPermit, { s with
    queuedPermit := false
    history.owed := if s.queuedPermit then (i, .queued) :: s.history.owed else s.history.owed })
  let global ← .atomic fun s => (s.globalPermit, { s with
    globalPermit := false
    history.owed := if s.globalPermit then (i, .global) :: s.history.owed else s.history.owed })
  (if queued then release i .queued else return)
  (if global then release i .global else return)

/-- The status is published, by the one who has set the record. -/
def publishStatus (i : ℕ) (record : TerminalRecord) : EntryProg Unit := do
  swapIf (·.terminal.isNone)
    (fun s => { s with terminal := some record, history.settler := some i }) .settlementConflict
  .modify fun s => { s with pendingTerminal := none }
  .modify fun s => { s with
    state := record.state
    history.notes := s.history.notes ++ [.published record.state] }

/-- What follows after the owner was closed. -/
def settle (i : ℕ) (commits : Bool) (record : TerminalRecord) : EntryProg Unit := do
  .modify fun s => { s with physicalRetention := .detached }
  let logical ← .atomic fun s => (s.logicalOwner, s.collect i)
  commitLogical i commits logical
  .modify fun s => { s with task := false }
  dropPermits i
  publishStatus i record

/-- The owner is closed, by one of those who try. -/
def closeOwner (i : ℕ) (owner : Owner) (record : TerminalRecord) : EntryProg Unit := do
  let observed ← .atomic fun s =>
    if s.owner = owner then
      (none, { s with
        owner := Owner.forTerminal record.state
        history.finishers := i :: s.history.finishers })
    else (some s.owner, s)
  match observed with
  | none => return
  | some other => if other.isTerminal then .fail .settlementOwned else .fail .ownerMismatch

/-- Why there is no pending record. -/
def missingRecord : EntryProg Unit := do
  let state ← .read (·.state)
  if state.isTerminal then .fail .settlementOwned
  else do
    let owner ← .read (·.owner)
    if owner.isTerminal then .fail .settlementOwned
    else do
      let terminal ← .read (·.terminal)
      if terminal.isSome then .fail .settlementOwned else .fail .settlementConflict

/-- The checks before the owner is closed. With `cancels` it is a call of `cancel` that finalizes. -/
def checkSettlement (cancels : Bool) : EntryProg Owner := do
  let retention ← .atomic fun s => (s.physicalRetention, { s with
    history.settling := s.history.settling || s.physicalRetention.settles
    history.blocked := s.history.blocked || (cancels && !s.physicalRetention.settles) })
  if retention.settles = false then .fail .retentionMismatch
  else do
    let owner ← .read (·.owner)
    if owner.isTerminal then .fail .settlementOwned
    else do
      let terminal ← .read (·.terminal)
      if terminal.isSome then .fail .settlementOwned
      else do
        let moving ← .atomic fun s => (s.moveDescriptor.isSome, { s with
          history.collided := s.history.collided || (cancels && s.moveDescriptor.isSome) })
        if moving then .fail .settlementConflict else return owner

/-- `finalize_termination_with_accounting`. -/
def finalizeTermination (i : ℕ) (commits cancels : Bool) : EntryProg Unit := do
  let state ← .read (·.state)
  if state.isTerminal then .fail .settlementOwned
  else if state ≠ .terminating then .fail .invalidState
  else do
    let pending ← .read (·.pendingTerminal)
    match pending with
    | none => missingRecord
    | some record =>
      if record.state.isTerminal = false then .fail .invalidTerminal
      else do
        let owner ← checkSettlement cancels
        closeOwner i owner record
        settle i commits record

/-! ## Ends -/

/-- `TypeState::fail`. -/
def failType : EntryProg Unit := .modify fun s => { s with typeFailed := true }

def finalizeTerminal (i : ℕ) : EntryProg Unit := do
  let outcome ← (finalizeTermination i true false).attempt
  match outcome with
  | .ok () => return
  | .error .settlementOwned => return
  | .error _ => failType

/-- The end of `record_authority_failure`. -/
def failAuthority : EntryProg Unit :=
  .modify fun s => { s with typeFailed := true, recorded := s.recorded + 1 }

def recordAuthorityFailure (i : ℕ) (reason : String) : EntryProg Unit := do
  let state ← .read (·.state)
  if state.isTerminal then return
  else if state = .terminating then finalizeTerminal i
  else if state = .enqueueing ∨ state = .delayed ∨ state = .queued then do
    let begun ← (failFrom i state .failed reason).attempt
    match begun with
    | .ok () => finalizeTerminal i
    | .error _ => failAuthority
  else failAuthority

def failBeforeRunning (i : ℕ) (reason : String) : EntryProg Unit := do
  let state ← .read (·.state)
  if state = .terminating then finalizeTerminal i
  else if state.isTerminal then return
  else do
    let begun ← (failFrom i .queued .failed reason).attempt
    match begun with
    | .ok () => finalizeTerminal i
    | .error _ => return

/-! ## Submissions -/

/-- A container refuses the task that was prepared for it. -/
def refuse (i : ℕ) : EntryProg Unit := do
  .modify fun s => { s with history.refused := true }
  let _ ← (changeRetention .container .detached).attempt
  let _ ← (failFrom i .queued .rejected "queue_publish_failed").attempt
  finalizeTerminal i

/-- `publish_initial`, after the place in the container was reserved. -/
def publishInitial (i home : ℕ) (placement : LogicalOwner) (accepted : Bool) : EntryProg Bool := do
  acquire i .logical
  acquire i placement.account
  let prepared ← (prepareInitialQueue i (.slot home) placement).attempt
  match prepared with
  | .error _ => do
    release i placement.account
    release i .logical
    return false
  | .ok () =>
    if accepted then do
      .modify (·.push placement)
      return true
    else do
      refuse i
      return false

/-- What the rest of the runner answers to a submission. -/
structure Submitted where
  /-- `reserve_placement`, if the type has not failed and a queue is open. -/
  placement : Option LogicalOwner
  accepted : Bool

/-- The submission of a task that is not delayed. -/
def submit (i home : ℕ) (answer : Submitted) : EntryProg Unit := do
  match answer.placement with
  | none => return
  | some placement => do
    let published ← publishInitial i home placement answer.accepted
    if published then .modify fun s => { s with handle := true } else return

/-- `reject_unbound_delayed`. -/
def rejectUnbound (i : ℕ) (reason : String) : EntryProg Unit := do
  let begun ← (failFrom i .enqueueing .rejected reason).attempt
  match begun with
  | .error _ => return
  | .ok () => do
    let _ ← (finalizeTermination i false false).attempt
    return

/-- A delayed task is taken out of the table. -/
def takeDelayed (i : ℕ) : EntryProg Bool :=
  .atomic fun s => (s.delayed, { s with
    delayed := false
    history.taker := if s.delayed then some i else s.history.taker })

/-- A delayed task could not be published. -/
def settleRejected (i : ℕ) (reason : String) : EntryProg Unit := do
  let state ← .read (·.state)
  if state = .enqueueing then do
    let begun ← (failFrom i .enqueueing .rejected reason).attempt
    match begun with
    | .ok () => finalizeTerminal i
    | .error _ => recordAuthorityFailure i reason
  else if state = .terminating then finalizeTerminal i
  else if state.isTerminal then return
  else recordAuthorityFailure i reason

/-- What the rest of the runner answers when a delayed task expires. -/
structure Expired extends Submitted where
  /-- The runner accepts, the type is there, and it has a permit. -/
  admitted : Bool
  numbered : Bool

/-- A delayed task that has a permit gets its envelope and is published. -/
def publishExpired (i home : ℕ) (answer : Expired) : EntryProg Unit := do
  let bound ← .atomic fun s => (!s.bound, { s with bound := true })
  if bound = false then rejectUnbound i "delayed_binding_conflict"
  else
    match answer.placement with
    | none => settleRejected i "route_failed_at_delayed_publish"
    | some placement => do
      let published ← publishInitial i home placement answer.accepted
      if published then return else settleRejected i "route_failed_at_delayed_publish"

def expireDelayed (i home : ℕ) (answer : Expired) : EntryProg Unit := do
  let taken ← takeDelayed i
  if taken = false then return
  else do
    let claimed ← (transition .delayed fun s =>
      { s with state := .enqueueing, history.holder := .producer i }).attempt
    match claimed with
    | .error _ => return
    | .ok () =>
      if answer.admitted = false then rejectUnbound i "queue_full_at_expiry"
      else do
        acquire i .queued
        let installed ← (installQueuedPermit i).attempt
        match installed with
        | .error _ => rejectUnbound i "delayed_permit_install_failed"
        | .ok () =>
          if answer.numbered = false then rejectUnbound i "strict_sequence_exhausted"
          else publishExpired i home answer

/-- `reject_delayed_shutdown`. -/
def rejectDelayed (i : ℕ) : EntryProg Unit := do
  let taken ← takeDelayed i
  if taken = false then return
  else do
    let begun ← (failFrom i .delayed .rejected "shutdown_before_expiry").attempt
    match begun with
    | .error _ => return
    | .ok () => do
      let _ ← (finalizeTermination i false false).attempt
      return

/-! ## Moves -/

def finishMoving : EntryProg Unit := .modify fun s => { s with moving := false }

/-- `fail_active_move`, by an audit or by the mover. -/
def failActiveMove (i : ℕ) (audit : Bool) (epoch : ℕ) (reason : String) : EntryProg Unit := do
  let _ ← (failMove i epoch reason).attempt
  let _ ← (clearInactiveMove audit epoch).attempt
  finishMoving
  failType
  finalizeTerminal i

/-- The move was prepared, and then the task was not queued any more. -/
def dropPreparedMove (i epoch : ℕ) : EntryProg Unit := do
  let abandoned ← (clearInactiveMove false epoch).attempt
  finishMoving
  let state ← .read (·.state)
  if abandoned = .ok () ∧ state = .terminating then finalizeTerminal i
  else do
    let again ← .read (·.state)
    if again.isTerminal then return else recordAuthorityFailure i "move_activation_failed"

/-- The task is in no container and on its way to one. -/
def arrive (i epoch : ℕ) (target : LogicalOwner) (accepted : Bool) : EntryProg Unit :=
  if accepted then do
    .modify (·.push target)
    let _ ← (clearInactiveMove false epoch).attempt
    finishMoving
  else do
    .modify fun s => { s with history.refused := true }
    let _ ← (changeRetention .container .detached).attempt
    let _ ← (failFrom i .queued .failed "move_physical_publish_failed").attempt
    let _ ← (clearInactiveMove false epoch).attempt
    finishMoving
    failType
    finalizeTerminal i

/-- The part of `move_entry` after the move was activated. -/
def carryOver (i epoch : ℕ) (target : LogicalOwner) (accepted : Bool) : EntryProg Unit := do
  acquire i target.account
  let boxed ← (do
    transferMoveOwner epoch
    prepareMoveContainer epoch).attempt
  match boxed with
  | .error _ => do
    release i target.account
    failActiveMove i false epoch "move_authority_failed"
  | .ok () => do
    let replaced ← (replaceLogicalOwner i epoch target).attempt
    match replaced with
    | .error _ => do
      release i target.account
      failActiveMove i false epoch "move_authority_failed"
    | .ok old => do
      release i old.account
      let published ← (publishMove i epoch).attempt
      match published with
      | .error _ => failActiveMove i false epoch "move_publish_failed"
      | .ok () => arrive i epoch target accepted

/-- `move_entry`, from a slot to a slot. -/
def moveEntry (i source : ℕ) (stage : MoveStage) (target : ℕ) (accepted : Bool) :
    EntryProg Unit := do
  let prepared ← (prepareMove i stage source target).attempt
  match prepared with
  | .error _ => do
    let state ← .read (·.state)
    if state = .terminating then finalizeTerminal i
    else if state.isTerminal then return
    else recordAuthorityFailure i "move_prepare_failed"
  | .ok epoch => do
    .modify fun s => { s with moving := true }
    let active ← (activateMove epoch).attempt
    match active with
    | .error _ => dropPreparedMove i epoch
    | .ok () => carryOver i epoch ⟨target, epoch, stage.container⟩ accepted

/-! ## Executors -/

/-- How the future of the payload ends. -/
inductive RunEnd
  | completed | panicked | aborted
deriving DecidableEq

/-- `BusinessBackstop::drop`, of a future that was dropped. -/
def backstop (i : ℕ) (expected : EntryState) (reason : String) : EntryProg Unit := do
  let state ← .read (·.state)
  if state = .terminating then finalizeTerminal i
  else do
    let begun ← (failFrom i expected .failed reason).attempt
    match begun with
    | .ok () => finalizeTerminal i
    | .error _ => return

/-- The payload is run. -/
def runJob (i : ℕ) (runEnd : RunEnd) : EntryProg Unit := do
  .modify fun s => { s with history.notes := s.history.notes ++ [.ran s.state] }
  match runEnd with
  | .completed => do
    let _ ← (finishRunning i .completed none).attempt
    finalizeTerminal i
  | .panicked => do
    let _ ← (finishRunning i .failed (some "task_panicked")).attempt
    finalizeTerminal i
  | .aborted => backstop i .running "aborted_during_shutdown"

/-- `run_business`, with the gates behind it. -/
def runBusiness (i slot : ℕ) (runEnd : RunEnd) : EntryProg Unit := do
  let early ← .read (·.state)
  if early.isTerminal then return
  else do
    let state ← .read (·.state)
    if state = .terminating then finalizeTerminal i
    else do
      let taken ← (takeForRunning i slot).attempt
      match taken with
      | .ok () => runJob i runEnd
      | .error _ => recordAuthorityFailure i "running_claim_failed"

/-! ## Consumers -/

/-- What the consumer of a container does with a task that it has claimed. -/
inductive Plan
  | keep (later : Plan)
  | move (stage : MoveStage) (target : ℕ) (accepted : Bool)
  /-- The task is failed: the runner freezes, or the route has failed, or a gate is closed. -/
  | fail (reason : String)
  /-- The future is dropped before the payload is taken. -/
  | drop
  | run (runEnd : RunEnd)

/-- The look at a task that is still in hand. -/
def unlessEnded (i : ℕ) (p : EntryProg Unit) : EntryProg Unit := do
  let state ← .read (·.state)
  if state = .terminating then finalizeTerminal i
  else if state.isTerminal then return
  else p

/-- A claimed task is handled: `consume_main`, `resume_main_handling`, `dispatch_business` and what
they call. -/
def handle (i slot : ℕ) : Plan → EntryProg Unit
  | .keep later => unlessEnded i (handle i slot later)
  | .move stage target accepted => moveEntry i slot stage target accepted
  | .fail reason => failBeforeRunning i reason
  | .drop => unlessEnded i (backstop i .queued "shutdown_frozen")
  | .run runEnd => unlessEnded i (runBusiness i slot runEnd)

/-- The next task of the container. -/
def pop (i : ℕ) : EntryProg (Option LogicalOwner) :=
  .atomic fun s =>
    match s.items with
    | [] => (none, s)
    | logical :: _ => (some logical, s.pop i)

/-- What is done with a task from the staging queue of a return. -/
inductive StagingPlan
  /-- The slot that catches up claims the task for itself. -/
  | catchUp (slot : ℕ) (plan : Plan)
  /-- The task goes back to the main queue of its home. -/
  | giveBack (target : ℕ) (accepted : Bool)
  | fail (reason : String)

/-- The consumer of a container: the main queue of a slot, a tunnel, the staging queue of a return. -/
structure Consumer where
  /-- `consume_main` and `consume_tunnel` look at the state before the claim and after it;
  `progress_returns` and `drain_failed_strict` leave that to what follows. -/
  looks : Bool
  reason : String
  plan : Plan
  staging : StagingPlan

/-- A task is claimed, and then it is handled. -/
def takeOver (i : ℕ) (consumer : Consumer) (claim rest : EntryProg Unit) : EntryProg Unit := do
  let claimed ← claim.attempt
  match claimed with
  | .error _ => recordAuthorityFailure i consumer.reason
  | .ok () =>
    if consumer.looks then do
      let state ← .read (·.state)
      if state = .terminating then finalizeTerminal i else rest
    else rest

/-- The task is claimed as what the container says. -/
def deliver (i : ℕ) (consumer : Consumer) (logical : LogicalOwner) : EntryProg Unit :=
  if logical.container = .returnStaging then
    match consumer.staging with
    | .catchUp slot plan =>
      takeOver i consumer (claimReturnStaging slot) (handle i slot plan)
    | .giveBack target accepted =>
      takeOver i consumer (claimContainer .returnStaging)
        (moveEntry i logical.slot .returnToSource target accepted)
    | .fail reason =>
      takeOver i consumer (claimContainer .returnStaging) (failBeforeRunning i reason)
  else
    takeOver i consumer (claimContainer (.slot logical.slot)) (handle i logical.slot consumer.plan)

def consume (i : ℕ) (consumer : Consumer) : EntryProg Unit := do
  let item ← pop i
  match item with
  | none => return
  | some logical =>
    if consumer.looks then do
      let state ← .read (·.state)
      if state.isTerminal then return else deliver i consumer logical
    else deliver i consumer logical

/-! ## Callers -/

/-- `record_authority_failure`, or `fail_unbound_delayed` of a task that has no envelope. -/
def recordFailure (i : ℕ) (bound : Bool) (reason : String) : EntryProg Unit :=
  if bound then recordAuthorityFailure i reason
  else .modify fun s => { s with stopped := true }

/-- The rest of `Submission::cancel` after the cancellation was accepted. -/
def settleCancelled (i : ℕ) (bound : Bool) : EntryProg Bool := do
  let outcome ← (finalizeTermination i true true).attempt
  match outcome with
  | .ok () => return true
  | .error e =>
    if e = .retentionMismatch ∨ e = .settlementOwned then do
      let state ← .read (·.state)
      if state = .terminating ∨ state.isTerminal then return true
      else do
        recordFailure i bound "cancel_settlement_failed"
        return false
    else do
      recordFailure i bound "cancel_settlement_failed"
      return false

/-- `settle_delayed_cancel`, in the background. -/
def settleDelayedCancel (i : ℕ) : EntryProg Unit := do
  let outcome ← (finalizeTermination i true true).attempt
  let bound ← .read (·.bound)
  match outcome with
  | .ok () => return
  | .error e =>
    if e = .settlementOwned then return
    else if e = .retentionMismatch then do
      let state ← .read (·.state)
      if state = .terminating ∨ state.isTerminal then return
      else recordFailure i bound "delayed_cancel_settlement_failed"
    else recordFailure i bound "delayed_cancel_settlement_failed"

/-- `Submission::cancel`, once the caller has the handle. The task of a delayed submission that has no
envelope yet is settled in the background, if that can be scheduled. -/
def cancel (i rounds : ℕ) (scheduled : Bool) : EntryProg (Option Bool) := do
  let handle ← .read (·.handle)
  if handle = false then return none
  else do
    let decision ← requestCancel i rounds
    match decision with
    | .accepted => do
      .modify fun s => { s with delayed := false }
      let bound ← .read (·.bound)
      if bound = false ∧ scheduled then do
        settleDelayedCancel i
        return some true
      else do
        let answer ← settleCancelled i bound
        return some answer
    | .deferredMoving => return some true
    | _ => return some false

/-! ## Audits -/

/-- The auditor looks at the state. An overdue move is one it intervenes in. -/
def auditState (overdue : Bool) : EntryProg EntryState :=
  .atomic fun s => (s.state,
    if overdue ∧ (s.state = .moving ∨ s.state = .queued ∨ s.state = .terminating) then
      { s with history.audited := true }
    else s)

/-- A move that was prepared and is overdue. -/
def auditPrepared (i epoch : ℕ) : EntryProg Unit := do
  let retention ← .read (·.physicalRetention)
  match retention with
  | .container => do
    let _ ← (clearInactiveMove true epoch).attempt
    finishMoving
  | .handling => do
    let abandoned ← (clearInactiveMove true epoch).attempt
    finishMoving
    let state ← .read (·.state)
    if abandoned = .ok () ∧ state = .terminating then finalizeTerminal i
    else failBeforeRunning i "move_preparation_timed_out"
  | _ => do
    let _ ← (clearInactiveMove true epoch).attempt
    finishMoving
    recordAuthorityFailure i "move_preparation_retention_mismatch"

/-- `audit_moves`, for this task. -/
def audit (i : ℕ) (overdue : Bool) : EntryProg Unit := do
  let moving ← .read (·.moving)
  if moving = false then return
  else do
    let descriptor ← .read (·.moveDescriptor)
    match descriptor with
    | none => finishMoving
    | some descriptor => do
      let state ← auditState overdue
      if state = .moving then
        if overdue then
          failActiveMove i true descriptor.moveEpoch "move_transition_timed_out"
        else return
      else if state = .queued ∨ state = .terminating then
        if overdue then auditPrepared i descriptor.moveEpoch else return
      else do
        let _ ← (clearInactiveMove true descriptor.moveEpoch).attempt
        finishMoving

end TaskEntry

/-! ## The system -/

inductive TaskCall
  | expire (answer : TaskEntry.Expired)
  | rejectDelayed
  | consume (consumer : TaskEntry.Consumer)
  | cancel (rounds : ℕ) (scheduled : Bool)
  | audit (overdue : Bool)

/-- The program of a call. Only `cancel` has an answer. -/
def TaskCall.prog (i home : ℕ) : TaskCall → EntryProg (Option Bool)
  | .expire answer => do
    TaskEntry.expireDelayed i home answer
    return none
  | .rejectDelayed => do
    TaskEntry.rejectDelayed i
    return none
  | .consume consumer => do
    TaskEntry.consume i consumer
    return none
  | .cancel rounds scheduled => TaskEntry.cancel i rounds scheduled
  | .audit overdue => do
    TaskEntry.audit i overdue
    return none

/-- How the entry came about: by a submission that is under way, or as a delayed task. -/
inductive TaskStart
  | immediate (answer : TaskEntry.Submitted)
  | delayed

def TaskStart.store (home : ℕ) : TaskStart → EntryStore
  | .immediate _ => .immediate home
  | .delayed => .postponed home

/-- The program of thread 0. -/
def TaskStart.prog (home : ℕ) : TaskStart → EntryProg (Option Bool)
  | .immediate answer => do
    TaskEntry.submit 0 home answer
    return none
  | .delayed => return none

/-- The calls, and the entry they work on. -/
abbrev TaskSys := Sys EntryStore TaskAuthorityError (Option Bool)

/-- An entry, the submission that made it and any number of calls. -/
def taskSystem (home : ℕ) (start : TaskStart) (calls : List TaskCall) : TaskSys :=
  .launch (start.store home) fun i =>
    match i with
    | 0 => start.prog home
    | i + 1 =>
      match calls[i]? with
      | some call => call.prog (i + 1) home
      | none => return none

/-- One step of a call. Nothing else works on the entry. -/
def taskExec : TaskSys → Input Empty → TaskSys :=
  Sys.exec (fun s _ => s) .paused

end NasaRuntime.Napart
