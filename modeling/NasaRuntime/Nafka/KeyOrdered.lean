import NasaRuntime.Nafka.HandlerPool

/-!
# Dispatch in the order of keys

An owner keeps, for each of its partitions, a queue of prepared records, and lets records with
different keys run at the same time. `KeyCompletions` holds the calls that run (`workers`) and the
results that are not settled yet (`entries`); `launch_available` goes through the queue and starts at
most one call.

A call runs in the handler pool, which other owners use as well, also for the same partition: a call
of an earlier owner or epoch keeps its permit until it exits. Other threads may use the pool between
two requests of one round (`between`). Whether a thread can be started, a record is retried, the user
paused the partition or the runtime stops are inputs of a round.

Every way to leave a record without a key behind ends the round, but one: when the pool refuses the
permit for it, the loop goes on to the next record. Nothing comes of it if the pool has a place for
the record when its turn has come, or has none for the partition from then on (`Yields`).

**Theorem (`keyOrder_run`).** In every run with such a pool in all its rounds: a call is started only
when every earlier record of the queue with its key and every earlier record without a key has
completed successfully since the partition was last cleared, and the call of a record without a key
only when all earlier records have.

The other runs break the barrier (`keyOrder_run_overtaken`): a call of an earlier owner that still runs
in the partition is enough.
-/

namespace NasaRuntime.Nafka

/-- `usize::saturating_add`. -/
def satAdd (a b : ℕ) : ℕ := min (a + b) usizeMax

/-- A record of the queue. -/
structure SourceRecord where
  offset : Int
  key : Option Bytes
  retainedBytes : ℕ
  assignmentEpoch : ℕ
deriving DecidableEq

/-- An item of the queue: a record for a handler, or one that the owner settles itself. -/
inductive PreparedTypedItem
  | routed (source : SourceRecord)
  | other (offset : Int)
deriving DecidableEq

def PreparedTypedItem.offset : PreparedTypedItem → Int
  | .routed source => source.offset
  | .other offset => offset

/-- How a call ended. -/
inductive InvocationOutcome
  | decodeFailed
  | completed (ackedPrefix ackedAfterGap total : ℕ)
  | failed
  | fatal
deriving DecidableEq

/-- The one record of the call was acknowledged. -/
def InvocationOutcome.isSuccess : InvocationOutcome → Bool
  | .completed 1 _ 1 => true
  | _ => false

/-- A record of a partition. -/
structure RecordId where
  tp : Tp
  offset : Int
deriving DecidableEq

def RecordId.key (id : RecordId) : Tp ×ₗ Int := toLex (id.tp, id.offset)

theorem RecordId.key_injective : Function.Injective RecordId.key := by
  intro id id' h
  cases id
  cases id'
  simpa [RecordId.key] using h

instance : LinearOrder RecordId := LinearOrder.lift' RecordId.key RecordId.key_injective

structure CompletedKey where
  bytes : ℕ
  outcome : InvocationOutcome
  keyed : Bool
  count : ℕ
deriving DecidableEq

structure Worker where
  identity : RecordId
  assignmentEpoch : ℕ
  authorized : Bool
  keyed : Bool
  count : ℕ
  key : Option Bytes
  bytes : ℕ
deriving DecidableEq

structure BehaviorConfig where
  maxInFlightHandlers : ℕ
  maxRecordBytes : ℕ
  maxGroupProgressRecords : ℕ
  maxGroupPendingBytes : ℕ

/-- The `KeyCompletions` of one owner, beside the pool it shares. -/
structure KeyCompletions where
  owner : ℕ
  config : BehaviorConfig
  pool : HandlerPool
  entries : Dict RecordId CompletedKey
  retainedBytes : ℕ
  workers : List Worker

/-- The call that a round starts, and the records before it in the queue. -/
structure Launch where
  earlier : List SourceRecord
  source : SourceRecord
  permit : HandlerPermit
  bytes : ℕ

/-- What a round does: the pool after it, and the call it starts. -/
structure Round where
  pool : HandlerPool
  launch : Option Launch

namespace KeyCompletions

def new (owner : ℕ) (config : BehaviorConfig) (capacity : ℕ) : KeyCompletions :=
  ⟨owner, config, .new capacity, ∅, 0, []⟩

/-! ## Completions -/

def remove (d : KeyCompletions) (id : RecordId) : KeyCompletions :=
  match d.entries.get? id with
  | some entry =>
    { d with entries := d.entries.erase id, retainedBytes := d.retainedBytes - entry.bytes }
  | none => d

def insert (d : KeyCompletions) (id : RecordId) (bytes : ℕ) (outcome : InvocationOutcome)
    (keyed : Bool) (count : ℕ) : KeyCompletions :=
  let d := d.remove id
  { d with
    entries := d.entries.insert id ⟨bytes, outcome, keyed, count⟩
    retainedBytes := d.retainedBytes + bytes }

/-- The entries that a condition keeps. -/
def keepEntries (d : KeyCompletions) (keep : RecordId → Bool) : KeyCompletions :=
  let entries := d.entries.retain fun id entry => if keep id then some entry else none
  { d with entries, retainedBytes := entries.total (·.bytes) }

/-- `confirmed` is what the broker confirmed of each partition. -/
def pruneCommitted (d : KeyCompletions) (confirmed : Tp → Option Int) : KeyCompletions :=
  d.keepEntries fun id => (confirmed id.tp).all fun next => decide (next ≤ id.offset)

def clearPartition (d : KeyCompletions) (tp : Tp) : KeyCompletions :=
  d.keepEntries fun id => id.tp ≠ tp

def clear (d : KeyCompletions) : KeyCompletions :=
  { d with
    entries := ∅
    retainedBytes := 0
    workers := d.workers.map fun worker => { worker with authorized := false } }

/-- `Vec::swap_remove`. -/
def swapRemove (workers : List Worker) (index : ℕ) : List Worker :=
  match workers.getLast? with
  | some last => (workers.set index last).dropLast
  | none => []

/-- One turn of `collect_finished`; `exited` is the result of the worker, if it has exited. -/
def collect (d : KeyCompletions) (index : ℕ) (authorized : Bool) (epoch : ℕ)
    (exited : Option InvocationOutcome) : KeyCompletions :=
  match d.workers[index]? with
  | none => d
  | some worker =>
    let valid := authorized && worker.authorized && worker.assignmentEpoch = epoch
    match exited with
    | none =>
      let worker := if valid then worker else { worker with authorized := false }
      { d with workers := d.workers.set index worker }
    | some outcome =>
      let d := { d with workers := swapRemove d.workers index }
      if valid then d.insert worker.identity worker.bytes outcome worker.keyed worker.count else d

/-! ## Rounds -/

/-- The budget of records and bytes refuses the record; a share is kept for the first one. -/
def overBudget (d : KeyCompletions) (first identity : RecordId) (bytes : ℕ) : Bool :=
  let reservedBytes := satAdd d.retainedBytes (d.workers.map (·.bytes)).sum
  let reservedRecords := d.entries.entries.length + d.workers.length
  let firstReserved := ((d.entries.get? first).map (·.bytes)).or
    ((d.workers.find? (·.identity = first)).map (·.bytes))
  let reserve :=
    if identity = first then 0
    else satAdd d.config.maxRecordBytes 2048 - firstReserved.getD 0
  let recordReserve := if identity ≠ first ∧ firstReserved = none then 1 else 0
  decide (d.config.maxGroupProgressRecords < satAdd reservedRecords (1 + recordReserve)) ||
    decide (d.config.maxGroupPendingBytes < satAdd (satAdd reservedBytes bytes) reserve)

/-- The loop of `launch_available`. `keys` are the keys that later records have to wait for,
`priorSafe` says that every record so far has completed, `earlier` are these records. -/
def scan (d : KeyCompletions) (tp : Tp) (first : RecordId) (retryOffset : Option Int) :
    List SourceRecord → Finset (Option Bytes) → Bool → HandlerPool → List (List HandlerPool.PoolOp) →
      List PreparedTypedItem → Round
  | _, _, _, pool, _, [] => ⟨pool, none⟩
  | _, _, _, pool, _, .other _ :: _ => ⟨pool, none⟩
  | earlier, keys, priorSafe, pool, between, .routed source :: items =>
    if retryOffset = some source.offset then
      if source.key = none then ⟨pool, none⟩
      else d.scan tp first retryOffset (earlier ++ [source]) (Insert.insert source.key keys) false
        pool between items
    else
      match d.entries.get? ⟨tp, source.offset⟩ with
      | some entry =>
        if entry.outcome.isSuccess then
          d.scan tp first retryOffset (earlier ++ [source]) keys priorSafe pool between items
        else if source.key = none then ⟨pool, none⟩
        else d.scan tp first retryOffset (earlier ++ [source]) (Insert.insert source.key keys) false
          pool between items
      | none =>
        if source.key = none ∧ priorSafe = false then ⟨pool, none⟩
        else if source.key ∈ keys then
          d.scan tp first retryOffset (earlier ++ [source]) keys false pool between items
        else if d.config.maxInFlightHandlers ≤ d.workers.length then ⟨pool, none⟩
        else
          let bytes := satAdd (min source.retainedBytes d.config.maxRecordBytes) 2048
          if d.overBudget first ⟨tp, source.offset⟩ bytes then ⟨pool, none⟩
          else
            let pool := runFrom HandlerPool.exec pool (between.headD [])
            match pool.reserve d.owner (some (tp, source.key)) with
            | (pool, none) => d.scan tp first retryOffset (earlier ++ [source])
                (Insert.insert source.key keys) false pool between.tail items
            | (pool, some permit) => ⟨pool, some ⟨earlier, source, permit, bytes⟩⟩

/-- The inputs of a round. -/
structure RoundInput where
  tp : Tp
  prepared : List PreparedTypedItem
  retryOffset : Option Int
  stopRequested : Bool
  userPaused : Bool
  /-- What other threads do with the pool before each request. -/
  between : List (List HandlerPool.PoolOp)
  spawns : Bool

/-- `launch_round` up to the start of the call. -/
def round (d : KeyCompletions) (input : RoundInput) : Round :=
  match input.prepared with
  | [] => ⟨d.pool, none⟩
  | first :: _ =>
    if input.stopRequested || input.userPaused then ⟨d.pool, none⟩
    else if d.workers.any fun worker => worker.identity.tp = input.tp ∧ worker.key = none then
      ⟨d.pool, none⟩
    else
      let keys := (d.workers.filter (·.identity.tp = input.tp)).map (·.key)
      d.scan input.tp ⟨input.tp, first.offset⟩ input.retryOffset [] keys.toFinset true d.pool
        input.between input.prepared

def launchRound (d : KeyCompletions) (input : RoundInput) : KeyCompletions :=
  let round := d.round input
  let d := { d with pool := round.pool }
  match round.launch with
  | none => d
  | some launch =>
    let identity : RecordId := ⟨input.tp, launch.source.offset⟩
    if input.spawns then
      { d with workers := d.workers ++ [⟨identity, launch.source.assignmentEpoch, true, true, 1,
          launch.source.key, launch.bytes⟩] }
    else
      -- the permit is dropped with the job that could not be submitted
      let d := { d with pool := (d.pool.release launch.permit).getD d.pool }
      d.insert identity launch.bytes .fatal true 1

/-- A call for a partition as a whole, for records of the other execution modes. -/
def startPartition (d : KeyCompletions) (identity : RecordId) (assignmentEpoch count bytes : ℕ)
    (stopRequested spawns : Bool) : KeyCompletions :=
  if stopRequested || d.workers.any (·.identity = identity) then d
  else
    match d.pool.reserve d.owner (some (identity.tp, none)) with
    | (pool, none) => { d with pool }
    | (pool, some permit) =>
      if spawns then
        { d with
          pool
          workers := d.workers ++
            [⟨identity, assignmentEpoch, true, false, count, none, satAdd bytes 2048⟩] }
      else { d with pool := (pool.release permit).getD pool }

inductive DispatchOp
  | launchRound (input : RoundInput)
  | startPartition (identity : RecordId) (assignmentEpoch count bytes : ℕ)
      (stopRequested spawns : Bool)
  | collect (index : ℕ) (authorized : Bool) (epoch : ℕ) (exited : Option InvocationOutcome)
  | remove (identity : RecordId)
  | pruneCommitted (confirmed : Tp → Option Int)
  | clear
  | clearPartition (tp : Tp)
  | pool (op : HandlerPool.PoolOp)

def exec (d : KeyCompletions) : DispatchOp → KeyCompletions
  | .launchRound input => d.launchRound input
  | .startPartition identity epoch count bytes stopRequested spawns =>
    d.startPartition identity epoch count bytes stopRequested spawns
  | .collect index authorized epoch exited => d.collect index authorized epoch exited
  | .remove identity => d.remove identity
  | .pruneCommitted confirmed => d.pruneCommitted confirmed
  | .clear => d.clear
  | .clearPartition tp => d.clearPartition tp
  | .pool op => { d with pool := d.pool.exec op }

/-! ## What happens to one partition -/

inductive DispatchEvent
  /-- A round started the call of a record, with these records before it in the queue. -/
  | launched (earlier : List SourceRecord) (source : SourceRecord)
  /-- The owner received the result of a call that was authorised to its end. -/
  | finished (offset : Int) (outcome : InvocationOutcome)
  | cleared
deriving DecidableEq

def DispatchEvent.isCleared : DispatchEvent → Bool
  | .cleared => true
  | _ => false

/-- The event, if it is one of the partition. -/
def eventIn (tp tp' : Tp) (e : DispatchEvent) : List DispatchEvent := if tp' = tp then [e] else []

def events (tp : Tp) (d : KeyCompletions) : DispatchOp → List DispatchEvent
  | .launchRound input =>
    match (d.round input).launch with
    | some launch =>
      eventIn tp input.tp (.launched launch.earlier launch.source) ++
        if input.spawns then [] else eventIn tp input.tp (.finished launch.source.offset .fatal)
    | none => []
  | .collect index authorized epoch (some outcome) =>
    match d.workers[index]? with
    | some worker =>
      if authorized && worker.authorized && worker.assignmentEpoch = epoch then
        eventIn tp worker.identity.tp (.finished worker.identity.offset outcome)
      else []
    | none => []
  | .clear => [.cleared]
  | .clearPartition tp' => eventIn tp tp' .cleared
  | .startPartition .. | .collect _ _ _ none | .remove _ | .pruneCommitted _ | .pool _ => []

/-- What happened to a partition in a run of an owner. -/
def log (owner : ℕ) (config : BehaviorConfig) (capacity : ℕ) (tp : Tp) (ops : List DispatchOp) :
    List DispatchEvent :=
  history exec (events tp) (new owner config capacity) ops

open List

variable {d : KeyCompletions} {tp : Tp} {first : RecordId} {retryOffset : Option Int}
  {earlier : List SourceRecord} {keys : Finset (Option Bytes)} {priorSafe : Bool}
  {pool : HandlerPool} {between : List (List HandlerPool.PoolOp)} {items : List PreparedTypedItem}
  {launch : Launch}

/-- The owner holds the successful result of the record. -/
def Succeeded (d : KeyCompletions) (tp : Tp) (source : SourceRecord) : Prop :=
  ∃ entry, d.entries.get? ⟨tp, source.offset⟩ = some entry ∧ entry.outcome.isSuccess = true

/-- The pool when it is asked for the `n`-th time, if it has refused so far. -/
def askedPool (pool : HandlerPool) (between : List (List HandlerPool.PoolOp)) : ℕ → HandlerPool
  | 0 => pool
  | n + 1 => askedPool (runFrom HandlerPool.exec pool (between.headD [])) between.tail n

/-- The pool has a place, and the partition has no call. -/
def Vacant (tp : Tp) (pool : HandlerPool) : Prop :=
  pool.reserved < pool.capacity ∧ pool.domains.get? tp = none

/-- The pool has no place, or a call without a key has the partition for itself. -/
def Shut (tp : Tp) (pool : HandlerPool) : Prop :=
  pool.capacity ≤ pool.reserved ∨ ∃ state, pool.domains.get? tp = some state ∧ state.exclusive = true

/-- The turn of a record without a key has come: the records before it have completed. -/
def Due (d : KeyCompletions) (tp : Tp) (items : List PreparedTypedItem) : Prop :=
  ∃ (earlier : List SourceRecord) (source : SourceRecord) (after : List PreparedTypedItem),
    items = earlier.map .routed ++ .routed source :: after ∧ source.key = none ∧
    ¬ d.Succeeded tp source ∧ ∀ x ∈ earlier, d.Succeeded tp x

/-- When the turn of a record without a key has come, the pool has a place for it, or none for any
record of the partition for the rest of the round. -/
def Yields (d : KeyCompletions) : DispatchOp → Prop
  | .launchRound input => d.Due input.tp input.prepared →
    Vacant input.tp (askedPool d.pool input.between 1) ∨
      ∀ n, Shut input.tp (askedPool d.pool input.between (n + 2))
  | _ => True

/-! ## One round -/

/-- What a round knows about the records it has passed. -/
structure Passed (d : KeyCompletions) (tp : Tp) (earlier : List SourceRecord)
    (keys : Finset (Option Bytes)) (priorSafe : Bool) : Prop where
  waiting : ∀ source ∈ earlier, ¬ d.Succeeded tp source → source.key ∈ keys
  safe : priorSafe = true → ∀ source ∈ earlier, d.Succeeded tp source

/-- The round goes on to the next record, which later ones with its key have to wait for. -/
theorem Passed.wait (h : d.Passed tp earlier keys priorSafe) (source : SourceRecord) :
    d.Passed tp (earlier ++ [source]) (Insert.insert source.key keys) false := by
  refine ⟨fun x hx hnot => ?_, nofun⟩
  rcases mem_append.1 hx with hx | hx
  · exact Finset.mem_insert_of_mem (h.waiting x hx hnot)
  · rw [mem_singleton.1 hx]
    exact Finset.mem_insert_self _ _

theorem Passed.done (h : d.Passed tp earlier keys priorSafe)
    (hdone : d.Succeeded tp source) : d.Passed tp (earlier ++ [source]) keys priorSafe := by
  constructor
  · intro x hx hnot
    rcases mem_append.1 hx with hx | hx
    · exact h.waiting x hx hnot
    · rw [mem_singleton.1 hx] at hnot
      exact absurd hdone hnot
  · intro hsafe x hx
    rcases mem_append.1 hx with hx | hx
    · exact h.safe hsafe x hx
    · rw [mem_singleton.1 hx]
      exact hdone

theorem reserve_of_vacant {owner : ℕ} (h : Vacant tp pool) :
    (pool.reserve owner (some (tp, none))).2 ≠ none := by
  simp [HandlerPool.reserve, h.1.not_ge, h.2]

theorem reserve_of_shut {owner : ℕ} {key : Option Bytes} (h : Shut tp pool) :
    pool.reserve owner (some (tp, key)) = (pool, none) := by
  rcases h with hfull | ⟨state, hstate, hexcl⟩
  · simp [HandlerPool.reserve, hfull]
  · simp [HandlerPool.reserve, hstate, Domain.blocks, hexcl]

theorem fst_of_refused {owner : ℕ} {domain : Option (Tp × Option Bytes)} {pool' : HandlerPool}
    (h : pool.reserve owner domain = (pool', none)) : pool' = pool := by
  unfold HandlerPool.reserve at h
  repeat' split at h
  all_goals cases h
  all_goals rfl

/-- A pool that stays shut has the round start no call. -/
theorem scan_of_shut (hshut : ∀ n, Shut tp (askedPool pool between (n + 1))) :
    (d.scan tp first retryOffset earlier keys priorSafe pool between items).launch = none := by
  fun_induction scan d tp first retryOffset earlier keys priorSafe pool between items with
  | case1 | case2 | case3 | case6 | case8 | case10 | case11 => rfl
  | case4 | case5 | case7 | case9 =>
    rename_i ih
    exact ih hshut
  | case12 =>
    rename_i hres ih
    obtain rfl := fst_of_refused hres
    exact ih fun n => hshut (n + 1)
  | case13 =>
    rename_i hres
    cases hres.symm.trans (reserve_of_shut (hshut 0))

theorem scan_prefix
    (h : (d.scan tp first retryOffset earlier keys priorSafe pool between items).launch =
      some launch) :
    ∃ after, earlier.map .routed ++ items =
      launch.earlier.map .routed ++ .routed launch.source :: after := by
  fun_induction scan d tp first retryOffset earlier keys priorSafe pool between items with
  | case1 | case2 | case3 | case6 | case8 | case10 | case11 => cases h
  | case4 | case5 | case7 | case9 | case12 =>
    rename_i ih
    simpa using ih h
  | case13 =>
    cases h
    exact ⟨_, rfl⟩

/-- **One round.** Where a call is started, the round knows all about the records before it; the key
of the record is not taken, and without a key all of them have completed. No record without a key is
among those that have not, if the pool yields to it when its turn has come. -/
theorem scan_launch (hpass : d.Passed tp earlier keys priorSafe)
    (h : (d.scan tp first retryOffset earlier keys priorSafe pool between items).launch =
      some launch) :
    ∃ keys' priorSafe', d.Passed tp launch.earlier keys' priorSafe' ∧
      launch.source.key ∉ keys' ∧ (launch.source.key = none → priorSafe' = true) ∧
      (none ∉ keys → (priorSafe = true → d.Due tp items → Vacant tp (askedPool pool between 1) ∨
          ∀ n, Shut tp (askedPool pool between (n + 2))) → none ∉ keys') := by
  fun_induction scan d tp first retryOffset earlier keys priorSafe pool between items with
  | case1 | case2 | case3 | case6 | case8 | case10 | case11 => cases h
  | case4 | case7 =>
    rename_i hkey ih
    obtain ⟨keys', priorSafe', hrest, hfree, hsafe, hbarr⟩ := ih (hpass.wait _) h
    refine ⟨keys', priorSafe', hrest, hfree, hsafe, fun hnone _ => hbarr ?_ nofun⟩
    simp [hnone, Ne.symm hkey]
  | case5 =>
    rename_i source _ _ entry hent hsucc ih
    obtain ⟨keys', priorSafe', hrest, hfree, hsafe, hbarr⟩ := ih (hpass.done ⟨entry, hent, hsucc⟩) h
    refine ⟨keys', priorSafe', hrest, hfree, hsafe, fun hnone hyield =>
      hbarr hnone fun hpri hdue => ?_⟩
    obtain ⟨before, due, after, rfl, hkey, hopen, hdone⟩ := hdue
    exact hyield hpri ⟨source :: before, due, after, rfl, hkey, hopen,
      forall_mem_cons.2 ⟨⟨entry, hent, hsucc⟩, hdone⟩⟩
  | case9 =>
    rename_i hkey ih
    obtain ⟨keys', priorSafe', hrest, hfree, hsafe, hbarr⟩ :=
      ih (Finset.insert_eq_of_mem hkey ▸ hpass.wait _) h
    exact ⟨keys', priorSafe', hrest, hfree, hsafe, fun hnone _ => hbarr hnone nofun⟩
  | case12 =>
    rename_i priorSafe _ _ source _ _ hent hsafe' _ _ _ _ _ _ hres ih
    obtain ⟨keys', priorSafe', hrest, hfree, hsafe, hbarr⟩ := ih (hpass.wait _) h
    refine ⟨keys', priorSafe', hrest, hfree, hsafe, fun hnone hyield => hbarr ?_ nofun⟩
    obtain rfl := fst_of_refused hres
    -- the pool has a place for a record without a key, or has none for those behind it
    have hkey : source.key ≠ none := by
      intro hnull
      have hpri : priorSafe = true := by
        by_contra hopen
        exact hsafe' ⟨hnull, eq_false_of_ne_true hopen⟩
      have hopen : ¬ d.Succeeded tp source := by
        rintro ⟨entry, hfnd, -⟩
        rw [hent] at hfnd
        cases hfnd
      rcases hyield hpri ⟨[], source, _, rfl, hnull, hopen, nofun⟩ with hvac | hshut
      · rw [hnull] at hres
        exact reserve_of_vacant hvac (congrArg Prod.snd hres)
      · rw [scan_of_shut hshut] at h
        cases h
    simp [hnone, Ne.symm hkey]
  | case13 =>
    rename_i hsafe hfree _ _ _ _ _ _ _
    cases h
    refine ⟨_, _, hpass, hfree, fun hnull => ?_, fun hnone _ => hnone⟩
    by_contra hopen
    exact hsafe ⟨hnull, eq_false_of_ne_true hopen⟩

theorem round_launch {input : RoundInput} (h : (d.round input).launch = some launch) :
    (∃ after, input.prepared = launch.earlier.map .routed ++ .routed launch.source :: after) ∧
    (∀ source ∈ launch.earlier, source.key = launch.source.key → d.Succeeded input.tp source) ∧
    (launch.source.key = none → ∀ source ∈ launch.earlier, d.Succeeded input.tp source) ∧
    (d.Yields (.launchRound input) →
      ∀ source ∈ launch.earlier, source.key = none → d.Succeeded input.tp source) := by
  unfold round at h
  split at h
  · cases h
  · rename_i first rest hprep
    rw [hprep] at h ⊢
    simp only at h
    split_ifs at h with hstop hnull
    have hstart : d.Passed input.tp [] ((d.workers.filter (·.identity.tp = input.tp)).map
        (·.key)).toFinset true := by
      constructor
      · nofun
      · nofun
    obtain ⟨keys, priorSafe, hpass, hfree, hsafe, hbarr⟩ := scan_launch hstart h
    refine ⟨by simpa using scan_prefix h, fun source hmem hkey => ?_, fun hnone => ?_,
      fun hyield source hmem hnone => ?_⟩
    · by_contra hnot
      exact hfree (hkey ▸ hpass.waiting source hmem hnot)
    · exact hpass.safe (hsafe hnone)
    · by_contra hnot
      refine hbarr ?_ (fun _ => hprep ▸ hyield) (hnone ▸ hpass.waiting source hmem hnot)
      -- a worker without a key ends the round before it begins
      intro hmem'
      rw [mem_toFinset, mem_map] at hmem'
      obtain ⟨worker, hwork, hkey⟩ := hmem'
      obtain ⟨hwork, htp⟩ := mem_filter.1 hwork
      exact hnull (any_eq_true.2 ⟨worker, hwork, by simpa [hkey] using htp⟩)

/-! ## Every run -/

/-- Every result that an owner holds was received since the partition was last cleared. -/
def Backed (tp : Tp) (before : List DispatchEvent) (entries : Dict RecordId CompletedKey) : Prop :=
  ∀ offset entry, entries.get? ⟨tp, offset⟩ = some entry →
    .finished offset entry.outcome ∈ before.rtakeWhile (!·.isCleared)

variable {before : List DispatchEvent} {entries entries' : Dict RecordId CompletedKey}

theorem mem_eventIn {tp' : Tp} {e x : DispatchEvent} :
    x ∈ eventIn tp tp' e ↔ tp' = tp ∧ x = e := by
  unfold eventIn
  split_ifs with htp <;> simp [htp]

theorem Backed.keep (h : Backed tp before entries)
    (hkeep : ∀ id entry, entries'.get? id = some entry → entries.get? id = some entry) :
    Backed tp before entries' :=
  fun offset entry hent => h offset entry (hkeep _ entry hent)

theorem Backed.extend {es : List DispatchEvent} (h : Backed tp before entries)
    (hes : ∀ e ∈ es, e.isCleared = false) : Backed tp (before ++ es) entries := by
  intro offset entry hent
  rw [rtakeWhile_append (by simpa using hes)]
  exact mem_append_left _ (h offset entry hent)

theorem get?_remove (d : KeyCompletions) (id id' : RecordId) :
    (d.remove id).entries.get? id' = if id' = id then none else d.entries.get? id' := by
  unfold remove
  split
  · show (d.entries.erase id).get? id' = _
    rw [Dict.get?_erase]
    split_ifs <;> rfl
  · rename_i hnone
    split_ifs with hid
    · rw [hid, hnone]
    · rfl

theorem get?_insert (d : KeyCompletions) (id id' : RecordId) (bytes : ℕ)
    (outcome : InvocationOutcome) (keyed : Bool) (count : ℕ) :
    (d.insert id bytes outcome keyed count).entries.get? id' =
      if id' = id then some ⟨bytes, outcome, keyed, count⟩ else d.entries.get? id' := by
  simp only [insert, Dict.get?_insert, get?_remove]
  split_ifs <;> rfl

theorem get?_keepEntries {keep : RecordId → Bool} {id : RecordId} {entry : CompletedKey}
    (h : (d.keepEntries keep).entries.get? id = some entry) :
    keep id = true ∧ d.entries.get? id = some entry := by
  simp only [keepEntries, Dict.get?_retain, Option.bind_eq_some_iff] at h
  obtain ⟨found, hfnd, hkept⟩ := h
  split_ifs at hkept with hkeep
  cases hkept
  exact ⟨hkeep, hfnd⟩

/-- A result is received for a record, in this partition or in another one. -/
theorem Backed.insert (h : Backed tp before d.entries) (id : RecordId) (bytes : ℕ)
    (outcome : InvocationOutcome) (keyed : Bool) (count : ℕ) :
    Backed tp (before ++ eventIn tp id.tp (.finished id.offset outcome))
      (d.insert id bytes outcome keyed count).entries := by
  have hes : ∀ e ∈ eventIn tp id.tp (.finished id.offset outcome), (!e.isCleared) = true := by
    intro e he
    rw [(mem_eventIn.1 he).2]
    rfl
  intro offset entry hent
  rw [rtakeWhile_append hes]
  rw [get?_insert] at hent
  split_ifs at hent with hid
  · cases hent
    subst hid
    exact mem_append_right _ (mem_eventIn.2 ⟨rfl, rfl⟩)
  · exact mem_append_left _ (h offset entry hent)

theorem Backed.launchRound (h : Backed tp before d.entries) (input : RoundInput) :
    Backed tp (before ++ events tp d (.launchRound input)) (d.launchRound input).entries := by
  simp only [events, KeyCompletions.launchRound]
  cases hlaunch : (d.round input).launch with
  | none => simpa using h
  | some launch =>
    have hlaunc : Backed tp
        (before ++ eventIn tp input.tp (.launched launch.earlier launch.source)) d.entries := by
      refine h.extend fun e he => ?_
      rw [(mem_eventIn.1 he).2]
      rfl
    simp only [← append_assoc]
    split_ifs
    · simpa using hlaunc
    · let pool := ((d.round input).pool.release launch.permit).getD (d.round input).pool
      exact Backed.insert (d := { d with pool }) hlaunc ⟨input.tp, launch.source.offset⟩
        launch.bytes .fatal true 1

theorem Backed.collect (h : Backed tp before d.entries) (index : ℕ) (authorized : Bool)
    (epoch : ℕ) (exited : Option InvocationOutcome) :
    Backed tp (before ++ events tp d (.collect index authorized epoch exited))
      (d.collect index authorized epoch exited).entries := by
  unfold KeyCompletions.collect
  cases exited with
  | none =>
    simp only [events, append_nil]
    cases d.workers[index]? <;> exact h
  | some outcome =>
    simp only [events]
    cases d.workers[index]? with
    | none => simpa using h
    | some worker =>
      simp only
      split_ifs
      · exact Backed.insert (d := { d with workers := swapRemove d.workers index }) h worker.identity
          worker.bytes outcome worker.keyed worker.count
      · simpa using h

theorem Backed.exec (h : Backed tp before d.entries) (op : DispatchOp) :
    Backed tp (before ++ events tp d op) (d.exec op).entries := by
  cases op with
  | launchRound input => exact h.launchRound input
  | collect index authorized epoch exited => exact h.collect index authorized epoch exited
  | startPartition identity epoch count bytes stopRequested spawns =>
    simp only [events, append_nil, KeyCompletions.exec, startPartition]
    split_ifs
    · exact h
    · split <;> exact h
    · split <;> exact h
  | remove identity =>
    simp only [events, append_nil]
    refine h.keep fun id entry hent => ?_
    rw [KeyCompletions.exec, get?_remove] at hent
    split_ifs at hent
    exact hent
  | pruneCommitted confirmed =>
    simp only [events, append_nil]
    exact h.keep fun id entry hent => (get?_keepEntries hent).2
  | clear =>
    nofun
  | clearPartition tp' =>
    by_cases htp : tp' = tp
    · intro offset entry hent
      have hkeep := (get?_keepEntries hent).1
      simp [htp] at hkeep
    · simp only [events, eventIn, if_neg htp, append_nil]
      exact h.keep fun id entry hent => (get?_keepEntries hent).2
  | pool op => simpa only [events, append_nil, KeyCompletions.exec] using h

variable {owner : ℕ} {config : BehaviorConfig} {capacity : ℕ} {ops : List DispatchOp}
  {earlier : List SourceRecord} {source : SourceRecord}

/-- Only a round starts a call of a record, and that is the first that happens in it. -/
theorem round_of_event {op : DispatchOp} {pre post : List DispatchEvent}
    (h : events tp d op = pre ++ .launched earlier source :: post) :
    pre = [] ∧ ∃ input launch, op = .launchRound input ∧ input.tp = tp ∧
      (d.round input).launch = some launch ∧ launch.earlier = earlier ∧
      launch.source = source := by
  have hmem : .launched earlier source ∈ events tp d op := by
    rw [h]
    simp
  cases op with
  | launchRound input =>
    simp only [events] at h
    cases hlaunch : (d.round input).launch with
    | none => simp [hlaunch] at h
    | some launch =>
      rw [hlaunch] at h
      by_cases htp : input.tp = tp
      · have hev : DispatchEvent.launched launch.earlier launch.source ::
            (if input.spawns then [] else [.finished launch.source.offset .fatal]) =
              pre ++ .launched earlier source :: post := by
          simpa [eventIn, htp] using h
        cases pre with
        | nil =>
          cases (cons.inj hev).1
          exact ⟨rfl, input, launch, rfl, htp, hlaunch, rfl, rfl⟩
        | cons e pre =>
          -- the second event of a round is no start of a call
          have htail : DispatchEvent.launched earlier source ∈
              if input.spawns then [] else [.finished launch.source.offset .fatal] := by
            rw [(cons.inj hev).2]
            simp
          split_ifs at htail <;> simp at htail
      · simp [eventIn, htp] at h
  | collect index authorized epoch exited =>
    cases exited with
    | none => cases hmem
    | some outcome =>
      simp only [events] at hmem
      cases hwork : d.workers[index]? with
      | none => simp [hwork] at hmem
      | some worker =>
        rw [hwork] at hmem
        simp only at hmem
        split_ifs at hmem
        · cases (mem_eventIn.1 hmem).2
        · cases hmem
  | clear => simp [events] at hmem
  | clearPartition tp' => cases (mem_eventIn.1 hmem).2
  | startPartition | remove | pruneCommitted | pool => cases hmem

/-- The record has completed successfully since the partition was last cleared. -/
def Completed (before : List DispatchEvent) (x : SourceRecord) : Prop :=
  ∃ outcome : InvocationOutcome, outcome.isSuccess = true ∧
    .finished x.offset outcome ∈ before.rtakeWhile (!·.isCleared)

/-- The round that starts a call, and what it needs. The barrier needs a pool that yields. -/
theorem launched_run {after : List DispatchEvent}
    (hlog : log owner config capacity tp ops = before ++ .launched earlier source :: after) :
    ∃ ops1 input ops2 rest, ops = ops1 ++ .launchRound input :: ops2 ∧ input.tp = tp ∧
      input.prepared = earlier.map .routed ++ .routed source :: rest ∧
      (∀ x ∈ earlier, x.key = source.key ∨ source.key = none → Completed before x) ∧
      ((runFrom exec (new owner config capacity) ops1).Yields (.launchRound input) →
        ∀ x ∈ earlier, x.key = none → Completed before x) := by
  obtain ⟨ops1, op, ops2, pre, post, rfl, hemit, rfl⟩ := history_event hlog
  obtain ⟨rfl, input, launch, rfl, htp, hlaunch, rfl, rfl⟩ := round_of_event hemit
  have hback : Backed tp (history exec (events tp) (new owner config capacity) ops1)
      (runFrom exec (new owner config capacity) ops1).entries := by
    refine history_inv (I := fun es (d : KeyCompletions) => Backed tp es d.entries) ?_
      (fun hb => hb.exec _) ops1
    nofun
  have hcomp : ∀ x, (runFrom exec (new owner config capacity) ops1).Succeeded input.tp x →
      Completed (history exec (events tp) (new owner config capacity) ops1 ++ []) x := by
    rintro x ⟨entry, hent, hsucc⟩
    rw [htp] at hent
    rw [append_nil]
    exact ⟨entry.outcome, hsucc, hback x.offset entry hent⟩
  obtain ⟨⟨rest, hprep⟩, hkey, hnull, hbarr⟩ := round_launch hlaunch
  refine ⟨ops1, input, ops2, rest, rfl, htp, hprep, ?_, ?_⟩
  · rintro x hx (h | h)
    · exact hcomp x (hkey x hx h)
    · exact hcomp x (hnull h x hx)
  · intro hyield x hx h
    exact hcomp x (hbarr hyield x hx h)

/-- **Key order.** -/
theorem keyOrder_run (owner : ℕ) (config : BehaviorConfig) (capacity : ℕ) (ops : List DispatchOp)
    (tp : Tp) (hyields : Along exec Yields (new owner config capacity) ops)
    (before after : List DispatchEvent) (earlier : List SourceRecord) (source : SourceRecord)
    (hlog : log owner config capacity tp ops = before ++ .launched earlier source :: after) :
    (∃ ops1 input ops2 rest, ops = ops1 ++ .launchRound input :: ops2 ∧ input.tp = tp ∧
      input.prepared = earlier.map .routed ++ .routed source :: rest) ∧
    ∀ x ∈ earlier, x.key = source.key ∨ x.key = none ∨ source.key = none → Completed before x := by
  obtain ⟨ops1, input, ops2, rest, rfl, htp, hprep, hord, hbarr⟩ := launched_run hlog
  refine ⟨⟨ops1, input, ops2, rest, rfl, htp, hprep⟩, ?_⟩
  rintro x hx (h | h | h)
  · exact hord x hx (.inl h)
  · exact hbarr (along_append.1 hyields).2.1 x hx h
  · exact hord x hx (.inr h)

/-- A queue with a record without a key before one with a key. -/
def barrierRound : RoundInput where
  tp := ⟨"orders", 0⟩
  prepared := [.routed ⟨5, none, 10, 0⟩, .routed ⟨6, some [2], 10, 0⟩]
  retryOffset := none
  stopRequested := false
  userPaused := false
  between := []
  spawns := true

/-- The second record is started when the first has exited with success. -/
theorem keyOrder_run_succeeded :
    let ops := [.launchRound barrierRound, .pool (.drop ⟨0, some (⟨"orders", 0⟩, none)⟩),
      .collect 0 true 0 (some (.completed 1 0 1)), .launchRound barrierRound]
    log 0 ⟨4, 100, 10, 10000⟩ 4 ⟨"orders", 0⟩ ops =
      [.launched [] ⟨5, none, 10, 0⟩, .finished 5 (.completed 1 0 1),
        .launched [⟨5, none, 10, 0⟩] ⟨6, some [2], 10, 0⟩] ∧
    Completed [.launched [] ⟨5, none, 10, 0⟩, .finished 5 (.completed 1 0 1)] ⟨5, none, 10, 0⟩ := by
  intro ops
  have hlog : log 0 ⟨4, 100, 10, 10000⟩ 4 ⟨"orders", 0⟩ ops =
      [.launched [] ⟨5, none, 10, 0⟩, .finished 5 (.completed 1 0 1),
        .launched [⟨5, none, 10, 0⟩] ⟨6, some [2], 10, 0⟩] := by
    decide +kernel
  have hyields : Along exec Yields (new 0 ⟨4, 100, 10, 10000⟩ 4) ops := by
    refine ⟨fun _ => .inl ⟨?_, ?_⟩, trivial, trivial, fun _ => .inl ⟨?_, ?_⟩, trivial⟩ <;>
      decide +kernel
  exact ⟨hlog, (keyOrder_run 0 ⟨4, 100, 10, 10000⟩ 4 ops ⟨"orders", 0⟩ hyields _ [] _ _ hlog).2 _
    (by decide) (.inr (.inl rfl))⟩

/-- Another owner's call with a third key still runs in the partition. The pool refuses the record
without a key and grants the next one, which overtakes it. -/
theorem keyOrder_run_overtaken :
    let ops := [.pool (.reserve 1 (some (⟨"orders", 0⟩, some [1]))), .launchRound barrierRound]
    log 0 ⟨4, 100, 10, 10000⟩ 4 ⟨"orders", 0⟩ ops =
      [.launched [⟨5, none, 10, 0⟩] ⟨6, some [2], 10, 0⟩] ∧
    ¬ Completed [] ⟨5, none, 10, 0⟩ := by
  intro ops
  refine ⟨by decide +kernel, ?_⟩
  rintro ⟨outcome, -, hmem⟩
  cases hmem

end KeyCompletions

end NasaRuntime.Nafka
