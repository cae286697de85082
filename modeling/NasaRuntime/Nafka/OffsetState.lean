import NasaRuntime.Lib.Dict
import NasaRuntime.Lib.Run
import NasaRuntime.Nafka.Types

/-!
# The offsets that are safe to commit

A consumer records the outcome of every record of its partitions and commits, for each partition,
the next offset up to which everything is safe. `PartitionOffsetState` is one partition: the next
offset the broker confirmed and the observations after it. `GroupOffsetState` holds the partitions
of one owner under two limits on the number of observations.

The methods of the source take `&mut self` and return a `Result`: what they wrote before they failed
stays. A method that can write before it fails returns the state beside the result; one that checks
everything first returns the new state in the result. An `expect` that can fail is `panic`.

Offsets are `i64` in the source and integers here, with the one addition that can overflow checked
as in the source; the sums of lengths that the source checks against overflow exceed their limits
when they overflow, and the error is the same.

Every operation on a group of partitions is, for each partition, a sequence of *moves*: an
observation is appended, the frontier is offered or confirmed, the observations in flight are
dropped, or the partition is forgotten. An operation that fails moves nothing.

**Theorem (`path_events`).** The events of an operation lead from the state of the partition before
it to the state after it.
-/

namespace NasaRuntime.Nafka

/-! ## Outcomes and errors -/

inductive OffsetStateError
  | epochMismatch (expected actual : ℕ)
  | nonIncreasingOffset (previous actual : Int)
  | nextOffsetOverflow (offset : Int)
  | invalidCommitConfirmation (expected : Option Int) (actual : Int)
  | partitionProgressFull (tp : Tp) (max : ℕ)
  | groupProgressFull (max : ℕ)
deriving DecidableEq

/-- How a method that confirms a commit stops: with an error, or at an `expect`. -/
inductive OffsetFailure
  | error (error : OffsetStateError)
  | panic
deriving DecidableEq

inductive AckSource
  | autoOnSuccess | manual
deriving DecidableEq

inductive PassthroughSkipReason
  | noLocalTarget | targetNodeMismatch | loopback | staleSource
deriving DecidableEq

inductive SkipReason
  | invalidRecord | unmatchedRoute | tombstone | availabilityFirst
  | passthrough (reason : PassthroughSkipReason)
deriving DecidableEq

inductive RecordOutcome
  | acknowledged (source : AckSource)
  | skipped (reason : SkipReason)
  | deadLettered
  | failed
  | unprocessed
deriving DecidableEq

/-- Whether a commit may pass the record. -/
def RecordOutcome.isSafe : RecordOutcome → Bool
  | .acknowledged _ | .skipped _ | .deadLettered => true
  | .failed | .unprocessed => false

structure ObservedOutcome where
  offset : Int
  outcome : RecordOutcome
deriving DecidableEq

/-! ## One partition -/

/-- The observations of one assignment epoch, at strictly increasing offsets. -/
structure PartitionProgress where
  assignmentEpoch : ℕ
  observed : List ObservedOutcome
  increasing : observed.Pairwise (·.offset < ·.offset)
deriving DecidableEq

namespace PartitionProgress

/-- The offset observed last. -/
def last? (progress : PartitionProgress) : Option Int := progress.observed.getLast?.map (·.offset)

theorem offset_le_last {progress : PartitionProgress} {last : Int} {entry : ObservedOutcome}
    (hlast : progress.last? = some last) (hentry : entry ∈ progress.observed) :
    entry.offset ≤ last := by
  obtain ⟨final, hfinal, rfl⟩ := Option.map_eq_some_iff.1 hlast
  obtain ⟨init, hinit⟩ := List.getLast?_eq_some_iff.1 hfinal
  have hsort := progress.increasing
  rw [hinit] at hsort hentry
  rcases List.mem_append.1 hentry with hmem | hmem
  · exact ((List.pairwise_append.1 hsort).2.2 _ hmem _ (List.mem_singleton_self _)).le
  · rw [List.mem_singleton.1 hmem]

/-- One more observation, past the last one. -/
def push (progress : PartitionProgress) (offset : Int) (outcome : RecordOutcome)
    (h : ∀ last, progress.last? = some last → last < offset) : PartitionProgress where
  assignmentEpoch := progress.assignmentEpoch
  observed := progress.observed ++ [⟨offset, outcome⟩]
  increasing := by
    refine List.pairwise_append.2 ⟨progress.increasing, List.pairwise_singleton _ _, ?_⟩
    intro entry hentry final hfinal
    rw [List.mem_singleton.1 hfinal]
    cases hlast : progress.last? with
    | none =>
      rw [List.getLast?_eq_none_iff.1 (Option.map_eq_none_iff.1 hlast)] at hentry
      cases hentry
    | some last => exact (offset_le_last hlast hentry).trans_lt (h last hlast)

/-- The checks of `observe`, and the observation. -/
def append (progress : PartitionProgress) (assignmentEpoch : ℕ) (offset : Int)
    (outcome : RecordOutcome) : Except OffsetStateError PartitionProgress :=
  if progress.assignmentEpoch ≠ assignmentEpoch then
    .error (.epochMismatch progress.assignmentEpoch assignmentEpoch)
  else
    match hlast : progress.last? with
    | none => .ok (progress.push offset outcome (by simp [hlast]))
    | some last =>
      if h : offset ≤ last then .error (.nonIncreasingOffset last offset)
      else .ok (progress.push offset outcome (by simpa [hlast] using h))

end PartitionProgress

structure PartitionOffsetState where
  baseline : Int
  lastConfirmed : Option Int
  inFlight : Option PartitionProgress
deriving DecidableEq

/-- The bound up to which a sequence of observations may be committed: the first offset that is not
safe, or the one after the last. -/
def frontierOf (observed : List ObservedOutcome) (h : observed ≠ []) :
    Except OffsetStateError Int :=
  match observed.find? (fun entry => !entry.outcome.isSafe) with
  | some entry => .ok entry.offset
  | none =>
    let offset := (observed.getLast h).offset
    if offset < i64Max then .ok (offset + 1) else .error (.nextOffsetOverflow offset)

namespace PartitionOffsetState

def new (committed : Option Int) (resolvedStart : Int) :
    Except OffsetStateError PartitionOffsetState :=
  if committed.any (· < 0) ∨ resolvedStart < 0 then
    .error (.invalidCommitConfirmation committed resolvedStart)
  else .ok ⟨committed.getD resolvedStart, committed, none⟩

def observe (state : PartitionOffsetState) (assignmentEpoch : ℕ) (offset : Int)
    (outcome : RecordOutcome) : PartitionOffsetState × Except OffsetStateError Unit :=
  -- `get_or_insert_with` writes before the checks
  let progress := state.inFlight.getD ⟨assignmentEpoch, [], .nil⟩
  match progress.append assignmentEpoch offset outcome with
  | .error error => ({ state with inFlight := some progress }, .error error)
  | .ok progress => ({ state with inFlight := some progress }, .ok ())

/-- The offsets of a run against the one before each of them. -/
def validateOffsets : Option Int → List Int → Except OffsetStateError Unit
  | _, [] => .ok ()
  | previous, offset :: offsets =>
    match previous with
    | some previousOffset =>
      if offset ≤ previousOffset then .error (.nonIncreasingOffset previousOffset offset)
      else validateOffsets (some offset) offsets
    | none => validateOffsets (some offset) offsets

def validateRun (state : PartitionOffsetState) (assignmentEpoch : ℕ) (offsets : List Int) :
    Except OffsetStateError Unit :=
  match state.inFlight with
  | some progress =>
    if progress.assignmentEpoch ≠ assignmentEpoch then
      .error (.epochMismatch progress.assignmentEpoch assignmentEpoch)
    else validateOffsets progress.last? offsets
  | none => validateOffsets none offsets

/-- The loop of `observe_run` over one partition. -/
def observeAll (state : PartitionOffsetState) (assignmentEpoch : ℕ) :
    List (Int × RecordOutcome) → PartitionOffsetState × Except OffsetStateError Unit
  | [] => (state, .ok ())
  | (offset, outcome) :: outcomes =>
    match state.observe assignmentEpoch offset outcome with
    | (state, .error error) => (state, .error error)
    | (state, .ok ()) => state.observeAll assignmentEpoch outcomes

def committableNext (state : PartitionOffsetState) : Except OffsetStateError (Option Int) :=
  match state.inFlight with
  | none => .ok none
  | some progress =>
    if h : progress.observed = [] then .ok none
    else
      match frontierOf progress.observed h with
      | .error error => .error error
      | .ok frontier =>
        match state.lastConfirmed with
        | some confirmed => .ok (if frontier ≤ confirmed then none else some frontier)
        | none => .ok (if frontier ≤ state.baseline then none else some frontier)

/-- The observations from an offset on. -/
def trim (progress : PartitionProgress) (nextOffset : Int) : Option PartitionProgress :=
  let observed := progress.observed.filter fun entry => nextOffset ≤ entry.offset
  if observed = [] then none
  else some ⟨progress.assignmentEpoch, observed, progress.increasing.filter _⟩

def confirmCommitted (state : PartitionOffsetState) (nextOffset : Int) :
    Except OffsetStateError PartitionOffsetState :=
  match state.committableNext with
  | .error error => .error error
  | .ok expected =>
    if expected ≠ some nextOffset then .error (.invalidCommitConfirmation expected nextOffset)
    else .ok ⟨nextOffset, some nextOffset, state.inFlight.bind (trim · nextOffset)⟩

def reset (state : PartitionOffsetState) : PartitionOffsetState := { state with inFlight := none }

/-- The observations in flight. -/
def observed (state : PartitionOffsetState) : List ObservedOutcome :=
  (state.inFlight.map (·.observed)).getD []

def observedLen (state : PartitionOffsetState) : ℕ := state.observed.length

end PartitionOffsetState

/-! ## The partitions of an owner -/

structure GroupOffsetState where
  partitions : Dict Tp PartitionOffsetState
  observedTotal : ℕ
  maxPartitionRecords : ℕ
  maxGroupRecords : ℕ

namespace GroupOffsetState

def new (maxPartitionRecords maxGroupRecords : ℕ) : GroupOffsetState :=
  ⟨∅, 0, maxPartitionRecords, maxGroupRecords⟩

def recount (group : GroupOffsetState) : GroupOffsetState :=
  { group with observedTotal := group.partitions.total PartitionOffsetState.observedLen }

def partitionLen (group : GroupOffsetState) (tp : Tp) : ℕ :=
  ((group.partitions.get? tp).map PartitionOffsetState.observedLen).getD 0

/-- The entry of a partition, which starts at the offset if there is none. -/
def entry (group : GroupOffsetState) (tp : Tp) (start : Int) :
    Except OffsetStateError PartitionOffsetState :=
  match group.partitions.get? tp with
  | some state => .ok state
  | none => PartitionOffsetState.new none start

def setPartition (group : GroupOffsetState) (tp : Tp) (state : PartitionOffsetState) :
    GroupOffsetState :=
  { group with partitions := group.partitions.insert tp state }

def observe (group : GroupOffsetState) (tp : Tp) (assignmentEpoch : ℕ) (offset : Int)
    (outcome : RecordOutcome) : GroupOffsetState × Except OffsetStateError Unit :=
  if group.maxPartitionRecords ≤ group.partitionLen tp then
    (group, .error (.partitionProgressFull tp group.maxPartitionRecords))
  else if group.maxGroupRecords ≤ group.observedTotal then
    (group, .error (.groupProgressFull group.maxGroupRecords))
  else
    match group.entry tp offset with
    | .error error => (group, .error error)
    | .ok state =>
      match state.observe assignmentEpoch offset outcome with
      | (state, .error error) => (group.setPartition tp state, .error error)
      | (state, .ok ()) =>
        ({ group.setPartition tp state with observedTotal := group.observedTotal + 1 }, .ok ())

def observeRun (group : GroupOffsetState) (tp : Tp) (assignmentEpoch : ℕ)
    (outcomes : List (Int × RecordOutcome)) :
    GroupOffsetState × Except OffsetStateError Unit :=
  match outcomes with
  | [] => (group, .ok ())
  | (start, _) :: _ =>
    if group.maxPartitionRecords < group.partitionLen tp + outcomes.length then
      (group, .error (.partitionProgressFull tp group.maxPartitionRecords))
    else
      let nextGroup := group.observedTotal + outcomes.length
      if group.maxGroupRecords < nextGroup then
        (group, .error (.groupProgressFull group.maxGroupRecords))
      else
        match group.entry tp start with
        | .error error => (group, .error error)
        | .ok state =>
          match state.validateRun assignmentEpoch (outcomes.map (·.1)) with
          | .error error => (group, .error error)
          | .ok () =>
            match state.observeAll assignmentEpoch outcomes with
            | (state, .error error) => (group.setPartition tp state, .error error)
            | (state, .ok ()) =>
              ({ group.setPartition tp state with observedTotal := nextGroup }, .ok ())

/-- The record was confirmed, or is recorded as safe in this epoch. -/
def alreadySafe (group : GroupOffsetState) (tp : Tp) (assignmentEpoch : ℕ) (offset : Int) : Bool :=
  match group.partitions.get? tp with
  | none => false
  | some state =>
    state.lastConfirmed.any (offset < ·) ||
      state.inFlight.any fun progress =>
        progress.assignmentEpoch = assignmentEpoch &&
          (binarySearch (·.offset) offset progress.observed).any (·.outcome.isSafe)

def committableOffsets (group : GroupOffsetState) : Except OffsetStateError (Dict Tp Int) :=
  group.partitions.collect PartitionOffsetState.committableNext

/-- What the partition would offer. -/
def expected (group : GroupOffsetState) (tp : Tp) : Except OffsetStateError (Option Int) :=
  match group.partitions.get? tp with
  | some state => state.committableNext
  | none => .ok none

/-- The first loop of `confirm_committed`. -/
def checkConfirmations (group : GroupOffsetState) : List (Tp × Int) → Except OffsetStateError Unit
  | [] => .ok ()
  | (tp, offset) :: offsets =>
    match group.expected tp with
    | .error error => .error error
    | .ok expected =>
      if expected ≠ some offset then .error (.invalidCommitConfirmation expected offset)
      else group.checkConfirmations offsets

/-- The second loop of `confirm_committed`. -/
def confirmAll (group : GroupOffsetState) :
    List (Tp × Int) → GroupOffsetState × Except OffsetFailure Unit
  | [] => (group, .ok ())
  | (tp, offset) :: offsets =>
    match group.partitions.get? tp with
    | none => (group, .error .panic)
    | some state =>
      match state.confirmCommitted offset with
      | .error error => (group, .error (.error error))
      | .ok state => (group.setPartition tp state).confirmAll offsets

def confirmCommitted (group : GroupOffsetState) (offsets : Dict Tp Int) :
    GroupOffsetState × Except OffsetFailure Unit :=
  match group.checkConfirmations offsets.entries with
  | .error error => (group, .error (.error error))
  | .ok () =>
    match group.confirmAll offsets.entries with
    | (group, .error failure) => (group, .error failure)
    | (group, .ok ()) => (group.recount, .ok ())

def resetPartition (group : GroupOffsetState) (tp : Tp) : GroupOffsetState :=
  match group.partitions.get? tp with
  | some state => (group.setPartition tp state.reset).recount
  | none => group.recount

def resetForAssignment (group : GroupOffsetState) (assigned : List Tp) : GroupOffsetState :=
  recount { group with
    partitions := group.partitions.retain fun tp state =>
      if tp ∈ assigned then some state.reset else none }

def clear (group : GroupOffsetState) : GroupOffsetState :=
  { group with partitions := ∅, observedTotal := 0 }

def clearPartition (group : GroupOffsetState) (tp : Tp) : GroupOffsetState :=
  recount { group with partitions := group.partitions.erase tp }

end GroupOffsetState

/-! ## Operations -/

inductive OffsetOp
  | observe (tp : Tp) (assignmentEpoch : ℕ) (offset : Int) (outcome : RecordOutcome)
  | observeRun (tp : Tp) (assignmentEpoch : ℕ) (outcomes : List (Int × RecordOutcome))
  | committableOffsets
  | confirmCommitted (offsets : Dict Tp Int)
  | resetPartition (tp : Tp)
  | resetForAssignment (assigned : List Tp)
  | clear
  | clearPartition (tp : Tp)

namespace GroupOffsetState

/-- The state an operation leaves, whether it succeeds or fails. -/
def exec (group : GroupOffsetState) : OffsetOp → GroupOffsetState
  | .observe tp epoch offset outcome => (group.observe tp epoch offset outcome).1
  | .observeRun tp epoch outcomes => (group.observeRun tp epoch outcomes).1
  | .committableOffsets => group
  | .confirmCommitted offsets => (group.confirmCommitted offsets).1
  | .resetPartition tp => group.resetPartition tp
  | .resetForAssignment assigned => group.resetForAssignment assigned
  | .clear => group.clear
  | .clearPartition tp => group.clearPartition tp

/-- The state after the operations, from an empty group with the two limits. -/
def run (maxPartitionRecords maxGroupRecords : ℕ) (ops : List OffsetOp) : GroupOffsetState :=
  runFrom exec (new maxPartitionRecords maxGroupRecords) ops

end GroupOffsetState

open PartitionProgress Option List Dict

/-! ## Observations -/

namespace PartitionProgress

variable {progress : PartitionProgress} {epoch : ℕ} {offset : Int}

theorem append_ok (hep : progress.assignmentEpoch = epoch)
    (hlast : ∀ last, progress.last? = some last → last < offset) (outcome : RecordOutcome) :
    progress.append epoch offset outcome = .ok (progress.push offset outcome hlast) := by
  unfold append
  rw [if_neg (not_not.2 hep)]
  split
  · rfl
  · rename_i last heq
    rw [dif_neg (not_le.2 (hlast last heq))]

end PartitionProgress

variable {outcomes : List (Int × RecordOutcome)}

namespace PartitionOffsetState

variable {state state' : PartitionOffsetState} {epoch : ℕ} {offset next : Int}
  {outcome : RecordOutcome}

/-- The observation is in order. -/
def Admits (state : PartitionOffsetState) (epoch : ℕ) (offset : Int) : Prop :=
  ∀ progress, state.inFlight = some progress → progress.assignmentEpoch = epoch ∧
    ∀ last, progress.last? = some last → last < offset

/-- The observation is appended. -/
def Appends (epoch : ℕ) (state : PartitionOffsetState) (entry : Int × RecordOutcome)
    (state' : PartitionOffsetState) : Prop :=
  ∃ progress, state' = { state with inFlight := some progress } ∧
    progress.assignmentEpoch = epoch ∧ progress.observed = state.observed ++ [⟨entry.1, entry.2⟩]

theorem observe_of_admits (h : state.Admits epoch offset) (outcome : RecordOutcome) :
    ∃ state', state.observe epoch offset outcome = (state', .ok ()) ∧
      Appends epoch state (offset, outcome) state' := by
  cases hflight : state.inFlight with
  | none =>
    refine ⟨_, ?_, push ⟨epoch, [], .nil⟩ offset outcome (by nofun), rfl, rfl, ?_⟩
    · simp only [observe, hflight, getD_none]
      rw [append_ok rfl (by nofun)]
    · simp [push, observed, hflight]
  | some progress =>
    obtain ⟨hep, hlast⟩ := h progress hflight
    refine ⟨_, ?_, progress.push offset outcome hlast, rfl, hep, ?_⟩
    · simp only [observe, hflight, getD_some]
      rw [append_ok hep hlast]
    · simp [push, observed, hflight]

variable {entry : Int × RecordOutcome} {offsets : List Int}

theorem observed_of_appends (h : Appends epoch state entry state') :
    state'.observed = state.observed ++ [⟨entry.1, entry.2⟩] := by
  obtain ⟨progress, rfl, -, hobs⟩ := h
  exact hobs

theorem increasing_observed (state : PartitionOffsetState) :
    state.observed.Pairwise (·.offset < ·.offset) := by
  unfold observed
  cases state.inFlight with
  | none => exact .nil
  | some progress => exact progress.increasing

theorem validateOffsets_cons {previous : Option Int} :
    validateOffsets previous (offset :: offsets) = .ok () ↔
      (∀ last, previous = some last → last < offset) ∧
        validateOffsets (some offset) offsets = .ok () := by
  cases previous with
  | none => simp [validateOffsets]
  | some last =>
    by_cases hle : offset ≤ last
    · simp [validateOffsets, hle]
    · simp [validateOffsets, hle, not_le.1 hle]

theorem validateRun_cons :
    state.validateRun epoch (offset :: offsets) = .ok () ↔
      state.Admits epoch offset ∧ validateOffsets (some offset) offsets = .ok () := by
  unfold validateRun Admits
  cases state.inFlight with
  | none => simp [validateOffsets]
  | some progress =>
    by_cases hep : progress.assignmentEpoch = epoch
    · simp [hep, validateOffsets_cons]
    · simp [hep]

theorem validateRun_of_appends (h : Appends epoch state entry state') :
    state'.validateRun epoch offsets = validateOffsets (some entry.1) offsets := by
  obtain ⟨progress, rfl, hep, hobs⟩ := h
  simp [validateRun, hep, last?, hobs]

/-- An observation is a run of one record. -/
theorem observe_eq (state : PartitionOffsetState) (epoch : ℕ) (offset : Int)
    (outcome : RecordOutcome) :
    state.observe epoch offset outcome =
      match state.validateRun epoch [offset] with
      | .error error => (state, .error error)
      | .ok () => state.observeAll epoch [(offset, outcome)] := by
  cases hval : state.validateRun epoch [offset] with
  | ok _ =>
    simp only [observeAll]
    rcases state.observe epoch offset outcome with ⟨state', error | ok⟩ <;> rfl
  | error error =>
    cases hflight : state.inFlight with
    | none => simp [validateRun, hflight, validateOffsets] at hval
    | some progress =>
      have happ : progress.append epoch offset outcome = .error error := by
        simp only [validateRun, hflight] at hval
        unfold append
        split_ifs at hval ⊢
        · cases hval
          rfl
        · split
          · rename_i hlast
            simp [validateOffsets, hlast] at hval
          · rename_i last hlast
            simp only [validateOffsets, hlast] at hval
            split_ifs at hval ⊢
            cases hval
            rfl
      simp only [observe, hflight, getD_some, happ]
      rw [← hflight]

theorem observeAll_of_validateRun (h : state.validateRun epoch (outcomes.map (·.1)) = .ok ()) :
    ∃ state', state.observeAll epoch outcomes = (state', .ok ()) ∧
      Path (Appends epoch) state outcomes state' := by
  induction outcomes generalizing state with
  | nil => exact ⟨state, rfl, rfl⟩
  | cons entry outcomes ih =>
    obtain ⟨offset, outcome⟩ := entry
    obtain ⟨hadm, hrest⟩ := validateRun_cons.1 h
    obtain ⟨middle, hobs, happ⟩ := observe_of_admits hadm outcome
    obtain ⟨state', hall, hpath⟩ := ih ((validateRun_of_appends happ).trans hrest)
    refine ⟨state', ?_, middle, happ, hpath⟩
    simp only [observeAll, hobs]
    exact hall

theorem confirmCommitted_of_committableNext (h : state.committableNext = .ok (some next)) :
    state.confirmCommitted next = .ok ⟨next, some next, state.inFlight.bind (trim · next)⟩ := by
  simp [confirmCommitted, h]

theorem confirmCommitted_ok (h : state.confirmCommitted next = .ok state') :
    state.committableNext = .ok (some next) ∧
      state' = ⟨next, some next, state.inFlight.bind (trim · next)⟩ := by
  unfold confirmCommitted at h
  split at h
  · cases h
  · split at h
    · cases h
    · rename_i hcomm hexp
      rw [hcomm, not_not.1 hexp]
      cases h
      exact ⟨rfl, rfl⟩

theorem observed_trim (state : PartitionOffsetState) (next : Int) :
    observed ⟨next, some next, state.inFlight.bind (trim · next)⟩ =
      state.observed.filter (next ≤ ·.offset) := by
  unfold observed
  cases state.inFlight with
  | none => rfl
  | some progress =>
    simp only [bind_some, map_some, getD_some, trim]
    split
    · rename_i hemp
      simp [hemp]
    · rfl

end PartitionOffsetState

/-! ## Specifications of the group's operations -/

namespace GroupOffsetState

open PartitionOffsetState

variable {group : GroupOffsetState} {tp : Tp} {epoch : ℕ} {offset : Int} {outcome : RecordOutcome}
variable {state : PartitionOffsetState}

/-- There is room for more observations. -/
def Room (group : GroupOffsetState) (tp : Tp) (added : ℕ) : Prop :=
  group.partitionLen tp + added ≤ group.maxPartitionRecords ∧
    group.observedTotal + added ≤ group.maxGroupRecords

/-- The group with more observations of a partition. -/
def grow (group : GroupOffsetState) (tp : Tp) (state : PartitionOffsetState) (added : ℕ) :
    GroupOffsetState :=
  { group.setPartition tp state with observedTotal := group.observedTotal + added }

theorem entry_ok : group.entry tp offset = .ok state ↔ group.partitions.get? tp = some state ∨
      (group.partitions.get? tp = none ∧ PartitionOffsetState.new none offset = .ok state) := by
  unfold entry
  cases group.partitions.get? tp <;> simp

theorem inFlight_new {committed : Option Int}
    (h : PartitionOffsetState.new committed offset = .ok state) : state.inFlight = none := by
  unfold PartitionOffsetState.new at h
  split at h <;> cases h
  rfl

theorem observe_eq_observeRun (group : GroupOffsetState) (tp : Tp) (epoch : ℕ) (offset : Int)
    (outcome : RecordOutcome) :
    group.observe tp epoch offset outcome = group.observeRun tp epoch [(offset, outcome)] := by
  simp only [observe, observeRun, length_singleton, Nat.lt_succ_iff, map_cons, map_nil]
  split_ifs
  · rfl
  · rfl
  · cases hent : group.entry tp offset with
    | error error => rfl
    | ok state =>
      simp only [PartitionOffsetState.observe_eq]
      cases hval : state.validateRun epoch [offset] with
      | ok _ => rfl
      | error error =>
        rcases entry_ok.1 hent with hget | ⟨-, hnew⟩
        · simp [setPartition, insert_self hget]
        · simp [validateRun, inFlight_new hnew, validateOffsets] at hval

theorem observeRun_spec (group : GroupOffsetState) (tp : Tp) (epoch : ℕ)
    (outcomes : List (Int × RecordOutcome)) :
    (∃ result, group.observeRun tp epoch outcomes = (group, result) ∧
      (result = .ok () → outcomes = [])) ∨
      ∃ start rest state state', outcomes = start :: rest ∧ group.entry tp start.1 = .ok state ∧
        Path (Appends epoch) state outcomes state' ∧ group.Room tp outcomes.length ∧
        group.observeRun tp epoch outcomes = (group.grow tp state' outcomes.length, .ok ()) := by
  cases outcomes with
  | nil => exact .inl ⟨.ok (), rfl, fun _ => rfl⟩
  | cons start rest =>
    simp only [observeRun]
    by_cases hpart : group.maxPartitionRecords < group.partitionLen tp + (start :: rest).length
    · exact .inl ⟨_, if_pos hpart, nofun⟩
    rw [if_neg hpart]
    by_cases htot : group.maxGroupRecords < group.observedTotal + (start :: rest).length
    · exact .inl ⟨_, if_pos htot, nofun⟩
    rw [if_neg htot]
    cases hent : group.entry tp start.1 with
    | error error => exact .inl ⟨_, rfl, nofun⟩
    | ok state =>
      cases hval : state.validateRun epoch ((start :: rest).map (·.1)) with
      | error error => exact .inl ⟨.error error, by simp only [hval], nofun⟩
      | ok _ =>
        obtain ⟨state', hall, hpath⟩ := observeAll_of_validateRun hval
        refine .inr ⟨start, rest, state, state', rfl, hent, hpath,
          ⟨not_lt.1 hpart, not_lt.1 htot⟩, ?_⟩
        simp only [hval, hall, grow]

theorem expected_ok {next : Int} : group.expected tp = .ok (some next) ↔
    ∃ state, group.partitions.get? tp = some state ∧ state.committableNext = .ok (some next) := by
  unfold expected
  cases group.partitions.get? tp <;> simp

/-- The first loop passes exactly the offsets that the partitions offer. -/
theorem checkConfirmations_ok {offsets : List (Tp × Int)} :
    group.checkConfirmations offsets = .ok () ↔
      ∀ tp next, (tp, next) ∈ offsets → group.expected tp = .ok (some next) := by
  induction offsets with
  | nil => simp [checkConfirmations]
  | cons entry offsets ih =>
    obtain ⟨tp, next⟩ := entry
    unfold checkConfirmations
    cases hexp : group.expected tp with
    | error error =>
      simp only [reduceCtorEq, false_iff]
      intro hall
      have := hall tp next mem_cons_self
      rw [hexp] at this
      cases this
    | ok offered =>
      by_cases hoff : offered = some next
      · subst hoff
        simp only [ne_eq, not_true_eq_false, ↓reduceIte, ih, mem_cons, Prod.mk.injEq]
        constructor
        · rintro hall tp' next' (⟨rfl, rfl⟩ | hmem)
          · exact hexp
          · exact hall tp' next' hmem
        · exact fun hall tp' next' hmem => hall tp' next' (.inr hmem)
      · simp only [ne_eq, hoff, not_false_eq_true, ↓reduceIte, reduceCtorEq, false_iff]
        intro hall
        have hnext := hall tp next mem_cons_self
        rw [hexp] at hnext
        exact hoff (Except.ok.inj hnext)

/-- After the first loop, the second one confirms every partition of the map. -/
theorem confirmAll_of_expected {offsets : List (Tp × Int)}
    (hsort : offsets.Pairwise (·.1 < ·.1))
    (hexp : ∀ tp next, (tp, next) ∈ offsets → group.expected tp = .ok (some next)) :
    ∃ partitions, group.confirmAll offsets = ({ group with partitions }, .ok ()) ∧
      (∀ tp, (∀ next, (tp, next) ∉ offsets) → partitions.get? tp = group.partitions.get? tp) ∧
      ∀ tp next, (tp, next) ∈ offsets → ∃ state state', group.partitions.get? tp = some state ∧
        state.confirmCommitted next = .ok state' ∧ partitions.get? tp = some state' := by
  induction offsets generalizing group with
  | nil => exact ⟨group.partitions, rfl, fun _ _ => rfl, nofun⟩
  | cons entry offsets ih =>
    obtain ⟨tp0, next0⟩ := entry
    obtain ⟨hhead, htail⟩ := pairwise_cons.1 hsort
    obtain ⟨state0, hget0, hoff0⟩ := expected_ok.1 (hexp tp0 next0 mem_cons_self)
    obtain ⟨state0', hconf0⟩ : ∃ s, state0.confirmCommitted next0 = .ok s :=
      ⟨_, confirmCommitted_of_committableNext hoff0⟩
    have hfresh : ∀ next, (tp0, next) ∉ offsets := fun next hmem =>
      lt_irrefl tp0 (hhead _ hmem)
    -- writing the first partition leaves the others as they are
    have hoth : ∀ tp, tp ≠ tp0 →
        (group.setPartition tp0 state0').partitions.get? tp = group.partitions.get? tp := by
      intro tp hne
      simp [setPartition, hne]
    obtain ⟨partitions, hall, hkeep, hdone⟩ := @ih (group.setPartition tp0 state0') htail <| by
      intro tp next hmem
      have hne : tp ≠ tp0 := fun heq => hfresh next (heq ▸ hmem)
      have hbef := hexp tp next (mem_cons_of_mem _ hmem)
      rw [expected_ok] at hbef ⊢
      rwa [hoth tp hne]
    refine ⟨partitions, ?_, ?_, ?_⟩
    · simp only [confirmAll, hget0, hconf0, hall]
      rfl
    · intro tp hnot
      have hne : tp ≠ tp0 := fun heq => hnot next0 (heq ▸ mem_cons_self)
      rw [hkeep tp fun next hmem => hnot next (mem_cons_of_mem _ hmem), hoth tp hne]
    · intro tp next hmem
      rcases mem_cons.1 hmem with heq | hmem
      · cases heq
        refine ⟨state0, state0', hget0, hconf0, ?_⟩
        rw [hkeep tp0 hfresh]
        exact get?_insert_self
      · have hne : tp ≠ tp0 := fun heq => hfresh next (heq ▸ hmem)
        obtain ⟨state, state', hget, hrest⟩ := hdone tp next hmem
        rw [hoth tp hne] at hget
        exact ⟨state, state', hget, hrest⟩

theorem confirmCommitted_spec (group : GroupOffsetState) (offsets : Dict Tp Int) :
    ((∃ tp next, offsets.get? tp = some next ∧ group.expected tp ≠ .ok (some next)) ∧
      ∃ error, group.confirmCommitted offsets = (group, .error (.error error))) ∨
    ∃ partitions,
      group.confirmCommitted offsets = (recount { group with partitions }, .ok ()) ∧
      (∀ tp, offsets.get? tp = none → partitions.get? tp = group.partitions.get? tp) ∧
      ∀ tp next, offsets.get? tp = some next → ∃ state state',
        group.partitions.get? tp = some state ∧ state.confirmCommitted next = .ok state' ∧
          partitions.get? tp = some state' := by
  cases hcheck : group.checkConfirmations offsets.entries with
  | error error =>
    refine .inl ⟨?_, error, by simp only [confirmCommitted, hcheck]⟩
    by_contra hnone
    push Not at hnone
    have hok := checkConfirmations_ok.2 fun tp next hmem =>
      hnone tp next (get?_eq_some.2 hmem)
    rw [hcheck] at hok
    cases hok
  | ok _ =>
    obtain ⟨partitions, hall, hkeep, hdone⟩ :=
      confirmAll_of_expected offsets.sorted (checkConfirmations_ok.1 hcheck)
    refine .inr ⟨partitions, by simp only [confirmCommitted, hcheck, hall], ?_, ?_⟩
    · intro tp hnone
      refine hkeep tp fun next hmem => ?_
      rw [get?_eq_some.2 hmem] at hnone
      cases hnone
    · exact fun tp next hsome => hdone tp next (get?_eq_some.1 hsome)

end GroupOffsetState

/-! ## Moves -/

/-- What happens to a partition. -/
inductive OffsetEvent
  | recorded (offset : Int) (outcome : RecordOutcome)
  | offered (next : Int)
  /-- A confirmation, and the number of observations it leaves. -/
  | confirmed (next : Int) (left : ℕ)
  | reset
  | removed
deriving DecidableEq

/-- The event and what it does to the state of the partition, if there is one. -/
inductive OffsetMove :
    Option PartitionOffsetState → OffsetEvent → Option PartitionOffsetState → Prop
  | record {p : Option PartitionOffsetState} {state state' : PartitionOffsetState} {epoch : ℕ}
      {offset : Int} {outcome : RecordOutcome}
      (hstart : p = some state ∨ (p = none ∧ PartitionOffsetState.new none offset = .ok state))
      (h : PartitionOffsetState.Appends epoch state (offset, outcome) state') :
      OffsetMove p (.recorded offset outcome) (some state')
  | offer {state : PartitionOffsetState} {next : Int}
      (h : state.committableNext = .ok (some next)) :
      OffsetMove (some state) (.offered next) (some state)
  | confirm {state state' : PartitionOffsetState} {next : Int}
      (h : state.confirmCommitted next = .ok state') :
      OffsetMove (some state) (.confirmed next state'.observedLen) (some state')
  | reset (p : Option PartitionOffsetState) :
      OffsetMove p .reset (p.map PartitionOffsetState.reset)
  | remove (p : Option PartitionOffsetState) : OffsetMove p .removed none

namespace GroupOffsetState

open PartitionOffsetState

/-- What an operation does to a partition. -/
def events (tp : Tp) (group : GroupOffsetState) : OffsetOp → List OffsetEvent
  | .observe tp' epoch offset outcome =>
    if tp' = tp ∧ (group.observe tp epoch offset outcome).2 = .ok () then
      [.recorded offset outcome]
    else []
  | .observeRun tp' epoch outcomes =>
    if tp' = tp ∧ (group.observeRun tp epoch outcomes).2 = .ok () then
      outcomes.map fun entry => .recorded entry.1 entry.2
    else []
  | .committableOffsets =>
    match group.committableOffsets with
    | .ok offered => (offered.get? tp).toList.map .offered
    | .error _ => []
  | .confirmCommitted offsets =>
    match offsets.get? tp, group.confirmCommitted offsets with
    | some next, (group', .ok ()) => [.confirmed next (group'.partitionLen tp)]
    | _, _ => []
  | .resetPartition tp' => if tp' = tp then [.reset] else []
  | .resetForAssignment assigned => if tp ∈ assigned then [.reset] else [.removed]
  | .clear => [.removed]
  | .clearPartition tp' => if tp' = tp then [.removed] else []

theorem path_appends {epoch : ℕ}
    {state state' : PartitionOffsetState} (h : Path (Appends epoch) state outcomes state') :
    Path OffsetMove (some state) (outcomes.map fun entry => .recorded entry.1 entry.2)
      (some state') := by
  induction outcomes generalizing state with
  | nil =>
    cases h
    rfl
  | cons entry outcomes ih =>
    obtain ⟨middle, happ, hrest⟩ := h
    exact ⟨some middle, .record (.inl rfl) happ, ih hrest⟩

theorem path_observeRun (group : GroupOffsetState) (tp tp' : Tp) (epoch : ℕ)
    (outcomes : List (Int × RecordOutcome)) :
    Path OffsetMove (group.partitions.get? tp) (events tp group (.observeRun tp' epoch outcomes))
      ((group.observeRun tp' epoch outcomes).1.partitions.get? tp) := by
  by_cases htp : tp' = tp
  · subst htp
    rcases observeRun_spec group tp' epoch outcomes with ⟨result, hobs, hemp⟩ |
      ⟨start, rest, state, state', rfl, hent, ⟨middle, happ, hrest⟩, -, hobs⟩
    · by_cases hok : result = .ok ()
      · obtain rfl := hemp hok
        simp [events, hobs]
      · simp [events, hobs, hok]
    · simp only [events, hobs, and_self, ↓reduceIte, grow, setPartition, get?_insert_self, map_cons]
      exact ⟨_, .record (entry_ok.1 hent) happ, path_appends hrest⟩
  · rcases observeRun_spec group tp' epoch outcomes with ⟨result, hobs, -⟩ |
      ⟨start, rest, state, state', -, -, -, -, hobs⟩
    · simp [events, htp, hobs]
    · simp [events, htp, hobs, grow, setPartition, Ne.symm htp]

theorem path_confirmCommitted (group : GroupOffsetState) (tp : Tp) (offsets : Dict Tp Int) :
    Path OffsetMove (group.partitions.get? tp) (events tp group (.confirmCommitted offsets))
      ((group.confirmCommitted offsets).1.partitions.get? tp) := by
  rcases confirmCommitted_spec group offsets with
    ⟨-, error, hconf⟩ | ⟨partitions, hconf, hkeep, hdone⟩
  · cases hnext : offsets.get? tp <;> simp [events, hconf, hnext]
  · cases hnext : offsets.get? tp with
    | none => simp [events, hconf, hnext, recount, hkeep tp hnext]
    | some next =>
      obtain ⟨state, state', hget, hcomm, hget'⟩ := hdone tp next hnext
      simp only [events, hconf, hnext, recount, hget, partitionLen, hget', map_some, getD_some]
      exact ⟨_, .confirm hcomm, rfl⟩

theorem path_events (tp : Tp) (group : GroupOffsetState) (op : OffsetOp) :
    Path OffsetMove (group.partitions.get? tp) (events tp group op)
      ((group.exec op).partitions.get? tp) := by
  cases op with
  | observe tp' epoch offset outcome =>
    have hpath := path_observeRun group tp tp' epoch [(offset, outcome)]
    simpa only [events, exec, observe_eq_observeRun, map_cons, map_nil] using hpath
  | observeRun tp' epoch outcomes => exact path_observeRun group tp tp' epoch outcomes
  | committableOffsets =>
    cases hoff : group.committableOffsets with
    | error error => simp [events, exec, hoff]
    | ok offered =>
      cases hnext : offered.get? tp with
      | none => simp [events, exec, hoff, hnext]
      | some next =>
        obtain ⟨state, hget, hoffer⟩ := (get?_collect hoff).1 hnext
        simp only [events, exec, hoff, hnext, hget, toList_some, map_cons, map_nil]
        exact ⟨_, .offer hoffer, rfl⟩
  | confirmCommitted offsets => exact path_confirmCommitted group tp offsets
  | resetPartition tp' =>
    have hres : (group.resetPartition tp').partitions.get? tp =
        if tp' = tp then (group.partitions.get? tp).map PartitionOffsetState.reset
        else group.partitions.get? tp := by
      by_cases htp : tp' = tp
      · subst htp
        unfold resetPartition
        cases hget : group.partitions.get? tp' <;> simp [recount, setPartition, hget]
      · unfold resetPartition
        cases hget : group.partitions.get? tp' <;>
          simp [recount, setPartition, htp, Ne.symm htp]
    simp only [exec, events, hres]
    split_ifs
    · exact ⟨_, .reset _, rfl⟩
    · rfl
  | resetForAssignment assigned =>
    by_cases hass : tp ∈ assigned
    · simp only [exec, events, resetForAssignment, recount, get?_retain, hass, ↓reduceIte]
      refine ⟨_, .reset _, ?_⟩
      cases group.partitions.get? tp <;> rfl
    · simp only [exec, events, resetForAssignment, recount, get?_retain, hass, ↓reduceIte]
      refine ⟨_, .remove _, ?_⟩
      cases group.partitions.get? tp <;> rfl
  | clear => exact ⟨_, .remove _, rfl⟩
  | clearPartition tp' =>
    by_cases htp : tp' = tp
    · subst htp
      simp only [exec, events, clearPartition, recount, get?_erase, ↓reduceIte]
      exact ⟨_, .remove _, rfl⟩
    · simp [exec, events, clearPartition, recount, htp, Ne.symm htp]

end GroupOffsetState

end NasaRuntime.Nafka
