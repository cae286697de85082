import Mathlib.Data.Prod.Lex
import NasaRuntime.Nadis.Fencing

/-!
# The disposition of parked messages

A message that cannot be processed is parked: it is copied to a quarantine, acknowledged, and the
partition is frozen by a marker. An operator then has it published again (`resume`), published to a
dead-letter stream (`dlqFromParked`) or dropped (`dropParked`). The marker of a partition is one hash;
a new park overwrites the marker of an earlier one that has come to an end.

Publishing is made repeatable by planned IDs. The IDs of the new entries are chosen above the last ID
of the stream and written to the marker once, and each entry is then added under its own ID, which a
stream accepts only if it is above its last one. What has happened to an ID can be told later from the
stream, unless it was passed over; then the outcome is unknown and only `forceRepublish` goes on.

Every operation checks at its start that the caller owns the partition, and then issues its commands
one by one. They are programs (`Prog`), so that they can be paused between any two commands. A command
that fails ends the operation, as a crash does. Streams are also written and trimmed by others, locks
and fences change, and a marker that was given a time to live disappears (`DispositionEvent`).

**Modelling choice.** The store has fields that no command reads: which parks there were, which of
them a drop has claimed, all entries that a stream ever had, the first plan in the marker of the
current park, and all IDs that were chosen. An entry is marked with the message that it was added for.
-/

namespace NasaRuntime.Nadis

/-! ## Streams -/

/-- An ID `ms-seq`. -/
abbrev StreamId := ℕ ×ₗ ℕ

/-- `u64::MAX`. -/
def u64Max : ℕ := 2 ^ 64 - 1

/-- An entry with its field `data`, if it has one. An entry that a disposition has added is marked with
the number of its message. -/
structure Entry (π : Type) where
  id : StreamId
  data : Option π
  message : Option ℕ
deriving DecidableEq

/-- The entries of a stream, all entries it ever had, and the ID that was generated last. -/
structure Stream (π : Type) where
  entries : List (Entry π)
  history : List (Entry π)
  last : StreamId

def Stream.add {π : Type} (stream : Stream π) (entry : Entry π) : Stream π :=
  { entries := stream.entries ++ [entry]
    history := stream.history ++ [entry]
    last := entry.id }

/-! ## The marker -/

inductive DispositionState
  | parked | resumePublishing | resumed | resumeIndeterminate
  | dlqPublishing | dlqed | dlqIndeterminate
  | forcePublishing | dropping | dropped
deriving DecidableEq

/-- `DISPOSITION_TERMINAL`. -/
def DispositionState.terminal : DispositionState → Bool
  | .resumed | .dlqed | .dropped => true
  | _ => false

/-- The hash of a partition. A marker that is absent has no field. -/
structure Marker where
  state : Option DispositionState
  parkId : Option String
  version : Option ℕ
  transitionOperationId : Option String
  planned : Option (List StreamId)
  uncertain : Option (List ℕ)
  newIds : Option (List StreamId)
  /-- The fields `force:i`. -/
  force : Dict ℕ StreamId
  expiring : Bool

def Marker.absent : Marker := ⟨none, none, none, none, none, none, none, ∅, false⟩

/-- The key exists, that is, it has a field. -/
def Marker.present (marker : Marker) : Bool :=
  marker.state.isSome || marker.parkId.isSome || marker.version.isSome ||
    marker.transitionOperationId.isSome || marker.planned.isSome || marker.uncertain.isSome ||
    marker.newIds.isSome || !marker.force.entries.isEmpty

/-- The copies of the messages of a park, and their number. -/
structure Quarantine (π : Type) where
  count : Option ℕ
  payload : ℕ → Option π

def Quarantine.absent {π : Type} : Quarantine π := ⟨none, fun _ => none⟩

/-- Where a disposition publishes. -/
inductive Target
  | source | dlq
deriving DecidableEq

structure DispositionStore (π : Type) where
  lock : Option String
  fence : Fence
  pending : List StreamId
  marker : Marker
  quarantine : String → Quarantine π
  index : Option String
  source : Stream π
  dlq : Stream π
  /-- The parks so far with their messages. -/
  parks : List (String × List π)
  drops : List String
  /-- The first plan in the marker of the current park. -/
  plan : Option (List StreamId)
  /-- The IDs that were chosen, each for a message of a park and a stream. -/
  chosen : List (Option String × ℕ × Target × StreamId)

variable {π : Type}

def DispositionStore.stream (s : DispositionStore π) : Target → Stream π
  | .source => s.source
  | .dlq => s.dlq

def DispositionStore.setStream (s : DispositionStore π) (target : Target) (stream : Stream π) :
    DispositionStore π :=
  match target with
  | .source => { s with source := stream }
  | .dlq => { s with dlq := stream }

/-! ## Owners -/

/-- `LegacyV1` has no fence. -/
structure FenceCredentials where
  round : ℕ
  nonce : String
  counter : ℕ

structure OwnerLease where
  partition : ℕ
  operationId : String
  holder : String
  fence : Option FenceCredentials

inductive OwnerReject
  | notHolder | fenceNotReady | roundMismatch | nonceMismatch | staleStamp
deriving DecidableEq

/-- `VERIFY_OWNER_LUA`, which is also the first part of `CLAIM_TRANSITION_FENCED_LUA`. -/
def OwnerLease.check (lease : OwnerLease) (s : DispositionStore π) : Except OwnerReject Unit := do
  if s.lock ≠ some lease.holder then throw .notHolder
  else
    match lease.fence with
    | none => return
    | some own =>
      if s.fence.state ≠ some .ready then throw .fenceNotReady
      else if s.fence.round ≠ some own.round then throw .roundMismatch
      else if s.fence.nonce ≠ some own.nonce then throw .nonceMismatch
      else if s.fence.counters.get? lease.partition ≠ some own.counter then throw .staleStamp
      else return

/-! ## Commands -/

inductive DispositionError
  | crashed | noPark | operationConflict | operationInDoubt | publishIndeterminate
  | refused | corrupt | streamIdExhausted | retryable
  | ownershipChanged (reject : OwnerReject)
  | versionConflict (found : Option DispositionState)
deriving DecidableEq

/-- A program of one executor. -/
abbrev Executor (π : Type) := Prog (DispositionStore π) DispositionError

/-- `HSET` of fields of the marker. -/
def setMarkerFields (f : Marker → Marker) : Executor π Unit :=
  .modify fun s => { s with marker := f s.marker }

def setState (state : DispositionState) : Executor π Unit :=
  setMarkerFields fun marker => { marker with state := some state }

/-- `EXPIRE`, which does nothing if the key does not exist. -/
def expireMarker : Executor π Unit :=
  setMarkerFields fun marker => { marker with expiring := marker.expiring || marker.present }

def deleteQuarantine (parkId : String) : Executor π Unit :=
  .modify fun s => { s with quarantine := Function.update s.quarantine parkId .absent }

def deleteIndex : Executor π Unit := .modify fun s => { s with index := none }

/-- `HSETNX` of the plan. The reply is whether it was written. -/
def setPlannedOnce (target : Target) (planned : List StreamId) : Executor π Bool :=
  .atomic fun s =>
    if s.marker.planned.isNone then
      (true, { s with
        marker := { s.marker with planned := some planned }
        plan := s.plan.or (some planned)
        chosen := s.chosen ++
          planned.zipIdx.map fun (id, i) => (s.marker.parkId, i, target, id) })
    else (false, s)

/-- `XADD` under an ID. The reply is whether the stream has accepted the ID. -/
def xadd (target : Target) (id : StreamId) (payload : π) (message : ℕ) : Executor π Bool :=
  .atomic fun s =>
    if (s.stream target).last < id then
      (true, s.setStream target ((s.stream target).add ⟨id, some payload, some message⟩))
    else (false, s)

/-- The entry under an ID, by `XRANGE`. -/
def xrange (target : Target) (id : StreamId) : Executor π (Option (Entry π)) :=
  .read fun s => (s.stream target).entries.find? (·.id = id)

def lastGenerated (target : Target) : Executor π StreamId := .read fun s => (s.stream target).last

/-- The error of a lease that is not, or not any more, the owner's. -/
def ownerError (reply : Except OwnerReject Unit) : Executor π Unit :=
  match reply with
  | .ok () => return
  | .error reject => throw (.ownershipChanged reject)

def verifyOwnerFenced (lease : OwnerLease) : Executor π Unit := do
  ownerError (← .read lease.check)

/-- The write of `CLAIM_TRANSITION_FENCED_LUA`. -/
def DispositionStore.claim (s : DispositionStore π) (state : DispositionState) (operation : String) :
    DispositionStore π :=
  { s with
    marker := { s.marker with
      state := some state
      version := some (s.marker.version.getD 0 + 1)
      transitionOperationId := some operation }
    drops := if state = .dropping then s.drops ++ s.marker.parkId.toList else s.drops }

/-- The reply is the reason of a refusal. -/
def claimTransition (expected state : DispositionState) (lease : OwnerLease) : Executor π Unit := do
  let reply ← Prog.atomic fun s =>
    match lease.check s with
    | .error reject => (some (DispositionError.ownershipChanged reject), s)
    | .ok () =>
      if s.marker.state ≠ some expected then (some (.versionConflict s.marker.state), s)
      else (none, s.claim state lease.operationId)
  match reply with
  | some error => throw error
  | none => return

def assertOpOwns (operation : String) : Executor π Unit := do
  match ← Prog.read fun s => s.marker.transitionOperationId with
  | none => return
  | some owner => if owner = "" ∨ owner = operation then return else throw .operationConflict

/-! ## Publishing -/

/-- The ID after another one. -/
def nextId (base : StreamId) : Except DispositionError StreamId :=
  let (ms, seq) := ofLex base
  if seq = u64Max then
    if ms = u64Max then throw .streamIdExhausted else return toLex (ms + 1, 0)
  else return toLex (ms, seq + 1)

def planIds (base : StreamId) : ℕ → Except DispositionError (List StreamId)
  | 0 => return []
  | n + 1 => do
    let id ← nextId base
    let rest ← planIds id n
    return id :: rest

/-- A result that is an error ends the program. -/
def orThrow {α : Type} : Except DispositionError α → Executor π α
  | .ok a => return a
  | .error error => throw error

/-- The payloads from number `i` on, of which there are `n`. -/
def loadPayloads (parkId : String) (i : ℕ) : ℕ → Executor π (List π)
  | 0 => return []
  | n + 1 => do
    match ← Prog.read fun s => (s.quarantine parkId).payload i with
    | none => throw .corrupt
    | some payload =>
      let rest ← loadPayloads parkId (i + 1) n
      return payload :: rest

def loadQuarantinePayloads (parkId : String) : Executor π (List π) := do
  match ← Prog.read fun s => (s.quarantine parkId).count with
  | none => throw .corrupt
  | some n => loadPayloads parkId 0 n

def loadQuarantinePayloadsFor (parkId : String) (expected : ℕ) : Executor π (List π) := do
  let payloads ← loadQuarantinePayloads parkId
  if payloads.length ≠ expected then throw .corrupt else return payloads

variable [DecidableEq π]

/-- Whether the entry under a planned ID is the message. An ID that can still be used is an error. -/
def reconcileOne (target : Target) (planned : StreamId) (payload : π) : Executor π Bool := do
  match ← xrange target planned with
  | some entry => return entry.data = some payload
  | none =>
    let last ← lastGenerated target
    if last < planned then throw .retryable else return false

/-- One turn of the loop of `publish_reserved`: whether the message is confirmed. -/
def publishOne (target : Target) (planned : StreamId) (payload : π) (i : ℕ) : Executor π Bool := do
  match ← (reconcileOne target planned payload).attempt with
  | .ok confirmed => return confirmed
  | .error .retryable =>
    if ← xadd target planned payload i then return true else reconcileOne target planned payload
  | .error error => throw error

/-- The numbers of the messages that are uncertain. -/
def publishEach (target : Target) (i : ℕ) : List (StreamId × π) → Executor π (List ℕ)
  | [] => return []
  | (planned, payload) :: rest => do
    let confirmed ← publishOne target planned payload i
    let uncertain ← publishEach target (i + 1) rest
    return if confirmed then uncertain else i :: uncertain

/-- A disposition that publishes: where, and the states of the marker. -/
structure Route where
  target : Target
  publishing : DispositionState
  final : DispositionState
  indeterminate : DispositionState

/-- The commands after the last message: the state first, what can be recovered from last. -/
def finish (final : DispositionState) (parkId : String) (ids : List StreamId) :
    Executor π (List StreamId) := do
  setMarkerFields fun marker => { marker with newIds := some ids }
  setState final
  deleteIndex
  deleteQuarantine parkId
  expireMarker
  return ids

def publishReserved (route : Route) (parkId : String) (planned : List StreamId)
    (payloads : List π) : Executor π (List StreamId) := do
  let uncertain ← publishEach route.target 0 (planned.zip payloads)
  if uncertain ≠ [] then do
    setMarkerFields fun marker => { marker with uncertain := some uncertain }
    setState route.indeterminate
    throw .publishIndeterminate
  else finish route.final parkId planned

/-- The plan of the marker, or a new one, which may turn out not to be the first. -/
def reserve (route : Route) (parkId : String) : Executor π (List StreamId) := do
  match ← Prog.read fun s => s.marker.planned with
  | some planned => return planned
  | none => do
    let payloads ← loadQuarantinePayloads parkId
    let last ← lastGenerated route.target
    let planned ← orThrow (planIds last payloads.length)
    if ← setPlannedOnce route.target planned then return planned
    else
      match ← Prog.read fun s => s.marker.planned with
      | some existing => return existing
      | none => throw .corrupt

def publishStep (route : Route) (parkId : String) : Executor π (List StreamId) := do
  let planned ← reserve route parkId
  let payloads ← loadQuarantinePayloadsFor parkId planned.length
  publishReserved route parkId planned payloads

/-! ## Operations -/

/-- The state and the park of the marker, by two commands. -/
def readMarker : Executor π (DispositionState × String) := do
  let state ← Prog.read fun s => s.marker.state
  let parkId ← Prog.read fun s => s.marker.parkId
  match state, parkId with
  | some state, some parkId => return (state, parkId)
  | _, _ => throw .noPark

/-- `resume` and `dlq_from_parked`. -/
def publishParked (route : Route) (lease : OwnerLease) : Executor π (List StreamId) := do
  verifyOwnerFenced lease
  let (state, parkId) ← readMarker
  if state = .parked then do
    claimTransition .parked route.publishing lease
    publishStep route parkId
  else if state = route.publishing then do
    assertOpOwns lease.operationId
    publishStep route parkId
  else if state = route.indeterminate then throw .operationInDoubt
  else if state = route.final then do
    deleteIndex
    deleteQuarantine parkId
    expireMarker
    return (← Prog.read fun s => s.marker.newIds).getD []
  else throw .refused

def resumeRoute : Route := ⟨.source, .resumePublishing, .resumed, .resumeIndeterminate⟩

def dlqRoute : Route := ⟨.dlq, .dlqPublishing, .dlqed, .dlqIndeterminate⟩

def resume (lease : OwnerLease) : Executor π (List StreamId) := publishParked resumeRoute lease

def dlqFromParked (lease : OwnerLease) : Executor π (List StreamId) := publishParked dlqRoute lease

def dropParked (lease : OwnerLease) : Executor π (List StreamId) := do
  verifyOwnerFenced lease
  let (state, parkId) ← readMarker
  match state with
  | .parked => claimTransition .parked .dropping lease
  | .dropping => assertOpOwns lease.operationId
  | .dropped => pure ()
  | _ => throw .refused
  deleteQuarantine parkId
  deleteIndex
  setState .dropped
  expireMarker
  return []

/-- The payloads of some messages. -/
def loadUncertain (parkId : String) : List ℕ → Executor π (List (ℕ × π))
  | [] => return []
  | i :: rest => do
    match ← Prog.read fun s => (s.quarantine parkId).payload i with
    | none => throw .corrupt
    | some payload =>
      let others ← loadUncertain parkId rest
      return (i, payload) :: others

def xaddForceTarget (id : StreamId) (payload : π) (i : ℕ) : Executor π Unit := do
  if ← xadd .source id payload i then return
  else if ← reconcileOne .source id payload then return
  else throw .publishIndeterminate

/-- An ID above the last one. -/
def freshTarget : Executor π StreamId := do
  let last ← lastGenerated .source
  orThrow (nextId last)

/-- Writes the new ID of a message to the marker, and then adds the entry. -/
def commitTarget (i : ℕ) (payload : π) (id : StreamId) : Executor π StreamId := do
  Prog.modify fun s => { s with
    marker := { s.marker with force := s.marker.force.insert i id }
    chosen := s.chosen ++ [(s.marker.parkId, i, .source, id)] }
  xaddForceTarget id payload i
  return id

/-- One turn of the loop of `force_republish`: the ID that the message has got. -/
def forceOne (planned : StreamId) (i : ℕ) (payload : π) : Executor π StreamId := do
  match ← Prog.read fun s => s.marker.force.get? i with
  | some id =>
    match ← (reconcileOne .source id payload).attempt with
    | .ok true => return id
    | .error .retryable => do
      xaddForceTarget id payload i
      return id
    | .ok false => do
      let fresh ← freshTarget
      commitTarget i payload fresh
    | .error error => throw error
  | none =>
    match ← (reconcileOne .source planned payload).attempt with
    | .ok true => return planned
    | .error .retryable => commitTarget i payload planned
    | .ok false => do
      let fresh ← freshTarget
      commitTarget i payload fresh
    | .error error => throw error

/-- The IDs of all messages, with the new ones in place of the planned ones. -/
def forceEach (ids : List StreamId) : List (ℕ × π) → Executor π (List StreamId)
  | [] => return ids
  | (i, payload) :: rest => do
    let id ← forceOne (ids.getD i (toLex (0, 0))) i payload
    forceEach (ids.set i id) rest

def publishForced (parkId : String) (planned : List StreamId) (payloads : List (ℕ × π)) :
    Executor π (List StreamId) := do
  let ids ← forceEach planned payloads
  finish .resumed parkId ids

/-- What is needed is read and checked before the state changes, and the state changes only the first
time. -/
def forceFrom (first : Bool) (lease : OwnerLease) : Executor π (List StreamId) := do
  let parkId := (← Prog.read fun s => s.marker.parkId).getD ""
  if parkId = "" then throw .corrupt
  else
    match ← Prog.read fun s => s.marker.planned with
    | none => throw .corrupt
    | some planned =>
      match ← Prog.read fun s => s.marker.uncertain with
      | none => throw .corrupt
      | some uncertain =>
        if uncertain = [] ∨ (uncertain.any (planned.length ≤ ·)) ∨ ¬ uncertain.Nodup then
          throw .corrupt
        else do
          let payloads ← loadUncertain parkId uncertain
          if first then do
            claimTransition .resumeIndeterminate .forcePublishing lease
            publishForced parkId planned payloads
          else publishForced parkId planned payloads

def forceRepublish (lease : OwnerLease) : Executor π (List StreamId) := do
  verifyOwnerFenced lease
  match ← Prog.read fun s => s.marker.state with
  | some .resumeIndeterminate => forceFrom true lease
  | some .forcePublishing => do
    assertOpOwns lease.operationId
    forceFrom false lease
  | _ => throw .refused

/-- `TAKEOVER_LUA`. The reply is whether the state was still the same. -/
def takeOver (state : DispositionState) (operation : String) : Executor π Bool :=
  .atomic fun s =>
    if s.marker.state = some state then
      (true, { s with marker := { s.marker with transitionOperationId := some operation } })
    else (false, s)

def forceTakeover (lease : OwnerLease) : Executor π (List StreamId) := do
  verifyOwnerFenced lease
  match ← Prog.read fun s => s.marker.state with
  | none => throw .noPark
  | some state =>
    if state ≠ .resumePublishing ∧ state ≠ .dlqPublishing ∧ state ≠ .forcePublishing ∧
        state ≠ .dropping then throw .refused
    else if ← takeOver state lease.operationId then
      match state with
      | .resumePublishing => resume lease
      | .dlqPublishing => dlqFromParked lease
      | .forcePublishing => forceRepublish lease
      | _ => dropParked lease
    else throw .operationConflict

/-- The operations of an executor. -/
inductive Operation
  | resume | dlqFromParked | forceRepublish | dropParked | forceTakeover
deriving DecidableEq

def Operation.program (operation : Operation) (lease : OwnerLease) : Executor π (List StreamId) :=
  match operation with
  | .resume => Nadis.resume lease
  | .dlqFromParked => Nadis.dlqFromParked lease
  | .forceRepublish => Nadis.forceRepublish lease
  | .dropParked => Nadis.dropParked lease
  | .forceTakeover => Nadis.forceTakeover lease

/-! ## Parking -/

/-- `PARK_LUA` on keys of the right types: whether the messages are parked. A park that is repeated is
left as it is. -/
def DispositionStore.accepts (s : DispositionStore π) (holder parkId : String)
    (records : List (StreamId × π)) : Bool :=
  s.lock = some holder &&
    !(s.marker.state = some .parked && s.marker.parkId = some parkId) &&
    s.marker.state.all (·.terminal) &&
    records.all fun record => s.pending.contains record.1

/-- The version goes on from that of a marker that is replaced. -/
def DispositionStore.nextVersion (s : DispositionStore π) : ℕ :=
  if s.marker.state.isSome then s.marker.version.getD 0 + 1 else 1

/-- The writes of `PARK_LUA`. A marker that has ended is deleted first. -/
def DispositionStore.park (s : DispositionStore π) (parkId : String)
    (records : List (StreamId × π)) : DispositionStore π :=
  let payloads := records.map (·.2)
  let marker := if s.marker.state.isSome then Marker.absent else s.marker
  { s with
    quarantine := Function.update s.quarantine parkId
      { count := some records.length
        payload := fun i => (payloads[i]?).or ((s.quarantine parkId).payload i) }
    pending := s.pending.filter fun id => !(records.map (·.1)).contains id
    marker := { marker with
      state := some .parked
      parkId := some parkId
      version := some s.nextVersion }
    index := some parkId
    parks := s.parks ++ [(parkId, payloads)]
    plan := marker.planned }

/-! ## Interleavings -/

/-- What happens besides the executors. -/
inductive DispositionEvent (π : Type)
  /-- The owner of the partition parks messages. -/
  | park (holder parkId : String) (records : List (StreamId × π))
  | expire
  /-- A producer or another partition adds an entry. -/
  | produce (target : Target) (id : StreamId) (data : Option π)
  /-- An entry is consumed and deleted, or trimmed. -/
  | consume (target : Target) (id : StreamId)
  | lock (holder : Option String)
  | fence (fence : Fence)
  | pend (pending : List StreamId)

def DispositionStore.happen (s : DispositionStore π) : DispositionEvent π → DispositionStore π
  | .park holder parkId records =>
    if records ≠ [] ∧ s.accepts holder parkId records then s.park parkId records else s
  | .expire => if s.marker.expiring then { s with marker := .absent } else s
  | .produce target id data =>
    if (s.stream target).last < id then
      s.setStream target ((s.stream target).add ⟨id, data, none⟩)
    else s
  | .consume target id =>
    s.setStream target
      { s.stream target with entries := (s.stream target).entries.filter (·.id ≠ id) }
  | .lock holder => { s with lock := holder }
  | .fence fence => { s with fence }
  | .pend pending => { s with pending }

/-- Any number of executors of a partition. -/
abbrev Executors (π : Type) := Sys (DispositionStore π) DispositionError (List StreamId)

/-- The executors before the first command. -/
def executors (calls : ℕ → Operation × OwnerLease) (s : DispositionStore π) : Executors π :=
  Sys.start s fun i => (calls i).1.program (calls i).2

/-- Any interleaving. -/
def runExecutors (sys : Executors π) (inputs : List (Input (DispositionEvent π))) : Executors π :=
  runFrom (Sys.exec DispositionStore.happen .crashed) sys inputs

open Prog List

variable {π : Type}

/-- The quarantine of a park. -/
def Quarantine.full (payloads : List π) : Quarantine π :=
  ⟨some payloads.length, fun i => payloads[i]?⟩

theorem Quarantine.full_ne_absent (payloads : List π) : Quarantine.full payloads ≠ .absent := by
  intro h
  cases congrArg Quarantine.count h

/-- A stream has had an entry with the ID and the payload. -/
def DispositionStore.Held (s : DispositionStore π) (target : Target) (id : StreamId) (payload : π) :
    Prop :=
  ∃ entry ∈ (s.stream target).history, entry.id = id ∧ entry.data = some payload

/-- The routes of `resume` and `dlq_from_parked`. -/
def Route.Usual (route : Route) : Prop := route = resumeRoute ∨ route = dlqRoute

/-- What the lemmas need of an argument by rely and guarantee: an executor may read, its own steps are
among those that the others rely on, streams forget nothing, and all their entries were added once. -/
structure Ground (R G : DispositionStore π → DispositionStore π → Prop)
    (I : DispositionStore π → Prop) : Prop where
  reads : ∀ s, I s → G s s
  own : ∀ s s', G s s' → R s s'
  held : ∀ s s' target id payload, R s s' → s.Held target id payload → s'.Held target id payload
  entries : ∀ s target entry, I s → entry ∈ (s.stream target).entries →
    entry ∈ (s.stream target).history

theorem stream_setStream (s : DispositionStore π) (target : Target) (stream : Stream π) :
    (s.setStream target stream).stream target = stream := by
  cases target with
  | source | dlq => rfl

theorem stream_setStream_of_ne (s : DispositionStore π) {target other : Target} (stream : Stream π)
    (h : other ≠ target) : (s.setStream target stream).stream other = s.stream other := by
  cases target with
  | source =>
    cases other with
    | source => exact absurd rfl h
    | dlq => rfl
  | dlq =>
    cases other with
    | source => rfl
    | dlq => exact absurd rfl h

theorem exists_setStream (s : DispositionStore π) (target : Target) (stream : Stream π) :
    ∃ source dlq, s.setStream target stream = { s with source, dlq } := by
  cases target with
  | source | dlq => exact ⟨_, _, rfl⟩

section SetStream

variable {s : DispositionStore π} {target : Target} {stream : Stream π}

theorem history_setStream (h : ∀ entry ∈ (s.stream target).history, entry ∈ stream.history)
    (other : Target) : ∀ entry ∈ (s.stream other).history,
      entry ∈ ((s.setStream target stream).stream other).history := by
  by_cases hoth : other = target
  · subst hoth
    rwa [stream_setStream]
  · rw [stream_setStream_of_ne s stream hoth]
    exact fun _ h => h

theorem entries_setStream (target : Target)
    (hs : ∀ target, ∀ entry ∈ (s.stream target).entries, entry ∈ (s.stream target).history)
    (h : ∀ entry ∈ stream.entries, entry ∈ stream.history) (other : Target) :
    ∀ entry ∈ ((s.setStream target stream).stream other).entries,
      entry ∈ ((s.setStream target stream).stream other).history := by
  by_cases hoth : other = target
  · subst hoth
    rwa [stream_setStream]
  · rw [stream_setStream_of_ne s stream hoth]
    exact hs other

end SetStream

theorem held_add (s : DispositionStore π) (target : Target) (id : StreamId) (payload : π) (i : ℕ) :
    (s.setStream target ((s.stream target).add ⟨id, some payload, some i⟩)).Held target id
      payload := by
  refine ⟨⟨id, some payload, some i⟩, ?_, rfl, rfl⟩
  rw [stream_setStream]
  exact mem_append_right _ mem_cons_self

section Parts

variable {R G A : DispositionStore π → DispositionStore π → Prop} {I K : DispositionStore π → Prop}
  {s : DispositionStore π} {parkId : String} {payloads : List π}

variable (hground : Ground R G I)

include hground

variable (hK : ∀ s s', R s s' → K s → K s')

include hK

/-- A write, and what is known stays known. -/
theorem safe_write {α : Type} {Q : α → DispositionStore π → Prop}
    {E : DispositionError → DispositionStore π → Prop} {f : DispositionStore π → DispositionStore π}
    {q : Unit → Executor π α} (h : K s) (hG : ∀ s, I s → K s → G s (f s))
    (hq : ∀ s, K s → Safe R G I A Q E (q ()) s) :
    Safe R G I A Q E (.modify f >>= q) s := by
  refine safe_modify_bind fun s1 hR hI _ => ?_
  have h1 := hK _ _ hR h
  have hG1 := hG s1 hI h1
  exact ⟨hG1, hq _ (hK _ _ (hground.own _ _ hG1) h1)⟩

/-! ## Checks -/

omit hK in
theorem safe_verifyOwnerFenced {α : Type} {Q : α → DispositionStore π → Prop}
    {q : Unit → Executor π α} (lease : OwnerLease)
    (hq : ∀ s, Safe R G I A Q (fun _ _ => True) (q ()) s) :
    Safe R G I A Q (fun _ _ => True) (verifyOwnerFenced lease >>= q) s := by
  refine safe_then (M := fun _ _ => True) (E := fun _ _ => True) ?_ fun _ s _ => hq s
  refine safe_read_bind hground.reads fun s1 _ _ => ?_
  cases lease.check s1 with
  | _ => trivial

theorem safe_assertOpOwns (operation : String) (h : K s) :
    Safe R G I A (fun _ => K) (fun _ _ => True) (assertOpOwns operation) s := by
  refine safe_read_bind hground.reads fun s1 hR _ => ?_
  have h1 := hK _ _ hR h
  cases s1.marker.transitionOperationId with
  | none => exact h1
  | some owner =>
    simp only
    split_ifs
    · exact h1
    · trivial

/-! ## Loading -/

theorem safe_loadPayloads
    (hquar : ∀ s, I s → K s → s.quarantine parkId = .full payloads ∨ s.quarantine parkId = .absent)
    (n i : ℕ) (h : K s) :
    Safe R G I A (fun found s => found = (payloads.drop i).take n ∧ K s) (fun _ _ => True)
      (loadPayloads parkId i n) s := by
  induction n generalizing i s with
  | zero => exact ⟨by simp, h⟩
  | succ n ih =>
    refine safe_read_bind hground.reads fun s1 hR hI => ?_
    have h1 := hK _ _ hR h
    cases hfnd : (s1.quarantine parkId).payload i with
    | none => trivial
    | some payload =>
      have hpayl : payloads[i]? = some payload := by
        rcases hquar s1 hI h1 with hq | hq
        · rw [hq] at hfnd
          exact hfnd
        · rw [hq] at hfnd
          cases hfnd
      refine safe_then (ih (i + 1) h1) ?_
      intro rest s2 h2
      refine ⟨?_, h2.2⟩
      obtain ⟨hi, rfl⟩ := List.getElem?_eq_some_iff.1 hpayl
      rw [h2.1, List.drop_eq_getElem_cons hi, List.take_succ_cons]

/-- What is loaded is what was parked. Then the quarantine was still there, which may say more. -/
theorem safe_loadQuarantinePayloads {L : DispositionStore π → Prop}
    (hL : ∀ s s', R s s' → L s → L s')
    (hquar : ∀ s, I s → K s → s.quarantine parkId = .full payloads ∨ s.quarantine parkId = .absent)
    (hmore : ∀ s, I s → K s → s.quarantine parkId ≠ .absent → L s) (h : K s) :
    Safe R G I A (fun found s => found = payloads ∧ K s ∧ L s) (fun _ _ => True)
      (loadQuarantinePayloads parkId) s := by
  refine safe_read_bind hground.reads fun s1 hR hI => ?_
  have h1 := hK _ _ hR h
  rcases hquar s1 hI h1 with hq | hq
  · have hcnt : (s1.quarantine parkId).count = some payloads.length := by
      rw [hq]
      rfl
    rw [hcnt]
    have hmore1 : L s1 := hmore s1 hI h1 (by
      rw [hq]
      exact Quarantine.full_ne_absent payloads)
    refine safe_mono (safe_loadPayloads (K := fun s => K s ∧ L s) hground
      (fun s s' hR h => ⟨hK s s' hR h.1, hL s s' hR h.2⟩) (fun s hI h => hquar s hI h.1)
      payloads.length 0 ⟨h1, hmore1⟩) ?_ fun _ _ _ => trivial
    intro found s2 h2
    refine ⟨?_, h2.2⟩
    rw [h2.1, drop_zero, take_length]
  · have hcnt : (s1.quarantine parkId).count = none := by
      rw [hq]
      rfl
    rw [hcnt]
    trivial

/-! ## Publishing -/

variable [DecidableEq π] {target : Target} {id : StreamId} {payload : π} {i : ℕ}

theorem safe_reconcileOne (h : K s) :
    Safe R G I A (fun confirmed s => K s ∧ (confirmed = true → s.Held target id payload))
      (fun _ => K) (reconcileOne target id payload) s := by
  refine safe_read_bind hground.reads fun s1 hR1 hI1 => ?_
  have h1 := hK _ _ hR1 h
  cases hent : (s1.stream target).entries.find? (·.id = id) with
  | some entry =>
    refine ⟨h1, fun hsame => ?_⟩
    have hid : entry.id = id := by simpa using find?_some hent
    have hmem := mem_of_find?_eq_some hent
    exact ⟨entry, hground.entries s1 target entry hI1 hmem, hid, by simpa using hsame⟩
  | none =>
    refine safe_read_bind hground.reads fun s2 hR2 _ => ?_
    have h2 := hK _ _ hR2 h1
    split_ifs
    · exact h2
    · exact ⟨h2, nofun⟩

theorem safe_publishOne
    (hadd : ∀ s, I s → K s → (s.stream target).last < id →
      G s (s.setStream target ((s.stream target).add ⟨id, some payload, some i⟩)))
    (h : K s) :
    Safe R G I A
      (fun confirmed s => K s ∧ (confirmed = true → s.Held target id payload)) (fun _ _ => True)
      (publishOne target id payload i) s := by
  refine safe_bind (safe_attempt (safe_mono (safe_reconcileOne hground hK h) ?_ ?_))
  · intro confirmed s1 h1
    exact h1
  · intro error s1 h1
    cases error with
    | retryable =>
      refine safe_atomic_bind fun s2 hR2 hI2 _ => ?_
      have h2 := hK _ _ hR2 h1
      by_cases hlast : (s2.stream target).last < id
      · have hG := hadd s2 hI2 h2 hlast
        rw [if_pos hlast]
        exact ⟨hG, hK _ _ (hground.own _ _ hG) h2, fun _ => held_add s2 target id payload i⟩
      · rw [if_neg hlast]
        refine ⟨hground.reads s2 hI2, ?_⟩
        exact safe_mono (safe_reconcileOne hground hK h2) (fun _ _ h => h) fun _ _ _ => trivial
    | _ => trivial

/-- The loop: the messages that are not reported as uncertain have been in the stream. -/
theorem safe_publishEach (messages : List (StreamId × π)) (i : ℕ)
    (hadd : ∀ j message, messages[j]? = some message → ∀ s, I s → K s →
      (s.stream target).last < message.1 → G s (s.setStream target
        ((s.stream target).add ⟨message.1, some message.2, some (i + j)⟩)))
    (h : K s) :
    Safe R G I A
      (fun uncertain s => K s ∧ ∀ j message, messages[j]? = some message → i + j ∉ uncertain →
        s.Held target message.1 message.2) (fun _ _ => True)
      (publishEach target i messages) s := by
  induction messages generalizing i s K with
  | nil =>
    refine ⟨h, fun j message hmsg => ?_⟩
    cases hmsg
  | cons first rest ih =>
    obtain ⟨planned, payload⟩ := first
    refine safe_then (safe_publishOne hground hK (hadd 0 (planned, payload) rfl) h) ?_
    intro confirmed s1 h1
    have hadd' : ∀ j message, rest[j]? = some message → ∀ s, I s → K s →
        (s.stream target).last < message.1 →
        G s (s.setStream target
          ((s.stream target).add ⟨message.1, some message.2, some (i + 1 + j)⟩)) := by
      intro j message hmsg
      have hnext := hadd (j + 1) message hmsg
      rwa [show i + (j + 1) = i + 1 + j by omega] at hnext
    -- what the first turn has found outlives the others
    let K1 : DispositionStore π → Prop := fun s =>
      K s ∧ (confirmed = true → s.Held target planned payload)
    have hK1 : ∀ s s', R s s' → K1 s → K1 s' := fun s s' hR h =>
      ⟨hK s s' hR h.1, fun hc => hground.held s s' target planned payload hR (h.2 hc)⟩
    refine safe_then (ih hK1 (i + 1)
      (fun j message hmsg s hI h => hadd' j message hmsg s hI h.1) h1) ?_
    intro uncertain s2 ⟨h2, hrest⟩
    refine ⟨h2.1, fun j message hmsg hj => ?_⟩
    cases j with
    | zero =>
      cases hmsg
      cases confirmed with
      | true => exact h2.2 rfl
      | false => exact absurd mem_cons_self hj
    | succ j =>
      refine hrest j message hmsg fun hmem => hj ?_
      rw [show i + (j + 1) = i + 1 + j by omega]
      cases confirmed with
      | true => exact hmem
      | false => exact mem_cons_of_mem i hmem

end Parts

end NasaRuntime.Nadis
