import NasaRuntime.Lib.Dict
import NasaRuntime.Lib.Interleave

/-!
# The sequenced queue

A queue of many producers and one consumer. A producer takes the next sequence, finds or creates the
segment that has its slot, and marks the slot as reserved; later it publishes a value there, or it
leaves, and poisons the slot. The consumer goes through the sequences one by one and waits at a slot
that is neither published nor poisoned. Segments that it has passed are dropped.

Every access to an atomic is a step of a program (`Prog`), and so is a critical section of the lock of
the segments: of what is done under the lock only the store to `tail` can be seen by those who do not
hold it. A loop around `fetch_update` is one step, since only its last round has an effect. The loop of
`allocate_sequence` looks at the flags in each round; the rounds are given (`attempts`), with the
rounds in which the weak exchange fails for no reason. A producer whose rounds are used up never
continues.

**Modelling choice.** A segment is a reference into a heap, so that two segments with one base would
be two. The store has fields that no program reads. `cells` says for every sequence who holds it and
how far it got; `received` is what the consumer got; `entering` and `admitted` are the producers
that are counted in, before and after the second look; `active` are the sequences of the reservations
that are counted. `polling` says that the consumer has found nothing left and has yet to decide
whether the queue is closed, and `overtaken` that a sequence was taken since then.
-/

namespace NasaRuntime.Napart

/-! ## Segments -/

/-- `SEGMENT_LEN`. -/
def segmentLen : ℕ := 64

/-- `u64::MAX`, and `usize::MAX`. -/
def u64Max : ℕ := 2 ^ 64 - 1

inductive SlotState
  | empty | reserved | writing | published | poisoned | taken
deriving DecidableEq

structure Slot (τ : Type) where
  state : SlotState
  value : Option τ
deriving DecidableEq

def Slot.new {τ : Type} : Slot τ := ⟨.empty, none⟩

/-- The slots of the sequences from `base` on. -/
structure Segment (τ : Type) where
  base : ℕ
  slots : ℕ → Slot τ

namespace Segment

variable {τ : Type}

def new (base : ℕ) : Segment τ := ⟨base, fun _ => .new⟩

def slot (segment : Segment τ) (sequence : ℕ) : Slot τ := segment.slots (sequence - segment.base)

def setSlot (segment : Segment τ) (sequence : ℕ) (slot : Slot τ) : Segment τ :=
  { segment with slots := Function.update segment.slots (sequence - segment.base) slot }

end Segment

/-- The base of the segment of a sequence. -/
def block (sequence : ℕ) : ℕ := sequence / segmentLen * segmentLen

/-! ## The store -/

/-- How far a sequence got. -/
inductive Stage (τ : Type)
  | allocated
  | reserved
  | writing (value : Option τ)
  | published (value : τ)
  | poisoned
deriving DecidableEq

/-- The consumer may pass. -/
def Stage.settled {τ : Type} : Stage τ → Bool
  | .published _ | .poisoned => true
  | _ => false

/-- What the consumer gets. -/
def Stage.value {τ : Type} : Stage τ → Option τ
  | .published value => some value
  | _ => none

/-- A sequence that was taken. -/
structure Cell (τ : Type) where
  holder : ℕ
  stage : Stage τ
deriving DecidableEq

structure QueueStore (τ : Type) where
  nextSequence : ℕ
  accepting : Bool
  producerInflight : ℕ
  reservations : ℕ
  failed : Bool
  tail : ℕ
  segments : Dict ℕ ℕ
  heap : ℕ → Segment τ
  created : ℕ
  /-- `SequencedReceiver::next_sequence`. -/
  consumed : ℕ
  cells : List (Cell τ)
  received : List (ℕ × Option τ)
  entering : List ℕ
  admitted : List ℕ
  active : List ℕ
  /-- The value of the head was moved out, and its slot is not yet marked. -/
  taking : Bool
  polling : Bool
  overtaken : Bool
  /-- For each report that the queue is closed, whether the poll was overtaken. -/
  closedReports : List Bool
  drained : Bool

variable {τ : Type}

namespace QueueStore

def channel : QueueStore τ where
  nextSequence := 0
  accepting := true
  producerInflight := 0
  reservations := 0
  failed := false
  tail := 0
  segments := (∅ : Dict ℕ ℕ).insert 0 0
  heap := fun _ => .new 0
  created := 1
  consumed := 0
  cells := []
  received := []
  entering := []
  admitted := []
  active := []
  taking := false
  polling := false
  overtaken := false
  closedReports := []
  drained := false

def slot (s : QueueStore τ) (segment sequence : ℕ) : Slot τ := (s.heap segment).slot sequence

def setSlot (s : QueueStore τ) (segment sequence : ℕ) (slot : Slot τ) : QueueStore τ :=
  { s with heap := Function.update s.heap segment ((s.heap segment).setSlot sequence slot) }

def setStage (s : QueueStore τ) (sequence : ℕ) (stage : Stage τ) : QueueStore τ :=
  { s with cells := s.cells.modify sequence fun cell => { cell with stage } }

/-- A sequence is taken. -/
def allocate (s : QueueStore τ) (holder : ℕ) : QueueStore τ :=
  { s with
    nextSequence := s.nextSequence + 1
    cells := s.cells ++ [⟨holder, .allocated⟩]
    overtaken := s.overtaken || s.polling }

/-- A segment is created. -/
def install (s : QueueStore τ) (base : ℕ) : QueueStore τ :=
  { s with
    heap := Function.update s.heap s.created (.new base)
    created := s.created + 1
    segments := s.segments.insert base s.created
    tail := if (s.heap s.tail).base < base then s.created else s.tail }

/-- The value of a slot is moved out. -/
def moveOut (s : QueueStore τ) (segment sequence : ℕ) : QueueStore τ :=
  { s.setSlot segment sequence { s.slot segment sequence with value := none } with taking := true }

/-- The consumer passes the head. -/
def advance (s : QueueStore τ) (segment : ℕ) (value : Option τ) : QueueStore τ :=
  { s.setSlot segment s.consumed { s.slot segment s.consumed with state := .taken } with
    consumed := s.consumed + 1
    received := s.received ++ [(s.consumed, value)]
    taking := false }

end QueueStore

/-! ## Producers -/

inductive QueueError
  | closed | sequenceExhausted | failed
  | paused
deriving DecidableEq

/-- A program on the queue. -/
abbrev QueueProg (τ : Type) := Prog (QueueStore τ) QueueError

def fail : QueueProg τ Unit := do
  .modify fun s => { s with failed := true }
  .modify fun s => { s with accepting := false }

/-- The guard of a producer is dropped. -/
def leaveProducer (i : ℕ) : QueueProg τ Unit :=
  .modify fun s => { s with
    producerInflight := s.producerInflight - 1
    admitted := s.admitted.erase i }

/-- A producer that is not let in counts itself out. -/
def turnBack (i : ℕ) : QueueProg τ Unit :=
  .modify fun s => { s with
    producerInflight := s.producerInflight - 1
    entering := s.entering.erase i }

/-- The second look at the flag. -/
def lookAgain (i : ℕ) : QueueProg τ Bool :=
  .atomic fun s =>
    if s.accepting then
      (true, { s with entering := s.entering.erase i, admitted := i :: s.admitted })
    else (false, s)

def enterProducer (i : ℕ) : QueueProg τ Unit := do
  if ← .read (·.accepting) then do
    .modify fun s => { s with
      producerInflight := s.producerInflight + 1
      entering := i :: s.entering }
    if ← lookAgain i then return
    else do
      turnBack i
      throw .closed
  else throw .closed

/-- `compare_exchange_weak` of the next sequence. -/
def exchangeSequence (i current : ℕ) (spurious : Bool) : QueueProg τ Bool :=
  .atomic fun s =>
    if s.nextSequence = current ∧ ¬ spurious then (true, s.allocate i) else (false, s)

def allocateSequence (i : ℕ) : List Bool → QueueProg τ ℕ
  | [] => throw .paused
  | spurious :: rest => do
    if ← .read (·.failed) then throw .failed
    else if ← .read (!·.accepting) then throw .closed
    else
      let current ← .read (·.nextSequence)
      if current = u64Max then do
        fail
        throw .sequenceExhausted
      else if ← exchangeSequence i current spurious then return current
      else allocateSequence i rest

def segmentForProducer (sequence : ℕ) : QueueProg τ ℕ := do
  let (tail, tailBase) ← .read fun s => (s.tail, (s.heap s.tail).base)
  if tailBase = block sequence then return tail
  else .atomic fun s =>
    match s.segments.get? (block sequence) with
    | some segment => (segment, s)
    | none => (s.created, s.install (block sequence))

/-- `compare_exchange` of the state of a slot. -/
def exchangeSlot (segment sequence : ℕ) (old new : SlotState) (stage : Stage τ) :
    QueueProg τ Bool :=
  .atomic fun s =>
    if (s.slot segment sequence).state = old then
      (true, (s.setSlot segment sequence { s.slot segment sequence with state := new }).setStage
        sequence stage)
    else (false, s)

/-- Whether the count can still be represented. -/
def incrementReservations (sequence : ℕ) : QueueProg τ Bool :=
  .atomic fun s =>
    if s.reservations < u64Max then
      (true, { s with reservations := s.reservations + 1, active := sequence :: s.active })
    else (false, s)

/-- Whether there was something to give back. -/
def decrementReservations (sequence : ℕ) : QueueProg τ Bool :=
  .atomic fun s =>
    if 0 < s.reservations then
      (true, { s with reservations := s.reservations - 1, active := s.active.erase sequence })
    else (false, s)

def finishReservation (sequence : ℕ) : QueueProg τ Unit := do
  if ← decrementReservations sequence then return else fail

/-- The slot is poisoned without a look at its state. -/
def poison (segment sequence : ℕ) : QueueProg τ Unit :=
  .modify fun s =>
    (s.setSlot segment sequence { s.slot segment sequence with state := .poisoned }).setStage
      sequence .poisoned

/-- What follows the allocation in `reserve`. -/
def reserveSlot (i sequence : ℕ) : QueueProg τ ℕ := do
  let segment ← segmentForProducer sequence
  if ← exchangeSlot segment sequence .empty .reserved .reserved then
    if ← incrementReservations sequence then do
      leaveProducer i
      return segment
    else do
      fail
      poison segment sequence
      leaveProducer i
      throw .failed
  else do
    fail
    leaveProducer i
    throw .failed

/-- The sequence and the segment of a reservation. -/
def reserve (i : ℕ) (attempts : List Bool) : QueueProg τ (ℕ × ℕ) := do
  enterProducer i
  match ← (allocateSequence i attempts).attempt with
  | .ok sequence => do
    let segment ← reserveSlot i sequence
    return (sequence, segment)
  | .error .paused => throw .paused
  | .error error => do
    leaveProducer i
    throw error

def publish (sequence segment : ℕ) (value : τ) : QueueProg τ Unit := do
  if ← exchangeSlot segment sequence .reserved .writing (.writing none) then do
    .modify fun s =>
      (s.setSlot segment sequence { s.slot segment sequence with value := some value }).setStage
        sequence (.writing (some value))
    .modify fun s =>
      (s.setSlot segment sequence { s.slot segment sequence with state := .published }).setStage
        sequence (.published value)
    finishReservation sequence
  else do
    finishReservation sequence
    fail
    throw .failed

/-- `Reservation::drop`. -/
def dropReservation (sequence segment : ℕ) : QueueProg τ Unit := do
  if ← exchangeSlot segment sequence .reserved .poisoned .poisoned then finishReservation sequence
  else do
    fail
    finishReservation sequence

/-- One reservation: the rounds of its allocation, and the value that is published, if any. -/
structure ProducerCall (τ : Type) where
  attempts : List Bool
  value : Option τ

def produce (i : ℕ) (call : ProducerCall τ) : QueueProg τ Unit := do
  let (sequence, segment) ← reserve i call.attempts
  match call.value with
  | some value => publish sequence segment value
  | none => dropReservation sequence segment

/-! ## The consumer -/

inductive ConsumerPoll (τ : Type)
  | empty
  | reserved (sequence : ℕ)
  | item (sequence : ℕ) (value : τ)
  | poisoned (sequence : ℕ)
  | closed
  | failed
deriving DecidableEq

inductive ConsumerHeadState
  | empty | reserved | published | poisoned | closed | failed
deriving DecidableEq

structure DrainSummary where
  items : ℕ
  poisoned : ℕ
deriving DecidableEq

inductive DrainError
  | producersActive (count : ℕ)
  | headReserved (sequence : ℕ)
  | failed (sequence : ℕ)
deriving DecidableEq

def segmentForConsumer (sequence : ℕ) : QueueProg τ (Option ℕ) := do
  let (tail, tailBase) ← .read fun s => (s.tail, (s.heap s.tail).base)
  if tailBase = block sequence then return some tail
  else .read fun s => s.segments.get? (block sequence)

def reclaimBefore (next : ℕ) : QueueProg τ Unit :=
  if next = 0 ∨ next % segmentLen ≠ 0 then return
  else do
    let tailBase ← .read fun s => (s.heap s.tail).base
    .modify fun s => { s with
      segments := s.segments.retain fun base segment =>
        if next ≤ base ∨ base = tailBase then some segment else none }

/-- The cursor and the next sequence. -/
def loadReserved : QueueProg τ (ℕ × ℕ) :=
  .atomic fun s =>
    ((s.consumed, s.nextSequence),
      { s with polling := decide (s.nextSequence ≤ s.consumed), overtaken := false })

/-- The answer when no sequence is left. -/
def pollOpen : QueueProg τ ConsumerHeadState := do
  if ← .atomic fun s => (s.accepting, { s with polling := s.polling && !s.accepting }) then
    return .empty
  else .atomic fun s =>
    if 0 < s.producerInflight then (.reserved, { s with polling := false })
    else (.closed, { s with polling := false, closedReports := s.overtaken :: s.closedReports })

def takeValue (segment sequence : ℕ) : QueueProg τ (Option τ) :=
  .atomic fun s => ((s.slot segment sequence).value, s.moveOut segment sequence)

/-- The head, of which the sequence was taken: the common part of `try_recv` and the loop of
`drain_after_producers_stop`. -/
def consumeHead (next : ℕ) : QueueProg τ (ConsumerPoll τ) := do
  reclaimBefore next
  match ← segmentForConsumer next with
  | none => return .reserved next
  | some segment =>
    match ← Prog.read fun s => (s.slot segment next).state with
    | .empty | .reserved | .writing => return .reserved next
    | .published => do
      match ← takeValue segment next with
      | none => do
        fail
        return .failed
      | some value => do
        .modify fun s => s.advance segment (some value)
        return .item next value
    | .poisoned => do
      .modify fun s => s.advance segment none
      return .poisoned next
    | .taken => do
      fail
      return .failed

def tryRecv : QueueProg τ (ConsumerPoll τ) := do
  if ← .read (·.failed) then return .failed
  else
    let (next, reserved) ← loadReserved
    if reserved ≤ next then
      match ← pollOpen with
      | .empty => return .empty
      | .closed => return .closed
      | _ => return .reserved next
    else consumeHead next

def headState : QueueProg τ ConsumerHeadState := do
  if ← .read (·.failed) then return .failed
  else
    let (next, reserved) ← loadReserved
    if reserved ≤ next then pollOpen
    else
      match ← segmentForConsumer next with
      | none => return .reserved
      | some segment =>
        match ← Prog.read fun s => (s.slot segment next).state with
        | .empty | .reserved | .writing => return .reserved
        | .published => return .published
        | .poisoned => return .poisoned
        | .taken => return .failed

/-- The loop, with the number of sequences before the boundary. -/
def drainFrom (next : ℕ) (summary : DrainSummary) :
    ℕ → QueueProg τ (Except DrainError DrainSummary)
  | 0 => do
    reclaimBefore next
    .modify fun s => { s with drained := true }
    return .ok summary
  | n + 1 => do
    match ← consumeHead next with
    | .item _ _ => drainFrom (next + 1) { summary with items := summary.items + 1 } n
    | .poisoned _ => drainFrom (next + 1) { summary with poisoned := summary.poisoned + 1 } n
    | .failed => return .error (.failed next)
    | _ => return .error (.headReserved next)

def drainAfterProducersStop : QueueProg τ (Except DrainError DrainSummary) := do
  .modify fun s => { s with accepting := false }
  let producers ← .read (·.producerInflight)
  if producers ≠ 0 then return .error (.producersActive producers)
  else
    let (next, boundary) ← .read fun s => (s.consumed, s.nextSequence)
    drainFrom next ⟨0, 0⟩ (boundary - next)

inductive ConsumerCall
  | tryRecv | headState | drainAfterProducersStop
deriving DecidableEq

def ConsumerCall.program : ConsumerCall → QueueProg τ Unit
  | .tryRecv => do let _ ← Napart.tryRecv
  | .headState => do let _ ← Napart.headState
  | .drainAfterProducersStop => do let _ ← Napart.drainAfterProducersStop

/-- The calls of the consumer, one after the other. -/
def consume : List ConsumerCall → QueueProg τ Unit
  | [] => return
  | call :: rest => do
    call.program
    consume rest

/-! ## Interleavings -/

/-- `close` of a sender or of the consumer, or the last sender or the consumer leaves. -/
inductive QueueEvent
  | close
deriving DecidableEq

def QueueStore.happen (s : QueueStore τ) : QueueEvent → QueueStore τ
  | .close => { s with accepting := false }

/-- The consumer is program `0`, and any number of producers are the others. -/
def queue (calls : ℕ → ProducerCall τ) (script : List ConsumerCall) :
    Sys (QueueStore τ) QueueError Unit :=
  Sys.launch .channel fun
    | 0 => consume script
    | i + 1 => produce (i + 1) (calls i)

/-- Any interleaving. -/
def runQueue (calls : ℕ → ProducerCall τ) (script : List ConsumerCall)
    (inputs : List (Input QueueEvent)) : Sys (QueueStore τ) QueueError Unit :=
  runFrom (Sys.exec QueueStore.happen .paused) (queue calls script) inputs

end NasaRuntime.Napart
