import Mathlib.Data.List.Induction
import NasaRuntime.Nafka.TransferPlan

/-!
# The trace of a transferred record

A record that is transferred carries where it came from in a header: the resource and the coordinates
it had before its first transfer, an identity derived from them, and the resources it has passed. A
resource is a topic of a cluster with the generation of the topic.

`forward` makes the headers of the copy. It believes a trace only if it ends where the record is read
from, and refuses a target that is in the path already. The header is sealed with a digest, which
tells damage and not forgery.

`chain` is a record on its way: each transfer reads the headers that the one before it has written.
Nothing else is assumed about a record between two transfers, so a hop has its own coordinates.

**Theorem (`TransferTrace.chain_traced`).** For a record that starts without a trace, after every
transfer of a chain the headers are those of the record, in order, and one trace. The trace is decoded
from what was encoded, has the origin of the first transfer and a path without repetition that is one
longer than the number of transfers.

The bound on the number of transfers is that of the plan which makes the last one. An earlier plan has
no say (`TransferTrace.chain_exceeds_least`): its bound is not in the header.
-/

namespace NasaRuntime.Nafka

structure TransferResource where
  clusterId : String
  topic : String
  generation : String
deriving DecidableEq

namespace TransferResource

def validate (node : TransferResource) : Except TransferError Unit :=
  Except.mapError (fun _ => .headerInvalid) do
    token TransferError.invalidConfiguration node.clusterId 1024
    token TransferError.invalidConfiguration node.generation 1024
    TopicPartition.validate TransferError.invalidConfiguration ⟨node.topic, 0⟩

/-- `resource`. -/
def write (node : TransferResource) : Bytes :=
  Writer.text node.clusterId ++ Writer.text node.topic ++ Writer.text node.generation

/-- `Reader::resource`. -/
def read : Reader TransferError TransferResource := do
  let clusterId ← Reader.text .headerInvalid 1024 isVisible false
  let topic ← Reader.text .headerInvalid 249 isVisible false
  let generation ← Reader.text .headerInvalid 1024 isVisible false
  let node : TransferResource := { clusterId, topic, generation }
  match node.validate with
  | .error error => throw error
  | .ok () => return node

end TransferResource

/-! ## Headers -/

structure KafkaHeader where
  name : String
  value : Option Bytes
deriving DecidableEq

/-- `u8::to_ascii_lowercase`. -/
def toAsciiLowercase (b : UInt8) : UInt8 := if 65 ≤ b.toNat ∧ b.toNat ≤ 90 then b + 32 else b

/-- `str::eq_ignore_ascii_case`. -/
def eqIgnoreAsciiCase (left right : String) : Bool :=
  (utf8 left).map toAsciiLowercase = (utf8 right).map toAsciiLowercase

/-- `TransferTrace::MAX_HEADER_BYTES`. -/
def maxHeaderBytes : ℕ := 65536

/-- The bytes of a header that count. -/
def KafkaHeader.size (header : KafkaHeader) : ℕ :=
  (utf8 header.name).length + (header.value.map List.length).getD 0

def checkHeaders (headers : List KafkaHeader) : Except TransferError Unit :=
  if 256 < headers.length ∨ maxHeaderBytes < (headers.map KafkaHeader.size).sum then
    throw .headerInvalid
  else return

/-! ## Traces -/

structure TransferTrace where
  origin : TransferResource
  partition : Int32
  offset : Int64
  timestamp : Int64
  eventId : String
  path : List TransferResource
deriving DecidableEq

/-- The part of a record that a transfer reads, without its headers. -/
structure ReplaySource where
  clusterId : String
  topic : String
  partition : Int32
  offset : Int64
  timestamp : Int64
deriving DecidableEq

namespace TransferTrace

/-- `TransferTrace::HEADER`. -/
def header : String := "x-nasa-transfer"

def identityBytes (sha256 : Sealing) (origin : TransferResource) (partition : Int32)
    (offset : Int64) : Bytes :=
  sha256.digest (utf8 "NSKTID01" ++ origin.write ++ Writer.int32 partition ++ Writer.int64 offset)

def identity (sha256 : Sealing) (origin : TransferResource) (partition : Int32) (offset : Int64) :
    String := hex (identityBytes sha256 origin partition offset)

def validate (sha256 : Sealing) (trace : TransferTrace) : Except TransferError Unit := do
  trace.origin.validate
  if trace.partition < 0 ∨ trace.offset < 0 ∨ trace.timestamp < -1 ∨
      ¬ (2 ≤ trace.path.length ∧ trace.path.length ≤ 17) ∨ trace.path.head? ≠ some trace.origin ∨
      ¬ trace.path.Nodup ∨
      trace.eventId ≠ identity sha256 trace.origin trace.partition trace.offset then
    throw .headerInvalid
  else trace.path.forM TransferResource.validate

/-- `NSKTRH01`. -/
def magic : Bytes := utf8 "NSKTRH01"

/-- The bytes of a trace before the digest. -/
def write (sha256 : Sealing) (trace : TransferTrace) : Bytes :=
  magic ++ trace.origin.write ++ Writer.int32 trace.partition ++ Writer.int64 trace.offset ++
    Writer.int64 trace.timestamp ++
    identityBytes sha256 trace.origin trace.partition trace.offset ++
    be 1 (trace.path.length % 2 ^ 8) ++ trace.path.flatMap TransferResource.write

def encode (sha256 : Sealing) (trace : TransferTrace) : Except TransferError Bytes := do
  trace.validate sha256
  if maxHeaderBytes < (sha256.close (trace.write sha256)).length then throw .headerInvalid
  else return sha256.close (trace.write sha256)

/-- The reads of `decode` from the body. -/
def readBody : Reader TransferError TransferTrace := do
  Reader.expect .headerInvalid magic
  let origin ← TransferResource.read
  let partition ← Reader.int32 .headerInvalid
  let offset ← Reader.int64 .headerInvalid
  let timestamp ← Reader.int64 .headerInvalid
  let digest ← Reader.take .headerInvalid 32
  let count ← Reader.nat .headerInvalid 1
  if ¬ (2 ≤ count ∧ count ≤ 17) then throw .headerInvalid
  else do
    let path ← Reader.replicate TransferResource.read count
    return { origin, partition, offset, timestamp, eventId := hex digest, path }

/-- Every failure is `HeaderInvalid`. -/
def decode (sha256 : Sealing) (encoded : Bytes) : Except TransferError TransferTrace :=
  sha256.decode .headerInvalid 82 maxHeaderBytes (Reader.whole .headerInvalid readBody)
    (encode sha256) encoded

/-- The name is that of the trace, in whatever case. -/
def isHeader (h : KafkaHeader) : Bool := eqIgnoreAsciiCase h.name header

/-- One turn of the loop of `read`. -/
def collect (encoded : Option Bytes) (h : KafkaHeader) : Except TransferError (Option Bytes) :=
  if encoded.isSome ∨ h.name ≠ header then throw .headerInvalid
  else
    match h.value with
    | none => throw .headerInvalid
    | some value => return some value

def read (sha256 : Sealing) (headers : List KafkaHeader) :
    Except TransferError (Option TransferTrace) := do
  match ← (headers.filter isHeader).foldlM collect none with
  | none => return none
  | some encoded => some <$> decode sha256 encoded

/-- The trace that is carried on: the one of the record, or a new one. -/
def carried (sha256 : Sealing) (source : ReplaySource) (current : TransferResource)
    (headers : List KafkaHeader) : Except TransferError TransferTrace := do
  match ← read sha256 headers with
  | some previous =>
    if previous.path.getLast? ≠ some current then throw .headerInvalid else return previous
  | none =>
    return {
      origin := current
      partition := source.partition
      offset := source.offset
      timestamp := source.timestamp
      eventId := identity sha256 current source.partition source.offset
      path := [current] }

def forward (sha256 : Sealing) (plan : TransferPlan) (source : ReplaySource)
    (destination : TopicPartition) (headers : List KafkaHeader) :
    Except TransferError (List KafkaHeader) := do
  checkHeaders headers
  match plan.replay.topicGenerations.get? source.topic,
    plan.spec.target.topicGenerations.get? destination.topic with
  | some currentGeneration, some targetGeneration => do
    let current : TransferResource := ⟨source.clusterId, source.topic, currentGeneration⟩
    let target : TransferResource :=
      ⟨plan.spec.target.clusterId, destination.topic, targetGeneration⟩
    let trace ← carried sha256 source current headers
    if target ∈ trace.path then throw .loopDetected
    else if plan.spec.maxHops < trace.path.length then throw .hopLimit
    else do
      let value ← encode sha256 { trace with path := trace.path ++ [target] }
      let outgoing := headers.filter (!isHeader ·) ++ [⟨header, some value⟩]
      checkHeaders outgoing
      return outgoing
  | _, _ => throw .headerInvalid

end TransferTrace

/-! ## Chains -/

/-- One transfer of a record. -/
structure Hop where
  plan : TransferPlan
  source : ReplaySource
  destination : TopicPartition

/-- The transfers of one record, each from the headers that the one before it has written. -/
def chain (sha256 : Sealing) (headers : List KafkaHeader) (hops : List Hop) :
    Except TransferError (List KafkaHeader) :=
  hops.foldlM (fun headers hop =>
    TransferTrace.forward sha256 hop.plan hop.source hop.destination headers) headers

open List

open Reads (Text)

/-! ## The wire form of a trace -/

namespace TransferResource

variable {node : TransferResource}

theorem validate_eq_ok (h : node.validate = .ok ()) :
    Text 1024 isVisible false node.clusterId ∧ Text 1024 isVisible false node.generation ∧
      Text 249 isVisible false node.topic := by
  simp only [validate, mapError_eq_ok, then_eq_ok] at h
  exact ⟨text_of_token h.1, text_of_token h.2.1, visible_of_validatePartition h.2.2⟩

theorem restores : Restores read write fun node => node.validate = .ok () := by
  unfold read write
  simp only [append_assoc]
  refine (Reads.text (by decide)).complete.bind clusterId (fun _ h => (validate_eq_ok h).1)
    fun clusterId _ => ?_
  refine (Reads.text (by decide)).complete.bind topic (fun _ h => (validate_eq_ok h.1).2.2)
    fun topic _ => ?_
  refine (Reads.text (by decide)).complete.last generation (fun _ h => (validate_eq_ok h.1.1).2.1)
    fun generation _ => ?_
  intro node rest h
  obtain ⟨⟨⟨hval, rfl⟩, rfl⟩, rfl⟩ := h
  simp only [hval]
  rfl

theorem length_write_pos (h : node.validate = .ok ()) : 9 ≤ node.write.length := by
  obtain ⟨hclust, hgen, htop⟩ := validate_eq_ok h
  have hpos := hclust.pos
  have hpos' := hgen.pos
  have hpos'' := htop.pos
  simp only [write, length_append, Writer.length_text]
  omega

end TransferResource

namespace TransferTrace

variable {sha256 : Sealing} {trace : TransferTrace} {bytes : Bytes}

/-- What validation has checked. -/
structure Valid (sha256 : Sealing) (trace : TransferTrace) : Prop where
  origin : trace.origin.validate = .ok ()
  two_le : 2 ≤ trace.path.length
  le_seventeen : trace.path.length ≤ 17
  nodup : trace.path.Nodup
  eventId : trace.eventId = identity sha256 trace.origin trace.partition trace.offset
  path : ∀ node ∈ trace.path, node.validate = .ok ()

theorem valid_of_validate (h : trace.validate sha256 = .ok ()) : trace.Valid sha256 := by
  simp only [validate, then_eq_ok, check_eq_ok, forM_eq_forM, forM_eq_ok, not_or, not_not] at h
  obtain ⟨hor, ⟨-, -, -, hlen, -, hnod, hev⟩, hpath⟩ := h
  exact ⟨hor, hlen.1, hlen.2, hnod, hev, hpath⟩

theorem restores :
    Restores readBody (write sha256) fun trace => trace.validate sha256 = .ok () := by
  have hcnt : ∀ trace : TransferTrace, trace.validate sha256 = .ok () →
      trace.path.length % 2 ^ 8 = trace.path.length := by
    intro trace h
    have hle := (valid_of_validate h).le_seventeen
    exact Nat.mod_eq_of_lt (hle.trans_lt (by decide))
  unfold readBody write
  simp only [append_assoc]
  refine Restores.expect ?_
  refine TransferResource.restores.bind origin (fun _ h => (valid_of_validate h).origin)
    fun origin _ => ?_
  refine Reads.int32.complete.bind partition (fun _ _ => trivial) fun partition _ => ?_
  refine Reads.int64.complete.bind offset (fun _ _ => trivial) fun offset _ => ?_
  refine Reads.int64.complete.bind timestamp (fun _ _ => trivial) fun timestamp _ => ?_
  refine (Reads.take 32).complete.bind
    (fun trace : TransferTrace => identityBytes sha256 trace.origin trace.partition trace.offset)
    (fun _ _ => sha256.length_digest _) fun digest _ => ?_
  refine (Reads.nat 1).complete.bind (fun trace : TransferTrace => trace.path.length % 2 ^ 8)
    (fun _ _ => Nat.mod_lt _ (by decide)) fun count _ => ?_
  refine Restores.guard ?_ ?_
  · intro trace h
    have hval := valid_of_validate h.1.1.1.1.1.1
    rw [← h.2, hcnt trace h.1.1.1.1.1.1]
    exact not_not.2 ⟨hval.two_le, hval.le_seventeen⟩
  refine (TransferResource.restores.replicate count).last path ?_ fun path _ => ?_
  · intro trace h
    exact ⟨(hcnt trace h.1.1.1.1.1.1).symm.trans h.2, (valid_of_validate h.1.1.1.1.1.1).path⟩
  refine Restores.pure fun trace h => ?_
  obtain ⟨⟨⟨⟨⟨⟨⟨hval, rfl⟩, rfl⟩, rfl⟩, rfl⟩, hdig⟩, -⟩, rfl⟩ := h
  rw [← hdig]
  have hev := (valid_of_validate hval).eventId
  rw [identity] at hev
  rw [← hev]

theorem decode_of_encode (h : trace.encode sha256 = .ok bytes) :
    trace.Valid sha256 ∧ decode sha256 bytes = .ok trace := by
  have henc := h
  simp only [encode, then_eq_ok, check_eq_ok, pure_eq_ok, not_lt, Sealing.length_close] at h
  obtain ⟨hval, hle, rfl⟩ := h
  refine ⟨valid_of_validate hval, ?_⟩
  refine Sealing.decode_of_encode henc (restores.whole hval) ?_ hle
  have hor := TransferResource.length_write_pos (valid_of_validate hval).origin
  have hmag : magic.length = 8 := by decide
  simp only [write, identityBytes, length_append, Writer.length_int32, Writer.length_int64,
    sha256.length_digest, length_be, hmag]
  omega

/-! ## One transfer -/

end TransferTrace

/-- The resource that a hop reads from. -/
def Hop.current? (hop : Hop) : Option TransferResource :=
  (hop.plan.replay.topicGenerations.get? hop.source.topic).map fun generation =>
    ⟨hop.source.clusterId, hop.source.topic, generation⟩

/-- The resource that a hop writes to. -/
def Hop.target? (hop : Hop) : Option TransferResource :=
  (hop.plan.spec.target.topicGenerations.get? hop.destination.topic).map fun generation =>
    ⟨hop.plan.spec.target.clusterId, hop.destination.topic, generation⟩

namespace TransferTrace

variable {headers out : List KafkaHeader} {hop first : Hop} {hops : List Hop}
variable {source : ReplaySource}

/-- The headers of a copy: those of the record that are not traces, and a trace. -/
def stamped (headers : List KafkaHeader) (bytes : Bytes) : List KafkaHeader :=
  headers.filter (!isHeader ·) ++ [⟨header, some bytes⟩]

theorem isHeader_header (value : Option Bytes) : isHeader ⟨header, value⟩ = true := by
  simp [isHeader, eqIgnoreAsciiCase]

theorem read_stamped (h : trace.encode sha256 = .ok bytes) :
    read sha256 (stamped headers bytes) = .ok (some trace) := by
  have hfilt : (stamped headers bytes).filter isHeader = [⟨header, some bytes⟩] := by
    simp [stamped, filter_append, filter_filter, isHeader_header]
  rw [read, hfilt]
  show (do return some (← decode sha256 bytes)) = Except.ok (some trace)
  rw [(decode_of_encode h).2]
  rfl

theorem read_none (h : ∀ x ∈ headers, isHeader x = false) : read sha256 headers = .ok none := by
  have hfilt : headers.filter isHeader = [] := by
    rw [filter_eq_nil_iff]
    intro x hx
    simp [h x hx]
  rw [read, hfilt]
  rfl

theorem forward_eq_ok
    (h : forward sha256 hop.plan hop.source hop.destination headers = .ok out) :
    ∃ current target trace bytes, hop.current? = some current ∧ hop.target? = some target ∧
      carried sha256 hop.source current headers = .ok trace ∧
      trace.path.length ≤ hop.plan.spec.maxHops ∧
      encode sha256 { trace with path := trace.path ++ [target] } = .ok bytes ∧
      out = stamped headers bytes := by
  simp only [forward, then_eq_ok] at h
  obtain ⟨-, h⟩ := h
  split at h
  · next currentGeneration targetGeneration hcurr htarg =>
    simp only [bind_eq_ok] at h
    obtain ⟨trace, hcarr, h⟩ := h
    simp only [check_eq_ok, not_lt, bind_eq_ok, pure_eq_ok] at h
    obtain ⟨-, hhops, bytes, henc, -, -, hout⟩ := h
    refine ⟨_, _, trace, bytes, ?_, ?_, hcarr, hhops, henc, hout.symm⟩
    · simp only [Hop.current?, hcurr, Option.map_some]
    · simp only [Hop.target?, htarg, Option.map_some]
  · simp at h

/-! ## Chains -/

/-- The trace of a record that `hops` have carried, the first of them from `start`. -/
structure Carries (sha256 : Sealing) (source : ReplaySource) (start : TransferResource)
    (hops : List Hop) (trace : TransferTrace) : Prop where
  origin : trace.origin = start
  partition : trace.partition = source.partition
  offset : trace.offset = source.offset
  timestamp : trace.timestamp = source.timestamp
  eventId : trace.eventId = identity sha256 start source.partition source.offset
  path : trace.path.map some = some start :: hops.map Hop.target?

variable {origin : TransferResource}

theorem Carries.length
    (h : Carries sha256 source origin hops trace) : trace.path.length = hops.length + 1 := by
  simpa using congrArg List.length h.path

theorem Carries.append {target : TransferResource}
    (h : Carries sha256 source origin hops trace) (htarg : hop.target? = some target) :
    Carries sha256 source origin (hops ++ [hop]) { trace with path := trace.path ++ [target] } := by
  refine ⟨h.origin, h.partition, h.offset, h.timestamp, h.eventId, ?_⟩
  simp [h.path, htarg]

theorem chain_append (headers : List KafkaHeader) (hops hops' : List Hop) :
    chain sha256 headers (hops ++ hops') =
      chain sha256 headers hops >>= fun mid => chain sha256 mid hops' := by
  simp only [chain, foldlM_append]

/-- The state of a record after a chain: its own headers, and the trace of the hops, which are no more
than the last of them allows. -/
def Arrived (sha256 : Sealing) (headers : List KafkaHeader) (source : ReplaySource)
    (origin : TransferResource) (hops : List Hop) (out : List KafkaHeader) : Prop :=
  ∃ trace bytes, out = stamped headers bytes ∧ trace.encode sha256 = .ok bytes ∧
    Carries sha256 source origin hops trace ∧
    ∀ hop, hops.getLast? = some hop → hops.length ≤ hop.plan.spec.maxHops

theorem arrived_first (hclean : ∀ x ∈ headers, isHeader x = false)
    (h : forward sha256 first.plan first.source first.destination headers = .ok out) :
    ∃ origin, first.current? = some origin ∧
      Arrived sha256 headers first.source origin [first] out := by
  obtain ⟨origin, target, trace, bytes, hor, htarg, hcarr, hhops, henc, rfl⟩ := forward_eq_ok h
  rw [carried, read_none hclean] at hcarr
  cases hcarr
  refine ⟨origin, hor, _, bytes, rfl, henc, ?_, ?_⟩
  · refine ⟨rfl, rfl, rfl, rfl, rfl, ?_⟩
    simp [htarg]
  · intro hop hlast
    cases hlast
    exact hhops

/-- **Step.** -/
theorem arrived_step {mid : List KafkaHeader}
    (harr : Arrived sha256 headers source origin hops mid)
    (h : forward sha256 hop.plan hop.source hop.destination mid = .ok out) :
    Arrived sha256 headers source origin (hops ++ [hop]) out := by
  obtain ⟨trace, bytes, rfl, henc, hcarri, -⟩ := harr
  obtain ⟨current, target, trace', bytes', -, htarg, hcarr, hhops, henc', rfl⟩ := forward_eq_ok h
  -- the trace that is carried on is the one that was written
  rw [carried, read_stamped henc] at hcarr
  change (if _ ≠ _ then throw TransferError.headerInvalid else return _) = Except.ok _ at hcarr
  simp only [check_eq_ok, pure_eq_ok] at hcarr
  obtain ⟨-, rfl⟩ := hcarr
  refine ⟨_, bytes', ?_, henc', hcarri.append htarg, ?_⟩
  · simp [stamped, filter_append, filter_filter, isHeader_header]
  · intro last hlast
    rw [getLast?_concat] at hlast
    cases hlast
    rw [hcarri.length] at hhops
    simpa using hhops

/-- **Run.** -/
theorem arrived_chain {rest : List Hop} (hclean : ∀ x ∈ headers, isHeader x = false)
    (h : chain sha256 headers (first :: rest) = .ok out) :
    ∃ origin, first.current? = some origin ∧
      Arrived sha256 headers first.source origin (first :: rest) out := by
  induction rest using reverseRecOn generalizing out with
  | nil =>
    simp only [chain, foldlM_cons, foldlM_nil, bind_pure] at h
    exact arrived_first hclean h
  | append_singleton rest hop ih =>
    rw [← cons_append, chain_append, bind_eq_ok] at h
    obtain ⟨mid, hmid, hhop⟩ := h
    simp only [chain, foldlM_cons, foldlM_nil, bind_pure] at hhop
    obtain ⟨origin, hor, harr⟩ := ih hmid
    exact ⟨origin, hor, arrived_step harr hhop⟩

/-- **Traces of chains.** -/
theorem chain_traced (sha256 : Sealing) (headers : List KafkaHeader) (first : Hop)
    (rest : List Hop) (out : List KafkaHeader) (hclean : ∀ x ∈ headers, isHeader x = false)
    (h : chain sha256 headers (first :: rest) = .ok out) :
    ∃ origin, first.current? = some origin ∧
      ∀ k hop, (first :: rest)[k]? = some hop →
        k + 1 ≤ hop.plan.spec.maxHops ∧ k + 1 ≤ 16 ∧
        ∃ trace bytes, trace.encode sha256 = .ok bytes ∧ decode sha256 bytes = .ok trace ∧
          chain sha256 headers ((first :: rest).take (k + 1)) =
            .ok (headers ++ [⟨header, some bytes⟩]) ∧
          Carries sha256 first.source origin ((first :: rest).take (k + 1)) trace ∧
          trace.path.Nodup ∧ trace.path.length = k + 2 := by
  obtain ⟨origin, hor, -⟩ := arrived_chain hclean h
  refine ⟨origin, hor, ?_⟩
  intro k hop hget
  -- the chain up to this hop has succeeded as well
  rw [← List.take_append_drop k rest, ← List.cons_append, chain_append, bind_eq_ok] at h
  obtain ⟨mid, hmid, -⟩ := h
  obtain ⟨origin', hor', trace, bytes, rfl, henc, hcarr, hlast⟩ := arrived_chain hclean hmid
  cases hor.symm.trans hor'
  have hval := decode_of_encode henc
  have hk : k < (first :: rest).length := (List.getElem?_eq_some_iff.1 hget).1
  have hlen : (first :: rest.take k).length = k + 1 := by
    rw [← List.take_succ_cons, List.length_take]
    omega
  have hpath : trace.path.length = k + 2 := by rw [hcarr.length, hlen]
  have hends : (first :: rest.take k).getLast? = some hop := by
    rw [← List.take_succ_cons, List.take_add_one, hget]
    simp
  have hown : stamped headers bytes = headers ++ [⟨header, some bytes⟩] := by
    rw [stamped, List.filter_eq_self.2]
    intro x hx
    simp [hclean x hx]
  refine ⟨?_, ?_, trace, bytes, henc, hval.2, ?_, hcarr, hval.1.nodup, hpath⟩
  · rw [← hlen]
    exact hlast hop hends
  · have hle := hval.1.le_seventeen
    omega
  · rw [List.take_succ_cons, hmid, hown]

/-! ## Two plans with different bounds -/

/-- A plan that transfers one partition of a topic. -/
def relay (source target : TransferResource) (maxHops : ℕ) : TransferPlan :=
  let spec : TransferSpec :=
    { target := ⟨"mirror", target.clusterId, "copy", Dict.insert ∅ target.topic target.generation,
        [⟨target.topic, 0⟩]⟩
      routes := [⟨⟨source.topic, 0⟩, ⟨target.topic, 0⟩⟩]
      payloadPolicy := .opaquePayload
      maxHops }
  { replay :=
      { taskId := "relay"
        sourceId := "primary"
        clusterId := source.clusterId
        topicGenerations := Dict.insert ∅ source.topic source.generation
        pipelineFingerprint := hex (ReplayCheckpoint.checksum.digest spec.write)
        limits := ⟨0, 0, 100, 65536, 4⟩
        ranges := [⟨source.topic, 0, 0, 40, 0⟩] }
    spec }

/-- From the first cluster to the second, at most one hop. -/
def nearHop : Hop where
  plan := relay ⟨"lkc-1", "orders", "g1"⟩ ⟨"lkc-2", "copies", "g7"⟩ 1
  source := ⟨"lkc-1", "orders", 0, 17, 1000⟩
  destination := ⟨"copies", 0⟩

/-- From the second cluster to the third, at most two hops. -/
def farHop : Hop where
  plan := relay ⟨"lkc-2", "copies", "g7"⟩ ⟨"lkc-3", "archive", "g2"⟩ 2
  source := ⟨"lkc-2", "copies", 0, 3, 2000⟩
  destination := ⟨"archive", 0⟩

/-- A header of the application. -/
def tenant : KafkaHeader := ⟨"tenant", some [1, 2]⟩

theorem chain_traced_tenant :
    ∃ trace bytes, decode ReplayCheckpoint.checksum bytes = .ok trace ∧
      chain ReplayCheckpoint.checksum [tenant] [nearHop, farHop] =
        .ok [tenant, ⟨header, some bytes⟩] ∧
      trace.offset = 17 ∧ trace.path.length = 3 := by
  obtain ⟨out, hout⟩ : ∃ out,
      chain ReplayCheckpoint.checksum [tenant] [nearHop, farHop] = .ok out := by
    refine exists_ok_of_isOk ?_
    decide +kernel
  obtain ⟨origin, -, hhops⟩ := chain_traced ReplayCheckpoint.checksum [tenant] nearHop [farHop] out
    (by decide +kernel) hout
  obtain ⟨-, -, trace, bytes, -, hdec, hchain, hcarr, -, hpath⟩ := hhops 1 farHop rfl
  exact ⟨trace, bytes, hdec, hchain, hcarr.offset, hpath⟩

/-- The first plan allows one hop, and the record makes two. -/
theorem chain_exceeds_least :
    nearHop.plan.validate ReplayCheckpoint.checksum = .ok () ∧
      farHop.plan.validate ReplayCheckpoint.checksum = .ok () ∧
      (chain ReplayCheckpoint.checksum [tenant] [nearHop, farHop]).isOk ∧
      nearHop.plan.spec.maxHops < [nearHop, farHop].length := by
  decide +kernel

end TransferTrace

end NasaRuntime.Nafka
