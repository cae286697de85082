import NasaRuntime.Nafka.ReplayPlan

/-!
# Transfer plans and dead-letter replay plans

A transfer replays ranges into one target: the plan has the replay plan of the source, the identity of
the target, a route for every partition of the source, and the policy for the payloads. The target, the
routes and the policy are the *spec*. Its bytes are hashed into the replay plan as the fingerprint of
the processing, so `validate` has to encode the spec.

A dead-letter replay sends the records of dead-letter topics back. Its plan has the parts of a
transfer, where the source of a route is the partition a record came from before it failed, the
consumer groups whose records are taken, and what to do with a record whose evidence is not valid:
halt, or send it to a partition of its own.

**Theorem (`plans_canonical`).** For the plans of replays, transfers and dead-letter replays: the
encoding of a valid plan is within the limit of the decoder, the decoder restores the plan from it, and
whatever the decoder accepts is the encoding of the plan it returns.
-/

namespace NasaRuntime.Nafka

/-- The failures of planning, and of the trace of a record. -/
inductive TransferError
  | invalidConfiguration | corruptPlan | contractMismatch | headerInvalid | loopDetected | hopLimit
deriving DecidableEq

structure TransferRoute where
  source : TopicPartition
  destination : TopicPartition
deriving DecidableEq

structure TransferTarget where
  sourceId : String
  clusterId : String
  lane : String
  topicGenerations : Dict String String
  partitions : List TopicPartition
deriving DecidableEq

inductive TransferSchemaKind
  | avro | protobuf | json
deriving DecidableEq

structure TransferSchemaMapping where
  sourceId : Int32
  destinationId : Int32
  kind : TransferSchemaKind
  schemaFingerprint : String
deriving DecidableEq

inductive TransferPayloadPolicy
  | opaquePayload
  | confluent (sourceRegistry destinationRegistry : String) (schemas : List TransferSchemaMapping)
deriving DecidableEq

/-! ## Validation -/

/-- `valid_partition`. -/
def TopicPartition.validate {ε : Type} (bad : ε) (tp : TopicPartition) : Except ε Unit :=
  Except.mapError (fun _ => bad) (ReplayPosition.validate
    { topic := tp.topic, partition := tp.partition, startOffset := 0, endOffset := 0,
      nextOffset := 0 })

/-- `u8::is_ascii_lowercase`. -/
def isLowercase (b : UInt8) : Bool := 97 ≤ b.toNat && b.toNat ≤ 122

/-- The bytes of the name of a lane. -/
def laneByte (b : UInt8) : Bool :=
  isLowercase b || (48 ≤ b.toNat && b.toNat ≤ 57) || b == 95 || b == 45

def TransferTarget.validate (target : TransferTarget) : Except TransferError Unit := do
  token .invalidConfiguration target.sourceId 128
  token .invalidConfiguration target.clusterId 1024
  if utf8 target.lane = [] ∨ 64 < (utf8 target.lane).length ∨
      !(utf8 target.lane).head?.any isLowercase ∨ !(utf8 target.lane).all laneByte ∨
      target.partitions = [] ∨ 4096 < target.partitions.length ∨ disordered id target.partitions then
    throw .invalidConfiguration
  else do
    target.partitions.forM (TopicPartition.validate .invalidConfiguration)
    if !sameTopics (target.partitions.map (·.topic)) (generationTopics target.topicGenerations) then
      throw .invalidConfiguration
    else target.topicGenerations.entries.forM fun entry => token .invalidConfiguration entry.2 1024

/-- `fingerprint`. -/
def isFingerprint (value : String) : Bool :=
  (utf8 value).length = 64 && (utf8 value).all isHexDigit

def TransferPayloadPolicy.validate : TransferPayloadPolicy → Except TransferError Unit
  | .opaquePayload => return
  | .confluent sourceRegistry destinationRegistry schemas => do
    token .invalidConfiguration sourceRegistry 128
    token .invalidConfiguration destinationRegistry 128
    if schemas = [] ∨ 4096 < schemas.length ∨ disordered (·.sourceId.toInt) schemas ∨
        schemas.any fun schema => schema.sourceId ≤ 0 || schema.destinationId ≤ 0 ||
          !isFingerprint schema.schemaFingerprint then throw .invalidConfiguration
    else return

/-! ## The spec -/

structure TransferSpec where
  target : TransferTarget
  routes : List TransferRoute
  payloadPolicy : TransferPayloadPolicy
  maxHops : ℕ
deriving DecidableEq

def TransferSchemaKind.byte : TransferSchemaKind → UInt8
  | .avro => 1
  | .protobuf => 2
  | .json => 3

def TopicPartition.write (tp : TopicPartition) : Bytes :=
  Writer.text tp.topic ++ Writer.int32 tp.partition

def TransferRoute.write (route : TransferRoute) : Bytes :=
  route.source.write ++ route.destination.write

def TransferSchemaMapping.write (schema : TransferSchemaMapping) : Except TransferError Bytes :=
  match unhex (utf8 schema.schemaFingerprint) with
  | none => throw .invalidConfiguration
  | some fingerprint =>
    return Writer.int32 schema.sourceId ++ Writer.int32 schema.destinationId ++
      [schema.kind.byte] ++ fingerprint

def TransferPayloadPolicy.write : TransferPayloadPolicy → Except TransferError Bytes
  | .opaquePayload => return [0] ++ Writer.text "" ++ Writer.text "" ++ be 4 0
  | .confluent sourceRegistry destinationRegistry schemas => do
    let parts ← schemas.mapM TransferSchemaMapping.write
    return [1] ++ Writer.text sourceRegistry ++ Writer.text destinationRegistry ++
      be 4 (schemas.length % 2 ^ 32) ++ parts.flatten

def TransferTarget.write (target : TransferTarget) (hops : ℕ) : Bytes :=
  Writer.text target.sourceId ++ Writer.text target.clusterId ++ Writer.text target.lane ++ be 1 hops ++
    be 4 (target.topicGenerations.entries.length % 2 ^ 32) ++
    target.topicGenerations.entries.flatMap ReplayPlan.writeGeneration ++
    be 4 (target.partitions.length % 2 ^ 32) ++ target.partitions.flatMap TopicPartition.write

/-- `NSKTSP01`. -/
def TransferSpec.magic : Bytes := utf8 "NSKTSP01"

/-- `spec`. -/
def TransferSpec.encode (spec : TransferSpec) : Except TransferError Bytes := do
  spec.target.validate
  spec.payloadPolicy.validate
  if ¬ (1 ≤ spec.maxHops ∧ spec.maxHops ≤ 16) ∨ spec.routes = [] ∨ 4096 < spec.routes.length ∨
      disordered TransferRoute.source spec.routes then throw .invalidConfiguration
  else do
    spec.routes.forM fun route => do
      route.source.validate TransferError.invalidConfiguration
      route.destination.validate TransferError.invalidConfiguration
    let policy ← spec.payloadPolicy.write
    return TransferSpec.magic ++ spec.target.write spec.maxHops ++
      be 4 (spec.routes.length % 2 ^ 32) ++ spec.routes.flatMap TransferRoute.write ++ policy

namespace TransferSpec

/-- `Input::text`. -/
def readText (limit : ℕ) (empty : Bool) : Reader TransferError String :=
  Reader.text .corruptPlan limit isVisible empty

/-- `Input::count`. -/
def readCount (empty : Bool) : Reader TransferError ℕ := do
  let count ← Reader.nat .corruptPlan 4
  if 4096 < count ∨ !empty && count == 0 then throw .corruptPlan
  else return count

/-- `Input::partition`. -/
def readPartition : Reader TransferError TopicPartition := do
  let topic ← readText 249 false
  let partition ← Reader.int32 .corruptPlan
  match TopicPartition.validate TransferError.invalidConfiguration ⟨topic, partition⟩ with
  | .error error => throw error
  | .ok () => return ⟨topic, partition⟩

def readRoute : Reader TransferError TransferRoute := do
  let source ← readPartition
  let destination ← readPartition
  return { source, destination }

def readKind : Reader TransferError TransferSchemaKind := do
  let byte ← Reader.nat .corruptPlan 1
  match byte with
  | 1 => return .avro
  | 2 => return .protobuf
  | 3 => return .json
  | _ => throw .corruptPlan

def readSchema : Reader TransferError TransferSchemaMapping := do
  let sourceId ← Reader.int32 .corruptPlan
  let destinationId ← Reader.int32 .corruptPlan
  let kind ← readKind
  let schemaFingerprint ← hex <$> Reader.take .corruptPlan 32
  return { sourceId, destinationId, kind, schemaFingerprint }

def readPolicy : Reader TransferError TransferPayloadPolicy := do
  let kind ← Reader.nat .corruptPlan 1
  let sourceRegistry ← readText 128 true
  let destinationRegistry ← readText 128 true
  let count ← readCount true
  let schemas ← Reader.replicate readSchema count
  if kind = 0 ∧ utf8 sourceRegistry = [] ∧ utf8 destinationRegistry = [] ∧ schemas = [] then
    return .opaquePayload
  else if kind ≠ 1 then throw .corruptPlan
  else return .confluent sourceRegistry destinationRegistry schemas

/-- The reads of `read_spec` up to the routes: the target, and the bound on the hops. -/
def readTarget : Reader TransferError (TransferTarget × ℕ) := do
  let sourceId ← readText 128 false
  let clusterId ← readText 1024 false
  let lane ← readText 64 false
  let maxHops ← Reader.nat .corruptPlan 1
  let topicCount ← readCount false
  let topicGenerations ←
    Reader.entries .corruptPlan (ReplayPlan.readGeneration .corruptPlan) topicCount ∅
  let partitionCount ← readCount false
  let partitions ← Reader.replicate readPartition partitionCount
  return ({ sourceId, clusterId, lane, topicGenerations, partitions }, maxHops)

/-- `read_spec`. -/
def read : Reader TransferError TransferSpec := do
  Reader.expect .corruptPlan magic
  let (target, maxHops) ← readTarget
  let routeCount ← readCount false
  let routes ← Reader.replicate readRoute routeCount
  let payloadPolicy ← readPolicy
  return { target, routes, payloadPolicy, maxHops }

/-- `decode_spec`. -/
def decode (bytes : Bytes) : Except TransferError TransferSpec := Reader.whole .corruptPlan read bytes

end TransferSpec

/-! ## Archives

The encoders and the decoders of transfers and of dead-letter replays differ in the mark and in the
spec only. -/

/-- `MAX_ENCODED_BYTES` of both kinds of plans. -/
def maxArchiveBytes : ℕ := 16 * 1024 * 1024

/-- The end of `encode`: the mark, the replay plan behind its length, the spec, and the digest. -/
def archive {ε : Type} (bad : ε) (sha256 : Sealing) (magic : Bytes) (replay : ReplayPlan)
    (spec : Except ε Bytes) : Except ε Bytes := do
  let ranges ← Except.mapError (fun _ => bad) (replay.encode sha256)
  let spec ← spec
  let bytes := magic ++ be 4 (ranges.length % 2 ^ 32) ++ ranges ++ spec
  if maxArchiveBytes < bytes.length + 32 then throw bad
  else return sha256.close bytes

/-- The reads of `parse`. -/
def readArchive {ε σ : Type} (bad : ε) (sha256 : Sealing) (magic : Bytes) (readSpec : Reader ε σ) :
    Reader ε (ReplayPlan × σ) := do
  Reader.expect bad magic
  let length ← Reader.nat bad 4
  if ¬ (40 ≤ length ∧ length ≤ ReplayPlan.maxEncodedBytes) then throw bad
  else do
    let ranges ← Reader.take bad length
    match ReplayPlan.decode sha256 ranges with
    | .error _ => throw bad
    | .ok replay =>
      let spec ← readSpec
      return (replay, spec)

/-! ## Plans -/

structure TransferPlan where
  replay : ReplayPlan
  spec : TransferSpec
deriving DecidableEq

namespace TransferPlan

/-- `TransferPlan::MAX_ENCODED_BYTES`. -/
def maxEncodedBytes : ℕ := maxArchiveBytes

/-- A route starts where its range is, and leads to a partition of the target. -/
def routed (target : TransferTarget) (route : TransferRoute) (range : ReplayPosition) : Bool :=
  route.source.topic = range.topic && route.source.partition = range.partition &&
    route.destination ∈ target.partitions

def validate (sha256 : Sealing) (plan : TransferPlan) : Except TransferError Unit := do
  Except.mapError (fun _ => .invalidConfiguration) plan.replay.validate
  let bytes ← plan.spec.encode
  if plan.spec.routes.length ≠ plan.replay.ranges.length then throw .invalidConfiguration
  else if !(plan.spec.routes.zip plan.replay.ranges).all fun pair =>
      routed plan.spec.target pair.1 pair.2 then throw .invalidConfiguration
  else if !sameTopics (plan.spec.routes.map (·.destination.topic))
      (generationTopics plan.spec.target.topicGenerations) then throw .invalidConfiguration
  else if plan.replay.pipelineFingerprint ≠ hex (sha256.digest bytes) then throw .contractMismatch
  else return

/-- `NSKTPL01`. -/
def magic : Bytes := utf8 "NSKTPL01"

def encode (sha256 : Sealing) (plan : TransferPlan) : Except TransferError Bytes := do
  plan.validate sha256
  archive .invalidConfiguration sha256 magic plan.replay plan.spec.encode

def parse (sha256 : Sealing) (payload : Bytes) : Except TransferError TransferPlan := do
  let (replay, spec) ←
    Reader.whole .corruptPlan (readArchive .corruptPlan sha256 magic TransferSpec.read) payload
  let plan : TransferPlan := { replay, spec }
  plan.validate sha256
  return plan

def decode (sha256 : Sealing) (bytes : Bytes) : Except TransferError TransferPlan :=
  sha256.decode .corruptPlan 44 maxEncodedBytes (parse sha256) (encode sha256) bytes

end TransferPlan

section

open List Restores ReplayPlan TransferSpec Reads ReplayCheckpoint TransferPayloadPolicy

/-! ## What validation bounds -/

variable {tp : TopicPartition} {policy : TransferPayloadPolicy} {spec : TransferSpec}

theorem visible_of_validatePartition {ε : Type} {bad : ε}
    (h : tp.validate bad = .ok ()) : Text 249 isVisible false tp.topic := by
  simp only [TopicPartition.validate, mapError_eq_ok] at h
  exact visible_of_validate h

theorem isVisible_of_laneByte {b : UInt8} (h : laneByte b = true) : isVisible b = true := by
  simp only [laneByte, isLowercase, Bool.or_eq_true, Bool.and_eq_true, decide_eq_true_eq,
    beq_iff_eq] at h
  simp only [isVisible, Bool.and_eq_true, decide_eq_true_eq]
  rcases h with ((h | h) | rfl) | rfl
  · omega
  · omega
  · decide
  · decide

/-- The targets that the reader restores. -/
structure TransferTarget.Fits (target : TransferTarget) : Prop where
  source : Text 128 isVisible false target.sourceId
  cluster : Text 1024 isVisible false target.clusterId
  lane : Text 64 isVisible false target.lane
  generations : WritableGenerations target.topicGenerations
  partitions_pos : 0 < target.partitions.length
  partitions_le : target.partitions.length ≤ 4096
  partitions : ∀ tp ∈ target.partitions, tp.validate TransferError.invalidConfiguration = .ok ()

theorem TransferTarget.fits_of_validate {target : TransferTarget} (h : target.validate = .ok ()) :
    target.Fits := by
  simp only [TransferTarget.validate, then_eq_ok, check_eq_ok, forM_eq_forM, forM_eq_ok,
    not_or] at h
  obtain ⟨hsrc, hclust, ⟨hlane, hlaneLe, -, hlan, hne, hle, -⟩, hparts, htop, hgens⟩ := h
  have hsame : sameTopics (target.partitions.map (·.topic))
      (generationTopics target.topicGenerations) = true := by simpa using htop
  have hpos : 0 < target.partitions.length := length_pos_iff.2 hne
  have hlaneT : Text 64 laneByte false target.lane :=
    ⟨.inr (length_pos_iff.2 hlane), by omega, by simpa using hlan⟩
  refine ⟨text_of_token hsrc, text_of_token hclust,
    hlaneT.mono fun _ => isVisible_of_laneByte, ?_, hpos, by omega, hparts⟩
  refine ⟨generations_pos hsame (by simpa using hpos), ?_, ?_⟩
  · have hcnt := length_generations_le hsame
    rw [length_map] at hcnt
    omega
  · intro entry hent
    refine ⟨?_, text_of_token (hgens entry hent)⟩
    obtain ⟨tp, htp, htext⟩ := mem_map.1 (mem_topics_of_generation hsame hent)
    rw [← htext]
    exact visible_of_validatePartition (hparts tp htp)

/-- The policies that the reader restores. -/
def TransferPayloadPolicy.Fits : TransferPayloadPolicy → Prop
  | .opaquePayload => True
  | .confluent sourceRegistry destinationRegistry schemas =>
    Text 128 isVisible true sourceRegistry ∧ Text 128 isVisible true destinationRegistry ∧
      schemas.length ≤ 4096 ∧
      ∀ schema ∈ schemas, ReplayCheckpoint.Fingerprint schema.schemaFingerprint

theorem TransferPayloadPolicy.fits_of_validate (h : policy.validate = .ok ()) : policy.Fits := by
  cases policy with
  | opaquePayload => trivial
  | confluent sourceRegistry destinationRegistry schemas =>
    simp only [validate, then_eq_ok, check_eq_ok, not_or] at h
    obtain ⟨hsrc, hdest, ⟨-, hle, -, hschem⟩, -⟩ := h
    refine ⟨⟨.inl rfl, (text_of_token hsrc).2⟩, ⟨.inl rfl, (text_of_token hdest).2⟩, by omega, ?_⟩
    intro schema hschema
    simp only [any_eq_true, Bool.or_eq_true, Bool.not_eq_true', not_exists, not_and, not_or,
      isFingerprint] at hschem
    have hfp := (hschem schema hschema).2
    simpa [ReplayCheckpoint.Fingerprint] using hfp

/-- The specs that the reader restores. -/
structure TransferSpec.Fits (spec : TransferSpec) : Prop where
  target : spec.target.Fits
  policy : spec.payloadPolicy.Fits
  hops : spec.maxHops < 256 ^ 1
  routes_pos : 0 < spec.routes.length
  routes_le : spec.routes.length ≤ 4096
  routes : ∀ route ∈ spec.routes,
    route.source.validate TransferError.invalidConfiguration = .ok () ∧
      route.destination.validate TransferError.invalidConfiguration = .ok ()

/-! ## Writers -/

/-- The bytes of a schema mapping. -/
def TransferSchemaMapping.bytes (schema : TransferSchemaMapping) : Bytes :=
  Writer.int32 schema.sourceId ++ Writer.int32 schema.destinationId ++ [schema.kind.byte] ++
    ReplayCheckpoint.rawFingerprint schema.schemaFingerprint

/-- The bytes of a policy. -/
def TransferPayloadPolicy.bytes : TransferPayloadPolicy → Bytes
  | .opaquePayload => [0] ++ Writer.text "" ++ Writer.text "" ++ be 4 0
  | .confluent sourceRegistry destinationRegistry schemas =>
    [1] ++ Writer.text sourceRegistry ++ Writer.text destinationRegistry ++
      be 4 (schemas.length % 2 ^ 32) ++ schemas.flatMap TransferSchemaMapping.bytes

theorem TransferPayloadPolicy.write_eq (h : policy.Fits) : policy.write = .ok policy.bytes := by
  cases policy with
  | opaquePayload => rfl
  | confluent sourceRegistry destinationRegistry schemas =>
    have hparts : schemas.mapM TransferSchemaMapping.write =
        .ok (schemas.map TransferSchemaMapping.bytes) := by
      refine mapM_eq_ok_of fun schema hschema => ?_
      have hraw := length_rawFingerprint (h.2.2.2 schema hschema)
      simp only [TransferSchemaMapping.write, hraw.1, TransferSchemaMapping.bytes]
      rfl
    rw [TransferPayloadPolicy.write, hparts, bytes, flatMap_def]
    rfl

/-- The bytes of a spec. -/
def TransferSpec.write (spec : TransferSpec) : Bytes :=
  TransferSpec.magic ++ spec.target.write spec.maxHops ++ be 4 (spec.routes.length % 2 ^ 32) ++
    spec.routes.flatMap TransferRoute.write ++ spec.payloadPolicy.bytes

theorem TransferSpec.of_encode {bytes : Bytes} (h : spec.encode = .ok bytes) :
    spec.Fits ∧ bytes = spec.write := by
  simp only [encode, then_eq_ok, check_eq_ok, forM_eq_forM, forM_eq_ok, not_or, not_not] at h
  obtain ⟨htarg, hpol, ⟨hhops, hne, hle, -⟩, hrout, hby⟩ := h
  have hfits := fits_of_validate hpol
  rw [write_eq hfits] at hby
  refine ⟨⟨TransferTarget.fits_of_validate htarg, hfits, by omega, length_pos_iff.2 hne,
    by omega, hrout⟩, ?_⟩
  cases hby
  rfl

namespace TransferSpec

/-! ## The reader -/

theorem restores_text {limit : ℕ} {empty : Bool} (hlim : limit < 2 ^ 16) :
    Restores (readText limit empty) Writer.text (Text limit isVisible empty) :=
  (text hlim).complete

theorem restores_count (empty : Bool) :
    Restores (readCount empty) (be 4) fun n => (empty = true ∨ 0 < n) ∧ n ≤ 4096 := by
  refine (nat 4).complete.last id ?_ fun count _ => ?_
  · intro n hn
    exact hn.2.trans_lt (by decide)
  refine guard ?_ (pure fun n hn => hn.2)
  intro n hn
  have hcnt : n = count := hn.2
  have hle := hn.1.2
  have hemp := hn.1.1
  cases empty with
  | true => simpa using (by omega : count ≤ 4096)
  | false =>
    simp only [Bool.false_eq_true, false_or] at hemp
    simp only [Bool.not_false, Bool.true_and, beq_iff_eq]
    omega

theorem restores_partition :
    Restores readPartition TopicPartition.write fun tp =>
      tp.validate TransferError.invalidConfiguration = .ok () := by
  refine (restores_text (by decide)).bind TopicPartition.topic
    (fun _ h => visible_of_validatePartition h) fun topic _ => ?_
  refine int32.complete.last TopicPartition.partition (fun _ _ => trivial) fun partition _ => ?_
  intro tp rest h
  obtain ⟨⟨hval, rfl⟩, rfl⟩ := h
  rw [hval]
  rfl

theorem restores_route :
    Restores readRoute TransferRoute.write fun route =>
      route.source.validate TransferError.invalidConfiguration = .ok () ∧
        route.destination.validate TransferError.invalidConfiguration = .ok () := by
  refine restores_partition.bind TransferRoute.source (fun _ h => h.1) fun source _ => ?_
  refine restores_partition.last TransferRoute.destination (fun _ h => h.1.2) fun destination _ => ?_
  refine pure fun route h => ?_
  obtain ⟨⟨-, rfl⟩, rfl⟩ := h
  rfl

theorem restores_kind :
    Restores readKind (fun kind => [kind.byte]) fun _ => True := by
  intro kind rest _
  cases kind with
  | avro | protobuf | json => rfl

theorem restores_schema :
    Restores readSchema TransferSchemaMapping.bytes fun schema =>
      Fingerprint schema.schemaFingerprint := by
  unfold readSchema TransferSchemaMapping.bytes
  simp only [append_assoc]
  refine int32.complete.bind TransferSchemaMapping.sourceId (fun _ _ => trivial) fun _ _ => ?_
  refine int32.complete.bind TransferSchemaMapping.destinationId (fun _ _ => trivial) fun _ _ => ?_
  refine restores_kind.bind TransferSchemaMapping.kind (fun _ _ => trivial) fun _ _ => ?_
  refine reads_fingerprint.complete.last TransferSchemaMapping.schemaFingerprint
    (fun _ h => h.1.1.1) fun _ _ => ?_
  refine pure fun schema h => ?_
  obtain ⟨⟨⟨⟨-, rfl⟩, rfl⟩, rfl⟩, rfl⟩ := h
  rfl

/-- The parts of a policy on the wire. -/
def parts : TransferPayloadPolicy → ℕ × String × String × List TransferSchemaMapping
  | .opaquePayload => (0, "", "", [])
  | .confluent sourceRegistry destinationRegistry schemas =>
    (1, sourceRegistry, destinationRegistry, schemas)

theorem bytes_eq (policy : TransferPayloadPolicy) :
    policy.bytes = be 1 (parts policy).1 ++ (Writer.text (parts policy).2.1 ++
      (Writer.text (parts policy).2.2.1 ++ (be 4 ((parts policy).2.2.2.length % 2 ^ 32) ++
        (parts policy).2.2.2.flatMap TransferSchemaMapping.bytes))) := by
  cases policy with
  | opaquePayload => rfl
  | confluent sourceRegistry destinationRegistry schemas =>
    have hone : ([1] : Bytes) = be 1 1 := by decide
    simp only [bytes, parts, append_assoc, hone]

theorem restores_policy :
    Restores readPolicy bytes TransferPayloadPolicy.Fits := by
  have hparts : ∀ policy : TransferPayloadPolicy, policy.Fits →
      (parts policy).1 < 256 ^ 1 ∧ Text 128 isVisible true (parts policy).2.1 ∧
      Text 128 isVisible true (parts policy).2.2.1 ∧ (parts policy).2.2.2.length ≤ 4096 ∧
      ∀ schema ∈ (parts policy).2.2.2, ReplayCheckpoint.Fingerprint schema.schemaFingerprint := by
    intro policy h
    have hemp : Text 128 isVisible true "" := ⟨.inl rfl, by decide, by decide⟩
    cases policy with
    | opaquePayload =>
      exact ⟨by decide, hemp, hemp, by decide, fun _ hmem => absurd hmem not_mem_nil⟩
    | confluent sourceRegistry destinationRegistry schemas => exact ⟨by simp [parts], h⟩
  unfold readPolicy
  rw [funext bytes_eq]
  refine (nat 1).complete.bind (fun policy => (parts policy).1) (fun policy h => (hparts _ h).1)
    fun kind _ => ?_
  refine (restores_text (by decide)).bind (fun policy => (parts policy).2.1)
    (fun policy h => (hparts _ h.1).2.1) fun sourceRegistry _ => ?_
  refine (restores_text (by decide)).bind (fun policy => (parts policy).2.2.1)
    (fun policy h => (hparts _ h.1.1).2.2.1) fun destinationRegistry _ => ?_
  refine (restores_count true).bind (fun policy => (parts policy).2.2.2.length % 2 ^ 32) ?_
    fun count _ => ?_
  · intro policy h
    rw [count_mod (hparts _ h.1.1.1).2.2.2.1]
    exact ⟨.inl rfl, (hparts _ h.1.1.1).2.2.2.1⟩
  refine (restores_schema.replicate count).last (fun policy => (parts policy).2.2.2) ?_
    fun schemas _ => ?_
  · intro policy h
    have hfits := hparts _ h.1.1.1.1
    exact ⟨(count_mod hfits.2.2.2.1).symm.trans h.2, hfits.2.2.2.2⟩
  intro policy rest h
  obtain ⟨⟨⟨⟨⟨-, rfl⟩, rfl⟩, rfl⟩, -⟩, rfl⟩ := h
  cases policy with
  | opaquePayload =>
    rw [if_pos ⟨rfl, by decide, by decide, rfl⟩]
    rfl
  | confluent sourceRegistry destinationRegistry schemas =>
    have hkind : (parts (.confluent sourceRegistry destinationRegistry schemas)).1 = 1 := rfl
    rw [hkind, if_neg (fun h => absurd h.1 (by decide)), if_neg (not_not.2 rfl)]
    rfl

theorem restores_target :
    Restores readTarget (fun x => x.1.write x.2) fun x => x.1.Fits ∧ x.2 < 256 ^ 1 := by
  unfold readTarget TransferTarget.write
  simp only [append_assoc]
  refine (restores_text (by decide)).bind (fun x : TransferTarget × ℕ => x.1.sourceId)
    (fun _ h => h.1.source) fun sourceId _ => ?_
  refine (restores_text (by decide)).bind (fun x : TransferTarget × ℕ => x.1.clusterId)
    (fun _ h => h.1.1.cluster) fun clusterId _ => ?_
  refine (restores_text (by decide)).bind (fun x : TransferTarget × ℕ => x.1.lane)
    (fun _ h => h.1.1.1.lane) fun lane _ => ?_
  refine (nat 1).complete.bind Prod.snd (fun _ h => h.1.1.1.2) fun hops _ => ?_
  refine (restores_count false).bind (fun x : TransferTarget × ℕ =>
    x.1.topicGenerations.entries.length % 2 ^ 32) ?_ fun topicCount _ => ?_
  · intro x h
    have hgens := h.1.1.1.1.1.generations
    rw [count_mod hgens.le]
    exact ⟨.inr hgens.pos, hgens.le⟩
  refine (restores_generation.entries topicCount).bind (fun x : TransferTarget × ℕ =>
    x.1.topicGenerations) ?_ fun generations _ => ?_
  · intro x h
    have hgens := h.1.1.1.1.1.1.generations
    exact ⟨(count_mod hgens.le).symm.trans h.2, hgens.entries⟩
  refine (restores_count false).bind (fun x : TransferTarget × ℕ =>
    x.1.partitions.length % 2 ^ 32) ?_ fun partitionCount _ => ?_
  · intro x h
    have htarg := h.1.1.1.1.1.1.1
    rw [count_mod htarg.partitions_le]
    exact ⟨.inr htarg.partitions_pos, htarg.partitions_le⟩
  refine (restores_partition.replicate partitionCount).last (fun x : TransferTarget × ℕ =>
    x.1.partitions) ?_ fun partitions _ => ?_
  · intro x h
    have htarg := h.1.1.1.1.1.1.1.1
    exact ⟨(count_mod htarg.partitions_le).symm.trans h.2, htarg.partitions⟩
  refine pure fun x h => ?_
  obtain ⟨⟨⟨⟨⟨⟨⟨⟨-, rfl⟩, rfl⟩, rfl⟩, rfl⟩, -⟩, rfl⟩, -⟩, rfl⟩ := h
  rfl

theorem restores_spec : Restores read write Fits := by
  unfold read write
  simp only [append_assoc]
  refine expect ?_
  refine restores_target.bind (fun spec : TransferSpec => (spec.target, spec.maxHops))
    (fun _ h => ⟨h.target, h.hops⟩) fun target _ => ?_
  refine (restores_count false).bind (fun spec : TransferSpec => spec.routes.length % 2 ^ 32) ?_
    fun routeCount _ => ?_
  · intro spec h
    rw [count_mod h.1.routes_le]
    exact ⟨.inr h.1.routes_pos, h.1.routes_le⟩
  refine (restores_route.replicate routeCount).bind routes ?_ fun routes _ => ?_
  · intro spec h
    exact ⟨(count_mod h.1.1.routes_le).symm.trans h.2, h.1.1.routes⟩
  refine restores_policy.last payloadPolicy (fun _ h => h.1.1.1.policy) fun policy _ => ?_
  refine pure fun spec h => ?_
  obtain ⟨⟨⟨⟨-, rfl⟩, -⟩, rfl⟩, rfl⟩ := h
  rfl

/-! ## Lengths -/

theorem length_partition_le (h : Text 249 isVisible false tp.topic) : tp.write.length ≤ 255 := by
  have := h.2.1
  simp only [TopicPartition.write, length_append, Writer.length_text, Writer.length_int32]
  omega

theorem length_policy_le (h : policy.Fits) : policy.bytes.length ≤ 168201 := by
  cases policy with
  | opaquePayload => decide
  | confluent sourceRegistry destinationRegistry schemas =>
    obtain ⟨hsrc, hdest, hle, hschem⟩ := h
    have hsourc := hsrc.2.1
    have hdesti := hdest.2.1
    have hby : (schemas.flatMap TransferSchemaMapping.bytes).length ≤ 4096 * 41 :=
      (length_flatMap_le fun schema hschema => by simp [TransferSchemaMapping.bytes,
        (length_rawFingerprint (hschem schema hschema)).2]).trans
        (Nat.mul_le_mul_right 41 hle)
    simp only [bytes, length_append, Writer.length_text, length_be, length_cons, length_nil]
    omega

theorem length_write (h : spec.Fits) : 8 ≤ spec.write.length ∧ spec.write.length ≤ 8533476 := by
  have hmag : magic.length = 8 := by decide
  have hsrc := h.target.source.2.1
  have hclust := h.target.cluster.2.1
  have hlane := h.target.lane.2.1
  have hgens := length_generations_write_le h.target.generations
  have hparts : (spec.target.partitions.flatMap TopicPartition.write).length ≤ 4096 * 255 :=
    (length_flatMap_le fun tp htp =>
      length_partition_le (visible_of_validatePartition (h.target.partitions tp htp))).trans
      (Nat.mul_le_mul_right 255 h.target.partitions_le)
  have hroute : ∀ route ∈ spec.routes, route.write.length ≤ 510 := by
    intro route hroute
    have hval := h.routes route hroute
    have hfrom := length_partition_le (visible_of_validatePartition hval.1)
    have hto := length_partition_le (visible_of_validatePartition hval.2)
    rw [TransferRoute.write, length_append]
    omega
  have hrout : (spec.routes.flatMap TransferRoute.write).length ≤ 4096 * 510 :=
    (length_flatMap_le hroute).trans (Nat.mul_le_mul_right 510 h.routes_le)
  have hpol := length_policy_le h.policy
  simp only [write, TransferTarget.write, length_append, Writer.length_text, length_be, hmag]
  omega

end TransferSpec

/-! ## Archives -/

/-- The bytes of an archive before the digest. -/
def writeArchive (sha256 : Sealing) (magic : Bytes) (replay : ReplayPlan) (spec : Bytes) : Bytes :=
  magic ++ (be 4 ((sha256.close replay.write).length % 2 ^ 32) ++ (sha256.close replay.write ++ spec))

section Archive

variable {ε σ : Type} {bad : ε} {sha256 : Sealing} {magic : Bytes}

theorem restores_archive {readSpec : Reader ε σ} {w : σ → Bytes} {V : σ → Prop}
    (hspec : Restores readSpec w V) :
    Restores (readArchive bad sha256 magic readSpec)
      (fun x => writeArchive sha256 magic x.1 (w x.2)) fun x => x.1.validate = .ok () ∧ V x.2 := by
  unfold readArchive writeArchive
  refine expect ?_
  refine framed (fun x : ReplayPlan × σ => sha256.close x.1.write) (by decide)
    (fun _ h => length_encoding sha256 h.1) fun ranges => ?_
  -- the plan in the frame is decoded, and the rest of the reader knows it
  have hrest : ∀ replay : ReplayPlan, Restores (do
      let spec ← readSpec
      return (replay, spec)) (fun x => w x.2) fun x => V x.2 ∧ x.1 = replay := by
    intro replay
    refine hspec.last Prod.snd (fun _ h => h.1) fun spec _ => ?_
    refine pure fun x h => ?_
    exact Prod.ext h.1.2 h.2
  intro x rest h
  obtain ⟨hval, rfl⟩ := h
  simp only [decode_close hval.1]
  exact hrest x.1 x rest ⟨hval.2, rfl⟩

theorem length_writeArchive (sha256 : Sealing) {replay : ReplayPlan} {spec : Bytes}
    (hmag : magic.length = 8) (hrepl : replay.validate = .ok ()) (hspec : spec.length ≤ 8796402) :
    44 ≤ (writeArchive sha256 magic replay spec).length + 32 ∧
      (writeArchive sha256 magic replay spec).length + 32 ≤ maxArchiveBytes := by
  have hlen := length_write (fits_of_validate hrepl)
  simp only [writeArchive, length_append, length_be, Sealing.length_close, hmag, maxArchiveBytes]
  omega

/-- The size is never what `encode` fails for. -/
theorem archive_eq {replay : ReplayPlan} {spec : Bytes} (hmag : magic.length = 8)
    (hrepl : replay.validate = .ok ()) (hspec : spec.length ≤ 8796402) :
    archive bad sha256 magic replay (.ok spec) =
      .ok (sha256.close (writeArchive sha256 magic replay spec)) := by
  have henc : replay.encode sha256 = .ok (sha256.close replay.write) := encode_eq_ok.2 ⟨hrepl, rfl⟩
  have hmost : ¬ maxArchiveBytes < (writeArchive sha256 magic replay spec).length + 32 := by
    have hlen := (length_writeArchive sha256 hmag hrepl hspec).2
    omega
  have hby : magic ++ be 4 ((sha256.close replay.write).length % 2 ^ 32) ++
      sha256.close replay.write ++ spec = writeArchive sha256 magic replay spec := by
    simp only [writeArchive, append_assoc]
  simp only [archive, bind_eq_ok, mapError_eq_ok]
  refine ⟨_, henc, spec, rfl, ?_⟩
  rw [hby, if_neg hmost]
  rfl

end Archive

/-! ## Plans -/

namespace TransferPlan

variable {sha256 : Sealing} {plan : TransferPlan}

/-- The parts of a valid plan. -/
structure Fits (plan : TransferPlan) : Prop where
  replay : plan.replay.validate = .ok ()
  spec : plan.spec.Fits
  encode : plan.spec.encode = .ok plan.spec.write

theorem fits_of_validate (h : plan.validate sha256 = .ok ()) : plan.Fits := by
  simp only [validate, mapError_eq_ok, bind_eq_ok] at h
  obtain ⟨_, hrepl, spec, hspec, -⟩ := h
  obtain ⟨hfits, rfl⟩ := of_encode hspec
  exact ⟨hrepl, hfits, hspec⟩

/-- **Transfer plans.** -/
theorem canonical (sha256 : Sealing) :
    Canonical (fun plan : TransferPlan => plan.validate sha256 = .ok ()) maxEncodedBytes
      (encode sha256) (decode sha256) := by
  have hmag : magic.length = 8 := by decide
  have hspec : ∀ plan : TransferPlan, plan.Fits → plan.spec.write.length ≤ 8796402 :=
    fun plan h => (length_write h.spec).2.trans (by decide)
  refine Sealing.canonical (fun plan => writeArchive sha256 magic plan.replay plan.spec.write)
    (fun plan h => ?_) (fun plan h => ?_) fun plan h => ?_
  · have hfits := fits_of_validate h
    rw [encode, h, hfits.encode]
    exact archive_eq hmag hfits.replay (hspec plan hfits)
  · have hfits := fits_of_validate h
    simp only [parse, bind_eq_ok]
    exact ⟨_, (restores_archive restores_spec).whole (a := (plan.replay, plan.spec))
      ⟨hfits.replay, hfits.spec⟩, (), h, rfl⟩
  · have hfits := fits_of_validate h
    exact length_writeArchive sha256 hmag hfits.replay (hspec plan hfits)

end TransferPlan

end

/-- The failures of planning. -/
inductive DltReplayError
  | invalidConfiguration | corruptPlan | contractMismatch
deriving DecidableEq

inductive DltInvalidPolicy
  | halt
  | quarantine (tp : TopicPartition)
deriving DecidableEq

/-- The processing of a dead-letter replay. The bound on the hops of the transfer is `max_replays`. -/
structure DltReplaySpec where
  transfer : TransferSpec
  originGroups : List String
  invalidPolicy : DltInvalidPolicy
deriving DecidableEq

structure DltReplayPlan where
  replay : ReplayPlan
  spec : DltReplaySpec
deriving DecidableEq

/-! ## The spec -/

def DltInvalidPolicy.write : DltInvalidPolicy → Except DltReplayError Bytes
  | .halt => return [0]
  | .quarantine tp => do
    tp.validate DltReplayError.invalidConfiguration
    return [1] ++ Writer.text tp.topic ++ Writer.int32 tp.partition

namespace DltReplaySpec

/-- `NSKDSP01`. -/
def magic : Bytes := utf8 "NSKDSP01"

/-- `spec`. -/
def encode (spec : DltReplaySpec) : Except DltReplayError Bytes := do
  if 256 < spec.originGroups.length ∨
      (spec.originGroups.any fun group => utf8 group = [] || 1024 < (utf8 group).length) ∨
      disordered id spec.originGroups then throw .invalidConfiguration
  else do
    let common ← Except.mapError (fun _ => .invalidConfiguration) spec.transfer.encode
    let invalid ← spec.invalidPolicy.write
    return magic ++ be 4 (common.length % 2 ^ 32) ++ common ++
      be 2 (spec.originGroups.length % 2 ^ 16) ++ spec.originGroups.flatMap Writer.text ++ invalid

/-- `Input::text`. -/
def readText (limit : ℕ) : Reader DltReplayError String :=
  Reader.text .corruptPlan limit (fun _ => true) false

def readInvalidPolicy : Reader DltReplayError DltInvalidPolicy := do
  let kind ← Reader.nat .corruptPlan 1
  match kind with
  | 0 => return .halt
  | 1 => do
    let topic ← readText 249
    let partition ← Reader.int32 .corruptPlan
    return .quarantine { topic, partition }
  | _ => throw .corruptPlan

/-- The reads of `parse` after the replay plan. -/
def read : Reader DltReplayError DltReplaySpec := do
  Reader.expect .corruptPlan magic
  let length ← Reader.nat .corruptPlan 4
  if ¬ (8 ≤ length ∧ length ≤ TransferPlan.maxEncodedBytes) then throw .corruptPlan
  else do
    let common ← Reader.take .corruptPlan length
    match TransferSpec.decode common with
    | .error _ => throw .corruptPlan
    | .ok transfer =>
      let count ← Reader.nat .corruptPlan 2
      if 256 < count then throw .corruptPlan
      else do
        let originGroups ← Reader.replicate (readText 1024) count
        let invalidPolicy ← readInvalidPolicy
        return { transfer, originGroups, invalidPolicy }

end DltReplaySpec

/-! ## Plans -/

namespace DltReplayPlan

/-- `DltReplayPlan::MAX_ENCODED_BYTES`. -/
def maxEncodedBytes : ℕ := maxArchiveBytes

/-- An output that the task does not read. -/
def output (plan : DltReplayPlan) (tp : TopicPartition) : Except DltReplayError Unit :=
  if plan.replay.clusterId = plan.spec.transfer.target.clusterId ∧
      (plan.replay.topicGenerations.get? tp.topic).isSome then throw .invalidConfiguration
  else return

/-- The destination of a route is allowed. -/
def validateRoute (plan : DltReplayPlan) (route : TransferRoute) : Except DltReplayError Unit := do
  if route.destination ∉ plan.spec.transfer.target.partitions then throw .invalidConfiguration
  else plan.output route.destination

/-- The partition for invalid records is allowed, and no destination. -/
def validateInvalid (plan : DltReplayPlan) : Except DltReplayError Unit :=
  match plan.spec.invalidPolicy with
  | .halt => return
  | .quarantine tp =>
    if tp ∉ plan.spec.transfer.target.partitions ∨
        plan.spec.transfer.routes.any (·.destination = tp) then throw .invalidConfiguration
    else plan.output tp

/-- The topics that the task writes. -/
def usedTopics (plan : DltReplayPlan) : List String :=
  plan.spec.transfer.routes.map (·.destination.topic) ++
    match plan.spec.invalidPolicy with
    | .halt => []
    | .quarantine tp => [tp.topic]

def validate (sha256 : Sealing) (plan : DltReplayPlan) : Except DltReplayError Unit := do
  Except.mapError (fun _ => .invalidConfiguration) plan.replay.validate
  let bytes ← plan.spec.encode
  plan.spec.transfer.routes.forM plan.validateRoute
  plan.validateInvalid
  if !sameTopics plan.usedTopics (generationTopics plan.spec.transfer.target.topicGenerations) then
    throw .invalidConfiguration
  else if plan.replay.pipelineFingerprint ≠ hex (sha256.digest bytes) then throw .contractMismatch
  else return

/-- `NSKDPL01`. -/
def magic : Bytes := utf8 "NSKDPL01"

def encode (sha256 : Sealing) (plan : DltReplayPlan) : Except DltReplayError Bytes := do
  plan.validate sha256
  archive .invalidConfiguration sha256 magic plan.replay plan.spec.encode

def parse (sha256 : Sealing) (payload : Bytes) : Except DltReplayError DltReplayPlan := do
  let (replay, spec) ←
    Reader.whole .corruptPlan (readArchive .corruptPlan sha256 magic DltReplaySpec.read) payload
  let plan : DltReplayPlan := { replay, spec }
  plan.validate sha256
  return plan

def decode (sha256 : Sealing) (bytes : Bytes) : Except DltReplayError DltReplayPlan :=
  sha256.decode .corruptPlan 44 maxEncodedBytes (parse sha256) (encode sha256) bytes

end DltReplayPlan

open DltInvalidPolicy Writer DltReplaySpec List Restores

open Reads (Text)

/-! ## Specs of dead-letter replays -/

/-- The bytes of a policy. -/
def DltInvalidPolicy.bytes : DltInvalidPolicy → Bytes
  | .halt => [0]
  | .quarantine tp => [1] ++ Writer.text tp.topic ++ Writer.int32 tp.partition

/-- The policies that the reader restores. -/
def DltInvalidPolicy.Fits : DltInvalidPolicy → Prop
  | .halt => True
  | .quarantine tp => Text 249 (fun _ => true) false tp.topic

theorem DltInvalidPolicy.of_write {policy : DltInvalidPolicy} {bytes : Bytes}
    (h : policy.write = .ok bytes) : policy.Fits ∧ bytes = policy.bytes := by
  cases policy with
  | halt =>
    cases h
    exact ⟨trivial, rfl⟩
  | quarantine tp =>
    simp only [write, then_eq_ok, pure_eq_ok] at h
    obtain ⟨hval, hby⟩ := h
    exact ⟨(visible_of_validatePartition hval).mono fun _ _ => rfl, hby.symm⟩

theorem DltInvalidPolicy.length_bytes_le {policy : DltInvalidPolicy} (h : policy.Fits) :
    policy.bytes.length ≤ 256 := by
  cases policy with
  | halt => decide
  | quarantine tp =>
    have hle := h.2.1
    simp only [bytes, length_append, length_text, length_int32, length_singleton]
    omega

namespace DltReplaySpec

variable {spec : DltReplaySpec} {bytes : Bytes}

/-- The specs that the reader restores. -/
structure Fits (spec : DltReplaySpec) : Prop where
  transfer : spec.transfer.Fits
  groups_le : spec.originGroups.length ≤ 256
  groups : ∀ group ∈ spec.originGroups, Text 1024 (fun _ => true) false group
  policy : spec.invalidPolicy.Fits

/-- The bytes of a spec. -/
def write (spec : DltReplaySpec) : Bytes :=
  magic ++ (be 4 (spec.transfer.write.length % 2 ^ 32) ++ (spec.transfer.write ++
    (be 2 (spec.originGroups.length % 2 ^ 16) ++ (spec.originGroups.flatMap Writer.text ++
      spec.invalidPolicy.bytes))))

theorem of_encode (h : spec.encode = .ok bytes) : spec.Fits ∧ bytes = spec.write := by
  simp only [encode, check_eq_ok, bind_eq_ok, mapError_eq_ok, not_or, pure_eq_ok] at h
  obtain ⟨⟨hle, hgroups, -⟩, common, hcomm, invalid, hinv, hby⟩ := h
  obtain ⟨htrans, rfl⟩ := TransferSpec.of_encode hcomm
  obtain ⟨hpol, rfl⟩ := of_write hinv
  refine ⟨⟨htrans, by omega, ?_, hpol⟩, ?_⟩
  · intro group hgroup
    simp only [any_eq_true, Bool.or_eq_true, decide_eq_true_eq, not_exists, not_and,
      not_or] at hgroups
    have hbounds := hgroups group hgroup
    exact ⟨.inr (length_pos_iff.2 hbounds.1), by omega, by simp⟩
  · rw [← hby]
    simp only [write, append_assoc]

theorem restores_text {limit : ℕ} (hlim : limit < 2 ^ 16) :
    Restores (readText limit) Writer.text (Text limit (fun _ => true) false) :=
  (Reads.text hlim).complete

theorem restores_invalidPolicy :
    Restores readInvalidPolicy DltInvalidPolicy.bytes DltInvalidPolicy.Fits := by
  intro policy rest h
  cases policy with
  | halt => rfl
  | quarantine tp =>
    simp only [bytes, append_assoc]
    have hkind : Reader.nat DltReplayError.corruptPlan 1 ([1] ++ (text tp.topic ++
        (int32 tp.partition ++ rest))) = .ok (1, _) := rfl
    refine read_bind_eq_ok.2 ⟨1, _, hkind, ?_⟩
    refine read_bind_eq_ok.2 ⟨tp.topic, _, restores_text (by decide) _ _ h, ?_⟩
    refine read_bind_eq_ok.2 ⟨tp.partition, _, Reads.int32.complete _ _ trivial, ?_⟩
    rfl

theorem restores_spec : Restores read write Fits := by
  unfold read write
  refine expect ?_
  refine framed (fun spec : DltReplaySpec => spec.transfer.write) (by decide) ?_ fun common => ?_
  · intro spec h
    have hlen := TransferSpec.length_write h.transfer
    unfold TransferPlan.maxEncodedBytes maxArchiveBytes
    omega
  have hrest : ∀ transfer, Restores (do
      let count ← Reader.nat DltReplayError.corruptPlan 2
      if 256 < count then throw .corruptPlan
      else do
        let originGroups ← Reader.replicate (readText 1024) count
        let invalidPolicy ← readInvalidPolicy
        return ({ transfer, originGroups, invalidPolicy } : DltReplaySpec))
      (fun spec => be 2 (spec.originGroups.length % 2 ^ 16) ++
        (spec.originGroups.flatMap text ++ spec.invalidPolicy.bytes))
      fun spec => spec.Fits ∧ spec.transfer = transfer := by
    intro transfer
    have hcut : ∀ spec : DltReplaySpec, spec.Fits →
        spec.originGroups.length % 2 ^ 16 = spec.originGroups.length := fun spec h =>
      Nat.mod_eq_of_lt (h.groups_le.trans_lt (by decide))
    refine (Reads.nat 2).complete.bind
      (fun spec : DltReplaySpec => spec.originGroups.length % 2 ^ 16)
      (fun _ _ => Nat.mod_lt _ (by decide)) fun count _ => ?_
    refine guard ?_ ?_
    · intro spec h
      have hle := h.1.1.groups_le
      have hcnt := (hcut spec h.1.1).symm.trans h.2
      omega
    refine ((restores_text (by decide)).replicate count).bind originGroups ?_ fun groups _ => ?_
    · intro spec h
      exact ⟨(hcut spec h.1.1).symm.trans h.2, h.1.1.groups⟩
    refine restores_invalidPolicy.last invalidPolicy (fun _ h => h.1.1.1.policy) fun policy _ => ?_
    refine pure fun spec h => ?_
    obtain ⟨⟨⟨⟨-, rfl⟩, -⟩, rfl⟩, rfl⟩ := h
    rfl
  intro spec rest h
  obtain ⟨hfits, rfl⟩ := h
  have hdec : TransferSpec.decode spec.transfer.write = .ok spec.transfer :=
    TransferSpec.restores_spec.whole hfits.transfer
  simp only [hdec]
  exact hrest spec.transfer spec rest ⟨hfits, rfl⟩

theorem length_write_le (h : spec.Fits) : spec.write.length ≤ 8796402 := by
  have hmag : magic.length = 8 := by decide
  have htrans := TransferSpec.length_write h.transfer
  have hpol := length_bytes_le h.policy
  have hgroup : ∀ group ∈ spec.originGroups, (text group).length ≤ 1026 := by
    intro group hmem
    have hle := (h.groups group hmem).2.1
    rw [length_text]
    omega
  have hgroups : (spec.originGroups.flatMap text).length ≤ 256 * 1026 :=
    (length_flatMap_le hgroup).trans (Nat.mul_le_mul_right 1026 h.groups_le)
  simp only [write, length_append, length_be, hmag]
  omega

end DltReplaySpec

/-! ## Plans of dead-letter replays -/

namespace DltReplayPlan

variable {sha256 : Sealing} {plan : DltReplayPlan}

/-- The parts of a valid plan. -/
structure Fits (plan : DltReplayPlan) : Prop where
  replay : plan.replay.validate = .ok ()
  spec : plan.spec.Fits
  encode : plan.spec.encode = .ok plan.spec.write

theorem fits_of_validate (h : plan.validate sha256 = .ok ()) : plan.Fits := by
  simp only [validate, mapError_eq_ok, bind_eq_ok] at h
  obtain ⟨_, hrepl, spec, hspec, -⟩ := h
  obtain ⟨hfits, rfl⟩ := of_encode hspec
  exact ⟨hrepl, hfits, hspec⟩

/-- **Plans of dead-letter replays.** -/
theorem canonical (sha256 : Sealing) :
    Canonical (fun plan : DltReplayPlan => plan.validate sha256 = .ok ()) maxEncodedBytes
      (encode sha256) (decode sha256) := by
  have hmag : magic.length = 8 := by decide
  refine Sealing.canonical (fun plan => writeArchive sha256 magic plan.replay plan.spec.write)
    (fun plan h => ?_) (fun plan h => ?_) fun plan h => ?_
  · have hfits := fits_of_validate h
    rw [encode, h, hfits.encode]
    exact archive_eq hmag hfits.replay (length_write_le hfits.spec)
  · have hfits := fits_of_validate h
    simp only [parse, bind_eq_ok]
    exact ⟨_, (restores_archive restores_spec).whole (a := (plan.replay, plan.spec))
      ⟨hfits.replay, hfits.spec⟩, (), h, rfl⟩
  · have hfits := fits_of_validate h
    exact length_writeArchive sha256 hmag hfits.replay (length_write_le hfits.spec)

end DltReplayPlan

/-! ## The three kinds -/

/-- **Every kind of plan has a canonical encoding within the limit of its decoder.** -/
theorem plans_canonical (sha256 : Sealing) :
    Canonical (fun plan : ReplayPlan => plan.validate = .ok ()) (8 * 1024 * 1024)
      (ReplayPlan.encode sha256) (ReplayPlan.decode sha256) ∧
    Canonical (fun plan : TransferPlan => plan.validate sha256 = .ok ()) (16 * 1024 * 1024)
      (TransferPlan.encode sha256) (TransferPlan.decode sha256) ∧
    Canonical (fun plan : DltReplayPlan => plan.validate sha256 = .ok ()) (16 * 1024 * 1024)
      (DltReplayPlan.encode sha256) (DltReplayPlan.decode sha256) :=
  ⟨ReplayPlan.canonical sha256, TransferPlan.canonical sha256, DltReplayPlan.canonical sha256⟩

/-- A plan for two partitions. -/
def orders (pipelineFingerprint : String) : ReplayPlan where
  taskId := "rebuild-orders"
  sourceId := "primary"
  clusterId := "lkc-1"
  topicGenerations := Dict.insert ∅ "orders" "g1"
  pipelineFingerprint := pipelineFingerprint
  limits := ⟨0, 0, 100, 65536, 4⟩
  ranges := [⟨"orders", 0, 100, 250, 100⟩, ⟨"orders", 1, 0, 40, 0⟩]

/-- Both partitions go to one partition of another cluster, which has a second one. -/
def copySpec : TransferSpec where
  target := ⟨"mirror", "lkc-2", "copy", Dict.insert ∅ "copies" "g7", [⟨"copies", 0⟩, ⟨"copies", 1⟩]⟩
  routes := [⟨⟨"orders", 0⟩, ⟨"copies", 0⟩⟩, ⟨⟨"orders", 1⟩, ⟨"copies", 0⟩⟩]
  payloadPolicy := .opaquePayload
  maxHops := 3

/-- The same as a dead-letter replay, with the second partition for invalid records. -/
def retrySpec : DltReplaySpec where
  transfer := copySpec
  originGroups := ["billing", "shipping"]
  invalidPolicy := .quarantine ⟨"copies", 1⟩

def copyOrders : TransferPlan where
  replay := orders (hex (ReplayCheckpoint.checksum.digest copySpec.write))
  spec := copySpec

def retryOrders : DltReplayPlan where
  replay := orders (hex (ReplayCheckpoint.checksum.digest retrySpec.write))
  spec := retrySpec

theorem plans_canonical_orders :
    (∃ bytes, copyOrders.replay.encode ReplayCheckpoint.checksum = .ok bytes ∧
      ReplayPlan.decode ReplayCheckpoint.checksum bytes = .ok copyOrders.replay) ∧
    (∃ bytes, copyOrders.encode ReplayCheckpoint.checksum = .ok bytes ∧
      TransferPlan.decode ReplayCheckpoint.checksum bytes = .ok copyOrders) ∧
    ∃ bytes, retryOrders.encode ReplayCheckpoint.checksum = .ok bytes ∧
      DltReplayPlan.decode ReplayCheckpoint.checksum bytes = .ok retryOrders := by
  obtain ⟨hrepl, htrans, hdlt⟩ := plans_canonical ReplayCheckpoint.checksum
  obtain ⟨replay, henc, -, hdec⟩ := hrepl.restores copyOrders.replay (by decide +kernel)
  obtain ⟨transfer, henc', -, hdec'⟩ := htrans.restores copyOrders (by decide +kernel)
  obtain ⟨dlt, henc'', -, hdec''⟩ := hdlt.restores retryOrders (by decide +kernel)
  exact ⟨⟨replay, henc, hdec⟩, ⟨transfer, henc', hdec'⟩, ⟨dlt, henc'', hdec''⟩⟩

end NasaRuntime.Nafka
