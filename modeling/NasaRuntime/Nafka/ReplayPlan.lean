import Mathlib.Data.List.Sort
import NasaRuntime.Lib.Codec
import NasaRuntime.Nafka.Types

/-!
# Checkpoints and replay plans

A replay task goes through frozen ranges of partitions. Its checkpoint has the contract of the task,
which never changes, the position in each range, and two counters: the generation of the owner and
the revision of the progress. The fields are public in the source, so a checkpoint need not be valid,
and every use of one begins with `validate`.

The wire form is a magic number, the fields in order, texts behind their lengths, numbers with the
most significant byte first, and the SHA-256 of all that. A count and a length are written after a
cast to the width of their field. `from_str_radix` also takes a sign, which `validate` has excluded.

The generation and the revision are `u64` in the source; `validate` keeps them within `i64`. The
width of partitions and offsets is checked nowhere, so these have the types of the source.

**Theorem (`wire_roundtrip`).** A valid checkpoint is encoded, and decoded as itself. Bytes that are
decoded are the encoding of the checkpoint they are decoded as, so no two byte strings are decoded as
the same one.

A replay plan freezes what a task reads: the source, the ranges of its partitions, the generation of
each topic, a fingerprint of the processing, and the limits. It is archived in a wire form of its own,
whose digest is also the contract of the checkpoints of the task.

The fields of a plan are public, so `encode` validates it. `decode` reads the fields and then compares
the encoding of what it has read with its input.

The limits are `u64` and `u32` values in the source; `validate` bounds them below that.
-/

namespace NasaRuntime.Nafka

inductive CheckpointError
  | invalidConfiguration | busy | contractMismatch | staleRevision | fenced
  | corrupt | io | outcomeUnknown | closed | capacity
deriving DecidableEq

/-- `u8::is_ascii_alphanumeric`. -/
def isAlphanumeric (b : UInt8) : Bool :=
  (48 ≤ b.toNat && b.toNat ≤ 57) || (65 ≤ b.toNat && b.toNat ≤ 90) ||
    (97 ≤ b.toNat && b.toNat ≤ 122)

/-- Letters, digits and `.`, `_`, `-`. -/
def identifierByte (b : UInt8) : Bool := isAlphanumeric b || b == 46 || b == 95 || b == 45

/-- `u8::is_ascii`. -/
def isAscii (b : UInt8) : Bool := b.toNat < 128

def validateTask (task : String) : Except CheckpointError Unit :=
  if utf8 task = [] ∨ 128 < (utf8 task).length ∨ !(utf8 task).head?.any isAlphanumeric ∨
      !(utf8 task).all identifierByte then throw .invalidConfiguration
  else return

/-! ## Positions -/

/-- A frozen range of a partition, and the next offset in it. -/
structure ReplayPosition where
  topic : String
  partition : Int32
  startOffset : Int64
  endOffset : Int64
  nextOffset : Int64
deriving DecidableEq

namespace ReplayPosition

/-- The topic and the partition, as they are compared. -/
def key (position : ReplayPosition) : String ×ₗ Int :=
  toLex (position.topic, position.partition.toInt)

def validate (position : ReplayPosition) : Except CheckpointError Unit :=
  if utf8 position.topic = [] ∨ 249 < (utf8 position.topic).length ∨ position.topic = "." ∨
      position.topic = ".." ∨ !(utf8 position.topic).all identifierByte ∨ position.partition < 0 ∨
      position.startOffset < 0 ∨ position.endOffset < position.startOffset ∨
      position.nextOffset < position.startOffset ∨ position.endOffset < position.nextOffset then
    throw .invalidConfiguration
  else return

def write (position : ReplayPosition) : Bytes :=
  Writer.text position.topic ++ Writer.int32 position.partition ++
    Writer.int64 position.startOffset ++ Writer.int64 position.endOffset ++
    Writer.int64 position.nextOffset

def read : Reader CheckpointError ReplayPosition := do
  let topic ← Reader.text .corrupt 249 isAscii false
  let partition ← Reader.int32 .corrupt
  let startOffset ← Reader.int64 .corrupt
  let endOffset ← Reader.int64 .corrupt
  let nextOffset ← Reader.int64 .corrupt
  return { topic, partition, startOffset, endOffset, nextOffset }

end ReplayPosition

/-! ## Checkpoints -/

structure ReplayCheckpoint where
  taskId : String
  contractFingerprint : String
  generation : ℕ
  revision : ℕ
  positions : List ReplayPosition
deriving DecidableEq

/-- `ReplayCheckpoint::MAX_PARTITIONS`. -/
def maxPartitions : ℕ := 4096

namespace ReplayCheckpoint

def validate (checkpoint : ReplayCheckpoint) : Except CheckpointError Unit := do
  validateTask checkpoint.taskId
  if (utf8 checkpoint.contractFingerprint).length ≠ 64 ∨
      !(utf8 checkpoint.contractFingerprint).all isHexDigit ∨
      i64Max < checkpoint.generation ∨ i64Max < checkpoint.revision ∨
      checkpoint.positions = [] ∨ maxPartitions < checkpoint.positions.length then
    throw .invalidConfiguration
  else do
    checkpoint.positions.forM ReplayPosition.validate
    if (checkpoint.positions.zip checkpoint.positions.tail).any fun pair =>
        pair.2.key ≤ pair.1.key then throw .invalidConfiguration
    else return

def new (taskId contractFingerprint : String) (generation revision : ℕ)
    (positions : List ReplayPosition) : Except CheckpointError ReplayCheckpoint := do
  let positions := positions.insertionSort fun left right => left.key ≤ right.key
  let checkpoint : ReplayCheckpoint :=
    { taskId, contractFingerprint, generation, revision, positions }
  checkpoint.validate
  return checkpoint

/-- The range of a position is frozen; the next offset is not. -/
def sameRange (left right : ReplayPosition) : Bool :=
  left.topic = right.topic && left.partition = right.partition &&
    left.startOffset = right.startOffset && left.endOffset = right.endOffset

def sameContract (self other : ReplayCheckpoint) : Bool :=
  self.validate.isOk && other.validate.isOk && self.taskId = other.taskId &&
    self.contractFingerprint = other.contractFingerprint &&
    self.positions.length = other.positions.length &&
    (self.positions.zip other.positions).all fun pair => sameRange pair.1 pair.2

def increment (value : ℕ) : Except CheckpointError ℕ :=
  if i64Max ≤ value then throw .capacity else return value + 1

/-! ## The wire form -/

/-- `MAX_BYTES`. -/
def maxBytes : ℕ := 2 * 1024 * 1024

/-- `NSKCP001`. -/
def magic : Bytes := utf8 "NSKCP001"

/-- The body of the wire form, with the bytes of the fingerprint. -/
def write (checkpoint : ReplayCheckpoint) (fingerprint : Bytes) : Bytes :=
  magic ++ Writer.text checkpoint.taskId ++ fingerprint ++ be 8 checkpoint.generation ++
    be 8 checkpoint.revision ++ be 4 (checkpoint.positions.length % 2 ^ 32) ++
    checkpoint.positions.flatMap ReplayPosition.write

def encode (sha256 : Sealing) (checkpoint : ReplayCheckpoint) : Except CheckpointError Bytes := do
  checkpoint.validate
  match unhex (utf8 checkpoint.contractFingerprint) with
  | none => throw .invalidConfiguration
  | some fingerprint =>
    let bytes := sha256.close (checkpoint.write fingerprint)
    if maxBytes < bytes.length then throw .capacity else return bytes

/-- The reads of `decode` from the payload. -/
def read : Reader CheckpointError ReplayCheckpoint := do
  let found ← Reader.take .corrupt 8
  if found ≠ magic then throw .corrupt
  else do
    let taskId ← Reader.text .corrupt 128 isAscii false
    let contractFingerprint ← hex <$> Reader.take .corrupt 32
    let generation ← Reader.nat .corrupt 8
    let revision ← Reader.nat .corrupt 8
    let count ← Reader.nat .corrupt 4
    if count = 0 ∨ maxPartitions < count then throw .corrupt
    else do
      let positions ← Reader.replicate ReplayPosition.read count
      return { taskId, contractFingerprint, generation, revision, positions }

def decode (sha256 : Sealing) (bytes : Bytes) : Except CheckpointError ReplayCheckpoint :=
  if maxBytes < bytes.length ∨ bytes.length < 8 + 2 + 1 + 32 + 16 + 4 + 32 then throw .corrupt
  else
    match sha256.open? bytes with
    | none => throw .corrupt
    | some payload => do
      let (checkpoint, rest) ← read payload
      match checkpoint.validate with
      | .error _ => throw .corrupt
      | .ok () => if rest ≠ [] then throw .corrupt else return checkpoint

end ReplayCheckpoint

open Reads ReplayPosition

/-! ## What validation bounds -/

theorem isAscii_of_identifierByte {b : UInt8} (h : identifierByte b = true) : isAscii b = true := by
  simp only [identifierByte, isAlphanumeric, Bool.or_eq_true, Bool.and_eq_true, decide_eq_true_eq,
    beq_iff_eq] at h
  simp only [isAscii, decide_eq_true_eq]
  rcases h with ((h | rfl) | rfl) | rfl
  · omega
  · decide
  · decide
  · decide

theorem text_of_validateTask {task : String} (h : validateTask task = .ok ()) :
    Text 128 isAscii false task := by
  simp only [validateTask, check_eq_ok, not_or] at h
  obtain ⟨⟨hne, hle, -, hall⟩, -⟩ := h
  have hpos : 0 < (utf8 task).length := List.length_pos_iff.2 hne
  exact Text.mono ⟨.inr hpos, by omega, by simpa using hall⟩ fun _ => isAscii_of_identifierByte

variable {position : ReplayPosition}

theorem ReplayPosition.text_of_validate
    (h : position.validate = .ok ()) : Text 249 identifierByte false position.topic := by
  simp only [ReplayPosition.validate, check_eq_ok, not_or] at h
  obtain ⟨⟨hne, hle, -, -, hall, -⟩, -⟩ := h
  have hpos : 0 < (utf8 position.topic).length := List.length_pos_iff.2 hne
  exact ⟨.inr hpos, by omega, by simpa using hall⟩

namespace ReplayCheckpoint

variable {checkpoint : ReplayCheckpoint} {sha256 : Sealing} {bytes : Bytes}

/-- A text of 32 bytes in hexadecimal digits. -/
def Fingerprint (s : String) : Prop := (utf8 s).length = 64 ∧ (utf8 s).all isHexDigit = true

/-- The checkpoints that the reader can return. -/
structure Fits (checkpoint : ReplayCheckpoint) : Prop where
  task : Text 128 isAscii false checkpoint.taskId
  fingerprint : Fingerprint checkpoint.contractFingerprint
  generation : checkpoint.generation < 256 ^ 8
  revision : checkpoint.revision < 256 ^ 8
  positions_pos : 0 < checkpoint.positions.length
  positions_le : checkpoint.positions.length ≤ maxPartitions
  positions : ∀ position ∈ checkpoint.positions, Text 249 isAscii false position.topic

theorem fits_of_validate (h : checkpoint.validate = .ok ()) : checkpoint.Fits := by
  simp only [validate, then_eq_ok, check_eq_ok, List.forM_eq_forM, forM_eq_ok, not_or] at h
  obtain ⟨htask, ⟨hlen, hdig, hgen, hrev, hne, hle⟩, hpos, -⟩ := h
  unfold i64Max at hgen hrev
  constructor
  · exact text_of_validateTask htask
  · exact ⟨by omega, by simpa using hdig⟩
  · omega
  · omega
  · exact List.length_pos_iff.2 hne
  · omega
  · intro position hmem
    exact Text.mono (text_of_validate (hpos position hmem)) fun _ => isAscii_of_identifierByte

/-! ## The reader and the writer -/

theorem reads_position :
    Reads ReplayPosition.read ReplayPosition.write fun position =>
      Text 249 isAscii false position.topic := by
  unfold ReplayPosition.read ReplayPosition.write
  simp only [List.append_assoc]
  refine (text (by decide)).bind topic (fun _ h => h) fun topic htop => ?_
  refine int32.bind partition (fun _ _ => trivial) fun partition _ => ?_
  refine int64.bind startOffset (fun _ _ => trivial) fun start _ => ?_
  refine int64.bind endOffset (fun _ _ => trivial) fun stop _ => ?_
  refine int64.last nextOffset (fun _ _ => trivial) fun next _ => ?_
  refine pure fun position => ?_
  constructor
  · rintro ⟨⟨⟨⟨⟨-, rfl⟩, rfl⟩, rfl⟩, rfl⟩, rfl⟩
    rfl
  · rintro rfl
    exact ⟨⟨⟨⟨⟨htop, rfl⟩, rfl⟩, rfl⟩, rfl⟩, rfl⟩

/-- The bytes of a fingerprint. -/
def rawFingerprint (s : String) : Bytes := (unhex (utf8 s)).getD []

theorem reads_fingerprint {ε : Type} {bad : ε} :
    Reads (hex <$> Reader.take bad 32) rawFingerprint Fingerprint := by
  refine (take 32).map hex rawFingerprint ?_ ?_
  · rintro s ⟨hlen, hdig⟩
    obtain ⟨raw, hraw, hcnt, htext⟩ := hex_unhex (n := 32) hlen hdig
    simp only [rawFingerprint, hraw, Option.getD_some]
    exact ⟨hcnt, htext⟩
  · intro raw hraw
    have hlen : raw.length = 32 := hraw
    refine ⟨⟨by simp [hlen], isHexDigit_hex raw⟩, ?_⟩
    simp [rawFingerprint, unhex_hex]

theorem reads_checkpoint :
    Reads read (fun checkpoint => checkpoint.write (rawFingerprint checkpoint.contractFingerprint))
      Fits := by
  unfold read write
  simp only [List.append_assoc]
  refine (take 8).bind (fun _ => magic) (fun _ _ => by decide) fun found _ => ?_
  refine guard (fun _ h => not_not.2 h.2.symm) fun hfnd => ?_
  refine (text (by decide)).bind taskId (fun _ h => h.1.task) fun task htask => ?_
  refine reads_fingerprint.bind contractFingerprint (fun _ h => h.1.1.fingerprint)
    fun fingerprint hfp => ?_
  refine (nat 8).bind generation (fun _ h => h.1.1.1.generation) fun gen hgen => ?_
  refine (nat 8).bind revision (fun _ h => h.1.1.1.1.revision) fun rev hrev => ?_
  refine (nat 4).bind (fun checkpoint : ReplayCheckpoint =>
    checkpoint.positions.length % 2 ^ 32) (fun _ _ => Nat.mod_lt _ (by decide)) fun count _ => ?_
  have hcut : ∀ checkpoint : ReplayCheckpoint, checkpoint.Fits →
      checkpoint.positions.length % 2 ^ 32 = checkpoint.positions.length := fun checkpoint h =>
    Nat.mod_eq_of_lt (h.positions_le.trans_lt (by decide))
  refine guard ?_ fun hcnt => ?_
  · rintro checkpoint ⟨⟨⟨⟨⟨⟨hfits, -⟩, -⟩, -⟩, -⟩, -⟩, rfl⟩
    rw [hcut checkpoint hfits]
    have hpos := hfits.positions_pos
    have hle := hfits.positions_le
    omega
  refine (reads_position.replicate count).last positions ?_ fun ps hps => ?_
  · rintro checkpoint ⟨⟨⟨⟨⟨⟨hfits, -⟩, -⟩, -⟩, -⟩, -⟩, rfl⟩
    exact ⟨(hcut checkpoint hfits).symm, hfits.positions⟩
  refine pure fun checkpoint => ?_
  constructor
  · rintro ⟨⟨⟨⟨⟨⟨⟨-, -⟩, rfl⟩, rfl⟩, rfl⟩, rfl⟩, -⟩, rfl⟩
    rfl
  · rintro rfl
    have hfits : Fits ⟨task, fingerprint, gen, rev, ps⟩ := by
      obtain ⟨hlen, htop⟩ := hps
      constructor
      · exact htask
      · exact hfp
      · exact hgen
      · exact hrev
      · show 0 < ps.length
        omega
      · show ps.length ≤ maxPartitions
        omega
      · exact htop
    exact ⟨⟨⟨⟨⟨⟨⟨hfits, (not_not.1 hfnd).symm⟩, rfl⟩, rfl⟩, rfl⟩, rfl⟩,
      (hcut _ hfits).trans hps.1⟩, rfl⟩

/-! ## Lengths -/

theorem length_position_le (h : Text 249 isAscii false position.topic) :
    position.write.length ≤ 279 := by
  have := h.2.1
  simp only [ReplayPosition.write, List.length_append, Writer.length_text, Writer.length_int32,
    Writer.length_int64]
  omega

theorem length_write {raw : Bytes} (h : checkpoint.Fits) (hraw : raw.length = 32) :
    63 ≤ (checkpoint.write raw).length ∧ (checkpoint.write raw).length + 32 ≤ maxBytes := by
  have hmag : magic.length = 8 := by decide
  have htask := h.task
  have hposi : (checkpoint.positions.flatMap ReplayPosition.write).length ≤
      checkpoint.positions.length * 279 :=
    length_flatMap_le fun position hmem => length_position_le (h.positions position hmem)
  have hmax : checkpoint.positions.length * 279 ≤ 4096 * 279 :=
    Nat.mul_le_mul_right 279 h.positions_le
  unfold maxBytes
  simp only [write, List.length_append, Writer.length_text, length_be, hmag, hraw]
  have hpos := htask.pos
  have hle := htask.2.1
  omega

/-! ## The codec -/

/-- The bytes of a checkpoint. -/
def wire (sha256 : Sealing) (checkpoint : ReplayCheckpoint) : Bytes :=
  sha256.close (checkpoint.write (rawFingerprint checkpoint.contractFingerprint))

theorem length_rawFingerprint {s : String} (h : Fingerprint s) :
    unhex (utf8 s) = some (rawFingerprint s) ∧ (rawFingerprint s).length = 32 := by
  obtain ⟨raw, hraw, hcnt, -⟩ := hex_unhex (n := 32) h.1 h.2
  simp only [rawFingerprint, hraw, Option.getD_some, true_and]
  exact hcnt

/-- Validation is all that can fail. -/
theorem encode_eq_ok :
    checkpoint.encode sha256 = .ok bytes ↔
      checkpoint.validate = .ok () ∧ bytes = checkpoint.wire sha256 := by
  simp only [encode, then_eq_ok]
  refine and_congr_right fun hval => ?_
  have hfits := fits_of_validate hval
  obtain ⟨hraw, hlen⟩ := length_rawFingerprint hfits.fingerprint
  obtain ⟨-, hmax⟩ := length_write hfits hlen
  simp only [hraw, check_eq_ok, pure_eq_ok, Sealing.length_close, wire]
  constructor
  · rintro ⟨-, h⟩
    exact h.symm
  · intro h
    exact ⟨by omega, h.symm⟩

theorem decode_eq_ok :
    decode sha256 bytes = .ok checkpoint ↔
      checkpoint.validate = .ok () ∧ bytes = checkpoint.wire sha256 := by
  constructor
  · intro h
    simp only [decode, check_eq_ok] at h
    obtain ⟨-, h⟩ := h
    split at h
    · simp at h
    · rename_i payload hopen
      obtain ⟨⟨found, rest⟩, hread, h⟩ := bind_eq_ok.1 h
      simp only at h
      split at h
      · simp at h
      · rename_i hval
        simp only [check_eq_ok, not_not, pure_eq_ok] at h
        obtain ⟨rfl, rfl⟩ := h
        obtain ⟨-, hpayl⟩ := reads_checkpoint.eq_ok.1 hread
        refine ⟨hval, ?_⟩
        rw [Sealing.open_eq_some.1 hopen, hpayl, wire]
  · rintro ⟨hval, rfl⟩
    have hfits := fits_of_validate hval
    obtain ⟨-, hlen⟩ := length_rawFingerprint hfits.fingerprint
    obtain ⟨hmin, hmax⟩ := length_write hfits hlen
    have hopen : sha256.open? (checkpoint.wire sha256) = some _ := Sealing.open_eq_some.2 rfl
    have hread := reads_checkpoint.eq_ok.2 ⟨hfits, rfl⟩
    have hsize : ¬ (maxBytes < (checkpoint.wire sha256).length ∨
        (checkpoint.wire sha256).length < 8 + 2 + 1 + 32 + 16 + 4 + 32) := by
      simp only [wire, Sealing.length_close]
      omega
    simp only [decode, if_neg hsize, hopen]
    refine bind_eq_ok.2 ⟨_, hread, ?_⟩
    simp [hval]

/-- **The wire form.** -/
theorem wire_roundtrip (sha256 : Sealing) :
    (∀ checkpoint : ReplayCheckpoint, checkpoint.validate = .ok () →
      ∃ bytes, checkpoint.encode sha256 = .ok bytes ∧ decode sha256 bytes = .ok checkpoint) ∧
    (∀ bytes checkpoint, decode sha256 bytes = .ok checkpoint →
      checkpoint.encode sha256 = .ok bytes) ∧
    ∀ bytes bytes' checkpoint, decode sha256 bytes = .ok checkpoint →
      decode sha256 bytes' = .ok checkpoint → bytes = bytes' := by
  refine ⟨?_, ?_, ?_⟩
  · intro checkpoint hval
    exact ⟨_, encode_eq_ok.2 ⟨hval, rfl⟩, decode_eq_ok.2 ⟨hval, rfl⟩⟩
  · intro bytes checkpoint hdec
    exact encode_eq_ok.2 (decode_eq_ok.1 hdec)
  · intro bytes bytes' checkpoint hdec hdec'
    rw [(decode_eq_ok.1 hdec).2, (decode_eq_ok.1 hdec').2]

/-- A checkpoint of two partitions, in the middle of the first one. -/
def twoPartitions : ReplayCheckpoint where
  taskId := "rebuild-orders"
  contractFingerprint := hex (List.replicate 32 171)
  generation := 2
  revision := 7
  positions := [⟨"orders", 0, 100, 250, 180⟩, ⟨"orders", 1, 0, 40, 0⟩]

/-- The sum of the bytes, in the place of SHA-256. -/
def checksum : Sealing where
  digest bytes := be 32 (bytes.map (·.toNat)).sum
  length_digest _ := length_be _ _

theorem wire_roundtrip_twoPartitions :
    ∃ bytes, twoPartitions.encode checksum = .ok bytes ∧
      decode checksum bytes = .ok twoPartitions ∧
      ∀ bytes', decode checksum bytes' = .ok twoPartitions → bytes' = bytes := by
  obtain ⟨hround, hcan, hun⟩ := wire_roundtrip checksum
  obtain ⟨bytes, -, hdec⟩ := hround twoPartitions (by decide +kernel)
  exact ⟨bytes, hcan bytes _ hdec, hdec, fun bytes' hdec' => hun bytes' bytes _ hdec' hdec⟩

end ReplayCheckpoint

/-- The failures of planning. -/
inductive ReplayError
  | invalidConfiguration | corruptPlan
deriving DecidableEq

/-- A partition of a topic, with the width it has on the wire. -/
structure TopicPartition where
  topic : String
  partition : Int32
deriving DecidableEq

namespace TopicPartition

/-- The fields in the order in which they are compared. -/
def key (tp : TopicPartition) : String ×ₗ Int := toLex (tp.topic, tp.partition.toInt)

theorem key_injective : Function.Injective key := by
  intro tp tp' h
  cases tp
  cases tp'
  simpa [key, Int32.toInt_inj] using h

instance : LinearOrder TopicPartition := LinearOrder.lift' key key_injective

end TopicPartition

/-- Visible ASCII. -/
def isVisible (b : UInt8) : Bool := 33 ≤ b.toNat && b.toNat ≤ 126

/-- `token`: a text of visible ASCII. -/
def token {ε : Type} (bad : ε) (value : String) (maximum : ℕ) : Except ε Unit :=
  if utf8 value = [] ∨ maximum < (utf8 value).length ∨ !(utf8 value).all isVisible then throw bad
  else return

/-- Whether two lists of topics are the same set. -/
def sameTopics (left right : List String) : Bool :=
  left.all (· ∈ right) && right.all (· ∈ left)

/-- A pair of neighbours that is not in strictly increasing order. -/
def disordered {α β : Type} [LinearOrder β] (key : α → β) (l : List α) : Bool :=
  (l.zip l.tail).any fun pair => key pair.2 ≤ key pair.1

/-! ## Plans -/

structure ReplayLimits where
  recordsPerSecond : ℕ
  bytesPerSecond : ℕ
  maxInFlightRecords : ℕ
  maxInFlightBytes : ℕ
  concurrency : ℕ
deriving DecidableEq

def ReplayLimits.validate (limits : ReplayLimits) : Except ReplayError Unit :=
  if i64Max < limits.recordsPerSecond ∨ i64Max < limits.bytesPerSecond ∨
      limits.maxInFlightRecords = 0 ∨ 1000000 < limits.maxInFlightRecords ∨
      limits.maxInFlightBytes = 0 ∨ i64Max < limits.maxInFlightBytes ∨
      limits.concurrency = 0 ∨ 256 < limits.concurrency ∨
      limits.maxInFlightRecords < limits.concurrency then throw .invalidConfiguration
  else return

structure ReplayPlan where
  taskId : String
  sourceId : String
  clusterId : String
  topicGenerations : Dict String String
  pipelineFingerprint : String
  limits : ReplayLimits
  ranges : List ReplayPosition
deriving DecidableEq

/-- The topics of a dictionary of generations. -/
def generationTopics (generations : Dict String String) : List String :=
  generations.entries.map (·.1)

namespace ReplayPlan

def validate (plan : ReplayPlan) : Except ReplayError Unit := do
  token .invalidConfiguration plan.sourceId 128
  token .invalidConfiguration plan.clusterId 1024
  plan.limits.validate
  Except.mapError (fun _ => .invalidConfiguration) (ReplayCheckpoint.validate
    { taskId := plan.taskId
      contractFingerprint := plan.pipelineFingerprint
      generation := 0
      revision := 0
      positions := plan.ranges })
  if !sameTopics (plan.ranges.map (·.topic)) (generationTopics plan.topicGenerations) ∨
      plan.ranges.any fun range => range.nextOffset ≠ range.startOffset then
    throw .invalidConfiguration
  else plan.topicGenerations.entries.forM fun entry => token .invalidConfiguration entry.2 1024

/-! ## The wire form -/

/-- `ReplayPlan::MAX_ENCODED_BYTES`. -/
def maxEncodedBytes : ℕ := 8 * 1024 * 1024

/-- `NSKRPL01`. -/
def magic : Bytes := utf8 "NSKRPL01"

def writeGeneration (entry : String × String) : Bytes := Writer.text entry.1 ++ Writer.text entry.2

def writeRange (range : ReplayPosition) : Bytes :=
  Writer.text range.topic ++ Writer.int32 range.partition ++ Writer.int64 range.startOffset ++
    Writer.int64 range.endOffset

def writeLimits (limits : ReplayLimits) : Bytes :=
  be 8 limits.recordsPerSecond ++ be 8 limits.bytesPerSecond ++ be 4 limits.maxInFlightRecords ++
    be 8 limits.maxInFlightBytes ++ be 4 limits.concurrency

/-- The bytes of `payload`. -/
def write (plan : ReplayPlan) : Bytes :=
  magic ++ Writer.text plan.taskId ++ Writer.text plan.sourceId ++ Writer.text plan.clusterId ++
    Writer.text plan.pipelineFingerprint ++
    be 4 (plan.topicGenerations.entries.length % 2 ^ 32) ++
    plan.topicGenerations.entries.flatMap writeGeneration ++ writeLimits plan.limits ++
    be 4 (plan.ranges.length % 2 ^ 32) ++ plan.ranges.flatMap writeRange

def payload (plan : ReplayPlan) : Except ReplayError Bytes := do
  plan.validate
  return plan.write

def fingerprint (sha256 : Sealing) (plan : ReplayPlan) : Except ReplayError String := do
  let bytes ← plan.payload
  return hex (sha256.digest bytes)

def encode (sha256 : Sealing) (plan : ReplayPlan) : Except ReplayError Bytes := do
  let bytes ← plan.payload
  return sha256.close bytes

/-- `count`: a number of entries within the limit. -/
def readCount : Reader ReplayError ℕ := do
  let count ← Reader.nat .corruptPlan 4
  if count = 0 ∨ maxPartitions < count then throw .corruptPlan
  else return count

def readText (limit : ℕ) : Reader ReplayError String := Reader.text .corruptPlan limit isVisible false

/-- A topic and its generation. -/
def readGeneration {ε : Type} (bad : ε) : Reader ε (String × String) := do
  let topic ← Reader.text bad 249 isVisible false
  let generation ← Reader.text bad 1024 isVisible false
  return (topic, generation)

def readLimits : Reader ReplayError ReplayLimits := do
  let recordsPerSecond ← Reader.nat .corruptPlan 8
  let bytesPerSecond ← Reader.nat .corruptPlan 8
  let maxInFlightRecords ← Reader.nat .corruptPlan 4
  let maxInFlightBytes ← Reader.nat .corruptPlan 8
  let concurrency ← Reader.nat .corruptPlan 4
  return { recordsPerSecond, bytesPerSecond, maxInFlightRecords, maxInFlightBytes, concurrency }

def readRange : Reader ReplayError ReplayPosition := do
  let topic ← readText 249
  let partition ← Reader.int32 .corruptPlan
  let startOffset ← Reader.int64 .corruptPlan
  let endOffset ← Reader.int64 .corruptPlan
  return { topic, partition, startOffset, endOffset, nextOffset := startOffset }

/-- The reads of `decode` from the payload. -/
def read : Reader ReplayError ReplayPlan := do
  Reader.expect .corruptPlan magic
  let taskId ← readText 128
  let sourceId ← readText 128
  let clusterId ← readText 1024
  let pipelineFingerprint ← readText 64
  let topicCount ← readCount
  let topicGenerations ← Reader.entries .corruptPlan (readGeneration .corruptPlan) topicCount ∅
  let limits ← readLimits
  let rangeCount ← readCount
  let ranges ← Reader.replicate readRange rangeCount
  return { taskId, sourceId, clusterId, topicGenerations, pipelineFingerprint, limits, ranges }

def decode (sha256 : Sealing) (bytes : Bytes) : Except ReplayError ReplayPlan :=
  sha256.decode .corruptPlan 40 maxEncodedBytes (Reader.whole .corruptPlan read) (encode sha256) bytes

end ReplayPlan

open List ReplayLimits Restores

/-! ## Texts -/

variable {ε : Type} {b : UInt8} {entry : String × String}

theorem text_of_token {bad : ε} {value : String} {maximum : ℕ}
    (h : token bad value maximum = .ok ()) : Text maximum isVisible false value := by
  simp only [token, check_eq_ok, not_or] at h
  obtain ⟨⟨hne, hle, hall⟩, -⟩ := h
  exact ⟨.inr (length_pos_iff.2 hne), by omega, by simpa using hall⟩

theorem isVisible_of_identifierByte (h : identifierByte b = true) : isVisible b = true := by
  simp only [identifierByte, isAlphanumeric, Bool.or_eq_true, Bool.and_eq_true, decide_eq_true_eq,
    beq_iff_eq] at h
  simp only [isVisible, Bool.and_eq_true, decide_eq_true_eq]
  rcases h with ((h | rfl) | rfl) | rfl
  · omega
  · decide
  · decide
  · decide

theorem isVisible_of_isHexDigit (h : isHexDigit b = true) : isVisible b = true := by
  simp only [isHexDigit, Bool.or_eq_true, Bool.and_eq_true, decide_eq_true_eq] at h
  simp only [isVisible, Bool.and_eq_true, decide_eq_true_eq]
  omega

theorem visible_of_validateTask {task : String} (h : validateTask task = .ok ()) :
    Text 128 isVisible false task := by
  simp only [validateTask, check_eq_ok, not_or] at h
  obtain ⟨⟨hne, hle, -, hall⟩, -⟩ := h
  have htext : Text 128 identifierByte false task :=
    ⟨.inr (length_pos_iff.2 hne), by omega, by simpa using hall⟩
  exact htext.mono fun _ => isVisible_of_identifierByte

theorem visible_of_validate {position : ReplayPosition} (h : position.validate = .ok ()) :
    Text 249 isVisible false position.topic :=
  (text_of_validate h).mono fun _ => isVisible_of_identifierByte

/-! ## Topics and their generations -/

theorem count_mod {n : ℕ} (h : n ≤ 4096) : n % 2 ^ 32 = n :=
  Nat.mod_eq_of_lt (h.trans_lt (by decide))

variable {generations : Dict String String} {topics : List String}

theorem length_generations_le (h : sameTopics topics (generationTopics generations) = true) :
    generations.entries.length ≤ topics.length := by
  simp only [sameTopics, Bool.and_eq_true, all_eq_true, decide_eq_true_eq] at h
  have hnod : (generationTopics generations).Nodup := by
    have hsort := generations.sorted
    rw [generationTopics]
    exact pairwise_map.2 (hsort.imp fun hlt => hlt.ne)
  have hlen := (subperm_of_subset hnod h.2).length_le
  simpa [generationTopics] using hlen

theorem generations_pos
    (h : sameTopics topics (generationTopics generations) = true) (hpos : 0 < topics.length) :
    0 < generations.entries.length := by
  simp only [sameTopics, Bool.and_eq_true, all_eq_true, decide_eq_true_eq] at h
  have hmem := h.1 (topics.get ⟨0, hpos⟩) (get_mem _ _)
  have hlen := length_pos_of_mem hmem
  simpa [generationTopics] using hlen

theorem mem_topics_of_generation (h : sameTopics topics (generationTopics generations) = true)
    (hent : entry ∈ generations.entries) : entry.1 ∈ topics := by
  simp only [sameTopics, Bool.and_eq_true, all_eq_true, decide_eq_true_eq] at h
  exact h.2 entry.1 (mem_map_of_mem hent)

/-- Generations as they are written. -/
structure WritableGenerations (generations : Dict String String) : Prop where
  pos : 0 < generations.entries.length
  le : generations.entries.length ≤ 4096
  entries : ∀ entry ∈ generations.entries,
    Text 249 isVisible false entry.1 ∧ Text 1024 isVisible false entry.2

theorem length_generations_write_le (h : WritableGenerations generations) :
    (generations.entries.flatMap ReplayPlan.writeGeneration).length ≤ 4096 * 1277 := by
  refine (length_flatMap_le fun entry hent => ?_).trans (Nat.mul_le_mul_right 1277 h.le)
  have htop := (h.entries entry hent).1.2.1
  have hgen := (h.entries entry hent).2.2.1
  simp only [ReplayPlan.writeGeneration, length_append, Writer.length_text]
  omega

namespace ReplayPlan

variable {plan : ReplayPlan} {sha256 : Sealing} {bytes : Bytes}

/-! ## What validation bounds -/

/-- The plans that the reader restores. -/
structure Fits (plan : ReplayPlan) : Prop where
  task : Text 128 isVisible false plan.taskId
  source : Text 128 isVisible false plan.sourceId
  cluster : Text 1024 isVisible false plan.clusterId
  fingerprint : Text 64 isVisible false plan.pipelineFingerprint
  generations : WritableGenerations plan.topicGenerations
  recordsPerSecond : plan.limits.recordsPerSecond < 256 ^ 8
  bytesPerSecond : plan.limits.bytesPerSecond < 256 ^ 8
  maxInFlightRecords : plan.limits.maxInFlightRecords < 256 ^ 4
  maxInFlightBytes : plan.limits.maxInFlightBytes < 256 ^ 8
  concurrency : plan.limits.concurrency < 256 ^ 4
  ranges_pos : 0 < plan.ranges.length
  ranges_le : plan.ranges.length ≤ 4096
  ranges : ∀ range ∈ plan.ranges,
    Text 249 isVisible false range.topic ∧ range.nextOffset = range.startOffset

theorem fits_of_validate (h : plan.validate = .ok ()) : plan.Fits := by
  simp only [validate, ReplayLimits.validate, ReplayCheckpoint.validate, mapError_eq_ok, then_eq_ok,
    check_eq_ok, forM_eq_forM, forM_eq_ok, not_or] at h
  obtain ⟨hsrc, hclust, ⟨hlim, -⟩, ⟨htask, hcont, hposi, -⟩, ⟨htopi, hnext⟩, hgens⟩ := h
  obtain ⟨hlen, hdig, -, -, hne, hle⟩ := hcont
  obtain ⟨hrec, hby, -, hflight, -, hfligh, -, hconc, -⟩ := hlim
  have hsame : sameTopics (plan.ranges.map (·.topic)) (generationTopics plan.topicGenerations) =
      true := by simpa using htopi
  have hpos : 0 < plan.ranges.length := length_pos_iff.2 hne
  have hmax : plan.ranges.length ≤ 4096 := by simpa [maxPartitions] using hle
  have htop : ∀ range ∈ plan.ranges, Text 249 isVisible false range.topic := fun range hrange =>
    visible_of_validate (hposi range hrange)
  unfold i64Max at hrec hby hfligh
  refine ⟨visible_of_validateTask htask, text_of_token hsrc, text_of_token hclust, ?_, ?_,
    by omega, by omega, by omega, by omega, by omega, hpos, hmax, ?_⟩
  · have hfp : Text 64 isHexDigit false plan.pipelineFingerprint :=
      ⟨.inr (by omega), by omega, by simpa using hdig⟩
    exact hfp.mono fun _ => isVisible_of_isHexDigit
  · refine ⟨generations_pos hsame (by simpa using hpos), ?_, ?_⟩
    · have hcnt := length_generations_le hsame
      rw [length_map] at hcnt
      omega
    · intro entry hent
      refine ⟨?_, text_of_token (hgens entry hent)⟩
      obtain ⟨range, hrange, htext⟩ := mem_map.1 (mem_topics_of_generation hsame hent)
      rw [← htext]
      exact htop range hrange
  · intro range hrange
    refine ⟨htop range hrange, ?_⟩
    simp only [any_eq_true, decide_eq_true_eq, not_exists, not_and, not_not] at hnext
    exact hnext range hrange

/-! ## The reader and the writer -/

theorem restores_text {limit : ℕ} (hlim : limit < 2 ^ 16) :
    Restores (readText limit) Writer.text (Text limit isVisible false) :=
  (text hlim).complete

theorem restores_count : Restores readCount (be 4) fun n => 0 < n ∧ n ≤ 4096 := by
  refine (nat 4).complete.last id ?_ fun count _ => ?_
  · intro n hn
    exact hn.2.trans_lt (by decide)
  refine guard ?_ (pure fun n hn => hn.2)
  intro n hn
  have hcnt : n = count := hn.2
  have hbounds := hn.1
  unfold maxPartitions
  omega

theorem restores_generation {bad : ε} :
    Restores (readGeneration bad) writeGeneration fun entry =>
      Text 249 isVisible false entry.1 ∧ Text 1024 isVisible false entry.2 := by
  refine (text (by decide)).complete.bind Prod.fst (fun _ h => h.1) fun topic _ => ?_
  refine (text (by decide)).complete.last Prod.snd (fun _ h => h.1.2) fun generation _ => ?_
  refine pure fun entry h => ?_
  exact Prod.ext h.1.2 h.2

theorem restores_range :
    Restores readRange writeRange fun range =>
      Text 249 isVisible false range.topic ∧ range.nextOffset = range.startOffset := by
  unfold readRange writeRange
  simp only [append_assoc]
  refine (restores_text (by decide)).bind ReplayPosition.topic (fun _ h => h.1) fun topic _ => ?_
  refine Reads.int32.complete.bind ReplayPosition.partition (fun _ _ => trivial) fun partition _ => ?_
  refine Reads.int64.complete.bind ReplayPosition.startOffset (fun _ _ => trivial) fun start _ => ?_
  refine Reads.int64.complete.last ReplayPosition.endOffset (fun _ _ => trivial) fun stop _ => ?_
  refine Restores.pure fun range h => ?_
  obtain ⟨⟨⟨⟨⟨-, hnext⟩, rfl⟩, rfl⟩, rfl⟩, rfl⟩ := h
  cases range
  simp only at hnext
  rw [hnext]

theorem restores_limits :
    Restores readLimits writeLimits fun limits =>
      limits.recordsPerSecond < 256 ^ 8 ∧ limits.bytesPerSecond < 256 ^ 8 ∧
      limits.maxInFlightRecords < 256 ^ 4 ∧ limits.maxInFlightBytes < 256 ^ 8 ∧
      limits.concurrency < 256 ^ 4 := by
  unfold readLimits writeLimits
  simp only [append_assoc]
  refine (nat 8).complete.bind recordsPerSecond (fun _ h => h.1) fun _ _ => ?_
  refine (nat 8).complete.bind bytesPerSecond (fun _ h => h.1.2.1) fun _ _ => ?_
  refine (nat 4).complete.bind maxInFlightRecords (fun _ h => h.1.1.2.2.1) fun _ _ => ?_
  refine (nat 8).complete.bind maxInFlightBytes (fun _ h => h.1.1.1.2.2.2.1) fun _ _ => ?_
  refine (nat 4).complete.last concurrency (fun _ h => h.1.1.1.1.2.2.2.2) fun _ _ => ?_
  refine pure fun limits h => ?_
  obtain ⟨⟨⟨⟨⟨-, rfl⟩, rfl⟩, rfl⟩, rfl⟩, rfl⟩ := h
  rfl

theorem restores_plan : Restores read write Fits := by
  unfold read write
  simp only [append_assoc]
  refine expect ?_
  refine (restores_text (by decide)).bind taskId (fun _ h => h.task) fun task _ => ?_
  refine (restores_text (by decide)).bind sourceId (fun _ h => h.1.source) fun source _ => ?_
  refine (restores_text (by decide)).bind clusterId (fun _ h => h.1.1.cluster) fun cluster _ => ?_
  refine (restores_text (by decide)).bind pipelineFingerprint (fun _ h => h.1.1.1.fingerprint)
    fun fingerprint _ => ?_
  refine restores_count.bind (fun plan : ReplayPlan => plan.topicGenerations.entries.length % 2 ^ 32)
    ?_ fun topicCount _ => ?_
  · intro plan h
    rw [count_mod h.1.1.1.1.generations.le]
    exact ⟨h.1.1.1.1.generations.pos, h.1.1.1.1.generations.le⟩
  refine (restores_generation.entries topicCount).bind topicGenerations ?_ fun generations _ => ?_
  · intro plan h
    have hgens := h.1.1.1.1.1.generations
    exact ⟨(count_mod hgens.le).symm.trans h.2, hgens.entries⟩
  refine restores_limits.bind limits ?_ fun limits _ => ?_
  · intro plan h
    have hfits := h.1.1.1.1.1.1
    exact ⟨hfits.recordsPerSecond, hfits.bytesPerSecond, hfits.maxInFlightRecords,
      hfits.maxInFlightBytes, hfits.concurrency⟩
  refine restores_count.bind (fun plan : ReplayPlan => plan.ranges.length % 2 ^ 32) ?_
    fun rangeCount _ => ?_
  · intro plan h
    have hfits := h.1.1.1.1.1.1.1
    rw [count_mod hfits.ranges_le]
    exact ⟨hfits.ranges_pos, hfits.ranges_le⟩
  refine (restores_range.replicate rangeCount).last ranges ?_ fun ranges _ => ?_
  · intro plan h
    have hfits := h.1.1.1.1.1.1.1.1
    exact ⟨(count_mod hfits.ranges_le).symm.trans h.2, hfits.ranges⟩
  refine pure fun plan h => ?_
  obtain ⟨⟨⟨⟨⟨⟨⟨⟨⟨-, rfl⟩, rfl⟩, rfl⟩, rfl⟩, -⟩, rfl⟩, rfl⟩, -⟩, rfl⟩ := h
  rfl

/-! ## Lengths -/

theorem length_write (h : plan.Fits) :
    8 ≤ plan.write.length ∧ plan.write.length ≤ 6342008 := by
  have hmag : magic.length = 8 := by decide
  have htask := h.task.2.1
  have hsrc := h.source.2.1
  have hclust := h.cluster.2.1
  have hfp := h.fingerprint.2.1
  have hgens := length_generations_write_le h.generations
  have hrang : (plan.ranges.flatMap writeRange).length ≤ 4096 * 271 := by
    refine (length_flatMap_le fun range hrange => ?_).trans (Nat.mul_le_mul_right 271 h.ranges_le)
    have := (h.ranges range hrange).1.2.1
    simp only [writeRange, length_append, Writer.length_text, Writer.length_int32,
      Writer.length_int64]
    omega
  simp only [write, writeLimits, length_append, Writer.length_text, length_be, hmag]
  omega

/-! ## The codec -/

theorem encode_eq_ok :
    plan.encode sha256 = .ok bytes ↔ plan.validate = .ok () ∧ bytes = sha256.close plan.write := by
  simp only [encode, payload, bind_eq_ok, pure_eq_ok]
  constructor
  · intro h
    obtain ⟨body, ⟨_, hval, rfl⟩, rfl⟩ := h
    exact ⟨hval, rfl⟩
  · intro h
    exact ⟨plan.write, ⟨(), h.1, rfl⟩, h.2.symm⟩

theorem length_encoding (sha256 : Sealing) (h : plan.validate = .ok ()) :
    40 ≤ (sha256.close plan.write).length ∧ (sha256.close plan.write).length ≤ maxEncodedBytes := by
  have hlen := length_write (fits_of_validate h)
  rw [Sealing.length_close, maxEncodedBytes]
  omega

/-- **Replay plans.** -/
theorem canonical (sha256 : Sealing) :
    Canonical (fun plan : ReplayPlan => plan.validate = .ok ()) maxEncodedBytes (encode sha256)
      (decode sha256) := by
  refine Sealing.canonical write (fun plan h => ?_) (fun plan h => ?_) fun plan h => ?_
  · exact encode_eq_ok.2 ⟨h, rfl⟩
  · exact restores_plan.whole (fits_of_validate h)
  · simpa using length_encoding sha256 h

theorem decode_close (h : plan.validate = .ok ()) :
    decode sha256 (sha256.close plan.write) = .ok plan := by
  obtain ⟨bytes, henc, -, hdec⟩ := (canonical sha256).restores plan h
  rwa [(encode_eq_ok.1 henc).2] at hdec

end ReplayPlan

end NasaRuntime.Nafka
