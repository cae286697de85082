import NasaRuntime.Lib.Run
import NasaRuntime.Nafka.ReplayPlan

/-!
# The checkpoint file of a task

A checkpoint is one file, which `rename` replaces as a whole. Whoever wants to move it claims it: takes
the lock of the file, reads what is there, and writes it back with the next generation. The lease that
`claim` returns keeps the lock until it is closed, and the checkpoint that it wrote last. Before a
lease writes it reads the file again; if that is not what it wrote last, or if a write fails, it is
*fenced* and does not write any more.

The machine is the file, the lock, and the *parties*: a party begins as a call of `claim` and goes on as
the lease. A call that reads the file and then replaces it is two steps, so other parties can go in
between, and a party can end between any two steps (`crash`, which is also the `drop` of a lease). A
crash in the middle of `persist` is a `persist` that fails and then a `crash`.

Two things are assumed. The lock is exclusive: it is taken if no party has it. And `rename` is atomic:
a `persist` that fails has replaced the file or has left it alone. That opening, reading, locking or
the clock fails is an input of the steps.

**Theorem (`file_fenced`).** Whenever the file differs from what it was at an earlier time, it has a
checkpoint of the same contract with a later generation and revision, and no partition has gone back
or left its range. A lease that is closed, superseded by a claim, or that failed to persist does not
change the file any more.
-/

namespace NasaRuntime.Nafka

/-- How the calls to the system end in `persist`: the clock is before the epoch, the file is written,
or one of the calls fails, before or after the file is renamed. -/
inductive Persisted
  | done | noClock | failed (renamed : Bool)
deriving DecidableEq

/-- The file is replaced. -/
def Persisted.renamed : Persisted → Bool
  | .done => true
  | .noClock => false
  | .failed renamed => renamed

/-- `FileCheckpointStore::persist`, with the file before and after it. -/
def persist (sha256 : Sealing) (outcome : Persisted) (checkpoint : ReplayCheckpoint)
    (file : Option Bytes) : Except CheckpointError Unit × Option Bytes :=
  match checkpoint.encode sha256 with
  | .error error => (.error error, file)
  | .ok bytes =>
    (match outcome with
      | .done => .ok ()
      | .noClock => .error .io
      | .failed _ => .error .outcomeUnknown,
    if outcome.renamed then some bytes else file)

/-- `load`. No more than one byte above the limit is read. -/
def load (sha256 : Sealing) (readable : Bool) (file : Option Bytes) (taskId : String) :
    Except CheckpointError (Option ReplayCheckpoint) := do
  validateTask taskId
  if !readable then throw .io
  else
    match file with
    | none => return none
    | some bytes => do
      let checkpoint ← ReplayCheckpoint.decode sha256 (bytes.take (ReplayCheckpoint.maxBytes + 1))
      if checkpoint.taskId ≠ taskId ∨ checkpoint.generation = 0 then throw .corrupt
      else return some checkpoint

/-! ## Claims -/

/-- What `claim` checks first: the declaration has no progress. -/
def declared (initial : ReplayCheckpoint) : Except CheckpointError Unit := do
  initial.validate
  if initial.generation ≠ 0 ∨ initial.revision ≠ 0 ∨
      initial.positions.any fun position => position.nextOffset ≠ position.startOffset then
    throw .invalidConfiguration
  else return

/-- `TaskLock::acquire`. The refusal is one that has another cause than the owner of the lock. -/
def acquire (owner : Option ℕ) (refusal : Option CheckpointError) : Except CheckpointError Unit :=
  match refusal with
  | some error => throw error
  | none => if owner.isSome then throw .busy else return

/-- The checkpoint that `claim` writes. -/
def renewed (sha256 : Sealing) (readable : Bool) (file : Option Bytes) (initial : ReplayCheckpoint) :
    Except CheckpointError ReplayCheckpoint := do
  match ← load sha256 readable file initial.taskId with
  | some previous =>
    if !initial.sameContract previous then throw .contractMismatch
    else do
      let generation ← ReplayCheckpoint.increment previous.generation
      let revision ← ReplayCheckpoint.increment previous.revision
      ReplayCheckpoint.new previous.taskId previous.contractFingerprint generation revision
        previous.positions
  | none => ReplayCheckpoint.new initial.taskId initial.contractFingerprint 1 0 initial.positions

/-! ## Leases -/

structure FileLease where
  /-- `task_lock` is there. -/
  taskLock : Bool
  current : ReplayCheckpoint
  fenced : Bool
deriving DecidableEq

namespace FileLease

def verify (sha256 : Sealing) (readable : Bool) (file : Option Bytes) (lease : FileLease) :
    Except CheckpointError Unit × FileLease :=
  if !lease.taskLock then (.error .closed, lease)
  else if lease.fenced then (.error .fenced, lease)
  else
    match load sha256 readable file lease.current.taskId with
    | .error error => (.error error, { lease with fenced := true })
    | .ok stored =>
      if stored = some lease.current then (.ok (), lease)
      else (.error .fenced, { lease with fenced := true })

/-- The checks of `advance` that do not look at the file, and the checkpoint it writes. -/
def following (lease : FileLease) (expectedRevision : ℕ) (positions : List ReplayPosition) :
    Except CheckpointError ReplayCheckpoint := do
  if !lease.taskLock then throw .closed
  else if lease.fenced then throw .fenced
  else if expectedRevision ≠ lease.current.revision then throw .staleRevision
  else do
    let revision ← ReplayCheckpoint.increment lease.current.revision
    let next ← ReplayCheckpoint.new lease.current.taskId lease.current.contractFingerprint
      lease.current.generation revision positions
    if !lease.current.sameContract next then throw .contractMismatch
    else if (lease.current.positions.zip next.positions).any fun pair =>
        pair.2.nextOffset < pair.1.nextOffset then throw .invalidConfiguration
    else return next

end FileLease

/-! ## The machine -/

/-- Where a party is. -/
inductive Party
  /-- It has not begun, or has ended. -/
  | absent
  /-- In `claim`, with the lock. -/
  | claiming (initial : ReplayCheckpoint)
  /-- In `claim`, before `persist`. -/
  | renewing (next : ReplayCheckpoint)
  /-- A lease that is not in a call. -/
  | holding (lease : FileLease)
  /-- A lease in `advance`, before `persist`. -/
  | advancing (lease : FileLease) (next : ReplayCheckpoint)
deriving DecidableEq

/-- The party has the lock. -/
def Party.locks : Party → Bool
  | .absent => false
  | .holding lease => lease.taskLock
  | _ => true

structure CheckpointFile where
  file : Option Bytes
  owner : Option ℕ
  parties : ℕ → Party
  issued : ℕ

inductive FileOp
  | claim (initial : ReplayCheckpoint) (refusal : Option CheckpointError)
  | load (party : ℕ) (readable : Bool)
  | advance (party expectedRevision : ℕ) (positions : List ReplayPosition) (readable : Bool)
  | persist (party : ℕ) (outcome : Persisted)
  | verify (party : ℕ) (readable : Bool)
  | close (party : ℕ) (unlocked : Bool)
  | crash (party : ℕ)

/-- The party whose step it is, if it has begun. -/
def FileOp.party : FileOp → Option ℕ
  | .claim _ _ => none
  | .load id _ | .advance id _ _ _ | .persist id _ | .verify id _ | .close id _ | .crash id => some id

namespace CheckpointFile

/-- No party has begun. -/
def init (file : Option Bytes) : CheckpointFile := ⟨file, none, fun _ => .absent, 0⟩

/-- A party begins, with the lock. -/
def enter (s : CheckpointFile) (initial : ReplayCheckpoint) : CheckpointFile :=
  { s with
    owner := some s.issued
    parties := Function.update s.parties s.issued (.claiming initial)
    issued := s.issued + 1 }

/-- A party goes on. The lock is free if the party had it and has it no more. -/
def become (s : CheckpointFile) (id : ℕ) (party : Party) : CheckpointFile :=
  { s with
    owner := if (s.parties id).locks && !party.locks then none else s.owner
    parties := Function.update s.parties id party }

/-- One step, and the error that the call of the party ends with, if it does. -/
def exec (sha256 : Sealing) (s : CheckpointFile) :
    FileOp → Except CheckpointError Unit × CheckpointFile
  | .claim initial refusal =>
    match (do declared initial; acquire s.owner refusal) with
    | .error error => (.error error, s)
    | .ok () => (.ok (), s.enter initial)
  | .load id readable =>
    match s.parties id with
    | .claiming initial =>
      match renewed sha256 readable s.file initial with
      | .error error => (.error error, s.become id .absent)
      | .ok next => (.ok (), s.become id (.renewing next))
    | _ => (.ok (), s)
  | .advance id expectedRevision positions readable =>
    match s.parties id with
    | .holding lease =>
      match lease.following expectedRevision positions with
      | .error error => (.error error, s)
      | .ok next =>
        match lease.verify sha256 readable s.file with
        | (.error error, lease) => (.error error, s.become id (.holding { lease with fenced := true }))
        | (.ok (), lease) => (.ok (), s.become id (.advancing lease next))
    | _ => (.ok (), s)
  | .persist id outcome =>
    match s.parties id with
    | .renewing next =>
      match persist sha256 outcome next s.file with
      | (.error error, file) => (.error error, become { s with file } id .absent)
      | (.ok (), file) => (.ok (), become { s with file } id (.holding ⟨true, next, false⟩))
    | .advancing lease next =>
      match persist sha256 outcome next s.file with
      | (.error error, file) =>
        (.error error, become { s with file } id (.holding { lease with fenced := true }))
      | (.ok (), file) =>
        (.ok (), become { s with file } id (.holding { lease with current := next }))
    | _ => (.ok (), s)
  | .verify id readable =>
    match s.parties id with
    | .holding lease =>
      ((lease.verify sha256 readable s.file).1,
        s.become id (.holding (lease.verify sha256 readable s.file).2))
    | _ => (.ok (), s)
  | .close id unlocked =>
    match s.parties id with
    | .holding lease =>
      (if lease.taskLock && !unlocked then .error .io else .ok (),
        s.become id (.holding { lease with taskLock := false }))
    | _ => (.ok (), s)
  | .crash id => (.ok (), s.become id .absent)

def step (sha256 : Sealing) (s : CheckpointFile) (op : FileOp) : CheckpointFile :=
  (s.exec sha256 op).2

/-- The state after the steps, from a file that is absent or has any content. -/
def run (sha256 : Sealing) (file : Option Bytes) (ops : List FileOp) : CheckpointFile :=
  runFrom (step sha256) (init file) ops

/-- The checkpoint in the file. -/
def persisted (sha256 : Sealing) (s : CheckpointFile) : Option ReplayCheckpoint :=
  s.file.bind fun bytes => (ReplayCheckpoint.decode sha256 bytes).toOption

end CheckpointFile

open CheckpointFile List Party

/-! ## Progress of checkpoints -/

/-- The range is the same, and the next offset is not before. -/
structure ReplayPosition.Forward (old new : ReplayPosition) : Prop where
  topic : new.topic = old.topic
  partition : new.partition = old.partition
  startOffset : new.startOffset = old.startOffset
  endOffset : new.endOffset = old.endOffset
  nextOffset : old.nextOffset ≤ new.nextOffset

theorem ReplayPosition.Forward.refl (position : ReplayPosition) : position.Forward position :=
  ⟨rfl, rfl, rfl, rfl, Int64.le_refl _⟩

theorem ReplayPosition.Forward.trans {old new last : ReplayPosition} (h : old.Forward new)
    (h' : new.Forward last) : old.Forward last :=
  ⟨h'.topic.trans h.topic, h'.partition.trans h.partition, h'.startOffset.trans h.startOffset,
    h'.endOffset.trans h.endOffset, Int64.le_trans h.nextOffset h'.nextOffset⟩

theorem forward_trans {old new last : List ReplayPosition}
    (h : List.Forall₂ ReplayPosition.Forward old new)
    (h' : List.Forall₂ ReplayPosition.Forward new last) :
    List.Forall₂ ReplayPosition.Forward old last := by
  induction h generalizing last with
  | nil => exact h'
  | cons hhead _ ih =>
    cases h' with
    | cons hhead' htail' => exact .cons (hhead.trans hhead') (ih htail')

variable {positions : List ReplayPosition} {taskId : String} {lease' : FileLease} {party : Party}

namespace ReplayCheckpoint

/-- A later checkpoint of the same contract, in which no partition has gone back. -/
structure Advances (old new : ReplayCheckpoint) : Prop where
  later : toLex (old.generation, old.revision) < toLex (new.generation, new.revision)
  taskId : new.taskId = old.taskId
  contractFingerprint : new.contractFingerprint = old.contractFingerprint
  positions : List.Forall₂ ReplayPosition.Forward old.positions new.positions

theorem Advances.trans {old new last : ReplayCheckpoint} (h : old.Advances new)
    (h' : new.Advances last) : old.Advances last :=
  ⟨h.later.trans h'.later, h'.taskId.trans h.taskId,
    h'.contractFingerprint.trans h.contractFingerprint, forward_trans h.positions h'.positions⟩

variable {checkpoint other : ReplayCheckpoint}

theorem inRange_of_validate (h : checkpoint.validate = .ok ()) :
    ∀ position ∈ checkpoint.positions, position.startOffset ≤ position.nextOffset ∧
      position.nextOffset ≤ position.endOffset := by
  simp only [validate, then_eq_ok, check_eq_ok, forM_eq_forM, forM_eq_ok] at h
  intro position hmem
  have hval := h.2.2.1 position hmem
  simp only [ReplayPosition.validate, check_eq_ok, not_or] at hval
  obtain ⟨⟨-, -, -, -, -, -, -, -, hstart, hend⟩, -⟩ := hval
  exact ⟨Int64.not_lt.1 hstart, Int64.not_lt.1 hend⟩

theorem sorted_of_validate (h : checkpoint.validate = .ok ()) :
    checkpoint.positions.insertionSort (fun left right => left.key ≤ right.key) =
      checkpoint.positions := by
  simp only [validate, then_eq_ok, check_eq_ok] at h
  have hneigh := h.2.2.2.1
  simp only [any_eq_true, decide_eq_true_eq, not_exists, not_and, not_le] at hneigh
  have hchain : ∀ l : List ReplayPosition, (∀ pair ∈ l.zip l.tail, pair.1.key < pair.2.key) →
      l.IsChain fun left right => left.key ≤ right.key := by
    intro l hl
    induction l with
    | nil => exact .nil
    | cons position l ih =>
      cases l with
      | nil => exact .singleton _
      | cons position' l =>
        refine .cons_cons (hl (position, position') (by simp)).le (ih fun pair hpair => ?_)
        exact hl pair (by simp_all)
  have htrans : IsTrans ReplayPosition fun left right => left.key ≤ right.key :=
    ⟨fun _ _ _ h h' => h.trans h'⟩
  exact List.Pairwise.insertionSort_eq (hchain _ hneigh).pairwise

theorem increment_eq_ok {value next : ℕ} : increment value = .ok next ↔
    value < i64Max ∧ next = value + 1 := by
  simp only [increment, check_eq_ok, pure_eq_ok, not_le]
  exact and_congr_right fun _ => eq_comm

theorem new_eq_ok {contractFingerprint : String} {generation revision : ℕ}
    (h : new taskId contractFingerprint generation revision positions = .ok checkpoint) :
    checkpoint.validate = .ok () ∧ checkpoint =
      { taskId, contractFingerprint, generation, revision,
        positions := positions.insertionSort fun left right => left.key ≤ right.key } := by
  simp only [new, then_eq_ok, pure_eq_ok] at h
  obtain ⟨hval, rfl⟩ := h
  exact ⟨hval, rfl⟩

end ReplayCheckpoint

/-! ## What is prepared follows the file -/

open ReplayCheckpoint (Advances)
open ReplayCheckpoint

variable {sha256 : Sealing} {file : Option Bytes} {readable : Bool} {next : ReplayCheckpoint}

/-- A checkpoint that may replace the content of the file. -/
structure Follows (sha256 : Sealing) (file : Option Bytes) (next : ReplayCheckpoint) : Prop where
  valid : next.validate = .ok ()
  advances : ∀ bytes, file = some bytes →
    ∃ old, decode sha256 bytes = .ok old ∧ old.Advances next

theorem load_eq_some {found : ReplayCheckpoint}
    (h : load sha256 readable file taskId = .ok (some found)) :
    ∃ bytes, file = some bytes ∧ decode sha256 bytes = .ok found := by
  simp only [load, then_eq_ok, check_eq_ok] at h
  obtain ⟨-, -, h⟩ := h
  cases file with
  | none => cases h
  | some bytes =>
    simp only [bind_eq_ok, check_eq_ok, pure_eq_ok, Option.some.injEq] at h
    obtain ⟨found, hdec, -, rfl⟩ := h
    refine ⟨bytes, rfl, ?_⟩
    by_cases hlen : bytes.length ≤ maxBytes + 1
    · rwa [take_of_length_le hlen] at hdec
    · -- what is too long is cut to a length that is still too long
      simp only [decode, check_eq_ok, length_take] at hdec
      omega

theorem load_eq_none (h : load sha256 readable file taskId = .ok none) : file = none := by
  simp only [load, then_eq_ok, check_eq_ok] at h
  obtain ⟨-, -, h⟩ := h
  cases file with
  | none => rfl
  | some bytes =>
    simp only [bind_eq_ok, check_eq_ok, pure_eq_ok] at h
    obtain ⟨_, _, _, hfnd⟩ := h
    cases hfnd

theorem follows_of_renewed {initial : ReplayCheckpoint}
    (h : renewed sha256 readable file initial = .ok next) : Follows sha256 file next := by
  obtain ⟨found, hload, hwrite⟩ := bind_eq_ok.1 h
  cases found with
  | none =>
    obtain rfl := load_eq_none hload
    refine ⟨(new_eq_ok hwrite).1, ?_⟩
    nofun
  | some previous =>
    obtain ⟨bytes, rfl, hdec⟩ := load_eq_some hload
    have hval := (decode_eq_ok.1 hdec).1
    simp only [check_eq_ok, bind_eq_ok, increment_eq_ok] at hwrite
    obtain ⟨-, generation, ⟨-, rfl⟩, revision, ⟨-, rfl⟩, hnew⟩ := hwrite
    obtain ⟨hnext, rfl⟩ := new_eq_ok hnew
    refine ⟨hnext, ?_⟩
    intro bytes' hby
    cases hby
    refine ⟨previous, hdec, ?_, rfl, rfl, ?_⟩
    · exact Prod.Lex.toLex_lt_toLex.2 (.inl (Nat.lt_succ_self _))
    · simp only [sorted_of_validate hval]
      exact forall₂_same.2 fun position _ => .refl position

namespace FileLease

variable {lease : FileLease}

theorem verify_eq_ok (h : lease.verify sha256 readable file = (.ok (), lease')) :
    lease' = lease ∧ lease.taskLock = true ∧ lease.fenced = false ∧
      ∃ bytes, file = some bytes ∧ decode sha256 bytes = .ok lease.current := by
  unfold verify at h
  split_ifs at h with hlock hfenc
  · cases h
  · cases h
  · cases hload : load sha256 readable file lease.current.taskId with
    | error error =>
      rw [hload] at h
      cases h
    | ok stored =>
      rw [hload] at h
      by_cases hstor : stored = some lease.current
      · simp only [if_pos hstor, Prod.mk.injEq, true_and] at h
        rw [hstor] at hload
        exact ⟨h.symm, by simpa using hlock, by simpa using hfenc, load_eq_some hload⟩
      · simp only [if_neg hstor, Prod.mk.injEq] at h
        cases h.1

theorem verify_keeps (lease : FileLease) (sha256 : Sealing) (readable : Bool) (file : Option Bytes) :
    (lease.verify sha256 readable file).2.taskLock = lease.taskLock ∧
      (lease.fenced = true → (lease.verify sha256 readable file).2.fenced = true) := by
  unfold verify
  split_ifs with hlock hfenc
  · exact ⟨rfl, fun h => h⟩
  · exact ⟨rfl, fun h => h⟩
  · split
    · exact ⟨rfl, fun _ => rfl⟩
    · split_ifs
      · exact ⟨rfl, fun h => h⟩
      · exact ⟨rfl, fun _ => rfl⟩

theorem follows_of_following {expectedRevision : ℕ}
    {bytes : Bytes} (h : lease.following expectedRevision positions = .ok next)
    (hdec : decode sha256 bytes = .ok lease.current) : Follows sha256 (some bytes) next := by
  simp only [following, check_eq_ok, bind_eq_ok, pure_eq_ok, increment_eq_ok] at h
  obtain ⟨-, -, -, revision, ⟨-, rfl⟩, found, hnew, hcont, hback, rfl⟩ := h
  obtain ⟨hval, hnext⟩ := new_eq_ok hnew
  refine ⟨hval, ?_⟩
  intro bytes' hby
  cases hby
  have hsame : lease.current.sameContract found = true := by simpa using hcont
  simp only [sameContract, Bool.and_eq_true, decide_eq_true_eq, all_eq_true] at hsame
  obtain ⟨⟨⟨⟨-, htask⟩, hcont⟩, hlen⟩, hrang⟩ := hsame
  refine ⟨lease.current, hdec, ?_, htask.symm, hcont.symm, ?_⟩
  · rw [hnext]
    exact Prod.Lex.toLex_lt_toLex.2 (.inr ⟨rfl, Nat.lt_succ_self _⟩)
  · refine forall₂_iff_zip.2 ⟨hlen, ?_⟩
    intro old new hpair
    have hrange := hrang _ hpair
    simp only [sameRange, Bool.and_eq_true, decide_eq_true_eq] at hrange
    obtain ⟨⟨⟨htop, hpart⟩, hstart⟩, hend⟩ := hrange
    simp only [any_eq_true, decide_eq_true_eq, not_exists, not_and] at hback
    have hnext' := hback (old, new) hpair
    exact ⟨htop.symm, hpart.symm, hstart.symm, hend.symm, Int64.not_lt.1 hnext'⟩

end FileLease

/-! ## What a step can do -/

/-- What a party is about to write. -/
def Party.pending : Party → Option ReplayCheckpoint
  | .renewing next => some next
  | .advancing _ next => some next
  | _ => none

/-- A party that will not write. -/
def Party.Idle : Party → Prop
  | .absent => True
  | .holding lease => lease.taskLock = false ∨ lease.fenced = true
  | _ => False

theorem Party.locks_of_pending (h : party.pending = some next) : party.locks = true := by
  cases party with
  | renewing next | advancing lease next => rfl
  | absent | claiming initial | holding lease => cases h

theorem Party.Idle.pending (h : party.Idle) : party.pending = none := by
  cases party with
  | absent | holding lease => rfl
  | claiming initial | renewing next | advancing lease next => cases h

theorem Party.idle_of_unlocked (h : party.locks = false) : party.Idle := by
  cases party with
  | absent => trivial
  | holding lease => exact .inl h
  | claiming initial | renewing next | advancing lease next => cases h

/-- The steps of a party, or of a new one. -/
inductive Change (sha256 : Sealing) (s : CheckpointFile) : Option ℕ → CheckpointFile → Prop
  | same (who : Option ℕ) : Change sha256 s who s
  | enter (initial : ReplayCheckpoint) (howner : s.owner = none) :
    Change sha256 s none (s.enter initial)
  /-- The party goes on, and keeps the lock at most. What it prepares follows the file. -/
  | become {id : ℕ} {party : Party} (hlocks : party.locks = true → (s.parties id).locks = true)
    (hpending : ∀ next, party.pending = some next → Follows sha256 s.file next)
    (hidle : (s.parties id).Idle → party.Idle) : Change sha256 s (some id) (s.become id party)
  /-- The party writes what it has prepared. -/
  | write {id : ℕ} {party : Party} {next : ReplayCheckpoint}
    (hpending : (s.parties id).pending = some next) (hparty : party.pending = none) :
    Change sha256 s (some id)
      (CheckpointFile.become { s with file := some (next.wire sha256) } id party)

namespace CheckpointFile

variable {s s' : CheckpointFile} {who : Option ℕ}
variable {id : ℕ}

theorem change_absent (id : ℕ) : Change sha256 s (some id) (s.become id .absent) := by
  refine .become ?_ ?_ fun _ => trivial
  · nofun
  · nofun

theorem change_holding {lease : FileLease} (hparty : s.parties id = .holding lease)
    (hlock : lease'.taskLock = true → lease.taskLock = true)
    (hfenc : lease.fenced = true → lease'.fenced = true) :
    Change sha256 s (some id) (s.become id (.holding lease')) := by
  refine .become ?_ ?_ ?_
  · rw [hparty]
    exact hlock
  · nofun
  · rw [hparty]
    intro hidle
    rcases hidle with hclos | hstopp
    · left
      cases hlock' : lease'.taskLock with
      | false => rfl
      | true =>
        rw [hlock hlock'] at hclos
        cases hclos
    · exact .inr (hfenc hstopp)

/-- `persist` leaves the file or replaces it, whatever it returns. -/
theorem change_persist {outcome : Persisted} {result : Except CheckpointError Unit}
    (hpers : persist sha256 outcome next s.file = (result, file))
    (hpending : (s.parties id).pending = some next) (hparty : party.pending = none) :
    Change sha256 s (some id) (become { s with file } id party) := by
  have hkept : Change sha256 s (some id) (s.become id party) := by
    refine .become ?_ ?_ ?_
    · intro _
      exact locks_of_pending hpending
    · intro next' h
      rw [hparty] at h
      cases h
    · intro hidle
      rw [hidle.pending] at hpending
      cases hpending
  cases henc : next.encode sha256 with
  | error error =>
    simp only [persist, henc, Prod.mk.injEq] at hpers
    rw [← hpers.2]
    exact hkept
  | ok bytes =>
    simp only [persist, henc, Prod.mk.injEq] at hpers
    rw [← hpers.2]
    by_cases hrenamed : outcome.renamed = true
    · rw [if_pos hrenamed, (encode_eq_ok.1 henc).2]
      exact .write hpending hparty
    · rw [if_neg hrenamed]
      exact hkept

theorem change_step (sha256 : Sealing) (s : CheckpointFile) (op : FileOp) :
    Change sha256 s op.party (s.step sha256 op) := by
  unfold step
  cases op with
  | claim initial refusal =>
    simp only [exec]
    split
    · exact .same none
    · rename_i hok
      refine .enter initial ?_
      simp only [then_eq_ok] at hok
      have hacq := hok.2
      cases refusal with
      | some error => cases hacq
      | none => simpa [acquire] using hacq
  | load id readable =>
    cases hparty : s.parties id with
    | claiming initial =>
      simp only [exec, hparty]
      cases hnext : renewed sha256 readable s.file initial with
      | error error => exact change_absent id
      | ok next =>
        refine .become ?_ ?_ ?_
        · intro _
          rw [hparty]
          rfl
        · intro next' h
          cases h
          exact follows_of_renewed hnext
        · rw [hparty]
          exact False.elim
    | _ => simpa only [exec, hparty] using .same _
  | advance id expectedRevision positions readable =>
    cases hparty : s.parties id with
    | holding lease =>
      simp only [exec, hparty]
      cases hnext : lease.following expectedRevision positions with
      | error error => exact .same _
      | ok next =>
        have hkeeps := lease.verify_keeps sha256 readable s.file
        cases hver : lease.verify sha256 readable s.file with
        | mk result lease' =>
          rw [hver] at hkeeps
          cases result with
          | error error =>
            exact change_holding hparty (fun h => hkeeps.1 ▸ h) fun _ => rfl
          | ok =>
            obtain ⟨rfl, hlock, hfenc, bytes, hfile, hdec⟩ := FileLease.verify_eq_ok hver
            refine .become ?_ ?_ ?_
            · rw [hparty]
              intro _
              exact hlock
            · intro next' h
              cases h
              rw [hfile]
              exact FileLease.follows_of_following hnext hdec
            · rw [hparty]
              intro hidle
              rcases hidle with hclos | hstopp
              · rw [hlock] at hclos
                cases hclos
              · rw [hfenc] at hstopp
                cases hstopp
    | _ => simpa only [exec, hparty] using .same _
  | persist id outcome =>
    cases hparty : s.parties id with
    | renewing next | advancing lease next =>
      have hpending : (s.parties id).pending = some next := congrArg pending hparty
      simp only [exec, hparty]
      cases hpers : persist sha256 outcome next s.file with
      | mk result file =>
        cases result with
        | error error | ok => exact change_persist hpers hpending rfl
    | _ => simpa only [exec, hparty] using .same _
  | verify id readable =>
    cases hparty : s.parties id with
    | holding lease =>
      simp only [exec, hparty]
      have hkeeps := lease.verify_keeps sha256 readable s.file
      exact change_holding hparty (fun h => hkeeps.1 ▸ h) hkeeps.2
    | _ => simpa only [exec, hparty] using .same _
  | close id unlocked =>
    cases hparty : s.parties id with
    | holding lease =>
      simp only [exec, hparty]
      refine change_holding hparty ?_ fun h => h
      intro h
      cases h
    | _ => simpa only [exec, hparty] using .same _
  | crash id => exact change_absent id

/-! ## The invariant -/

/-- The lock is exclusive, and what is prepared follows the file. -/
structure Guarded (sha256 : Sealing) (s : CheckpointFile) : Prop where
  exclusive : ∀ id, (s.parties id).locks = true → s.owner = some id
  prepared : ∀ id next, (s.parties id).pending = some next → Follows sha256 s.file next

theorem guarded_init (file : Option Bytes) : Guarded sha256 (init file) := by
  constructor
  · nofun
  · nofun

theorem Guarded.unique (h : Guarded sha256 s) {id id' : ℕ} (hid : (s.parties id).locks = true)
    (hid' : (s.parties id').locks = true) : id = id' := by
  have howner := h.exclusive id hid
  rw [h.exclusive id' hid'] at howner
  exact (Option.some.inj howner).symm

theorem Guarded.exclusive_become (h : Guarded sha256 s)
    (hlocks : party.locks = true → (s.parties id).locks = true) (id' : ℕ)
    (hid' : ((s.become id party).parties id').locks = true) :
    (s.become id party).owner = some id' := by
  by_cases heq : id' = id
  · subst heq
    have hparty : party.locks = true := by simpa [become] using hid'
    simpa [become, hparty] using h.exclusive id' (hlocks hparty)
  · have hother : (s.parties id').locks = true := by simpa [become, heq] using hid'
    have hfree : (s.parties id).locks = false := by
      cases hlock : (s.parties id).locks with
      | false => rfl
      | true => exact absurd (h.unique hother hlock) heq
    simpa [become, hfree] using h.exclusive id' hother

theorem Guarded.change (h : Guarded sha256 s) (hch : Change sha256 s who s') :
    Guarded sha256 s' := by
  cases hch with
  | same => exact h
  | enter initial howner =>
    have hfree : ∀ id, (s.parties id).locks = false := by
      intro id
      cases hlock : (s.parties id).locks with
      | false => rfl
      | true =>
        have hown := h.exclusive id hlock
        rw [howner] at hown
        cases hown
    constructor
    · intro id hid
      by_cases heq : id = s.issued
      · rw [heq]
        rfl
      · simp [enter, heq, hfree] at hid
    · intro id next hid
      by_cases heq : id = s.issued
      · simp [enter, heq, pending] at hid
      · exact h.prepared id next (by simpa [enter, heq] using hid)
  | @become id party hlocks hpending hidle =>
    refine ⟨h.exclusive_become hlocks, ?_⟩
    intro id' next hid'
    by_cases heq : id' = id
    · subst heq
      exact hpending next (by simpa [become] using hid')
    · exact h.prepared id' next (by simpa [become, heq] using hid')
  | @write id party next hpending hparty =>
    have hlock := locks_of_pending hpending
    refine ⟨fun id' hid' => h.exclusive_become (fun _ => hlock) id' hid', ?_⟩
    intro id' next' hid'
    by_cases heq : id' = id
    · subst heq
      simp [become, hparty] at hid'
    · -- another party with something prepared would have the lock as well
      have hother : (s.parties id').pending = some next' := by
        simpa [become, heq] using hid'
      exact absurd (h.unique (locks_of_pending hother) hlock) heq

/-- A step leaves the file, or replaces the content with one that follows it. -/
theorem Guarded.replaces (h : Guarded sha256 s) (hch : Change sha256 s who s') :
    s'.file = s.file ∨ ∃ next, s'.file = some (next.wire sha256) ∧ Follows sha256 s.file next := by
  cases hch with
  | same | enter initial howner | become hlocks hpending hidle => exact .inl rfl
  | write hpending hparty => exact .inr ⟨_, rfl, h.prepared _ _ hpending⟩

theorem guarded_run (file : Option Bytes) (ops : List FileOp) :
    Guarded sha256 (run sha256 file ops) :=
  inv_runFrom_all (fun s op h => h.change (change_step sha256 s op)) (guarded_init file) ops

theorem file_run_append (sha256 : Sealing) (file : Option Bytes) (ops rest : List FileOp) :
    (run sha256 file (ops ++ rest)).file = (run sha256 file ops).file ∨
      ∃ next, (run sha256 file (ops ++ rest)).file = some (next.wire sha256) ∧
        Follows sha256 (run sha256 file ops).file next := by
  rw [run, runFrom_append]
  refine runFrom_moved CheckpointFile.file
    (R := fun old new => ∃ next, new = some (next.wire sha256) ∧ Follows sha256 old next) ?_
    (fun s op h => h.change (change_step sha256 s op)) (fun s op h => h.replaces (change_step sha256 s op))
    (guarded_run file ops) rest
  intro old new last h h'
  obtain ⟨next, rfl, hnext⟩ := h
  obtain ⟨next', rfl, hnext'⟩ := h'
  refine ⟨next', rfl, hnext'.valid, ?_⟩
  intro bytes hby
  obtain ⟨first, hfirst, hadv⟩ := hnext.advances bytes hby
  obtain ⟨middle, hmidd, hadv'⟩ := hnext'.advances _ rfl
  rw [decode_eq_ok.2 ⟨hnext.valid, rfl⟩] at hmidd
  cases hmidd
  exact ⟨first, hfirst, hadv.trans hadv'⟩

/-! ## Parties that have stopped -/

theorem file_of_idle (hch : Change sha256 s (some id) s')
    (hidle : (s.parties id).Idle) : s'.file = s.file := by
  cases hch with
  | same | become hlocks hpending hidle => rfl
  | write hpending hparty =>
    rw [hidle.pending] at hpending
    cases hpending

theorem issued_le (hch : Change sha256 s who s') : s.issued ≤ s'.issued := by
  cases hch with
  | enter initial howner => exact Nat.le_succ _
  | same | become hlocks hpending hidle | write hpending hparty => exact le_rfl

theorem idle_change (hch : Change sha256 s who s') (hiss : id < s.issued)
    (hidle : (s.parties id).Idle) : (s'.parties id).Idle := by
  cases hch with
  | same => exact hidle
  | enter initial howner => simpa [enter, hiss.ne] using hidle
  | @become id' party hlocks hpending hkeeps =>
    by_cases heq : id = id'
    · subst heq
      simpa [become] using hkeeps hidle
    · simpa [become, heq] using hidle
  | @write id' party next hpending hparty =>
    by_cases heq : id = id'
    · subst heq
      rw [hidle.pending] at hpending
      cases hpending
    · simpa [become, heq] using hidle

/-- The steps after which a lease is not to write any more. -/
inductive Retires (s : CheckpointFile) : FileOp → ℕ → Prop
  | closed {id : ℕ} {lease : FileLease} (unlocked : Bool) (hlease : s.parties id = .holding lease) :
    Retires s (.close id unlocked) id
  /-- `persist` has failed in `advance`. -/
  | failed {id : ℕ} {lease : FileLease} {next : ReplayCheckpoint} {outcome : Persisted}
    (hlease : s.parties id = .advancing lease next) (houtcome : outcome ≠ .done) :
    Retires s (.persist id outcome) id
  /-- A later claim has replaced the file, and may have failed after that. -/
  | superseded {id claimant : ℕ} {next : ReplayCheckpoint} {outcome : Persisted}
    (hother : id ≠ claimant) (hclaim : s.parties claimant = .renewing next)
    (hrenamed : outcome.renamed = true) : Retires s (.persist claimant outcome) id

theorem Guarded.idle_of_retires (h : Guarded sha256 s) {op : FileOp}
    (hret : Retires s op id) : ((s.step sha256 op).parties id).Idle := by
  cases hret with
  | closed unlocked hlease =>
    simp only [step, exec, hlease, become, Function.update_self]
    exact .inl rfl
  | @failed id lease next outcome hlease houtcome =>
    simp only [step, exec, hlease]
    cases hpers : persist sha256 outcome next s.file with
    | mk result file =>
      cases result with
      | error error =>
        simp only [become, Function.update_self]
        exact .inr rfl
      | ok =>
        unfold persist at hpers
        split at hpers
        · cases hpers
        · cases outcome with
          | done => exact absurd rfl houtcome
          | noClock | failed renamed => cases hpers
  | @superseded id claimant next outcome hother hclaim hrenamed =>
    have hunl : (s.parties id).locks = false := by
      cases hlock : (s.parties id).locks with
      | false => rfl
      | true => exact absurd (h.unique hlock (by rw [hclaim]; rfl)) hother
    have hsame : (s.step sha256 (.persist claimant outcome)).parties id = s.parties id := by
      simp only [step, exec, hclaim]
      split
      · simp [become, hother]
      · simp [become, hother]
    rw [hsame]
    exact idle_of_unlocked hunl

/-- **The file goes forward, and only through the lease that has it.** -/
theorem file_fenced (sha256 : Sealing) (file : Option Bytes) (ops : List FileOp) :
    (∀ rest, (run sha256 file (ops ++ rest)).file ≠ (run sha256 file ops).file →
      ∃ new, (run sha256 file (ops ++ rest)).persisted sha256 = some new ∧
        (∀ position ∈ new.positions, position.startOffset ≤ position.nextOffset ∧
          position.nextOffset ≤ position.endOffset) ∧
        ((run sha256 file ops).file = none ∨
          ∃ old, (run sha256 file ops).persisted sha256 = some old ∧ old.Advances new)) ∧
    ∀ op id, id < (run sha256 file ops).issued → Retires (run sha256 file ops) op id →
      ∀ rest op', op'.party = some id →
        (run sha256 file (ops ++ op :: rest ++ [op'])).file =
          (run sha256 file (ops ++ op :: rest)).file := by
  constructor
  · intro rest hne
    obtain hsame | ⟨next, hnext, hfoll⟩ := file_run_append sha256 file ops rest
    · exact absurd hsame hne
    have hdec : decode sha256 (next.wire sha256) = .ok next := decode_eq_ok.2 ⟨hfoll.valid, rfl⟩
    refine ⟨next, ?_, inRange_of_validate hfoll.valid, ?_⟩
    · simp [persisted, hnext, hdec, Except.toOption]
    · cases hfile : (run sha256 file ops).file with
      | none => exact .inl rfl
      | some bytes =>
        obtain ⟨old, hold, hadv⟩ := hfoll.advances bytes hfile
        exact .inr ⟨old, by simp [persisted, hfile, hold, Except.toOption], hadv⟩
  · intro op id hiss hret rest op' hop'
    have hbeg := hiss.trans_le (issued_le (change_step sha256 (run sha256 file ops) op))
    have hidle := (guarded_run file ops).idle_of_retires hret
    have hlast : id < (run sha256 file (ops ++ op :: rest)).issued ∧
        ((run sha256 file (ops ++ op :: rest)).parties id).Idle := by
      rw [run, runFrom_append, runFrom_cons]
      refine inv_runFrom_all (I := fun s : CheckpointFile => id < s.issued ∧ (s.parties id).Idle) ?_
        ⟨hbeg, hidle⟩ rest
      intro s op h
      have hch := change_step sha256 s op
      exact ⟨h.1.trans_le (issued_le hch), idle_change hch h.1 h.2⟩
    rw [run, runFrom_append]
    have hch := change_step sha256 (run sha256 file (ops ++ op :: rest)) op'
    rw [hop'] at hch
    exact file_of_idle hch hlast.2

/-- A task of two partitions. -/
def twoRanges : ReplayCheckpoint where
  taskId := "rebuild-orders"
  contractFingerprint := hex (List.replicate 32 171)
  generation := 0
  revision := 0
  positions := [⟨"orders", 0, 100, 250, 100⟩, ⟨"orders", 1, 0, 40, 0⟩]

/-- The task after some records of the first partition. -/
def halfway : List ReplayPosition := [⟨"orders", 0, 100, 250, 180⟩, ⟨"orders", 1, 0, 40, 0⟩]

/-- The first lease is about to persist its progress. -/
def firstLease : List FileOp :=
  [.claim twoRanges none, .load 0 true, .persist 0 .done, .advance 0 0 halfway true]

/-- The first lease ends, and there is another one. -/
def secondLease : List FileOp :=
  [.close 0 true, .claim twoRanges none, .load 1 true, .persist 1 .done]

/-- The file is replaced but the first lease does not know. The second lease goes on from there, and
the first one does not write again. -/
theorem file_fenced_secondLease :
    (∃ old new, (run checksum none firstLease).persisted checksum =
        some old ∧
      (run checksum none
        (firstLease ++ .persist 0 (.failed true) :: secondLease)).persisted
          checksum = some new ∧ old.Advances new) ∧
    (run checksum none (firstLease ++ .persist 0 (.failed true) :: secondLease ++
        [.advance 0 0 halfway true])).file =
      (run checksum none
        (firstLease ++ .persist 0 (.failed true) :: secondLease)).file := by
  obtain ⟨hforw, hret⟩ := file_fenced checksum none firstLease
  constructor
  · obtain ⟨new, hnew, -, hold⟩ :=
      hforw (.persist 0 (.failed true) :: secondLease) (by decide +kernel)
    obtain ⟨old, hold, hadv⟩ := hold.resolve_left (by decide +kernel)
    exact ⟨old, new, hold, hnew, hadv⟩
  · have hparty : (run checksum none firstLease).parties 0 =
        .advancing ⟨true, { twoRanges with generation := 1 }, false⟩
          { twoRanges with generation := 1, revision := 1, positions := halfway } := by
      decide +kernel
    have hiss : 0 < (run checksum none firstLease).issued := by decide +kernel
    have hfail : Retires (run checksum none firstLease)
        (.persist 0 (.failed true)) 0 := .failed hparty (by decide)
    exact hret _ 0 hiss hfail secondLease (.advance 0 0 halfway true) rfl

end CheckpointFile

end NasaRuntime.Nafka
