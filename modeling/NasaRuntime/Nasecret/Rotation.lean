import Mathlib.Data.String.Basic
import NasaRuntime.Lib.Dict
import NasaRuntime.Lib.Run

/-!
# Prepared rotation of secrets

A store has a current snapshot of the secrets, and its participants publish resources that were
built from a snapshot. A rotation prepares the participants that its candidate affects, one after
the other, and commits them together. A step is a stretch of `rotate_prepared` between two awaits.

**Theorem (`rotation_agrees`).** In every run of requests, answers and cancellations each resource
agrees with the current snapshot on the secrets its participant watches, the prepared changes are
settled round by round, and only a rotation that succeeds changes anything.
-/

namespace NasaRuntime.Nasecret

/-- A fingerprint of secret material that tells any two apart. -/
structure Fingerprint (μ φ : Type) where
  of : μ → φ
  injective : Function.Injective of

structure SecretSnapshot (μ : Type) where
  generation : ℕ
  entries : Dict String μ

variable {μ φ : Type} [DecidableEq φ]

def SecretSnapshot.contains (s : SecretSnapshot μ) (id : String) : Bool :=
  (s.entries.get? id).isSome

/-- The secrets that are new, have other material or are gone. -/
def SecretSnapshot.changedIds (fingerprint : Fingerprint μ φ)
    (candidate previous : SecretSnapshot μ) : List String :=
  (candidate.entries.entries.filter fun entry =>
    (previous.entries.get? entry.1).map fingerprint.of ≠ some (fingerprint.of entry.2)).map (·.1) ++
  (previous.entries.entries.map (·.1)).filter fun id => !candidate.contains id

/-- A `RotatingSecretResource`. -/
structure Participant where
  id : String
  watchedIds : List String

def Participant.affected (p : Participant) (changed : List String) : Bool :=
  changed.any (· ∈ p.watchedIds)

def validId (value : String) : Bool :=
  value ≠ "" && value.utf8ByteSize ≤ 64 &&
    value.toList.all fun c => c.isAlphanum || c = '-' || c = '_' || c = '.'

inductive SecretRotationError
  | nonIncreasingGeneration (current candidate : ℕ)
  | invalidParticipantId
  | duplicateParticipant (id : String)
  | prepareFailed (participant error : String)

/-- The first loop of `rotate_prepared`. -/
def checkIds (seen : List String) : List String → Except SecretRotationError Unit
  | [] => .ok ()
  | id :: ids =>
    if !validId id then .error .invalidParticipantId
    else if id ∈ seen then .error (.duplicateParticipant id)
    else checkIds (id :: seen) ids

inductive Event
  | prepared (id : String)
  | committed (id : String)
  | aborted (id : String)

/-- The rotation that has the gate: who is to be prepared still, and who is in the batch. -/
structure Rotation (μ : Type) where
  candidate : SecretSnapshot μ
  changed : List String
  todo : List Participant
  batch : List String

/-- `built` is the snapshot that the published resource of a participant was built from. -/
structure Store (μ : Type) where
  current : SecretSnapshot μ
  built : String → SecretSnapshot μ
  rotation : Option (Rotation μ)
  log : List Event

def Store.new (initial : SecretSnapshot μ) : Store μ := ⟨initial, fun _ => initial, none, []⟩

/-- What a call of `rotate_prepared` returns in a step, if it returns. -/
abbrev Answer := Option (Except SecretRotationError (List String))

namespace Store

def commit (s : Store μ) (r : Rotation μ) : Store μ where
  current := r.candidate
  built id := if id ∈ r.batch then r.candidate else s.built id
  rotation := none
  log := s.log ++ r.batch.map .committed

/-- The batch is dropped. -/
def abort (s : Store μ) (r : Rotation μ) : Store μ :=
  { s with rotation := none, log := s.log ++ r.batch.reverse.map .aborted }

/-- The second loop, up to the next await. -/
def advance (s : Store μ) (r : Rotation μ) : Store μ × Answer :=
  match r.todo with
  | [] => (s.commit r, some (.ok r.changed))
  | p :: _ =>
    if p.watchedIds.any fun id => !r.candidate.contains id then
      (s.abort r, some (.error (.prepareFailed p.id "missing_watched_secret")))
    else ({ s with rotation := some r }, none)

end Store

/-- A request comes when its turn at the gate does, a factory answers, a rotation is cancelled. -/
inductive Input (μ : Type)
  | rotatePrepared (candidate : SecretSnapshot μ)
  | factory (answer : Except String Unit)
  | cancelled

variable (fingerprint : Fingerprint μ φ) (participants : List Participant)

def step (s : Store μ) : Input μ → Store μ × Answer
  | .rotatePrepared candidate =>
    match s.rotation with
    -- The gate is not free.
    | some _ => (s, none)
    | none =>
      if candidate.generation ≤ s.current.generation then
        (s, some (.error (.nonIncreasingGeneration s.current.generation candidate.generation)))
      else match checkIds [] (participants.map (·.id)) with
        | .error e => (s, some (.error e))
        | .ok () =>
          let changed := candidate.changedIds fingerprint s.current
          s.advance ⟨candidate, changed, participants.filter (·.affected changed), []⟩
  | .factory answer =>
    match s.rotation with
    | some r =>
      match r.todo, answer with
      | [], _ => (s, none)
      | p :: _, .error e => (s.abort r, some (.error (.prepareFailed p.id e)))
      | p :: todo, .ok () =>
        Store.advance { s with log := s.log ++ [.prepared p.id] }
          { r with todo := todo, batch := r.batch ++ [p.id] }
    | none => (s, none)
  | .cancelled =>
    match s.rotation with
    | some r => (s.abort r, none)
    | none => (s, none)

def run (initial : SecretSnapshot μ) (inputs : List (Input μ)) : Store μ :=
  runFrom (fun s input => (step fingerprint participants s input).1) (.new initial) inputs

variable {fingerprint participants} {s : Store μ} {r : Rotation μ}

theorem get?_of_not_changed {candidate previous : SecretSnapshot μ} {id : String}
    (h : id ∉ candidate.changedIds fingerprint previous) :
    candidate.entries.get? id = previous.entries.get? id := by
  simp only [SecretSnapshot.changedIds, List.mem_append, List.mem_map, List.mem_filter, not_or] at h
  cases hfnd : candidate.entries.get? id with
  | some new =>
    have hsame : (previous.entries.get? id).map fingerprint.of = some (fingerprint.of new) := by
      by_contra hne
      exact h.1 ⟨(id, new), ⟨Dict.get?_eq_some.1 hfnd, by simpa using hne⟩, rfl⟩
    obtain ⟨old, hold, heq⟩ := Option.map_eq_some_iff.1 hsame
    rw [hold, fingerprint.injective heq]
  | none =>
    cases hold : previous.entries.get? id with
    | none => rfl
    | some old =>
      exact absurd ⟨⟨(id, old), Dict.get?_eq_some.1 hold, rfl⟩,
        by simp [SecretSnapshot.contains, hfnd]⟩ h.2

/-- What the changes of one rotation go through: all are committed, or all are aborted. -/
def round (ids : List String) (committed : Bool) : List Event :=
  ids.map .prepared ++ if committed then ids.map .committed else ids.reverse.map .aborted

/-- The log of rotations that are over and of one whose batch is open. -/
def Logged (log : List Event) (batch : List String) : Prop :=
  ∃ rounds : List (List String × Bool),
    log = rounds.flatMap (fun r => round r.1 r.2) ++ batch.map .prepared

theorem Logged.close {log : List Event} {batch : List String} (h : Logged log batch)
    (committed : Bool) :
    Logged (log ++ if committed then batch.map .committed else batch.reverse.map .aborted) [] := by
  obtain ⟨rounds, rfl⟩ := h
  exact ⟨rounds ++ [(batch, committed)], by simp [round]⟩

def Agrees (participants : List Participant) (s : Store μ) : Prop :=
  ∀ p ∈ participants, ∀ id ∈ p.watchedIds,
    (s.built p.id).entries.get? id = s.current.entries.get? id

/-- A rotation that has the gate. -/
structure Rotates (fingerprint : Fingerprint μ φ) (participants : List Participant) (s : Store μ)
    (r : Rotation μ) : Prop where
  agrees : Agrees participants s
  newer : s.current.generation < r.candidate.generation
  changed : r.changed = r.candidate.changedIds fingerprint s.current
  due : r.batch ++ r.todo.map (·.id) =
    (participants.filter (·.affected r.changed)).map (·.id)
  logged : Logged s.log r.batch

/-- The invariant of the store. -/
structure Orderly (fingerprint : Fingerprint μ φ) (participants : List Participant)
    (s : Store μ) : Prop where
  agrees : Agrees participants s
  rotates : ∀ r, s.rotation = some r → Rotates fingerprint participants s r
  idle : s.rotation = none → Logged s.log []

/-- A call that succeeds raises the generation, and any other step changes no participant and not
the store. -/
def Settles (s : Store μ) (next : Store μ × Answer) : Prop :=
  match next.2 with
  | some (.ok _) => s.current.generation < next.1.current.generation
  | _ => next.1.current = s.current ∧ next.1.built = s.built

/-- What every step does. -/
structure Keeps (fingerprint : Fingerprint μ φ) (participants : List Participant) (s : Store μ)
    (next : Store μ × Answer) : Prop where
  orderly : Orderly fingerprint participants next.1
  settles : Settles s next

namespace Rotates

variable (h : Rotates fingerprint participants s r)
include h

theorem orderly_abort : Orderly fingerprint participants (s.abort r) :=
  ⟨h.agrees, by simp [Store.abort], fun _ => h.logged.close false⟩

theorem agrees_commit (htodo : r.todo = []) : Agrees participants (s.commit r) := by
  intro p hp id hid
  by_cases hbatch : p.id ∈ r.batch
  · simp [Store.commit, hbatch]
  have hun : p.affected r.changed = false := by
    by_contra haff
    refine hbatch ?_
    have hdue := h.due
    rw [htodo, List.map_nil, List.append_nil] at hdue
    rw [hdue]
    exact List.mem_map_of_mem (List.mem_filter.2 ⟨hp, by simpa using haff⟩)
  have hsame : id ∉ r.changed := fun hmem => by
    simpa [hid] using List.any_eq_false.1 hun id hmem
  rw [h.changed] at hsame
  calc ((s.commit r).built p.id).entries.get? id
      = (s.built p.id).entries.get? id := by simp [Store.commit, hbatch]
    _ = s.current.entries.get? id := h.agrees p hp id hid
    _ = r.candidate.entries.get? id := (get?_of_not_changed hsame).symm

theorem keeps_advance : Keeps fingerprint participants s (s.advance r) := by
  unfold Store.advance
  split
  · next htodo =>
    exact ⟨⟨h.agrees_commit htodo, by simp [Store.commit], fun _ => h.logged.close true⟩, h.newer⟩
  · split_ifs
    · exact ⟨h.orderly_abort, rfl, rfl⟩
    · refine ⟨⟨h.agrees, ?_, by simp⟩, rfl, rfl⟩
      rintro _ ⟨⟩
      exact { h with }

end Rotates

theorem keeps_step (h : Orderly fingerprint participants s) (input : Input μ) :
    Keeps fingerprint participants s (step fingerprint participants s input) := by
  have hsame : Keeps fingerprint participants s (s, none) := ⟨h, rfl, rfl⟩
  cases input with
  | rotatePrepared candidate =>
    simp only [step]
    split
    · exact hsame
    next hidle =>
    split_ifs with hgen
    · exact ⟨h, rfl, rfl⟩
    split
    · exact ⟨h, rfl, rfl⟩
    exact Rotates.keeps_advance ⟨h.agrees, Nat.lt_of_not_le hgen, rfl, rfl, h.idle hidle⟩
  | factory answer =>
    simp only [step]
    split
    swap
    · exact hsame
    next r hr =>
    have hrot := h.rotates r hr
    split
    · exact hsame
    · exact ⟨hrot.orderly_abort, rfl, rfl⟩
    next p todo htodo =>
    have hnext : Rotates fingerprint participants { s with log := s.log ++ [.prepared p.id] }
        { r with todo := todo, batch := r.batch ++ [p.id] } := by
      refine { hrot with due := ?_, logged := ?_ }
      · rw [← hrot.due, htodo]
        simp
      · obtain ⟨rounds, hlog⟩ := hrot.logged
        exact ⟨rounds, by simp [hlog]⟩
    exact ⟨hnext.keeps_advance.orderly, hnext.keeps_advance.settles⟩
  | cancelled =>
    simp only [step]
    split
    · next r hr => exact ⟨(h.rotates r hr).orderly_abort, rfl, rfl⟩
    · exact hsame

/-- **Agreement.** -/
theorem rotation_agrees (fingerprint : Fingerprint μ φ) (participants : List Participant)
    (initial : SecretSnapshot μ) (inputs : List (Input μ)) :
    let s := run fingerprint participants initial inputs
    Agrees participants s ∧ (∀ input, Settles s (step fingerprint participants s input)) ∧
      Logged s.log ((s.rotation.map (·.batch)).getD []) := by
  have hnew : Orderly fingerprint participants (.new initial) :=
    ⟨fun _ _ _ _ => rfl, by simp [Store.new], fun _ => ⟨[], by simp [Store.new]⟩⟩
  have h : Orderly fingerprint participants (run fingerprint participants initial inputs) :=
    inv_runFrom_all (I := Orderly _ _) (fun _ i h => (keeps_step h i).orderly) hnew inputs
  refine ⟨h.agrees, fun input => (keeps_step h input).settles, ?_⟩
  cases hr : (run fingerprint participants initial inputs).rotation with
  | none => exact h.idle hr
  | some r => exact (h.rotates r hr).logged

def watchers : List Participant := [⟨"db", ["password"]⟩, ⟨"cache", ["password"]⟩]

def passwords (generation password : ℕ) : SecretSnapshot ℕ :=
  ⟨generation, Dict.insert ∅ "password" password⟩

/-- One rotation is committed, and the next one fails at its second participant. -/
def twoRotations : List (Input ℕ) :=
  [.rotatePrepared (passwords 2 20), .factory (.ok ()), .factory (.ok ()),
    .rotatePrepared (passwords 3 30), .factory (.ok ()), .factory (.error "refused")]

theorem rotation_agrees_twoRotations :
    let s := run ⟨id, Function.injective_id⟩ watchers (passwords 1 10) twoRotations
    s.current = passwords 2 20 ∧ s.log = [.prepared "db", .prepared "cache", .committed "db",
      .committed "cache", .prepared "db", .aborted "db"] ∧ Agrees watchers s :=
  ⟨rfl, rfl, (rotation_agrees _ watchers (passwords 1 10) twoRotations).1⟩

end NasaRuntime.Nasecret
