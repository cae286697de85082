import Mathlib.Tactic.Linarith
import NasaRuntime.Lib.Run

/-!
# Idempotent counters

`idempotent_counter_bucket.lua` changes a counter at most once for a nonce. The credentials of the
nonces are spread over a ring of hashes. A hash has the epoch it was written in, that is the time
divided by the span of a bucket; it is emptied when its place in the ring comes up again, and it
expires some time after it was last written to.

The target and the native commands on it are parameters: a command is refused and changes nothing,
or it returns the new value. The clock is read anew by each call and may say anything.

**Theorem (`nonce_applied_once`).** A call that is refused changes nothing. The rotation of the ring
drops no credential that is younger than the time to live of a nonce. Once a call has replied
`APPLIED`, every call with its nonce replies with the same value and changes nothing, for as long as
the clock does not go back behind that first call and has not gone on by the time to live.

The clock may not go back further (`shortened_expiry`): a call that reads an earlier time writes to
the same bucket and sets the expiry of the bucket back, below what the first credential needs.
-/

namespace NasaRuntime.Nadis.Idempotent

/-- The part of `IdempotentLayoutSnapshot` that the script uses. -/
structure Layout where
  nonceTtlMs : ℕ
  bucketSpanMs : ℕ
  ttl_pos : 0 < nonceTtlMs
  span_pos : 0 < bucketSpanMs

namespace Layout

def bucketCount (layout : Layout) : ℕ := (layout.nonceTtlMs - 1) / layout.bucketSpanMs + 2

def epoch (layout : Layout) (nowMs : ℕ) : ℕ := nowMs / layout.bucketSpanMs

/-- The place in the ring of what is written now. -/
def place (layout : Layout) (nowMs : ℕ) : ℕ := layout.epoch nowMs % layout.bucketCount

end Layout

inductive OpType
  | strIncr
  | strDecr
  | hashIncr
  | hashDecr
  | zsetIncr
  deriving DecidableEq

/-- A credential: the value that was returned, and when it was written. The script does not store
the time. -/
structure Credential where
  value : String
  writtenAt : ℕ
  deriving DecidableEq

structure Bucket (ν : Type) where
  epoch : ℕ
  records : ν → Option Credential
  expireAt : Option ℕ

/-- A key of the ring. It may hold something else than a hash. -/
inductive Slot (ν : Type)
  | missing
  | foreign
  | hash (bucket : Bucket ν)

inductive Reply
  | rejectedLedgerType
  | rejectedCommand (detail : String)
  | duplicate (value : String)
  | applied (value : String)
  | appliedTtlMissing (value detail : String)
  deriving DecidableEq

/-- The reply says that the target was changed. -/
def Reply.isApplied : Reply → Bool
  | .applied _ | .appliedTtlMissing _ _ => true
  | _ => false

/-- The arguments of a call. The field is the digest of the counter's family and member and of the
nonce, not of the operation and its delta. -/
structure Call (ν μ : Type) where
  field : ν
  op : OpType
  member : μ
  delta : String

structure Counter (ν τ : Type) where
  target : τ
  ring : ℕ → Slot ν

/-- HINCRBY is given the negative delta, in its decimal form. -/
def signed : OpType → String → Option String
  | .hashDecr, delta =>
    if delta = "-9223372036854775808" then none
    else
      match delta.toList with
      | '-' :: digits => some (String.ofList digits)
      | digits => some (String.ofList ('-' :: digits))
  | _, delta => some delta

variable {ν μ τ : Type} [DecidableEq ν]

/-- The search for the nonce, over the ring. -/
def scan (layout : Layout) (nowMs : ℕ) (field : ν) (ring : ℕ → Slot ν) : List ℕ → Option Reply
  | [] => none
  | i :: is =>
    match ring i with
    | .missing => scan layout nowMs field ring is
    | .foreign => some .rejectedLedgerType
    | .hash bucket =>
      -- an epoch ahead of the clock counts as live, too
      if layout.epoch nowMs < bucket.epoch + layout.bucketCount then
        match bucket.records field with
        | some credential => some (.duplicate credential.value)
        | none => scan layout nowMs field ring is
      else scan layout nowMs field ring is

namespace Counter

/-- The bucket that is written to now, emptied if it is of an older epoch. -/
def current (s : Counter ν τ) (layout : Layout) (nowMs : ℕ) : Bucket ν :=
  match s.ring (layout.place nowMs) with
  | .hash bucket =>
    if bucket.epoch < layout.epoch nowMs then ⟨layout.epoch nowMs, fun _ => none, none⟩ else bucket
  | _ => ⟨layout.epoch nowMs, fun _ => none, none⟩

/-- HSET and PEXPIRE. The time of expiry has to fit into 64 bits. -/
def record (s : Counter ν τ) (layout : Layout) (nowMs : ℕ) (field : ν) (value : String) :
    (ℕ → Slot ν) × Reply :=
  let bucket := s.current layout nowMs
  let records := Function.update bucket.records field (some ⟨value, nowMs⟩)
  let put expireAt := Function.update s.ring (layout.place nowMs)
    (.hash ⟨bucket.epoch, records, expireAt⟩)
  if nowMs + layout.nonceTtlMs < 2 ^ 63 then
    (put (some (nowMs + layout.nonceTtlMs)), .applied value)
  else
    (put bucket.expireAt, .appliedTtlMissing value "invalid expire time in 'pexpire' command")

/-- The script, with the native commands as a parameter. -/
def call (layout : Layout) (command : OpType → μ → String → τ → Except String (τ × String))
    (s : Counter ν τ) (nowMs : ℕ) (c : Call ν μ) : Counter ν τ × Reply :=
  match scan layout nowMs c.field s.ring (List.range layout.bucketCount) with
  | some reply => (s, reply)
  | none =>
    match signed c.op c.delta with
    | none => (s, .rejectedCommand "hash decrement delta is outside HINCRBY range")
    | some delta =>
      match command c.op c.member delta s.target with
      | .error detail => (s, .rejectedCommand detail)
      | .ok (target, value) =>
        let (ring, reply) := s.record layout nowMs c.field value
        (⟨target, ring⟩, reply)

end Counter

/-- What happens to the counter: calls, the expiry of a bucket when its time has come, and changes
of the target by others. -/
inductive Event (ν μ τ : Type)
  | call (nowMs : ℕ) (c : Call ν μ)
  | expire (nowMs : ℕ) (i : ℕ)
  | outside (nowMs : ℕ) (target : τ)

def Event.now : Event ν μ τ → ℕ
  | .call nowMs _ | .expire nowMs _ | .outside nowMs _ => nowMs

namespace Counter

def expire (s : Counter ν τ) (nowMs i : ℕ) : Counter ν τ :=
  match s.ring i with
  | .hash bucket =>
    if bucket.expireAt.any (· ≤ nowMs) then { s with ring := Function.update s.ring i .missing }
    else s
  | _ => s

def exec (layout : Layout) (command : OpType → μ → String → τ → Except String (τ × String))
    (s : Counter ν τ) : Event ν μ τ → Counter ν τ
  | .call nowMs c => (s.call layout command nowMs c).1
  | .expire nowMs i => s.expire nowMs i
  | .outside _ target => { s with target := target }

/-- A counter without a ledger. -/
def new (target : τ) : Counter ν τ := ⟨target, fun _ => .missing⟩

end Counter

open List Function Reply

variable {layout : Layout}
  {command : OpType → μ → String → τ → Except String (τ × String)} {s : Counter ν τ}

namespace Layout

theorem bucketCount_pos (layout : Layout) : 0 < layout.bucketCount := by simp [bucketCount]

variable {t t' : ℕ}

/-- What is written within the time to live is less than one turn of the ring ahead. -/
theorem epoch_lt_add (h : t' < t + layout.nonceTtlMs) :
    layout.epoch t' < layout.epoch t + layout.bucketCount := by
  have hle : t' / layout.bucketSpanMs ≤ (t + (layout.nonceTtlMs - 1)) / layout.bucketSpanMs :=
    Nat.div_le_div_right (by omega)
  rw [Nat.add_div layout.span_pos] at hle
  simp only [epoch, bucketCount]
  split_ifs at hle <;> omega

/-- Two epochs at one place of the ring are a turn apart. -/
theorem turn_le {e e' : ℕ} (h : e % layout.bucketCount = e' % layout.bucketCount) (hlt : e < e') :
    e + layout.bucketCount ≤ e' := by
  by_contra hle
  have hsub : (e' - e) % layout.bucketCount = 0 := Nat.sub_mod_eq_zero_of_mod_eq h.symm
  rw [Nat.mod_eq_of_lt (by omega)] at hsub
  omega

end Layout

omit [DecidableEq ν] in
theorem scan_cases (layout : Layout) (nowMs : ℕ) (field : ν) (ring : ℕ → Slot ν) (is : List ℕ) :
    (scan layout nowMs field ring is = none ∧ ∀ i ∈ is, ∀ bucket, ring i = .hash bucket →
        layout.epoch nowMs < bucket.epoch + layout.bucketCount → bucket.records field = none) ∨
      (∃ i ∈ is, ring i = .foreign ∧ scan layout nowMs field ring is = some .rejectedLedgerType) ∨
      ∃ i ∈ is, ∃ bucket credential, ring i = .hash bucket ∧
        layout.epoch nowMs < bucket.epoch + layout.bucketCount ∧
        bucket.records field = some credential ∧
        scan layout nowMs field ring is = some (.duplicate credential.value) := by
  induction is with
  | nil => simp [scan]
  | cons i is ih =>
    cases hring : ring i with
    | missing => simpa [scan, hring] using ih
    | foreign => simp [scan, hring]
    | hash bucket =>
      by_cases hlive : layout.epoch nowMs < bucket.epoch + layout.bucketCount
      · cases hrec : bucket.records field with
        | none => simpa [scan, hring, hlive, hrec] using ih
        | some credential => simp [scan, hring, hlive, hrec]
      · simpa [scan, hring, hlive] using ih

namespace Counter

variable {c : Call ν μ} {nowMs : ℕ}

variable (layout command) in
theorem call_cases (s : Counter ν τ) (nowMs : ℕ) (c : Call ν μ) :
    (s.call layout command nowMs c).1 = s ∧ (s.call layout command nowMs c).2.isApplied = false ∨
      ∃ target value,
        scan layout nowMs c.field s.ring (range layout.bucketCount) = none ∧
        s.call layout command nowMs c =
          (⟨target, (s.record layout nowMs c.field value).1⟩,
            (s.record layout nowMs c.field value).2) := by
  rcases scan_cases layout nowMs c.field s.ring (range layout.bucketCount) with
    ⟨hscan, -⟩ | ⟨_, _, _, hscan⟩ | ⟨_, _, _, _, _, _, _, hscan⟩
  · cases hsigned : signed c.op c.delta with
    | none => simp [call, hscan, hsigned, isApplied]
    | some delta =>
      cases hcommand : command c.op c.member delta s.target with
      | error detail => simp [call, hscan, hsigned, hcommand, isApplied]
      | ok answer =>
        exact .inr ⟨answer.1, answer.2, hscan, by simp [call, hscan, hsigned, hcommand]⟩
  · simp [call, hscan, isApplied]
  · simp [call, hscan, isApplied]

/-- A bucket with one more credential. -/
def written (bucket : Bucket ν) (nowMs : ℕ) (field : ν) (value : String) (expireAt : Option ℕ) :
    Bucket ν :=
  ⟨bucket.epoch, Function.update bucket.records field (some ⟨value, nowMs⟩), expireAt⟩

theorem record_ring (s : Counter ν τ) (layout : Layout) (nowMs : ℕ) (field : ν) (value : String) :
    ∃ expireAt, (expireAt = some (nowMs + layout.nonceTtlMs) ∨
        expireAt = (s.current layout nowMs).expireAt ∧
          ∀ v, (s.record layout nowMs field value).2 ≠ .applied v) ∧
      (s.record layout nowMs field value).1 = update s.ring (layout.place nowMs)
        (.hash (written (s.current layout nowMs) nowMs field value expireAt)) := by
  unfold record
  simp only
  split_ifs
  · exact ⟨_, .inl rfl, rfl⟩
  · exact ⟨_, .inr ⟨rfl, by simp⟩, rfl⟩

omit [DecidableEq ν] in
theorem current_cases (s : Counter ν τ) (layout : Layout) (nowMs : ℕ) :
    (∃ bucket, s.ring (layout.place nowMs) = .hash bucket ∧ layout.epoch nowMs ≤ bucket.epoch ∧
        s.current layout nowMs = bucket) ∨
      s.current layout nowMs = ⟨layout.epoch nowMs, fun _ => none, none⟩ ∧
        ∀ bucket, s.ring (layout.place nowMs) = .hash bucket →
          bucket.epoch < layout.epoch nowMs := by
  unfold current
  cases s.ring (layout.place nowMs) with
  | missing | foreign => simp
  | hash bucket =>
    by_cases h : bucket.epoch < layout.epoch nowMs
    · simp [h]
    · simp [h, Nat.le_of_not_lt h]

variable (layout command) in
theorem exec_slot (s : Counter ν τ) (event : Event ν μ τ) (i : ℕ) :
    (s.exec layout command event).ring i = s.ring i ∨
      ((s.exec layout command event).ring i = .missing ∧ event = .expire event.now i ∧
        ∃ bucket x, s.ring i = .hash bucket ∧ bucket.expireAt = some x ∧ x ≤ event.now) ∨
      ∃ c value expireAt, event = .call event.now c ∧ i = layout.place event.now ∧
        scan layout event.now c.field s.ring (range layout.bucketCount) = none ∧
        (expireAt = some (event.now + layout.nonceTtlMs) ∨
          expireAt = (s.current layout event.now).expireAt) ∧
        (s.exec layout command event).ring i =
          .hash (written (s.current layout event.now) event.now c.field value expireAt) := by
  cases event with
  | outside nowMs target => exact .inl rfl
  | expire nowMs j =>
    by_cases hij : i = j
    · subst hij
      cases hring : s.ring i with
      | missing | foreign => simp [exec, expire, hring]
      | hash bucket =>
        cases hexpire : bucket.expireAt with
        | none => simp [exec, expire, hring, hexpire]
        | some x =>
          by_cases hx : x ≤ nowMs <;> simp [exec, expire, hring, hexpire, hx, Event.now]
    · refine .inl ?_
      simp only [exec, expire]
      split
      · split_ifs <;> simp [hij]
      · rfl
  | call nowMs c =>
    simp only [exec, Event.now]
    rcases call_cases layout command s nowMs c with
      ⟨heq, -⟩ | ⟨target, value, hscan, heq⟩ <;> rw [heq]
    · exact .inl rfl
    obtain ⟨expireAt, hexpire, hring⟩ := record_ring s layout nowMs c.field value
    by_cases hi : i = layout.place nowMs
    · exact .inr (.inr ⟨c, value, expireAt, rfl, hi, hscan, hexpire.imp id And.left,
        by simp only [hring, hi, update_self]⟩)
    · exact .inl (by simp only [hring, update_of_ne hi])

/-! ## Rotation -/

/-- Buckets stand at the places of their epochs, and no credential in them is of a later one. -/
def Turned (layout : Layout) (s : Counter ν τ) : Prop :=
  ∀ i bucket, s.ring i = .hash bucket → bucket.epoch % layout.bucketCount = i ∧
    ∀ field credential, bucket.records field = some credential →
      layout.epoch credential.writtenAt ≤ bucket.epoch

omit [DecidableEq ν] in
theorem current_turned (h : Turned layout s) (nowMs : ℕ) :
    (s.current layout nowMs).epoch % layout.bucketCount = layout.place nowMs ∧
      layout.epoch nowMs ≤ (s.current layout nowMs).epoch ∧
      ∀ field credential, (s.current layout nowMs).records field = some credential →
        layout.epoch credential.writtenAt ≤ (s.current layout nowMs).epoch := by
  rcases current_cases s layout nowMs with ⟨bucket, hring, hle, heq⟩ | ⟨heq, -⟩ <;> rw [heq]
  · exact ⟨(h _ bucket hring).1, hle, (h _ bucket hring).2⟩
  · exact ⟨rfl, le_rfl, by simp⟩

theorem Turned.exec (h : Turned layout s) (event : Event ν μ τ) :
    Turned layout (s.exec layout command event) := by
  intro i bucket hi
  rcases exec_slot layout command s event i with
    heq | ⟨heq, -⟩ | ⟨c, value, expireAt, -, rfl, -, -, heq⟩ <;> rw [heq] at hi
  · exact h i bucket hi
  · cases hi
  · cases hi
    obtain ⟨hplace, hnow, hold⟩ := current_turned h event.now
    refine ⟨hplace, fun field credential hcred => ?_⟩
    by_cases hfield : field = c.field
    · simp only [written, hfield, update_self, Option.some.injEq] at hcred
      exact hcred ▸ hnow
    · exact hold field credential (by simpa [written, hfield] using hcred)

theorem native_exec (h : ∀ i, s.ring i ≠ .foreign) (event : Event ν μ τ) (i : ℕ) :
    (s.exec layout command event).ring i ≠ .foreign := by
  rcases exec_slot layout command s event i with
    heq | ⟨heq, -⟩ | ⟨_, _, _, -, -, -, -, heq⟩ <;> rw [heq]
  · exact h i
  · simp
  · simp

/-- A credential that a call removes is past its time to live. -/
theorem Turned.kept_young (h : Turned layout s) (nowMs : ℕ) (c : Call ν μ) {i : ℕ}
    {bucket : Bucket ν} (hi : s.ring i = .hash bucket) {field : ν} {credential : Credential}
    (hcred : bucket.records field = some credential) :
    (∃ bucket', (s.call layout command nowMs c).1.ring i = .hash bucket' ∧
      (bucket'.records field).isSome) ∨ credential.writtenAt + layout.nonceTtlMs ≤ nowMs := by
  rcases exec_slot layout command s (.call nowMs c) i with
    heq | ⟨-, hev, -⟩ | ⟨_, _, _, -, rfl, -, -, heq⟩
  · exact .inl ⟨bucket, heq.trans hi, by simp [hcred]⟩
  · cases hev
  · rcases current_cases s layout nowMs with ⟨bucket', hring', -, hcurr⟩ | ⟨-, hold⟩
    · cases hi.symm.trans hring'
      refine .inl ⟨_, heq, ?_⟩
      simp only [written, Event.now, hcurr, update_apply]
      split_ifs <;> simp [hcred]
    · obtain ⟨hat, hwritt⟩ := h _ bucket hi
      have hturn : bucket.epoch + layout.bucketCount ≤ layout.epoch nowMs :=
        layout.turn_le hat (hold bucket hi)
      have hep := hwritt field credential hcred
      refine .inr (by_contra fun hlt => ?_)
      have := layout.epoch_lt_add (Nat.lt_of_not_le hlt)
      omega

/-! ## Retention -/

/-- The credential is found by every call whose clock is in the window from `t` on. -/
structure Kept (layout : Layout) (field : ν) (value : String) (t : ℕ) (s : Counter ν τ) : Prop where
  native : ∀ i, s.ring i ≠ .foreign
  found : ∃ bucket credential, s.ring (layout.place t) = .hash bucket ∧
    layout.epoch t ≤ bucket.epoch ∧ bucket.records field = some credential ∧
    credential.value = value ∧ ∀ x, bucket.expireAt = some x → t + layout.nonceTtlMs ≤ x
  /-- Other credentials of the nonce are too old for every call in the window. -/
  only : ∀ i bucket credential, s.ring i = .hash bucket →
    bucket.records field = some credential →
      credential.value = value ∨ bucket.epoch + layout.bucketCount ≤ layout.epoch t

variable {field : ν} {value : String} {t : ℕ}

omit [DecidableEq ν] in
/-- A call in the window finds the credential, and no other. -/
theorem Kept.scan_eq (h : Kept layout field value t s) (hnow : t ≤ nowMs)
    (hlt : nowMs < t + layout.nonceTtlMs) :
    scan layout nowMs field s.ring (range layout.bucketCount) = some (.duplicate value) := by
  have hep : layout.epoch t ≤ layout.epoch nowMs := Nat.div_le_div_right hnow
  have hlive := layout.epoch_lt_add hlt
  rcases scan_cases layout nowMs field s.ring (range layout.bucketCount) with
    ⟨-, hmiss⟩ | ⟨i, -, hfor, -⟩ | ⟨i, -, bucket, credential, hring, hle, hrec, hscan⟩
  · obtain ⟨bucket, credential, hring, hle, hrec, -⟩ := h.found
    have hplace : layout.place t ∈ range layout.bucketCount :=
      mem_range.2 (Nat.mod_lt _ layout.bucketCount_pos)
    have hnone := hmiss _ hplace bucket hring (by omega)
    rw [hrec] at hnone
    cases hnone
  · exact absurd hfor (h.native i)
  · rcases h.only i bucket credential hring hrec with hval | hold
    · rw [hscan, hval]
    · omega

/-- A nonce that is applied has no live credential, so the new one is the only one. -/
theorem kept_of_applied (hnat : ∀ i, s.ring i ≠ .foreign) (hturn : Turned layout s)
    (happ : (s.call layout command t c).2 = .applied value) :
    Kept layout c.field value t (s.call layout command t c).1 := by
  rcases call_cases layout command s t c with
    ⟨-, hnot⟩ | ⟨target, value', hscan, heq⟩
  · simp [happ, isApplied] at hnot
  rw [heq] at happ
  obtain ⟨expireAt, hexpire, hring⟩ := record_ring s layout t c.field value'
  have hval : value' = value := by
    simp only [record] at happ
    split_ifs at happ
    exact applied.inj happ
  have hplace : (s.call layout command t c).1.ring (layout.place t) =
      .hash (written (s.current layout t) t c.field value' (some (t + layout.nonceTtlMs))) := by
    simp only [heq, hring, update_self, hexpire.resolve_right fun h => h.2 value happ]
  refine ⟨native_exec hnat (.call t c), ⟨_, ⟨value', t⟩, hplace,
    (current_turned hturn t).2.1, update_self .., hval, ?_⟩, ?_⟩
  · rintro x ⟨⟩
    exact le_rfl
  · intro i bucket credential hi hcred
    by_cases hat : i = layout.place t
    · rw [hat, hplace] at hi
      cases hi
      exact .inl (by simpa [written, hval, eq_comm] using congrArg (·.map (·.value)) hcred)
    · simp only [heq, hring, update_of_ne hat] at hi
      have hmem : i ∈ range layout.bucketCount :=
        mem_range.2 ((hturn i bucket hi).1 ▸ Nat.mod_lt _ layout.bucketCount_pos)
      right
      by_contra hlive
      rcases scan_cases layout t c.field s.ring (range layout.bucketCount) with
        ⟨-, hmiss⟩ | ⟨_, _, _, hsome⟩ | ⟨_, _, _, _, _, _, _, hsome⟩
      · simp [hmiss i hmem bucket hi (by omega)] at hcred
      · simp [hscan] at hsome
      · simp [hscan] at hsome

/-- In the window, a bucket is written to at the place of the credential only in its epoch. -/
theorem Kept.exec (h : Kept layout field value t s) (event : Event ν μ τ) (hnow : t ≤ event.now)
    (hlt : event.now < t + layout.nonceTtlMs) :
    Kept layout field value t (s.exec layout command event) := by
  obtain ⟨bucket, credential, hbuck, hep, hrec, hval, hexpire⟩ := h.found
  have hoth : ∀ c : Call ν μ, scan layout event.now c.field s.ring
      (range layout.bucketCount) = none → field ≠ c.field := by
    rintro c hscan rfl
    rw [h.scan_eq hnow hlt] at hscan
    cases hscan
  refine ⟨native_exec h.native event, ?_, fun i other credential' hi hcred => ?_⟩
  · rcases exec_slot layout command s event (layout.place t) with
      heq | ⟨-, -, other, x, hoth', hx, hle⟩ | ⟨c, _, expireAt, -, hplace, hscan, hexp, heq⟩
    · exact ⟨bucket, credential, heq.trans hbuck, hep, hrec, hval, hexpire⟩
    · cases hbuck.symm.trans hoth'
      have hdue := hexpire x hx
      omega
    · have hle : layout.epoch t ≤ layout.epoch event.now := Nat.div_le_div_right hnow
      have hturn := layout.epoch_lt_add hlt
      have hsame : ¬ bucket.epoch < layout.epoch event.now := by
        intro hnew
        have := layout.turn_le hplace (by omega)
        omega
      have hcurr : s.current layout event.now = bucket := by
        simp [current, ← hplace, hbuck, hsame]
      rw [hcurr] at heq hexp
      refine ⟨_, credential, heq, hep, ?_, hval, fun x hx => ?_⟩
      · simpa [written, hoth c hscan] using hrec
      · rcases hexp with rfl | rfl
        · cases hx
          omega
        · exact hexpire x hx
  · rcases exec_slot layout command s event i with
      heq | ⟨heq, -⟩ | ⟨c, _, _, -, rfl, hscan, -, heq⟩ <;> rw [heq] at hi
    · exact h.only i other credential' hi hcred
    · cases hi
    · cases hi
      simp only [written, update_of_ne (hoth c hscan)] at hcred
      rcases current_cases s layout event.now with ⟨old, hold, -, hcurr⟩ | ⟨hcurr, -⟩
      · rw [hcurr] at hcred
        simp only [written, hcurr]
        exact h.only _ old credential' hold hcred
      · rw [hcurr] at hcred
        cases hcred

/-! ## Runs -/

/-- The counter after the events. -/
def run (layout : Layout) (command : OpType → μ → String → τ → Except String (τ × String))
    (s : Counter ν τ) (events : List (Event ν μ τ)) : Counter ν τ :=
  runFrom (exec layout command) s events

theorem turned_run (layout : Layout)
    (command : OpType → μ → String → τ → Except String (τ × String)) (target : τ)
    (events : List (Event ν μ τ)) :
    Turned layout (run layout command (new target) events) ∧
      ∀ i, (run layout command (new target) events).ring i ≠ .foreign :=
  inv_runFrom_all (I := fun s => Turned layout s ∧ ∀ i, s.ring i ≠ .foreign)
    (fun _ event h => ⟨h.1.exec event, native_exec h.2 event⟩)
    ⟨by simp [Turned, new], by simp [new]⟩ events

/-- **Nonces.** -/
theorem nonce_applied_once (layout : Layout)
    (command : OpType → μ → String → τ → Except String (τ × String)) (target : τ)
    (events : List (Event ν μ τ)) (t : ℕ) (c : Call ν μ) (s : Counter ν τ)
    (hs : s = run layout command (new target) events) :
    ((s.call layout command t c).2.isApplied = false → (s.call layout command t c).1 = s) ∧
    (∀ i bucket field credential, s.ring i = .hash bucket →
      bucket.records field = some credential →
      (∃ bucket', (s.call layout command t c).1.ring i = .hash bucket' ∧
        (bucket'.records field).isSome) ∨ credential.writtenAt + layout.nonceTtlMs ≤ t) ∧
    (t + layout.nonceTtlMs < 2 ^ 63 → (s.call layout command t c).2.isApplied = true →
      ∃ value, (s.call layout command t c).2 = .applied value ∧ ∀ more : List (Event ν μ τ),
        (∀ event ∈ more, t ≤ event.now ∧ event.now < t + layout.nonceTtlMs) →
        ∀ nowMs again, t ≤ nowMs → nowMs < t + layout.nonceTtlMs → again.field = c.field →
          (run layout command (s.call layout command t c).1 more).call layout command nowMs again =
            (run layout command (s.call layout command t c).1 more, .duplicate value)) := by
  obtain ⟨hturn, hnat⟩ := hs ▸ turned_run layout command target events
  refine ⟨fun href => ?_, fun i bucket field credential hi hcred =>
    hturn.kept_young t c hi hcred, fun hfits hchang => ?_⟩
  · rcases call_cases layout command s t c with
      ⟨heq, -⟩ | ⟨target', value, -, heq⟩
    · exact heq
    · rw [heq] at href
      simp only [record] at href
      split_ifs at href <;> cases href
  · obtain ⟨value, happ⟩ : ∃ value, (s.call layout command t c).2 = .applied value := by
      rcases call_cases layout command s t c with ⟨-, hsame⟩ | ⟨target', value, -, heq⟩
      · rw [hsame] at hchang
        cases hchang
      · rw [heq]
        exact ⟨value, by simp only [record, if_pos hfits]⟩
    refine ⟨value, happ, fun more hmore nowMs again hnow hlt hf => ?_⟩
    have hkept : Kept layout c.field value t
        (run layout command (s.call layout command t c).1 more) := by
      have hstart := kept_of_applied hnat hturn happ
      revert hstart
      generalize (s.call layout command t c).1 = s0
      intro hstart
      induction more generalizing s0 with
      | nil => exact hstart
      | cons event more ih =>
        obtain ⟨hnow', hlt'⟩ := hmore event mem_cons_self
        exact ih (fun e he => hmore e (mem_cons_of_mem _ he)) _ (hstart.exec event hnow' hlt')
    have hscan := hkept.scan_eq hnow hlt
    rw [← hf] at hscan
    generalize run layout command (s.call layout command t c).1 more = s1 at hscan ⊢
    simp only [call, hscan]

/-! ## A clock that goes back -/

/-- Ten milliseconds to live, in buckets of ten milliseconds. -/
def shortLayout : Layout := ⟨10, 10, by decide, by decide⟩

/-- A counter that grows by one. -/
def bump : OpType → Unit → String → ℕ → Except String (ℕ × String) :=
  fun _ _ _ n => .ok (n + 1, toString (n + 1))

def increment (nonce : String) : Call String Unit := ⟨nonce, .strIncr, (), "1"⟩

/-- Between the two uses of a nonce another one is used, and Redis looks for what has expired. -/
theorem nonce_applied_once_repeated :
    let first := (new 0 : Counter String ℕ).call shortLayout bump 9 (increment "a")
    let s := run shortLayout bump first.1 [.call 10 (increment "b"), .expire 18 0]
    first.2 = .applied "1" ∧ s.target = 2 ∧
      (s.call shortLayout bump 18 (increment "a")).2 = .duplicate "1" := by
  intro first s
  have happ : first.2 = .applied "1" ∧ s.target = 2 := by decide +kernel
  obtain ⟨value, hval, hag⟩ := (nonce_applied_once shortLayout bump 0 [] 9 (increment "a") (new 0)
    rfl).2.2 (by decide) (by decide +kernel)
  obtain rfl : value = "1" := Reply.applied.inj (hval.symm.trans happ.1)
  exact ⟨happ.1, happ.2, congrArg Prod.snd (hag [.call 10 (increment "b"), .expire 18 0]
    (by decide) 18 (increment "a") (by decide) (by decide) rfl)⟩

/-- The nonce `a` is used at 9. Another nonce is used after the clock was set back to 1, and then
the clock reads 12: the bucket was due at 11, and `a` changes the target once more, three
milliseconds after its first use. -/
theorem shortened_expiry :
    let first := (new 0 : Counter String ℕ).call shortLayout bump 9 (increment "a")
    let s := run shortLayout bump first.1 [.call 1 (increment "b"), .expire 12 0]
    first.2 = .applied "1" ∧ (s.call shortLayout bump 12 (increment "a")).2 = .applied "3" ∧
      s.target = 2 ∧ (s.call shortLayout bump 12 (increment "a")).1.target = 3 := by
  decide +kernel

end Counter

end NasaRuntime.Nadis.Idempotent
