import Mathlib.Algebra.Group.Nat.Defs
import NasaRuntime.Lib.Run

/-!
# The circuit of a service

Requests to a service go through its circuit (`begin_circuit`, `CircuitAttempt`). Enough failures in a
row open it for some time. After that one request is let through as a probe, which closes the circuit
or opens it again.

An attempt is settled once, when it completes or is dropped. Every function takes the lock of the
circuit once, so it is one step, with its own reading of the clock.

An attempt that is settled does not know whether the circuit was open when it began. A request that
was sent before the circuit opened therefore closes it when it succeeds. When it fails, it opens the
circuit anew and takes the place of a probe away, so that a second probe is let through
(`stale_attempts`).

**Theorem (`probes_run`).** Nobody is let through while the circuit is open. If no request that was
sent through the closed circuit is settled while it is open, there is at most one probe, and only the
probe changes an open circuit.
-/

namespace NasaRuntime.RestDiscovery

structure CircuitState where
  consecutiveFailures : ℕ := 0
  openUntil : Option ℕ := none
  halfOpenInFlight : Bool := false
deriving DecidableEq

structure CircuitAttempt where
  threshold : ℕ
  openDuration : ℕ
  submitted : Bool := false
  halfOpen : Bool
deriving DecidableEq

/-- `begin_circuit`. No attempt is the error `CircuitOpen`. -/
def CircuitState.beginCircuit (current : CircuitState) (threshold openDuration now : ℕ) :
    Option CircuitAttempt × CircuitState :=
  match current.openUntil with
  | some deadline =>
    if now < deadline ∨ current.halfOpenInFlight then (none, current)
    else
      (some { threshold, openDuration, halfOpen := true },
        { current with halfOpenInFlight := true })
  | none => (some { threshold, openDuration, halfOpen := false }, current)

def updateCircuit (state : CircuitState) (threshold openDuration : ℕ) (success : Bool) (now : ℕ) :
    CircuitState :=
  let current := { state with halfOpenInFlight := false }
  if success then { current with consecutiveFailures := 0, openUntil := none }
  else
    let failures := min (current.consecutiveFailures + 1) (2 ^ 32 - 1)
    if current.openUntil.isSome ∨ threshold ≤ failures then
      { current with consecutiveFailures := 0, openUntil := some (now + openDuration) }
    else { current with consecutiveFailures := failures }

def CircuitAttempt.settle (attempt : CircuitAttempt) (success : Bool) (now : ℕ)
    (state : CircuitState) : CircuitState :=
  if attempt.submitted then
    updateCircuit state attempt.threshold attempt.openDuration success now
  else if attempt.halfOpen then { state with halfOpenInFlight := false }
  else state

/-- The circuit and the attempts in flight, by the order in which they were begun. -/
structure Circuit where
  state : CircuitState := {}
  started : ℕ := 0
  attempts : ℕ → Option CircuitAttempt := fun _ => none

inductive CircuitStep
  | beginCircuit (threshold openDuration now : ℕ)
  | markSubmitted (id : ℕ)
  | complete (id : ℕ) (success : Bool) (now : ℕ)
  | drop (id : ℕ) (now : ℕ)
deriving DecidableEq

namespace Circuit

def settle (s : Circuit) (id : ℕ) (success : Bool) (now : ℕ) : Circuit :=
  match s.attempts id with
  | none => s
  | some attempt =>
    { s with
      state := attempt.settle success now s.state
      attempts := Function.update s.attempts id none }

def exec (s : Circuit) : CircuitStep → Circuit
  | .beginCircuit threshold openDuration now =>
    let (attempt, state) := s.state.beginCircuit threshold openDuration now
    { state, started := s.started + 1, attempts := Function.update s.attempts s.started attempt }
  | .markSubmitted id =>
    { s with
      attempts := Function.update s.attempts id
        ((s.attempts id).map ({ · with submitted := true })) }
  | .complete id success now => s.settle id success now
  | .drop id now => s.settle id false now

def run (steps : List CircuitStep) : Circuit := runFrom exec {} steps

/-- A request that was sent through the closed circuit is not settled while the circuit is open. -/
def Timely (s : Circuit) (id : ℕ) : Prop :=
  ∀ attempt ∈ s.attempts id, attempt.submitted → attempt.halfOpen ∨ s.state.openUntil = none

/-- Attempt `id` is a probe in flight. -/
def Probing (s : Circuit) (id : ℕ) : Prop := ∃ attempt ∈ s.attempts id, attempt.halfOpen

def TimelyStep (s : Circuit) : CircuitStep → Prop
  | .complete id _ _ | .drop id _ => s.Timely id
  | _ => True

instance (s : Circuit) (id : ℕ) : Decidable (s.Timely id) :=
  inferInstanceAs (Decidable (∀ attempt ∈ s.attempts id, _))

instance (s : Circuit) : DecidablePred s.TimelyStep
  | .complete id _ _ | .drop id _ => inferInstanceAs (Decidable (s.Timely id))
  | .beginCircuit .. | .markSubmitted _ => instDecidableTrue

/-- A probe has the only place there is. -/
structure Probed (s : Circuit) : Prop where
  slot : ∀ id, s.Probing id → s.state.halfOpenInFlight ∧ s.state.openUntil ≠ none
  single : ∀ id id', s.Probing id → s.Probing id' → id = id'

variable {s : Circuit} {id id' : ℕ} {attempt : CircuitAttempt} {started : ℕ} {state : CircuitState}

theorem probing_update {found : Option CircuitAttempt} :
    Probing ⟨state, started, Function.update s.attempts id found⟩ id' ↔
      if id' = id then ∃ attempt ∈ found, attempt.halfOpen else s.Probing id' := by
  by_cases h : id' = id
  · simp [Probing, h]
  · simp [Probing, h]

theorem probing_forget (h : Probing ⟨state, started, Function.update s.attempts id none⟩ id') :
    id' ≠ id ∧ s.Probing id' := by
  rw [probing_update] at h
  split_ifs at h with heq
  · simp at h
  · exact ⟨heq, h⟩

theorem settle_of_open (h : s.Timely id) (ha : attempt ∈ s.attempts id)
    (hord : attempt.halfOpen = false) (hopen : s.state.openUntil ≠ none) (success : Bool)
    (now : ℕ) : attempt.settle success now s.state = s.state := by
  have huns : attempt.submitted = false := by
    by_contra hsent
    rcases h attempt ha (by simpa using hsent) with hhalf | hclos
    · simp [hord] at hhalf
    · exact hopen hclos
  simp [CircuitAttempt.settle, huns, hord]

/-- Nobody but the probe changes the circuit while there is one. -/
theorem Probed.settle_of_probing (hs : s.Probed) (h : s.Timely id) (ha : attempt ∈ s.attempts id)
    (hne : id ≠ id') (hprob : s.Probing id') (success : Bool) (now : ℕ) :
    attempt.settle success now s.state = s.state := by
  refine settle_of_open h ha ?_ (hs.slot id' hprob).2 success now
  by_contra hhalf
  exact hne (hs.single id id' ⟨attempt, ha, by simpa using hhalf⟩ hprob)

theorem Probed.settle (hs : s.Probed) (h : s.Timely id) (success : Bool) (now : ℕ) :
    (s.settle id success now).Probed := by
  unfold Circuit.settle
  cases ha : s.attempts id with
  | none => exact hs
  | some attempt =>
    refine ⟨fun id' h' => ?_, fun id1 id2 h1 h2 =>
      hs.single id1 id2 (probing_forget h1).2 (probing_forget h2).2⟩
    obtain ⟨hne, hprob⟩ := probing_forget h'
    simp only [hs.settle_of_probing h ha hne.symm hprob]
    exact hs.slot id' hprob

theorem Probed.begin (hs : s.Probed) (threshold openDuration now : ℕ) :
    (s.exec (.beginCircuit threshold openDuration now)).Probed := by
  simp only [exec, CircuitState.beginCircuit]
  cases hopen : s.state.openUntil with
  | none =>
    have hnone : ∀ id, ¬ s.Probing id := fun id h => (hs.slot id h).2 hopen
    constructor <;> intro id <;> simp [probing_update, hnone]
  | some deadline =>
    simp only
    split_ifs with hbusy
    · exact ⟨fun id h => hs.slot id (probing_forget h).2,
        fun id id' h h' => hs.single id id' (probing_forget h).2 (probing_forget h').2⟩
    · -- the place is free, so nobody has it
      have hnone : ∀ id, ¬ s.Probing id := fun id h => hbusy (.inr (hs.slot id h).1)
      constructor
      · intro id _
        simp
      · intro id id' h h'
        simp only [probing_update, hnone, if_false_right] at h h'
        exact h.1.trans h'.1.symm

theorem Probed.mark (hs : s.Probed) (id : ℕ) : (s.exec (.markSubmitted id)).Probed := by
  have hsame : ∀ id', (s.exec (.markSubmitted id)).Probing id' ↔ s.Probing id' := by
    intro id'
    simp only [exec, probing_update]
    split_ifs with heq
    · simp [Probing, heq]
    · rfl
  exact ⟨fun id' h => hs.slot id' ((hsame id').1 h),
    fun id1 id2 h1 h2 => hs.single id1 id2 ((hsame id1).1 h1) ((hsame id2).1 h2)⟩

theorem Probed.exec (hs : s.Probed) (step : CircuitStep) (h : s.TimelyStep step) :
    (s.exec step).Probed := by
  cases step with
  | beginCircuit threshold openDuration now => exact hs.begin threshold openDuration now
  | markSubmitted id => exact hs.mark id
  | complete id success now => exact hs.settle h success now
  | drop id now => exact hs.settle h false now

/-- **Probes.** -/
theorem probes_run (steps : List CircuitStep) :
    let s := run steps
    (∀ threshold openDuration now deadline, s.state.openUntil = some deadline → now < deadline →
      (s.state.beginCircuit threshold openDuration now).1 = none) ∧
    (∀ id, s.Probing id → ∀ success now, ¬ (s.settle id success now).Probing id ∧
      (s.settle id success now).state.halfOpenInFlight = false) ∧
    (Along Circuit.exec TimelyStep {} steps →
      (∀ id id', s.Probing id → s.Probing id' → id = id') ∧
      (∀ id, ∀ attempt ∈ s.attempts id, attempt.halfOpen = false → s.Timely id →
        s.state.openUntil ≠ none → ∀ success now, attempt.settle success now s.state = s.state) ∧
      ∀ id id', id ≠ id' → s.Probing id' → s.Timely id → ∀ success now,
        (s.settle id success now).Probing id' ∧ (s.settle id success now).state = s.state) := by
  intro s
  refine ⟨?_, ?_, fun h => ?_⟩
  · intro threshold openDuration now deadline hopen hlt
    simp [CircuitState.beginCircuit, hopen, hlt]
  · intro id hprob success now
    obtain ⟨attempt, ha, hhalf⟩ := hprob
    simp only [Circuit.settle, Option.mem_def.1 ha, probing_update, if_true]
    refine ⟨by simp, ?_⟩
    unfold CircuitAttempt.settle updateCircuit
    dsimp only
    split_ifs <;> rfl
  · have hs : s.Probed := inv_runFrom (fun _ step hs ht => hs.exec step ht)
      ⟨fun id h => by simp [Probing] at h, fun id id' h => by simp [Probing] at h⟩ h
    refine ⟨hs.single, fun id attempt ha hord ht hopen => settle_of_open ht ha hord hopen, ?_⟩
    intro id id' hne hprob ht success now
    unfold Circuit.settle
    cases ha : s.attempts id with
    | none => exact ⟨hprob, rfl⟩
    | some attempt =>
      refine ⟨?_, hs.settle_of_probing ht ha hne hprob success now⟩
      rw [probing_update, if_neg hne.symm]
      exact hprob

/-- A failure opens the circuit, a probe is let through and closes it. -/
theorem probes_run_recovered :
    let steps := [.beginCircuit 1 10 0, .markSubmitted 0, .complete 0 false 1, .beginCircuit 1 10 5,
      .beginCircuit 1 10 11, .markSubmitted 2]
    (run steps).Probing 2 ∧ (∀ id, (run steps).Probing id → id = 2) ∧
      ((run steps).settle 2 true 12).state.halfOpenInFlight = false := by
  intro steps
  have htim : Along Circuit.exec TimelyStep {} steps := by decide +kernel
  have hprob : (run steps).Probing 2 := ⟨⟨1, 10, true, true⟩, by decide +kernel, rfl⟩
  obtain ⟨-, hfree, htimely⟩ := probes_run steps
  exact ⟨hprob, fun id h => (htimely htim).1 id 2 h hprob, (hfree 2 hprob true 12).2⟩

/-- Two requests are sent through the closed circuit, and the first one opens it. The second one
closes it within the window, or takes the place of the probe away. -/
theorem stale_attempts :
    let opened := [.beginCircuit 1 10 0, .beginCircuit 1 10 0, .markSubmitted 0, .markSubmitted 1,
      .complete 0 false 1]
    let probed := opened ++ [.beginCircuit 1 10 11, .complete 1 false 12, .beginCircuit 1 10 22]
    (run opened).state.openUntil = some 11 ∧
      (run (opened ++ [.complete 1 true 2])).state.openUntil = none ∧
      (run probed).Probing 2 ∧ (run probed).Probing 3 := by
  refine ⟨by decide +kernel, by decide +kernel, ⟨⟨1, 10, false, true⟩, ?_, rfl⟩,
    ⟨⟨1, 10, false, true⟩, ?_, rfl⟩⟩
  · decide +kernel
  · decide +kernel

end Circuit

end NasaRuntime.RestDiscovery
