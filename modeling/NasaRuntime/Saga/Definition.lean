import Mathlib.Algebra.Group.Nat.Defs
import Mathlib.Data.List.Basic

/-!
# Identities and definitions of sagas

The closed enumerations of `nasaga-core` (`state.rs`, `journal.rs`, `plan.rs`, `identity.rs`) and
the closed state machine of an instance: `SagaStatus.canTransitionTo` lists its edges and
`checkTransition` adds the two guarded ones.

Effect, command, result-event, timer and convergence identities are UUIDv5 digests of a
length-prefixed encoding of their parts (`identity.rs`, `envelope.rs`, `timers.rs`); plan and
definition versions are SHA-256 digests. Both hash functions come from outside the repository, so
`Hashes` is a parameter of the whole development, and no theorem assumes anything of it: where
two identities collide, the store's unique keys refuse the second one and the transaction rolls
back.

`definition.rs` and `plan.rs`. A `WorkflowDefinition` carries the proof that its content passed
`validate`, as the Rust type can only be built through `WorkflowDefinition::new`: it has at least
one step and no step name twice.

**Theorem (`mem_entries_freeze`).** A frozen plan has exactly the steps the journal records as
succeeded, and each of them is compensable.

**Theorem (`plan_frozen`).** When a plan is frozen, and what it is, whatever the order of the rows.
-/

namespace NasaRuntime.Saga

/-- A contract violation: a stable code and a text for the reader. -/
structure ContractViolation where
  code : String
  detail : String
  deriving DecidableEq

/-! ## The instance -/

inductive SagaStatus
  | running | cancelling | waitingResolution | compensating
  | completed | compensated | manualIntervention | manuallyClosed
  deriving DecidableEq

inductive Direction
  | forward | compensating
  deriving DecidableEq

inductive ControlState
  | active | paused
  deriving DecidableEq

inductive TriggerKind
  | event | timer | admin
  deriving DecidableEq

namespace SagaStatus

/-- `SagaStatus::INITIAL`. -/
def initial : SagaStatus := .running

def asStr : SagaStatus → String
  | .running => "RUNNING"
  | .cancelling => "CANCELLING"
  | .waitingResolution => "WAITING_RESOLUTION"
  | .compensating => "COMPENSATING"
  | .completed => "COMPLETED"
  | .compensated => "COMPENSATED"
  | .manualIntervention => "MANUAL_INTERVENTION"
  | .manuallyClosed => "MANUALLY_CLOSED"

def isTerminal : SagaStatus → Bool
  | .completed | .compensated | .manuallyClosed => true
  | _ => false

/-- The edges of the closed state machine. -/
def canTransitionTo : SagaStatus → SagaStatus → Bool
  -- a step of the same automatic segment
  | .running, .running | .cancelling, .cancelling
  | .waitingResolution, .waitingResolution | .compensating, .compensating => true
  -- the forward segment
  | .running, .completed | .running, .compensating
  | .running, .cancelling | .running, .waitingResolution => true
  -- the cancel barrier
  | .cancelling, .waitingResolution | .cancelling, .running
  | .cancelling, .completed | .cancelling, .compensating => true
  -- the resolution segment
  | .waitingResolution, .running | .waitingResolution, .completed
  | .waitingResolution, .compensating => true
  -- the compensation segment
  | .compensating, .waitingResolution | .compensating, .compensated => true
  -- every automatic segment may freeze
  | .running, .manualIntervention | .cancelling, .manualIntervention
  | .waitingResolution, .manualIntervention | .compensating, .manualIntervention => true
  -- a manual decision goes back to a controlled segment
  | .manualIntervention, .compensating | .manualIntervention, .running
  | .manualIntervention, .waitingResolution => true
  -- or closes the instance
  | .manualIntervention, .manuallyClosed => true
  | _, _ => false

end SagaStatus

def ControlState.allowsAutomaticActions : ControlState → Bool
  | .active => true
  | .paused => false

/-- `TransitionGuard`: the facts the two guarded edges need. -/
structure TransitionGuard where
  anyCompensationSucceeded : Bool := false
  manualCloseAudited : Bool := false

def checkTransition (src dst : SagaStatus) (guard : TransitionGuard) :
    Except ContractViolation Unit :=
  if ¬ src.canTransitionTo dst then
    .error ⟨"transition_illegal", "transition " ++ src.asStr ++ " -> " ++ dst.asStr ++
      " is not in the closed state machine"⟩
  else if src = .manualIntervention ∧ dst = .running ∧ guard.anyCompensationSucceeded then
    .error ⟨"transition_forward_after_compensation",
      "cannot resume forward execution after a compensation has already succeeded"⟩
  else if dst = .manuallyClosed ∧ ¬ guard.manualCloseAudited then
    .error ⟨"transition_manual_close_unaudited",
      "MANUALLY_CLOSED requires a same-transaction management audit record"⟩
  else .ok ()

/-! ## The steps -/

inductive StepPhase
  | execute | cancel | compensate | resolve
  deriving DecidableEq

def StepPhase.asStr : StepPhase → String
  | .execute => "execute"
  | .cancel => "cancel"
  | .compensate => "compensate"
  | .resolve => "resolve"

inductive StepForwardStatus
  | pending | succeeded | rejected | cancelled | unknown | timedOut | halted
  deriving DecidableEq

inductive StepCancelStatus
  | none | confirmed | alreadyTerminal | resolutionPending
  deriving DecidableEq

inductive StepCompensationStatus
  | none | pending | succeeded | unknown | halted
  deriving DecidableEq

inductive StepResolutionStatus
  | none | pending | succeeded | rejected | halted
  deriving DecidableEq

inductive StepAttemptStatus
  | started | succeeded | rejected | unknown | halted
  | cancelConfirmed | alreadyTerminal | resolutionPending
  deriving DecidableEq

namespace StepForwardStatus

def asStr : StepForwardStatus → String
  | .pending => "PENDING"
  | .succeeded => "SUCCEEDED"
  | .rejected => "REJECTED"
  | .cancelled => "CANCELLED"
  | .unknown => "UNKNOWN"
  | .timedOut => "TIMED_OUT"
  | .halted => "HALTED"

/-- `StepForwardStatus::is_settled`: a plan may be frozen over this status. -/
def isSettled : StepForwardStatus → Bool
  | .pending | .succeeded | .rejected | .cancelled => true
  | _ => false

end StepForwardStatus

def StepAttemptStatus.isInFlight : StepAttemptStatus → Bool
  | .started => true
  | _ => false

abbrev SagaId := String
abbrev TenantId := String
abbrev BusinessKey := String
abbrev WorkflowName := String
abbrev StepName := String
abbrev ServiceIdentity := String
abbrev AttemptNo := Nat
abbrev Bytes := List UInt8

/-- The hash functions of the `sha2` and `uuid` crates, on bytes. -/
structure Hashes where
  sha256 : Bytes → Bytes
  /-- `Uuid::new_v5` of a namespace and a name: the bytes of the UUID. -/
  uuidV5 : Bytes → Bytes → Bytes

/-! ## Bytes and text -/

/-- The UTF-8 bytes of a text (`as_bytes`). -/
def utf8 (s : String) : Bytes := s.toUTF8.toList

/-- `to_be_bytes` at a width of `w` bytes. -/
def beBytes (w n : Nat) : Bytes := (List.range w).map fun i => UInt8.ofNat (n / 256 ^ (w - 1 - i))

/-- `canonical_bytes`: every field behind its length. -/
def canonicalBytes (fields : List Bytes) : Bytes :=
  fields.flatMap fun field => beBytes 8 field.length ++ field

def hexByte (b : UInt8) : List Char := [Nat.digitChar (b.toNat / 16), Nat.digitChar (b.toNat % 16)]

/-- Lowercase hexadecimal text (`format!("{byte:02x}")` over the bytes). -/
def hexText (bytes : Bytes) : String := String.ofList (bytes.flatMap hexByte)

/-- The hyphenated text of a UUID. -/
def uuidText (bytes : Bytes) : String :=
  let digits := bytes.flatMap hexByte
  String.ofList (digits.take 8 ++ '-' :: (digits.drop 8).take 4 ++ '-' :: (digits.drop 12).take 4 ++
    '-' :: (digits.drop 16).take 4 ++ '-' :: digits.drop 20)

/-! ## Timers -/

/-- The timer kinds of `timers.rs`. -/
inductive TimerKind
  | stepTimeout | instanceDeadline | resolutionBudget | forwardResolutionBudget
  | compensationResolutionBudget | cancelTimeout | compensateTimeout | resolveTimeout
  deriving DecidableEq

def TimerKind.asStr : TimerKind → String
  | .stepTimeout => "step-timeout"
  | .instanceDeadline => "instance-deadline"
  | .resolutionBudget => "resolution-budget"
  | .forwardResolutionBudget => "forward-resolution-budget"
  | .compensationResolutionBudget => "compensation-resolution-budget"
  | .cancelTimeout => "cancel-timeout"
  | .compensateTimeout => "compensate-timeout"
  | .resolveTimeout => "resolve-timeout"

inductive TimerScope
  | inst
  | step (name : StepName)
  deriving DecidableEq

def TimerScope.kindStr : TimerScope → String
  | .inst => "INSTANCE"
  | .step _ => "STEP"

def TimerScope.keyStr : TimerScope → String
  | .inst => "instance"
  | .step name => name

/-- `parse_step_scope`. -/
def TimerScope.stepScope : TimerScope → Option StepName
  | .inst => none
  | .step name => some name

def phaseTimeoutKind : StepPhase → TimerKind
  | .execute => .stepTimeout
  | .cancel => .cancelTimeout
  | .compensate => .compensateTimeout
  | .resolve => .resolveTimeout

def resolutionBudgetKind : Direction → TimerKind
  | .forward => .forwardResolutionBudget
  | .compensating => .compensationResolutionBudget

/-- The kinds the timer handler treats as an exhausted resolution budget. -/
def TimerKind.isBudget : TimerKind → Bool
  | .resolutionBudget | .forwardResolutionBudget | .compensationResolutionBudget => true
  | _ => false

/-- The kinds that are valid only at the instance version that scheduled them. -/
def TimerKind.isPhaseTimeout : TimerKind → Bool
  | .stepTimeout | .cancelTimeout | .compensateTimeout | .resolveTimeout => true
  | _ => false

@[simp] theorem isBudget_resolutionBudgetKind (d : Direction) :
    (resolutionBudgetKind d).isBudget = true := by
  cases d <;> rfl

@[simp] theorem isBudget_phaseTimeoutKind (p : StepPhase) :
    (phaseTimeoutKind p).isBudget = false := by
  cases p <;> rfl

theorem phaseTimeoutKind_injective {p q : StepPhase}
    (h : phaseTimeoutKind p = phaseTimeoutKind q) : p = q := by
  cases p <;> cases q <;> first | rfl | cases h

/-! ## Derived identities -/

namespace Hashes

variable (hs : Hashes)

/-- `EffectId::derive`: the bytes of the UUID. -/
def effectId (saga : SagaId) (version : Nat) (step : StepName) (phase : StepPhase) : Bytes :=
  hs.uuidV5 (utf8 "nasasaga-v1-idns")
    (canonicalBytes [utf8 saga, beBytes 4 version, utf8 step, utf8 phase.asStr])

/-- `CommandId::derive`: the bytes of the UUID. -/
def commandId (effect : Bytes) (attempt : AttemptNo) : Bytes :=
  hs.uuidV5 (utf8 "nasasaga-v1-idns") (canonicalBytes [effect, beBytes 4 attempt])

/-- `derive_result_event_id`. -/
def resultEventId (command : String) : String :=
  uuidText (hs.uuidV5 (utf8 "nasasaga-v1-rsns") (canonicalBytes [utf8 command, utf8 "result"]))

/-- `derive_timer_id`. -/
def timerId (saga : SagaId) (scope : TimerScope) (kind : TimerKind) (attempt : AttemptNo) :
    String :=
  uuidText (hs.uuidV5 (utf8 "nasasaga-v1-tmid")
    (canonicalBytes [utf8 saga, utf8 scope.kindStr, utf8 scope.keyStr, utf8 kind.asStr,
      beBytes 4 attempt]))

/-- `derive_converge_trigger_id`. -/
def convergeTriggerId (cause : String) : String :=
  uuidText (hs.uuidV5 (utf8 "nasasaga-v1-cvns") (canonicalBytes [utf8 cause, utf8 "converge"]))

end Hashes

/-- `AttemptNo::FIRST`. -/
def AttemptNo.first : AttemptNo := 1

/-- `AttemptNo::next`, over `u32`. -/
def AttemptNo.next (n : AttemptNo) : Except ContractViolation AttemptNo :=
  if n + 1 < 2 ^ 32 then .ok (n + 1) else .error ⟨"counter_overflow", "attempt number overflow"⟩

/-! ## Text checks -/

/-- `char::is_whitespace`. -/
def isWhitespace (c : Char) : Bool :=
  let n := c.toNat
  (9 ≤ n && n ≤ 13) || n = 0x20 || n = 0x85 || n = 0xa0 || n = 0x1680 ||
    (0x2000 ≤ n && n ≤ 0x200a) || n = 0x2028 || n = 0x2029 || n = 0x202f || n = 0x205f ||
    n = 0x3000

/-- `char::is_control`. -/
def isControl (c : Char) : Bool := c.toNat ≤ 0x1f || (0x7f ≤ c.toNat && c.toNat ≤ 0x9f)

/-- A non-empty text of at most `maxLen` bytes, without blanks at its ends and without control
characters. -/
def validText (maxLen : Nat) (s : String) : Bool :=
  s ≠ "" && s.utf8ByteSize ≤ maxLen && !s.toList.head?.any isWhitespace &&
    !s.toList.getLast?.any isWhitespace && !s.toList.any isControl

/-- A non-empty ASCII identifier of at most `maxLen` bytes. -/
def validCode (maxLen : Nat) (s : String) : Bool :=
  s ≠ "" && s.utf8ByteSize ≤ maxLen &&
    s.toList.all fun c => c.isAlphanum || c = '_' || c = '-' || c = '.'

/-- `validate_trigger_id`, also the check of an operation id. -/
def validTriggerId (s : String) : Bool := validText 190 s

/-- `validate_timer_id`. -/
def validTimerId (s : String) : Bool := validText 190 s

/-- `validate_owner`. -/
def validOwner (s : String) : Bool := validText 128 s

/-- `validate_audit_text` of an actor. -/
def validActor (s : String) : Bool := validText 128 s

/-- `validate_audit_text` of a reason. -/
def validReason (s : String) : Bool := validText 512 s

/-- `validate_reason_code`, `valid_reason_code`. -/
def validReasonCode (s : String) : Bool := validCode 64 s

/-- `validate_digest`: 64 lowercase hexadecimal characters. -/
def validDigest (s : String) : Bool :=
  s.utf8ByteSize = 64 && s.toList.all fun c => c.isDigit || ('a' ≤ c && c ≤ 'f')

open List

/-! ## Step definitions -/

inductive Compensation
  | compensable | nonCompensable
  deriving DecidableEq

def Compensation.asStr : Compensation → String
  | .compensable => "compensable"
  | .nonCompensable => "non-compensable"

inductive CancelMode
  | localFenceable | externallyCancellable | resolveOnly
  deriving DecidableEq

def CancelMode.asStr : CancelMode → String
  | .localFenceable => "local-fenceable"
  | .externallyCancellable => "externally-cancellable"
  | .resolveOnly => "resolve-only"

def CancelMode.isExternal : CancelMode → Bool
  | .localFenceable => false
  | _ => true

inductive ResolutionMode
  | callback | poll | manual
  deriving DecidableEq

def ResolutionMode.asStr : ResolutionMode → String
  | .callback => "callback"
  | .poll => "poll"
  | .manual => "manual"

/-- `ResolutionSpec`; durations are in milliseconds. -/
structure ResolutionSpec where
  allowUnknown : Bool
  mode : Option ResolutionMode
  budget : Nat
  deriving DecidableEq

inductive TimeoutPolicy
  | acceptLateSuccess | compensateLateSuccess
  deriving DecidableEq

def TimeoutPolicy.asStr : TimeoutPolicy → String
  | .acceptLateSuccess => "accept-late-success"
  | .compensateLateSuccess => "compensate-late-success"

/-- `SagaPayloadContract`, with the defaults of its `Default` instance. -/
structure SagaPayloadContract where
  contentType : String := "application/json"
  schemaId : String := ""
  deriving DecidableEq

structure StepDefinition where
  name : StepName
  owner : ServiceIdentity
  compensation : Compensation
  cancelMode : CancelMode
  resolution : ResolutionSpec
  timeout : Nat
  timeoutPolicy : TimeoutPolicy
  payloadContract : SagaPayloadContract := {}
  deriving DecidableEq

def StepDefinition.isCompensable (step : StepDefinition) : Bool :=
  step.compensation = .compensable

/-! ## Workflow definitions -/

/-- The content of a `WorkflowDefinition`, before it is validated. -/
structure DefinitionContent where
  name : WorkflowName
  version : Nat
  steps : List StepDefinition
  deriving DecidableEq

namespace DefinitionContent

/-- `validate_step`, for the step at position `index`. -/
def validateStep (d : DefinitionContent) (index : Nat) (step : StepDefinition) :
    Except ContractViolation Unit :=
  let at_ := "workflow `" ++ d.name ++ "` step `" ++ step.name ++ "` "
  if step.compensation = .nonCompensable ∧ index + 1 ≠ d.steps.length then
    .error ⟨"definition_pivot_not_last",
      at_ ++ "is non-compensable but is followed by further steps"⟩
  else if step.compensation = .nonCompensable ∧ step.timeoutPolicy = .compensateLateSuccess then
    .error ⟨"definition_mode_conflict",
      at_ ++ "is non-compensable and must not compensate on late success"⟩
  else if step.timeout = 0 then
    .error ⟨"definition_budget_zero", at_ ++ "must declare a non-zero timeout"⟩
  else if step.cancelMode.isExternal ≠ step.resolution.allowUnknown then
    .error ⟨"definition_mode_conflict", at_ ++ "cancel mode `" ++ step.cancelMode.asStr ++
      "` conflicts with allow_unknown=" ++ toString step.resolution.allowUnknown⟩
  else if step.resolution.allowUnknown then
    if step.resolution.mode = none then
      .error ⟨"definition_resolution_missing",
        at_ ++ "allows unknown but declares no resolution mode"⟩
    else if step.resolution.budget = 0 then
      .error ⟨"definition_budget_zero", at_ ++ "allows unknown but declares no resolution budget"⟩
    else .ok ()
  else if step.resolution.mode ≠ none then
    .error ⟨"definition_mode_conflict", at_ ++ "forbids unknown but declares a resolution mode"⟩
  else .ok ()

/-- The first step whose name stands earlier in the list (`seen.insert` of `validate`). -/
def duplicateStep : List StepName → List StepDefinition → Option StepDefinition
  | _, [] => none
  | seen, step :: rest =>
    if step.name ∈ seen then some step else duplicateStep (step.name :: seen) rest

/-- The step checks of `validate`, in definition order. -/
def validateSteps (d : DefinitionContent) : Nat → List StepDefinition → Except ContractViolation Unit
  | _, [] => .ok ()
  | index, step :: rest =>
    match d.validateStep index step with
    | .error e => .error e
    | .ok () => validateSteps d (index + 1) rest

def validate (d : DefinitionContent) : Except ContractViolation Unit :=
  if d.steps = [] then
    .error ⟨"definition_has_no_step", "workflow `" ++ d.name ++ "` declares no step"⟩
  else
    match duplicateStep [] d.steps with
    | some step => .error ⟨"definition_duplicate_step",
        "workflow `" ++ d.name ++ "` declares duplicate step `" ++ step.name ++ "`"⟩
    | none => d.validateSteps 0 d.steps

def digest (hs : Hashes) (d : DefinitionContent) : String :=
  hexText (hs.sha256 (
    canonicalBytes [utf8 d.name, beBytes 4 d.version, beBytes 8 d.steps.length] ++
    d.steps.flatMap fun step =>
      (if step.payloadContract = {} then [] else
        canonicalBytes [utf8 "payload-contract", utf8 step.payloadContract.contentType,
          utf8 step.payloadContract.schemaId]) ++
      canonicalBytes [utf8 step.name, utf8 step.owner, utf8 step.compensation.asStr,
        utf8 step.cancelMode.asStr, [if step.resolution.allowUnknown then 1 else 0],
        utf8 ((step.resolution.mode.map ResolutionMode.asStr).getD ""),
        beBytes 16 step.resolution.budget, beBytes 16 step.timeout, utf8 step.timeoutPolicy.asStr]))

end DefinitionContent

/-- A validated workflow definition. -/
structure WorkflowDefinition extends DefinitionContent where
  valid : toDefinitionContent.validate = .ok ()

variable {name : StepName} {seen : List StepName}

namespace WorkflowDefinition

variable (d : WorkflowDefinition)

def step (name : StepName) : Option StepDefinition := d.steps.find? (·.name = name)

/-- The step names, in definition order. -/
def names : List StepName := d.steps.map (·.name)

theorem steps_ne_nil : d.steps ≠ [] := by
  intro h
  have hv := d.valid
  simp [DefinitionContent.validate, h] at hv

theorem nodup_of_duplicateStep {steps : List StepDefinition}
    (h : DefinitionContent.duplicateStep seen steps = none) :
    (steps.map (·.name)).Nodup ∧ ∀ n ∈ steps.map (·.name), n ∉ seen := by
  induction steps generalizing seen with
  | nil => simp
  | cons s rest ih =>
    unfold DefinitionContent.duplicateStep at h
    split at h
    · cases h
    · obtain ⟨hnd, hseen⟩ := ih h
      refine ⟨nodup_cons.2 ⟨fun hm => hseen _ hm (by simp), hnd⟩, ?_⟩
      intro n hn
      rcases mem_cons.1 hn with rfl | hn
      · assumption
      · exact fun hs => hseen n hn (mem_cons_of_mem _ hs)

theorem names_nodup : d.names.Nodup := by
  have hv := d.valid
  unfold DefinitionContent.validate at hv
  rw [if_neg d.steps_ne_nil] at hv
  split at hv
  · cases hv
  · exact (nodup_of_duplicateStep ‹_›).1

theorem step_name {s : StepDefinition} (h : d.step name = some s) : s ∈ d.steps ∧ s.name = name :=
  ⟨mem_of_find?_eq_some h, by simpa using find?_some h⟩

end WorkflowDefinition

/-! ## Compensation plans -/

structure StepJournalEntry where
  step : StepName
  forwardStatus : StepForwardStatus
  deriving DecidableEq

structure CompensationEntry where
  step : StepName
  order : Nat
  deriving DecidableEq

structure CompensationPlan where
  version : String
  entries : List CompensationEntry
  deriving DecidableEq

/-- The checks of `freeze_compensation_plan` over the journal; returns the steps it has seen. -/
def checkJournal (d : WorkflowDefinition) :
    List StepName → List StepJournalEntry → Except ContractViolation (List StepName)
  | seen, [] => .ok seen
  | seen, entry :: rest =>
    match d.step entry.step with
    | none => .error ⟨"plan_unknown_step", "journal references step `" ++ entry.step ++
        "` absent from workflow `" ++ d.name ++ "` v" ++ toString d.version⟩
    | some step =>
      if entry.step ∈ seen then
        .error ⟨"plan_duplicate_step", "journal contains duplicate step `" ++ entry.step ++ "`"⟩
      else if ¬ entry.forwardStatus.isSettled then
        .error ⟨"plan_unsettled_step", "step `" ++ entry.step ++ "` is `" ++
          entry.forwardStatus.asStr ++ "` and must be resolved before freezing a compensation plan"⟩
      else if entry.forwardStatus = .succeeded ∧ ¬ step.isCompensable then
        .error ⟨"plan_contains_succeeded_pivot", "step `" ++ entry.step ++
          "` succeeded but is non-compensable; automatic compensation must not proceed"⟩
      else checkJournal d (entry.step :: seen) rest

/-- The entries of a plan, over the steps in reverse definition order. -/
def planEntries (journal : List StepJournalEntry) : Nat → List StepDefinition →
    List CompensationEntry
  | _, [] => []
  | order, step :: rest =>
    if (∃ entry ∈ journal, entry.step = step.name ∧ entry.forwardStatus = .succeeded) ∧
        step.isCompensable then
      ⟨step.name, order⟩ :: planEntries journal (order + 1) rest
    else planEntries journal order rest

/-- The digest of a plan: the definition's digest, then every entry with its order. -/
def planVersion (hs : Hashes) (d : WorkflowDefinition) (entries : List CompensationEntry) : String :=
  hexText (hs.sha256 (
    canonicalBytes [utf8 (d.digest hs), beBytes 8 entries.length] ++
    entries.flatMap fun entry => canonicalBytes [utf8 entry.step, beBytes 4 entry.order]))

def freezeCompensationPlan (hs : Hashes) (d : WorkflowDefinition)
    (journal : List StepJournalEntry) : Except ContractViolation CompensationPlan :=
  match checkJournal d [] journal with
  | .error violation => .error violation
  | .ok seen =>
    match d.steps.find? (·.name ∉ seen) with
    | some missing => .error ⟨"plan_missing_step", "journal is missing definition step `" ++
        missing.name ++ "` for workflow `" ++ d.name ++ "` v" ++ toString d.version⟩
    | none =>
      let entries := planEntries journal 1 d.steps.reverse
      .ok ⟨planVersion hs d entries, entries⟩

/-! ## What a frozen plan holds -/

variable {d : WorkflowDefinition} {journal : List StepJournalEntry} {hs : Hashes}
  {plan : CompensationPlan}

/-- The step succeeded and can be undone. -/
def ToUndo (journal : List StepJournalEntry) (step : StepDefinition) : Prop :=
  (∃ entry ∈ journal, entry.step = step.name ∧ entry.forwardStatus = .succeeded) ∧
    step.isCompensable

instance : DecidablePred (ToUndo journal) := fun _ => inferInstanceAs (Decidable (_ ∧ _))

theorem planEntries_eq (journal : List StepJournalEntry) (order : Nat)
    (steps : List StepDefinition) :
    planEntries journal order steps =
      ((steps.filter (ToUndo journal)).zipIdx order).map fun s => ⟨s.1.name, s.2⟩ := by
  induction steps generalizing order with
  | nil => rfl
  | cons s rest ih =>
    by_cases h : ToUndo journal s
    · simp only [filter_cons, h, decide_true, if_true, zipIdx_cons, map_cons, ← ih]
      exact if_pos h
    · simp only [filter_cons, h, decide_false, Bool.false_eq_true, if_false, ← ih]
      exact if_neg h

theorem step_planEntries (journal : List StepJournalEntry) (order : Nat)
    (steps : List StepDefinition) :
    (planEntries journal order steps).map (·.step) =
      (steps.filter (ToUndo journal)).map (·.name) := by
  rw [planEntries_eq, map_map]
  conv_rhs => rw [← zipIdx_map_fst order (steps.filter _), map_map]
  rfl

theorem step_eq_none_iff : d.step name = none ↔ name ∉ d.names := by
  simp [WorkflowDefinition.step, WorkflowDefinition.names]

/-- What the check asks of a row. -/
structure Passes (d : WorkflowDefinition) (entry : StepJournalEntry) : Prop where
  known : entry.step ∈ d.names
  settled : entry.forwardStatus.isSettled
  pivot : entry.forwardStatus = .succeeded →
    ∀ step, d.step entry.step = some step → step.isCompensable

theorem checkJournal_eq_ok {seen' : List StepName} :
    checkJournal d seen journal = .ok seen' ↔
      seen' = (journal.map (·.step)).reverse ++ seen ∧ (journal.map (·.step)).Nodup ∧
        ∀ entry ∈ journal, entry.step ∉ seen ∧ Passes d entry := by
  induction journal generalizing seen with
  | nil => simp [checkJournal, eq_comm]
  | cons e rest ih =>
    unfold checkJournal
    rw [forall_mem_cons]
    cases hstep : d.step e.step with
    | none =>
      refine iff_of_false (by nofun) fun h => ?_
      exact step_eq_none_iff.1 hstep h.2.2.1.2.known
    | some step =>
      simp only
      split_ifs with hseen hsett hpiv
      · exact iff_of_false (by nofun) fun h => h.2.2.1.1 hseen
      · exact iff_of_false (by nofun) fun h => hpiv.2 (h.2.2.1.2.pivot hpiv.1 step hstep)
      · have hname : e.step ∈ d.names := by
          by_contra h
          rw [step_eq_none_iff.2 h] at hstep
          cases hstep
        have hpass : Passes d e := ⟨hname, hsett, fun hs s hs' => by
          rw [hstep] at hs'
          cases hs'
          by_contra h
          exact hpiv ⟨hs, h⟩⟩
        rw [ih]
        simp only [map_cons, reverse_cons, append_assoc, singleton_append,
          nodup_cons, hseen, hpass, mem_cons, not_or, not_false_eq_true, and_self,
          true_and, mem_map]
        constructor
        · rintro ⟨h, hnod, hrest⟩
          exact ⟨h, ⟨fun ⟨x, hx, hxs⟩ => (hrest x hx).1.1 hxs, hnod⟩,
            fun x hx => ⟨(hrest x hx).1.2, (hrest x hx).2⟩⟩
        · rintro ⟨h, ⟨hnew, hnod⟩, hrest⟩
          exact ⟨h, hnod, fun x hx =>
            ⟨⟨fun hxs => hnew ⟨x, hx, hxs⟩, (hrest x hx).1⟩, (hrest x hx).2⟩⟩
      · exact iff_of_false (by nofun) fun h => hsett h.2.2.1.2.settled

/-- A plan is frozen over a journal with one row for each step, all of which pass the check. -/
theorem freeze_eq_ok : freezeCompensationPlan hs d journal = .ok plan ↔
    ((journal.map (·.step)).Perm d.names ∧ ∀ entry ∈ journal, Passes d entry) ∧
      plan = ⟨planVersion hs d (planEntries journal 1 d.steps.reverse),
        planEntries journal 1 d.steps.reverse⟩ := by
  have hcheck :
      (∃ seen, checkJournal d [] journal = .ok seen ∧ d.steps.find? (·.name ∉ seen) = none) ↔
      (journal.map (·.step)).Perm d.names ∧ ∀ entry ∈ journal, Passes d entry := by
    simp only [checkJournal_eq_ok, append_nil, and_assoc, exists_eq_left, find?_eq_none,
      mem_reverse, decide_eq_true_eq, not_not, not_mem_nil, not_false_eq_true, true_and]
    constructor
    · rintro ⟨hnod, hpass, hall⟩
      refine ⟨(perm_ext_iff_of_nodup hnod d.names_nodup).2 fun name =>
        ⟨fun h => ?_, fun h => ?_⟩, hpass⟩
      · obtain ⟨entry, hent, rfl⟩ := mem_map.1 h
        exact (hpass entry hent).known
      · obtain ⟨step, hstep, rfl⟩ := mem_map.1 h
        exact hall step hstep
    · rintro ⟨hperm, hpass⟩
      exact ⟨hperm.nodup_iff.2 d.names_nodup, hpass, fun step hstep =>
        hperm.mem_iff.2 (mem_map_of_mem hstep)⟩
  unfold freezeCompensationPlan
  rw [← hcheck]
  cases checkJournal d [] journal with
  | error violation => simp
  | ok seen =>
    simp only [Except.ok.injEq, exists_eq_left']
    cases d.steps.find? (·.name ∉ seen) with
    | some missing => simp
    | none => simp [eq_comm]

/-- **The members of a frozen plan** are the steps the journal records as succeeded. -/
theorem mem_entries_freeze (h : freezeCompensationPlan hs d journal = .ok plan) :
    name ∈ plan.entries.map (·.step) ↔
      ∃ entry ∈ journal, entry.step = name ∧ entry.forwardStatus = .succeeded := by
  obtain ⟨⟨-, hpass⟩, rfl⟩ := freeze_eq_ok.1 h
  rw [step_planEntries]
  simp only [mem_map, mem_filter, mem_reverse, decide_eq_true_eq]
  constructor
  · rintro ⟨step, ⟨-, hdone, -⟩, rfl⟩
    exact hdone
  · rintro ⟨entry, hent, rfl, hsucc⟩
    have hp := hpass entry hent
    obtain ⟨step, hstep⟩ := Option.ne_none_iff_exists'.1 fun h => step_eq_none_iff.1 h hp.known
    obtain ⟨hmem, hname⟩ := d.step_name hstep
    exact ⟨step, ⟨hmem, ⟨entry, hent, hname.symm, hsucc⟩, hp.pivot hsucc step hstep⟩, hname⟩

/-- **The order of a frozen plan** is the reverse definition order. -/
theorem entries_freeze_sublist (h : freezeCompensationPlan hs d journal = .ok plan) :
    (plan.entries.map (·.step)).Sublist d.names.reverse := by
  rw [(freeze_eq_ok.1 h).2, step_planEntries, WorkflowDefinition.names, ← map_reverse]
  exact filter_sublist.map _

/-- **Plans.** A plan needs one settled row for each step and no succeeded step that cannot be undone.
It lists the succeeded steps from the last to the first, numbered from one. -/
theorem plan_frozen (hs : Hashes) (d : WorkflowDefinition) (journal : List StepJournalEntry) :
    ((∃ plan, freezeCompensationPlan hs d journal = .ok plan) ↔
      (journal.map (·.step)).Perm d.names ∧
        (∀ entry ∈ journal, entry.forwardStatus.isSettled) ∧
        ∀ entry ∈ journal, entry.forwardStatus = .succeeded →
          ∀ step, d.step entry.step = some step → step.isCompensable) ∧
    ∀ plan, freezeCompensationPlan hs d journal = .ok plan →
      plan.entries = ((d.steps.reverse.filter fun step =>
        (∃ entry ∈ journal, entry.step = step.name ∧ entry.forwardStatus = .succeeded) ∧
          step.isCompensable).zipIdx 1).map (fun step => ⟨step.1.name, step.2⟩) ∧
      ∀ journal', journal'.Perm journal → freezeCompensationPlan hs d journal' = .ok plan := by
  refine ⟨⟨?_, ?_⟩, fun plan h => ⟨?_, fun journal' hperm => ?_⟩⟩
  · rintro ⟨plan, h⟩
    obtain ⟨⟨hrows, hpass⟩, -⟩ := freeze_eq_ok.1 h
    exact ⟨hrows, fun e he => (hpass e he).settled, fun e he => (hpass e he).pivot⟩
  · rintro ⟨hrows, hsett, hpiv⟩
    refine ⟨_, freeze_eq_ok.2 ⟨⟨hrows, fun e he => ⟨?_, hsett e he, hpiv e he⟩⟩, rfl⟩⟩
    exact hrows.mem_iff.1 (mem_map_of_mem he)
  · rw [(freeze_eq_ok.1 h).2, planEntries_eq]
    rfl
  · have hsame : ToUndo journal' = ToUndo journal := by
      funext step
      simp only [ToUndo, hperm.mem_iff]
    have hents (order steps) :
        planEntries journal' order steps = planEntries journal order steps := by
      simp only [planEntries_eq, hsame]
    obtain ⟨⟨hrows, hpass⟩, rfl⟩ := freeze_eq_ok.1 h
    refine freeze_eq_ok.2 ⟨⟨(hperm.map _).trans hrows, fun e he => ?_⟩, ?_⟩
    · exact hpass e (hperm.mem_iff.1 he)
    · rw [hents]

end NasaRuntime.Saga
