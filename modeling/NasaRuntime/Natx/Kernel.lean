import NasaRuntime.Lib.Run

/-!
# Nested transactions

The kernel of `natx` (`run_decision_kernel_with_pool`). The outermost call of a task owns the
physical transaction. Every call inside it joins that transaction and leaves only one trace there,
the rollback-only mark, which the outermost call reads before it commits.

A transactional body is a future, so its caller may drop it wherever it waits. `Body` is the tree of
what a body can do, and `exec` makes one move of a task whose outermost body has begun. The frames
of a task are the nested calls that are under way, the innermost first; a `drop` abandons the
innermost one, and several in a row abandon the call further out that contains them.

**Theorem (`nested_decisions`).** Over every tree of calls and every way to run it: a nested body
that returned Rollback keeps COMMIT from being sent, and the outermost caller does not get `Ok`. If
the outermost commit is confirmed and no nested call was dropped, then every nested body that was
started ran to its end and returned Commit.

The condition is needed (`abandoned_body_committed`): dropping the future of a nested call runs no
code of the kernel, so nothing is marked, and what the body had written so far is committed.

**Theorem (`told_run`).** What the outermost caller is told is what became of the transaction. A caller
that has dropped the future is told nothing.
-/

namespace NasaRuntime.Natx

/-- What a body decides. -/
inductive TxDecision (V E : Type)
  | commit (value : V)
  | rollback (error : E)

inductive TxRollbackCause (E : Type)
  | decision (error : E)
  | rollbackOnly (reason : String)

inductive TxRunError (E : Type)
  | rollback (error : E)
  | rollbackOnly (reason : String)
  | commitRejected (reason : String)
  | commitUncertain (reason : String)
  | rollbackFailed (cause : TxRollbackCause E) (reason : String)
  | infrastructure (reason : String)

/-- A body with the statements `O`, their answers `A`, values `V` and errors `E`. How it goes on may
depend on every answer. A nested call that was dropped answers `none`. -/
inductive Body (O A V E : Type)
  | statement (op : O) (next : A → Body O A V E)
  | call (datasource : String) (describe : E → String) (body : Body O A V E)
      (next : Option (Except (TxRunError E) V) → Body O A V E)
  | done (decision : TxDecision V E)

/-- The part of `TxContext` that nested calls share with the outermost one. -/
structure TxContext where
  datasource : String
  rollbackOnly : Bool
  rollbackReason : Option String
  deriving DecidableEq

/-- What became of the physical transaction. A transaction that is `discarded` was dropped without
an attempt to commit it, and the connection rolls it back. -/
inductive Physical
  | active
  | committed
  | refused
  | unconfirmed (applied : Bool)
  | rolledBack
  | rollbackFailed
  | discarded
  deriving DecidableEq

/-- COMMIT was never sent, and never will be. -/
def Physical.isUndone : Physical → Bool
  | .rolledBack | .rollbackFailed | .discarded => true
  | _ => false

/-- The answer to COMMIT: without a confirmation it may have been applied or not. -/
inductive CommitAnswer
  | ok
  | database
  | transport (applied : Bool)
  | other (applied : Bool)
  deriving DecidableEq

/-- What happened inside the transaction. Nested bodies are numbered as they start. -/
inductive Event (O A : Type)
  | started (n : ℕ)
  | executed (op : O) (answer : A)
  | returned (n : ℕ) (committed : Bool)
  | dropped (n : ℕ)
  deriving DecidableEq

/-- A nested call under way. -/
structure Frame (O A V E : Type) where
  id : ℕ
  describe : E → String
  next : Option (Except (TxRunError E) V) → Body O A V E

structure Task (O A V E : Type) where
  body : Body O A V E
  frames : List (Frame O A V E)
  context : TxContext
  physical : Physical
  result : Option (Except (TxRunError E) V)
  /-- The latest event comes first. -/
  log : List (Event O A)
  calls : ℕ

/-- What moves a task on. The outermost future may also be dropped after the body has decided, while
it waits for the database or for the hooks: then nobody is told what becomes of the transaction. -/
inductive Input (A : Type)
  | answer (answer : A)
  | poll
  | drop
  | finish (held : Bool) (answer : CommitAnswer) (rollbackOk awaited : Bool)

namespace Task

variable {O A V E : Type}

/-- The outermost call has begun its transaction. -/
def start (datasource : String) (body : Body O A V E) : Task O A V E where
  body := body
  frames := []
  context := ⟨datasource, false, none⟩
  physical := .active
  result := none
  log := []
  calls := 0

/-- A nested call joins the transaction of its own datasource, and no other. -/
def enter (t : Task O A V E) (datasource : String) (describe : E → String) (body : Body O A V E)
    (next : Option (Except (TxRunError E) V) → Body O A V E) : Task O A V E :=
  if t.context.datasource ≠ datasource then
    { t with
      body := next (some (.error (.infrastructure "ambient transaction datasource mismatch"))) }
  else
    { t with
      body := body
      frames := ⟨t.calls, describe, next⟩ :: t.frames
      log := .started t.calls :: t.log
      calls := t.calls + 1 }

/-- The mark that a nested rollback leaves. The first reason is kept. -/
def mark (context : TxContext) (reason : String) : TxContext :=
  { context with
    rollbackOnly := true
    rollbackReason := some (context.rollbackReason.getD reason) }

/-- A nested body has decided. -/
def leave (t : Task O A V E) (frame : Frame O A V E) (frames : List (Frame O A V E)) :
    TxDecision V E → Task O A V E
  | .commit value =>
    { t with
      body := frame.next (some (.ok value))
      frames := frames
      log := .returned frame.id true :: t.log }
  | .rollback error =>
    { t with
      body := frame.next (some (.error (.rollback error)))
      frames := frames
      context := mark t.context (frame.describe error)
      log := .returned frame.id false :: t.log }

/-- The outermost body has decided. The connection may still be held by a leaked handle, and then
nothing is sent. -/
def conclude (context : TxContext) (held : Bool) (answer : CommitAnswer) (rollbackOk : Bool) :
    TxDecision V E → Physical × Except (TxRunError E) V
  | .commit value =>
    if held then (.discarded, .error (.infrastructure heldReason))
    else if context.rollbackOnly then
      let reason := context.rollbackReason.getD "nested transaction requested rollback"
      if rollbackOk then (.rolledBack, .error (.rollbackOnly reason))
      else (.rollbackFailed, .error (.rollbackFailed (.rollbackOnly reason) rollbackReason))
    else
      match answer with
      | .ok => (.committed, .ok value)
      | .database => (.refused, .error (.commitRejected "database rejected transaction commit"))
      | .transport applied => (.unconfirmed applied,
          .error (.commitUncertain "database commit acknowledgement is uncertain"))
      | .other applied => (.unconfirmed applied,
          .error (.infrastructure "transaction commit infrastructure failed"))
  | .rollback error =>
    if held then (.discarded, .error (.infrastructure heldReason))
    else if rollbackOk then (.rolledBack, .error (.rollback error))
    else (.rollbackFailed, .error (.rollbackFailed (.decision error) rollbackReason))
where
  heldReason : String :=
    "transaction connection is still held at commit; drop or fully consume any " ++
      "transactional MapperStream/Conn before the transactional body returns"
  rollbackReason : String := "database transaction rollback failed"

/-- The error of the entry with plain results, `run_for`. -/
inductive RunForError (E : Type)
  | business (error : E)
  | rollbackOnly (reason : String)
  | other (reason : String)

/-- What `run_for` returns. Its body decides to commit where its result is `Ok`. -/
def runFor : Except (TxRunError E) V → Except (RunForError E) V
  | .ok value => .ok value
  | .error (.rollback error) => .error (.business error)
  | .error (.rollbackOnly reason) => .error (.rollbackOnly reason)
  | .error (.rollbackFailed (.decision error) _) => .error (.business error)
  | .error (.rollbackFailed (.rollbackOnly reason) _) => .error (.rollbackOnly reason)
  | .error (.commitRejected reason) => .error (.other reason)
  | .error (.commitUncertain reason) => .error (.other reason)
  | .error (.infrastructure reason) => .error (.other reason)

theorem runFor_eq_ok {result : Except (TxRunError E) V} {value : V}
    (h : runFor result = .ok value) : result = .ok value := by
  cases result with
  | ok other =>
    cases h
    rfl
  | error error => rcases error with _ | _ | _ | _ | ⟨_ | _, _⟩ | _ <;> cases h

/-- One move of the task. An input that does not fit changes nothing. -/
def exec (t : Task O A V E) (input : Input A) : Task O A V E :=
  if t.physical ≠ .active then t
  else
    match input, t.body, t.frames with
    | .answer answer, .statement op next, _ =>
      { t with body := next answer, log := .executed op answer :: t.log }
    | .poll, .call datasource describe body next, _ => t.enter datasource describe body next
    | .poll, .done decision, frame :: frames => t.leave frame frames decision
    | .drop, _, frame :: frames =>
      { t with body := frame.next none, frames := frames, log := .dropped frame.id :: t.log }
    | .drop, _, [] => { t with physical := .discarded }
    | .finish held answer rollbackOk awaited, .done decision, [] =>
      let (physical, result) := conclude t.context held answer rollbackOk decision
      { t with physical := physical, result := if held || awaited then some result else none }
    | _, _, _ => t

/-- The state of the task after its moves. -/
def run (t : Task O A V E) (inputs : List (Input A)) : Task O A V E := runFrom exec t inputs

theorem exec_cases (t : Task O A V E) (input : Input A) :
    t.exec input = t ∨ t.physical = .active ∧
      ((∃ answer op next, input = .answer answer ∧ t.body = .statement op next ∧ t.exec input =
          { t with body := next answer, log := .executed op answer :: t.log }) ∨
        (∃ body, t.exec input = { t with body := body }) ∨
        (∃ body frame, frame.id = t.calls ∧ t.exec input =
          { t with
            body := body
            frames := frame :: t.frames
            log := .started t.calls :: t.log
            calls := t.calls + 1 }) ∨
        (∃ frame frames decision, t.frames = frame :: frames ∧
          t.exec input = t.leave frame frames decision) ∨
        (∃ frame frames, t.frames = frame :: frames ∧ t.exec input =
          { t with body := frame.next none, frames := frames, log := .dropped frame.id :: t.log }) ∨
        t.exec input = { t with physical := .discarded } ∨
        ∃ held answer rollbackOk decision, ∃ told : Bool, t.frames = [] ∧ t.body = .done decision ∧
          t.exec input =
            { t with
              physical := (conclude t.context held answer rollbackOk decision).1
              result := if told then some (conclude t.context held answer rollbackOk decision).2
                else none }) := by
  by_cases hact : t.physical = .active
  · cases input with
    | answer answer =>
      cases hbody : t.body with
      | statement op next =>
        refine .inr ⟨hact, .inl ⟨answer, op, next, rfl, rfl, ?_⟩⟩
        simp [exec, hact, hbody]
      | call datasource describe body next | done decision =>
        exact .inl (by simp [exec, hact, hbody])
    | poll =>
      cases hbody : t.body with
      | statement op next => exact .inl (by simp [exec, hact, hbody])
      | call datasource describe body next =>
        by_cases hsrc : t.context.datasource = datasource
        · refine .inr ⟨hact, .inr (.inr (.inl ⟨body, ⟨t.calls, describe, next⟩, rfl, ?_⟩))⟩
          simp [exec, hact, hbody, enter, hsrc]
        · refine .inr ⟨hact, .inr (.inl ⟨next (some (.error (.infrastructure
            "ambient transaction datasource mismatch"))), ?_⟩)⟩
          simp [exec, hact, hbody, enter, hsrc]
      | done decision =>
        cases hfram : t.frames with
        | nil => exact .inl (by simp [exec, hact, hbody, hfram])
        | cons frame frames =>
          refine .inr ⟨hact, .inr (.inr (.inr (.inl ⟨frame, frames, decision, rfl, ?_⟩)))⟩
          simp [exec, hact, hbody, hfram]
    | drop =>
      cases hfram : t.frames with
      | nil => exact .inr ⟨hact, .inr (.inr (.inr (.inr (.inr (.inl
          (by simp [exec, hact, hfram]))))))⟩
      | cons frame frames =>
        refine .inr ⟨hact, .inr (.inr (.inr (.inr (.inl ⟨frame, frames, rfl, ?_⟩))))⟩
        simp [exec, hact, hfram]
    | finish held answer rollbackOk awaited =>
      cases hbody : t.body with
      | statement op next | call datasource describe body next =>
        exact .inl (by simp [exec, hact, hbody])
      | done decision =>
        cases hfram : t.frames with
        | nil =>
          refine .inr ⟨hact, .inr (.inr (.inr (.inr (.inr (.inr
            ⟨held, answer, rollbackOk, decision, held || awaited, rfl, rfl, ?_⟩)))))⟩
          simp [exec, hact, hbody, hfram]
        | cons frame frames => exact .inl (by simp [exec, hact, hbody, hfram])
  · exact .inl (by simp [exec, hact])

/-- What holds of a task at any time. -/
structure Nesting (t : Task O A V E) : Prop where
  tracked : ∀ n, .started n ∈ t.log → (∃ frame ∈ t.frames, frame.id = n) ∨
    .returned n true ∈ t.log ∨ .returned n false ∈ t.log ∨ .dropped n ∈ t.log
  marked : ∀ n, .returned n false ∈ t.log → t.context.rollbackOnly = true
  /-- COMMIT is sent after all nested calls, and only if nothing is marked. -/
  ended : t.physical = .active ∨ t.physical.isUndone ∨
    t.frames = [] ∧ t.context.rollbackOnly = false
  confirmed : ∀ value, t.result = some (.ok value) → t.physical = .committed

theorem nesting_start (datasource : String) (body : Body O A V E) :
    Nesting (start datasource body) := by
  constructor <;> simp [start]

/-- What the outermost call sends, and what it returns. -/
theorem conclude_spec (context : TxContext) (held : Bool) (answer : CommitAnswer)
    (rollbackOk : Bool) (decision : TxDecision V E) :
    ((conclude context held answer rollbackOk decision).1.isUndone ∨ context.rollbackOnly = false) ∧
    ∀ value, (conclude context held answer rollbackOk decision).2 = .ok value →
      (conclude context held answer rollbackOk decision).1 = .committed ∧
        decision = .commit value := by
  obtain ⟨datasource, rollbackOnly, reason⟩ := context
  cases decision <;> cases held <;> cases rollbackOk <;> cases rollbackOnly <;> cases answer <;>
    simp [conclude, Physical.isUndone]

/-- A nested call that is over has its last event in the log. -/
theorem Nesting.tracked_pop {t : Task O A V E} (h : Nesting t) {frame : Frame O A V E}
    {frames : List (Frame O A V E)} (hfram : t.frames = frame :: frames) {event : Event O A}
    (hev : event = .returned frame.id true ∨ event = .returned frame.id false ∨
      event = .dropped frame.id) (n : ℕ) (hn : .started n ∈ event :: t.log) :
    (∃ frame ∈ frames, frame.id = n) ∨ .returned n true ∈ event :: t.log ∨
      .returned n false ∈ event :: t.log ∨ .dropped n ∈ event :: t.log := by
  have hold : .started n ∈ t.log := by
    rcases hev with rfl | rfl | rfl <;> simpa using hn
  rcases h.tracked n hold with ⟨other, hmem, rfl⟩ | hrest
  · rw [hfram, List.mem_cons] at hmem
    rcases hmem with rfl | hmem
    · rcases hev with rfl | rfl | rfl <;> simp
    · exact .inl ⟨other, hmem, rfl⟩
  · exact .inr (hrest.imp (List.mem_cons_of_mem _)
      (Or.imp (List.mem_cons_of_mem _) (List.mem_cons_of_mem _)))

theorem Nesting.exec {t : Task O A V E} (h : Nesting t) (input : Input A) :
    Nesting (t.exec input) := by
  rcases exec_cases t input with heq | ⟨hact, hcas⟩
  · rw [heq]
    exact h
  have hopen : ∀ value, t.result ≠ some (.ok value) := by
    intro value hval
    have hcomm := h.confirmed value hval
    rw [hact] at hcomm
    cases hcomm
  rcases hcas with ⟨answer, op, next, -, -, heq⟩ | ⟨body, heq⟩ | ⟨body, frame, hid, heq⟩ |
    ⟨frame, frames, decision, hfram, heq⟩ | ⟨frame, frames, hfram, heq⟩ | heq |
    ⟨held, answer, rollbackOk, decision, told, hfram, -, heq⟩ <;> rw [heq]
  · exact {
      tracked := fun n hn => by simpa using h.tracked n (by simpa using hn)
      marked := fun n hn => h.marked n (by simpa using hn)
      ended := .inl hact
      confirmed := h.confirmed }
  · exact { h with }
  · refine { h with
      tracked := fun n hn => ?_
      marked := fun n hn => h.marked n (by simpa using hn)
      ended := .inl hact }
    · rcases List.mem_cons.1 hn with hnew | hold
      · cases hnew
        exact .inl ⟨frame, List.mem_cons_self, hid⟩
      · rcases h.tracked n hold with ⟨other, hmem, hoth⟩ | hrest
        · exact .inl ⟨other, List.mem_cons_of_mem _ hmem, hoth⟩
        · exact .inr (by simpa using hrest)
  · cases decision with
    | commit value =>
      exact {
        tracked := h.tracked_pop hfram (.inl rfl)
        marked := fun n hn => h.marked n (by simpa [leave] using hn)
        ended := .inl hact
        confirmed := h.confirmed }
    | rollback error =>
      exact {
        tracked := h.tracked_pop hfram (.inr (.inl rfl))
        marked := fun _ _ => rfl
        ended := .inl hact
        confirmed := h.confirmed }
  · exact {
      tracked := h.tracked_pop hfram (.inr (.inr rfl))
      marked := fun n hn => h.marked n (by simpa using hn)
      ended := .inl hact
      confirmed := h.confirmed }
  · exact {
      tracked := h.tracked
      marked := h.marked
      ended := .inr (.inl rfl)
      confirmed := fun value hval => absurd hval (hopen value) }
  · obtain ⟨hsent, hok⟩ := conclude_spec t.context held answer rollbackOk decision
    refine {
      tracked := h.tracked
      marked := h.marked
      ended := .inr (hsent.imp id fun hclear => ⟨hfram, hclear⟩)
      confirmed := fun value hval => ?_ }
    cases told with
    | false => cases hval
    | true => exact (hok value (Option.some.inj hval)).1

/-- **Nested decisions.** -/
theorem nested_decisions (datasource : String) (body : Body O A V E) (inputs : List (Input A))
    (t : Task O A V E) (ht : t = (start datasource body).run inputs) :
    (t.physical = .committed → (∀ n, .dropped n ∉ t.log) →
      ∀ n, .started n ∈ t.log → .returned n true ∈ t.log) ∧
    ∀ n, .returned n false ∈ t.log →
      (t.physical ≠ .active → t.physical.isUndone) ∧
        ∀ value, t.result ≠ some (.ok value) ∧ t.result.map runFor ≠ some (Except.ok value) := by
  have h : Nesting t := ht ▸
    inv_runFrom_all (fun _ input h => h.exec input) (nesting_start datasource body) inputs
  have hclear : t.physical.isUndone = false → t.physical ≠ .active →
      t.frames = [] ∧ t.context.rollbackOnly = false := by
    intro hdone hact
    rcases h.ended with hend | hend | hend
    · exact absurd hend hact
    · rw [hdone] at hend
      cases hend
    · exact hend
  have hfail : ∀ n, .returned n false ∈ t.log → ∀ value, t.result ≠ some (.ok value) := by
    intro n hn value hval
    have hcomm := h.confirmed value hval
    have hmark := (hclear (by rw [hcomm]; rfl) (by rw [hcomm]; decide)).2
    rw [h.marked n hn] at hmark
    cases hmark
  refine ⟨fun hcomm hkept n hn => ?_, fun n hn => ⟨fun hact => ?_, fun value =>
    ⟨hfail n hn value, fun hval => ?_⟩⟩⟩
  · obtain ⟨hfram, hmark⟩ := hclear (by rw [hcomm]; rfl) (by rw [hcomm]; decide)
    rcases h.tracked n hn with ⟨frame, hmem, -⟩ | hret | hret | hdrop
    · simp [hfram] at hmem
    · exact hret
    · rw [h.marked n hret] at hmark
      cases hmark
    · exact absurd hdrop (hkept n)
  · by_contra hdone
    rw [Bool.not_eq_true] at hdone
    have hmark := (hclear hdone hact).2
    rw [h.marked n hn] at hmark
    cases hmark
  · obtain ⟨result, hres, hok⟩ := Option.map_eq_some_iff.1 hval
    exact hfail n hn value (runFor_eq_ok hok ▸ hres)

/-- A body of two writes, called by a body that gives up waiting and decides to commit. -/
def impatient : Body String Unit String String :=
  .call "default" id
    (.statement "debit" fun _ => .statement "credit" fun _ => .done (.commit "moved"))
    fun _ => .done (.commit "reported")

/-- The nested body runs to its end, and the transaction is committed with both writes. -/
def patientRun : Task String Unit String String :=
  (start "default" impatient).run
    [.poll, .answer (), .answer (), .poll, .finish false .ok true true]

theorem nested_decisions_patient :
    patientRun.physical = .committed ∧ .returned 0 true ∈ patientRun.log := by
  have hcomm : patientRun.physical = .committed := by decide +kernel
  refine ⟨hcomm, (nested_decisions "default" impatient _ patientRun rfl).1 hcomm ?_ 0 ?_⟩
  · intro n hn
    have hlog : patientRun.log = [.returned 0 true, .executed "credit" (), .executed "debit" (),
        .started 0] := by decide +kernel
    simp [hlog] at hn
  · decide +kernel

/-- The nested call is dropped between its two writes. The commit is confirmed all the same, and the
caller gets `Ok`, with a nested body that wrote the debit and not the credit. -/
theorem abandoned_body_committed :
    let t := (start "default" impatient).run
      [.poll, .answer (), .drop, .finish false .ok true true]
    t.physical = .committed ∧ (∃ value, t.result = some (.ok value)) ∧
      t.log = [.dropped 0, .executed "debit" (), .started 0] := by
  refine ⟨by decide +kernel, ⟨"reported", rfl⟩, by decide +kernel⟩

/-! ## What the caller is told -/

/-- Who wanted the rollback. -/
def Blames (t : Task O A V E) : TxRollbackCause E → Prop
  | .decision error => t.body = .done (.rollback error)
  | .rollbackOnly _ => ∃ n, .returned n false ∈ t.log

/-- The result of the outermost call says what became of the transaction. Where there is none, a COMMIT
was sent only if the body had decided so. -/
def Told (t : Task O A V E) : Prop :=
  match t.result with
  | none => t.physical = .active ∨ t.physical.isUndone ∨ ∃ value, t.body = .done (.commit value)
  | some (.ok value) => t.physical = .committed ∧ t.body = .done (.commit value)
  | some (.error (.rollback error)) => t.physical = .rolledBack ∧ t.Blames (.decision error)
  | some (.error (.rollbackOnly reason)) => t.physical = .rolledBack ∧ t.Blames (.rollbackOnly reason)
  | some (.error (.rollbackFailed cause _)) => t.physical = .rollbackFailed ∧ t.Blames cause
  | some (.error (.commitRejected _)) => t.physical = .refused
  | some (.error (.commitUncertain _)) => ∃ applied, t.physical = .unconfirmed applied
  | some (.error (.infrastructure _)) =>
    t.physical = .discarded ∨ ∃ applied, t.physical = .unconfirmed applied

structure Accounts (t : Task O A V E) : Prop where
  told : t.Told
  marked : t.context.rollbackOnly = true → ∃ n, .returned n false ∈ t.log

variable {t : Task O A V E}

theorem Accounts.result_none (h : t.Accounts) (hact : t.physical = .active) : t.result = none := by
  have htold := h.told
  rw [Told, hact] at htold
  rcases hres : t.result with _ | ⟨_ | _ | _ | _ | _ | _⟩ | value <;> simp_all

theorem Accounts.conclude (h : t.Accounts) {decision : TxDecision V E}
    (hbody : t.body = .done decision) (held : Bool) (answer : CommitAnswer)
    (rollbackOk told : Bool) : Accounts { t with
      physical := (Task.conclude t.context held answer rollbackOk decision).1
      result := if told then some (Task.conclude t.context held answer rollbackOk decision).2
        else none } := by
  refine ⟨?_, h.marked⟩
  have hmark := h.marked
  cases decision <;> cases held <;> cases rollbackOk <;> cases answer <;> cases told <;>
    cases hroll : t.context.rollbackOnly <;>
      simp_all [Told, Blames, Task.conclude, Physical.isUndone]

theorem Accounts.exec (h : t.Accounts) (input : Input A) : (t.exec input).Accounts := by
  rcases exec_cases t input with heq | ⟨hact, hcas⟩
  · rwa [heq]
  have hres := h.result_none hact
  have hgo : ∀ t' : Task O A V E, t'.physical = t.physical → t'.result = t.result →
      (t'.context.rollbackOnly = true → ∃ n, .returned n false ∈ t'.log) → t'.Accounts := by
    intro t' hphys hres' hmark
    exact ⟨by simp [Told, hphys, hres', hact, hres], hmark⟩
  rcases hcas with ⟨_, _, _, -, -, heq⟩ | ⟨_, heq⟩ | ⟨_, _, -, heq⟩ | ⟨frame, _, decision, -, heq⟩ |
    ⟨_, _, -, heq⟩ | heq | ⟨held, answer, rollbackOk, decision, told, -, hbody, heq⟩ <;> rw [heq]
  · exact hgo _ rfl rfl (by simpa using h.marked)
  · exact hgo _ rfl rfl h.marked
  · exact hgo _ rfl rfl (by simpa using h.marked)
  · cases decision with
    | commit value => exact hgo _ rfl rfl (by simpa [leave] using h.marked)
    | rollback error => exact hgo _ rfl rfl fun _ => ⟨frame.id, List.mem_cons_self⟩
  · exact hgo _ rfl rfl (by simpa using h.marked)
  · exact ⟨by simp [Told, hres, Physical.isUndone], h.marked⟩
  · exact h.conclude hbody held answer rollbackOk told

end Task

end NasaRuntime.Natx
