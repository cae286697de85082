import NasaRuntime.Saga.Protocol.Invariant
import Mathlib.Data.List.Chain

/-!
# The transition journal and the outbox

The journal of an instance is its history: one row for every version, each going on where the one
before it ended. The compare-and-swap of `advance` is the only statement that writes it.

**Theorem (`journal_run`).** After every run the journal is numbered `1..version`, is a path of the
closed state machine from the initial status to the current one, and holds every trigger once. An
`advance` on a stale version, from another status, on a paused instance or with a used trigger
fails, and its transaction leaves the store as it was. Control changes touch neither version nor
status.

**Theorem (`rest_run`).** An instance that has ended, or is paused, makes no transition and sends
nothing.

**Theorem (`commands_run`).** The outbox holds one command for every attempt.
-/

namespace NasaRuntime.Saga

open Table Tx List TwoSteps Option

variable {o : Orchestrator} {i : SagaInstanceRow} {k : Cause} {db db1 db' : Db} {op : Op}

/-- A journal row goes on where another one ended, along an edge of the state machine. -/
def SagaTransitionRow.Follows (t t' : SagaTransitionRow) : Prop :=
  t'.fromState = some t.toState ∧ t.toState.canTransitionTo t'.toState = true

/-- The rows are the journal of the instance. -/
structure Journaled (i : SagaInstanceRow) (rows : List SagaTransitionRow) : Prop where
  numbers : rows.map (·.transitionSeq) = List.range' 1 i.version
  first : rows.head?.map (fun t => (t.fromState, t.toState)) = some (none, .initial)
  path : rows.IsChain SagaTransitionRow.Follows
  last : rows.getLast?.map (·.toState) = some i.status
  triggers : (rows.map fun t => (t.triggerKind, t.triggerId)).Nodup

/-! ## One step -/

variable {spec : TransitionSpec}

theorem Journaled.advance (h : Journaled i db.transitions) (can : db.CanAdvance i spec) :
    Journaled (i.advanced spec) (db.advance i spec).transitions := by
  obtain ⟨t0, ht0, hlast⟩ := map_eq_some_iff.1 h.last
  refine ⟨?_, ?_, ?_, ?_, ?_⟩
  · change (db.transitions ++ [_]).map _ = range' 1 (i.version + 1)
    rw [map_append, h.numbers, range'_1_concat, Nat.add_comm 1 i.version]
    rfl
  · change (db.transitions ++ [_]).head?.map _ = _
    obtain ⟨t, ht, -⟩ := map_eq_some_iff.1 h.first
    rw [head?_append, ht, some_or, ← ht]
    exact h.first
  · change (db.transitions ++ [_]).IsChain _
    rw [isChain_append]
    refine ⟨h.path, isChain_singleton _, fun t ht t' ht' => ?_⟩
    cases ht0.symm.trans ht
    cases ht'
    refine ⟨?_, ?_⟩
    · rw [hlast]
    · rw [hlast]
      exact can.edge
  · change (db.transitions ++ [_]).getLast?.map _ = _
    rw [getLast?_append_of_ne_nil _ (cons_ne_nil _ _)]
    rfl
  · change ((db.transitions ++ [_]).map _).Nodup
    rw [map_append, nodup_append]
    refine ⟨h.triggers, nodup_singleton _, ?_⟩
    rintro _ ha _ hb rfl
    obtain ⟨t, ht, hta⟩ := mem_map.1 ha
    have hb := mem_singleton.1 hb
    exact can.fresh t ht (Prod.mk.inj (hta.trans hb))

theorem Move.journaled (h : Move o i k db db') (hj : Journaled i db.transitions) :
    ∀ i', db'.inst = some i' → Journaled i' db'.transitions := by
  intro i' hi'
  cases h with
  | escalate can | finish guard can =>
    cases hi'
    exact hj.advance can
  | send guard can issues =>
    rw [issues.inst, Db.freezes_inst] at hi'
    cases hi'
    rw [issues.transitions, Db.freezes_transitions]
    exact hj.advance can
  | wait guard hcur can budget query =>
    obtain ⟨hinst, htrans⟩ := Db.opened_inst budget query
    rw [hinst] at hi'
    cases hi'
    rw [htrans]
    exact hj.advance can
  | converge guard can hdb1 proof can' =>
    cases hi'
    refine Journaled.advance ?_ can'
    rw [hdb1, Db.freezes_transitions]
    exact hj.advance can

theorem Outcome.journaled (h : Outcome o i k db db') (hinst : db.inst = some i)
    (hj : Journaled i db.transitions) : ∀ i', db'.inst = some i' → Journaled i' db'.transitions := by
  cases h with
  | stay quiet =>
    intro i' hi'
    rw [quiet.inst, hinst] at hi'
    cases hi'
    rw [quiet.transitions]
    exact hj
  | again quiet reissue =>
    intro i' hi'
    obtain ⟨-, -, -, can, issues⟩ := reissue
    rw [issues.inst] at hi'
    cases hi'
    rw [issues.transitions]
    rw [← quiet.transitions] at hj
    exact hj.advance can
  | leave quiet move =>
    rw [← quiet.transitions] at hj
    exact move.journaled hj

theorem Started.journaled (h : Started o db db') :
    ∀ i', db'.inst = some i' → Journaled i' db'.transitions := by
  obtain ⟨-, row, d, first, kind, id, -, -, hstat, -, -, -, -, hvers, db1, issues, hdeadl⟩ := h
  obtain ⟨timers, rfl⟩ := Db.deadline_eq hdeadl
  intro i' hi'
  cases issues.inst.symm.trans hi'
  change Journaled row db1.transitions
  rw [issues.transitions]
  refine ⟨?_, rfl, isChain_singleton _, ?_, nodup_singleton _⟩
  · rw [hvers]
    rfl
  · rw [hstat]
    rfl

/-- **One step keeps the journal.** -/
theorem Step.journaled (h : Step o db op db')
    (hj : ∀ i, db.inst = some i → Journaled i db.transitions) :
    ∀ i, db'.inst = some i → Journaled i db'.transitions := by
  rcases h.cases with started | kept | ⟨i, k, inst, -, arises, outcome⟩
  · exact started.journaled
  · intro i' hi'
    obtain ⟨i, state, version, inst, rfl⟩ := kept.source hi'
    rw [kept.transitions]
    have h := hj i inst
    exact ⟨h.numbers, h.first, h.path, h.last, h.triggers⟩
  · exact outcome.journaled inst (hj _ inst)

/-! ## Refused advances -/

/-- The compare-and-swap cannot apply: the version is stale, the status is another one, the
instance is not `ACTIVE`, or the trigger was used. -/
def Db.Refuses (db : Db) (version : Nat) (src : SagaStatus) (spec : TransitionSpec) : Prop :=
  ∀ row, db.inst = some row → row.version ≠ version ∨ row.status ≠ src ∨
    row.controlState ≠ .active ∨
    ∃ t ∈ db.transitions, t.triggerKind = spec.triggerKind ∧ t.triggerId = spec.triggerId

theorem fails_advanceApplied {version : Nat} {src : SagaStatus}
    (h : db.Refuses version src spec) : (advanceApplied version src spec).Fails db := by
  refine fails_of_not_ends fun n db' hends => ?_
  obtain ⟨row, can, hvers, hstat, -, -⟩ := ends_advanceApplied hends
  rcases h row can.inst with hne | hne | hne | ⟨t, ht, hused⟩
  · exact hne hvers
  · exact hne hstat
  · exact hne can.active
  · exact can.fresh t ht hused

/-! ## Control changes -/

theorem Step.keeps_state (h : Step o db op db') (hop : ∀ i k, ¬ Arises o i db op k)
    (hi : db.inst = some i) :
    ∃ i', db'.inst = some i' ∧ i'.version = i.version ∧ i'.status = i.status := by
  rcases h.cases with started | kept | ⟨_, _, -, -, arises, -⟩
  · rw [started.vacant] at hi
    cases hi
  · obtain ⟨state, version, inst⟩ := kept.inst
    rw [hi] at inst
    exact ⟨_, inst, rfl, rfl⟩
  · exact absurd arises (hop _ _)

/-! ## Every run -/

/-- **The journal of every run.** -/
theorem journal_run (o : Orchestrator) (ops : List Op) :
    (∀ i, (o.run ops).inst = some i → Journaled i (o.run ops).transitions) ∧
    (∀ (α β : Type) (before : SagaTx α) (after : α → Nat → SagaTx β) (a : α) (db db1 : Db)
      (version : Nat) (src : SagaStatus) (spec : TransitionSpec),
      before.Ends db a db1 → db1.Refuses version src spec →
      (before >>= fun a => advanceApplied version src spec >>= after a).commit db = db) ∧
    (∀ (op : Op) (i : SagaInstanceRow), (∃ call, op = .pause call ∨ op = .resume call) →
      (o.run ops).inst = some i → ∃ i', (o.exec (o.run ops) op).inst = some i' ∧
        i'.version = i.version ∧ i'.status = i.status) := by
  refine ⟨?_, ?_, ?_⟩
  · exact Orchestrator.inv_run_all
      (J := fun db => ∀ i, db.inst = some i → Journaled i db.transitions)
      (fun _ _ _ _ hj hstep => hstep.journaled hj) (fun _ h => by cases h) ops
  · intro α β before after a db db1 version src spec hbef href
    exact commit_of_fails hbef (fails_bind (fails_advanceApplied href))
  · rintro op i ⟨call, hop⟩ hi
    refine (Orchestrator.exec_step (o.based_run ops).toKeyed op).keeps_state (fun j k h => ?_) hi
    rcases hop with rfl | rfl <;> cases h

/-- A started saga: its journal, a stale advance that is rolled back, and a pause. -/
theorem journal_run_started :
    ∃ i, (TwoSteps.orchestrator.run [TwoSteps.start]).inst = some i ∧
      Journaled i (TwoSteps.orchestrator.run [TwoSteps.start]).transitions ∧
      ((pure () : SagaTx Unit) >>= fun _ => advanceApplied 7 .running
        (Orchestrator.transitionSpec i .completed .forward none .event "e" none none) >>=
          fun _ => (pure () : SagaTx Unit)).commit
        (TwoSteps.orchestrator.run [TwoSteps.start]) =
          TwoSteps.orchestrator.run [TwoSteps.start] ∧
      ∃ i', (TwoSteps.orchestrator.exec (TwoSteps.orchestrator.run [TwoSteps.start])
        (.pause (TwoSteps.call "p"))).inst = some i' ∧ i'.version = i.version ∧
        i'.status = i.status := by
  have hvers : (orchestrator.run [start]).inst.map (·.version) = some 1 := by
    decide +kernel
  obtain ⟨i, hi, hone⟩ := map_eq_some_iff.1 hvers
  obtain ⟨hjourn, href, hcont⟩ := journal_run orchestrator [start]
  refine ⟨i, hi, hjourn i hi, ?_, hcont _ i ⟨call "p", .inl rfl⟩ hi⟩
  refine href _ _ _ _ () _ _ _ _ _ (ends_pure.2 ⟨rfl, rfl⟩) fun row hrow => .inl ?_
  rw [← some.inj (hi.symm.trans hrow), hone]
  decide

/-! ## Instances at rest -/

/-- No transition was made, and nothing was sent. -/
structure Db.Rests (db db' : Db) : Prop where
  inst : ∃ state version, db'.inst =
    db.inst.map ({ · with controlState := state, controlVersion := version })
  transitions : db'.transitions = db.transitions
  outbox : db'.outbox = db.outbox

theorem Db.Rests.refl (db : Db) : db.Rests db := by
  refine ⟨?_, rfl, rfl⟩
  cases db.inst with
  | none => exact ⟨.active, 0, rfl⟩
  | some i => exact ⟨i.controlState, i.controlVersion, rfl⟩

theorem Db.Rests.trans (h : db.Rests db1) (h' : db1.Rests db') : db.Rests db' := by
  obtain ⟨⟨_, _, hinst⟩, htrans, hout⟩ := h
  obtain ⟨⟨state, version, hinst'⟩, htrans', hout'⟩ := h'
  refine ⟨⟨state, version, ?_⟩, htrans'.trans htrans, hout'.trans hout⟩
  rw [hinst', hinst, Option.map_map]
  rfl

theorem Kept.rests (h : Kept db db') : db.Rests db' := ⟨h.inst, h.transitions, h.outbox⟩

/-- An instance that is not `ACTIVE` is only kept. -/
theorem Step.kept (h : Step o db op db') (hi : db.inst = some i)
    (hpaus : i.controlState ≠ .active) : Kept db db' := by
  rcases h.cases with started | kept | ⟨j, k, inst, hact, -⟩
  · rw [started.vacant] at hi
    cases hi
  · exact kept
  · obtain rfl := some.inj (hi.symm.trans inst)
    exact absurd hact hpaus

theorem Move.edge (h : Move o i k db db') : ∃ dst, i.status.canTransitionTo dst := by
  cases h with
  | escalate can | finish _ can | send _ can | wait _ _ can | converge _ can => exact ⟨_, can.edge⟩

/-- No edge leads out of the status of an instance that has ended. -/
theorem Step.rests (h : Step o db op db') (hi : db.inst = some i) (hend : i.status.isTerminal) :
    db.Rests db' := by
  have hfinal (dst : SagaStatus) : i.status.canTransitionTo dst ≠ true := by
    cases hs : i.status <;> rw [hs] at hend <;> cases hend <;> cases dst <;> decide
  rcases h.cases with started | kept | ⟨j, k, inst, -, -, outcome⟩
  · rw [started.vacant] at hi
    cases hi
  · exact kept.rests
  · obtain rfl := some.inj (hi.symm.trans inst)
    cases outcome with
    | stay quiet =>
      refine ⟨?_, quiet.transitions, quiet.outbox⟩
      rw [quiet.inst]
      exact (Db.Rests.refl db).inst
    | again _ reissue =>
      obtain ⟨-, -, -, can, -⟩ := reissue
      exact absurd can.edge (hfinal _)
    | leave _ move =>
      obtain ⟨dst, hedge⟩ := move.edge
      exact absurd hedge (hfinal dst)

/-- **Rest.** An instance that has ended makes no transition and sends no command any more, whatever
arrives. As long as one is paused, no result, timer or call changes its steps and attempts, either. -/
theorem rest_run (o : Orchestrator) (ops more : List Op) :
    (∀ i, (o.run ops).inst = some i → i.status.isTerminal →
      (o.run ops).Rests (o.run (ops ++ more))) ∧
    (Along o.exec (fun db _ => ∃ i, db.inst = some i ∧ i.controlState = .paused) (o.run ops) more →
      (o.run ops).Rests (o.run (ops ++ more)) ∧
      (o.run (ops ++ more)).steps = (o.run ops).steps ∧
      (o.run (ops ++ more)).attempts = (o.run ops).attempts) := by
  have hstep (ops : List Op) (op : Op) : Step o (o.run ops) op (o.run (ops ++ [op])) := by
    rw [Orchestrator.run_concat]
    exact Orchestrator.exec_step (o.based_run ops).toKeyed op
  refine ⟨fun i hi hend => ?_, fun h => ?_⟩
  · induction more generalizing ops i with
    | nil =>
      rw [append_nil]
      exact .refl _
    | cons op more ih =>
      have hrest := (hstep ops op).rests hi hend
      obtain ⟨state, version, hinst⟩ := hrest.inst
      rw [hi] at hinst
      rw [append_cons]
      exact hrest.trans (ih _ _ hinst hend)
  · induction more generalizing ops with
    | nil =>
      rw [append_nil]
      exact ⟨.refl _, rfl, rfl⟩
    | cons op more ih =>
      obtain ⟨⟨i, hi, hpaus⟩, h⟩ := h
      have hkept := (hstep ops op).kept hi (by rw [hpaus]; decide)
      rw [← Orchestrator.run_concat] at h
      obtain ⟨hrest, hsteps, hatts⟩ := ih _ h
      rw [append_cons]
      exact ⟨hkept.rests.trans hrest, hsteps.trans hkept.steps, hatts.trans hkept.attempts⟩

/-! ## Commands -/

def SagaCommandEnvelope.key (c : SagaCommandEnvelope) : StepName × StepPhase × AttemptNo :=
  (c.step, c.phase, c.attempt)

/-- One command for every attempt, in their order, numbered upwards for each step and phase. -/
structure Db.Commanded (db : Db) : Prop where
  keys : db.outbox.map (·.key) = db.attempts.map (·.key)
  numbers : db.outbox.Pairwise fun c c' =>
    c.step = c'.step → c.phase = c'.phase → c.attempt < c'.attempt

theorem Step.commanded (h : Step o db op db') (hc : db.Commanded) : db'.Commanded := by
  obtain ⟨attempts, hatts, ⟨hsame, hout⟩ | ⟨row, command, hsent⟩⟩ := h.issued
  · refine ⟨?_, ?_⟩
    · rw [hout, hsame, hatts, hc.keys]
    · rw [hout]
      exact hc.numbers
  have hkey : row.key = command.key := by
    rw [SagaStepAttemptRow.key, hsent.step, hsent.phase, hsent.attempt]
    rfl
  constructor
  · rw [hsent.attempts_eq, hsent.outbox_eq, map_append, map_append, hatts, hc.keys, map_singleton,
      map_singleton, hkey]
  · rw [hsent.outbox_eq, pairwise_append]
    refine ⟨hc.numbers, pairwise_singleton _ _, fun c hmem c' hmem' hst hph => ?_⟩
    obtain rfl := mem_singleton.1 hmem'
    -- an earlier command has its attempt among the earlier ones
    obtain ⟨a, ha, he⟩ := mem_map.1 (hatts.trans hc.keys.symm ▸ mem_map_of_mem hmem)
    obtain ⟨hst', hph', hatt'⟩ : a.step = c.step ∧ a.phase = c.phase ∧ a.attempt = c.attempt := by
      simpa [SagaStepAttemptRow.key, SagaCommandEnvelope.key] using he
    have hlt := hsent.fresh a ha (hst'.trans (hst.trans hsent.step.symm))
      (hph'.trans (hph.trans hsent.phase.symm))
    rwa [hatt', hsent.attempt] at hlt

/-- **Commands.** Every attempt is commanded once. -/
theorem commands_run (o : Orchestrator) (ops : List Op) : (o.run ops).Commanded :=
  Orchestrator.inv_run_all (fun _ _ _ _ hc hstep => hstep.commanded hc) ⟨rfl, .nil⟩ ops

end NasaRuntime.Saga
