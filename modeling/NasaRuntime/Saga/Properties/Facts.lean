import NasaRuntime.Saga.Properties.Redelivery

/-!
# The way forward and its facts

While a saga goes forward, its current step divides the journal: every step behind it succeeded,
and every step ahead of it is untouched. Late results, cancel adjudications and resolve answers
write forward facts too, but only of steps that were sent a command, and none of them takes back a
success.

**Theorem (`forward_run`).** In every reachable state a completed saga has only succeeded steps;
while the direction is forward, the steps before the current one succeeded and no step after it
was ever sent an execute command.

Late results and the results of cancel and resolve commands leave a settled column alone. The result
of a compensate command that the instance waits for is written directly, and a row that is being
compensated can already hold a late fact of an earlier attempt or of a resolve query. `Db.Overwrites`
is that situation.

**Theorem (`settled_run`).** From every reachable state, every step keeps the settled forward facts,
the compensations that succeeded and the halts, unless it overwrites. An administrator's operation may
reopen a halt, under its audit row.
-/

namespace NasaRuntime.Saga

open Table List

variable {o : Orchestrator} {i : SagaInstanceRow} {k : Cause} {m : Mode} {db db1 db' : Db} {op : Op}
  {cur : SagaStepRow}

/-! ## The invariant -/

/-- Nothing was sent to the step of this row, and nothing is written in it. -/
structure Untouched (attempts : List SagaStepAttemptRow) (outbox : List SagaCommandEnvelope)
    (r : SagaStepRow) : Prop where
  forwardStatus : r.forwardStatus = .pending
  resolutionStatus : r.resolutionStatus = .none
  compensationStatus : r.compensationStatus = .none
  attempts : ∀ a ∈ attempts, a.step ≠ r.step
  outbox : ∀ c ∈ outbox, c.step ≠ r.step

/-- The current row divides the step journal. -/
structure Advancing (steps : List SagaStepRow) (attempts : List SagaStepAttemptRow)
    (outbox : List SagaCommandEnvelope) (cur : SagaStepRow) : Prop where
  mem : cur ∈ steps
  behind : ∀ r ∈ steps, r.ordinal < cur.ordinal → r.forwardStatus = .succeeded
  ahead : ∀ r ∈ steps, cur.ordinal < r.ordinal → Untouched attempts outbox r

/-- What the current step was sent so far. -/
structure Busy (i : SagaInstanceRow) (attempts : List SagaStepAttemptRow) (cur : SagaStepRow) :
    Prop where
  running : i.status = .running → cur.forwardStatus = .pending ∧ cur.resolutionStatus = .none ∧
    ∀ a ∈ attempts, a.step = cur.step → a.phase = .execute
  cancelling : i.status = .cancelling → cur.resolutionStatus = .none ∧
    ∀ a ∈ attempts, a.step = cur.step → a.phase = .execute ∨ a.phase = .cancel

/-- The journal of an instance on its way forward, and of one that has arrived. -/
structure Db.OnTrack (i : SagaInstanceRow) (db : Db) : Prop where
  forward : i.direction = .forward → ∀ step, i.currentStep = some step →
    ∃ cur, cur.step = step ∧ Advancing db.steps db.attempts db.outbox cur ∧ Busy i db.attempts cur
  completed : i.status = .completed → ∀ r ∈ db.steps, r.forwardStatus = .succeeded

/-! ## Quiet writes -/

variable {P : StepPhase → Prop} {name : StepName} {r cur' : SagaStepRow} {phase : StepPhase}

theorem Quiet.phases (q : Quiet i k m db db') (h : ∀ a ∈ db.attempts, a.step = name → P a.phase) :
    ∀ a ∈ db'.attempts, a.step = name → P a.phase := by
  intro a' ha' hstep
  obtain ⟨a, ha, hs, hp, -⟩ := q.attempt_source ha'
  rw [hp]
  exact h a ha (hs ▸ hstep)

theorem Untouched.quiet (h : Untouched db.attempts db.outbox r)
    (q : Quiet i k m db db') : Untouched db'.attempts db'.outbox r := by
  refine ⟨h.forwardStatus, h.resolutionStatus, h.compensationStatus, fun a' ha' => ?_, ?_⟩
  · obtain ⟨a, ha, hstep, -⟩ := q.attempt_source ha'
    rw [hstep]
    exact h.attempts a ha
  · rw [q.outbox]
    exact h.outbox

theorem Untouched.not_rowChange {r' : SagaStepRow} (h : Untouched db.attempts db.outbox r)
    (har : Arises o i db op k) (hcur : i.currentStep ≠ some r.step)
    (hch : RowChange i k m r r') : False := by
  rcases hch.touches with ⟨c, rfl, hstep⟩ | hc | hc | hc
  · obtain ⟨a, ha, hast, -⟩ := har.inFlight
    exact h.attempts a ha (hast.trans hstep.symm)
  · exact hcur hc
  · rw [h.compensationStatus] at hc
    cases hc
  · rw [h.resolutionStatus] at hc
    cases hc

/-- **Quiet writes** keep the division by the current row. -/
theorem Advancing.quiet (h : Advancing db.steps db.attempts db.outbox cur)
    (hnod : (db.steps.map (·.step)).Nodup) (hcur : i.currentStep = some cur.step)
    (har : Arises o i db op k) (q : Quiet i k m db db') :
    ∃ cur', (cur' = cur ∨ RowChange i k m cur cur') ∧ cur'.step = cur.step ∧
      Advancing db'.steps db'.attempts db'.outbox cur' := by
  have hsame : ∀ r ∈ db.steps, i.currentStep = some r.step → r = cur := fun r hr hc =>
    eq_of_key hnod hr h.mem (Option.some.inj (hc.symm.trans hcur))
  obtain ⟨cur', hmem', hch⟩ := q.steps.target h.mem
  have hkey : cur'.step = cur.step ∧ cur'.ordinal = cur.ordinal := by
    rcases hch with rfl | hch
    · exact ⟨rfl, rfl⟩
    · exact ⟨hch.keeps.1, hch.keeps.2.1⟩
  refine ⟨cur', hch, hkey.1, hmem', fun r' hr' hlt => ?_, fun r' hr' hlt => ?_⟩
  · obtain ⟨r, hr, hrc⟩ := q.steps.source hr'
    rcases hrc with rfl | hrc
    · exact h.behind r' hr (hkey.2 ▸ hlt)
    · rw [hkey.2, hrc.keeps.2.1] at hlt
      have hsucc := h.behind r hr hlt
      rcases hrc.forwardStatus har.inst with he | hopen | ⟨-, hc⟩
      · exact he.trans hsucc
      · rw [hsucc] at hopen
        cases hopen
      · rw [hsame r hr hc] at hlt
        exact absurd hlt (Nat.lt_irrefl _)
  · obtain ⟨r, hr, hrc⟩ := q.steps.source hr'
    rcases hrc with rfl | hrc
    · exact (h.ahead r' hr (hkey.2 ▸ hlt)).quiet q
    · rw [hkey.2, hrc.keeps.2.1] at hlt
      refine absurd hrc fun hrc => (h.ahead r hr hlt).not_rowChange har (fun hc => ?_) hrc
      rw [hsame r hr hc] at hlt
      exact Nat.lt_irrefl _ hlt

/-- What the current step was sent, over a step that does not leave. -/
theorem Busy.quiet (h : Busy i db.attempts cur) (hcur : i.currentStep = some cur.step)
    (har : Arises o i db op k) (q : Quiet i k m db db') (hm : m ≠ .leave)
    (hch : cur' = cur ∨ RowChange i k m cur cur') : Busy i db'.attempts cur' := by
  rcases hch with rfl | hch
  · refine ⟨fun hs => ?_, fun hs => ?_⟩
    · obtain ⟨hf, hr, ha⟩ := h.running hs
      exact ⟨hf, hr, q.phases (P := (· = .execute)) ha⟩
    · obtain ⟨hr, ha⟩ := h.cancelling hs
      exact ⟨hr, q.phases (P := fun p => p = .execute ∨ p = .cancel) ha⟩
  · cases hch with
    | @deferred c _ _ patch merged hstep hcold hlat hpatch hmerge =>
      obtain ⟨a, ha, hast, haph, -⟩ := har.inFlight
      have hnot : ∀ p : StepPhase, c.phase = p → i.status ≠ p.hotStatus := by
        rintro p rfl hs
        rw [← har.inst c rfl] at hs hcur
        exact hcold ⟨hs, hstep ▸ hcur⟩
      refine ⟨fun hs => ?_, fun hs => ?_⟩
      · -- an execute result of the step a running instance is at is not late
        have hph := (h.running hs).2.2 a ha (hast.trans hstep.symm)
        exact absurd hs (hnot .execute (haph.symm.trans hph))
      · obtain ⟨hr, ha'⟩ := h.cancelling hs
        refine ⟨?_, q.phases (P := fun p => p = .execute ∨ p = .cancel) ha'⟩
        rcases ha' a ha (hast.trans hstep.symm) with hph | hph
        · have hex : c.phase = .execute := haph.symm.trans hph
          have hres := ((deferredPatch_ok hpatch).1 hex).2
          rcases (apply_merge (Orchestrator.merge_eq_some hmerge)).2.2 with he | ⟨-, he⟩
          · rw [he, hr]
          · rw [hres] at he
            cases he
        · exact absurd hs (hnot .cancel (haph.symm.trans hph))
    | _ => exact absurd rfl hm

/-! ## Moves -/

variable {n : AttemptNo} {version : Nat}

/-- What a step was sent, after a command of this phase. -/
theorem Db.Issues.phases {step : StepName} (issues : Db.Issues o i step phase n version db db')
    (h : ∀ a ∈ db.attempts, a.step = name → P a.phase) (hph : P phase) :
    ∀ a ∈ db'.attempts, a.step = name → P a.phase := by
  obtain ⟨row, hatts, -, hrow, -⟩ := issues.attempts
  intro a ha hstep
  rw [hatts] at ha
  rcases mem_append.1 ha with ha | ha
  · exact h a ha hstep
  · rw [mem_singleton.1 ha, hrow]
    exact hph

theorem Db.Issues.advancing (issues : Db.Issues o i cur.step phase n version db db')
    (h : Advancing db.steps db.attempts db.outbox cur) (hnod : (db.steps.map (·.step)).Nodup) :
    Advancing db'.steps db'.attempts db'.outbox (cur.project phase n) := by
  have htagg := SagaStepRow.Tagged.project cur phase n
  obtain ⟨row, hatts, hrow, -⟩ := issues.attempts
  obtain ⟨command, houtb, hcomm, -⟩ := issues.outbox
  rw [issues.steps, hatts, houtb]
  refine ⟨mem_updateWhere.2 ⟨_, h.mem, by simp⟩, fun r' hr' hlt => ?_, fun r' hr' hlt => ?_⟩
  · obtain ⟨r, hr, rfl⟩ := mem_updateWhere.1 hr'
    rw [htagg.ordinal] at hlt
    split at hlt
    · have ht := SagaStepRow.Tagged.project r phase n
      rw [ht.ordinal] at hlt
      rw [if_pos ‹_›, ht.forwardStatus]
      exact h.behind r hr hlt
    · rw [if_neg ‹_›]
      exact h.behind r hr hlt
  · obtain ⟨r, hr, rfl⟩ := mem_updateWhere.1 hr'
    rw [htagg.ordinal] at hlt
    by_cases hs : r.step = cur.step
    · rw [eq_of_key hnod hr h.mem hs] at hlt
      simp only [decide_true, if_true, htagg.ordinal] at hlt
      exact absurd hlt (Nat.lt_irrefl _)
    · simp only [hs, decide_false, Bool.false_eq_true, if_false] at hlt ⊢
      have hu := h.ahead r hr hlt
      refine ⟨hu.forwardStatus, hu.resolutionStatus, hu.compensationStatus, fun a ha => ?_,
        fun c hc => ?_⟩
      · rcases mem_append.1 ha with ha | ha
        · exact hu.attempts a ha
        · rw [mem_singleton.1 ha, hrow]
          exact Ne.symm hs
      · rcases mem_append.1 hc with hc | hc
        · exact hu.outbox c hc
        · rw [mem_singleton.1 hc, hcomm]
          exact Ne.symm hs

/-- The next pending step after one that succeeded divides the journal as well, and was sent
nothing yet. -/
theorem Advancing.next {steps : List SagaStepRow} {attempts : List SagaStepAttemptRow}
    {outbox : List SagaCommandEnvelope} {d : WorkflowDefinition}
    (h : Advancing steps attempts outbox cur) (hsort : steps.Pairwise (·.ordinal < ·.ordinal))
    (hdone : cur.forwardStatus = .succeeded)
    (hnext : nextPendingForward d steps = .ok (some name)) :
    ∃ r, r.step = name ∧ Advancing steps attempts outbox r ∧ Untouched attempts outbox r := by
  obtain ⟨before, r, after, hsplit, hname, hbef, hpend, haft⟩ := nextPendingForward_some hnext
  -- a pending row is neither behind the current one nor the current one
  have hah : ∀ x ∈ steps, x.forwardStatus = .pending → Untouched attempts outbox x := by
    intro x hx hp
    refine h.ahead x hx ?_
    rcases Nat.lt_trichotomy x.ordinal cur.ordinal with hlt | heq | hlt
    · rw [h.behind x hx hlt] at hp
      cases hp
    · have hord : (steps.map (·.ordinal)).Nodup := pairwise_map.2 (hsort.imp Nat.ne_of_lt)
      rw [eq_of_key hord hx h.mem heq, hdone] at hp
      cases hp
    · exact hlt
  have hmem : r ∈ steps := hsplit ▸ mem_append_right _ mem_cons_self
  obtain ⟨-, hright, hcross⟩ := pairwise_append.1 (hsplit ▸ hsort)
  refine ⟨r, hname, ⟨hmem, fun x hx hlt => ?_, fun x hx hlt => ?_⟩, hah r hmem hpend⟩
  · rcases mem_append.1 (hsplit ▸ hx) with hx | hx
    · exact hbef x hx
    · rcases mem_cons.1 hx with rfl | hx
      · exact absurd hlt (Nat.lt_irrefl _)
      · exact absurd hlt (Nat.lt_asymm ((pairwise_cons.1 hright).1 x hx))
  · rcases mem_append.1 (hsplit ▸ hx) with hx' | hx'
    · exact absurd hlt (Nat.lt_asymm (hcross x hx' r mem_cons_self))
    · rcases mem_cons.1 hx' with rfl | hx'
      · exact absurd hlt (Nat.lt_irrefl _)
      · exact hah x hx (haft x hx')

/-- The current row before a move, after the quiet writes of a step. -/
structure Leaving (i : SagaInstanceRow) (k : Cause) (db : Db) (cur : SagaStepRow) : Prop where
  advancing : Advancing db.steps db.attempts db.outbox cur
  timedOut : ∀ t, k = .timer t → i.status = .running → cur.forwardStatus = .timedOut →
    cur.resolutionStatus = .none ∧ ∀ a ∈ db.attempts, a.step = cur.step → a.phase = .execute

/-- A timeout finds the current step as a running instance left it. -/
theorem Busy.leaving (h : Busy i db.attempts cur) (q : Quiet i k .leave db db')
    (hch : cur' = cur ∨ RowChange i k .leave cur cur')
    (hadv : Advancing db'.steps db'.attempts db'.outbox cur') : Leaving i k db' cur' := by
  refine ⟨hadv, ?_⟩
  rintro t rfl hs hout
  obtain ⟨hf, hr, ha⟩ := h.running hs
  rcases hch with rfl | hch
  · rw [hf] at hout
    cases hout
  · cases hch with
    | timedOut _ _ hpatch =>
      rcases hpatch with rfl | rfl
      · exact ⟨hr, q.phases (P := (· = .execute)) ha⟩
      · cases hout

theorem Db.OnTrack.of_compensating {i' : SagaInstanceRow} (hdir : i'.direction = .compensating)
    (hstat : i'.status ≠ .completed) : db.OnTrack i' := by
  refine ⟨fun h => ?_, fun h => absurd h hstat⟩
  rw [hdir] at h
  cases h

/-- **Moves** keep an instance on its track. -/
theorem Move.onTrack (h : Move o i k db db') (hnod : (db.steps.map (·.step)).Nodup)
    (hsort : db.steps.Pairwise (·.ordinal < ·.ordinal))
    (hleav : i.direction = .forward → ∀ step, i.currentStep = some step →
      ∃ cur, cur.step = step ∧ Leaving i k db cur) (hc : i.Coherent)
    (hk : k.On i) :
    ∀ i', db'.inst = some i' → db'.OnTrack i' := by
  intro i' hi'
  cases h with
  | escalate can =>
    cases hi'
    refine ⟨fun hdir step hcur => ?_, nofun⟩
    obtain ⟨cur, hstep, hl⟩ := hleav hdir step hcur
    exact ⟨cur, hstep, hl.advancing, nofun, nofun⟩
  | finish guard can =>
    cases hi'
    refine ⟨nofun, fun hs => ?_⟩
    cases guard with
    | complete hseg hdef hnext => exact nextPendingForward_none hnext
    | close hman => cases hs
  | @send dst dir step phase plan n _ guard can issues =>
    rw [issues.inst, Db.freezes_inst] at hi'
    cases hi'
    cases guard with
    | forward hseg hdef hdone hnext =>
      have hdir := hc.of_forwardSegment hseg
      refine ⟨fun _ step' hcur' => ?_, nofun⟩
      cases hcur'
      obtain ⟨old, hold⟩ := Option.isSome_iff_exists.1 (hc.current (by
        rcases hseg with hs | hs | ⟨hs, -⟩ <;> rw [hs] <;> rfl))
      obtain ⟨cur, hstep, hl⟩ := hleav hdir old hold
      obtain ⟨r, rfl, hadv, hu⟩ := hl.advancing.next hsort
        (hdone cur hl.advancing.mem (hstep ▸ hold)) hnext
      have htagg := SagaStepRow.Tagged.project r .execute n
      refine ⟨_, htagg.step, issues.advancing hadv hnod, fun _ => ⟨?_, ?_, ?_⟩, nofun⟩
      · rw [htagg.forwardStatus]
        exact hu.forwardStatus
      · rw [htagg.resolutionStatus]
        exact hu.resolutionStatus
      · rw [htagg.step]
        exact issues.phases (P := (· = .execute)) (fun a ha has => absurd has (hu.attempts a ha)) rfl
    | barrier hcause hstat hcur hout =>
      refine ⟨fun _ step' hcur' => ?_, nofun⟩
      cases hcur'
      obtain ⟨cur, rfl, hl⟩ := hleav (hc.forward (.inl hstat)) step hcur
      obtain ⟨hr, ha⟩ := hl.timedOut _ hcause hstat (hout cur hl.advancing.mem rfl)
      have htagg := SagaStepRow.Tagged.project cur .cancel n
      refine ⟨_, htagg.step, issues.advancing hl.advancing hnod, nofun, fun _ => ⟨?_, ?_⟩⟩
      · rw [htagg.resolutionStatus]
        exact hr
      · rw [htagg.step]
        exact issues.phases (P := fun p => p = .execute ∨ p = .cancel)
          (fun a hmem has => .inl (ha a hmem has)) (.inr rfl)
    | freeze hseg hdef hplan hfirst | next hseg hdef hnext | requeue hstat hdir hcur
    | recover hstat hdef hsteps hnext => exact .of_compensating rfl nofun
  | @wait dir step a due db1 _ guard hcur can budget query =>
    rw [(Db.opened_inst budget query).1] at hi'
    cases hi'
    refine ⟨fun hdir step' hcur' => ?_, nofun⟩
    cases hcur'
    obtain ⟨cur, rfl, hl⟩ := hleav ((guard.direction hc hk).symm.trans hdir) step hcur
    obtain ⟨hdb1, -⟩ := budget
    have hadv : Advancing db1.steps db1.attempts db1.outbox cur := by
      rw [hdb1, Db.schedule_steps, Db.schedule_attempts, Db.schedule_outbox]
      exact hl.advancing
    rcases query with rfl | ⟨n, issues⟩
    · exact ⟨cur, rfl, hadv, nofun, nofun⟩
    · have hnod1 : (db1.steps.map (·.step)).Nodup := by
        rw [hdb1, Db.schedule_steps]
        exact hnod
      exact ⟨_, (SagaStepRow.Tagged.project cur .resolve n).step, issues.advancing hadv hnod1,
        nofun, nofun⟩
  | converge guard can hdb1 proof can' =>
    cases hi'
    exact .of_compensating rfl nofun

/-! ## Steps -/

theorem Quiet.completed (q : Quiet i k m db db') (hk : k.On i)
    (hstat : i.status = .completed) (h : ∀ r ∈ db.steps, r.forwardStatus = .succeeded) :
    ∀ r ∈ db'.steps, r.forwardStatus = .succeeded := by
  intro r' hr'
  obtain ⟨r, hr, hch⟩ := q.steps.source hr'
  rcases hch with rfl | hch
  · exact h r' hr
  · rcases hch.forwardStatus hk with he | hopen | ⟨hrunn, -⟩
    · exact he.trans (h r hr)
    · rw [h r hr] at hopen
      cases hopen
    · rw [hstat] at hrunn
      cases hrunn

theorem Outcome.onTrack (h : Outcome o i k db db') (hb : db.Based o) (hinst : db.inst = some i)
    (har : Arises o i db op k) (ht : db.OnTrack i) :
    ∀ i', db'.inst = some i' → db'.OnTrack i' := by
  have hc := hb.coherent i hinst
  cases h with
  | stay quiet =>
    intro i' hi'
    rw [quiet.inst, hinst] at hi'
    cases hi'
    refine ⟨fun hdir step hcur => ?_, fun hs => quiet.completed har.inst hs (ht.completed hs)⟩
    obtain ⟨cur, rfl, hadv, hbusy⟩ := ht.forward hdir step hcur
    obtain ⟨cur', hch, hstep, hadv'⟩ := hadv.quiet hb.steps hcur har quiet
    exact ⟨cur', hstep, hadv', hbusy.quiet hcur har quiet (by decide) hch⟩
  | @again db1 quiet reissue =>
    cases reissue with
    | @send step phase n _ hph hstat hcur can issues =>
      intro i' hi'
      rw [issues.inst] at hi'
      cases hi'
      refine ⟨fun hdir step' hcur' => ?_, fun hs => ?_⟩
      · cases hcur'
        obtain ⟨cur, rfl, hadv, hbusy⟩ := ht.forward hdir step hcur
        obtain ⟨cur', hch, hstep, hadv'⟩ := hadv.quiet hb.steps hcur har quiet
        have hbusy' := hbusy.quiet hcur har quiet (by decide) hch
        rw [← hstep] at issues
        have hnod := ((hb.laid i hinst).quiet quiet).nodup
        have htagg := SagaStepRow.Tagged.project cur' phase n
        refine ⟨_, htagg.step.trans hstep, issues.advancing hadv' hnod, fun hs => ?_, fun hs => ?_⟩
        · -- a running instance has no command to send again
          rw [show i.status = .running from hs] at hstat
          cases phase <;> first | exact absurd rfl hph | cases hstat
        · obtain ⟨hr, ha⟩ := hbusy'.cancelling hs
          refine ⟨htagg.resolutionStatus.trans hr, ?_⟩
          rw [htagg.step]
          refine issues.phases (P := fun p => p = .execute ∨ p = .cancel) ha ?_
          rw [show i.status = .cancelling from hs] at hstat
          cases phase <;> first | exact .inr rfl | cases hstat
      · rw [show i.status = .completed from hs] at hstat
        cases phase <;> cases hstat
  | @leave db1 quiet move =>
    have hlaid := (hb.laid i hinst).quiet quiet
    refine move.onTrack hlaid.nodup hlaid.ordered (fun hdir step hcur => ?_) hc har.inst
    obtain ⟨cur, rfl, hadv, hbusy⟩ := ht.forward hdir step hcur
    obtain ⟨cur', hch, hstep, hadv'⟩ := hadv.quiet hb.steps hcur har quiet
    exact ⟨cur', hstep, hbusy.leaving quiet hch hadv'⟩

theorem Started.onTrack (h : Started o db db') (hk : db.Keyed) :
    ∀ i', db'.inst = some i' → db'.OnTrack i' := by
  obtain ⟨hvac, row, d, first, kind, id, -, hfirst, hstat, -, -, hcur, -, -, db1, issues,
    hdeadl⟩ := h
  obtain ⟨-, hatts, -, -, houtb⟩ := hk.empty hvac
  obtain ⟨rest, hrest⟩ : ∃ rest, d.steps = first :: rest := by
    cases hd : d.steps with
    | nil => rw [hd] at hfirst; cases hfirst
    | cons x rest => rw [hd] at hfirst; cases hfirst; exact ⟨rest, rfl⟩
  have hnam : d.names = first.name :: rest.map (·.name) := by
    rw [WorkflowDefinition.names, hrest, map_cons]
  let cur : SagaStepRow := { step := first.name, ordinal := 1 }
  have hnod : (((d.names.zipIdx 1).map fun key =>
      ({ step := key.1, ordinal := key.2 } : SagaStepRow)).map (·.step)).Nodup := by
    rw [map_map]
    change ((d.names.zipIdx 1).map Prod.fst).Nodup
    rw [zipIdx_map_fst]
    exact d.names_nodup
  have hadv : Advancing ((d.names.zipIdx 1).map fun key =>
      ({ step := key.1, ordinal := key.2 } : SagaStepRow)) db.attempts db.outbox cur := by
    rw [hatts, houtb]
    refine ⟨?_, fun r hr hlt => ?_, fun r hr _ => ?_⟩
    · rw [hnam, zipIdx_cons]
      exact mem_cons_self
    · obtain ⟨key, hkey, rfl⟩ := mem_map.1 hr
      exact absurd (le_snd_of_mem_zipIdx hkey) (Nat.not_le_of_lt hlt)
    · obtain ⟨key, hkey, rfl⟩ := mem_map.1 hr
      exact ⟨rfl, rfl, rfl, fun a ha => (by cases ha), fun c hc => (by cases hc)⟩
  have hadv1 : Advancing db1.steps db1.attempts db1.outbox (cur.project .execute 1) :=
    Db.Issues.advancing issues hadv hnod
  have htagg := SagaStepRow.Tagged.project cur .execute 1
  obtain ⟨attempt, hatts1, -, hph, -⟩ := issues.attempts
  have hphas : ∀ a ∈ db1.attempts, a.phase = .execute := by
    intro a ha
    rw [hatts1] at ha
    simp only [hatts, nil_append, mem_singleton] at ha
    rw [ha, hph]
  obtain ⟨timers, rfl⟩ := Db.deadline_eq hdeadl
  intro i' hi'
  cases issues.inst.symm.trans hi'
  refine ⟨fun _ step hs => ?_, fun hs => ?_⟩
  · cases hcur.symm.trans hs
    refine ⟨_, htagg.step, hadv1, fun _ => ⟨?_, ?_, fun a ha _ => hphas a ha⟩, fun hs => ?_⟩
    · rw [htagg.forwardStatus]
    · rw [htagg.resolutionStatus]
    · rw [hstat] at hs
      cases hs
  · rw [hstat] at hs
    cases hs

/-- **One step keeps the instance on its track.** -/
theorem Step.onTrack (h : Step o db op db') (hb : db.Based o)
    (ht : ∀ i, db.inst = some i → db.OnTrack i) : ∀ i, db'.inst = some i → db'.OnTrack i := by
  rcases h.cases with started | kept | ⟨i, k, inst, -, arises, outcome⟩
  · exact started.onTrack hb.toKeyed
  · intro i' hi'
    obtain ⟨i, state, version, inst, rfl⟩ := kept.source hi'
    have h := ht i inst
    refine ⟨?_, ?_⟩
    · rw [kept.steps, kept.attempts, kept.outbox]
      intro hdir step hcur
      obtain ⟨cur, hstep, hadv, hbusy⟩ := h.forward hdir step hcur
      exact ⟨cur, hstep, hadv, hbusy.running, hbusy.cancelling⟩
    · rw [kept.steps]
      exact h.completed
  · exact outcome.onTrack hb inst arises (ht _ inst)

/-! ## Every run -/

theorem onTrack_run (o : Orchestrator) (ops : List Op) :
    ∀ i, (o.run ops).inst = some i → (o.run ops).OnTrack i :=
  Orchestrator.inv_run_all (J := fun db => ∀ i, db.inst = some i → db.OnTrack i)
    (fun _ _ _ hb ht hstep => hstep.onTrack hb ht) (fun _ h => by cases h) ops

theorem Db.Laid.stepRow (h : db.Laid o i) (hr : r ∈ db.steps) : db.stepRow r.step = some r :=
  find?_of_mem h.nodup hr

/-- **The way forward**, in every reachable state. -/
theorem forward_run (o : Orchestrator) (ops : List Op) (i : SagaInstanceRow)
    (hinst : (o.run ops).inst = some i) :
    ∃ d, o.definitionOf i = some d ∧
      (i.status = .completed → ∀ name ∈ d.names, ∃ r, (o.run ops).stepRow name = some r ∧
        r.forwardStatus = .succeeded) ∧
      (i.direction = .forward → ∀ name, i.currentStep = some name →
        ∃ before after, d.names = before ++ name :: after ∧
          (∀ earlier ∈ before, ∃ r, (o.run ops).stepRow earlier = some r ∧
            r.forwardStatus = .succeeded) ∧
          ∀ later ∈ after, ∀ command ∈ (o.run ops).outbox, command.step = later →
            command.phase ≠ .execute) := by
  have hb := o.based_run ops
  have ht := onTrack_run o ops i hinst
  have hlaid := hb.laid i hinst
  obtain ⟨d, hdef, -⟩ := hb.laid i hinst
  have hnam := hlaid.names hdef
  refine ⟨d, hdef, fun hs name hname => ?_, fun hdir name hcur => ?_⟩
  · obtain ⟨r, hr, rfl⟩ := mem_map.1 (hnam ▸ hname)
    exact ⟨r, hlaid.stepRow hr, ht.completed hs r hr⟩
  · obtain ⟨cur, rfl, hadv, -⟩ := ht.forward hdir name hcur
    obtain ⟨before, after, hsplit⟩ := append_of_mem hadv.mem
    obtain ⟨-, hright, hcross⟩ := pairwise_append.1 (hsplit ▸ hlaid.ordered)
    refine ⟨before.map (·.step), after.map (·.step), ?_, ?_, ?_⟩
    · rw [← hnam, hsplit, map_append, map_cons]
    · intro earlier hearl
      obtain ⟨r, hr, rfl⟩ := mem_map.1 hearl
      have hmem : r ∈ (o.run ops).steps := hsplit ▸ mem_append_left _ hr
      exact ⟨r, hlaid.stepRow hmem, hadv.behind r hmem (hcross r hr cur mem_cons_self)⟩
    · intro later hlat command hcomm hstep
      obtain ⟨r, hr, rfl⟩ := mem_map.1 hlat
      have hmem : r ∈ (o.run ops).steps := hsplit ▸ mem_append_right _ (mem_cons_of_mem _ hr)
      have hu := hadv.ahead r hmem ((pairwise_cons.1 hright).1 r hr)
      exact absurd hstep (hu.outbox command hcomm)

/-- After the first of two steps succeeded, the saga is at the second one. -/
theorem forward_run_second :
    ∃ i, (TwoSteps.orchestrator.run
        [TwoSteps.start, TwoSteps.result "a" .execute 1 .succeeded 1]).inst = some i ∧
      i.direction = .forward ∧ i.currentStep = some "b" ∧
      ∃ d before after, TwoSteps.orchestrator.definitionOf i = some d ∧
        d.names = before ++ "b" :: after ∧
        ∀ earlier ∈ before, ∃ r, (TwoSteps.orchestrator.run
          [TwoSteps.start, TwoSteps.result "a" .execute 1 .succeeded 1]).stepRow earlier = some r ∧
            r.forwardStatus = .succeeded := by
  have hst : (TwoSteps.orchestrator.run
      [TwoSteps.start, TwoSteps.result "a" .execute 1 .succeeded 1]).inst.map
        (fun i => (i.direction, i.currentStep)) = some (.forward, some "b") := by
    decide +kernel
  obtain ⟨i, hinst, hi⟩ := Option.map_eq_some_iff.1 hst
  obtain ⟨hdir, hcur⟩ := Prod.mk.inj hi
  obtain ⟨d, hdef, -, hforw⟩ := forward_run TwoSteps.orchestrator _ i hinst
  obtain ⟨before, after, hnam, hbef, -⟩ := hforw hdir "b" hcur
  exact ⟨i, hinst, hdir, hcur, d, before, after, hdef, hnam, hbef⟩

open SagaStepRow Orchestrator TwoSteps

variable {r' r'' : SagaStepRow}

/-! ## What is kept -/

/-- The operation is an administrator's, and its audit row is there. -/
def Op.Reopens (op : Op) (db' : Db) (action : ManagementAction) : Prop :=
  ∃ id, op.retry = some (action, id) ∧ db'.Audited action id

/-- The settled facts of `r` are those of `r'`. A row that was halted may be reopened by `op`, which
leaves its audit row in `db'`. -/
structure SagaStepRow.Keeps (op : Op) (db' : Db) (r r' : SagaStepRow) : Prop where
  forward : r.forwardStatus ∈ [StepForwardStatus.succeeded, .rejected, .cancelled, .halted] →
    r'.forwardStatus = r.forwardStatus
  compensated : r.compensationStatus = .succeeded → r'.compensationStatus = .succeeded
  halted : r.compensationStatus = .halted → r'.compensationStatus = .halted ∨
    r'.compensationStatus = .pending ∧ op.Reopens db' .retryFrozenCompensation
  unresolved : r.resolutionStatus = .halted → r'.resolutionStatus = .halted ∨
    r'.resolutionStatus = .none ∧ op.Reopens db' .retryFrozenCompensation ∨
    r'.resolutionStatus = .pending ∧ op.Reopens db' .retryResolution

/-- The step from `db` to `db'` keeps the settled facts of every row. -/
def Db.KeepsFacts (db : Db) (op : Op) (db' : Db) : Prop :=
  ∀ step r, db.stepRow step = some r → ∃ r', db'.stepRow step = some r' ∧ r.Keeps op db' r'

/-- A first compensate result that the instance waits for, while the row of its step already holds
another settled fact. -/
def Db.Overwrites (db : Db) : Op → Prop
  | .result e _ _ => ∃ i r, db.inst = some i ∧ i.controlState = .active ∧
      i.status = .compensating ∧ i.currentStep = some e.step ∧ e.phase = .compensate ∧
      db.InFlight e.step e.phase e.attempt ∧ db.stepRow e.step = some r ∧
      ((r.compensationStatus = .succeeded ∧ e.status ≠ .succeeded) ∨
        (r.compensationStatus = .halted ∧ e.status ≠ .halted) ∨
        (r.resolutionStatus = .halted ∧ e.status = .unknown))
  | _ => False

theorem SagaStepRow.Keeps.refl (op : Op) (db' : Db) (r : SagaStepRow) : r.Keeps op db' r :=
  ⟨fun _ => rfl, id, .inl, .inl⟩

theorem SagaStepRow.Keeps.tagged (h : r.Keeps op db' r') (ht : r'.Tagged r'') :
    r.Keeps op db' r'' := by
  have hcomp (hopen : r'.compensationStatus ≠ .none) :
      r''.compensationStatus = r'.compensationStatus := by
    rcases ht.compensationStatus with he | ⟨hnone, -⟩
    · exact he
    · exact absurd hnone hopen
  refine ⟨fun hs => ht.forwardStatus.trans (h.forward hs), fun hs => ?_, fun hs => ?_, fun hs => ?_⟩
  · have hs' := h.compensated hs
    rw [hcomp (by rw [hs']; decide), hs']
  · refine (h.halted hs).imp (fun hs' => ?_) (And.imp_left fun hs' => ?_)
    all_goals rw [hcomp (by rw [hs']; decide), hs']
  · rw [ht.resolutionStatus]
    exact h.unresolved hs

/-! ## One row -/

variable {c : ResultContext} {patch : StepJournalPatch}

theorem SagaStepRow.Keeps.merged {merged : StepJournalPatch}
    (h : c.merge r patch = some merged) : r.Keeps op db' (r.apply merged) := by
  obtain ⟨hf, hc, hr⟩ := apply_merge (merge_eq_some h)
  refine ⟨fun hs => ?_, fun hs => ?_, fun hs => .inl ?_, fun hs => .inl ?_⟩
  · rcases hf with he | ⟨hopen, -⟩
    · exact he
    · simp only [mem_cons, not_mem_nil, or_false] at hs
      rcases hs with hs | hs | hs | hs <;> rw [hs] at hopen <;> cases hopen
  · rcases hc with he | ⟨hopen, -⟩
    · exact he.trans hs
    · rw [hs] at hopen
      cases hopen
  · rcases hc with he | ⟨hopen, -⟩
    · exact he.trans hs
    · rw [hs] at hopen
      cases hopen
  · rcases hr with he | ⟨hopen, -⟩
    · exact he.trans hs
    · rw [hs] at hopen
      cases hopen

/-- A write into a row whose forward and resolution columns are not settled, that leaves its
compensation alone. -/
theorem SagaStepRow.Keeps.of_open
    (hforw : r.forwardStatus.isOpen = true ∨ r'.forwardStatus = r.forwardStatus)
    (hcomp : r'.compensationStatus = r.compensationStatus)
    (hres : r.resolutionStatus ≠ .halted) : r.Keeps op db' r' := by
  refine ⟨fun hs => ?_, hcomp.trans, fun hs => .inl (hcomp.trans hs), fun hs => absurd hs hres⟩
  rcases hforw with hopen | he
  · simp only [mem_cons, not_mem_nil, or_false] at hs
    rcases hs with hs | hs | hs | hs <;> rw [hs] at hopen <;> cases hopen
  · exact he

/-- The outcome of a compensate command that is not overwriting anything. -/
theorem SagaStepRow.Keeps.of_compensate (hforw : patch.forwardStatus = none)
    (hcomp : patch.compensationStatus = c.status.toCompensation)
    (hres : patch.resolutionStatus = none ∨ (patch.resolutionStatus = some .pending ∧
      c.status = .unknown ∧ c.stepDef.resolution.allowUnknown = true))
    (hclear : ¬ ((r.compensationStatus = .succeeded ∧ c.status ≠ .succeeded) ∨
      (r.compensationStatus = .halted ∧ c.status ≠ .halted) ∨
      (r.resolutionStatus = .halted ∧ c.status = .unknown))) : r.Keeps op db' (r.apply patch) := by
  simp only [not_or, not_and, not_not] at hclear
  obtain ⟨hsucc, hhalt, hreso⟩ := hclear
  refine ⟨fun _ => ?_, fun hs => ?_, fun hs => .inl ?_, fun hs => .inl ?_⟩
  · simp [apply, hforw]
  · simp [apply, hcomp, hsucc hs, StepAttemptStatus.toCompensation]
  · simp [apply, hcomp, hhalt hs, StepAttemptStatus.toCompensation]
  · rcases hres with hnone | ⟨-, hunk, -⟩
    · simp [apply, hnone, hs]
    · exact absurd hunk (hreso hs)

/-- **One row.** What a step makes of a row keeps its facts, unless the step overwrites. -/
theorem RowChange.keepsFacts (h : RowChange i k m r r') (hb : db.Based o)
    (ht : db.OnTrack i) (hinst : db.inst = some i) (hact : i.controlState = .active)
    (har : Arises o i db op k) (hr : r ∈ db.steps) (hover : ¬ db.Overwrites op)
    (haud : ∀ action id, op.retry = some (action, id) → db'.Audited action id) :
    r.Keeps op db' r' := by
  -- the row of the current step, on the way forward
  have hbusy (hdir : i.direction = .forward) (hcur : i.currentStep = some r.step) :
      Busy i db.attempts r := by
    obtain ⟨cur, hstep, hadv, hbusy⟩ := ht.forward hdir _ hcur
    rwa [eq_of_key hb.steps hadv.mem hr hstep] at hbusy
  have hc := hb.coherent i hinst
  cases h with
  | deferred _ _ _ _ hmerge | merged _ _ _ hmerge => exact .merged hmerge
  | @mergedWaiting c _ patch merged hstep hhot hph hpatch hmerge =>
    have hmerg : r.Keeps op db' (r.apply merged) := .merged hmerge
    have hhot' : i.status = .cancelling ∧ i.currentStep = some r.step := by
      rw [← har.inst c rfl, hstep, hhot.1, hph]
      exact ⟨rfl, hhot.2⟩
    have hres := ((hbusy (hc.forward (.inr (.inl hhot'.1))) hhot'.2).cancelling hhot'.1).1
    exact ⟨hmerg.forward, hmerg.compensated, hmerg.halted, fun hs => by
      rw [hres] at hs
      cases hs⟩
  | @executed c _ patch hstep hhot hph hpatch =>
    have hhot' : i.status = .running ∧ i.currentStep = some r.step := by
      rw [← har.inst c rfl, hstep, hhot.1, hph]
      exact ⟨rfl, hhot.2⟩
    obtain ⟨hf, hres, -⟩ := (hbusy (hc.forward (.inl hhot'.1)) hhot'.2).running hhot'.1
    refine .of_open (.inl (by rw [hf]; rfl)) ?_ (by rw [hres]; decide)
    simp [apply, hpatch.2.1]
  | @compensated c _ patch hstep hhot hph hforw hcomp hsome hres =>
    refine .of_compensate hforw hcomp hres fun hsett => hover ?_
    cases har with
    | result hcinst hdef hstepDef hid hstat hall hflight =>
      have hhot' : i.status = .compensating ∧ i.currentStep = some c.step := by
        rw [← hcinst, hhot.1, hph]
        exact ⟨rfl, hhot.2⟩
      rw [hstat] at hsett
      unfold ResultContext.step ResultContext.phase ResultContext.attempt at *
      rw [hid] at hhot' hph hflight hstep
      refine ⟨i, r, hinst, hact, hhot'.1, hhot'.2, hph, hflight, ?_, hsett⟩
      have hfnd := (hb.laid i hinst).stepRow hr
      rwa [hstep] at hfnd
  | timedOut hstat hcur hpatch =>
    obtain ⟨hf, hres, -⟩ := (hbusy (hc.forward (.inl hstat)) hcur).running hstat
    refine .of_open (.inl (by rw [hf]; rfl)) ?_ (by rw [hres]; decide)
    rcases hpatch with rfl | rfl <;> rfl
  | reopenedCompensation hhalt =>
    cases har
    refine ⟨fun _ => rfl, fun hs => ?_, fun _ => .inr ⟨rfl, _, rfl, haud _ _ rfl⟩,
      fun _ => .inr (.inl ⟨rfl, _, rfl, haud _ _ rfl⟩)⟩
    rw [hhalt] at hs
    cases hs
  | reopenedResolution hhalt =>
    cases har
    exact ⟨fun _ => rfl, id, .inl, fun _ => .inr (.inr ⟨rfl, _, rfl, haud _ _ rfl⟩)⟩

/-! ## Every run -/

/-- **One step.** -/
theorem Step.keepsFacts (h : Step o db op db') (hb : db.Based o)
    (ht : ∀ i, db.inst = some i → db.OnTrack i) (hover : ¬ db.Overwrites op)
    (haud : db' = db ∨ ∀ action id, op.retry = some (action, id) → db'.Audited action id) :
    db.KeepsFacts op db' := by
  have hsame (hsteps : db'.steps = db.steps) : db.KeepsFacts op db' := by
    intro step r hr
    refine ⟨r, ?_, .refl op db' r⟩
    rw [Db.stepRow, hsteps]
    exact hr
  rcases haud with rfl | haud
  · exact hsame rfl
  have hb' := h.based hb
  rcases h.cases with started | kept | ⟨i, k, inst, active, arises, outcome⟩
  · intro step r hr
    have hnone := (hb.empty started.vacant).1
    rw [Db.stepRow, hnone] at hr
    cases hr
  · exact hsame kept.steps
  · intro step r hr
    have hmem := mem_of_find?_eq_some hr
    have hstep : r.step = step := by simpa using find?_some hr
    obtain ⟨m, steps, hch, htagg⟩ := outcome.facts
    obtain ⟨r1, hmem1, hr1⟩ := hch.target hmem
    obtain ⟨r', hmem', hr'⟩ := htagg.target hmem1
    have hkept : r.Keeps op db' r1 ∧ r1.step = r.step := by
      rcases hr1 with rfl | hr1
      · exact ⟨.refl op db' r1, rfl⟩
      · exact ⟨hr1.keepsFacts hb (ht _ inst) inst active arises hmem hover haud, hr1.keeps.1⟩
    have hkept' : r.Keeps op db' r' ∧ r'.step = r1.step := by
      rcases hr' with rfl | hr'
      · exact ⟨hkept.1, rfl⟩
      · exact ⟨hkept.1.tagged hr', hr'.step⟩
    refine ⟨r', ?_, hkept'.1⟩
    rw [← hstep, ← hkept.2, ← hkept'.2]
    exact find?_of_mem hb'.steps hmem'

/-- **Settled facts stay**, from every reachable state. -/
theorem settled_run (o : Orchestrator) (ops : List Op) (op : Op)
    (hover : ¬ (o.run ops).Overwrites op) :
    (o.run ops).KeepsFacts op (o.run (ops ++ [op])) := by
  rw [run_concat]
  have hb := o.based_run ops
  exact (exec_step hb.toKeyed op).keepsFacts hb (onTrack_run o ops) hover (o.audited_exec _ op)

/-- The first compensate result of a step finds nothing settled in its row. -/
theorem settled_run_first :
    (orchestrator.run [start, result "a" .execute 1 .succeeded 1,
      result "b" .execute 1 .rejected 2]).KeepsFacts
        (result "a" .compensate 1 .unknown 3)
      (orchestrator.run ([start, result "a" .execute 1 .succeeded 1,
        result "b" .execute 1 .rejected 2] ++
          [result "a" .compensate 1 .unknown 3])) := by
  refine settled_run orchestrator _ _ ?_
  rintro ⟨i, r, -, -, -, -, -, -, hr, hsett⟩
  have hrow : ((orchestrator.run [start, result "a" .execute 1 .succeeded 1,
      result "b" .execute 1 .rejected 2]).stepRow "a").map
        (fun r => (r.compensationStatus, r.resolutionStatus)) = some (.pending, .none) := by
    decide +kernel
  rw [show (orchestrator.run [start, result "a" .execute 1 .succeeded 1,
      result "b" .execute 1 .rejected 2]).stepRow "a" = some r from hr] at hrow
  obtain ⟨hcomp, hres⟩ := Prod.mk.inj (Option.some.inj hrow)
  rcases hsett with ⟨hs, -⟩ | ⟨hs, -⟩ | ⟨hs, -⟩
  · cases hcomp.symm.trans hs
  · cases hcomp.symm.trans hs
  · cases hres.symm.trans hs

/-- Before the third compensate attempt of the first step is answered, a late answer to a resolve
query has already settled its compensation. -/
def TwoSteps.recovered : List Op :=
  [start, result "a" .execute 1 .succeeded 1, result "b" .execute 1 .rejected 2,
    claim 102, fire "a" .compensateTimeout 1 102, result "a" .compensate 1 .unknown 103,
    result "a" .compensate 2 .halted 104,
    claim 1200, fire "a" .compensationResolutionBudget 1 1200,
    .retryCompensation (call "op1") 1210, result "a" .resolve 1 .succeeded 1220]

/-- An unknown outcome of that attempt overwrites the success. -/
theorem settled_run_overwritten :
    ((orchestrator.run recovered).stepRow "a").map (·.compensationStatus) =
      some .succeeded ∧
    ((orchestrator.run (recovered ++
      [result "a" .compensate 3 .unknown 1230])).stepRow "a").map (·.compensationStatus) =
      some .unknown ∧
    ¬ (orchestrator.run recovered).KeepsFacts
      (result "a" .compensate 3 .unknown 1230)
      (orchestrator.run (recovered ++
        [result "a" .compensate 3 .unknown 1230])) := by
  have hstat : let db := orchestrator.run recovered
      let db' := orchestrator.exec db (result "a" .compensate 3 .unknown 1230)
      (db.stepRow "a").map (·.compensationStatus) = some .succeeded ∧
        (db'.stepRow "a").map (·.compensationStatus) = some .unknown := by
    decide +kernel
  simp only [← run_concat] at hstat
  obtain ⟨hbef, haft⟩ := hstat
  refine ⟨hbef, haft, fun hkeeps => ?_⟩
  obtain ⟨r, hr, hsucc⟩ := Option.map_eq_some_iff.1 hbef
  obtain ⟨r', hr', hkept⟩ := hkeeps "a" r hr
  rw [hr', Option.map_some, hkept.compensated hsucc] at haft
  cases haft

end NasaRuntime.Saga
