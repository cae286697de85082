import NasaRuntime.Saga.Protocol.Invariant

/-!
# The way back

A compensation plan is frozen once, and its marks on the step rows never change. Compensate
commands are sent from five places. The invariant `Undoing` covers them all: the current step is a
member of the plan, and every member after it is compensated.

**Theorem (`compensation_run`).** Once the plan is frozen no execute command is sent and the plan
stays as it is; a compensate command goes only to a member all of whose successors in the plan are
compensated; the members are the steps that `freeze_compensation_plan` finds succeeded.
-/

namespace NasaRuntime.Saga

open Table List Db CompensationPlan Orchestrator Option

variable {o : Orchestrator} {i : SagaInstanceRow} {k : Cause} {m : Mode} {db db1 db' : Db} {op : Op}
  {cur : SagaStepRow} {steps steps' : List SagaStepRow}
variable {members : List StepName} {d : WorkflowDefinition} {plan : CompensationPlan}
  {name : StepName} {phase : StepPhase} {hs : Hashes}

/-! ## The invariant -/

/-- The row is a member of the plan, and every member after it is compensated. -/
structure Undoing (steps : List SagaStepRow) (cur : SagaStepRow) : Prop where
  mem : cur ∈ steps
  marked : cur.compensationPlanVersion.isSome = true
  later : ∀ r ∈ steps, r.compensationPlanVersion.isSome = true → cur.ordinal < r.ordinal →
    r.compensationStatus = .succeeded

/-- The marks are those of the instance's plan, and the way back is at its current step. -/
structure Db.Planned (i : SagaInstanceRow) (db : Db) : Prop where
  marks : ∀ r ∈ db.steps, r.compensationPlanVersion = none ∨
    r.compensationPlanVersion = i.compensationPlanVersion
  current : i.direction = .compensating → ∀ step, i.currentStep = some step →
    ∃ cur, cur.step = step ∧ Undoing db.steps cur

/-- No row carries another mark. -/
def Marked (mark : Option String) (steps : List SagaStepRow) : Prop :=
  ∀ r ∈ steps, r.compensationPlanVersion = none ∨ r.compensationPlanVersion = mark

/-- Rewritings that keep keys, marks and the successes after the current row. -/
theorem Undoing.rewrites {R : SagaStepRow → SagaStepRow → Prop} (h : Undoing steps cur)
    (hrows : Rewrites R steps steps')
    (hkeep : ∀ r ∈ steps, ∀ r', R r r' → r'.step = r.step ∧ r'.ordinal = r.ordinal ∧
      r'.compensationPlanVersion = r.compensationPlanVersion ∧
      (cur.ordinal < r.ordinal → r.compensationStatus = .succeeded →
        r'.compensationStatus = .succeeded)) :
    ∃ cur', cur'.step = cur.step ∧ Undoing steps' cur' := by
  obtain ⟨cur', hmem', hcur'⟩ := hrows.target h.mem
  have hsame : cur'.step = cur.step ∧ cur'.ordinal = cur.ordinal ∧
      cur'.compensationPlanVersion = cur.compensationPlanVersion := by
    rcases hcur' with rfl | hR
    · exact ⟨rfl, rfl, rfl⟩
    · obtain ⟨hs, ho, hp, -⟩ := hkeep cur h.mem cur' hR
      exact ⟨hs, ho, hp⟩
  refine ⟨cur', hsame.1, hmem', by rw [hsame.2.2]; exact h.marked, fun r' hr' hmark hlt => ?_⟩
  rw [hsame.2.1] at hlt
  obtain ⟨r, hr, hrc⟩ := hrows.source hr'
  rcases hrc with rfl | hR
  · exact h.later r' hr hmark hlt
  · obtain ⟨-, ho, hp, hc⟩ := hkeep r hr r' hR
    rw [ho] at hlt
    exact hc hlt (h.later r hr (hp ▸ hmark) hlt)

theorem Undoing.quiet (h : Undoing db.steps cur) (hnod : (db.steps.map (·.step)).Nodup)
    (hcur : i.currentStep = some cur.step) (hk : k.On i)
    (q : Quiet i k m db db') : ∃ cur', cur'.step = cur.step ∧ Undoing db'.steps cur' := by
  refine h.rewrites q.steps fun r hr r' hR => ?_
  obtain ⟨hs, ho, -, hp, -⟩ := hR.keeps
  refine ⟨hs, ho, hp, fun hlt hsucc => ?_⟩
  rcases hR.compensated_keeps hk hsucc with hk | hc
  · exact hk
  · rw [eq_of_key hnod hr h.mem (some.inj (hc.symm.trans hcur))] at hlt
    exact absurd hlt (Nat.lt_irrefl _)

theorem SagaStepRow.project_mark (r : SagaStepRow) (phase : StepPhase) (n : AttemptNo) :
    (r.project phase n).compensationPlanVersion = r.compensationPlanVersion := by
  unfold SagaStepRow.project
  split
  · cases phase <;> rfl
  · rfl

variable {n : AttemptNo} {step : StepName} {mark : Option String} {entry : CompensationEntry}
  {i' : SagaInstanceRow} {version : String}

theorem Db.Issues.undoing {version : Nat} (issues : Issues o i step phase n version db db')
    (h : ∃ cur, cur.step = name ∧ Undoing db.steps cur) :
    ∃ cur, cur.step = name ∧ Undoing db'.steps cur := by
  obtain ⟨cur, rfl, h⟩ := h
  have hrows : Rewrites (fun r r' => r' = r.project phase n) db.steps db'.steps := by
    rw [issues.steps]
    exact .of_update fun r _ _ => rfl
  refine h.rewrites hrows ?_
  rintro r hr _ rfl
  have htagg := SagaStepRow.Tagged.project r phase n
  refine ⟨htagg.step, htagg.ordinal, r.project_mark phase n, fun _ hsucc => ?_⟩
  rcases htagg.compensationStatus with he | ⟨hnone, -⟩
  · exact he.trans hsucc
  · rw [hsucc] at hnone
    cases hnone

theorem Db.Issues.marks {version : Nat} (issues : Issues o i step phase n version db db')
    (h : Marked mark db.steps) : Marked mark db'.steps := by
  intro r' hr'
  rw [issues.steps] at hr'
  obtain ⟨r, hr, rfl⟩ := mem_updateWhere.1 hr'
  split
  · rw [r.project_mark]
    exact h r hr
  · exact h r hr

theorem Quiet.marks (q : Quiet i k m db db')
    (h : Marked mark db.steps) : Marked mark db'.steps := by
  intro r' hr'
  obtain ⟨r, hr, hch⟩ := q.steps.source hr'
  rcases hch with rfl | hch
  · exact h r' hr
  · rw [hch.keeps.2.2.2.1]
    exact h r hr

theorem Db.Planned.quiet (hp : db.Planned i) (hnod : (db.steps.map (·.step)).Nodup)
    (hk : k.On i) (q : Quiet i k m db db') : db'.Planned i := by
  refine ⟨q.marks hp.marks, fun hdir step hcur => ?_⟩
  obtain ⟨cur, rfl, hund⟩ := hp.current hdir step hcur
  exact hund.quiet hnod hcur hk q

/-! ## The order of the plan -/

theorem ordinal_lt_of_entries {before after : List CompensationEntry}
    (hplan : freezeCompensationPlan hs d (journalOf steps) = .ok plan)
    (hnam : steps.map (·.step) = d.names) (hsort : steps.Pairwise (·.ordinal < ·.ordinal))
    (hsplit : plan.entries = before ++ entry :: after) {r : SagaStepRow} (hr : r ∈ steps)
    (hcur : cur ∈ steps) (hstep : cur.step = entry.step) (haft : r.step ∈ after.map (·.step)) :
    r.ordinal < cur.ordinal := by
  have hnod : (steps.map (·.step)).Nodup := hnam ▸ d.names_nodup
  -- from the last step to the first one, the ordinals of the rows go down
  have hdown : d.names.reverse.Pairwise fun a b => ∀ x ∈ steps, ∀ y ∈ steps, x.step = a →
      y.step = b → y.ordinal < x.ordinal := by
    rw [pairwise_reverse, ← hnam, pairwise_map]
    refine hsort.imp_of_mem fun {a b} ha hb hlt x hx y hy hxb hya => ?_
    rw [eq_of_key hnod hx hb hxb, eq_of_key hnod hy ha hya]
    exact hlt
  have hents := hdown.sublist (entries_freeze_sublist hplan)
  rw [hsplit, map_append, map_cons] at hents
  have hright := (pairwise_append.1 hents).2.1
  exact (pairwise_cons.1 hright).1 r.step haft cur hcur r hr hstep rfl

theorem undoing_of_next {recovery : Bool}
    (hnam : steps.map (·.step) = d.names) (hsort : steps.Pairwise (·.ordinal < ·.ordinal))
    (hmks : Marked i.compensationPlanVersion steps)
    (hnext : nextPendingCompensation hs i d steps recovery = .ok (some name)) :
    ∃ cur, cur.step = name ∧ Undoing steps cur := by
  obtain ⟨plan, before, entry, after, hplan, hvers, hsplit, rfl, hbef, hmembe, hmarked⟩ :=
    nextPendingCompensation_some hnext
  have hnod : (steps.map (·.step)).Nodup := hnam ▸ d.names_nodup
  obtain ⟨cur, hcur, hstep, hmark⟩ := hmembe entry (by rw [hsplit]; simp)
  refine ⟨cur, hstep, hcur, by rw [hmark]; rfl, fun r hr hrmark hlt => ?_⟩
  have hrvers : r.compensationPlanVersion = some plan.version := by
    rcases hmks r hr with hnone | hsame
    · rw [hnone] at hrmark
      cases hrmark
    · exact hsame.trans hvers
  have hmemb := hmarked r hr hrvers
  rw [hsplit, map_append, map_cons, mem_append, mem_cons] at hmemb
  rcases hmemb with hmemb | hsame | hmemb
  · obtain ⟨e, he, hest⟩ := mem_map.1 hmemb
    obtain ⟨r', hr', hstep', hsucc⟩ := hbef e he
    rw [eq_of_key hnod hr hr' (hest.symm.trans hstep'.symm)]
    exact hsucc
  · rw [eq_of_key hnod hr hcur (hsame.trans hstep.symm)] at hlt
    exact absurd hlt (Nat.lt_irrefl _)
  · have hgt := ordinal_lt_of_entries hplan hnam hsort hsplit hr hcur hstep hmemb
    exact absurd hlt (Nat.lt_asymm hgt)

theorem undoing_of_freeze {rest : List CompensationEntry}
    (hplan : freezeCompensationPlan hs d (journalOf steps) = .ok plan)
    (hnam : steps.map (·.step) = d.names) (hsort : steps.Pairwise (·.ordinal < ·.ordinal))
    (hmks : ∀ r ∈ steps, r.compensationPlanVersion = none)
    (hfirst : plan.entries = entry :: rest) :
    ∃ cur, cur.step = entry.step ∧ Undoing (steps.map plan.markRow) cur := by
  have hmem : entry.step ∈ plan.entries.map (·.step) := by
    rw [hfirst]
    exact mem_cons_self
  have hnod : (steps.map (·.step)).Nodup := hnam ▸ d.names_nodup
  obtain ⟨e, he, hest, -⟩ := (mem_entries_freeze hplan).1 hmem
  obtain ⟨r0, hr0, rfl⟩ := mem_map.1 he
  have htagg := SagaStepRow.Tagged.markRow plan r0
  refine ⟨plan.markRow r0, htagg.step.trans hest, mem_map_of_mem hr0, ?_, ?_⟩
  · rw [markRow_of_mem (by rw [show r0.step = entry.step from hest]; exact hmem)]
    rfl
  · intro r' hr' hmark hlt
    obtain ⟨r, hr, rfl⟩ := mem_map.1 hr'
    rw [htagg.ordinal, (SagaStepRow.Tagged.markRow plan r).ordinal] at hlt
    by_cases hin : r.step ∈ plan.entries.map (·.step)
    · -- no member stands after the first one
      rw [hfirst, map_cons, mem_cons] at hin
      rcases hin with hsame | hin
      · rw [eq_of_key hnod hr hr0 (hsame.trans hest.symm)] at hlt
        exact absurd hlt (Nat.lt_irrefl _)
      · have hsplit : plan.entries = [] ++ entry :: rest := hfirst
        have hgt := ordinal_lt_of_entries hplan hnam hsort hsplit hr hr0 hest hin
        exact absurd hlt (Nat.lt_asymm hgt)
    · rw [markRow_of_not_mem hin, hmks r hr] at hmark
      cases hmark

/-! ## Steps -/

theorem Db.Planned.unmarked (h : db.Planned i) (hc : i.Coherent) (hdir : i.direction = .forward) :
    ∀ r ∈ db.steps, r.compensationPlanVersion = none := by
  have hplan : i.compensationPlanVersion = none := by
    rw [← not_isSome_iff_eq_none, hc.plan, hdir]
    decide
  intro r hr
  rcases h.marks r hr with hnone | hsame
  · exact hnone
  · exact hsame.trans hplan

theorem Db.Planned.of_ended (hcur : i'.currentStep = none)
    (hmks : Marked i'.compensationPlanVersion db.steps) : db.Planned i' := by
  refine ⟨hmks, fun _ step hs => ?_⟩
  rw [hcur] at hs
  cases hs

theorem marks_markPlan (h : ∀ r ∈ db.steps, r.compensationPlanVersion = none) :
    Marked (some plan.version) (db.markPlan plan).steps := by
  intro r' hr'
  rw [markPlan_steps] at hr'
  obtain ⟨r, hr, rfl⟩ := mem_map.1 hr'
  by_cases hin : r.step ∈ plan.entries.map (·.step)
  · exact .inr (markRow_of_mem hin)
  · rw [markRow_of_not_mem hin]
    exact .inl (h r hr)

/-- The recovery of a plan reads the rows before it reopens one of them. -/
theorem undoing_of_recover {opId : String}
    (hlaid : db.Laid o i) (hdef : o.definitionOf i = some d) (hp : db.Planned i)
    (hsteps : Rewrites (RowChange i (.admin .retryFrozenCompensation opId) .leave) steps db.steps)
    (hnext : nextPendingCompensation o.hashes i d steps true = .ok (some name)) :
    ∃ cur, cur.step = name ∧ Undoing db.steps cur := by
  have hnam : steps.map (·.step) = d.names := by
    rw [← hsteps.map_eq (·.step) fun _ _ _ hr => hr.keeps.1]
    exact hlaid.names hdef
  have hsort : steps.Pairwise (·.ordinal < ·.ordinal) := by
    have hordi := hsteps.map_eq (·.ordinal) fun _ _ _ hr => hr.keeps.2.1
    have hord := pairwise_map.2 hlaid.ordered
    rw [hordi] at hord
    exact pairwise_map.1 hord
  have hmks : Marked i.compensationPlanVersion steps := by
    intro r hr
    obtain ⟨r', hr', hch⟩ := hsteps.target hr
    rcases hch with rfl | hch
    · exact hp.marks r' hr'
    · rw [← hch.keeps.2.2.2.1]
      exact hp.marks r' hr'
  obtain ⟨cur, rfl, hund⟩ := undoing_of_next hnam hsort hmks hnext
  refine hund.rewrites hsteps fun r _ r' hR => ?_
  obtain ⟨hs, ho, -, hm, -⟩ := hR.keeps
  refine ⟨hs, ho, hm, fun _ hsucc => ?_⟩
  cases hR with
  | reopenedCompensation hhalt =>
    rw [hsucc] at hhalt
    cases hhalt

/-- **Moves** keep the way back. -/
theorem Move.planned (h : Move o i k db db') (hlaid : db.Laid o i) (hc : i.Coherent)
    (hk : k.On i) (hp : db.Planned i) :
    ∀ i', db'.inst = some i' → db'.Planned i' := by
  intro i' hi'
  cases h with
  | escalate can =>
    cases hi'
    exact ⟨hp.marks, hp.current⟩
  | finish guard can =>
    cases hi'
    exact .of_ended rfl hp.marks
  | @send dst dir step phase plan n _ guard can issues =>
    rw [issues.inst, freezes_inst] at hi'
    cases hi'
    cases guard with
    | forward hseg hdef hdone hnext | barrier hcause hstat hcur hout =>
      exact ⟨issues.marks hp.marks, nofun⟩
    | @freeze d plan entry rest hseg hdef hplan hfirst =>
      have hunm := hp.unmarked hc (hc.of_forwardSegment hseg)
      refine ⟨issues.marks (marks_markPlan hunm), fun _ step' hcur' => ?_⟩
      cases hcur'
      refine issues.undoing ?_
      change ∃ cur, _ ∧ Undoing (markPlan _ plan).steps cur
      rw [markPlan_steps]
      exact undoing_of_freeze hplan (hlaid.names hdef) hlaid.ordered hunm hfirst
    | next hseg hdef hnext =>
      refine ⟨issues.marks hp.marks, fun _ step' hcur' => ?_⟩
      cases hcur'
      exact issues.undoing (undoing_of_next (hlaid.names hdef) hlaid.ordered hp.marks hnext)
    | requeue hstat hdir hcur =>
      refine ⟨issues.marks hp.marks, fun _ step' hcur' => ?_⟩
      cases hcur'
      exact issues.undoing (hp.current hdir step hcur)
    | recover hstat hdef hsteps hnext =>
      refine ⟨issues.marks hp.marks, fun _ step' hcur' => ?_⟩
      cases hcur'
      have hund := undoing_of_recover hlaid hdef hp hsteps hnext
      exact issues.undoing hund
  | @wait dir step a due db1 _ guard hcur can budget query =>
    rw [(opened_inst budget query).1] at hi'
    cases hi'
    obtain ⟨hdb1, -⟩ := budget
    have hsteps1 : db1.steps = db.steps := by
      rw [hdb1, schedule_steps]
      rfl
    have hp1 : db1.Planned (i.advanced (k.spec i .waitingResolution dir (some step) none none)) := by
      refine ⟨hsteps1 ▸ hp.marks, fun hdir step' hcur' => ?_⟩
      cases hcur'
      rw [hsteps1]
      exact hp.current ((guard.direction hc hk).symm.trans hdir) step hcur
    rcases query with rfl | ⟨n, issues⟩
    · exact hp1
    · exact ⟨issues.marks hp1.marks, fun hdir step' hcur' =>
        issues.undoing (hp1.current hdir step' hcur')⟩
  | @converge plan db1 guard can hdb1 proof can' =>
    cases hi'
    refine .of_ended rfl ?_
    change Marked _ db1.steps
    subst hdb1
    cases guard with
    | freeze hseg hdef hplan hemp =>
      exact marks_markPlan (hp.unmarked hc (hc.of_forwardSegment hseg))
    | next hseg hdef hnext | recover hstat hdef hnext => exact hp.marks

theorem Outcome.planned (h : Outcome o i k db db') (hb : db.Based o) (hinst : db.inst = some i)
    (hk : k.On i) (hp : db.Planned i) :
    ∀ i', db'.inst = some i' → db'.Planned i' := by
  cases h with
  | stay quiet =>
    intro i' hi'
    rw [quiet.inst, hinst] at hi'
    cases hi'
    exact hp.quiet hb.steps hk quiet
  | again quiet reissue =>
    cases reissue with
    | send hph hstat hcur can issues =>
      intro i' hi'
      rw [issues.inst] at hi'
      cases hi'
      have hp1 := hp.quiet hb.steps hk quiet
      refine ⟨issues.marks hp1.marks, fun hdir step' hcur' => ?_⟩
      cases hcur'
      exact issues.undoing (hp1.current hdir _ hcur)
  | leave quiet move =>
    exact move.planned ((hb.laid i hinst).quiet quiet) (hb.coherent i hinst) hk
      (hp.quiet hb.steps hk quiet)

theorem Started.planned (h : Started o db db') : ∀ i', db'.inst = some i' → db'.Planned i' := by
  obtain ⟨-, row, d, first, kind, id, -, -, -, -, hdir, -, -, -, db1, issues, hdeadl⟩ := h
  have hmks : Marked row.compensationPlanVersion db1.steps := by
    refine issues.marks fun r hr => ?_
    obtain ⟨key, -, rfl⟩ := mem_map.1 hr
    exact .inl rfl
  obtain ⟨timers, rfl⟩ := deadline_eq hdeadl
  intro i' hi'
  cases issues.inst.symm.trans hi'
  refine ⟨hmks, fun hback => ?_⟩
  rw [hdir] at hback
  cases hback

/-- **One step keeps the way back.** -/
theorem Step.planned (h : Step o db op db') (hb : db.Based o)
    (hp : ∀ i, db.inst = some i → db.Planned i) : ∀ i, db'.inst = some i → db'.Planned i := by
  rcases h.cases with started | kept | ⟨i, k, inst, -, arises, outcome⟩
  · exact started.planned
  · intro i' hi'
    obtain ⟨i, state, version, inst, rfl⟩ := kept.source hi'
    have h := hp i inst
    refine ⟨?_, ?_⟩ <;> rw [kept.steps]
    · exact h.marks
    · exact h.current
  · exact outcome.planned hb inst arises.inst (hp _ inst)

theorem planned_run (o : Orchestrator) (ops : List Op) :
    ∀ i, (o.run ops).inst = some i → (o.run ops).Planned i :=
  inv_run_all (J := fun db => ∀ i, db.inst = some i → db.Planned i)
    (fun _ _ _ hb hp hstep => hstep.planned hb hp) (fun _ h => by cases h) ops

/-! ## The frozen plan -/

/-- The marks of the step rows. -/
def Db.marks (db : Db) : List (StepName × Option String) :=
  db.steps.map fun r => (r.step, r.compensationPlanVersion)

/-- The members of the instance's frozen plan: the rows that carry its version. -/
def Db.frozenPlan (db : Db) : Option (List StepName) :=
  db.inst.bind fun i => i.compensationPlanVersion.map fun version =>
    (db.marks.filter (·.2 = some version)).map (·.1)

theorem Db.frozenPlan_eq (hinst : db.inst = some i)
    (hvers : i.compensationPlanVersion = some version) :
    db.frozenPlan = some ((db.marks.filter (·.2 = some version)).map (·.1)) := by
  simp [frozenPlan, hinst, hvers]

theorem Db.frozenPlan_some (h : db.frozenPlan = some members) :
    ∃ i version, db.inst = some i ∧ i.compensationPlanVersion = some version ∧
      members = (db.marks.filter (·.2 = some version)).map (·.1) := by
  simp only [frozenPlan, bind_eq_some_iff, map_eq_some_iff] at h
  obtain ⟨i, hi, version, hvers, rfl⟩ := h
  exact ⟨i, version, hi, hvers, rfl⟩

theorem Db.mem_frozenPlan :
    name ∈ (db.marks.filter (·.2 = some version)).map (·.1) ↔
      ∃ r ∈ db.steps, r.step = name ∧ r.compensationPlanVersion = some version := by
  constructor
  · intro h
    obtain ⟨p, hp, rfl⟩ := mem_map.1 h
    obtain ⟨hm, hv⟩ := mem_filter.1 hp
    obtain ⟨r, hr, rfl⟩ := mem_map.1 hm
    exact ⟨r, hr, rfl, by simpa using hv⟩
  · rintro ⟨r, hr, rfl, hv⟩
    exact mem_map.2 ⟨_, mem_filter.2 ⟨mem_map_of_mem hr, by simp [hv]⟩, rfl⟩

theorem Quiet.marks_eq (q : Quiet i k m db db') : db'.marks = db.marks :=
  q.steps.map_eq _ fun r _ r' hr => by rw [hr.keeps.1, hr.keeps.2.2.2.1]

theorem Db.Issues.marks_eq {version : Nat}
    (issues : Issues o i step phase n version db db') : db'.marks = db.marks := by
  unfold Db.marks
  rw [issues.steps]
  refine map_updateWhere _ fun r => ?_
  rw [(SagaStepRow.Tagged.project r phase n).step, r.project_mark]

theorem Move.marks_eq (h : Move o i k db db') (hc : i.Coherent)
    (hfroz : i.direction = .compensating) :
    db'.marks = db.marks ∧
      ∃ i', db'.inst = some i' ∧ i'.compensationPlanVersion = i.compensationPlanVersion := by
  have hnot : ¬ i.ForwardSegment := by
    intro hseg
    rw [hc.of_forwardSegment hseg] at hfroz
    cases hfroz
  cases h with
  | escalate can | finish guard can => exact ⟨rfl, _, rfl, rfl⟩
  | send guard can issues =>
    refine ⟨issues.marks_eq.trans ?_, _, issues.inst.trans (freezes_inst _ _), ?_⟩ <;>
      cases guard <;> first | rfl | exact absurd ‹_› hnot
  | wait guard hcur can budget query =>
    refine ⟨?_, _, (opened_inst budget query).1, rfl⟩
    obtain ⟨hdb1, -⟩ := budget
    have hmks := congrArg marks hdb1
    rcases query with rfl | ⟨n, issues⟩
    · rw [hmks, marks, schedule_steps]
      rfl
    · rw [issues.marks_eq, hmks, marks, schedule_steps]
      rfl
  | converge guard can hdb1 proof can' =>
    subst hdb1
    refine ⟨?_, _, rfl, ?_⟩ <;> cases guard <;> first | rfl | exact absurd ‹_› hnot

/-- **A frozen plan stays as it is.** -/
theorem Step.frozenPlan (h : Step o db op db') (hb : db.Based o)
    (hplan : db.frozenPlan = some members) : db'.frozenPlan = some members := by
  obtain ⟨i, version, hinst, hvers, rfl⟩ := frozenPlan_some hplan
  have hdir : i.direction = .compensating := (hb.coherent i hinst).plan.1 (by rw [hvers]; rfl)
  have hsame {i' : SagaInstanceRow} (hinst' : db'.inst = some i')
      (hvers' : i'.compensationPlanVersion = i.compensationPlanVersion)
      (hmks : db'.marks = db.marks) :
      db'.frozenPlan = some ((db.marks.filter (·.2 = some version)).map (·.1)) := by
    rw [frozenPlan_eq hinst' (hvers'.trans hvers), hmks]
  rcases h.cases with started | kept | ⟨_, k, inst, -, arises, outcome⟩
  · rw [started.vacant] at hinst
    cases hinst
  · obtain ⟨state, _, inst⟩ := kept.inst
    rw [hinst] at inst
    exact hsame inst rfl (by rw [marks, kept.steps]; rfl)
  · cases inst.symm.trans hinst
    cases outcome with
    | stay quiet => exact hsame (quiet.inst.trans hinst) rfl quiet.marks_eq
    | again quiet reissue =>
      cases reissue with
      | send hph hstat hcur can issues =>
        exact hsame issues.inst rfl (issues.marks_eq.trans quiet.marks_eq)
    | leave quiet move =>
      obtain ⟨hmks, i', hinst', hvers'⟩ := move.marks_eq (hb.coherent _ inst) hdir
      exact hsame hinst' hvers' (hmks.trans quiet.marks_eq)

theorem Step.no_execute (h : Step o db op db') (hb : db.Based o)
    (hplan : db.frozenPlan = some members) :
    ∃ sent, db'.outbox = db.outbox ++ sent ∧ ∀ command ∈ sent, command.phase ≠ .execute := by
  obtain ⟨sent, houtb, hsent⟩ := h.sent
  refine ⟨sent, houtb, fun command hcomm hph => ?_⟩
  obtain ⟨i', hinst', hstat, -⟩ := hsent command hcomm
  obtain ⟨i, version, hinst, hvers, -⟩ := frozenPlan_some (h.frozenPlan hb hplan)
  obtain rfl := some.inj (hinst.symm.trans hinst')
  have hc := (h.based hb).coherent i hinst
  have hback : i.direction = .compensating := hc.plan.1 (by rw [hvers]; rfl)
  rw [hph] at hstat
  rw [hc.forward (.inl hstat)] at hback
  cases hback

theorem mem_marks_markPlan (hplan : freezeCompensationPlan hs d (journalOf db.steps) = .ok plan)
    (hunm : ∀ r ∈ db.steps, r.compensationPlanVersion = none) :
    (∃ r ∈ (db.markPlan plan).steps, r.step = name ∧
      r.compensationPlanVersion = some plan.version) ↔ name ∈ plan.entries.map (·.step) := by
  rw [markPlan_steps]
  constructor
  · rintro ⟨r', hr', rfl, hmark⟩
    obtain ⟨r, hr, rfl⟩ := mem_map.1 hr'
    rw [(SagaStepRow.Tagged.markRow plan r).step]
    by_contra hnot
    rw [markRow_of_not_mem hnot, hunm r hr] at hmark
    cases hmark
  · intro hname
    obtain ⟨e, he, hstep, -⟩ := (mem_entries_freeze hplan).1 hname
    obtain ⟨r, hr, rfl⟩ := mem_map.1 he
    have hrname : r.step = name := hstep
    exact ⟨plan.markRow r, mem_map_of_mem hr, (SagaStepRow.Tagged.markRow plan r).step.trans hrname,
      markRow_of_mem (by rw [hrname]; exact hname)⟩

/-- A move that freezes a plan marks the rows of the plan it computed. -/
theorem Move.freezes (h : Move o i k db db') (hc : i.Coherent) (hp : db.Planned i)
    (hnone : i.compensationPlanVersion = none)
    (hi' : db'.inst = some i') (hvers : i'.compensationPlanVersion = some version) :
    ∃ d plan, o.definitionOf i = some d ∧
      freezeCompensationPlan o.hashes d (journalOf db.steps) = .ok plan ∧
      ∀ name, (∃ r ∈ db'.steps, r.step = name ∧ r.compensationPlanVersion = some version) ↔
        name ∈ plan.entries.map (·.step) := by
  have hnot {spec : TransitionSpec} (hplan : spec.compensationPlanVersion = none) :
      (i.advanced spec).compensationPlanVersion ≠ some version := by
    change (spec.compensationPlanVersion <|> i.compensationPlanVersion) ≠ _
    rw [hplan, hnone]
    nofun
  have hmks {db1 db2 : Db} (hsame : db2.marks = db1.marks) {name : StepName} {mark : String} :
      (∃ r ∈ db2.steps, r.step = name ∧ r.compensationPlanVersion = some mark) ↔
        ∃ r ∈ db1.steps, r.step = name ∧ r.compensationPlanVersion = some mark := by
    rw [← mem_frozenPlan, ← mem_frozenPlan, hsame]
  cases h with
  | escalate can | finish guard can =>
    cases hi'
    exact absurd hvers (hnot rfl)
  | send guard can issues =>
    rw [issues.inst, freezes_inst] at hi'
    cases hi'
    cases guard with
    | @freeze d plan entry rest hseg hdef hplan hfirst =>
      obtain rfl : plan.version = version := some.inj hvers
      have hunm := hp.unmarked hc (hc.of_forwardSegment hseg)
      refine ⟨d, plan, hdef, hplan, fun name => (hmks issues.marks_eq).trans ?_⟩
      exact mem_marks_markPlan hplan hunm
    | _ => exact absurd hvers (hnot rfl)
  | wait guard hcur can budget query =>
    rw [(opened_inst budget query).1] at hi'
    cases hi'
    exact absurd hvers (hnot rfl)
  | @converge plan db1 guard can hdb1 proof can' =>
    cases hi'
    cases guard with
    | @freeze d plan hseg hdef hplan hemp =>
      obtain rfl : plan.version = version := some.inj hvers
      have hunm := hp.unmarked hc (hc.of_forwardSegment hseg)
      subst hdb1
      exact ⟨d, plan, hdef, hplan, fun name => mem_marks_markPlan hplan hunm⟩
    | _ => exact absurd hvers (hnot rfl)

/-- **Where a frozen plan comes from.** -/
theorem Step.freezes (h : Step o db op db') (hb : db.Based o)
    (hp : ∀ i, db.inst = some i → db.Planned i) (hnone : db.frozenPlan = none)
    (hplan : db'.frozenPlan = some members) :
    ∃ i d plan, db'.inst = some i ∧ o.definitionOf i = some d ∧
      freezeCompensationPlan o.hashes d (journalOf db'.steps) = .ok plan ∧
      ∀ name, name ∈ members ↔ name ∈ plan.entries.map (·.step) := by
  obtain ⟨i', version, hinst', hvers, rfl⟩ := frozenPlan_some hplan
  have hunp : ∀ i, db.inst = some i → i.compensationPlanVersion = none := by
    intro i hi
    cases hv : i.compensationPlanVersion with
    | none => rfl
    | some v => rw [frozenPlan_eq hi hv] at hnone; cases hnone
  rcases h.cases with started | kept | ⟨i, k, inst, -, arises, outcome⟩
  · rw [(started.running hinst').2] at hvers
    cases hvers
  · obtain ⟨i, state, _, inst, rfl⟩ := kept.source hinst'
    exact absurd (hvers.symm.trans (hunp i inst)) nofun
  · have hrow := hunp _ inst
    cases outcome with
    | stay quiet =>
      rw [quiet.inst, inst] at hinst'
      rw [← some.inj hinst', hrow] at hvers
      cases hvers
    | again quiet reissue =>
      cases reissue with
      | send hph hstat hcur can issues =>
        rw [issues.inst] at hinst'
        cases hinst'
        exact absurd (hvers.symm.trans hrow) nofun
    | leave quiet move =>
      have hc := hb.coherent _ inst
      obtain ⟨i'', hi'', hdef', -⟩ := move.coherent arises.inst hc
      cases hi''.symm.trans hinst'
      have hp1 := (hp _ inst).quiet hb.steps arises.inst quiet
      obtain ⟨d, plan, hdef, hfreeze, hmemb⟩ := move.freezes hc hp1 hrow hinst' hvers
      refine ⟨_, d, plan, hinst', hdef'.trans hdef, ?_, fun name => ?_⟩
      · rw [journalOf, move.tagged.map_eq _ fun r _ r' ht => by rw [ht.step, ht.forwardStatus]]
        exact hfreeze
      · rw [mem_frozenPlan]
        exact hmemb name

/-! ## Every run -/

theorem Step.compensates (h : Step o db op db') (hb : db.Based o)
    (hp : ∀ i, db.inst = some i → db.Planned i) :
    ∃ sent, db'.outbox = db.outbox ++ sent ∧ ∀ command ∈ sent, command.phase = .compensate →
      ∃ i d members before after, db'.inst = some i ∧ o.definitionOf i = some d ∧
        db'.frozenPlan = some members ∧ command.step ∈ members ∧
        d.names = before ++ command.step :: after ∧
        ∀ name ∈ after, name ∈ members → ∃ r, db'.stepRow name = some r ∧
          r.compensationStatus = .succeeded := by
  obtain ⟨sent, houtb, hsent⟩ := h.sent
  refine ⟨sent, houtb, fun command hcomm hph => ?_⟩
  obtain ⟨i, hinst, hstat, hcur⟩ := hsent command hcomm
  have hb' := h.based hb
  have hlaid := hb'.laid i hinst
  have hc := hb'.coherent i hinst
  have hplann := h.planned hb hp i hinst
  rw [hph] at hstat
  have hdir : i.direction = .compensating := hc.compensating (.inl hstat)
  obtain ⟨version, hvers⟩ := isSome_iff_exists.1 (hc.plan.2 hdir)
  obtain ⟨d, hdef, -⟩ := hb'.laid i hinst
  obtain ⟨cur, hstep, hund⟩ := hplann.current hdir _ hcur
  have hmark : ∀ r ∈ db'.steps, r.compensationPlanVersion.isSome = true →
      r.compensationPlanVersion = some version := by
    intro r hr hsome
    rcases hplann.marks r hr with hnone | hsame
    · rw [hnone] at hsome
      cases hsome
    · exact hsame.trans hvers
  obtain ⟨before, after, hsplit⟩ := append_of_mem hund.mem
  obtain ⟨-, hright, -⟩ := pairwise_append.1 (hsplit ▸ hlaid.ordered)
  refine ⟨i, d, _, before.map (·.step), after.map (·.step), hinst, hdef,
    frozenPlan_eq hinst hvers, ?_, ?_, fun name hname hmemb => ?_⟩
  · exact mem_frozenPlan.2 ⟨cur, hund.mem, hstep, hmark cur hund.mem hund.marked⟩
  · rw [← hlaid.names hdef, hsplit, map_append, map_cons, hstep]
  · obtain ⟨r, hr, rfl⟩ := mem_map.1 hname
    obtain ⟨r', hr', hstep', hvers'⟩ := mem_frozenPlan.1 hmemb
    have hmem : r ∈ db'.steps := hsplit ▸ mem_append_right _ (mem_cons_of_mem _ hr)
    obtain rfl := eq_of_key hlaid.nodup hr' hmem hstep'
    refine ⟨r', find?_of_mem hlaid.nodup hmem, ?_⟩
    exact hund.later r' hmem (by rw [hvers']; rfl) ((pairwise_cons.1 hright).1 r' hr)

theorem frozenPlan_runFrom (hb : db.Based o)
    (hplan : db.frozenPlan = some members) (later : List Op) :
    (runFrom o.exec db later).frozenPlan = some members ∧
      ∃ sent, (runFrom o.exec db later).outbox = db.outbox ++ sent ∧
        ∀ command ∈ sent, command.phase ≠ .execute := by
  induction later generalizing db with
  | nil => exact ⟨hplan, [], (append_nil _).symm, nofun⟩
  | cons op later ih =>
    have hstep : Step o db op (o.exec db op) := exec_step hb.toKeyed op
    obtain ⟨new, hnew, hphas⟩ := hstep.no_execute hb hplan
    obtain ⟨hplan', sent, hsent, hlat⟩ := ih (hstep.based hb) (hstep.frozenPlan hb hplan)
    refine ⟨hplan', new ++ sent, ?_, fun c hc => ?_⟩
    · rw [runFrom_cons, hsent, hnew, append_assoc]
    · exact (mem_append.1 hc).elim (hphas c) (hlat c)

/-- **The way back, in every run.** -/
theorem compensation_run (o : Orchestrator) (ops : List Op) :
    (∀ members later, (o.run ops).frozenPlan = some members →
      (o.run (ops ++ later)).frozenPlan = some members ∧
      ∃ sent, (o.run (ops ++ later)).outbox = (o.run ops).outbox ++ sent ∧
        ∀ command ∈ sent, command.phase ≠ .execute) ∧
    (∀ op, ∃ sent, (o.run (ops ++ [op])).outbox = (o.run ops).outbox ++ sent ∧
      ∀ command ∈ sent, command.phase = .compensate →
        ∃ i d members before after, (o.run (ops ++ [op])).inst = some i ∧
          o.definitionOf i = some d ∧ (o.run (ops ++ [op])).frozenPlan = some members ∧
          command.step ∈ members ∧ d.names = before ++ command.step :: after ∧
          ∀ name ∈ after, name ∈ members → ∃ r, (o.run (ops ++ [op])).stepRow name = some r ∧
            r.compensationStatus = .succeeded) ∧
    (∀ op members, (o.run ops).frozenPlan = none →
      (o.run (ops ++ [op])).frozenPlan = some members →
      ∃ i d plan, (o.run (ops ++ [op])).inst = some i ∧ o.definitionOf i = some d ∧
        freezeCompensationPlan o.hashes d (journalOf (o.run (ops ++ [op])).steps) = .ok plan ∧
        ∀ name, name ∈ members ↔ name ∈ plan.entries.map (·.step)) := by
  have hb := o.based_run ops
  have hp := planned_run o ops
  refine ⟨fun members later hplan => ?_, fun op => ?_, fun op members hnone hplan => ?_⟩
  · rw [run_append]
    exact frozenPlan_runFrom hb hplan later
  · rw [run_concat]
    exact (exec_step hb.toKeyed op).compensates hb hp
  · rw [run_concat] at hplan ⊢
    exact (exec_step hb.toKeyed op).freezes hb hp hnone hplan

/-- The second of two steps rejects: the plan is the first one, and stays so. -/
theorem compensation_run_first :
    (TwoSteps.orchestrator.run [TwoSteps.start, TwoSteps.result "a" .execute 1 .succeeded 1,
      TwoSteps.result "b" .execute 1 .rejected 2]).frozenPlan = some ["a"] ∧
    ∀ later, (TwoSteps.orchestrator.run ([TwoSteps.start, TwoSteps.result "a" .execute 1 .succeeded 1,
      TwoSteps.result "b" .execute 1 .rejected 2] ++ later)).frozenPlan = some ["a"] := by
  have hplan : (TwoSteps.orchestrator.run [TwoSteps.start,
      TwoSteps.result "a" .execute 1 .succeeded 1,
      TwoSteps.result "b" .execute 1 .rejected 2]).frozenPlan = some ["a"] := by
    decide +kernel
  exact ⟨hplan, fun later => ((compensation_run TwoSteps.orchestrator _).1 _ later hplan).1⟩

end NasaRuntime.Saga
