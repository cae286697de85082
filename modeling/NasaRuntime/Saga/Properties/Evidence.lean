import NasaRuntime.Saga.Protocol.Invariant

/-!
# Evidence of a compensation

A step counts as compensated when its row says `SUCCEEDED`. Two results may say so: that of a
compensate attempt, and that of a resolve attempt which asked whether the compensation took effect.
A resolve attempt does not carry what it asked for. Its answer is read in the direction the
instance has when the answer arrives, so the answer to a question about the forward effect, if it
is late enough, is taken for an answer about the compensation (`Misreads`).

What an attempt asked for is the direction of the instance when its command was issued; `issued`
records it along a run.

**Theorem (`evidence_run`).** In a run that misreads no answer, a compensation becomes `SUCCEEDED`
only by a result that proves it, and a saga becomes `COMPENSATED` only if there is such a result for
every step that succeeded.
-/

namespace NasaRuntime.Saga

open Table List Orchestrator StepAttemptStatus Option ResultContext TwoSteps

variable {o : Orchestrator} {i : SagaInstanceRow} {k : Cause} {m : Mode} {db db1 db' : Db} {op : Op}
  {ops : List Op} {step : StepName} {phase : StepPhase} {n : AttemptNo} {dir : Direction}

/-! ## The commands of a run -/

namespace Orchestrator

/-- The commands issued from `db` on, each with the direction of the instance at that time. -/
def issuedFrom (o : Orchestrator) (db : Db) :
    List Op → List (SagaCommandEnvelope × Option Direction)
  | [] => []
  | op :: ops =>
    let db' := o.exec db op
    (db'.outbox.drop db.outbox.length).map (fun command => (command, db'.inst.map (·.direction))) ++
      o.issuedFrom db' ops

/-- The commands a run issues. -/
def issued (o : Orchestrator) (ops : List Op) : List (SagaCommandEnvelope × Option Direction) :=
  o.issuedFrom {} ops

theorem issuedFrom_append (db : Db) (ops later : List Op) :
    o.issuedFrom db (ops ++ later) =
      o.issuedFrom db ops ++ o.issuedFrom (runFrom o.exec db ops) later := by
  induction ops generalizing db with
  | nil => rfl
  | cons op ops ih => simp [issuedFrom, ih, append_assoc]

/-- The run issued this attempt while the instance went in direction `dir`. -/
def IssuedIn (o : Orchestrator) (ops : List Op) (step : StepName) (phase : StepPhase)
    (n : AttemptNo) (dir : Direction) : Prop :=
  ∃ p ∈ o.issued ops, p.1.step = step ∧ p.1.phase = phase ∧ p.1.attempt = n ∧ p.2 = some dir

theorem IssuedIn.append (h : o.IssuedIn ops step phase n dir) (later : List Op) :
    o.IssuedIn (ops ++ later) step phase n dir := by
  obtain ⟨p, hp, hkey⟩ := h
  refine ⟨p, ?_, hkey⟩
  rw [issued, issuedFrom_append]
  exact mem_append_left _ hp

/-- **Every attempt was issued**, in some direction. -/
theorem attempts_issued (o : Orchestrator) (ops : List Op) :
    ∀ a ∈ (o.run ops).attempts, ∃ dir, o.IssuedIn ops a.step a.phase a.attempt dir := by
  induction ops using reverseRecOn with
  | nil =>
    nofun
  | append_singleton ops op ih =>
    have hstep := exec_step (o := o) (o.based_run ops).toKeyed op
    obtain ⟨attempts, hkeys, hiss⟩ := hstep.issued
    -- the attempts there were, under their old keys
    have hold : ∀ a ∈ attempts, ∃ dir, o.IssuedIn (ops ++ [op]) a.step a.phase a.attempt dir := by
      intro a ha
      have hkey : a.key ∈ (o.run ops).attempts.map SagaStepAttemptRow.key :=
        hkeys ▸ mem_map_of_mem ha
      obtain ⟨a0, ha0, he⟩ := mem_map.1 hkey
      simp only [SagaStepAttemptRow.key, Prod.mk.injEq] at he
      obtain ⟨dir, hdir⟩ := ih a0 ha0
      rw [he.1, he.2.1, he.2.2] at hdir
      exact ⟨dir, hdir.append [op]⟩
    intro a ha
    rw [run_concat] at ha
    rcases hiss with ⟨hsame, -⟩ | ⟨row, command, hsent⟩
    · exact hold a (hsame ▸ ha)
    · rw [hsent.attempts_eq] at ha
      rcases mem_append.1 ha with ha | ha
      · exact hold a ha
      · rw [mem_singleton.1 ha]
        obtain ⟨j, hj, -⟩ := hsent.hot
        refine ⟨j.direction, (command, some j.direction), ?_, hsent.step.symm, hsent.phase.symm,
          hsent.attempt.symm, rfl⟩
        rw [issued, issuedFrom_append]
        refine mem_append_right _ ?_
        have hrun : o.exec (runFrom o.exec {} ops) op = o.exec (o.run ops) op := rfl
        have hlen : (runFrom o.exec {} ops).outbox.length = (o.run ops).outbox.length := rfl
        simp [issuedFrom, hrun, hlen, hsent.outbox_eq, hj]

/-! ## Evidence -/

/-- After the operations, this result is evidence that the step is compensated. -/
def Proves (o : Orchestrator) (ops : List Op) (e : SagaResultEnvelope) (step : StepName) : Prop :=
  e.step = step ∧ e.status = .succeeded ∧ (o.run ops).InFlight e.step e.phase e.attempt ∧
    (e.phase = .compensate ∨
      (e.phase = .resolve ∧ o.IssuedIn ops step .resolve e.attempt .compensating))

/-- Among the operations is a result that was evidence when it arrived. -/
def Proved (o : Orchestrator) (ops : List Op) (step : StepName) : Prop :=
  ∃ before e producer now after, ops = before ++ Op.result e producer now :: after ∧
    o.Proves before e step

/-- After the operations, this one is a first answer that a forward effect took place, and the
saga is already on its way back. -/
def Misreads (o : Orchestrator) (ops : List Op) : Op → Prop
  | .result e _ _ => (∃ i, (o.run ops).inst = some i ∧ i.direction = .compensating) ∧
      e.phase = .resolve ∧ e.status = .succeeded ∧
      (o.run ops).InFlight e.step e.phase e.attempt ∧
      o.IssuedIn ops e.step .resolve e.attempt .forward
  | _ => False

theorem Proved.append (h : o.Proved ops step) (later : List Op) : o.Proved (ops ++ later) step := by
  obtain ⟨before, e, producer, now, after, rfl, hprov⟩ := h
  exact ⟨before, e, producer, now, after ++ later, by simp, hprov⟩

end Orchestrator

/-! ## One step -/

variable {r r' : SagaStepRow}

theorem RowChange.compensates (h : RowChange i k m r r')
    (hbef : r.compensationStatus ≠ .succeeded) (haft : r'.compensationStatus = .succeeded) :
    ∃ c, k = .result c ∧ c.step = r.step ∧ c.status = .succeeded ∧
      (c.phase = .compensate ∨ (c.phase = .resolve ∧ c.inst.direction = .compensating)) := by
  -- a merge that makes the row compensated was asked to
  have hmerg {c : ResultContext} {patch merged : StepJournalPatch}
      (hmerge : c.merge r patch = some merged)
      (hsucc : (r.apply merged).compensationStatus = .succeeded) :
      patch.compensationStatus = some .succeeded := by
    rcases (apply_merge (merge_eq_some hmerge)).2.1 with he | ⟨-, he⟩
    · exact absurd (he.symm.trans hsucc) hbef
    · rwa [hsucc] at he
  cases h with
  | @deferred c _ _ patch merged hstep hcold hlat hpatch hmerge =>
    have hask := hmerg hmerge haft
    obtain ⟨hex, hcanc, hcompe, hreso⟩ := deferredPatch_ok hpatch
    refine ⟨c, rfl, hstep.symm, ?_⟩
    cases hph : c.phase with
    | execute =>
      rw [(hex hph).1] at hask
      cases hask
    | cancel =>
      rw [(hcanc hph).1] at hask
      cases hask
    | compensate =>
      rw [(hcompe hph).2.1] at hask
      exact ⟨toCompensation_eq_succeeded.1 hask, .inl rfl⟩
    | resolve =>
      obtain ⟨hforw, hback⟩ := hreso hph
      cases hdir : c.inst.direction with
      | forward =>
        rw [hforw hdir] at hask
        cases hask
      | compensating =>
        rw [hback hdir] at hask
        refine ⟨?_, .inr ⟨rfl, rfl⟩⟩
        cases hs : c.status <;> simp_all [toResolvedCompensation]
  | @merged c _ patch merged hstep hhot hpatch hmerge =>
    have hask := hmerg hmerge haft
    rcases hpatch with ⟨-, hnone, -⟩ | ⟨hph, hforw, -, hsucc⟩
    · rw [hnone] at hask
      cases hask
    · refine ⟨c, rfl, hstep.symm, (hsucc hask).resolve_right hbef, .inr ⟨hph, ?_⟩⟩
      cases hdir : c.inst.direction with
      | forward =>
        rw [hforw hdir] at hask
        cases hask
      | compensating => rfl
  | @mergedWaiting c _ patch merged hstep hhot hph hpatch hmerge =>
    have hask := hmerg hmerge haft
    rcases hpatch with ⟨-, hnone, -⟩ | ⟨hreso, -⟩
    · rw [hnone] at hask
      cases hask
    · rw [hph] at hreso
      cases hreso
  | executed _ _ _ hpatch =>
    simp only [SagaStepRow.apply, hpatch.2.1] at haft
    exact absurd haft hbef
  | @compensated c _ patch hstep hhot hph hforw hcomp hsome hres =>
    obtain ⟨status, hstat⟩ := isSome_iff_exists.1 hsome
    simp only [SagaStepRow.apply, hcomp, hstat, getD_some] at haft
    rw [haft] at hstat
    exact ⟨c, rfl, hstep.symm, toCompensation_eq_succeeded.1 hstat, .inl hph⟩
  | timedOut _ _ hpatch => rcases hpatch with rfl | rfl <;> exact absurd haft hbef
  | reopenedCompensation hhalt => cases haft
  | reopenedResolution hhalt => exact absurd haft hbef

/-- **One step.** A row becomes compensated by a result that proves it, unless an answer is
misread. -/
theorem Orchestrator.proves_of_compensated (hmisr : ¬ o.Misreads ops op)
    (hr : r ∈ (o.run ops).steps) (hr' : r' ∈ (o.run (ops ++ [op])).steps)
    (hstep : r'.step = r.step) (hbef : r.compensationStatus ≠ .succeeded)
    (haft : r'.compensationStatus = .succeeded) :
    ∃ e producer now, op = .result e producer now ∧ o.Proves ops e r.step := by
  have hb := o.based_run ops
  rw [run_concat] at hr'
  have hsame (hsteps : (o.exec (o.run ops) op).steps = (o.run ops).steps) : False := by
    rw [hsteps] at hr'
    rw [eq_of_key hb.steps hr' hr hstep] at haft
    exact hbef haft
  rcases (exec_step hb.toKeyed op).cases with started | kept | ⟨i, k, inst, -, arises, outcome⟩
  · rw [(hb.empty started.vacant).1] at hr
    cases hr
  · exact (hsame kept.steps).elim
  · obtain ⟨m, steps, hch, htagg⟩ := outcome.facts
    obtain ⟨r1, hr1, htag⟩ := htagg.source hr'
    obtain ⟨r0, hr0, hrow⟩ := hch.source hr1
    have hcomp : r1.compensationStatus = .succeeded ∧ r1.step = r.step := by
      rcases htag with rfl | htag
      · exact ⟨haft, hstep⟩
      · refine ⟨?_, htag.step.symm.trans hstep⟩
        rcases htag.compensationStatus with he | ⟨-, hpend⟩
        · exact he.symm.trans haft
        · rw [hpend] at haft
          cases haft
    rcases hrow with rfl | hrow
    · rw [eq_of_key hb.steps hr0 hr hcomp.2] at hcomp
      exact absurd hcomp.1 hbef
    · obtain rfl := eq_of_key hb.steps hr0 hr (hrow.keeps.1.symm.trans hcomp.2)
      obtain ⟨c, rfl, hcstep, hsucc, hph⟩ := hrow.compensates hbef hcomp.1
      obtain ⟨a, ha, hast, haph, haatt, -⟩ := arises.inFlight
      obtain ⟨dir, hiss⟩ := o.attempts_issued ops a ha
      rw [hast, haph, haatt] at hiss
      cases arises with
      | @result e producer now _ hinst hdef hstepDef hid hstat hall hflight =>
        refine ⟨e, producer, now, rfl, ?_⟩
        simp only [step, phase, attempt, hid,
          SagaResultEnvelope.identity] at hcstep hph hflight hiss
        rw [hstat] at hsucc
        refine ⟨hcstep, hsucc, hflight, hph.imp_right fun ⟨hres, hdir⟩ => ⟨hres, ?_⟩⟩
        rw [hres] at hiss
        cases dir with
        | forward =>
          refine absurd ⟨⟨i, inst, ?_⟩, hres, hsucc, hflight, hiss⟩ hmisr
          rw [← hinst]
          exact hdir
        | compensating =>
          rw [← hcstep]
          exact hiss

theorem Orchestrator.verifyMembers_ok {steps : List SagaStepRow} {frozen : String}
    {entries : List CompensationEntry} (h : verifyMembers steps frozen entries = .ok ()) :
    ∀ entry ∈ entries, ∃ r, steps.find? (·.step = entry.step) = some r ∧
      r.compensationStatus = .succeeded := by
  induction entries with
  | nil =>
    nofun
  | cons first rest ih =>
    unfold verifyMembers at h
    split at h
    · cases h
    · rename_i r hfind
      split at h
      · cases h
      · rename_i hok
        simp only [not_or, ne_eq, not_not] at hok
        intro entry hent
        rcases mem_cons.1 hent with rfl | hent
        · exact ⟨r, hfind, hok.2.2⟩
        · exact ih h entry hent

/-- A step into `COMPENSATED` has checked every row that succeeded. -/
theorem Step.converges {i' : SagaInstanceRow} (h : Step o db op db') (hb : db.Based o)
    (hbef : ∀ i, db.inst = some i → i.status ≠ .compensated) (hi' : db'.inst = some i')
    (hstat : i'.status = .compensated) :
    ∀ r ∈ db'.steps, r.forwardStatus = .succeeded → r.compensationStatus = .succeeded := by
  have hnod := (h.based hb).steps
  rcases h.cases with started | kept | ⟨i, k, inst, -, arises, outcome⟩
  · rw [(started.running hi').1] at hstat
    cases hstat
  · obtain ⟨i, state, version, inst, rfl⟩ := kept.source hi'
    exact absurd hstat (hbef i inst)
  · cases outcome with
    | stay quiet => exact absurd hstat (hbef i' (quiet.inst ▸ hi'))
    | again quiet reissue =>
      obtain ⟨-, -, -, can, issues⟩ := reissue
      have hne := hbef _ inst
      rw [issues.inst] at hi'
      cases hi'
      exact absurd hstat hne
    | leave quiet move =>
      cases move with
      | escalate can =>
        cases hi'
        cases hstat
      | finish guard can =>
        cases hi'
        cases guard <;> cases hstat
      | send guard can issues =>
        rw [issues.inst, Db.freezes_inst] at hi'
        cases hi'
        cases guard <;> cases hstat
      | wait guard hcur can budget query =>
        rw [(Db.opened_inst budget query).1] at hi'
        cases hi'
        cases hstat
      | @converge plan db2 guard can hdb2 proof can' =>
        obtain ⟨row, d, plan, -, -, hplan, -, hmemb⟩ := proof
        intro r hr hforw
        have hent : r.step ∈ plan.entries.map (·.step) :=
          (mem_entries_freeze hplan).2 ⟨_, mem_map_of_mem hr, rfl, hforw⟩
        obtain ⟨entry, hmem, hname⟩ := mem_map.1 hent
        obtain ⟨r', hfind, hcomp⟩ := verifyMembers_ok hmemb entry hmem
        rw [hname] at hfind
        have hread : db2.steps.find? (·.step = r.step) = some r := find?_of_mem hnod hr
        rw [some.inj (hread.symm.trans hfind)]
        exact hcomp

/-! ## Every run -/

theorem Step.row_source (h : Step o db op db') (hr' : r' ∈ db'.steps) :
    (∃ r ∈ db.steps, r'.step = r.step) ∨ r'.compensationStatus ≠ .succeeded := by
  rcases h.cases with started | kept | ⟨i, k, inst, -, arises, outcome⟩
  · obtain ⟨-, row, d, first, kind, id, -, -, -, -, -, -, -, -, db1, issues, hdeadl⟩ := started
    obtain ⟨timers, rfl⟩ := Db.deadline_eq hdeadl
    right
    intro hsucc
    obtain ⟨r, hr, htag⟩ := issues.tagged.source hr'
    obtain ⟨key, -, rfl⟩ := mem_map.1 hr
    rcases htag with rfl | htag
    · cases hsucc
    · rcases htag.compensationStatus with he | ⟨-, hpend⟩
      · rw [he] at hsucc
        cases hsucc
      · rw [hpend] at hsucc
        cases hsucc
  · exact .inl ⟨r', kept.steps ▸ hr', rfl⟩
  · have hkey : (r'.step, r'.ordinal) ∈ db.steps.map (fun r => (r.step, r.ordinal)) :=
      outcome.keys ▸ mem_map_of_mem hr'
    obtain ⟨r, hr, he⟩ := mem_map.1 hkey
    exact .inl ⟨r, hr, (Prod.mk.inj he).1.symm⟩

/-- Without a misread answer every compensated step is proved to be. -/
theorem Orchestrator.proved_of_compensated
    (h : ∀ before op after, ops = before ++ op :: after → ¬ o.Misreads before op) :
    ∀ r ∈ (o.run ops).steps, r.compensationStatus = .succeeded → o.Proved ops r.step := by
  induction ops using reverseRecOn with
  | nil =>
    intro r hr
    cases hr
  | append_singleton ops op ih =>
    have hprov := ih fun before op' after he => h before op' (after ++ [op]) (by simp [he])
    intro r' hr' hcomp
    have hstep := exec_step (o := o) (o.based_run ops).toKeyed op
    rw [← run_concat] at hstep
    rcases hstep.row_source hr' with ⟨r, hr, hkey⟩ | hne
    · rw [hkey]
      by_cases hbef : r.compensationStatus = .succeeded
      · exact (hprov r hr hbef).append [op]
      · obtain ⟨e, producer, now, rfl, hproves⟩ :=
          proves_of_compensated (h ops op [] rfl) hr hr' hkey hbef hcomp
        exact ⟨ops, e, producer, now, [], rfl, hproves⟩
    · exact absurd hcomp hne

/-- **Compensations are proved**, in every run that misreads no answer. -/
theorem evidence_run (o : Orchestrator) (ops : List Op)
    (h : ∀ before op after, ops = before ++ op :: after → ¬ o.Misreads before op) :
    (∀ before op after step r r', ops = before ++ op :: after →
      (o.run before).stepRow step = some r → (o.run (before ++ [op])).stepRow step = some r' →
      r.compensationStatus ≠ .succeeded → r'.compensationStatus = .succeeded →
      ∃ e producer now, op = .result e producer now ∧ o.Proves before e step) ∧
    (∀ before op after i, ops = before ++ op :: after →
      (∀ j, (o.run before).inst = some j → j.status ≠ .compensated) →
      (o.run (before ++ [op])).inst = some i → i.status = .compensated →
      ∀ step r, (o.run (before ++ [op])).stepRow step = some r → r.forwardStatus = .succeeded →
        r.compensationStatus = .succeeded ∧ o.Proved (before ++ [op]) step) := by
  refine ⟨?_, ?_⟩
  · intro before op after step r r' hops hr hr' hbef haft
    have hstep : r.step = step := by simpa using find?_some hr
    have hstep' : r'.step = step := by simpa using find?_some hr'
    rw [← hstep]
    exact proves_of_compensated (h before op after hops) (mem_of_find?_eq_some hr)
      (mem_of_find?_eq_some hr') (hstep'.trans hstep.symm) hbef haft
  · intro before op after i hops hbef hi hstat step r hr hforw
    have hmem := mem_of_find?_eq_some hr
    have hkey : r.step = step := by simpa using find?_some hr
    have hb := o.based_run before
    have hstep := exec_step (o := o) hb.toKeyed op
    rw [← run_concat] at hstep
    have hcomp := hstep.converges hb hbef hi hstat r hmem hforw
    refine ⟨hcomp, hkey ▸ proved_of_compensated ?_ r hmem hcomp⟩
    intro before' op' after' he
    refine h before' op' (after' ++ after) ?_
    rw [hops, append_cons, he]
    simp

/-- A saga that asks nothing: its one compensation is proved by the compensate result. -/
theorem evidence_run_compensated :
    orchestrator.Proved [start, result "a" .execute 1 .succeeded 1,
      result "b" .execute 1 .rejected 2,
      result "a" .compensate 1 .succeeded 3] "a" := by
  have hstat :
      let db := orchestrator.run [start,
        result "a" .execute 1 .succeeded 1, result "b" .execute 1 .rejected 2]
      let db' := orchestrator.exec db (result "a" .compensate 1 .succeeded 3)
      db.inst.map (·.status) = some .compensating ∧ db'.inst.map (·.status) = some .compensated ∧
        (db'.stepRow "a").map (·.forwardStatus) = some .succeeded := by
    decide +kernel
  simp only [← run_concat] at hstat
  obtain ⟨hbef, haft, hrow⟩ := hstat
  obtain ⟨i, hi, hstatus⟩ := map_eq_some_iff.1 haft
  obtain ⟨r, hr, hforw⟩ := map_eq_some_iff.1 hrow
  refine ((evidence_run orchestrator _ ?_).2 _ _ [] i rfl ?_ hi hstatus "a" r hr hforw).2
  · -- none of the operations is the result of a resolve attempt
    intro before op after hops hmisr
    have hmem : op ∈ before ++ op :: after := by simp
    rw [← hops] at hmem
    simp only [cons_append, nil_append, mem_cons, not_mem_nil, or_false] at hmem
    rcases hmem with rfl | rfl | rfl | rfl
    · exact hmisr
    · cases hmisr.2.1
    · cases hmisr.2.1
    · cases hmisr.2.1
  · intro j hj hcomp
    rw [hj, map_some, hcomp] at hbef
    cases hbef

/-- A step is asked about twice, the first answer moves the saga on, and the saga turns back before
the second answer arrives. -/
def TwoSteps.askedTwice : List Op :=
  [start, result "a" .execute 1 .unknown 10, claim 110, fire "a" .resolveTimeout 1 110,
    result "a" .resolve 1 .succeeded 120, result "b" .execute 1 .rejected 130]

/-- The second answer is about the forward effect, and makes the step compensated. -/
theorem evidence_run_misread :
    ((orchestrator.run askedTwice).stepRow "a").map (·.compensationStatus) =
      some .pending ∧
    ((orchestrator.run (askedTwice ++
      [result "a" .resolve 2 .succeeded 140])).stepRow "a").map (·.compensationStatus) =
      some .succeeded ∧
    ¬ ∃ e producer now, result "a" .resolve 2 .succeeded 140 = .result e producer now ∧
      orchestrator.Proves askedTwice e "a" := by
  have hstat : let db := orchestrator.run askedTwice
      let db' := orchestrator.exec db (result "a" .resolve 2 .succeeded 140)
      (db.stepRow "a").map (·.compensationStatus) = some .pending ∧
        (db'.stepRow "a").map (·.compensationStatus) = some .succeeded ∧
        ∀ p ∈ orchestrator.issued askedTwice, p.1.step = "a" →
          p.1.phase = .resolve → p.2 = some .forward := by
    decide +kernel
  simp only [← run_concat] at hstat
  obtain ⟨hbef, haft, hiss⟩ := hstat
  refine ⟨hbef, haft, ?_⟩
  rintro ⟨e, producer, now, he, -, -, -, hproof⟩
  cases he
  rcases hproof with hph | ⟨-, p, hp, hstep, hph, -, hdir⟩
  · cases hph
  · rw [hiss p hp hstep hph] at hdir
    cases hdir

end NasaRuntime.Saga
