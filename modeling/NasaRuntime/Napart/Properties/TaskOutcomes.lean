import NasaRuntime.Napart.Properties.TaskArrivals

/-!
# How a task is cancelled, audited and settled

A call of `cancel` ends a task that waits, and then finalizes it unless somebody else has it in hand
and sees to it; it leaves a request for a task that is moved; and it is too late for a task that
runs or has ended (`does_requestCancel`). It answers `false` for one of these reasons, or where it
has met a move that was prepared and not begun (`does_cancel`).

**Theorem (`task_settled_once`).** The payload is taken at most once and run only while it is; at
most one terminal status is published, it is never changed, and the payload is not run after it;
nothing is given back twice, and once the status is there and all calls have returned everything is
given back. If no audit has intervened in a move, the status is there when all have returned.

**Theorem (`cancelled_not_started`).** A task for which a call of `cancel` has answered `true` is
never started, unless a request came after the end of the move it was meant for.

**Theorem (`cancel_blames_nobody`).** The task type does not fail, and no failure is recorded,
unless there is a reason for it besides the cancellation, or the cancellation has met a move that
was prepared and not begun, or a submission that was under way. A call answers `false` only if the
task was started, completed or cancelled before, or if somebody else had begun to fail or reject it.
-/

namespace NasaRuntime.Napart

namespace TaskEntry

open Prog

variable {i epoch : ℕ} {mine held : Prop} {s : EntryStore}
  {E : TaskAuthorityError → EntryStore → Prop}

/-! ## Requests -/

/-- Thread `i` has ended the task by a cancellation. -/
structure Cancelled (i : ℕ) (s : EntryStore) : Prop where
  canceller : s.history.canceller = some i
  promise : i ∈ s.history.promises
  ended : s.ended
  fresh : s.history.holder ≠ .fresh
  free : s.history.holder.thread = some i → Free i s

theorem kept_cancelled : Kept i (Cancelled i) := by
  intro s s' hI hI' hR hs
  exact ⟨hR.grows.canceller i hs.canceller, hR.grows.promises hs.promise, hR.grows.ended hs.ended,
    hR.grows.fresh hs.fresh, fun h => kept_free s s' hI hI' hR (hs.free (hR.hand h))⟩

/-- The task runs, or has ended, or was cancelled by somebody else. -/
def TooLate (i : ℕ) (s : EntryStore) : Prop :=
  i ∉ s.history.promises ∧ (s.state = .running ∨ s.ended ∨ s.history.promises ≠ [])

variable {s' : EntryStore} {answer : Option Bool}

theorem TooLate.kept (hR : EntryRely i s s') (h : TooLate i s) : TooLate i s' := by
  refine ⟨fun hmem => h.1 (hR.promise hmem), ?_⟩
  rcases h.2 with hrun | hend | hprom
  · exact (hR.grows.running hrun).imp id .inl
  · exact .inr (.inl (hR.grows.ended hend))
  · refine .inr (.inr fun hnil => ?_)
    have hsub := hR.grows.promises
    rw [hnil] at hsub
    exact hprom (List.subset_nil.1 hsub)

/-- What a task that has ended, or is about to, is recorded as. -/
theorem exists_endsIn (hI : EntryInv s) (h : s.ended) : ∃ state, state.isTerminal ∧ s.EndsIn state := by
  rcases ended_iff.1 h with hst | hst
  · rcases hI.ending.record hst with hsome | hsome
    · obtain ⟨record, hrec⟩ := Option.isSome_iff_exists.1 hsome
      exact ⟨_, (hI.ending.pending record hrec).2, record, .inl hrec, rfl⟩
    · obtain ⟨record, hrec⟩ := Option.isSome_iff_exists.1 hsome
      exact ⟨_, hI.ending.kept record hrec, record, .inr hrec, rfl⟩
  · obtain ⟨record, hrec, hstate⟩ := hI.ending.status hst
    exact ⟨_, hst, record, .inr hrec, hstate⟩

theorem TooLate.kind (h : TooLate i s) (hI : EntryInv s) (hdism : ¬ s.Dismissed) :
    i ∉ s.history.promises ∧ (¬ s.Unstarted ∨ s.EndsIn .completed ∨ s.EndsIn .cancelled ∨
      s.history.promises ≠ []) := by
  refine ⟨h.1, ?_⟩
  rcases h.2 with hrun | hend | hprom
  · exact .inl fun hunst => hunst.1 hrun
  · by_cases hunst : s.Unstarted
    · obtain ⟨state, hterm, hin⟩ := exists_endsIn hI hend
      cases state with
      | completed => exact .inr (.inl hin)
      | cancelled => exact .inr (.inr (.inl hin))
      | failed => exact absurd ⟨hunst, .inl hin⟩ hdism
      | rejected => exact absurd ⟨hunst, .inr hin⟩ hdism
      | _ => cases hterm
    · exact .inl hunst
  · exact .inr (.inr (.inr hprom))

/-- A caller that has promised nothing. -/
def Asking (i : ℕ) (s : EntryStore) : Prop :=
  Quiet False False i [] s ∧ i ∉ s.history.promises

theorem kept_asking : Kept i (Asking i) := by
  intro s s' hI hI' hR hs
  exact ⟨kept_quiet [] s s' hI hI' hR hs.1, fun h => hs.2 (hR.promise h)⟩

theorem cancelled_cancelBy (hI : EntryInv s) (h : Asking i s) :
    Cancelled i (s.cancelBy i) := by
  by_cases hfresh : s.history.holder = .fresh
  · have hhold : (s.cancelBy i).history.holder = .closer i := by
      simp [EntryStore.cancelBy, EntryStore.terminate, hfresh]
    refine ⟨rfl, List.mem_cons_self, rfl, by simp [hhold], fun _ => ?_⟩
    have hdet : s.physicalRetention = .detached := hI.custody.loose (.inl hfresh)
    have hmove : s.moveDescriptor = none :=
      (hI.custody.unplaced (by simp [hfresh, Holder.isPlaced])).2
    refine ⟨by simp [hhold, Holder.thread], ?_, hmove⟩
    show s.physicalRetention.settles
    simp [hdet, PhysicalRetention.settles]
  · have hhold : (s.cancelBy i).history.holder = s.history.holder := by
      simp [EntryStore.cancelBy, EntryStore.terminate, hfresh]
    refine ⟨rfl, List.mem_cons_self, rfl, hhold ▸ hfresh, fun hs => ?_⟩
    exact (h.1.hand (hhold ▸ hs)).elim

theorem does_beginCancel (state : EntryState)
    (hst : state = .enqueueing ∨ state = .delayed ∨ state = .queued) :
    Does i (Asking i) (beginEnd state (·.cancelBy i))
      (fun _ s => Quiet True True i [] s ∧ Cancelled i s)
      fun e s => Asking i s ∧ (e ≠ .invalidState → s.ended) := by
  refine does_beginEnd kept_asking (fun s hI h hs => ?_) (fun s _ h hs => ⟨h, fun _ => ?_⟩)
    fun s _ h _ => ⟨h, fun hne => absurd rfl hne⟩
  · have hcanc := cancelled_cancelBy hI h
    have hlive : s.ended = false := by
      rcases hst with rfl | rfl | rfl <;> simp [EntryStore.ended, hs, EntryState.isTerminal]
    have hl := hI.live hlive
    refine ⟨owed_cancelBy hI (hs ▸ hst), ⟨h.1.owed, fun hf => ?_, fun hf => ?_,
      fun _ => hcanc.fresh, fun _ => trivial, fun _ => trivial⟩, hcanc⟩
    · rw [show (s.cancelBy i).history.finishers = [] from hl.finishers] at hf
      cases hf
    · rw [show (s.cancelBy i).history.settler = none from hl.settler] at hf
      cases hf
  · simp [EntryStore.ended, hs]

theorem does_deferCancel :
    Does i (Asking i)
      (.atomic fun s => (s.cancelRequested, { s with
        cancelRequested := true
        history.promises :=
          if s.cancelRequested then s.history.promises else i :: s.history.promises
        history.late := s.history.late || s.state != .moving }))
      (fun already s => Quiet False False i [] s ∧
        if already then TooLate i s else i ∈ s.history.promises) E := by
  refine meets_atomic kept_asking fun s hI h => ⟨owed_defer hI, { h.1 with }, ?_⟩
  cases hreqd : s.cancelRequested with
  | true =>
    have hprom := hI.requested.flag hreqd
    simpa [TooLate, hreqd] using And.intro h.2 (.inr (.inr hprom))
  | false => simp

/-- What is known when a call of `cancel` has decided. -/
def Decided (i : ℕ) (s : EntryStore) : CancelDecision → Prop
  | .accepted => Quiet True True i [] s ∧ Cancelled i s
  | .deferredMoving => Quiet False False i [] s ∧ i ∈ s.history.promises
  | .alreadyDeferred | .tooLate => Quiet False False i [] s ∧ TooLate i s

/-- A state that waits is ended; if it has changed in between, the loop begins again. -/
theorem does_cancelWaiting {rounds : ℕ} {state : EntryState}
    (hst : state = .enqueueing ∨ state = .delayed ∨ state = .queued)
    (hag : Does i (Asking i) (requestCancel i rounds) (fun decision s => Decided i s decision)
      fun _ _ => True) :
    Does i (Asking i) (do
      let begun ← (beginEnd state (·.cancelBy i)).attempt
      match begun with
      | .ok () => return .accepted
      | .error .invalidState => requestCancel i rounds
      | .error _ => return .tooLate)
      (fun decision s => Decided i s decision) fun _ _ => True := by
  refine meets_try (does_beginCancel state hst) (fun _ => meets_pure fun s _ h => h) fun e => ?_
  cases e with
  | invalidState => exact meets_pre hag fun s _ h => h.1
  | _ => exact meets_pure fun s _ h => ⟨h.1.1, h.1.2, .inr (.inl (h.2 (by simp)))⟩

theorem does_requestCancel (rounds : ℕ) :
    Does i (Asking i) (requestCancel i rounds) (fun decision s => Decided i s decision)
      fun _ _ => True := by
  induction rounds with
  | zero => exact meets_fail fun _ _ _ => trivial
  | succ rounds ih =>
    refine meets_bind (does_see kept_asking) fun state => ?_
    have hlate : state = .running ∨ state = .terminating ∨ state.isTerminal →
        Does i (fun s => Asking i s ∧ s.state = state) (pure .tooLate)
          (fun decision s => Decided i s decision) fun _ _ => True := by
      intro hst
      refine meets_pure fun s _ h => ⟨h.1.1, h.1.2, ?_⟩
      rcases hst with rfl | rfl | hst
      · exact .inl h.2
      · exact .inr (.inl (ended_iff.2 (.inl h.2)))
      · exact .inr (.inl (ended_iff.2 (.inr (h.2 ▸ hst))))
    cases state with
    | enqueueing => exact meets_pre (does_cancelWaiting (.inl rfl) ih) fun s _ h => h.1
    | delayed => exact meets_pre (does_cancelWaiting (.inr (.inl rfl)) ih) fun s _ h => h.1
    | queued => exact meets_pre (does_cancelWaiting (.inr (.inr rfl)) ih) fun s _ h => h.1
    | moving =>
      refine meets_bind (meets_pre does_deferCancel fun s _ h => h.1) fun already => ?_
      cases already with
      | true | false => exact meets_pure fun s _ h => h
    | running => exact hlate (.inl rfl)
    | terminating => exact hlate (.inr (.inl rfl))
    | completed | cancelled | rejected | failed => exact hlate (.inr (.inr rfl))

/-! ## Settling a cancelled task -/

/-- The call that has cancelled the task has settled it, or has found what keeps it from that. -/
def Answered (s : EntryStore) : Prop :=
  s.Settled ∨ s.history.blocked ∨ s.history.collided ∨ s.history.audited ∨ s.history.shifted

theorem Grows.answered (hg : Grows s s') (h : Answered s) : Answered s' :=
  h.imp hg.settled (Or.imp hg.blocked (Or.imp hg.collided (Or.imp hg.audited hg.shifted)))

/-- What the call knows after it has tried to settle the task. -/
structure Tried (i : ℕ) (s : EntryStore) : Prop where
  quiet : Quiet True True i [] s
  promise : i ∈ s.history.promises
  ended : s.ended
  settled : s.history.holder.thread = some i → s.Settled
  answered : Answered s

theorem kept_tried : Kept i (Tried i) := by
  intro s s' hI hI' hR hs
  exact ⟨kept_quiet [] s s' hI hI' hR hs.quiet, hR.grows.promises hs.promise,
    hR.grows.ended hs.ended, fun h => hR.grows.settled (hs.settled (hR.hand h)),
    hR.grows.answered hs.answered⟩

theorem blamed_of_shifted (hI : EntryInv s) (h : s.history.shifted) : s.Blamed := by
  rcases (hI.ending.shifted h).2 with hcross | haud
  · exact .inr (.inl hcross)
  · exact .inl haud

/-- Whatever keeps a call from settling the task is recorded. -/
theorem answered_of_error (hI : EntryInv s) {free : Prop} {e : TaskAuthorityError}
    (h : FinalError free True true s e) :
    Answered s ∧ (free → s.Settled) ∧
      (e ≠ .retentionMismatch → e ≠ .settlementOwned → s.Blamed) := by
  cases e with
  | settlementOwned => exact ⟨.inl h, fun _ => h, fun _ hne => absurd rfl hne⟩
  | retentionMismatch =>
    exact ⟨.inr (.inl (h.2 rfl)), fun hf => absurd hf h.1, fun hne => absurd rfl hne⟩
  | ownerMismatch =>
    refine ⟨.inr (.inr (.inr h.2)), fun hf => absurd hf h.1, fun _ _ => ?_⟩
    exact h.2.elim .inl (blamed_of_shifted hI)
  | settlementConflict =>
    rcases h with ⟨hsett, hshift⟩ | ⟨hfree, hcoll⟩
    · exact ⟨.inl hsett, fun _ => hsett, fun _ _ => blamed_of_shifted hI hshift⟩
    · exact ⟨.inr (.inr (.inl (hcoll rfl))), fun hf => absurd hf hfree,
        fun _ _ => .inr (.inr (.inl (hcoll rfl)))⟩
  | invalidState => exact absurd trivial h
  | moveAlreadyPrepared | moveTicketMismatch | moveEpochExhausted | invalidTerminal | taskMissing
  | authorityCorrupted | paused => exact h.elim

theorem grows_promised : ∀ s s' : EntryStore, Grows s s' → (i ∈ s.history.promises ∧ s.ended) →
    i ∈ s'.history.promises ∧ s'.ended :=
  fun _ _ hg h => ⟨hg.promises h.1, hg.ended h.2⟩

theorem does_finalizeCancelled (held free : Prop) :
    Does i (fun s => (Quiet True held i [] s ∧ (free → Free i s)) ∧
        i ∈ s.history.promises ∧ s.ended) (finalizeTermination i true true)
      (fun _ s => (Quiet True held i [] s ∧ s.Settled) ∧ i ∈ s.history.promises ∧ s.ended)
      fun e s => (Quiet True held i [] s ∧ FinalError free True true s e) ∧
        i ∈ s.history.promises ∧ s.ended :=
  meets_pre (does_frame does_finalizeTermination grows_promised) fun _ _ h =>
    ⟨⟨h.1.1, h.1.2, fun _ => h.2.2, nofun⟩, h.2⟩

/-- The call tries to settle the task. It has the task in hand if the task was delayed. -/
theorem does_trySettle :
    Does i (fun s => Quiet True True i [] s ∧ Cancelled i s)
      ((finalizeTermination i true true).attempt)
      (fun outcome s => Tried i s ∧ ∀ e, outcome = .error e → e ≠ .retentionMismatch →
        e ≠ .settlementOwned → s.Blamed) E := by
  intro s hI h
  by_cases hhand : s.history.holder.thread = some i
  · refine meets_attempt (meets_post (does_finalizeCancelled True True)
      (fun _ s _ h => ?_) fun e s hI h => ?_) s hI
      ⟨⟨h.1, fun _ => h.2.free hhand⟩, h.2.promise, h.2.ended⟩
    · exact ⟨⟨h.1.1, h.2.1, h.2.2, fun _ => h.1.2, .inl h.1.2⟩, nofun⟩
    · obtain ⟨hans, hsett, hblam⟩ := answered_of_error hI h.1.2
      refine ⟨⟨h.1.1, h.2.1, h.2.2, fun _ => hsett trivial, hans⟩, fun e' he => ?_⟩
      cases he
      exact hblam
  · refine meets_attempt (meets_post (does_finalizeCancelled False False)
      (fun _ s _ h => ?_) fun e s hI h => ?_) s hI
      ⟨⟨{ h.1 with hand := fun hs => hhand hs }, fun h => h.elim⟩, h.2.promise, h.2.ended⟩
    · exact ⟨⟨h.1.1.weaken, h.2.1, h.2.2, fun _ => h.1.2, .inl h.1.2⟩, nofun⟩
    · obtain ⟨hans, -, hblam⟩ := answered_of_error hI h.1.2
      refine ⟨⟨h.1.1.weaken, h.2.1, h.2.2, fun hs => (h.1.1.hand hs).elim, hans⟩, fun e' he => ?_⟩
      cases he
      exact hblam

/-- A task that was tried to be settled is settled, or thread `i` does not have it in hand. -/
theorem does_finalizeTerminal_tried :
    Does i (fun s => Tried i s ∧ s.Blamed) (finalizeTerminal i)
      (fun _ s => Tried i s ∧ s.Blamed) E := by
  have hgrows : ∀ s s' : EntryStore, Grows s s' →
      ((i ∈ s.history.promises ∧ s.ended) ∧ Answered s) →
        (i ∈ s'.history.promises ∧ s'.ended) ∧ Answered s' :=
    fun s s' hg h => ⟨grows_promised s s' hg h.1, hg.answered h.2⟩
  intro s hI h
  by_cases hsett : s.Settled
  · refine meets_post (does_frame (does_frame does_finalizeTerminal_blamed hgrows)
      fun _ _ hg => hg.settled) (fun _ s _ h => ?_) (fun _ _ _ h => h.1.1) s hI
      ⟨⟨⟨h.1.quiet, h.2⟩, ⟨h.1.promise, h.1.ended⟩, h.1.answered⟩, hsett⟩
    exact ⟨⟨h.1.1.1, h.1.2.1.1, h.1.2.1.2, fun _ => h.2, h.1.2.2⟩, h.1.1.2⟩
  · have hquiet : Quiet True False i [] s :=
      { h.1.quiet with hand := fun hs => hsett (h.1.settled hs) }
    refine meets_post (does_frame does_finalizeTerminal_blamed hgrows) (fun _ s _ h => ?_)
      (fun _ _ _ h => h.1) s hI ⟨⟨hquiet, h.2⟩, ⟨h.1.promise, h.1.ended⟩, h.1.answered⟩
    exact ⟨⟨h.1.1.weaken, h.2.1.1, h.2.1.2, fun hs => (h.1.1.hand hs).elim, h.2.2⟩, h.1.2⟩

theorem does_recordAuthorityFailure_ended (reason : String) :
    Does i (fun s => Tried i s ∧ s.Blamed) (recordAuthorityFailure i reason)
      (fun _ s => Tried i s ∧ s.Blamed) E := by
  refine meets_bind (does_see (kept_tried.and kept_blamed)) fun state => ?_
  split_ifs with hterm htermi
  · exact meets_pure fun s _ h => h.1
  · exact meets_pre does_finalizeTerminal_tried fun s _ h => h.1
  all_goals
    intro s _ h
    exact absurd h.1.1.ended (not_ended h.2 htermi hterm)

theorem does_recordFailure (bound : Bool) (reason : String) :
    Does i (fun s => Tried i s ∧ s.Blamed) (recordFailure i bound reason)
      (fun _ s => Tried i s ∧ s.Blamed) E := by
  cases bound with
  | true => exact does_recordAuthorityFailure_ended reason
  | false =>
    exact meets_modify (kept_tried.and kept_blamed) fun s hI h =>
      ⟨owed_flags hI fun _ => h.2, { h.1 with quiet := { h.1.quiet with } }, h.2⟩

theorem does_settleDelayedCancel :
    Does i (fun s => Quiet True True i [] s ∧ Cancelled i s) (settleDelayedCancel i)
      (fun _ => Tried i) E := by
  refine meets_bind does_trySettle fun outcome => ?_
  refine meets_bind (does_look (kept_tried.and ?_)) fun bound => ?_
  · exact kept_of_grows fun _ _ hg h e he hmism hown => hg.blamed (h e he hmism hown)
  cases outcome with
  | ok _ => exact meets_pure fun s _ h => h.1
  | error e =>
    simp only
    split_ifs with hown hmism
    · exact meets_pure fun s _ h => h.1
    · refine meets_bind (meets_pre (does_read (Q := fun state s => Tried i s ∧
        (state = .terminating ∨ state.isTerminal)) kept_tried
        fun s _ h => ⟨h, ended_iff.1 h.ended⟩) fun s _ h => h.1) fun state => ?_
      split_ifs with hst
      · exact meets_pure fun s _ h => h.1
      · exact fun s _ h => absurd h.2 hst
    · exact meets_mono (does_recordFailure bound _)
        (fun s _ h => ⟨h.1, h.2 e rfl hmism hown⟩) (fun _ _ _ h => h.1) fun _ _ _ h => h

theorem does_settleCancelled (bound : Bool) :
    Does i (fun s => Quiet True True i [] s ∧ Cancelled i s) (settleCancelled i bound)
      (fun answer s => Tried i s ∧ (answer = false → s.Blamed)) E := by
  refine meets_bind does_trySettle fun outcome => ?_
  cases outcome with
  | ok _ => exact meets_pure fun s _ h => ⟨h.1, nofun⟩
  | error e =>
    simp only
    split_ifs with hwhy
    · refine meets_bind (meets_pre (does_read (Q := fun state s => Tried i s ∧
        (state = .terminating ∨ state.isTerminal)) kept_tried
        fun s _ h => ⟨h, ended_iff.1 h.ended⟩) fun s _ h => h.1) fun state => ?_
      split_ifs with hst
      · exact meets_pure fun s _ h => ⟨h.1, nofun⟩
      · exact fun s _ h => absurd h.2 hst
    · have hwhy : e ≠ .retentionMismatch ∧ e ≠ .settlementOwned := by simpa using hwhy
      refine meets_bind (meets_pre (does_recordFailure bound _)
        fun s _ h => ⟨h.1, h.2 e rfl hwhy.1 hwhy.2⟩) fun _ => ?_
      exact meets_pure fun s _ h => ⟨h.1, fun _ => h.2⟩

/-! ## What is left of a call -/

/-- What thread `i` leaves, and what its answer means. -/
structure Called (i : ℕ) (answer : Option Bool) (s : EntryStore) : Prop where
  quiet : Quiet True True i [] s
  duty : s.history.holder.thread = some i →
    s.handle = false ∧ s.history.holder = .producer i ∨ Duty s
  answered : s.history.canceller = some i → Answered s
  yes : answer = some true → i ∈ s.history.promises
  no : answer = some false → s.Blamed ∨ TooLate i s

theorem Tried.called (h : Tried i s) (hno : answer = some false → s.Blamed) : Called i answer s :=
  ⟨h.quiet, fun hs => .inr (.inl (h.settled hs)), fun _ => h.answered, fun _ => h.promise,
    fun ha => .inl (hno ha)⟩

theorem Finish.called (h : Finish False i s) : Called i none s :=
  ⟨{ h.1 with canceller := fun _ => trivial }, h.2, fun hs => (h.1.canceller hs).elim, nofun, nofun⟩

theorem Quiet.called (h : Quiet False False i [] s)
    (hyes : answer = some true → i ∈ s.history.promises)
    (hno : answer = some false → TooLate i s) : Called i answer s :=
  ⟨{ h with canceller := fun _ => trivial, hand := fun _ => trivial },
    fun hs => (h.hand hs).elim, fun hs => (h.canceller hs).elim, hyes, fun ha => .inr (hno ha)⟩

theorem does_cancel (rounds : ℕ) (scheduled : Bool) :
    Does i (Asking i) (cancel i rounds scheduled) (Called i) fun _ _ => True := by
  refine meets_bind (does_look kept_asking) fun handle => ?_
  split_ifs with hhand
  · exact meets_pure fun s _ h => h.1.called (fun ha => by cases ha) fun ha => by cases ha
  refine meets_bind (does_requestCancel rounds) fun decision => ?_
  cases decision with
  | deferredMoving =>
    exact meets_pure fun s _ h => h.1.called (fun _ => h.2) nofun
  | alreadyDeferred | tooLate =>
    exact meets_pure fun s _ h => h.1.called nofun fun _ => h.2
  | accepted =>
    refine meets_bind (M := fun _ s => Quiet True True i [] s ∧ Cancelled i s) ?_ fun _ => ?_
    · exact meets_modify ((kept_quiet []).and kept_cancelled) fun s hI h =>
        ⟨owed_untabled hI h.2.fresh, { h.1 with },
        { h.2 with free := fun hs => { h.2.free hs with } }⟩
    refine meets_bind (does_look ((kept_quiet []).and kept_cancelled)) fun bound => ?_
    split_ifs with hbound
    · refine meets_bind does_settleDelayedCancel fun _ => ?_
      exact meets_pure fun s _ h => h.called nofun
    · refine meets_bind (does_settleCancelled bound) fun answer => ?_
      exact meets_pure fun s _ h => h.1.called fun ha => h.2 (by simpa using ha)

/-! ## Audits -/

theorem does_auditPrepared (epoch : ℕ) :
    Does i (Audited mine true i epoch) (auditPrepared i epoch) (fun _ => Overdue mine i) E := by
  have hclear : Does i (Audited mine true i epoch) ((clearInactiveMove true epoch).attempt)
      (fun _ => Audited mine true i epoch) E :=
    does_clearInactiveMove true kept_audited (fun s h => h.2.2) fun s h =>
      ⟨{ h.1 with }, by simp [h.2.1], h.2.2⟩
  have hfin : Does i (Audited mine true i epoch) finishMoving
      (fun _ => Audited mine true i epoch) E :=
    does_finishMoving kept_audited fun s h => ⟨{ h.1 with }, h.2⟩
  refine meets_bind (does_look kept_audited) fun retention => ?_
  cases retention with
  | container =>
    refine meets_bind hclear fun _ => ?_
    exact meets_post hfin (fun _ _ _ h => ⟨h.1, h.2.1⟩) fun _ _ _ h => h
  | handling =>
    refine meets_bind hclear fun abandoned => ?_
    refine meets_bind hfin fun _ => ?_
    refine meets_bind (does_look kept_audited) fun state => ?_
    split_ifs
    · exact meets_post does_finalizeTerminal_audited (fun _ _ _ h => ⟨h.1, h.2.1⟩) fun _ _ _ h => h
    · exact meets_pre (does_failBeforeRunning_audited _) fun s _ h => ⟨h.1, h.2.1⟩
  | _ =>
    refine meets_bind hclear fun _ => ?_
    refine meets_bind hfin fun _ => ?_
    exact meets_pre (does_recordAuthorityFailure_audited _) fun s _ h => ⟨h.1, h.2.1⟩

/-- An audit may do anything to a move that is overdue. -/
theorem does_audit (overdue : Bool) :
    Does i (Quiet mine False i []) (audit i overdue) (fun _ => Over mine i) E := by
  refine meets_bind (does_look (kept_quiet [])) fun moving => ?_
  by_cases hmov : moving = false
  · simp only [hmov, if_true]
    exact meets_pure fun s _ h => h.over
  simp only [hmov]
  refine meets_bind (does_look (kept_quiet [])) fun descriptor => ?_
  cases descriptor with
  | none =>
    exact meets_post (does_finishMoving (kept_quiet []) fun s h => { h with })
      (fun _ _ _ h => h.over) fun _ _ _ h => h
  | some descriptor =>
    refine meets_bind (M := fun state s => Quiet mine False i [] s ∧
      (overdue → (state = .moving ∨ state = .queued ∨ state = .terminating) →
        s.history.audited)) ?_ fun state => ?_
    · refine meets_atomic (kept_quiet []) fun s hI h => ?_
      by_cases hwhy : overdue = true ∧
        (s.state = .moving ∨ s.state = .queued ∨ s.state = .terminating)
      · simp only [hwhy, and_self, if_true]
        exact ⟨owed_audited hI, { h with }, fun _ _ => trivial⟩
      · simp only [hwhy, if_false]
        exact ⟨Owed.refl hI, h, fun ho hs => absurd ⟨ho, hs⟩ hwhy⟩
    have hover : ∀ s, Overdue mine i s → Over mine i s := fun s h => ⟨h.1, fun _ => .inr (.inl h.2)⟩
    split_ifs with hst hov hoth hov
    · exact meets_mono (does_failActiveMove true _)
        (fun s _ h => ⟨h.1.weaken, h.2 hov (.inl hst), .inl rfl⟩)
        (fun _ s _ h => hover s ⟨h.1, h.2.1⟩) fun _ _ _ h => h
    · exact meets_pure fun s _ h => h.1.over
    · exact meets_mono (does_auditPrepared _)
        (fun s _ h => ⟨h.1.weaken, h.2 hov (.inr hoth), .inl rfl⟩)
        (fun _ s _ h => hover s h) fun _ _ _ h => h
    · exact meets_pure fun s _ h => h.1.over
    · refine meets_bind (meets_pre (does_clearInactiveMove true (kept_quiet [])
        (fun s _ => .inl rfl) fun s h => { h with }) fun s _ h => h.1) fun _ => ?_
      exact meets_post (does_finishMoving (kept_quiet []) fun s h => { h with })
        (fun _ _ _ h => h.over) fun _ _ _ h => h

open List Prog Option

variable {i : ℕ} {s s' : EntryStore}

/-! ## All users -/

theorem Duty.kept (hR : EntryRely i s s') (hhand : s.history.holder.thread = some i)
    (h : Duty s) : Duty s' := by
  have hheld := hR.held hhand
  rcases h with hsett | haud | ⟨hend, hcanc, hret, hmove, hblock, hcoll, hshift⟩
  · exact .inl (hR.grows.settled hsett)
  · exact .inr (.inl (hR.grows.audited haud))
  · refine .inr (.inr ⟨hR.grows.ended hend, hR.grows.cancellerSome hcanc, ?_, ?_,
      (hheld.blocked hret).trans hblock, (hheld.collided hmove).trans hcoll,
      hheld.shifted.trans hshift⟩)
    · rcases hheld.retention with heq | ⟨hgone, -⟩
      · rwa [heq]
      · rw [hgone]
        rfl
    · rcases hheld.move with heq | ⟨hnone, -⟩
      · exact heq.trans hmove
      · exact hnone

theorem Called.kept {answer : Option Bool} (hR : EntryRely i s s') (h : Called i answer s) :
    Called i answer s' := by
  refine ⟨h.quiet.kept hR, fun hs => ?_, fun hs => ?_, fun ha => ?_, fun ha => ?_⟩
  · have hhand := hR.hand hs
    rcases h.duty hhand with ⟨hhandle, hhold⟩ | hduty
    · exact .inl ⟨((hR.held hhand).handle hhold).trans hhandle, (hR.held hhand).holder.trans hhold⟩
    · exact .inr (hduty.kept hR hhand)
  · exact hR.grows.answered (h.answered (hR.canceller hs))
  · exact hR.grows.promises (h.yes ha)
  · exact (h.no ha).imp hR.grows.blamed (TooLate.kept hR)

theorem Asking.over {E : TaskAuthorityError → EntryStore → Prop} {p : EntryProg Unit}
    (hp : Does i (Quiet False False i []) p (fun _ => Over False i) E) :
    Does i (Asking i) (p >>= fun _ => pure none) (Called i) E :=
  meets_bind (meets_pre hp fun _ _ h => h.1) fun _ => meets_pure fun _ _ h => h.finish.called

variable (home : ℕ)

theorem does_call (call : TaskCall) :
    Does i (Asking i) (call.prog i home) (Called i) fun _ _ => True := by
  cases call with
  | expire answer => exact Asking.over (does_expireDelayed home answer)
  | rejectDelayed => exact Asking.over does_rejectDelayed
  | consume consumer => exact Asking.over (does_consume consumer)
  | cancel rounds scheduled => exact does_cancel rounds scheduled
  | audit overdue => exact Asking.over (does_audit overdue)

/-! ## Runs -/

/-- Everybody keeps to the rules. -/
abbrev TaskInv (sys : TaskSys) : Prop :=
  sys.Inv EntryRely (Sys.Owes EntryRely EntryInv) (fun _ _ _ => True) EntryInv Called

theorem asking_store (start : TaskStart) : Asking (i + 1) (start.store home) := by
  cases start with
  | immediate answer =>
    refine ⟨⟨rfl, ?_, ?_, ?_, ?_, ?_⟩, ?_⟩ <;>
      simp [TaskStart.store, EntryStore.immediate, History.new, Holder.thread]
  | delayed =>
    refine ⟨⟨rfl, ?_, ?_, ?_, ?_, ?_⟩, ?_⟩ <;>
      simp [TaskStart.store, EntryStore.postponed, History.new, Holder.thread]

theorem entryInv_store (start : TaskStart) : EntryInv (start.store home) := by
  cases start with
  | immediate answer => exact entryInv_new (.inl rfl)
  | delayed => exact entryInv_new (.inr rfl)

theorem does_start (start : TaskStart) :
    Does 0 (fun s => s = start.store home) (start.prog home) (Called 0) fun _ _ => True := by
  cases start with
  | immediate answer =>
    refine meets_bind (meets_pre (does_submit home answer) fun s _ h => ?_)
      fun _ => meets_pure fun _ _ h => h.called
    subst h
    refine ⟨⟨rfl, ?_, ?_, ?_, ?_, ?_⟩, ?_, ?_, ?_, ?_⟩ <;>
      simp [TaskStart.store, EntryStore.immediate, History.new, EntryStore.ended,
        EntryState.isTerminal]
  | delayed =>
    refine meets_pure fun s _ h => ?_
    subst h
    refine Quiet.called ⟨rfl, ?_, ?_, ?_, ?_, ?_⟩ ?_ ?_ <;>
      simp [TaskStart.store, EntryStore.postponed, History.new, Holder.thread]

theorem compatible_called :
    Sys.Compatible EntryRely (Sys.Owes EntryRely EntryInv) EntryInv Called :=
  Sys.compatible_owes EntryRely.refl (fun _ _ _ _ h h' => h.trans h') fun _ _ _ _ hR h => h.kept hR

theorem taskInv_launch (start : TaskStart) (calls : List TaskCall) :
    TaskInv (taskSystem home start calls) := by
  have hI := entryInv_store home start
  refine Sys.inv_launch hI fun k => ?_
  cases k with
  | zero => exact does_start home start _ hI rfl
  | succ k =>
    have hask := asking_store (i := k) home start
    cases hcall : calls[k]? with
    | some call =>
      simp only [hcall]
      exact does_call home call _ hI hask
    | none =>
      simp only [hcall]
      exact hask.1.called (fun ha => by cases ha) fun ha => by cases ha

variable {sys : TaskSys}

theorem admissible_task (input : Input Empty) :
    sys.Admissible EntryRely (fun _ _ _ => True) EntryInv Called (fun s _ => s) input := by
  cases input with
  | run k | stop k => trivial
  | env e => exact e.elim

/-- **Run.** -/
theorem TaskInv.runFrom (h : TaskInv sys) (inputs : List (Input Empty)) :
    TaskInv (runFrom taskExec sys inputs) :=
  Sys.sound compatible_called h (Along.mono (fun _ input _ => admissible_task input)
    (along_true sys inputs))

theorem inv_taskSystem (start : TaskStart) (calls : List TaskCall)
    (inputs : List (Input Empty)) :
    TaskInv (runFrom taskExec (taskSystem home start calls) inputs) :=
  (taskInv_launch home start calls).runFrom inputs

/-- What never goes back in a step does not go back in a run. -/
theorem TaskInv.grows (h : TaskInv sys) (inputs : List (Input Empty)) :
    Grows sys.store (NasaRuntime.runFrom taskExec sys inputs).store := by
  refine Sys.moved compatible_called Grows.refl (fun _ _ _ => Grows.trans)
    (fun k s s' _ howed => Owed.grows howed) h ?_
  exact Along.mono (fun _ input _ => ⟨admissible_task input, fun e => e.elim⟩)
    (along_true sys inputs)

/-- All calls have returned. -/
def AllReturned (sys : TaskSys) : Prop := ∀ i, ∃ answer, sys.procs i = .done answer

/-- All calls have returned, and nobody will find the task any more. -/
def Unreferenced (sys : TaskSys) : Prop :=
  AllReturned sys ∧ sys.store.items = [] ∧ sys.store.delayed = false

/-! ## The end of a task -/

variable {sys : TaskSys}

theorem TaskInv.quiet (h : TaskInv sys) (hall : AllReturned sys) (k : ℕ) :
    Quiet True True k [] sys.store := by
  obtain ⟨answer, hans⟩ := hall k
  exact (Sys.Inv.result h hans).quiet

theorem TaskInv.owed_nil (h : TaskInv sys) (hall : AllReturned sys) :
    sys.store.history.owed = [] := by
  refine eq_nil_iff_forall_not_mem.2 fun pair hmem => ?_
  have hnone := (h.quiet hall pair.1).owed
  have hmine : pair.2 ∈ sys.store.owedBy pair.1 := by
    unfold EntryStore.owedBy
    refine mem_map.2 ⟨pair, mem_filter.2 ⟨hmem, ?_⟩, rfl⟩
    simp
  rw [hnone] at hmine
  cases hmine

theorem TaskInv.terminal_of_settled (h : TaskInv sys) (hall : AllReturned sys)
    (hsett : sys.store.Settled) : sys.store.state.isTerminal := by
  have hterm : sys.store.terminal.isSome := by
    rcases hsett with hterm | hfin
    · exact hterm
    · obtain ⟨k, hk⟩ := exists_mem_of_ne_nil _ hfin
      exact (h.quiet hall k).finisher hk
  rw [h.1.ending.settler] at hterm
  obtain ⟨k, hk⟩ := isSome_iff_exists.1 hterm
  exact (h.quiet hall k).settler hk

theorem TaskInv.terminal_of_duty (h : TaskInv sys) (hall : AllReturned sys)
    (haud : sys.store.history.audited = false) (hduty : Duty sys.store) :
    sys.store.state.isTerminal := by
  rcases hduty with hsett | haud' | ⟨-, hcanc, -, -, hblock, hcoll, hshift⟩
  · exact h.terminal_of_settled hall hsett
  · simp [haud] at haud'
  · obtain ⟨k, hk⟩ := isSome_iff_exists.1 hcanc
    obtain ⟨answer, hans⟩ := hall k
    rcases (Sys.Inv.result h hans).answered hk with hsett | hs | hs | hs | hs
    · exact h.terminal_of_settled hall hsett
    · simp [hblock] at hs
    · simp [hcoll] at hs
    · simp [haud] at hs
    · simp [hshift] at hs

theorem TaskInv.terminal (h : TaskInv sys) (hgone : Unreferenced sys)
    (hhand : sys.store.handle) (haud : sys.store.history.audited = false) :
    sys.store.state.isTerminal := by
  obtain ⟨hall, hit, hdel⟩ := hgone
  have hcust := h.1.custody
  cases hthread : sys.store.history.holder.thread with
  | some k =>
    obtain ⟨answer, hans⟩ := hall k
    rcases (Sys.Inv.result h hans).duty hthread with ⟨hnot, -⟩ | hduty
    · simp [hhand] at hnot
    · exact h.terminal_of_duty hall haud hduty
  | none =>
    cases hhold : sys.store.history.holder with
    | fresh =>
      obtain ⟨k, hk⟩ := isSome_iff_exists.1 (hcust.fresh hhold hdel)
      exact absurd hhold ((h.quiet hall k).taker hk)
    | queued =>
      obtain ⟨place, hplace⟩ := hcust.queued hhold
      have hitem := hplace.1
      rw [hit] at hitem
      cases hitem
    | producer k | placed k | handler k | closer k => simp [hhold, Holder.thread] at hthread

theorem TaskInv.balanced (h : TaskInv sys) (hall : AllReturned sys)
    (hterm : sys.store.state.isTerminal) (account : Account) :
    sys.store.drop.released account = sys.store.drop.acquired account := by
  have hbal := h.1.balanced account
  have hnone : sys.store.logicalOwner = none :=
    (h.1.ending.collected (h.1.ending.terminal (settled_of_terminal h.1 hterm))).2
  rw [h.owed_nil hall] at hbal
  have hacq : sys.store.drop.acquired account = sys.store.acquired account := by
    cases hqueued : sys.store.queuedPermit <;> cases hglob : sys.store.globalPermit <;>
      simp [EntryStore.drop, EntryStore.acquired, hqueued, hglob]
  have hrel : sys.store.drop.released account =
      sys.store.released account + sys.store.stored account := by
    cases account <;> cases hqueued : sys.store.queuedPermit <;>
      cases hglob : sys.store.globalPermit <;>
      simp [EntryStore.drop, EntryStore.released, EntryStore.stored, hqueued, hglob, hnone]
  rw [hacq, hrel, hbal]
  simp

/-- What holds of the payload, the status and the accounts of a task. -/
structure SettledOnce (sys : TaskSys) : Prop where
  taken : sys.store.history.notes.count .taken ≤ 1
  published : sys.store.history.notes.countP (·.isPublished) ≤ 1
  final : sys.store.state.isTerminal → ∀ more, (runFrom taskExec sys more).store.state =
    sys.store.state
  ran : ∀ state, .ran state ∈ sys.store.history.notes → state = .running
  order : sys.store.history.notes.Pairwise fun before after =>
    before.isPublished → after.isRan = false
  released : ∀ account, sys.store.released account ≤ sys.store.acquired account
  balanced : Unreferenced sys → sys.store.state.isTerminal → ∀ account,
    sys.store.drop.released account = sys.store.drop.acquired account
  /-- The status of a task that was submitted is published, if no audit has intervened. -/
  settled : Unreferenced sys → sys.store.handle → sys.store.history.audited = false →
    sys.store.state.isTerminal ∧ .published sys.store.state ∈ sys.store.history.notes

theorem task_settled_once (home : ℕ) (start : TaskStart) (calls : List TaskCall)
    (inputs : List (Input Empty)) :
    SettledOnce (runFrom taskExec (taskSystem home start calls) inputs) := by
  have h := inv_taskSystem home start calls inputs
  have hpayl := h.1.payload
  refine ⟨hpayl.takenOnce, hpayl.publishedOnce, fun hterm more => ?_,
    fun state hs => (hpayl.ran state hs).1, hpayl.order, fun account => ?_,
    fun hgone hterm => h.balanced hgone.1 hterm, fun hgone hhand haud => ?_⟩
  · exact (h.grows more).final hterm
  · have hbal := h.1.balanced account
    omega
  · have hterm := h.terminal hgone hhand haud
    exact ⟨hterm, hpayl.noted hterm⟩

/-- The schedule in which these threads take so many steps, one after the other. -/
def turns (schedule : List (ℕ × ℕ)) : List (Input Empty) :=
  (schedule.flatMap fun turn => List.replicate turn.2 turn.1).map .run

/-- Who takes no step is where it was, and the calls that do not exist have returned. -/
theorem allReturned_turns {home : ℕ} {start : TaskStart} {calls : List TaskCall}
    {schedule : List (ℕ × ℕ)} (hturns : ∀ turn ∈ schedule, turn.1 ≤ calls.length)
    (h : ∀ k ≤ calls.length, (((runFrom taskExec (taskSystem home start calls)
      (turns schedule)).procs k).answer).isSome) :
    AllReturned (runFrom taskExec (taskSystem home start calls) (turns schedule)) := by
  intro k
  by_cases hk : k ≤ calls.length
  · obtain ⟨answer, hans⟩ := isSome_iff_exists.1 (h k hk)
    exact ⟨answer, eq_done_of_answer hans⟩
  · refine ⟨none, (Sys.procs_runs fun hmem => ?_).trans ?_⟩
    · obtain ⟨turn, hturn, hmem⟩ := mem_flatMap.1 hmem
      have heq := eq_of_mem_replicate hmem
      exact hk (heq ▸ hturns turn hturn)
    · obtain ⟨k, rfl⟩ := Nat.exists_eq_succ_of_ne_zero (n := k) (by omega)
      have hnone : calls[k]? = none := getElem?_eq_none (by omega)
      simp only [taskSystem, Sys.launch, hnone]
      rfl

/-- A task is submitted to the main queue of slot 0 and its consumer runs it. -/
def ranToEnd : TaskSys :=
  runFrom taskExec (taskSystem 0 (.immediate ⟨some ⟨0, 0, .main⟩, true⟩)
    [.consume ⟨true, "consume", .run .completed, .fail "staging"⟩]) (turns [(0, 20), (1, 60)])

theorem settled_ranToEnd : ranToEnd.store.state = .completed ∧
    .published .completed ∈ ranToEnd.store.history.notes ∧
    (∀ account, ranToEnd.store.drop.released account = ranToEnd.store.drop.acquired account) ∧
    ∀ more, (runFrom taskExec ranToEnd more).store.state = .completed := by
  have h : SettledOnce ranToEnd := task_settled_once _ _ _ _
  have hst : ranToEnd.store.state = .completed := by decide +kernel
  have hgone : Unreferenced ranToEnd :=
    ⟨allReturned_turns (by decide) (by decide +kernel), by decide +kernel, by decide +kernel⟩
  have hsett := h.settled hgone (by decide +kernel) (by decide +kernel)
  rw [hst] at hsett
  refine ⟨hst, hsett.2, h.balanced hgone (by rw [hst]; rfl), fun more => ?_⟩
  rw [h.final (by rw [hst]; rfl) more, hst]

theorem runFrom_allReturned (hall : AllReturned sys) (inputs : List (Input Empty)) :
    runFrom taskExec sys inputs = sys := by
  induction inputs with
  | nil => rfl
  | cons input inputs ih =>
    have hstep : taskExec sys input = sys := by
      cases input with
      | run k | stop k =>
        obtain ⟨answer, hans⟩ := hall k
        simp only [taskExec, Sys.exec, hans]
      | env e => exact e.elim
    show runFrom taskExec (taskExec sys input) inputs = sys
    rw [hstep, ih]

/-- The supervisor gives up a move to slot 1 whose task is said to be in the new container. The task
is in no container then and cannot be finalized as if it were in one; a caller that cancels it is
too late. -/
def gaveUpMove : TaskSys :=
  runFrom taskExec (taskSystem 0 (.immediate ⟨some ⟨0, 0, .main⟩, true⟩)
    [.consume ⟨true, "consume", .move .strictStock 1 true, .fail "staging"⟩, .audit true,
      .cancel 3 true]) (turns [(0, 20), (1, 21), (2, 30), (1, 60), (3, 30)])

/-- All calls have returned, nobody will ever find the task, and it has no status and has given back
nothing but what is dropped. -/
theorem gaveUpMove_unsettled : Unreferenced gaveUpMove ∧ gaveUpMove.store.handle ∧
    ∀ more, (runFrom taskExec gaveUpMove more).store.state = .terminating ∧
      (runFrom taskExec gaveUpMove more).store.history.notes = [] ∧
      (runFrom taskExec gaveUpMove more).store.acquired .logical = 1 ∧
      (runFrom taskExec gaveUpMove more).store.drop.released .logical = 0 := by
  have hall : AllReturned gaveUpMove := allReturned_turns (by decide) (by decide +kernel)
  refine ⟨⟨hall, by decide +kernel, by decide +kernel⟩, by decide +kernel, fun more => ?_⟩
  rw [runFrom_allReturned hall]
  refine ⟨?_, ?_, ?_, ?_⟩ <;> decide +kernel

/-! ## Cancellations -/

/-- A request to cancel is kept: the task has ended without having been started, or the mover has
yet to look and will find the request, or has found it. -/
def Heeded (s : EntryStore) : Prop :=
  s.Unstarted ∧ (s.ended ∨ s.state = .moving ∧ s.cancelRequested ∨
    s.history.handover = .unseen ∧ s.cancelRequested ∨ s.history.handover = .seen)

/-- If no request came after the end of the move it was meant for, a task that was cancelled is
never started, and requests are not dropped. -/
theorem cancelled_not_started (home : ℕ) (start : TaskStart) (calls : List TaskCall)
    (inputs : List (Input Empty)) :
    let sys := runFrom taskExec (taskSystem home start calls) inputs
    sys.store.history.late = false →
      (∀ i, sys.procs i = .done (some true) →
        .taken ∉ sys.store.history.notes ∧ sys.store.state ≠ .running ∧
          ∀ state, .ran state ∉ sys.store.history.notes) ∧
      (sys.store.cancelRequested ∨ sys.store.history.promises ≠ [] → Heeded sys.store) := by
  intro sys hlate
  have h := inv_taskSystem home start calls inputs
  have hheed : sys.store.history.promises ≠ [] → Heeded sys.store := fun hprom =>
    (h.1.requested.promised hprom).resolve_left (by simp [sys, hlate])
  refine ⟨fun i hdone => ?_, fun hs => hheed (hs.elim h.1.requested.flag id)⟩
  have hmem := (Sys.Inv.result h hdone).yes rfl
  obtain ⟨hst, hnot⟩ := (hheed (ne_nil_of_mem hmem)).1
  exact ⟨hnot, hst, fun state hran => hnot (h.1.payload.ran state hran).2⟩

/-- A consumer that moves the task to slot 1, a call of `cancel`, and the consumer of slot 1. -/
def moveAndCancel (schedule : List (ℕ × ℕ)) : TaskSys :=
  runFrom taskExec (taskSystem 0 (.immediate ⟨some ⟨0, 0, .main⟩, true⟩)
    [.consume ⟨true, "consume", .move .strictStock 1 true, .fail "staging"⟩, .cancel 3 true,
      .consume ⟨true, "consume", .run .completed, .fail "staging"⟩]) (turns schedule)

/-- The request comes while the task is moving, and the mover finds it. -/
theorem requested_not_started :
    let sys := moveAndCancel [(0, 20), (1, 16), (2, 10), (1, 60), (3, 60)]
    sys.procs 2 = .done (some true) ∧ .taken ∉ sys.store.history.notes ∧
      sys.store.state = .cancelled ∧ Heeded sys.store := by
  unfold moveAndCancel
  have h := cancelled_not_started 0 (.immediate ⟨some ⟨0, 0, .main⟩, true⟩)
    [.consume ⟨true, "consume", .move .strictStock 1 true, .fail "staging"⟩, .cancel 3 true,
      .consume ⟨true, "consume", .run .completed, .fail "staging"⟩]
    (turns [(0, 20), (1, 16), (2, 10), (1, 60), (3, 60)]) (by decide +kernel)
  have hnot := (h.1 2 (eq_done_of_answer (by decide +kernel))).1
  have hheed := h.2 (.inr (by decide +kernel))
  exact ⟨eq_done_of_answer (by decide +kernel), hnot, by decide +kernel, hheed⟩

/-- The caller sees that the task is moving; the move ends and nobody has asked; the task is run;
the caller sets the flag and is told that the task is cancelled. -/
theorem started_despite_cancel :
    let sys := moveAndCancel [(0, 20), (1, 14), (2, 2), (1, 50), (3, 80), (2, 1)]
    sys.procs 2 = .done (some true) ∧ .ran .running ∈ sys.store.history.notes ∧
      sys.store.state = .completed ∧ sys.store.cancelRequested ∧
      sys.store.history.handover = .idle :=
  ⟨eq_done_of_answer (by decide +kernel), by decide +kernel, by decide +kernel,
    by decide +kernel, by decide +kernel⟩

/-- **Nobody is blamed.** -/
theorem cancel_blames_nobody (home : ℕ) (start : TaskStart) (calls : List TaskCall)
    (inputs : List (Input Empty)) :
    let sys := runFrom taskExec (taskSystem home start calls) inputs
    ¬ sys.store.Blamed → sys.store.typeFailed = false ∧ sys.store.recorded = 0 ∧
      sys.store.stopped = false ∧ ∀ i, sys.procs i = .done (some false) → ¬ sys.store.Dismissed →
        i ∉ sys.store.history.promises ∧ (¬ sys.store.Unstarted ∨
          sys.store.EndsIn .completed ∨ sys.store.EndsIn .cancelled ∨
          sys.store.history.promises ≠ []) := by
  intro sys hblam
  have h := inv_taskSystem home start calls inputs
  refine ⟨?_, ?_, ?_, fun i hdone hdism =>
    (((Sys.Inv.result h hdone).no rfl).resolve_left hblam).kind h.1 hdism⟩
  · by_contra hfail
    exact hblam (h.1.blame (.inl (by simpa using hfail)))
  · by_contra hrec
    exact hblam (h.1.blame (.inr (.inl hrec)))
  · by_contra hstop
    exact hblam (h.1.blame (.inr (.inr (by simpa using hstop))))

/-- The task was run when the caller asked. -/
theorem tooLate_not_blamed :
    let sys := moveAndCancel [(0, 20), (1, 60), (3, 60), (2, 10)]
    sys.procs 2 = .done (some false) ∧ sys.store.state = .completed ∧
      sys.store.typeFailed = false ∧ 2 ∉ sys.store.history.promises := by
  unfold moveAndCancel
  have h := cancel_blames_nobody 0 (.immediate ⟨some ⟨0, 0, .main⟩, true⟩)
    [.consume ⟨true, "consume", .move .strictStock 1 true, .fail "staging"⟩, .cancel 3 true,
      .consume ⟨true, "consume", .run .completed, .fail "staging"⟩]
    (turns [(0, 20), (1, 60), (3, 60), (2, 10)]) (by unfold EntryStore.Blamed; decide +kernel)
  have hlate := h.2.2.2 2 (eq_done_of_answer (by decide +kernel)) fun hdism =>
    hdism.1.2 (by decide +kernel)
  exact ⟨eq_done_of_answer (by decide +kernel), by decide +kernel, h.1, hlate.1⟩

/-- The move is prepared and not begun when the caller ends the task: the descriptor keeps it from
being finalized. The task type fails, and the caller is told that the task was not cancelled. It was
not started and has not ended by anything but this call. -/
theorem cancel_fails_type :
    let sys := moveAndCancel [(0, 20), (1, 12), (2, 60)]
    sys.store.typeFailed ∧ sys.procs 2 = .done (some false) ∧
      sys.store.history.promises = [2] ∧ sys.store.history.notes = [] ∧
      (runFrom taskExec sys (turns [(1, 60)])).store.state = .cancelled ∧
      (runFrom taskExec sys (turns [(1, 60)])).store.typeFailed :=
  ⟨by decide +kernel, eq_done_of_answer (by decide +kernel), by decide +kernel,
    by decide +kernel, by decide +kernel, by decide +kernel⟩

end TaskEntry

end NasaRuntime.Napart
