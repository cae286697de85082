import NasaRuntime.Napart.Properties.Finalizing

/-!
# How a task is published

A submission publishes the task, or the timer does when a delayed task expires. Until the task is
queued somebody may cancel it, and then the publisher rolls back what it has prepared: what it has
counted is given back, and who has the task in hand settles it.
-/

namespace NasaRuntime.Napart

open Holder EntryStore EntryState PhysicalRetention

namespace TaskEntry

open Prog

variable {i home : ℕ} {mine held first : Prop} {s : EntryStore}
  {E : TaskAuthorityError → EntryStore → Prop}

/-! ## What a publisher knows -/

/-- Thread `i` is about to publish the task. With `first` nobody has the handle. -/
structure Producing (first : Prop) (i : ℕ) (s : EntryStore) : Prop where
  holder : s.history.holder = .producer i
  crossed : s.ended → s.history.crossed ∨ s.history.audited
  retention : s.physicalRetention = .detached
  handle : first → s.handle = false

theorem thread_producer (h : s.history.holder = .producer i) :
    s.history.holder.thread = some i := by
  simp [h, thread]

/-- A task that is about to be published is in the state for it, or has ended. -/
theorem state_producer (hI : EntryInv s) (h : s.history.holder = .producer i) :
    s.state = .enqueueing ∨ s.ended := by
  rcases hI.custody.admits with hs | ⟨hs, -⟩
  · left
    rw [h] at hs
    cases hst : s.state <;> simp_all [admits]
  · exact .inr hs

variable {s' : EntryStore} {P : EntryStore → Prop} {owed : List Account}

/-- A publisher sees the task end only if a cancellation has crossed its way. -/
theorem crossed_kept (hI : EntryInv s) (hR : EntryRely i s s')
    (hhold : s.history.holder = .producer i)
    (hs : s.ended → s.history.crossed ∨ s.history.audited) (hend : s'.ended) :
    s'.history.crossed ∨ s'.history.audited := by
  have hold : s.ended → s'.history.crossed ∨ s'.history.audited := fun h =>
    (hs h).imp hR.grows.crossed hR.grows.audited
  rcases (hR.held (thread_producer hhold)).state with heq | h | ⟨-, -, -, -, hcross⟩
  · exact hold (by simpa only [EntryStore.ended, heq] using hend)
  · exact hold h
  · rcases state_producer hI hhold with hst | h
    · exact hcross hst
    · exact hold h

theorem kept_producing : Kept i (Producing first i) := by
  intro s s' hI _ hR hs
  have hheld := hR.held (thread_producer hs.holder)
  refine ⟨hheld.holder.trans hs.holder, crossed_kept hI hR hs.holder hs.crossed, ?_,
    fun h => (hheld.handle hs.holder).trans (hs.handle h)⟩
  rcases hheld.retention with heq | hgone
  · exact heq.trans hs.retention
  · exact hgone.1

theorem Producing.free (hI : EntryInv s) (h : Producing first i s) : Free i s :=
  ⟨thread_producer h.holder, by simp [h.retention, settles],
    (hI.custody.unplaced (by simp [h.holder, isPlaced])).2⟩

theorem Producing.unplaced (h : Producing first i s) : Unplaced i s :=
  ⟨thread_producer h.holder, by simp [h.holder, isPlaced]⟩

/-- The owner is set, and the task is said to be in the container. -/
structure Shelved (first : Prop) (i : ℕ) (owner : Owner) (s : EntryStore) : Prop where
  holder : s.history.holder = .producer i
  crossed : s.ended → s.history.crossed ∨ s.history.audited
  handle : first → s.handle = false
  owner : s.owner = owner ∨ s.ended
  retention : s.physicalRetention = .container ∨ s.ended

/-- The owner of a task in hand changes only if it is closed. -/
theorem owner_kept (hI' : EntryInv s') (hR : EntryRely i s s')
    (hhand : s.history.holder.thread = some i) {owner : Owner} (hs : s.owner = owner ∨ s.ended) :
    s'.owner = owner ∨ s'.ended := by
  rcases hs with hown | hend
  · rcases (hR.held hhand).owner with heq | ⟨-, hfin⟩
    · exact .inl (heq.trans hown)
    · exact .inr (hI'.ending.settling (hI'.ending.finishers hfin))
  · exact .inr (hR.grows.ended hend)

/-- Where a task in hand is kept changes only if somebody finalizes it. -/
theorem retention_kept (hI' : EntryInv s') (hR : EntryRely i s s')
    (hhand : s.history.holder.thread = some i) {retention : PhysicalRetention}
    (hs : s.physicalRetention = retention ∨ s.ended) :
    s'.physicalRetention = retention ∨ s'.ended := by
  rcases hs with hret | hend
  · rcases (hR.held hhand).retention with heq | ⟨-, hsett⟩
    · exact .inl (heq.trans hret)
    · exact .inr (hI'.ending.settling hsett)
  · exact .inr (hR.grows.ended hend)

theorem kept_shelved (owner : Owner) : Kept i (Shelved first i owner) := by
  intro s s' hI hI' hR hs
  have hhand := thread_producer hs.holder
  have hheld := hR.held hhand
  exact ⟨hheld.holder.trans hs.holder, crossed_kept hI hR hs.holder hs.crossed,
    fun h => (hheld.handle hs.holder).trans (hs.handle h), owner_kept hI' hR hhand hs.owner,
    retention_kept hI' hR hhand hs.retention⟩

/-- The task is queued, and thread `i` has yet to put it into the container. -/
structure Placed (i : ℕ) (place : LogicalOwner) (s : EntryStore) : Prop where
  holder : s.history.holder = .placed i
  logical : s.logicalOwner = some place
  retention : s.physicalRetention = .container
  settling : s.history.settling = false
  owner : s.owner = place.owner
  move : s.moveDescriptor = none
  state : s.state = .queued ∨ s.ended

theorem kept_placed (place : LogicalOwner) : Kept i (Placed i place) := by
  intro s s' _ hI' hR hs
  have hhand : s.history.holder.thread = some i := by simp [hs.holder, thread]
  have hheld := hR.held hhand
  obtain ⟨hbox, hsett⟩ := hheld.kept hs.retention hs.settling
  refine ⟨hheld.holder.trans hs.holder, ?_, hbox, hsett, ?_, ?_, state_kept hR hhand hs.state⟩
  · rcases hheld.logical with heq | hcoll
    · exact heq.trans hs.logical
    · simp [(hI'.ending.collected hcoll).1] at hsett
  · rcases hheld.owner with heq | ⟨-, hfin⟩
    · exact heq.trans hs.owner
    · simp [hI'.ending.finishers hfin] at hsett
  · rcases hheld.move with heq | ⟨hnone, -⟩
    · exact heq.trans hs.move
    · exact hnone

/-! ## Accounts -/

theorem does_acquire (account : Account)
    (hP : Kept i P) (hsame : ∀ s, P s → P (s.acquire i account)) :
    Does i (fun s => Quiet mine held i owed s ∧ P s) (acquire i account)
      (fun _ s => Quiet mine held i (account :: owed) s ∧ P s) E := by
  refine meets_modify ((kept_quiet owed).and hP) fun s hI hs =>
    ⟨owed_acquire hI account, { hs.1 with owed := ?_ }, hsame s hs.2⟩
  rw [owedBy_acquire, hs.1.owed]

theorem does_giveBack (account : Account) (owed : List Account)
    (hP : Kept i P) (hsame : ∀ s, P s → P (s.release i account)) :
    Does i (fun s => Quiet mine held i (account :: owed) s ∧ P s) (release i account)
      (fun _ s => Quiet mine held i owed s ∧ P s) E := by
  refine meets_modify ((kept_quiet _).and hP) fun s hI hs =>
    ⟨owed_release hI (by simp [hs.1.owed]), { hs.1 with owed := ?_ }, hsame s hs.2⟩
  rw [owedBy_release, hs.1.owed, List.erase_cons_head]

/-! ## Queueing for the first time -/

theorem owner_open (place : LogicalOwner) : place.owner.isTerminal = false := by
  unfold LogicalOwner.owner
  split_ifs <;> rfl

theorem does_enqueueOrRollBack (home : ℕ) (place : LogicalOwner) :
    Does i (fun s => Quiet mine True i [place.account, .logical] s ∧
        Shelved first i place.owner s) (enqueueOrRollBack i (.slot home) place)
      (fun _ s => Clear mine i s ∧ Placed i place s)
      fun _ s => Quiet mine True i [place.account, .logical] s ∧ Producing first i s := by
  refine meets_try (M := fun _ s => Clear mine i s ∧ Placed i place s) (N := fun _ s =>
      (Quiet mine True i [place.account, .logical] s ∧ Shelved first i place.owner s) ∧
        s.ended) ?_ (fun _ => meets_pure fun s _ h => h) fun _ => ?_
  · refine does_swapIf ((kept_quiet _).and (kept_shelved _))
      (fun s hI hs hst => ?_) fun s hI hs hst => ⟨hs, ?_⟩
    · have hst : s.state = .enqueueing := by simpa using hst
      have hlive := live_of_state hst rfl
      have hl := hI.live hlive
      refine ⟨owed_enqueue hI hs.2.holder hst hs.1.owed, ⟨?_, ?_, ?_, ?_, ?_, ?_⟩, ?_⟩
      · have her : (s.enqueue i place).owedBy i =
            ((s.owedBy i).erase place.account).erase .logical := by
          simp only [owedBy, enqueue, owedBy_erase]
        simp [her, hs.1.owed]
      · exact fun h => hs.1.finisher h
      · intro h
        rw [show (s.enqueue i place).history.settler = s.history.settler from rfl, hl.settler] at h
        cases h
      · exact fun _ h => by cases h
      · exact hs.1.canceller
      · exact fun _ => trivial
      · exact ⟨rfl, rfl, hs.2.retention.resolve_right (by simp [hlive]), hl.settling,
          hs.2.owner.resolve_right (by simp [hlive]),
          (hI.custody.unplaced (by simp [hs.2.holder, isPlaced])).2, .inl rfl⟩
    · exact (state_producer hI hs.2.holder).resolve_left (by simpa using hst)
  · refine meets_bind (M := fun _ s => (Quiet mine True i [place.account, .logical] s ∧
      Producing first i s) ∧ s.ended) ?_ fun _ => ?_
    · refine meets_modify (((kept_quiet _).and (kept_shelved _)).and
        kept_ended) fun s hI hs => ⟨?_, ⟨{ hs.1.1 with }, ?_⟩, hs.2⟩
      · exact owed_retention hI (thread_producer hs.1.2.holder) (by simp [hs.1.2.holder]) (.inr rfl)
          (.inr (.inr hs.2))
      · exact ⟨hs.1.2.holder, hs.1.2.crossed, rfl, hs.1.2.handle⟩
    refine meets_bind (M := fun _ s => Quiet mine True i [place.account, .logical] s ∧
      Producing first i s) ?_ fun _ => meets_fail fun s _ h => h
    refine meets_modify (((kept_quiet _).and kept_producing).and
      kept_ended) fun s hI hs => ⟨?_, { hs.1.1 with }, { hs.1.2 with }⟩
    exact owed_setOwner hI hs.1.2.holder hs.1.2.crossed rfl

theorem does_prepareInitialQueue (home : ℕ) (place : LogicalOwner) :
    Does i (fun s => Quiet mine True i [place.account, .logical] s ∧ Producing first i s)
      (prepareInitialQueue i (.slot home) place)
      (fun _ s => Clear mine i s ∧ Placed i place s)
      fun _ s => Quiet mine True i [place.account, .logical] s ∧ Producing first i s := by
  refine does_check ((kept_quiet _).and kept_producing) (fun s _ h _ => h) fun _ _ => ?_
  refine does_check ((kept_quiet _).and kept_producing) (fun s _ h _ => h) fun _ _ => ?_
  refine meets_bind (M := fun _ s => Quiet mine True i [place.account, .logical] s ∧
    Producing first i s ∧ (s.owner = place.owner ∨ s.ended)) ?_ fun _ => ?_
  · refine does_swapIf ((kept_quiet _).and kept_producing)
      (fun s hI hs _ => ⟨?_, { hs.1 with }, { hs.2 with }, ?_⟩)
      fun s _ h _ => h
    · exact owed_setOwner hI hs.2.holder hs.2.crossed (owner_open place)
    · exact .inl rfl
  have hkept' : Kept i fun s => Quiet mine True i [place.account, .logical] s ∧
      Producing first i s ∧ (s.owner = place.owner ∨ s.ended) := by
    intro s s' hI hI' hR hs
    exact ⟨kept_quiet _ s s' hI hI' hR hs.1, kept_producing s s' hI hI' hR hs.2.1,
      owner_kept hI' hR (thread_producer hs.2.1.holder) hs.2.2⟩
  refine meets_try (N := fun _ _ => False) (does_swapIf hkept' (fun s hI hs _ =>
    ⟨?_, { hs.1 with }, ?_⟩) fun s _ hs hno => ?_) (fun _ => does_enqueueOrRollBack home place)
    fun _ s _ h => h.elim
  · exact owed_retention hI (thread_producer hs.2.1.holder) (by simp [hs.2.1.holder]) (.inl rfl)
      (.inl rfl)
  · simp [hs.2.1.retention] at hno
  · exact ⟨hs.2.1.holder, hs.2.1.crossed, hs.2.1.handle, hs.2.2, .inl rfl⟩

/-- A container has refused the task, and who has it in hand settles it. -/
theorem does_refuse (place : LogicalOwner) :
    Does i (fun s => Clear mine i s ∧ Placed i place s) (refuse i)
      (fun _ s => Clear mine i s ∧ s.Settled ∧ s.Blamed ∧ s.ended) E := by
  refine meets_bind (M := fun _ s => (Clear mine i s ∧ Placed i place s) ∧
    s.history.refused) ?_ fun _ => ?_
  · exact meets_modify ((kept_quiet _).and (kept_placed place)) fun s hI hs =>
      ⟨owed_refused hI, ⟨{ hs.1 with }, { hs.2 with }⟩, rfl⟩
  refine meets_bind (M := fun _ s => (Clear mine i s ∧ Waiting i .queued s) ∧
    s.history.refused) ?_ fun _ => ?_
  · refine meets_attempt (does_swapIf (((kept_quiet _).and (kept_placed place)).and
      kept_refused) (fun s hI hs _ => ?_) fun s _ hs hno => ?_)
    · have hhand : s.history.holder.thread = some i := by simp [hs.1.2.holder, thread]
      have hidle : s.history.handover = .idle ∨ s.ended := by
        rcases live_or_ended s with hlive | hend
        · exact .inl (handover_idle hI hlive (.inr (.inr fun k => by simp [hs.1.2.holder])))
        · exact .inr hend
      exact ⟨owed_retention hI hhand (by simp [hs.1.2.holder]) (.inr rfl) (.inr hidle),
        ⟨{ hs.1.1 with }, ⟨hhand, rfl, hs.1.2.move⟩, hs.1.2.state⟩, hs.2⟩
    · simp [hs.1.2.retention] at hno
  refine meets_bind (M := fun _ s => ((Clear mine i s ∧ Free i s ∧ s.ended) ∧
    s.history.refused) ∧ s.ended) ?_ fun _ => ?_
  · refine meets_attempt (does_failFrom _ (((kept_quiet _).and (kept_waiting .queued)).and
      kept_refused) (.inl rfl) (by simp) (by simp [isTerminal])
      (fun s _ h _ => .inl h.1.2.1.hand) (fun s hI h hst => ?_) fun _ s _ h hst => ?_)
    · have hlive := live_of_state hst rfl
      exact ⟨⟨⟨h.1.1.terminate _ hlive hI fun _ => trivial, h.1.2.1.terminate _, rfl⟩, h.2⟩, rfl⟩
    · have hend := h.1.2.2.resolve_left hst
      exact ⟨⟨⟨h.1.1, h.1.2.1, hend⟩, h.2⟩, hend⟩
  · refine meets_mono (does_frame (does_frame does_finalizeTerminal_free (fun _ _ hg => hg.refused))
      fun _ _ hg => hg.ended) (fun s _ h => h) (fun _ s _ h => ?_) fun _ _ _ h => h.1.1
    exact ⟨h.1.1.1, h.1.1.2, .inr (.inr (.inr (.inl h.1.2))), h.2⟩

/-- What is left of a task that was not published. -/
def Unpublished (mine first : Prop) (i : ℕ) (s : EntryStore) : Prop :=
  Quiet mine True i [] s ∧ (Producing first i s ∨ s.Settled ∧ s.Blamed ∧ s.ended)

theorem does_publishInitial (home : ℕ) (place : LogicalOwner) (accepted : Bool) :
    Does i (fun s => Clear mine i s ∧ Producing first i s)
      (publishInitial i home place accepted)
      (fun published s => match published with
        | true => Quiet mine False i [] s ∧ s.history.holder.isLaunched
        | false => Unpublished mine first i s) E := by
  refine meets_bind (does_acquire .logical kept_producing fun s h => { h with }) fun _ => ?_
  refine meets_bind (does_acquire place.account kept_producing fun s h => { h with }) fun _ => ?_
  refine meets_try (does_prepareInitialQueue home place) (fun _ => ?_) fun _ => ?_
  swap
  · refine meets_bind (does_giveBack place.account [.logical] kept_producing fun s h => { h with })
      fun _ => ?_
    refine meets_bind (does_giveBack .logical [] kept_producing fun s h => { h with }) fun _ => ?_
    exact meets_pure fun s _ h => ⟨h.1, .inl h.2⟩
  · simp only
    split_ifs with hacc
    · refine meets_bind (M := fun _ s => Quiet mine False i [] s ∧
        s.history.holder.isLaunched) ?_ fun _ => meets_pure fun s _ h => h
      refine meets_modify ((kept_quiet _).and (kept_placed place)) fun s hI hs => ⟨?_, ?_, rfl⟩
      · refine owed_push hI (by simp [hs.2.holder, thread])
          (by simp [hs.2.holder, isPlaced]) hs.2.logical hs.2.retention hs.2.settling
          hs.2.owner (fun d hd => by simp [hs.2.move] at hd) hs.2.state ?_
        rcases live_or_ended s with hlive | hend
        · exact .inl (handover_idle hI hlive (.inr (.inr fun k => by simp [hs.2.holder])))
        · exact .inr hend
      · exact ⟨hs.1.owed, hs.1.finisher, hs.1.settler, fun _ h => (by cases h), hs.1.canceller,
          fun h => by cases h⟩
    · refine meets_bind (does_refuse place) fun _ => meets_pure fun s _ h => ?_
      exact ⟨h.1, .inr h.2⟩

/-! ## Submissions -/

/-- What a thread leaves behind. An entry that was never given out needs nobody. -/
def Finish (mine : Prop) (i : ℕ) (s : EntryStore) : Prop :=
  Quiet mine True i [] s ∧ (s.history.holder.thread = some i →
    s.handle = false ∧ s.history.holder = .producer i ∨ Duty s)

theorem Over.finish (h : Over mine i s) : Finish mine i s := ⟨h.1, fun hs => .inr (h.2 hs)⟩

theorem Quiet.weaken (h : Quiet mine held i owed s) :
    Quiet mine True i owed s := { h with hand := fun _ => trivial }

theorem Quiet.over (h : Quiet mine False i [] s) : Over mine i s :=
  ⟨h.weaken, fun hs => (h.hand hs).elim⟩

theorem does_submit (home : ℕ) (answer : Submitted) :
    Does i (fun s => Clear mine i s ∧ Producing True i s) (submit i home answer)
      (fun _ => Finish mine i) E := by
  unfold submit
  cases answer.placement with
  | none => exact meets_pure fun s _ h => ⟨h.1, fun _ => .inl ⟨h.2.handle trivial, h.2.holder⟩⟩
  | some place =>
    refine meets_bind (does_publishInitial home place answer.accepted) fun published => ?_
    cases published with
    | true =>
      refine meets_modify ((kept_quiet []).and (kept_of_grows fun _ _ hg => hg.launched))
        fun s hI hs => ⟨owed_handle hI hs.2, ?_⟩
      have hquiet : Quiet mine False i [] { s with handle := true } := { hs.1 with }
      exact hquiet.over.finish
    | false =>
      refine meets_pure fun s _ h => ⟨h.1, fun _ => ?_⟩
      rcases h.2 with hprod | hsett
      · exact .inl ⟨hprod.handle trivial, hprod.holder⟩
      · exact .inr (.inl hsett.1)

/-! ## Delayed tasks -/

theorem does_settleUnplaced :
    Does i (fun s => Clear mine i s ∧ Free i s ∧ s.ended ∧ Unplaced i s)
      ((finalizeTermination i false false).attempt >>= fun _ => pure ()) (fun _ => Over mine i)
      E := by
  refine meets_bind (M := fun outcome s => Clear mine i s ∧ Outcome (fun _ s => s.Settled)
    (fun e s => FinalError True True false s e) outcome s) ?_ fun outcome => ?_
  · refine meets_attempt (meets_pre does_finalizeTermination fun s _ h => ?_)
    exact ⟨h.1, fun _ => h.2.1, fun _ => h.2.2.1, fun _ => h.2.2.2⟩
  refine meets_pure fun s hI h => ⟨h.1, fun _ => .inl ?_⟩
  cases outcome with
  | ok _ => exact h.2
  | error e =>
    by_cases hown : e = .settlementOwned
    · subst hown
      exact h.2
    · exact (blamed_of_error hI h.2 (.inl ⟨trivial, trivial⟩) hown).2 ⟨trivial, trivial⟩

theorem does_rejectUnbound (reason : String) :
    Does i (fun s => Clear mine i s ∧ Calm i s ∧ Producing first i s)
      (rejectUnbound i reason) (fun _ => Over mine i) E := by
  refine meets_try (N := fun _ s => Clear mine i s ∧ Calm i s ∧ s.ended) (does_failFrom reason
      ((kept_quiet _).and (kept_calm.and kept_producing)) (.inl rfl) (by simp)
      (by simp [isTerminal]) (fun s _ h _ => .inl h.2.1.hand)
      (fun s hI h hst => ?_) fun _ s hI h hst => ?_) (fun _ => does_settleUnplaced)
    fun _ => meets_pure fun s _ h => ⟨h.1, fun _ => h.2.1.duty h.2.2⟩
  · have hlive := live_of_state hst rfl
    refine ⟨h.1.terminate _ hlive hI fun _ => trivial, h.2.1.toFree.terminate _, rfl, ?_⟩
    simpa [Unplaced, terminate, h.2.2.holder] using h.2.2.unplaced
  · exact ⟨h.1, h.2.1, (state_producer hI h.2.2.holder).resolve_left hst⟩

/-- A delayed task that could not be published is settled by who has it in hand. -/
theorem does_settleRejected_waiting (reason : String) :
    Does i (fun s => Clear mine i s ∧ Waiting i .enqueueing s) (settleRejected i reason)
      (fun _ s => Clear mine i s ∧ s.Settled) E := by
  refine meets_bind (does_see ((kept_quiet []).and (kept_waiting _))) fun state => ?_
  split_ifs with henq hterm htermi
  · refine meets_bind (M := fun _ s => Clear mine i s ∧ Free i s ∧ s.ended) ?_ fun begun => ?_
    · refine meets_pre (meets_attempt (does_failFrom reason ((kept_quiet []).and (kept_waiting _))
        (.inl rfl) (by simp) (by simp [EntryState.isTerminal]) (fun s _ h _ => .inl h.2.1.hand)
        (fun s hI h hst => ?_) fun _ s _ h hst => ⟨h.1, h.2.1, h.2.2.resolve_left hst⟩))
        fun s _ h => h.1
      have hlive := live_of_state hst rfl
      exact ⟨h.1.terminate _ hlive hI fun _ => trivial, h.2.1.terminate _, rfl⟩
    · cases begun with
      | ok _ => exact does_finalizeTerminal_free
      | error e => exact does_recordAuthorityFailure_free reason
  · refine meets_pre does_finalizeTerminal_free fun s _ h => ⟨h.1.1, h.1.2.1, ?_⟩
    simp [EntryStore.ended, h.2, hterm]
  · exact meets_pure fun s hI h => ⟨h.1.1, .inl (settled_of_terminal hI (h.2 ▸ htermi))⟩
  · intro s _ h
    rcases h.1.2.2 with hs | hs
    · exact absurd (h.2.symm.trans hs) henq
    · exact absurd hs (not_ended h.2 hterm htermi)

theorem does_settleRejected_settled (reason : String) :
    Does i (fun s => Clear mine i s ∧ s.Settled ∧ s.Blamed ∧ s.ended)
      (settleRejected i reason) (fun _ s => Clear mine i s ∧ s.Settled) E := by
  refine meets_bind (does_see ((kept_quiet []).and ((kept_of_grows fun _ _ hg => hg.settled).and
    (kept_blamed.and kept_ended)))) fun state => ?_
  split_ifs with henq hterm htermi
  · intro s _ h
    have hend := h.1.2.2.2
    simp [EntryStore.ended, h.2, henq, EntryState.isTerminal] at hend
  · exact meets_mono (does_frame does_finalizeTerminal_blamed fun _ _ hg => hg.settled)
      (fun s _ h => ⟨⟨h.1.1, h.1.2.2.1⟩, h.1.2.1⟩) (fun _ _ _ h => ⟨h.1.1, h.2⟩) fun _ _ _ h => h.1
  · exact meets_pure fun s _ h => ⟨h.1.1, h.1.2.1⟩
  · intro s _ h
    exact absurd h.1.2.2.2 (not_ended h.2 hterm htermi)

theorem does_settleRejected (reason : String) :
    Does i (Unpublished mine first i) (settleRejected i reason)
      (fun _ s => Clear mine i s ∧ s.Settled) E := by
  intro s hI hs
  rcases hs.2 with h | h
  · exact does_settleRejected_waiting reason s hI ⟨hs.1, h.free hI, state_producer hI h.holder⟩
  · exact does_settleRejected_settled reason s hI ⟨hs.1, h⟩

theorem does_publishExpired (home : ℕ) (answer : Expired) :
    Does i (fun s => Clear mine i s ∧ Calm i s ∧ Producing first i s)
      (publishExpired i home answer) (fun _ => Over mine i) E := by
  refine meets_bind (M := fun _ s => Clear mine i s ∧ Calm i s ∧ Producing first i s) ?_
    fun bound => ?_
  · exact meets_atomic ((kept_quiet _).and (kept_calm.and kept_producing)) fun s hI hs =>
      ⟨owed_bound hI true, { hs.1 with }, { hs.2.1 with }, { hs.2.2 with }⟩
  split_ifs with hbound
  · exact does_rejectUnbound _
  have hrej : Does i (Unpublished mine first i)
      (settleRejected i "route_failed_at_delayed_publish") (fun _ => Over mine i) E :=
    meets_post (does_settleRejected _) (fun _ _ _ h => ⟨h.1, fun _ => .inl h.2⟩) fun _ _ _ h => h
  cases answer.placement with
  | none => exact meets_pre hrej fun s _ h => ⟨h.1, .inl h.2.2⟩
  | some place =>
    refine meets_bind (meets_pre (does_publishInitial home place answer.accepted) fun s _ h =>
      ⟨h.1, h.2.2⟩) fun published => ?_
    cases published with
    | true => exact meets_pure fun s _ h => h.1.over
    | false => exact hrej

/-- Thread `i` has taken the task out of the table. -/
structure Taking (mine : Prop) (i : ℕ) (s : EntryStore) : Prop where
  owed : s.owedBy i = []
  finisher : i ∈ s.history.finishers → s.terminal.isSome
  settler : s.history.settler = some i → s.state.isTerminal
  canceller : s.history.canceller = some i → mine
  hand : s.history.holder.thread = some i → False

theorem kept_taking : Kept i (Taking mine i) := by
  intro s s' _ _ hR hs
  refine ⟨hR.owed.trans hs.owed, fun h => ?_, fun h => ?_, fun h => ?_, fun h => ?_⟩
  · exact hR.grows.terminalSome (hs.finisher (hR.finisher h))
  · obtain ⟨hmine, hst, -⟩ := hR.settler h
    rw [hst]
    exact hs.settler hmine
  · exact hs.canceller (hR.canceller h)
  · exact hs.hand (hR.hand h)

theorem Taking.quiet (h : Taking mine i s) (hfresh : s.history.holder ≠ .fresh) :
    Quiet mine False i [] s :=
  ⟨h.owed, h.finisher, h.settler, fun _ => hfresh, h.canceller, h.hand⟩

theorem not_fresh_of_state (hI : EntryInv s) (h : s.state ≠ .delayed) :
    s.history.holder ≠ .fresh := by
  intro hfresh
  rcases hI.custody.admits with hs | ⟨-, hs⟩
  · rw [hfresh] at hs
    cases hst : s.state <;> simp_all [admits]
  · exact hs hfresh

theorem does_takeDelayed :
    Does i (Quiet mine False i []) (takeDelayed i)
      (fun taken s => match taken with
        | true => Taking mine i s
        | false => Quiet mine False i [] s) E := by
  refine meets_atomic (kept_quiet []) fun s hI hs => ⟨owed_takeDelayed hI, ?_⟩
  cases hdel : s.delayed with
  | true => exact ⟨hs.owed, hs.finisher, hs.settler, hs.canceller, hs.hand⟩
  | false => exact { hs with }

theorem does_expireDelayed (home : ℕ) (answer : Expired) :
    Does i (Quiet mine False i []) (expireDelayed i home answer) (fun _ => Over mine i) E := by
  refine meets_bind does_takeDelayed fun taken => ?_
  cases taken with
  | false => exact meets_pure fun s _ h => h.over
  | true =>
    refine meets_try (M := fun _ s => Clear mine i s ∧ Calm i s ∧ Producing False i s)
      (N := fun _ => Quiet mine False i []) ?_ (fun _ => ?_)
      fun _ => meets_pure fun s _ h => Quiet.over h
    · refine does_swapIf kept_taking (fun s hI hs hst => ?_) fun s hI hs hst => ?_
      · have hst : s.state = .delayed := by simpa using hst
        have hlive := live_of_state hst rfl
        have hl := hI.live hlive
        have hfresh := fresh_of_delayed hI hst
        have hdet := hI.custody.loose (.inl hfresh)
        have hunp := hI.custody.unplaced (by simp [hfresh, isPlaced])
        refine ⟨owed_claimDelayed hI hst, ⟨hs.owed, hs.finisher, fun h => ?_, fun _ h => ?_,
          hs.canceller, fun _ => trivial⟩, ⟨⟨rfl, ?_, hunp.2⟩, fun h => ?_, hl.blocked,
          hl.collided, hl.shifted⟩, ⟨rfl, fun h => ?_, hdet, fun h => h.elim⟩⟩
        · simp [hl.settler] at h
        · cases h
        · simp [hdet, settles]
        · cases h
        · cases h
      · exact hs.quiet (not_fresh_of_state hI (by simpa using hst))
    by_cases hadm : answer.admitted = false
    · simp only [hadm, if_true]
      exact does_rejectUnbound _
    simp only [hadm]
    have hkept : Kept i fun s => Calm i s ∧ Producing False i s := kept_calm.and kept_producing
    refine meets_bind (does_acquire .queued hkept fun s h => ⟨{ h.1 with }, { h.2 with }⟩)
      fun _ => ?_
    refine meets_bind (M := fun _ s => Clear mine i s ∧ Calm i s ∧ Producing False i s) ?_
      fun installed => ?_
    · refine meets_attempt ?_
      refine meets_bind (does_look ((kept_quiet _).and hkept)) fun state => ?_
      split_ifs
      · exact meets_bind (does_giveBack .queued [] hkept fun s h => ⟨{ h.1 with }, { h.2 with }⟩)
          fun _ => meets_fail fun s _ h => h
      refine meets_bind (M := fun installed s => if installed
        then Clear mine i s ∧ Calm i s ∧ Producing False i s
        else Quiet mine True i [.queued] s ∧ Calm i s ∧ Producing False i s) ?_
        fun installed => ?_
      · refine meets_atomic ((kept_quiet _).and hkept) fun s hI hs => ?_
        cases hperm : s.queuedPermit with
        | true =>
          simp only [if_true]
          exact ⟨Owed.refl hI, hs⟩
        | false =>
          simp only [Bool.false_eq_true, if_false, if_true]
          refine ⟨owed_installPermit hI hperm (by simp [hs.1.owed]), { hs.1 with owed := ?_ },
            { hs.2.1 with }, { hs.2.2 with }⟩
          have her := owedBy_erase (i := i) s.history.owed .queued
          have howed := hs.1.owed
          simp only [owedBy] at howed ⊢
          rw [her, howed]
          rfl
      split_ifs with hins
      · exact meets_pure fun s _ h => by simpa [hins] using h
      · refine meets_bind (meets_pre (does_giveBack .queued [] hkept fun s h =>
          ⟨{ h.1 with }, { h.2 with }⟩) fun s _ h => by simpa [hins] using h)
          fun _ => ?_
        exact meets_fail fun s _ h => h
    · cases installed with
      | error e => exact does_rejectUnbound _
      | ok _ =>
        simp only
        split_ifs with hnumb
        · exact does_rejectUnbound _
        · exact does_publishExpired home answer

theorem does_rejectDelayed :
    Does i (Quiet mine False i []) (rejectDelayed i) (fun _ => Over mine i) E := by
  refine meets_bind does_takeDelayed fun taken => ?_
  cases taken with
  | false => exact meets_pure fun s _ h => h.over
  | true =>
    refine meets_try (N := fun _ => Quiet mine False i []) ?_ (fun _ => does_settleUnplaced)
      fun _ => meets_pure fun s _ h => Quiet.over h
    · refine does_failFrom _ kept_taking (.inl rfl) (by simp) (by simp [isTerminal])
        (fun s hI _ hst => .inr (.inl (fresh_of_delayed hI hst)))
        (fun s hI hs hst => ?_) fun _ s hI hs hst => ?_
      · have hlive := live_of_state hst rfl
        have hfresh := fresh_of_delayed hI hst
        have hl := hI.live hlive
        have hhold : ∀ record : TerminalRecord,
            (s.terminate i record).history.holder = .closer i := by
          intro record
          simp [terminate, hfresh]
        refine ⟨⟨hs.owed, hs.finisher, fun h => ?_, fun _ => by simp [hhold], hs.canceller,
          fun _ => trivial⟩, ⟨by simp [hhold, thread], ?_, ?_⟩, rfl,
          by simp [hhold, thread], by simp [hhold, isPlaced]⟩
        · simp [terminate, hl.settler] at h
        · simp [terminate, hI.custody.loose (.inl hfresh), settles]
        · exact (hI.custody.unplaced (by simp [hfresh, isPlaced])).2
      · exact hs.quiet (not_fresh_of_state hI hst)

end TaskEntry

end NasaRuntime.Napart
