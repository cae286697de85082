import NasaRuntime.Napart.Properties.TaskStarts

/-!
# How a task is taken out of a container, moved and run

Who takes a task out of a container has it in hand, and nobody finalizes it before it is claimed. A
claimed task is run, failed, kept, or moved on.

A move has two steps before it is visible: the descriptor is set while the task is still queued, and
then the task is made moving. In between a cancellation may end the task and find the descriptor.
Once the task is moving, only an audit can end it, so an error of the mover means that an audit has
intervened.
-/

namespace NasaRuntime.Napart

namespace TaskEntry

open Prog

variable {i : ℕ} {mine held : Prop} {s : EntryStore} {α : Type}
  {E : TaskAuthorityError → EntryStore → Prop}

/-! ## Claiming -/

/-- Thread `i` has taken the task out of this container, and has yet to claim it. -/
structure Popped (i : ℕ) (expected : Owner) (s : EntryStore) : Prop where
  holder : s.history.holder = .handler i
  retention : s.physicalRetention = .container
  settling : s.history.settling = false
  owner : s.owner = expected
  move : ∀ descriptor, s.moveDescriptor = some descriptor → descriptor.targetOwner = expected
  state : s.state = .queued ∨ s.ended
  handover : s.history.handover = .idle ∨ s.ended

theorem thread_handler (h : s.history.holder = .handler i) : s.history.holder.thread = some i := by
  simp [h, Holder.thread]

theorem owner_of_kept {s' : EntryStore} (hI' : EntryInv s') (hheld : HeldKept i s s')
    (hsett : s'.history.settling = false) : s'.owner = s.owner := by
  rcases hheld.owner with heq | ⟨-, hfin⟩
  · exact heq
  · simp [hI'.ending.finishers hfin] at hsett

variable (owner : Owner)

theorem kept_popped : Kept i (Popped i owner) := by
  intro s s' _ hI' hR hs
  have hhand := thread_handler hs.holder
  have hheld := hR.held hhand
  obtain ⟨hbox, hsett⟩ := hheld.kept hs.retention hs.settling
  refine ⟨hheld.holder.trans hs.holder, hbox, hsett,
    (owner_of_kept hI' hheld hsett).trans hs.owner, fun descriptor hd => ?_,
    state_kept hR hhand hs.state, ?_⟩
  · rcases hheld.move with heq | ⟨hnone, -⟩
    · exact hs.move descriptor (heq ▸ hd)
    · simp [hnone] at hd
  · rw [hheld.handover]
    exact hs.handover.imp id hR.grows.ended

/-- A task that has ended and that nobody finalizes is terminating. -/
theorem terminating_of_kept (hI : EntryInv s) (hsett : s.history.settling = false)
    (hend : s.ended) : s.state = .terminating := by
  rcases ended_iff.1 hend with h | h
  · exact h
  · have hcoll := hI.ending.terminal (settled_of_terminal hI h)
    simp [(hI.ending.collected hcoll).1] at hsett

theorem does_clearPublishedMove :
    Does i (fun s => Clear mine i s ∧ Popped i owner s) (clearPublishedMove owner)
      (fun _ s => Clear mine i s ∧ Popped i owner s ∧ s.moveDescriptor = none)
      fun _ _ => False := by
  have hkept : Kept i fun s => Clear mine i s ∧ Popped i owner s :=
    (kept_quiet []).and (kept_popped owner)
  refine meets_bind (does_see hkept) fun current => ?_
  cases current with
  | none => exact meets_pure fun s _ h => ⟨h.1.1, h.1.2, h.2⟩
  | some descriptor =>
    by_cases htarg : descriptor.targetOwner = owner
    swap
    · intro s _ h
      exact absurd (h.1.2.move descriptor h.2) htarg
    refine meets_pre (does_check hkept (fun s hI h hst => ?_) fun _ _ => ?_) fun s _ h => h.1
    · rcases h.2.state with hs | hs
      · exact absurd hs hst.1
      · exact absurd (terminating_of_kept hI h.2.settling hs) hst.2
    refine does_check hkept (fun s _ h hret => absurd h.2.retention hret) fun _ _ => ?_
    refine does_check hkept (fun s _ h hown => ?_) fun _ _ => ?_
    · rcases hown with hs | hs
      · exact absurd h.2.owner hs
      · exact absurd htarg hs
    refine meets_modify hkept fun s hI hs => ⟨?_, { hs.1 with }, { hs.2 with move := nofun }, rfl⟩
    have howed := owed_clear (i := i) hI false (.inl (thread_handler hs.2.holder))
    rwa [Bool.or_false] at howed

/-- Thread `i` has claimed the task. -/
structure Handled (i : ℕ) (owner : Owner) (s : EntryStore) : Prop extends Free i s where
  holder : s.history.holder = .handler i
  state : s.state = .queued ∨ s.ended
  owner : s.owner = owner ∨ s.ended
  handling : s.physicalRetention = .handling ∨ s.ended

theorem kept_handled : Kept i (Handled i owner) := by
  intro s s' hI hI' hR hs
  exact ⟨kept_free s s' hI hI' hR hs.toFree, (hR.held hs.hand).holder.trans hs.holder,
    state_kept hR hs.hand hs.state, owner_kept hI' hR hs.hand hs.owner,
    retention_kept hI' hR hs.hand hs.handling⟩

theorem Handled.waiting {owner : Owner} (h : Handled i owner s) : Waiting i .queued s :=
  ⟨h.toFree, h.state⟩

theorem kept_unmoved : Kept i fun s => Clear mine i s ∧ Popped i owner s ∧
    s.moveDescriptor = none := by
  intro s s' hI hI' hR hs
  refine ⟨kept_quiet _ s s' hI hI' hR hs.1, kept_popped owner s s' hI hI' hR hs.2.1, ?_⟩
  rcases (hR.held (thread_handler hs.2.1.holder)).move with heq | ⟨hnone, -⟩
  · exact heq.trans hs.2.2
  · exact hnone

theorem does_claimBox :
    Does i (fun s => Clear mine i s ∧ Popped i owner s ∧ s.moveDescriptor = none)
      (changeRetention .container .handling)
      (fun _ s => Clear mine i s ∧ Handled i owner s) fun _ _ => False := by
  refine does_swapIf (kept_unmoved owner) (fun s hI hs _ => ⟨?_, { hs.1 with }, ?_⟩)
    fun s _ hs hno => ?_
  · exact owed_retention hI (thread_handler hs.2.1.holder) (by simp [hs.2.1.holder]) (.inr rfl)
      (.inr hs.2.1.handover)
  · exact ⟨⟨thread_handler hs.2.1.holder, rfl, hs.2.2⟩, hs.2.1.holder, hs.2.1.state,
      .inl hs.2.1.owner, .inl rfl⟩
  · simp [hs.2.1.retention] at hno

theorem does_claimContainer :
    Does i (fun s => Clear mine i s ∧ Popped i owner s) (claimContainer owner)
      (fun _ s => Clear mine i s ∧ Handled i owner s) fun _ _ => False := by
  refine meets_bind (does_clearPublishedMove owner) fun _ => ?_
  exact does_check (kept_unmoved owner) (fun s _ h hown => absurd h.2.1.owner hown)
    fun _ _ => does_claimBox owner

theorem does_claimReturnStaging (slot : ℕ) :
    Does i (fun s => Clear mine i s ∧ Popped i .returnStaging s) (claimReturnStaging slot)
      (fun _ s => Clear mine i s ∧ Handled i (.slot slot) s) fun _ _ => False := by
  refine meets_bind (does_clearPublishedMove .returnStaging) fun _ => ?_
  refine meets_bind (M := fun _ s => Clear mine i s ∧ Popped i (.slot slot) s ∧
    s.moveDescriptor = none) ?_ fun _ => ?_
  · refine does_swapIf (kept_unmoved _) (fun s hI hs _ => ⟨?_, { hs.1 with }, ?_, hs.2.2⟩)
      fun s _ hs hno => ?_
    · exact owed_changeOwner hI (thread_handler hs.2.1.holder)
        (fun h => by simp [hs.2.1.settling] at h) (by simp [hs.2.1.owner, Owner.isTerminal]) rfl
    · exact { hs.2.1 with
        owner := rfl
        move := fun d hd => by
          have hnone := hs.2.2
          simp [hnone] at hd }
    · simp [hs.2.1.owner] at hno
  exact meets_try (does_claimBox _) (fun _ => meets_pure fun s _ h => h) fun _ s _ h => h.elim

/-! ## Running -/

/-- Thread `i` runs the task. -/
structure Running (i : ℕ) (s : EntryStore) : Prop extends Free i s where
  holder : s.history.holder = .handler i
  state : s.state = .running

/-- A running task is ended by who runs it. -/
theorem state_running {s' : EntryStore} (hheld : HeldKept i s s') (h : s.state = .running) :
    s'.state = .running := by
  rcases hheld.state with heq | hend | ⟨-, -, hrun, -⟩
  · exact heq.trans h
  · simp [EntryStore.ended, h, EntryState.isTerminal] at hend
  · exact absurd h hrun

theorem kept_running : Kept i (Running i) := by
  intro s s' hI hI' hR hs
  have hheld := hR.held hs.hand
  exact ⟨kept_free s s' hI hI' hR hs.toFree, hheld.holder.trans hs.holder,
    state_running hheld hs.state⟩

theorem live_of_running (h : s.state = .running) : s.ended = false := by
  simp [EntryStore.ended, h, EntryState.isTerminal]

/-- The payload is taken, or the task has ended. -/
theorem does_takeForRunning (slot : ℕ) :
    Does i (fun s => Clear mine i s ∧ Handled i (.slot slot) s) (takeForRunning i slot)
      (fun _ s => (Clear mine i s ∧ Running i s) ∧ .taken ∈ s.history.notes)
      fun _ s => Clear mine i s ∧ Free i s ∧ s.ended := by
  have hkept : Kept i fun s => Clear mine i s ∧ Handled i (.slot slot) s :=
    (kept_quiet []).and (kept_handled _)
  refine does_check hkept (fun s _ h hown =>
    ⟨h.1, h.2.toFree, h.2.owner.resolve_left hown⟩) fun _ _ => ?_
  refine does_check hkept (fun s _ h hret =>
    ⟨h.1, h.2.toFree, h.2.handling.resolve_left hret⟩) fun _ _ => ?_
  refine meets_bind (M := fun _ s => (Clear mine i s ∧ Running i s) ∧ s.task = true) ?_ fun _ => ?_
  · refine does_swapIf hkept (fun s hI hs hst => ?_) fun s _ hs hst => ?_
    · have hst : s.state = .queued := by simpa using hst
      have hlive := live_of_state hst rfl
      have hhand := hs.2.handling.resolve_right (by simp [hlive])
      refine ⟨owed_begin hI hs.2.holder hst (by simp [hhand]) (.inr rfl),
        ⟨{ hs.1 with settler := fun h => ?_ }, { hs.2.toFree with }, hs.2.holder, rfl⟩, ?_⟩
      · simp [(hI.live hlive).settler] at h
      · by_contra htask
        rcases hI.payload.present (by simpa using htask) with h | h
        · simp [(hI.live hlive).settling] at h
        · exact untaken hI hlive (by simp [hst]) h
    · exact ⟨hs.1, hs.2.toFree, hs.2.state.resolve_left (by simpa using hst)⟩
  have hkept' : Kept i fun s => (Clear mine i s ∧ Running i s) ∧ s.task = true := by
    intro s s' hI hI' hR hs
    refine ⟨((kept_quiet []).and kept_running) s s' hI hI' hR hs.1, ?_⟩
    exact ((hR.held hs.1.2.hand).task hs.1.2.state).trans hs.2
  refine meets_bind (M := fun _ s => (Clear mine i s ∧ Running i s) ∧
    .taken ∈ s.history.notes) ?_ fun _ => ?_
  · refine does_swapIf hkept' (fun s hI hs _ => ⟨?_, ⟨{ hs.1.1 with }, { hs.1.2 with }⟩, by simp⟩)
      fun s _ hs hno => ?_
    · exact owed_take hI hs.1.2.holder hs.1.2.state hs.2
    · simp [hs.2] at hno
  refine meets_bind (M := fun queued s => (Quiet mine True i (if queued then [.queued] else []) s ∧
    Running i s) ∧ .taken ∈ s.history.notes) ?_ fun queued => ?_
  · refine meets_atomic (((kept_quiet []).and kept_running).and
      (kept_of_grows (fun _ _ hg h => hg.notes h)))
      fun s hI hs => ⟨owed_takeQueued hI, ⟨{ hs.1.1 with owed := ?_ }, { hs.1.2 with }⟩, hs.2⟩
    have howed := hs.1.1.owed
    cases hperm : s.queuedPermit <;> simpa [EntryStore.owedBy, hperm] using howed
  cases queued with
  | false => exact meets_pure fun s _ h => h
  | true =>
    refine meets_modify (((kept_quiet _).and kept_running).and
      (kept_of_grows (fun _ _ hg h => hg.notes h)))
      fun s hI hs => ⟨owed_release hI (by simp [hs.1.1.owed]),
        ⟨{ hs.1.1 with owed := ?_ }, { hs.1.2 with }⟩, hs.2⟩
    rw [owedBy_release, hs.1.1.owed]
    rfl

theorem does_endRunning {record : TerminalRecord} (hrec : record.state.isTerminal) :
    Does i (fun s => Clear mine i s ∧ Running i s)
      (beginEnd .running (·.terminate i record))
      (fun _ s => Clear mine i s ∧ Free i s ∧ s.ended) fun _ _ => False := by
  refine does_beginEnd ((kept_quiet []).and kept_running) (fun s hI hs hst => ⟨?_, ?_⟩)
    (fun s _ hs hst => ?_) fun s _ hs hst => absurd hs.2.state hst
  · exact owed_terminate hI (live_of_running hst) hrec (.inl hs.2.hand)
  · exact ⟨hs.1.terminate _ (live_of_running hst) hI fun _ => trivial, hs.2.toFree.terminate _, rfl⟩
  · rw [hs.2.state] at hst
    cases hst

theorem does_finishRunning {terminal : EntryState} {reason : Option String}
    (h : terminal = .completed ∧ reason = none ∨ terminal = .failed ∧ reason.isSome) :
    Does i (fun s => Clear mine i s ∧ Running i s) (finishRunning i terminal reason)
      (fun _ s => Clear mine i s ∧ Free i s ∧ s.ended) fun _ _ => False := by
  have heq : finishRunning i terminal reason =
      beginEnd .running (·.terminate i ⟨terminal, reason⟩) := by
    rcases h with ⟨rfl, rfl⟩ | ⟨rfl, hreas⟩
    · rfl
    · obtain ⟨text, rfl⟩ := Option.isSome_iff_exists.1 hreas
      rfl
  rw [heq]
  refine does_endRunning ?_
  rcases h with ⟨rfl, -⟩ | ⟨rfl, -⟩ <;> rfl

/-- A step that cannot fail, and then the task is settled. -/
theorem does_thenFinalize {p : EntryProg Unit} {P : EntryStore → Prop}
    (hp : Does i P p (fun _ s => Clear mine i s ∧ Free i s ∧ s.ended) fun _ _ => False) :
    Does i P (do
      let _ ← p.attempt
      finalizeTerminal i) (fun _ => Over mine i) E := by
  refine meets_bind (M := fun _ s => Clear mine i s ∧ Free i s ∧ s.ended) ?_ fun _ => ?_
  · exact meets_attempt (meets_post hp (fun _ _ _ h => h) fun _ _ _ h => h.elim)
  · exact does_finalize_over

theorem does_runJob (runEnd : RunEnd) :
    Does i (fun s => (Clear mine i s ∧ Running i s) ∧ .taken ∈ s.history.notes)
      (runJob i runEnd) (fun _ => Over mine i) E := by
  refine meets_bind (M := fun _ s => Clear mine i s ∧ Running i s) ?_ fun _ => ?_
  · exact meets_modify (((kept_quiet _).and kept_running).and
      (kept_of_grows fun _ _ hg h => hg.notes h)) fun s hI hs =>
        ⟨owed_ran hI hs.1.2.holder hs.1.2.state hs.2, { hs.1.1 with }, { hs.1.2 with }⟩
  cases runEnd with
  | completed => exact does_thenFinalize (does_finishRunning (.inl ⟨rfl, rfl⟩))
  | panicked => exact does_thenFinalize (does_finishRunning (.inr ⟨rfl, rfl⟩))
  | aborted =>
    refine meets_bind (does_know
      (K := fun state _ => state = .running) ((kept_quiet _).and kept_running)
      fun s _ h => h.2.state)
      fun state => ?_
    split_ifs with hst
    · intro s _ h
      rw [hst] at h
      cases h.2
    rw [failFrom_eq _ (.inr rfl) (by simp)]
    exact meets_try (meets_pre (does_endRunning rfl) fun s _ h => h.1)
      (fun _ => does_finalize_over) fun _ s _ h => h.elim

theorem does_runBusiness (slot : ℕ) (runEnd : RunEnd) :
    Does i (fun s => Clear mine i s ∧ Handled i (.slot slot) s)
      (runBusiness i slot runEnd) (fun _ => Over mine i) E := by
  have hkept : Kept i fun s => Clear mine i s ∧ Handled i (.slot slot) s :=
    (kept_quiet []).and (kept_handled _)
  refine meets_bind (does_see hkept) fun early => ?_
  split_ifs with hterm
  · exact meets_pure fun s hI h =>
      ⟨h.1.1, fun _ => .inl (.inl (settled_of_terminal hI (h.2 ▸ hterm)))⟩
  refine meets_bind (meets_pre (does_see hkept) fun s _ h => h.1) fun state => ?_
  split_ifs with htermi
  · exact does_finalize_seen htermi fun s h => ⟨h.1, h.2.toFree⟩
  refine meets_try (meets_pre (does_takeForRunning slot) fun s _ h => h.1)
    (fun _ => does_runJob runEnd) fun _ => ?_
  exact meets_post (does_recordAuthorityFailure_free _)
    (fun _ _ _ h => ⟨h.1, fun _ => .inl h.2⟩) fun _ _ _ h => h

open Prog

variable {i epoch : ℕ} {mine : Prop} {s : EntryStore} {descriptor : MoveDescriptor}
  {E : TaskAuthorityError → EntryStore → Prop}
variable {P : EntryStore → Prop}

/-! ## What a mover knows -/

/-- Thread `i` has drawn the epoch. -/
def Drawn (i epoch : ℕ) (s : EntryStore) : Prop := s.history.epochs[epoch - 1]? = some i

theorem grows_drawn : ∀ s s' : EntryStore, Grows s s' → Drawn i epoch s → Drawn i epoch s' :=
  fun _ _ hg => hg.drawn

/-- The descriptor is there, unless an audit has removed it. -/
def Described (descriptor : MoveDescriptor) (s : EntryStore) : Prop :=
  s.moveDescriptor = some descriptor ∨ s.moveDescriptor = none ∧ s.history.audited

variable {s' : EntryStore}

theorem described_kept (hR : EntryRely i s s')
    (hhand : s.history.holder.thread = some i) (hdrawn : Drawn i descriptor.moveEpoch s)
    (h : Described descriptor s) : Described descriptor s' := by
  rcases h with hsome | ⟨hnone, haud⟩
  · rcases (hR.held hhand).move with heq | ⟨hnone, haud | ⟨other, hoth, hnot⟩⟩
    · exact .inl (heq.trans hsome)
    · exact .inr ⟨hnone, haud⟩
    · rw [hsome, Option.some.injEq] at hoth
      exact absurd (hoth ▸ hdrawn) hnot
  · rcases (hR.held hhand).move with heq | ⟨hnone', -⟩
    · exact .inr ⟨heq.trans hnone, hR.grows.audited haud⟩
    · exact .inr ⟨hnone', hR.grows.audited haud⟩

/-- The move is prepared. -/
structure Prepared (i : ℕ) (descriptor : MoveDescriptor) (s : EntryStore) : Prop where
  holder : s.history.holder = .handler i
  drawn : Drawn i descriptor.moveEpoch s
  move : Described descriptor s
  state : s.state = .queued ∨ s.ended
  owner : s.owner = descriptor.sourceOwner ∨ s.ended
  handling : s.physicalRetention = .handling ∨ s.ended
  retention : s.physicalRetention.settles

theorem settles_kept (hheld : HeldKept i s s')
    (h : s.physicalRetention.settles) : s'.physicalRetention.settles := by
  rcases hheld.retention with heq | ⟨hgone, -⟩
  · rwa [heq]
  · rw [hgone]
    rfl

theorem kept_prepared : Kept i (Prepared i descriptor) := by
  intro s s' _ hI' hR hs
  have hhand := thread_handler hs.holder
  have hheld := hR.held hhand
  exact ⟨hheld.holder.trans hs.holder, grows_drawn s s' hR.grows hs.drawn,
    described_kept hR hhand hs.drawn hs.move, state_kept hR hhand hs.state,
    owner_kept hI' hR hhand hs.owner, retention_kept hI' hR hhand hs.handling,
    settles_kept hheld hs.retention⟩

/-- The task is moving, unless an audit has ended it. -/
structure Carrying (i : ℕ) (descriptor : MoveDescriptor) (expected : Owner)
    (place : PhysicalRetention) (s : EntryStore) : Prop where
  holder : s.history.holder = .handler i
  drawn : Drawn i descriptor.moveEpoch s
  move : Described descriptor s
  state : s.state = .moving ∨ s.ended ∧ s.history.audited
  owner : s.owner = expected ∨ s.ended
  retention : s.physicalRetention = place ∨ s.ended

theorem moving_kept (hR : EntryRely i s s') (hhand : s.history.holder.thread = some i)
    (h : s.state = .moving ∨ s.ended ∧ s.history.audited) :
    s'.state = .moving ∨ s'.ended ∧ s'.history.audited := by
  rcases h with hmov | ⟨hend, haud⟩
  · rcases (hR.held hhand).state with heq | hend | ⟨hend, -, -, haud, -⟩
    · exact .inl (heq.trans hmov)
    · simp [EntryStore.ended, hmov, EntryState.isTerminal] at hend
    · exact .inr ⟨hend, haud hmov⟩
  · exact .inr ⟨hR.grows.ended hend, hR.grows.audited haud⟩

theorem kept_carrying (expected : Owner) (place : PhysicalRetention) :
    Kept i (Carrying i descriptor expected place) := by
  intro s s' _ hI' hR hs
  have hhand := thread_handler hs.holder
  exact ⟨(hR.held hhand).holder.trans hs.holder, grows_drawn s s' hR.grows hs.drawn,
    described_kept hR hhand hs.drawn hs.move, moving_kept hR hhand hs.state,
    owner_kept hI' hR hhand hs.owner, retention_kept hI' hR hhand hs.retention⟩

theorem Carrying.audited {expected : Owner} {place : PhysicalRetention}
    (h : Carrying i descriptor expected place s) (hend : s.ended) : s.history.audited := by
  rcases h.state with hmov | ⟨-, haud⟩
  · simp [EntryStore.ended, hmov, EntryState.isTerminal] at hend
  · exact haud

/-- The task is said to be in the container, and nobody finalizes it there. -/
structure Boxed (i : ℕ) (descriptor : MoveDescriptor) (s : EntryStore) : Prop where
  holder : s.history.holder = .handler i
  drawn : Drawn i descriptor.moveEpoch s
  move : Described descriptor s
  owner : s.owner = descriptor.targetOwner
  retention : s.physicalRetention = .container
  settling : s.history.settling = false

theorem kept_boxed : Kept i (Boxed i descriptor) := by
  intro s s' _ hI' hR hs
  have hhand := thread_handler hs.holder
  have hheld := hR.held hhand
  obtain ⟨hbox, hsett⟩ := hheld.kept hs.retention hs.settling
  exact ⟨hheld.holder.trans hs.holder, grows_drawn s s' hR.grows hs.drawn,
    described_kept hR hhand hs.drawn hs.move,
    (owner_of_kept hI' hheld hsett).trans hs.owner, hbox, hsett⟩

/-- The task is boxed and the logical owner is the new one. -/
structure Packed (i : ℕ) (descriptor : MoveDescriptor) (target : LogicalOwner) (s : EntryStore) :
    Prop extends Boxed i descriptor s where
  logical : s.logicalOwner = some target

theorem kept_packed (target : LogicalOwner) : Kept i (Packed i descriptor target) := by
  intro s s' hI hI' hR hs
  have hbox := kept_boxed s s' hI hI' hR hs.toBoxed
  refine ⟨hbox, ?_⟩
  rcases (hR.held (thread_handler hs.holder)).logical with heq | hcoll
  · exact heq.trans hs.logical
  · have hsett := hbox.settling
    simp [(hI'.ending.collected hcoll).1] at hsett

/-- The task is queued again. -/
structure Shipped (i : ℕ) (descriptor : MoveDescriptor) (target : LogicalOwner) (s : EntryStore) :
    Prop extends Packed i descriptor target s where
  state : s.state = .queued ∨ s.ended
  pending : s.pendingTerminal = none ∨ s.pendingTerminal = some cancelRecord ∨ s.history.audited

theorem kept_shipped (target : LogicalOwner) : Kept i (Shipped i descriptor target) := by
  intro s s' hI hI' hR hs
  have hhand := thread_handler hs.holder
  refine ⟨kept_packed target s s' hI hI' hR hs.toPacked, state_kept hR hhand hs.state, ?_⟩
  rcases (hR.held hhand).pending hs.retention hs.settling with heq | hcanc | haud
  · rw [heq]
    exact hs.pending.imp id (Or.imp id hR.grows.audited)
  · exact .inr (.inl hcanc)
  · exact .inr (.inr haud)

/-! ## Preparing -/

/-- The source of the move is where the task is. -/
def Source (stage : MoveStage) (source : ℕ) (owner : Owner) : Prop :=
  owner = .slot source ∨ stage = .returnToSource ∧ owner = .returnStaging

variable {owner : Owner} {audit : Bool}

/-- A move is prepared, unless the task has ended or there is no epoch left. -/
theorem does_prepareMove (stage : MoveStage) (source target : ℕ)
    (hsrc : Source stage source owner) :
    Does i (fun s => Clear mine i s ∧ Handled i owner s)
      (prepareMove i stage source target)
      (fun epoch s => ∃ found, Source stage source found ∧ Clear mine i s ∧
        Prepared i ⟨stage, source, found, target, epoch⟩ s)
      fun _ s => (Clear mine i s ∧ Handled i owner s) ∧ (s.ended ∨ s.Blamed) := by
  have hkept : Kept i fun s => Clear mine i s ∧ Handled i owner s :=
    (kept_quiet []).and (kept_handled _)
  refine does_check hkept (fun s _ h hst => ⟨h, .inl (h.2.state.resolve_left hst)⟩) fun _ _ => ?_
  refine meets_bind (does_know
    (K := fun found s => (found = owner ∨ s.ended) ∧ (s.owner = found ∨ s.ended)) hkept
    fun s _ h => ⟨h.2.owner, .inl rfl⟩) fun found => ?_
  split_ifs with hfnd
  · refine meets_fail fun s _ h => ⟨h.1, .inl (h.2.1.resolve_left ?_)⟩
    rintro rfl
    rcases hsrc with h | h
    · exact hfnd.1 h
    · exact hfnd.2 h
  have hsrc' : Source stage source found := by
    by_cases hslot : found = .slot source
    · exact .inl hslot
    · by_contra hnot
      exact hfnd ⟨hslot, fun h => hnot (.inr h)⟩
  have hkept' : Kept i fun s => (Clear mine i s ∧ Handled i owner s) ∧
      (s.owner = found ∨ s.ended) := by
    intro s s' hI hI' hR hs
    exact ⟨hkept s s' hI hI' hR hs.1, owner_kept hI' hR hs.1.2.hand hs.2⟩
  refine meets_pre (does_check hkept' (fun s _ h hret =>
    ⟨h.1, .inl (h.1.2.handling.resolve_left hret)⟩) fun _ _ => ?_) fun s _ h => ⟨h.1, h.2.2⟩
  refine meets_bind (M := fun drawn s => drawn.elim
    ((Clear mine i s ∧ Handled i owner s) ∧ (s.ended ∨ s.Blamed)) fun epoch =>
      ((Clear mine i s ∧ Handled i owner s) ∧ (s.owner = found ∨ s.ended)) ∧
        Drawn i epoch s ∧ 0 < epoch ∧ epoch ≤ s.history.epochs.length) ?_ fun drawn => ?_
  · refine meets_atomic hkept' fun s hI hs => ?_
    by_cases hroom : s.nextMoveEpoch < u64Max
    · simp only [hroom, if_true]
      have hlen := hI.numbered.drawn
      refine ⟨owed_draw hI, ⟨⟨{ hs.1.1 with }, { hs.1.2 with }⟩, hs.2⟩, ?_, Nat.succ_pos _, ?_⟩
      · simp [Drawn, hlen]
      · simp [hlen]
    · simp only [hroom, if_false]
      exact ⟨Owed.refl hI, hs.1, .inr (.inr (.inr (.inr (.inr (Nat.le_of_not_lt hroom)))))⟩
  cases drawn with
  | none => exact meets_fail fun s _ h => h
  | some epoch =>
    refine meets_bind (M := fun _ s => Clear mine i s ∧
      Prepared i ⟨stage, source, found, target, epoch⟩ s) ?_ fun _ =>
        meets_pure fun s _ h => ⟨found, hsrc', h⟩
    have hkept'' : Kept i fun s => ((Clear mine i s ∧ Handled i owner s) ∧
        (s.owner = found ∨ s.ended)) ∧ Drawn i epoch s ∧ 0 < epoch ∧
          epoch ≤ s.history.epochs.length := by
      refine hkept'.and (kept_of_grows fun s s' hg h => ?_)
      exact ⟨grows_drawn s s' hg h.1, h.2.1, h.2.2.trans hg.epochs.length_le⟩
    refine does_swapIf hkept'' (fun s hI hs _ => ?_) fun s _ hs hno => ?_
    · have hhand := hs.1.1.2
      exact ⟨owed_install hI hhand.holder hs.2.2, { hs.1.1.1 with }, hhand.holder, hs.2.1,
        .inl rfl, hhand.state, hs.1.2, hhand.handling, hhand.retention⟩
    · simp [hs.1.1.2.move] at hno

/-! ## Activating -/

theorem does_ensureMove (hP : Kept i P) (hmove : ∀ s, P s → Described descriptor s) :
    Does i P (ensureMove descriptor.moveEpoch) (fun found s => found = descriptor ∧ P s)
      fun _ s => P s ∧ s.history.audited := by
  refine meets_bind (does_see hP) fun current => ?_
  cases current with
  | none =>
    refine meets_fail fun s _ h => ⟨h.1, ?_⟩
    rcases hmove s h.1 with hsome | ⟨-, haud⟩
    · simp [h.2] at hsome
    · exact haud
  | some found =>
    have hfnd : ∀ s, P s → s.moveDescriptor = some found → found = descriptor := by
      intro s hs heq
      rcases hmove s hs with hsome | ⟨hnone, -⟩
      · rw [heq, Option.some.injEq] at hsome
        exact hsome
      · simp [heq] at hnone
    simp only
    split_ifs with hep
    · intro s _ h
      exact absurd (congrArg MoveDescriptor.moveEpoch (hfnd s h.1 h.2)) hep
    · exact meets_pure fun s _ h => ⟨hfnd s h.1 h.2, h.1⟩

theorem does_activateMove (descriptor : MoveDescriptor) :
    Does i (fun s => Clear mine i s ∧ Prepared i descriptor s)
      (activateMove descriptor.moveEpoch)
      (fun _ s => Clear mine i s ∧ Carrying i descriptor descriptor.sourceOwner .handling s)
      fun _ s => (Clear mine i s ∧ Prepared i descriptor s) ∧ (s.history.audited ∨ s.ended) := by
  refine meets_bind (meets_post (does_ensureMove ((kept_quiet []).and kept_prepared) fun s h =>
    h.2.move)
    (fun _ _ _ h => h) fun _ _ _ h => ⟨h.1, .inl h.2⟩) fun found => ?_
  refine meets_pre (does_swapIf ((kept_quiet []).and kept_prepared) (fun s hI hs hst => ?_) fun
    s _ hs hst => ⟨hs, ?_⟩)
    fun s _ h => h.2
  · have hst : s.state = .queued := by simpa using hst
    have hlive := live_of_state hst rfl
    have hhand := hs.2.handling.resolve_right (by simp [hlive])
    refine ⟨owed_begin hI hs.2.holder hst (by simp [hhand]) (.inl rfl),
      { hs.1 with settler := fun h => ?_ }, hs.2.holder, hs.2.drawn, hs.2.move, .inl rfl,
      .inl (hs.2.owner.resolve_right (by simp [hlive])), .inl hhand⟩
    simp [(hI.live hlive).settler] at h
  · exact .inr (hs.2.state.resolve_left (by simpa using hst))

/-! ## Clearing -/

/-- Who drew the epoch of a descriptor, or an audit, removes it. -/
theorem does_clearMove {Q : Unit → EntryStore → Prop} (audit : Bool) (hP : Kept i P)
    (hwho : ∀ s, P s → audit = true ∨ Drawn i epoch s) (hyes : ∀ s, EntryInv s → P s → Q () { s with
      moveDescriptor := none
      history.audited := s.history.audited || audit })
    (hno : ∀ s, EntryInv s → P s → (∀ d, s.moveDescriptor = some d → d.moveEpoch ≠ epoch) →
      E .moveTicketMismatch s) : Does i P (clearMove audit epoch) Q E := by
  refine does_swapIf hP (fun s hI hs hfnd => ⟨owed_clear hI audit ?_, hyes s hI hs⟩)
    fun s hI hs hnot => hno s hI hs fun d hd hep => ?_
  · rcases hwho s hs with haud | hdrawn
    · exact .inr (.inr haud)
    · right; left
      cases hmove : s.moveDescriptor with
      | none => simp [hmove] at hfnd
      | some d =>
        simp only [hmove, Option.any_some, beq_iff_eq] at hfnd
        exact ⟨d, rfl, hfnd ▸ hdrawn⟩
  · simp [hd, hep] at hnot

/-- Somebody who has nothing in hand clears up after a move. -/
theorem does_clearInactiveMove (audit : Bool) (hP : Kept i P)
    (hwho : ∀ s, P s → audit = true ∨ Drawn i epoch s) (hsame : ∀ s, P s → P { s with
      moveDescriptor := none
      history.audited := s.history.audited || audit }) :
    Does i P ((clearInactiveMove audit epoch).attempt) (fun _ => P) E := by
  refine meets_attempt (meets_bind (does_look hP) fun state => ?_)
  split_ifs
  · exact meets_fail fun s _ h => h
  · exact does_clearMove audit hP hwho (fun s _ h => hsame s h) fun s _ h _ => h

theorem does_finishMoving (hP : Kept i P)
    (hsame : ∀ s, P s → P { s with moving := false }) : Does i P finishMoving (fun _ => P) E :=
  meets_modify hP fun s hI hs => ⟨owed_moving hI false, hsame s hs⟩

/-! ## A move that fails -/

/-- The knowledge of somebody who has seen an audit, or is one. -/
def Audited (mine : Prop) (audit : Bool) (i epoch : ℕ) (s : EntryStore) : Prop :=
  Quiet mine True i [] s ∧ s.history.audited ∧ (audit = true ∨ Drawn i epoch s)

theorem kept_audited : Kept i (Audited mine audit i epoch) :=
  (kept_quiet []).and (kept_of_grows fun s s' hg h =>
    ⟨hg.audited h.1, h.2.imp id (grows_drawn s s' hg)⟩)

theorem does_finalizeTerminal_audited :
    Does i (Audited mine audit i epoch) (finalizeTerminal i)
      (fun _ => Audited mine audit i epoch) E :=
  meets_mono (does_frame (F := fun s => s.history.audited ∧ (audit = true ∨ Drawn i epoch s))
      does_finalizeTerminal_blamed fun s s' hg h =>
        ⟨hg.audited h.1, h.2.imp id (grows_drawn s s' hg)⟩)
    (fun _ _ h => ⟨⟨h.1, .inl h.2.1⟩, h.2⟩) (fun _ _ _ h => ⟨h.1.1, h.2⟩) fun _ _ _ h => h.1

theorem does_failActiveMove (audit : Bool) (reason : String) :
    Does i (Audited mine audit i epoch) (failActiveMove i audit epoch reason)
      (fun _ => Audited mine audit i epoch) E := by
  refine meets_bind (M := fun _ => Audited mine audit i epoch) ?_ fun _ => ?_
  · refine meets_attempt (meets_bind (M := fun _ => Audited mine audit i epoch) ?_ fun _ => ?_)
    · refine meets_bind (does_look kept_audited) fun state => ?_
      split_ifs
      · exact meets_fail fun s _ h => h
      refine meets_bind (does_look kept_audited) fun current => ?_
      cases current with
      | none => exact meets_fail fun s _ h => h
      | some found =>
        simp only
        split_ifs
        · exact meets_fail fun s _ h => h
        · exact meets_pure fun s _ h => h
    · refine does_beginEnd kept_audited (fun s hI hs hst => ?_) (fun s _ h _ => h) fun s _ h _ => h
      have hlive := live_of_state hst rfl
      exact ⟨owed_terminate hI hlive rfl (.inr (.inr ⟨hs.2.1, by simp [hst]⟩)),
        hs.1.terminate _ hlive hI fun _ => trivial, hs.2⟩
  refine meets_bind (does_clearInactiveMove audit kept_audited (fun s h => h.2.2) fun s h =>
    ⟨{ h.1 with }, by simp [h.2.1], h.2.2⟩) fun _ => ?_
  refine meets_bind (does_finishMoving kept_audited fun s h => ⟨{ h.1 with }, h.2⟩) fun _ => ?_
  refine meets_bind (does_failType kept_audited (fun s h => .inl h.2.1) fun s h =>
    ⟨{ h.1 with }, h.2⟩) fun _ => ?_
  exact does_finalizeTerminal_audited

/-- The task was not queued any more when the move was to begin. -/
theorem does_dropPreparedMove (descriptor : MoveDescriptor) :
    Does i (fun s => (Clear mine i s ∧ Prepared i descriptor s) ∧
        (s.history.audited ∨ s.ended)) (dropPreparedMove i descriptor.moveEpoch)
      (fun _ => Over mine i) E := by
  have hgrows : ∀ s s' : EntryStore, Grows s s' → (s.history.audited ∨ s.ended) →
      s'.history.audited ∨ s'.ended := fun _ _ hg h => h.imp hg.audited hg.ended
  refine meets_bind (M := fun abandoned s => ((Clear mine i s ∧ Waiting i .queued s) ∧
    (s.history.audited ∨ s.ended)) ∧ (abandoned ≠ .ok () → s.history.audited)) ?_
      fun abandoned => ?_
  · refine meets_attempt (does_check (((kept_quiet []).and kept_prepared).and
      (kept_of_grows hgrows)) (fun s _ h hmov => ?_) fun _ _ => ?_)
    · rcases h.1.2.state with hs | hs
      · simp [hs] at hmov
      · simp [EntryStore.ended, hmov, EntryState.isTerminal] at hs
    refine does_clearMove false (((kept_quiet []).and kept_prepared).and (kept_of_grows hgrows))
      (fun s h => .inr h.1.2.drawn) (fun s _ h => ?_)
      fun s _ h hnone => ?_
    · have hprep := h.1.2
      refine ⟨⟨⟨{ h.1.1 with }, ⟨thread_handler hprep.holder, hprep.retention, rfl⟩,
        hprep.state⟩, ?_⟩, fun h => absurd rfl h⟩
      exact h.2.imp (fun ha => by simp [ha]) id
    · have hprep := h.1.2
      rcases hprep.move with hsome | ⟨hmove, haud⟩
      · exact absurd rfl (hnone descriptor hsome)
      · exact ⟨⟨⟨h.1.1, ⟨thread_handler hprep.holder, hprep.retention, hmove⟩,
          hprep.state⟩, h.2⟩, fun _ => haud⟩
  refine meets_bind (does_finishMoving ((((kept_quiet []).and (kept_waiting _)).and
    (kept_of_grows hgrows)).and (Stable.imp (kept_of_grows fun _ _ hg => hg.audited))) fun s h =>
    ⟨⟨⟨{ h.1.1.1 with }, ⟨{ h.1.1.2.1 with }, h.1.1.2.2⟩⟩, h.1.2⟩, h.2⟩) fun _ => ?_
  refine meets_bind (does_see ((((kept_quiet []).and (kept_waiting _)).and
    (kept_of_grows hgrows)).and (Stable.imp (kept_of_grows fun _ _ hg => hg.audited))))
    fun state => ?_
  split_ifs with hok
  · exact does_finalize_seen hok.2 fun s h => ⟨h.1.1.1, h.1.1.2.1⟩
  -- Without an audit the descriptor is removed and the task has ended, so it is terminal.
  refine meets_pre (P := fun s => Clear mine i s ∧
    (s.history.audited ∨ s.state.isTerminal)) ?_ fun s _ h => ⟨h.1.1.1.1, ?_⟩
  · refine meets_bind (does_read (Q := fun again s => (Clear mine i s ∧
      (s.history.audited ∨ s.state.isTerminal)) ∧ s.state = again) ?_ fun s _ h => ⟨h, rfl⟩)
      fun again => ?_
    · refine (kept_quiet []).and (kept_of_grows fun s s' hg h => h.imp hg.audited fun hs => ?_)
      rw [hg.final hs]
      exact hs
    split_ifs with hag
    · exact meets_pure fun s hI h =>
        ⟨h.1.1, fun _ => .inl (.inl (settled_of_terminal hI (h.2 ▸ hag)))⟩
    · refine meets_mono (does_recordAuthorityFailure_audited _)
        (fun s _ h => ⟨h.1.1, h.1.2.resolve_right fun hs => hag (h.2 ▸ hs)⟩)
        (fun _ _ _ h => ⟨h.1, fun _ => .inr (.inl h.2)⟩) fun _ _ _ h => h
  · by_cases hab : abandoned = .ok ()
    · rcases h.1.1.2 with haud | hend
      · exact .inl haud
      · rcases ended_iff.1 hend with hs | hs
        · exact absurd ⟨hab, h.2.symm.trans hs⟩ hok
        · exact .inr hs
    · exact .inl (h.1.2 hab)

end TaskEntry

end NasaRuntime.Napart
