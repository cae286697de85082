import NasaRuntime.Napart.Properties.TaskTransfers

/-!
# How a moved task arrives, and what a consumer does

From the state "moving" on, only an audit keeps the mover from putting the task into its new
container (`Stopped`). With that, a consumer that takes a task out of a container leaves it settled,
in another container, or to a cancellation (`does_consume`).
-/

namespace NasaRuntime.Napart

namespace TaskEntry

open Prog

variable {i epoch : ℕ} {mine : Prop} {s : EntryStore} {descriptor : MoveDescriptor}
  {E : TaskAuthorityError → EntryStore → Prop}

/-! ## Carrying -/

/-- What an error of the mover means. -/
def Stopped (mine : Prop) (i epoch : ℕ) (owed : List Account) (s : EntryStore) : Prop :=
  Quiet mine True i owed s ∧ s.history.audited ∧ Drawn i epoch s

variable {owed : List Account} {P : EntryStore → Prop}

theorem does_activeMove {A B : EntryStore → Prop}
    (hA : Kept i fun s => Quiet mine True i owed s ∧ A s)
    (hB : Kept i fun s => Quiet mine True i owed s ∧ B s) (hmove : ∀ s, B s → Described descriptor s)
    (hdrawn : ∀ s, A s ∨ B s → Drawn i descriptor.moveEpoch s)
    (hmov : ∀ s, EntryInv s → Quiet mine True i owed s ∧ A s → s.state = .moving →
      Quiet mine True i owed s ∧ B s)
    (hnot : ∀ s, A s → s.state ≠ .moving → s.history.audited) :
    Does i (fun s => Quiet mine True i owed s ∧ A s) (activeMove descriptor.moveEpoch)
      (fun found s => found = descriptor ∧ Quiet mine True i owed s ∧ B s)
      fun _ => Stopped mine i descriptor.moveEpoch owed := by
  refine meets_bind (does_see hA) fun state => ?_
  split_ifs with hst
  · exact meets_fail fun s _ h => ⟨h.1.1, hnot s h.1.2 (by rwa [h.2]), hdrawn s (.inl h.1.2)⟩
  · have hst : state = .moving := by simpa using hst
    exact meets_mono (does_ensureMove hB fun s h => hmove s h.2)
      (fun s hI h => hmov s hI h.1 (h.2.trans hst)) (fun _ _ _ h => h)
      fun _ s _ h => ⟨h.1.1, h.2, hdrawn s (.inr h.1.2)⟩

theorem does_transferMoveOwner (hopen : descriptor.sourceOwner.isTerminal = false) :
    Does i (fun s => Quiet mine True i owed s ∧
        Carrying i descriptor descriptor.sourceOwner .handling s)
      (transferMoveOwner descriptor.moveEpoch)
      (fun _ s => Quiet mine True i owed s ∧
        Carrying i descriptor descriptor.targetOwner .handling s)
      fun _ => Stopped mine i descriptor.moveEpoch owed := by
  refine meets_bind (does_activeMove ((kept_quiet owed).and (kept_carrying _ _))
    ((kept_quiet owed).and (kept_carrying _ _)) (fun s h => h.move)
    (fun s h => h.elim (·.drawn) (·.drawn)) (fun s _ h _ => h)
    fun s h hst => (h.state.resolve_left hst).2) fun found => ?_
  by_cases hfnd : found = descriptor
  swap
  · exact fun s _ h => absurd h.1 hfnd
  subst hfnd
  refine meets_pre (does_swapIf ((kept_quiet owed).and (kept_carrying _ _))
    (fun s hI hs hown => ⟨?_, { hs.1 with }, ?_⟩)
    fun s _ hs hown => ⟨hs.1, ?_, hs.2.drawn⟩) fun s _ h => h.2
  · have hown : s.owner = found.sourceOwner := by simpa using hown
    refine owed_changeOwner hI (thread_handler hs.2.holder)
      (fun h => hs.2.audited (hI.ending.settling h)) (hown ▸ hopen) ?_
    unfold MoveDescriptor.targetOwner
    split_ifs <;> rfl
  · exact { hs.2 with owner := .inl rfl }
  · exact hs.2.audited (hs.2.owner.resolve_left (by simpa using hown))

theorem does_prepareMoveContainer (expected : Owner) :
    Does i (fun s => Quiet mine True i owed s ∧ Carrying i descriptor expected .handling s)
      (prepareMoveContainer descriptor.moveEpoch)
      (fun _ s => Quiet mine True i owed s ∧ Carrying i descriptor expected .container s)
      fun _ => Stopped mine i descriptor.moveEpoch owed := by
  refine meets_bind (does_activeMove ((kept_quiet owed).and (kept_carrying _ _))
    ((kept_quiet owed).and (kept_carrying _ _)) (fun s h => h.move)
    (fun s h => h.elim (·.drawn) (·.drawn)) (fun s _ h _ => h)
    fun s h hst => (h.state.resolve_left hst).2) fun found => ?_
  refine meets_pre (does_swapIf ((kept_quiet owed).and (kept_carrying _ _))
    (fun s hI hs _ => ⟨?_, { hs.1 with },
    { hs.2 with retention := .inl rfl }⟩) fun s _ hs hret => ⟨hs.1, ?_, hs.2.drawn⟩)
    fun s _ h => h.2
  · exact owed_retention hI (thread_handler hs.2.holder) (by simp [hs.2.holder]) (.inl rfl)
      (.inl rfl)
  · exact hs.2.audited (hs.2.retention.resolve_left (by simpa using hret))

/-- A task that is moving in its container is not finalized there. -/
theorem Carrying.boxed (hI : EntryInv s)
    (h : Carrying i descriptor descriptor.targetOwner .container s) (hmov : s.state = .moving) :
    Boxed i descriptor s := by
  have hlive := live_of_state hmov rfl
  exact ⟨h.holder, h.drawn, h.move, h.owner.resolve_right (by simp [hlive]),
    h.retention.resolve_right (by simp [hlive]), (hI.live hlive).settling⟩

/-- The task is moving, unless an audit has ended it. -/
def Moving (s : EntryStore) : Prop := s.state = .moving ∨ s.ended ∧ s.history.audited

variable (target : LogicalOwner)

theorem kept_packing :
    Kept i fun s => Packed i descriptor target s ∧ Moving s := by
  intro s s' hI hI' hR hs
  exact ⟨kept_packed target s s' hI hI' hR hs.1, moving_kept hR (thread_handler hs.1.holder) hs.2⟩

theorem does_replaceLogicalOwner :
    Does i (fun s => Quiet mine True i [target.account] s ∧
        Carrying i descriptor descriptor.targetOwner .container s)
      (replaceLogicalOwner i descriptor.moveEpoch target)
      (fun old s => Quiet mine True i [old.account] s ∧ Packed i descriptor target s ∧ Moving s)
      fun _ => Stopped mine i descriptor.moveEpoch [target.account] := by
  have hkept' : Kept i fun s => Quiet mine True i [target.account] s ∧ Boxed i descriptor s ∧
      Moving s := by
    intro s s' hI hI' hR hs
    exact ⟨kept_quiet _ s s' hI hI' hR hs.1, kept_boxed s s' hI hI' hR hs.2.1,
      moving_kept hR (thread_handler hs.2.1.holder) hs.2.2⟩
  refine meets_bind (does_activeMove ((kept_quiet _).and (kept_carrying _ _)) hkept'
    (fun s h => h.1.move)
    (fun s h => h.elim (·.drawn) (·.1.drawn))
    (fun s hI h hst => ⟨h.1, h.2.boxed hI hst, .inl hst⟩)
    fun s h hst => (h.state.resolve_left hst).2) fun found => ?_
  refine meets_pre (does_check hkept' (fun s _ h hret => absurd h.2.1.retention hret)
    fun _ _ => ?_) fun s _ h => h.2
  refine meets_bind (M := fun old s => ∃ logical, old = some logical ∧
    Quiet mine True i [logical.account] s ∧ Packed i descriptor target s ∧ Moving s) ?_
    fun old => ?_
  · refine meets_atomic hkept' fun s hI hs => ?_
    have hbox := hs.2.1
    have hcoll : s.history.collected = false := by
      by_contra h
      have hsett := hbox.settling
      simp [(hI.ending.collected (by simpa using h)).1] at hsett
    obtain ⟨old, hold⟩ := Option.isSome_iff_exists.1
      (hI.custody.placed (by simp [hbox.holder, Holder.isPlaced]) hcoll)
    refine ⟨owed_replaceLogical hI hbox.holder hbox.settling hold (by simp [hs.1.owed]), old, hold,
      { hs.1 with owed := ?_ }, ⟨{ hbox with }, rfl⟩, hs.2.2⟩
    rw [owedBy_replaceLogical hold, hs.1.owed]
    simp
  · cases old with
    | some old =>
      refine meets_pure fun s _ h => ?_
      obtain ⟨logical, heq, hrest⟩ := h
      cases heq
      exact hrest
    | none =>
      intro s _ h
      obtain ⟨logical, heq, -⟩ := h
      cases heq

/-! ## Looking for a request to cancel -/

theorem does_moveCompletion (hP : Kept i P) (hshipp : ∀ s, P s → Shipped i descriptor target s) :
    Does i P moveCompletion (fun _ => P) fun _ s => P s ∧ s.history.audited := by
  refine meets_bind (does_see hP) fun state => ?_
  split_ifs with hqueued hterm
  · exact meets_pure fun s _ h => h.1
  · refine meets_bind (meets_pre (does_read (Q := fun pending s => P s ∧
      (pending = some cancelRecord ∨ s.history.audited)) (hP.and kept_ended) fun s hI h =>
      ⟨h.1, ?_⟩)
      fun s _ h => ⟨h.1, by simp [EntryStore.ended, h.2, hterm]⟩) fun pending => ?_
    · have hs := hshipp s h.1
      have hst := terminating_of_kept hI hs.settling h.2
      rcases hs.pending with hnone | hrest
      · rcases hI.ending.record hst with hsome | htermi
        · simp [hnone] at hsome
        · have hsett := hs.settling
          simp [(hI.ending.collected (hI.ending.terminal htermi)).1] at hsett
      · exact hrest
    split_ifs with hpend
    · exact meets_pure fun s _ h => h.1
    · exact meets_fail fun s _ h => ⟨h.1, h.2.resolve_left hpend⟩
  · intro s hI h
    have hs := hshipp s h.1
    rcases hs.state with hst | hend
    · exact absurd (h.2.symm.trans hst) hqueued
    · exact absurd (h.2.symm.trans (terminating_of_kept hI hs.settling hend)) hterm

/-- The mover ends a task for which it has found a request to cancel. -/
theorem does_answerRequest :
    Does i (fun s => (Clear mine i s ∧ Shipped i descriptor target s) ∧
        s.history.promises ≠ []) (answerRequest i)
      (fun _ s => (Clear mine i s ∧ Shipped i descriptor target s) ∧ s.ended)
      fun _ s => (Clear mine i s ∧ Shipped i descriptor target s) ∧ s.history.audited := by
  have hprom : ∀ s s' : EntryStore, Grows s s' → s.history.promises ≠ [] →
      s'.history.promises ≠ [] := by
    intro s s' hg h hnil
    have hsub := hg.promises
    rw [hnil] at hsub
    exact h (List.subset_nil.1 hsub)
  have hkept' : Kept i fun s => (Clear mine i s ∧ Shipped i descriptor target s) ∧
      s.ended := ((kept_quiet []).and (kept_shipped _)).and kept_ended
  have hcomp : Does i (fun s => (Clear mine i s ∧ Shipped i descriptor target s) ∧
      s.ended) moveCompletion
      (fun _ s => (Clear mine i s ∧ Shipped i descriptor target s) ∧ s.ended)
      fun _ s => (Clear mine i s ∧ Shipped i descriptor target s) ∧ s.history.audited :=
    meets_post (does_moveCompletion target hkept' fun s h => h.1.2) (fun _ _ _ h => h)
      fun _ _ _ h => ⟨h.1.1, h.2⟩
  refine meets_try (M := fun _ s => (Clear mine i s ∧ Shipped i descriptor target s) ∧ s.ended)
    (N := fun _ s => ((Clear mine i s ∧ Shipped i descriptor target s) ∧ s.ended) ∧
      s.history.promises ≠ []) ?_ (fun _ => hcomp) fun _ => ?_
  · refine does_beginEnd (((kept_quiet []).and (kept_shipped _)).and (kept_of_grows hprom))
      (fun s hI hs hst => ?_) (fun s _ h hst => ?_)
      fun s _ h hst => ⟨⟨h.1, h.1.2.state.resolve_left hst⟩, h.2⟩
    · have hlive := live_of_state hst rfl
      have hshipp := hs.1.2
      have hhand := thread_handler hshipp.holder
      refine ⟨owed_terminate hI hlive rfl (.inl hhand),
        ⟨hs.1.1.terminate _ hlive hI fun _ => trivial, ?_⟩, rfl⟩
      have hhold : (s.terminate i cancelRecord).history.holder = s.history.holder := by
        simp [EntryStore.terminate, hshipp.holder]
      exact ⟨⟨⟨hhold.trans hshipp.holder, hshipp.drawn, hshipp.move, hshipp.owner,
        hshipp.retention, hshipp.settling⟩, hshipp.logical⟩, .inr rfl, .inr (.inl rfl)⟩
    · exact ⟨⟨h.1, by simp [EntryStore.ended, hst]⟩, h.2⟩
  · refine meets_bind (M := fun _ s => (Clear mine i s ∧
      Shipped i descriptor target s) ∧ s.ended) ?_ fun _ => ?_
    · exact meets_modify (hkept'.and (kept_of_grows hprom)) fun s hI hs =>
        ⟨owed_putBack hI hs.2, ⟨{ hs.1.1.1 with }, { hs.1.1.2 with }⟩, hs.1.2⟩
    refine meets_bind (does_know (K := fun state _ => state = .terminating) hkept'
      fun s hI h => terminating_of_kept hI h.1.2.settling h.2) fun state => ?_
    split_ifs with hst
    · exact fun s _ h => absurd h.2 hst
    · exact meets_pre hcomp fun s _ h => h.1

/-- Only the mover looks for a request, so nobody else moves the handover on. -/
theorem kept_handover (handover : Handover) :
    Kept i fun s => (Clear mine i s ∧ Shipped i descriptor target s) ∧
      s.history.handover = handover := by
  intro s s' hI hI' hR hs
  exact ⟨((kept_quiet []).and (kept_shipped _)) s s' hI hI' hR hs.1,
    (hR.held (thread_handler hs.1.2.holder)).handover.trans hs.2⟩

theorem does_publishMove :
    Does i (fun s => Clear mine i s ∧ Packed i descriptor target s ∧ Moving s)
      (publishMove i descriptor.moveEpoch)
      (fun _ s => (Clear mine i s ∧ Shipped i descriptor target s) ∧
        (s.history.handover = .idle ∨ s.ended))
      fun _ => Stopped mine i descriptor.moveEpoch [] := by
  have hkept : Kept i fun s => Clear mine i s ∧ Packed i descriptor target s ∧
      Moving s := (kept_quiet []).and (kept_packing target)
  refine meets_bind (does_activeMove hkept hkept (fun s h => h.1.move)
    (fun s h => h.elim (·.1.drawn) (·.1.drawn)) (fun s _ h _ => h)
    fun s h hst => (h.2.resolve_left hst).2) fun found => ?_
  by_cases hfnd : found = descriptor
  swap
  · exact fun s _ h => absurd h.1 hfnd
  subst hfnd
  refine meets_pre (does_check hkept (fun s _ h hret => absurd h.2.1.retention hret)
    fun _ _ => ?_) fun s _ h => h.2
  refine does_check hkept (fun s _ h hown => absurd h.2.1.owner hown) fun _ _ => ?_
  refine meets_bind (M := fun _ s => (Clear mine i s ∧ Shipped i found target s) ∧
    s.history.handover = .unseen) ?_ fun _ => ?_
  · refine does_swapIf hkept (fun s hI hs hst => ?_) fun s _ hs hst => ?_
    · have hst : s.state = .moving := by simpa using hst
      have hlive := live_of_state hst rfl
      refine ⟨owed_publishMove hI hs.2.1.holder hst hs.2.1.retention,
        ⟨{ hs.1 with settler := fun h => ?_ }, ⟨⟨{ hs.2.1.toBoxed with }, hs.2.1.logical⟩, .inl rfl,
          .inl (hI.live hlive).pending⟩⟩, rfl⟩
      simp [(hI.live hlive).settler] at h
    · exact ⟨hs.1, (hs.2.2.resolve_left (by simpa using hst)).2, hs.2.1.drawn⟩
  have hstop : ∀ s, (Clear mine i s ∧ Shipped i found target s) ∧ s.history.audited →
      Stopped mine i found.moveEpoch [] s := fun s h => ⟨h.1.1, h.2, h.1.2.drawn⟩
  refine meets_bind (M := fun requested s => (Clear mine i s ∧ Shipped i found target s) ∧
    cond requested (s.history.promises ≠ []) (s.history.handover = .idle)) ?_ fun requested => ?_
  · refine meets_atomic (kept_handover target _) fun s hI hs =>
      ⟨owed_look hI hs.1.2.holder hs.2 hs.1.2.state, ⟨{ hs.1.1 with }, { hs.1.2 with }⟩, ?_⟩
    cases hreqd : s.cancelRequested with
    | true => exact hI.requested.flag hreqd
    | false => rfl
  cases requested with
  | true =>
    exact meets_post (does_answerRequest target) (fun _ s _ h => ⟨h.1, .inr h.2⟩)
      fun _ s _ h => hstop s h
  | false =>
    exact meets_post (does_moveCompletion target (kept_handover target _) fun s h => h.1.2)
      (fun _ s _ h => ⟨h.1, .inl h.2⟩) fun _ s _ h => hstop s ⟨h.1.1, h.2⟩

/-! ## Arriving -/

/-- The container has refused the task. -/
structure Returned (i : ℕ) (descriptor : MoveDescriptor) (s : EntryStore) : Prop where
  holder : s.history.holder = .handler i
  drawn : Drawn i descriptor.moveEpoch s
  move : Described descriptor s
  state : s.state = .queued ∨ s.ended
  retention : s.physicalRetention.settles

theorem kept_returned : Kept i (Returned i descriptor) := by
  intro s s' _ _ hR hs
  have hhand := thread_handler hs.holder
  have hheld := hR.held hhand
  exact ⟨hheld.holder.trans hs.holder, grows_drawn s s' hR.grows hs.drawn,
    described_kept hR hhand hs.drawn hs.move, state_kept hR hhand hs.state,
    settles_kept hheld hs.retention⟩

theorem Returned.terminate (h : Returned i descriptor s) (record : TerminalRecord) :
    Returned i descriptor (s.terminate i record) :=
  ⟨by simp [EntryStore.terminate, h.holder], h.drawn, h.move, .inr rfl, h.retention⟩

/-- The mover clears up after itself, and then nothing keeps it from finalizing. -/
theorem does_clearReturned (hP : Kept i P)
    (hsame : ∀ s, P s → P { s with
      moveDescriptor := none
      history.audited := s.history.audited || false }) :
    Does i (fun s => ((Clear mine i s ∧ Returned i descriptor s) ∧ P s) ∧ s.ended)
      ((clearInactiveMove false descriptor.moveEpoch).attempt)
      (fun _ s => ((Clear mine i s ∧ Free i s) ∧ P s) ∧ s.ended) E := by
  refine meets_attempt (does_check ((((kept_quiet []).and kept_returned).and hP).and kept_ended)
    (fun s _ h hmov => ?_) fun _ _ => ?_)
  · have hend := h.2
    simp [EntryStore.ended, hmov, EntryState.isTerminal] at hend
  refine does_clearMove false ((((kept_quiet []).and kept_returned).and hP).and kept_ended)
    (fun s h => .inr h.1.1.2.drawn) (fun s _ h => ?_)
    fun s _ h hnone => ?_
  · have hret := h.1.1.2
    exact ⟨⟨⟨{ h.1.1.1 with }, thread_handler hret.holder, hret.retention, rfl⟩,
      hsame s h.1.2⟩, h.2⟩
  · have hret := h.1.1.2
    rcases hret.move with hsome | ⟨hmove, -⟩
    · exact absurd rfl (hnone descriptor hsome)
    · exact ⟨⟨⟨h.1.1.1, thread_handler hret.holder, hret.retention, hmove⟩, h.1.2⟩, h.2⟩

theorem does_arrive (accepted : Bool)
    (hown : descriptor.targetOwner = target.owner) :
    Does i (fun s => (Clear mine i s ∧ Shipped i descriptor target s) ∧
        (s.history.handover = .idle ∨ s.ended)) (arrive i descriptor.moveEpoch target accepted)
      (fun _ => Over mine i) E := by
  have hkept : Kept i fun s => (Clear mine i s ∧ Shipped i descriptor target s) ∧
      (s.history.handover = .idle ∨ s.ended) := by
    intro s s' hI hI' hR hs
    refine ⟨((kept_quiet []).and (kept_shipped _)) s s' hI hI' hR hs.1, ?_⟩
    rw [(hR.held (thread_handler hs.1.2.holder)).handover]
    exact hs.2.imp id hR.grows.ended
  unfold arrive
  split_ifs with hacc
  · refine meets_bind (M := fun _ s => Quiet mine False i [] s ∧
      Drawn i descriptor.moveEpoch s) ?_ fun _ => ?_
    · refine meets_modify hkept fun s hI hs => ⟨?_, ?_, hs.1.2.drawn⟩
      · have hshipp := hs.1.2
        refine owed_push hI (thread_handler hshipp.holder)
          (by simp [hshipp.holder, Holder.isPlaced]) hshipp.logical hshipp.retention
          hshipp.settling (hshipp.owner.trans hown) (fun d hd => ?_) hshipp.state hs.2
        rcases hshipp.move with hsome | ⟨hnone, -⟩
        · rw [hd, Option.some.injEq] at hsome
          exact hsome ▸ hown
        · simp [hd] at hnone
      · exact ⟨hs.1.1.owed, hs.1.1.finisher, hs.1.1.settler, fun _ h => (by cases h),
          hs.1.1.canceller, fun h => by cases h⟩
    refine meets_bind (does_clearInactiveMove false ((kept_quiet []).and
      (kept_of_grows grows_drawn)) (fun s h => .inr h.2) fun s h =>
      ⟨{ h.1 with }, h.2⟩) fun _ => ?_
    exact meets_post (does_finishMoving ((kept_quiet []).and (kept_of_grows grows_drawn)) fun s h =>
      ⟨{ h.1 with }, h.2⟩)
      (fun _ _ _ h => h.1.over) fun _ _ _ h => h
  · refine meets_bind (M := fun _ s => ((Clear mine i s ∧
      Shipped i descriptor target s) ∧ (s.history.handover = .idle ∨ s.ended)) ∧
        s.history.refused) ?_ fun _ => ?_
    · exact meets_modify hkept fun s hI hs =>
        ⟨owed_refused hI, ⟨⟨{ hs.1.1 with }, { hs.1.2 with }⟩, hs.2⟩, rfl⟩
    refine meets_bind (M := fun _ s => (Clear mine i s ∧ Returned i descriptor s) ∧
      s.history.refused) ?_ fun _ => ?_
    · refine meets_attempt (does_swapIf (hkept.and kept_refused) (fun s hI hs _ => ?_)
        fun s _ hs hno => ?_)
      · have hshipp := hs.1.1.2
        exact ⟨owed_retention hI (thread_handler hshipp.holder) (by simp [hshipp.holder])
          (.inr rfl) (.inr hs.1.2), ⟨{ hs.1.1.1 with }, hshipp.holder, hshipp.drawn,
          hshipp.move, hshipp.state, rfl⟩, hs.2⟩
      · simp [hs.1.1.2.retention] at hno
    refine meets_bind (M := fun _ s => ((Clear mine i s ∧ Returned i descriptor s) ∧
      s.history.refused) ∧ s.ended) ?_ fun _ => ?_
    · refine meets_attempt (does_failFrom _ (((kept_quiet []).and kept_returned).and
        kept_refused) (.inr rfl) (by simp) (by simp [EntryState.isTerminal])
        (fun s _ h _ => .inl (thread_handler h.1.2.holder)) (fun s hI h hst => ?_)
        fun _ s _ h hst => ⟨h, h.1.2.state.resolve_left hst⟩)
      have hlive := live_of_state hst rfl
      exact ⟨⟨⟨h.1.1.terminate _ hlive hI fun _ => trivial, h.1.2.terminate _⟩, h.2⟩, rfl⟩
    have hfree : Kept i fun s => ((Clear mine i s ∧ Free i s) ∧ s.history.refused) ∧
        s.ended := (((kept_quiet []).and kept_free).and kept_refused).and kept_ended
    refine meets_bind (M := fun _ s => ((Clear mine i s ∧ Free i s) ∧ s.history.refused) ∧
      s.ended) (does_clearReturned kept_refused fun s h => h) fun _ => ?_
    refine meets_bind (does_finishMoving hfree fun s h =>
      ⟨⟨⟨{ h.1.1.1 with }, { h.1.1.2 with }⟩, h.1.2⟩, h.2⟩) fun _ => ?_
    refine meets_bind (does_failType hfree (fun s h => .inr (.inr (.inr (.inl h.1.2)))) fun s h =>
      ⟨⟨⟨{ h.1.1.1 with }, { h.1.1.2 with }⟩, h.1.2⟩, h.2⟩) fun _ => ?_
    exact meets_pre does_finalize_over fun s _ h => ⟨h.1.1.1, h.1.1.2, h.2⟩

/-! ## Moves -/

/-- A move that an audit has stopped is given up. -/
theorem does_giveUpMove (reason : String) :
    Does i (Stopped mine i epoch []) (failActiveMove i false epoch reason)
      (fun _ => Over mine i) E :=
  meets_mono (does_failActiveMove false reason) (fun _ _ h => ⟨h.1, h.2.1, .inr h.2.2⟩)
    (fun _ _ _ h => ⟨h.1, fun _ => .inr (.inl h.2.1)⟩) fun _ _ _ h => h

theorem does_abandonMove (account : Account) (reason : String) :
    Does i (Stopped mine i epoch [account])
      (release i account >>= fun _ => failActiveMove i false epoch reason)
      (fun _ => Over mine i) E := by
  refine meets_bind (does_giveBack account [] (kept_of_grows fun s s' hg h =>
    ⟨hg.audited h.1, grows_drawn s s' hg h.2⟩) fun s h => h) fun _ => ?_
  exact does_giveUpMove reason

theorem does_carryOver (descriptor : MoveDescriptor) (target : LogicalOwner) (accepted : Bool)
    (hopen : descriptor.sourceOwner.isTerminal = false)
    (hown : descriptor.targetOwner = target.owner) :
    Does i (fun s => Clear mine i s ∧ Carrying i descriptor descriptor.sourceOwner .handling s)
      (carryOver i descriptor.moveEpoch target accepted) (fun _ => Over mine i) E := by
  refine meets_bind (does_acquire target.account (kept_carrying _ _) fun s h => { h with })
    fun _ => ?_
  refine meets_try (meets_bind (does_transferMoveOwner hopen) fun _ =>
    does_prepareMoveContainer _) (fun _ => ?_) fun _ => does_abandonMove _ _
  refine meets_try (does_replaceLogicalOwner target) (fun old => ?_) fun _ => does_abandonMove _ _
  refine meets_bind (does_giveBack old.account [] (kept_packing target) fun s h =>
    ⟨⟨{ h.1.toBoxed with }, h.1.logical⟩, h.2⟩) fun _ => ?_
  exact meets_try (does_publishMove target) (fun _ => does_arrive target accepted hown)
    fun _ => does_giveUpMove _

theorem does_moveEntry (source : ℕ) (stage : MoveStage) (target : ℕ) (accepted : Bool)
    {owner : Owner} (hsrc : Source stage source owner) :
    Does i (fun s => Clear mine i s ∧ Handled i owner s)
      (moveEntry i source stage target accepted) (fun _ => Over mine i) E := by
  refine meets_bind (meets_outcome (does_prepareMove stage source target hsrc)) fun prepared => ?_
  cases prepared with
  | error e =>
    refine meets_bind (does_see (((kept_quiet []).and (kept_handled _)).and
      (kept_of_grows fun _ _ hg h => h.imp hg.ended hg.blamed))) fun state => ?_
    split_ifs with hterm htermi
    · exact does_finalize_seen hterm fun s h => ⟨h.1.1, h.1.2.toFree⟩
    · exact meets_pure fun s hI h =>
        ⟨h.1.1.1, fun _ => .inl (.inl (settled_of_terminal hI (h.2 ▸ htermi)))⟩
    · refine meets_mono (does_recordAuthorityFailure_calm _)
        (fun s _ h => ⟨⟨h.1.1.1, h.1.1.2.waiting⟩, h.1.2.resolve_left fun hend => ?_⟩)
        (fun _ _ _ h => ⟨h.1, fun _ => h.2⟩) fun _ _ _ h => h
      rcases ended_iff.1 hend with hs | hs
      · exact hterm (h.2.symm.trans hs)
      · exact htermi (h.2 ▸ hs)
  | ok epoch =>
    -- The owner that was found is the same for all stores, so it is fixed before the next step.
    intro s hI hs
    obtain ⟨found, hfnd, hs⟩ := hs
    revert hs hI
    revert s
    refine meets_bind (M := fun _ s => Clear mine i s ∧
      Prepared i ⟨stage, source, found, target, epoch⟩ s) ?_ fun _ => ?_
    · exact meets_modify ((kept_quiet []).and kept_prepared) fun s hI h =>
        ⟨owed_moving hI true, { h.1 with }, { h.2 with }⟩
    refine meets_try (does_activateMove ⟨stage, source, found, target, epoch⟩) (fun _ => ?_)
      fun _ => does_dropPreparedMove ⟨stage, source, found, target, epoch⟩
    exact does_carryOver ⟨stage, source, found, target, epoch⟩ _ accepted
      (by rcases hfnd with rfl | ⟨-, rfl⟩ <;> rfl) (by cases stage <;> rfl)

/-! ## Consumers -/

/-- Whatever the consumer plans for a claimed task, it does not leave it. -/
theorem does_handle (slot : ℕ) (plan : Plan) :
    Does i (fun s => Clear mine i s ∧ Handled i (.slot slot) s) (handle i slot plan)
      (fun _ => Over mine i) E := by
  induction plan with
  | keep later ih =>
    exact does_unlessEnded (kept_handled _) (fun _ h => h.toFree)
      (meets_pre ih fun s _ h => ⟨h.1, h.2.2⟩)
  | move stage target accepted => exact does_moveEntry slot stage target accepted (.inl rfl)
  | fail reason => exact meets_pre (does_failBeforeRunning reason) fun s _ h => ⟨h.1, h.2.waiting⟩
  | drop =>
    exact does_unlessEnded (kept_handled _) (fun _ h => h.toFree)
      (meets_pre (does_backstop _) fun s _ h => ⟨h.1, h.2.1, h.2.2.waiting⟩)
  | run runEnd =>
    exact does_unlessEnded (kept_handled _) (fun _ h => h.toFree)
      (meets_pre (does_runBusiness slot runEnd) fun s _ h => ⟨h.1, h.2.2⟩)

theorem does_pop :
    Does i (Quiet mine False i []) (pop i)
      (fun item s => match item with
        | none => Quiet mine False i [] s
        | some logical => Clear mine i s ∧ Popped i logical.owner s) E := by
  refine meets_atomic (kept_quiet []) fun s hI hs => ?_
  cases hit : s.items with
  | nil => exact ⟨Owed.refl hI, hs⟩
  | cons logical items =>
    obtain ⟨hhold, -, -, hret, hsett, hown, hmove⟩ := holder_of_items hI hit
    refine ⟨owed_pop hI hit, ⟨hs.owed, hs.finisher, hs.settler, nofun,
      hs.canceller, fun _ => trivial⟩, rfl, hret, hsett, hown, hmove, ?_, ?_⟩
    · refine hI.custody.admits.imp (fun h => ?_) fun h => h.1
      cases hst : s.state <;> simp_all [Holder.admits, EntryStore.pop]
    · rcases live_or_ended s with hlive | hend
      · have hidle : s.history.handover = .idle :=
          handover_idle hI hlive (.inr (.inr fun k => by simp [hhold]))
        exact .inl hidle
      · exact .inr hend

theorem does_takeOver (consumer : Consumer) {claim rest : EntryProg Unit} {owner expected : Owner}
    (hclaim : Does i (fun s => Clear mine i s ∧ Popped i owner s) claim
      (fun _ s => Clear mine i s ∧ Handled i expected s) fun _ _ => False)
    (hrest : Does i (fun s => Clear mine i s ∧ Handled i expected s) rest
      (fun _ => Over mine i) E) :
    Does i (fun s => Clear mine i s ∧ Popped i owner s) (takeOver i consumer claim rest)
      (fun _ => Over mine i) E := by
  refine meets_try hclaim (fun _ => ?_) fun _ s _ h => h.elim
  simp only
  split_ifs with hlooks
  · refine meets_bind (does_see ((kept_quiet []).and (kept_handled _))) fun state => ?_
    split_ifs with hterm
    · exact does_finalize_seen hterm fun s h => ⟨h.1, h.2.toFree⟩
    · exact meets_pre hrest fun s _ h => h.1
  · exact hrest

theorem does_deliver (consumer : Consumer) (logical : LogicalOwner) :
    Does i (fun s => Clear mine i s ∧ Popped i logical.owner s)
      (deliver i consumer logical) (fun _ => Over mine i) E := by
  unfold deliver
  split_ifs with hcont
  · rw [show logical.owner = .returnStaging by simp [LogicalOwner.owner, hcont]]
    cases consumer.staging with
    | catchUp slot plan =>
      exact does_takeOver consumer (does_claimReturnStaging slot) (does_handle slot plan)
    | giveBack target accepted =>
      exact does_takeOver consumer (does_claimContainer _)
        (does_moveEntry _ _ target accepted (.inr ⟨rfl, rfl⟩))
    | fail reason =>
      exact does_takeOver consumer (does_claimContainer _)
        (meets_pre (does_failBeforeRunning reason) fun s _ h => ⟨h.1, h.2.waiting⟩)
  · rw [show logical.owner = .slot logical.slot by
      cases h : logical.container <;> simp_all [LogicalOwner.owner]]
    exact does_takeOver consumer (does_claimContainer _) (does_handle _ _)

theorem does_consume (consumer : Consumer) :
    Does i (Quiet mine False i []) (consume i consumer) (fun _ => Over mine i) E := by
  refine meets_bind does_pop fun item => ?_
  cases item with
  | none => exact meets_pure fun s _ h => h.over
  | some logical =>
    simp only
    split_ifs with hlooks
    · refine meets_bind (does_see ((kept_quiet []).and (kept_popped _))) fun state => ?_
      split_ifs with hterm
      · exact meets_pure fun s hI h =>
          ⟨h.1.1, fun _ => .inl (.inl (settled_of_terminal hI (h.2 ▸ hterm)))⟩
      · exact meets_pre (does_deliver consumer logical) fun s _ h => h.1
    · exact does_deliver consumer logical

end TaskEntry

end NasaRuntime.Napart
