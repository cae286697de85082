import NasaRuntime.Napart.TaskEntry

/-!
# What the users of a task entry rely on

A task is in the hands of one thread at a time, or in a container, or waits to be published
(`Holder`). The thread that has it in hand relies on what the others leave alone (`HeldKept`): they
may end the task, unless it runs or is being moved, and finalize it once it has ended and is in no
container, and that is all.
-/

namespace NasaRuntime.Napart

open EntryStore History

namespace Holder

/-- The thread that has the task in hand. -/
def thread : Holder → Option ℕ
  | .producer i | .placed i | .handler i | .closer i => some i
  | .fresh | .queued => none

/-- The states of a task that has not ended. -/
def admits : Holder → EntryState → Bool
  | .fresh, .delayed => true
  | .producer _, .enqueueing => true
  | .placed _, .queued => true
  | .queued, .queued => true
  | .handler _, .queued => true
  | .handler _, .moving => true
  | .handler _, .running => true
  | _, _ => false

/-- The task was published, or was ended before that. -/
def isLaunched : Holder → Bool
  | .fresh | .producer _ => false
  | .placed _ | .queued | .handler _ | .closer _ => true

/-- The task was made queued. -/
def isPlaced : Holder → Bool
  | .placed _ | .queued | .handler _ => true
  | .fresh | .producer _ | .closer _ => false

end Holder

namespace EntryStore

/-- What thread `i` has to give back. -/
def owedBy (s : EntryStore) (i : ℕ) : List Account :=
  (s.history.owed.filter (·.1 = i)).map (·.2)

/-- What is kept in the entry. -/
def stored (s : EntryStore) : Account → ℕ
  | .logical => s.logicalOwner.isSome.toNat
  | .container slot main =>
    (decide (s.logicalOwner.map (·.account) = some (.container slot main))).toNat
  | .queued => s.queuedPermit.toNat
  | .global => s.globalPermit.toNat

def acquired (s : EntryStore) (account : Account) : ℕ :=
  s.history.ledger.count (.acquired account)

def released (s : EntryStore) (account : Account) : ℕ :=
  s.history.ledger.count (.released account)

/-- Somebody has closed the owner, or the record is set. -/
def Settled (s : EntryStore) : Prop := s.terminal.isSome ∨ s.history.finishers ≠ []

/-- Something else than a cancellation and a move has happened, or they have met where they must
not. -/
def Blamed (s : EntryStore) : Prop :=
  s.history.audited ∨ s.history.crossed ∨ s.history.collided ∨ s.history.refused ∨
    u64Max ≤ s.nextMoveEpoch

/-- The payload was not taken. -/
def Unstarted (s : EntryStore) : Prop := s.state ≠ .running ∧ .taken ∉ s.history.notes

/-- The task ends, or has ended, in this state. -/
def EndsIn (s : EntryStore) (state : EntryState) : Prop :=
  ∃ record, (s.pendingTerminal = some record ∨ s.terminal = some record) ∧ record.state = state

/-- Somebody has failed or rejected the task before it was started. -/
def Dismissed (s : EntryStore) : Prop := s.Unstarted ∧ (s.EndsIn .failed ∨ s.EndsIn .rejected)

end EntryStore

def EntryNote.isPublished : EntryNote → Bool
  | .published _ => true
  | _ => false

def EntryNote.isRan : EntryNote → Bool
  | .ran _ => true
  | _ => false

namespace TaskEntry

/-! ## The invariant -/

/-- How a task ends. -/
structure Ending (s : EntryStore) : Prop where
  settling : s.history.settling → s.ended
  finishers : s.history.finishers ≠ [] → s.history.settling
  closed : s.owner.isTerminal → s.history.finishers ≠ []
  reopened : s.history.finishers ≠ [] → s.owner.isTerminal ∨ s.history.shifted
  single : s.history.finishers.length ≤ 1 ∨ s.history.shifted
  collected : s.history.collected → s.history.settling ∧ s.logicalOwner = none
  terminal : s.terminal.isSome → s.history.collected
  settler : s.terminal.isSome = s.history.settler.isSome
  settles : ∀ k, s.history.settler = some k → k ∈ s.history.finishers
  status : s.state.isTerminal → ∃ record, s.terminal = some record ∧ record.state = s.state
  pending : ∀ record, s.pendingTerminal = some record →
    s.state = .terminating ∧ record.state.isTerminal
  record : s.state = .terminating → s.pendingTerminal.isSome ∨ s.terminal.isSome
  kept : ∀ record, s.terminal = some record → record.state.isTerminal
  blocked : s.history.blocked → s.ended
  collided : s.history.collided → s.ended
  shifted : s.history.shifted → s.ended ∧ (s.history.crossed ∨ s.history.audited)

/-- A task in a container. -/
def Contained (s : EntryStore) (place : LogicalOwner) : Prop :=
  s.items = [place] ∧ s.logicalOwner = some place ∧ s.physicalRetention = .container ∧
    s.history.settling = false ∧ s.owner = place.owner ∧
    ∀ descriptor, s.moveDescriptor = some descriptor → descriptor.targetOwner = place.owner

/-- Who has the task. -/
structure Custody (s : EntryStore) : Prop where
  admits : s.history.holder.admits s.state ∨ s.ended ∧ s.history.holder ≠ .fresh
  fresh : s.history.holder = .fresh → s.delayed = false → s.history.taker.isSome
  table : s.delayed → s.history.taker = none
  shifted : s.history.shifted → ∃ i, s.history.holder = .producer i
  unplaced : s.history.holder.isPlaced = false → s.logicalOwner = none ∧ s.moveDescriptor = none
  loose : s.history.holder = .fresh ∨ (∃ i, s.history.holder = .closer i) →
    s.physicalRetention = .detached
  placed : s.history.holder.isPlaced → s.history.collected = false → s.logicalOwner.isSome
  queued : s.history.holder = .queued → ∃ place, Contained s place
  items : s.history.holder ≠ .queued → s.items = []
  retention : s.physicalRetention = .container ∨ s.physicalRetention.settles

/-- Nothing is given back twice, and nothing is lost. -/
def Balanced (s : EntryStore) : Prop :=
  ∀ account, s.acquired account =
    s.released account + s.stored account + s.history.owed.countP (·.2 = account)

/-- What happens to the payload, and the status. -/
structure Payload (s : EntryStore) : Prop where
  taken : .taken ∈ s.history.notes → s.task = false ∧ (s.state = .running ∨ s.ended)
  takenOnce : s.history.notes.count .taken ≤ 1
  present : s.task = false → s.history.settling ∨ .taken ∈ s.history.notes
  ran : ∀ state, .ran state ∈ s.history.notes → state = .running ∧ .taken ∈ s.history.notes
  published : ∀ state, .published state ∈ s.history.notes → s.state = state ∧ state.isTerminal
  publishedOnce : s.history.notes.countP (·.isPublished) ≤ 1
  noted : s.state.isTerminal → .published s.state ∈ s.history.notes
  order : s.history.notes.Pairwise fun before after => before.isPublished → after.isRan = false

/-- Every descriptor has an epoch that was drawn. -/
structure Numbered (s : EntryStore) : Prop where
  drawn : s.nextMoveEpoch = s.history.epochs.length
  descriptor : ∀ descriptor, s.moveDescriptor = some descriptor →
    0 < descriptor.moveEpoch ∧ descriptor.moveEpoch ≤ s.history.epochs.length

/-- Requests to cancel. -/
structure Requested (s : EntryStore) : Prop where
  flag : s.cancelRequested → s.history.promises ≠ []
  /-- A task that is cancelled has ended, or the mover will look. -/
  promised : s.history.promises ≠ [] → s.history.late ∨
    s.Unstarted ∧ (s.ended ∨ s.state = .moving ∧ s.cancelRequested ∨
      s.history.handover = .unseen ∧ s.cancelRequested ∨ s.history.handover = .seen)
  handover : s.history.handover ≠ .idle → s.ended = false →
    s.physicalRetention = .container ∧ s.state = .queued ∧ ∃ i, s.history.holder = .handler i
  canceller : s.history.canceller.isSome → s.ended

structure EntryInv (s : EntryStore) : Prop where
  ending : Ending s
  custody : Custody s
  balanced : Balanced s
  payload : Payload s
  numbered : Numbered s
  requested : Requested s
  blame : s.typeFailed ∨ s.recorded ≠ 0 ∨ s.stopped → s.Blamed

/-! ## What threads rely on -/

/-- What never goes back. -/
structure Grows (s s' : EntryStore) : Prop where
  ended : s.ended → s'.ended
  final : s.state.isTerminal → s'.state = s.state
  terminal : ∀ record, s.terminal = some record → s'.terminal = some record
  settling : s.history.settling → s'.history.settling
  collected : s.history.collected → s'.history.collected
  finishers : s.history.finishers ⊆ s'.history.finishers
  settler : ∀ k, s.history.settler = some k → s'.history.settler = some k
  fresh : s.history.holder ≠ .fresh → s'.history.holder ≠ .fresh
  launched : s.history.holder.isLaunched → s'.history.holder.isLaunched
  notes : s.history.notes ⊆ s'.history.notes
  epochs : s.history.epochs <+: s'.history.epochs
  epoch : s.nextMoveEpoch ≤ s'.nextMoveEpoch
  promises : s.history.promises ⊆ s'.history.promises
  running : s.state = .running → s'.state = .running ∨ s'.ended
  canceller : ∀ c, s.history.canceller = some c → s'.history.canceller = some c
  taker : ∀ t, s.history.taker = some t → s'.history.taker = some t
  audited : s.history.audited → s'.history.audited
  late : s.history.late → s'.history.late
  blocked : s.history.blocked → s'.history.blocked
  collided : s.history.collided → s'.history.collided
  crossed : s.history.crossed → s'.history.crossed
  shifted : s.history.shifted → s'.history.shifted
  refused : s.history.refused → s'.history.refused

/-- What the others leave alone of a task that thread `i` has in hand. -/
structure HeldKept (i : ℕ) (s s' : EntryStore) : Prop where
  holder : s'.history.holder = s.history.holder
  state : s'.state = s.state ∨ s.ended ∨
    s'.ended ∧ (s'.history.canceller.isSome ∨ s'.history.audited) ∧ s.state ≠ .running ∧
      (s.state = .moving → s'.history.audited) ∧
      (s.state = .enqueueing → s'.history.crossed ∨ s'.history.audited)
  pending : s.physicalRetention = .container → s.history.settling = false →
    s'.pendingTerminal = s.pendingTerminal ∨ s'.pendingTerminal = some cancelRecord ∨
      s'.history.audited
  retention : s'.physicalRetention = s.physicalRetention ∨
    s'.physicalRetention = .detached ∧ s'.history.settling
  /-- Nobody finalizes a task in a container. -/
  kept : s.physicalRetention = .container → s.history.settling = false →
    s'.physicalRetention = .container ∧ s'.history.settling = false
  owner : s'.owner = s.owner ∨ s'.owner.isTerminal ∧ s'.history.finishers ≠ []
  move : s'.moveDescriptor = s.moveDescriptor ∨
    s'.moveDescriptor = none ∧ (s'.history.audited ∨
      ∃ descriptor, s.moveDescriptor = some descriptor ∧
        s.history.epochs[descriptor.moveEpoch - 1]? ≠ some i)
  logical : s'.logicalOwner = s.logicalOwner ∨ s'.history.collected
  handover : s'.history.handover = s.history.handover
  handle : s.history.holder = .producer i → s'.handle = s.handle
  shifted : s'.history.shifted = s.history.shifted
  blocked : s.physicalRetention.settles → s'.history.blocked = s.history.blocked
  collided : s.moveDescriptor = none → s'.history.collided = s.history.collided
  task : s.state = .running → s'.task = s.task

/-- What thread `i` relies on. -/
structure EntryRely (i : ℕ) (s s' : EntryStore) : Prop where
  grows : Grows s s'
  owed : s'.owedBy i = s.owedBy i
  finisher : i ∈ s'.history.finishers → i ∈ s.history.finishers
  settler : s'.history.settler = some i →
    s.history.settler = some i ∧ s'.state = s.state ∧ s'.pendingTerminal = s.pendingTerminal
  taker : s'.history.taker = some i → s.history.taker = some i
  canceller : s'.history.canceller = some i → s.history.canceller = some i
  promise : i ∈ s'.history.promises → i ∈ s.history.promises
  hand : s'.history.holder.thread = some i → s.history.holder.thread = some i
  /-- Once somebody finalizes, the owner is only closed. -/
  owner : s.history.settling → s'.owner = s.owner ∨ s'.owner.isTerminal ∨ s'.history.audited ∨
    s'.history.shifted
  held : s.history.holder.thread = some i → HeldKept i s s'

theorem Grows.refl (s : EntryStore) : Grows s s := by
  constructor <;> first
    | exact List.Subset.refl _
    | exact List.prefix_refl _
    | exact le_rfl
    | exact fun h => .inl h
    | exact fun _ h => h
    | exact fun _ => rfl
    | exact fun h => h

theorem HeldKept.refl (i : ℕ) (s : EntryStore) : HeldKept i s s := by
  constructor <;> first
    | exact rfl
    | exact .inl rfl
    | exact fun _ _ => .inl rfl
    | exact fun h h' => ⟨h, h'⟩
    | exact fun _ => rfl

theorem EntryRely.refl (i : ℕ) (s : EntryStore) : EntryRely i s s :=
  ⟨.refl s, rfl, id, fun h => ⟨h, rfl, rfl⟩, id, id, id, id, fun _ => .inl rfl, fun _ => .refl i s⟩

variable {i j : ℕ} {s s' s'' : EntryStore}

theorem Grows.trans (h : Grows s s') (h' : Grows s' s'') : Grows s s'' where
  ended hs := h'.ended (h.ended hs)
  final hs := by
    have heq := h.final hs
    exact (h'.final (heq ▸ hs)).trans heq
  terminal record hs := h'.terminal record (h.terminal record hs)
  settling hs := h'.settling (h.settling hs)
  collected hs := h'.collected (h.collected hs)
  finishers _ hs := h'.finishers (h.finishers hs)
  settler k hs := h'.settler k (h.settler k hs)
  fresh hs := h'.fresh (h.fresh hs)
  launched hs := h'.launched (h.launched hs)
  notes _ hs := h'.notes (h.notes hs)
  epochs := h.epochs.trans h'.epochs
  epoch := h.epoch.trans h'.epoch
  promises _ hs := h'.promises (h.promises hs)
  running hs := by
    rcases h.running hs with hrun | hend
    · exact h'.running hrun
    · exact .inr (h'.ended hend)
  canceller c hs := h'.canceller c (h.canceller c hs)
  taker t hs := h'.taker t (h.taker t hs)
  audited hs := h'.audited (h.audited hs)
  late hs := h'.late (h.late hs)
  blocked hs := h'.blocked (h.blocked hs)
  collided hs := h'.collided (h.collided hs)
  crossed hs := h'.crossed (h.crossed hs)
  shifted hs := h'.shifted (h.shifted hs)
  refused hs := h'.refused (h.refused hs)

theorem Grows.blamed (h : Grows s s') (hs : s.Blamed) : s'.Blamed := by
  rcases hs with hs | hs | hs | hs | hs
  · exact .inl (h.audited hs)
  · exact .inr (.inl (h.crossed hs))
  · exact .inr (.inr (.inl (h.collided hs)))
  · exact .inr (.inr (.inr (.inl (h.refused hs))))
  · exact .inr (.inr (.inr (.inr (hs.trans h.epoch))))

theorem Grows.finishers_ne (h : Grows s s') (hs : s.history.finishers ≠ []) :
    s'.history.finishers ≠ [] := by
  intro hnil
  have hsub := h.finishers
  rw [hnil] at hsub
  exact hs (List.subset_nil.1 hsub)

theorem Grows.settled (h : Grows s s') (hs : s.Settled) : s'.Settled := by
  rcases hs with hterm | hfin
  · obtain ⟨record, hrec⟩ := Option.isSome_iff_exists.1 hterm
    exact .inl (by rw [h.terminal record hrec]; rfl)
  · exact .inr (h.finishers_ne hfin)

theorem Grows.cancellerSome (h : Grows s s') (hs : s.history.canceller.isSome) :
    s'.history.canceller.isSome := by
  obtain ⟨c, hc⟩ := Option.isSome_iff_exists.1 hs
  rw [h.canceller c hc]
  rfl

/-- Who drew an epoch is known for good. -/
theorem Grows.drawn (h : Grows s s') {n : ℕ} (hs : s.history.epochs[n]? = some i) :
    s'.history.epochs[n]? = some i := by
  obtain ⟨more, hmore⟩ := h.epochs
  rw [← hmore]
  exact (List.getElem?_append_left (List.getElem?_eq_some_iff.1 hs).1).trans hs

theorem HeldKept.trans (hg : Grows s s') (hg' : Grows s' s'') (h : HeldKept i s s')
    (h' : HeldKept i s' s'') : HeldKept i s s'' where
  holder := h'.holder.trans h.holder
  state := by
    rcases h.state with heq | hend | ⟨hend, hwho, hrun, hmove, hqueue⟩
    · rcases h'.state with heq' | hend' | ⟨hend', hwho', hrun', hmove', hqueue'⟩
      · exact .inl (heq'.trans heq)
      · right; left
        simpa only [ended, heq] using hend'
      · rw [heq] at hrun' hmove' hqueue'
        exact .inr (.inr ⟨hend', hwho', hrun', hmove', hqueue'⟩)
    · exact .inr (.inl hend)
    · refine .inr (.inr ⟨hg'.ended hend, ?_, hrun, fun hs => hg'.audited (hmove hs), fun hs => ?_⟩)
      · exact hwho.imp hg'.cancellerSome hg'.audited
      · exact (hqueue hs).imp hg'.crossed hg'.audited
  pending hbox hset := by
    obtain ⟨hbox', hset'⟩ := h.kept hbox hset
    rcases h'.pending hbox' hset' with heq | hcanc | haud
    · rw [heq]
      exact (h.pending hbox hset).imp id (Or.imp id hg'.audited)
    · exact .inr (.inl hcanc)
    · exact .inr (.inr haud)
  retention := by
    rcases h'.retention with heq | hgone
    · rw [heq]
      exact h.retention.imp id fun hgone => ⟨hgone.1, hg'.settling hgone.2⟩
    · exact .inr hgone
  kept hbox hset := by
    obtain ⟨hbox', hset'⟩ := h.kept hbox hset
    exact h'.kept hbox' hset'
  owner := by
    rcases h'.owner with heq | hclos
    · rw [heq]
      exact h.owner.imp id fun hclos => ⟨hclos.1, hg'.finishers_ne hclos.2⟩
    · exact .inr hclos
  move := by
    rcases h.move with heq | ⟨hnone, hwhy⟩
    · rcases h'.move with heq' | ⟨hnone', hwhy'⟩
      · exact .inl (heq'.trans heq)
      · refine .inr ⟨hnone', hwhy'.imp id ?_⟩
        intro ⟨descriptor, hdesc, hoth⟩
        exact ⟨descriptor, heq ▸ hdesc, fun hmine => hoth (hg.drawn hmine)⟩
    · refine .inr ⟨?_, hwhy.imp hg'.audited id⟩
      rcases h'.move with heq' | ⟨hnone', -⟩
      · exact heq'.trans hnone
      · exact hnone'
  logical := by
    rcases h'.logical with heq | hcoll
    · rw [heq]
      exact h.logical.imp id hg'.collected
    · exact .inr hcoll
  handover := h'.handover.trans h.handover
  handle hs := (h'.handle (h.holder.trans hs)).trans (h.handle hs)
  shifted := h'.shifted.trans h.shifted
  blocked hs := by
    refine (h'.blocked ?_).trans (h.blocked hs)
    rcases h.retention with heq | ⟨hgone, -⟩
    · rwa [heq]
    · rw [hgone]
      rfl
  collided hs := by
    refine (h'.collided ?_).trans (h.collided hs)
    rcases h.move with heq | ⟨hnone, -⟩
    · rwa [heq]
    · exact hnone
  task hs := by
    have hstill : s'.state = .running := by
      rcases h.state with heq | hend | ⟨-, -, hrun, -⟩
      · exact heq.trans hs
      · simp [ended, hs, EntryState.isTerminal] at hend
      · exact absurd hs hrun
    exact (h'.task hstill).trans (h.task hs)

theorem EntryRely.trans (h : EntryRely i s s') (h' : EntryRely i s' s'') : EntryRely i s s'' where
  grows := h.grows.trans h'.grows
  owed := h'.owed.trans h.owed
  finisher hs := h.finisher (h'.finisher hs)
  settler hs := by
    obtain ⟨hmine', hst', hpend'⟩ := h'.settler hs
    obtain ⟨hmine, hst, hpend⟩ := h.settler hmine'
    exact ⟨hmine, hst'.trans hst, hpend'.trans hpend⟩
  taker hs := h.taker (h'.taker hs)
  canceller hs := h.canceller (h'.canceller hs)
  promise hs := h.promise (h'.promise hs)
  hand hs := h.hand (h'.hand hs)
  owner hs := by
    rcases h'.owner (h.grows.settling hs) with heq | hrest
    · rw [heq]
      exact (h.owner hs).imp id (Or.imp id (Or.imp h'.grows.audited h'.grows.shifted))
    · exact .inr hrest
  held hs := by
    have hheld := h.held hs
    have hs' : s'.history.holder.thread = some i := hheld.holder ▸ hs
    exact hheld.trans h.grows h'.grows (h'.held hs')

/-! ## Beginnings -/

theorem entryInv_new {home : ℕ} (h : s = immediate home ∨ s = postponed home) : EntryInv s where
  ending := by
    rcases h with rfl | rfl <;> constructor <;>
      simp [postponed, immediate, new, Owner.isTerminal, EntryState.isTerminal]
  custody := by
    rcases h with rfl | rfl <;> constructor <;> simp [postponed, immediate, new,
      Holder.admits, Holder.isPlaced, PhysicalRetention.settles]
  balanced account := by
    rcases h with rfl | rfl <;> cases account <;>
      simp [acquired, released, stored, postponed, immediate, new]
  payload := by
    rcases h with rfl | rfl <;> constructor <;>
      simp [postponed, immediate, new, EntryState.isTerminal]
  numbered := by
    rcases h with rfl | rfl <;> constructor <;> simp [postponed, immediate, new]
  requested := by
    rcases h with rfl | rfl <;> constructor <;> simp [postponed, immediate, new]
  blame := by rcases h with rfl | rfl <;> simp [postponed, immediate]

end TaskEntry

end NasaRuntime.Napart
