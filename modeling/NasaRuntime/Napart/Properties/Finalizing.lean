import NasaRuntime.Napart.Properties.EntrySteps

/-!
# Finalizing a task, and how its users end it

`finalize_termination_with_accounting` is called by everybody who may end a task, at the same time.
Who closes the owner goes on; everything that is in the entry is taken out by one of them and given
back; who sets the terminal record publishes the status.

**Theorem (`does_finalizeTermination`).** A thread that has the task in hand, in no container and
with no move under way, finalizes it or finds that somebody else does. Whoever else fails does so
for one of the reasons that are recorded (`FinalError`).
-/

namespace NasaRuntime.Napart

namespace TaskEntry

open Prog

/-- The program of thread `i`, between the others. -/
abbrev Does (i : ℕ) {α : Type} (P : EntryStore → Prop) (p : EntryProg α)
    (Q : α → EntryStore → Prop) (E : TaskAuthorityError → EntryStore → Prop) : Prop :=
  Meets EntryRely EntryInv i P p Q E

/-- What thread `i` knows for good. -/
abbrev Kept (i : ℕ) (P : EntryStore → Prop) : Prop := Stable EntryRely EntryInv i P

variable {i : ℕ} {mine held : Prop} {s : EntryStore} {α : Type} {P : EntryStore → Prop}
  {Q : α → EntryStore → Prop} {E : TaskAuthorityError → EntryStore → Prop}
variable {f : EntryStore → α}

theorem kept_of_grows (h : ∀ s s', Grows s s' → P s → P s') : Kept i P :=
  fun s s' _ _ hR hs => h s s' hR.grows hs

theorem kept_ended : Kept i (EntryStore.ended ·) := kept_of_grows fun _ _ hg => hg.ended

theorem kept_refused : Kept i fun s => s.history.refused :=
  kept_of_grows fun _ _ hg => hg.refused

theorem kept_blamed : Kept i EntryStore.Blamed := kept_of_grows fun _ _ hg => hg.blamed

theorem does_read (hP : Kept i P) (h : ∀ s, EntryInv s → P s → Q (f s) s) :
    Does i P (.read f) Q E := meets_read EntryRely.refl hP h

/-- What is read is remembered. -/
theorem does_see (hP : Kept i P) : Does i P (.read f) (fun a s => P s ∧ f s = a) E :=
  does_read hP fun _ _ h => ⟨h, rfl⟩

theorem does_know {K : α → EntryStore → Prop} (hP : Kept i P)
    (h : ∀ s, EntryInv s → P s → K (f s) s) : Does i P (.read f) (fun a s => P s ∧ K a s) E :=
  does_read hP fun s hI hs => ⟨hs, h s hI hs⟩

/-- A look that tells nothing. -/
theorem does_look (hP : Kept i P) : Does i P (.read f) (fun _ => P) E := does_read hP fun _ _ h => h

variable {e : TaskAuthorityError} {s' : EntryStore}

/-- A check of what is read. -/
theorem does_check {β : Type} {Q : β → EntryStore → Prop} {c : α → Prop} [DecidablePred c]
    {k : α → EntryProg β} (hP : Kept i P)
    (hfail : ∀ s, EntryInv s → P s → c (f s) → E e s) (hk : ∀ a, ¬ c a → Does i P (k a) Q E) :
    Does i P (.read f >>= fun a => if c a then .fail e else k a) Q E := by
  refine meets_bind (does_see hP) fun a => ?_
  split_ifs with hc
  · exact meets_fail fun s hI h => hfail s hI h.1 (h.2 ▸ hc)
  · exact meets_pre (hk a hc) fun s _ h => h.1

theorem does_swapIf {Q : Unit → EntryStore → Prop} {c : EntryStore → Bool}
    {f : EntryStore → EntryStore} (hP : Kept i P)
    (hyes : ∀ s, EntryInv s → P s → c s → Owed i s (f s) ∧ Q () (f s))
    (hno : ∀ s, EntryInv s → P s → c s = false → E e s) : Does i P (swapIf c f e) Q E := by
  refine meets_bind (M := fun done s => if done then Q () s else E e s) ?_ fun done => ?_
  · refine meets_atomic hP fun s hI hs => ?_
    cases hc : c s with
    | true =>
      have hyes := hyes s hI hs hc
      simpa [hc] using hyes
    | false =>
      have hno := hno s hI hs hc
      simpa [hc] using And.intro (Owed.refl hI) hno
  · cases done with
    | true => exact meets_pure fun s _ h => h
    | false => exact meets_fail fun s _ h => h

/-- Everything that grows stays known. -/
theorem does_frame {F : EntryStore → Prop} {p : EntryProg α} (h : Does i P p Q E)
    (hF : ∀ s s', Grows s s' → F s → F s') :
    Does i (fun s => P s ∧ F s) p (fun a s => Q a s ∧ F s) fun e s => E e s ∧ F s :=
  meets_frame h (kept_of_grows hF) fun s s' _ howed => hF s s' (Owed.grows howed)

/-! ## What a thread knows -/

/-- Thread `i` has these units to give back, and is in the middle of nothing else. With `mine` it
may have begun the end by a cancellation, with `held` it may have the task in hand. -/
structure Quiet (mine held : Prop) (i : ℕ) (owed : List Account) (s : EntryStore) : Prop where
  owed : s.owedBy i = owed
  finisher : i ∈ s.history.finishers → s.terminal.isSome
  settler : s.history.settler = some i → s.state.isTerminal
  taker : s.history.taker = some i → s.history.holder ≠ .fresh
  canceller : s.history.canceller = some i → mine
  hand : s.history.holder.thread = some i → held

/-- Thread `i` has nothing to give back. -/
abbrev Clear (mine : Prop) (i : ℕ) : EntryStore → Prop := Quiet mine True i []

/-- Thread `i` has the task in hand, and it may be finalized. -/
structure Free (i : ℕ) (s : EntryStore) : Prop where
  hand : s.history.holder.thread = some i
  retention : s.physicalRetention.settles
  move : s.moveDescriptor = none

/-- Thread `i` has the task in hand, and it is in no queue. -/
def Unplaced (i : ℕ) (s : EntryStore) : Prop :=
  s.history.holder.thread = some i ∧ s.history.holder.isPlaced = false

theorem Grows.terminalSome (h : Grows s s') (hs : s.terminal.isSome) : s'.terminal.isSome := by
  obtain ⟨record, hrec⟩ := Option.isSome_iff_exists.1 hs
  rw [h.terminal record hrec]
  rfl

theorem Quiet.kept {owed : List Account} (hR : EntryRely i s s')
    (hs : Quiet mine held i owed s) : Quiet mine held i owed s' := by
  refine ⟨hR.owed.trans hs.owed, fun h => ?_, fun h => ?_, fun h => ?_, fun h => ?_, fun h => ?_⟩
  · exact hR.grows.terminalSome (hs.finisher (hR.finisher h))
  · obtain ⟨hmine, hst, -⟩ := hR.settler h
    rw [hst]
    exact hs.settler hmine
  · exact hR.grows.fresh (hs.taker (hR.taker h))
  · exact hs.canceller (hR.canceller h)
  · exact hs.hand (hR.hand h)

theorem kept_quiet (owed : List Account) : Kept i (Quiet mine held i owed) :=
  fun _ _ _ _ hR hs => hs.kept hR

theorem kept_free : Kept i (Free i) := by
  intro s s' _ _ hR hs
  have hheld := hR.held hs.hand
  refine ⟨hheld.holder ▸ hs.hand, ?_, ?_⟩
  · rcases hheld.retention with heq | ⟨hgone, -⟩
    · rw [heq]
      exact hs.retention
    · rw [hgone]
      rfl
  · rcases hheld.move with heq | ⟨hnone, -⟩
    · exact heq.trans hs.move
    · exact hnone

theorem kept_unplaced : Kept i (Unplaced i) := by
  intro s s' _ _ hR hs
  have hhold := (hR.held hs.1).holder
  exact ⟨hhold ▸ hs.1, hhold ▸ hs.2⟩

theorem settled_of_terminal (hI : EntryInv s) (h : s.state.isTerminal) : s.terminal.isSome := by
  obtain ⟨record, hrec, -⟩ := hI.ending.status h
  simp [hrec]

/-! ## Why it is not finalized -/

/-- What is known after a failure: `free` if the thread has the task in hand, in no container and
with no move, and `final` if the task has ended. -/
def FinalError (free final : Prop) (cancels : Bool) (s : EntryStore) : TaskAuthorityError → Prop
  | .settlementOwned => s.Settled
  | .retentionMismatch => ¬ free ∧ (cancels → s.history.blocked)
  | .ownerMismatch => ¬ free ∧ (s.history.audited ∨ s.history.shifted)
  | .settlementConflict => s.Settled ∧ s.history.shifted ∨ ¬ free ∧ (cancels → s.history.collided)
  | .invalidState => ¬ final
  | _ => False

section Finalize

variable {free final : Prop} {commits cancels : Bool}

/-- What who finalizes knows until the owner is closed. -/
structure Checking (mine held free : Prop) (commits : Bool) (i : ℕ) (s : EntryStore) : Prop where
  quiet : Quiet mine held i [] s
  free : free → Free i s
  unplaced : commits = false → Unplaced i s
  ended : s.ended

theorem kept_checking : Kept i (Checking mine held free commits i) := by
  intro s s' hI hI' hR hs
  exact ⟨kept_quiet [] s s' hI hI' hR hs.quiet, fun h => kept_free s s' hI hI' hR (hs.free h),
    fun h => kept_unplaced s s' hI hI' hR (hs.unplaced h), hR.grows.ended hs.ended⟩

theorem does_missingRecord :
    Does i (fun s => Quiet mine held i [] s ∧ s.terminal.isSome) missingRecord
      (fun _ _ => False) fun e s => Quiet mine held i [] s ∧ FinalError free final cancels s e := by
  have hkept : Kept i fun s => Quiet mine held i [] s ∧ s.terminal.isSome :=
    (kept_quiet []).and (kept_of_grows fun _ _ hg => hg.terminalSome)
  refine does_check hkept (fun s _ h _ => ⟨h.1, .inl h.2⟩) fun _ _ => ?_
  refine does_check hkept (fun s _ h _ => ⟨h.1, .inl h.2⟩) fun _ _ => ?_
  refine meets_bind (does_read (Q := fun terminal s =>
    terminal.isSome ∧ Quiet mine held i [] s ∧ s.terminal.isSome) hkept fun s _ h => ⟨h.2, h⟩)
    fun terminal => ?_
  split_ifs with hterm
  · exact meets_fail fun s _ h => ⟨h.2.1, .inl h.2.2⟩
  · exact meets_fail fun s _ h => absurd h.1 hterm

/-- The owner that was seen is there, or is closed, unless somebody else has interfered. -/
def OwnerSeen (free : Prop) (owner : Owner) (s : EntryStore) : Prop :=
  (s.owner = owner ∨ s.owner.isTerminal) ∨ ¬ free ∧ (s.history.audited ∨ s.history.shifted)

/-- What who finalizes knows once the task is marked. -/
def Marked (mine held free : Prop) (commits : Bool) (i : ℕ) (s : EntryStore) : Prop :=
  Checking mine held free commits i s ∧ s.history.settling

theorem kept_marked : Kept i (Marked mine held free commits i) :=
  kept_checking.and (kept_of_grows fun _ _ hg => hg.settling)

theorem kept_ownerSeen (owner : Owner) :
    Kept i fun s => Marked mine held free commits i s ∧ OwnerSeen free owner s := by
  intro s s' hI hI' hR hs
  refine ⟨kept_marked s s' hI hI' hR hs.1, ?_⟩
  rcases hs.2 with hseen | ⟨hfree, hwhy⟩
  · by_cases hfree : free
    · left
      rcases (hR.held (hs.1.1.free hfree).hand).owner with heq | hclos
      · rwa [heq]
      · exact .inr hclos.1
    · rcases hR.owner hs.1.2 with heq | hclos | hwhy
      · rw [← heq] at hseen
        exact .inl hseen
      · exact .inl (.inr hclos)
      · exact .inr ⟨hfree, hwhy⟩
  · exact .inr ⟨hfree, hwhy.imp hR.grows.audited hR.grows.shifted⟩

theorem does_checkSettlement :
    Does i (Checking mine held free commits i) (checkSettlement cancels)
      (fun owner s => (Marked mine held free commits i s ∧ OwnerSeen free owner s) ∧
        owner.isTerminal = false)
      fun e s => Quiet mine held i [] s ∧ FinalError free final cancels s e := by
  refine meets_bind (M := fun retention s => Checking mine held free commits i s ∧
    (retention.settles → s.history.settling) ∧
    (retention.settles = false → ¬ free ∧ (cancels → s.history.blocked))) ?_ fun retention => ?_
  · refine meets_atomic kept_checking fun s hI hs => ⟨owed_mark hI hs.ended cancels, ?_, ?_, ?_⟩
    · exact ⟨{ hs.quiet with }, fun h => { hs.free h with }, hs.unplaced, hs.ended⟩
    · intro h
      simp [h]
    · intro h
      refine ⟨fun hfree => ?_, fun hcanc => by simp [h, hcanc]⟩
      simp [(hs.free hfree).retention] at h
  split_ifs with hret
  · exact meets_fail fun s _ h => ⟨h.1.quiet, h.2.2 hret⟩
  have hsett : retention.settles = true := by simpa using hret
  refine meets_pre (P := Marked mine held free commits i) ?_ fun s _ h => ⟨h.1, h.2.1 hsett⟩
  refine meets_bind (does_read (Q := fun owner s =>
    (Marked mine held free commits i s ∧ OwnerSeen free owner s) ∧
      (owner.isTerminal → s.history.finishers ≠ [])) kept_marked fun s hI h =>
        ⟨⟨h, .inl (.inl rfl)⟩, hI.ending.closed⟩) fun owner => ?_
  split_ifs with hown
  · exact meets_fail fun s _ h => ⟨h.1.1.1.quiet, .inr (h.2 hown)⟩
  have hopen : owner.isTerminal = false := by simpa using hown
  refine meets_pre (P := fun s => Marked mine held free commits i s ∧ OwnerSeen free owner s) ?_
    fun s _ h => h.1
  refine does_check (kept_ownerSeen owner)
    (fun s _ h hterm => ⟨h.1.1.quiet, .inl hterm⟩) fun _ _ => ?_
  refine meets_bind (M := fun (moving : Bool) s =>
    (Marked mine held free commits i s ∧ OwnerSeen free owner s) ∧
      (moving → ¬ free ∧ (cancels → s.history.collided))) ?_ fun moving => ?_
  · refine meets_atomic (kept_ownerSeen owner) fun s hI hs =>
      ⟨owed_collide hI hs.1.1.ended cancels,
        ⟨⟨⟨?_, ?_, hs.1.1.unplaced, hs.1.1.ended⟩, hs.1.2⟩, ?_⟩,
        fun hmove => ⟨fun hfree => ?_, fun hcanc => ?_⟩⟩
    · exact { hs.1.1.quiet with }
    · exact fun h => { hs.1.1.free h with }
    · exact hs.2
    · simp [(hs.1.1.free hfree).move] at hmove
    · simp only at hmove
      simp [hcanc, hmove]
  split_ifs with hmov
  · exact meets_fail fun s _ h => ⟨h.1.1.1.quiet, .inr (h.2 hmov)⟩
  · exact meets_pure fun s _ h => ⟨h.1, hopen⟩

/-- What who has closed the owner knows. -/
structure Closing (mine held : Prop) (i : ℕ) (owed : List Account) (s : EntryStore) : Prop where
  owed : s.owedBy i = owed
  finisher : i ∈ s.history.finishers
  settling : s.history.settling
  settler : s.history.settler = some i → s.state.isTerminal ∧ s.history.shifted
  taker : s.history.taker = some i → s.history.holder ≠ .fresh
  canceller : s.history.canceller = some i → mine
  hand : s.history.holder.thread = some i → held

theorem kept_closing (owed : List Account) : Kept i (Closing mine held i owed) := by
  intro s s' _ _ hR hs
  refine ⟨hR.owed.trans hs.owed, hR.grows.finishers hs.finisher, hR.grows.settling hs.settling,
    fun h => ?_, fun h => ?_, fun h => ?_, fun h => ?_⟩
  · obtain ⟨hmine, hst, -⟩ := hR.settler h
    rw [hst]
    exact ⟨(hs.settler hmine).1, hR.grows.shifted (hs.settler hmine).2⟩
  · exact hR.grows.fresh (hs.taker (hR.taker h))
  · exact hs.canceller (hR.canceller h)
  · exact hs.hand (hR.hand h)

theorem does_closeOwner {owner : Owner} (record : TerminalRecord)
    (hopen : owner.isTerminal = false) :
    Does i (fun s => Marked mine held free commits i s ∧ OwnerSeen free owner s)
      (closeOwner i owner record)
      (fun _ s => Closing mine held i [] s ∧ (commits = false → Unplaced i s))
      fun e s => Quiet mine held i [] s ∧ FinalError free final cancels s e := by
  refine meets_bind (M := fun observed s => observed.elim
    (Closing mine held i [] s ∧ (commits = false → Unplaced i s)) fun other =>
      Quiet mine held i [] s ∧ (other.isTerminal → s.Settled) ∧
        (other.isTerminal = false → ¬ free ∧ (s.history.audited ∨ s.history.shifted))) ?_ ?_
  · refine meets_atomic (kept_ownerSeen owner) fun s hI hs => ?_
    obtain ⟨⟨hcheck, hsett⟩, hseen⟩ := hs
    have hquiet := hcheck.quiet
    by_cases hown : s.owner = owner
    · simp only [hown, if_true]
      have hstill : s.owner.isTerminal = false := hown ▸ hopen
      refine ⟨owed_close hI hsett hstill record.state, ?_, hcheck.unplaced⟩
      refine ⟨hquiet.owed, List.mem_cons_self, hsett, fun h => ⟨hquiet.settler h, ?_⟩,
        hquiet.taker, hquiet.canceller, hquiet.hand⟩
      -- A finisher before this one has closed the owner, and somebody has opened it again.
      have hbef : s.history.finishers ≠ [] := List.ne_nil_of_mem (hI.ending.settles i h)
      exact (hI.ending.reopened hbef).resolve_left (by simp [hstill])
    · simp only [hown, if_false]
      refine ⟨Owed.refl hI, hquiet, fun h => .inr (hI.ending.closed h), fun h => ?_⟩
      rcases hseen with (heq | hclos) | hwhy
      · exact absurd heq hown
      · simp [hclos] at h
      · exact hwhy
  · intro observed
    cases observed with
    | none => exact meets_pure fun s _ h => h
    | some other =>
      simp only
      split_ifs with hoth
      · exact meets_fail fun s _ h => ⟨h.1, h.2.1 hoth⟩
      · exact meets_fail fun s _ h => ⟨h.1, h.2.2 (by simpa using hoth)⟩

theorem does_release (owed : List Account) (account : Account) (hmem : account ∈ owed) :
    Does i (fun s => Closing mine held i owed s ∧ s.history.collected) (release i account)
      (fun _ s => Closing mine held i (owed.erase account) s ∧ s.history.collected) E := by
  refine meets_modify ((kept_closing owed).and (kept_of_grows fun _ _ hg => hg.collected)) ?_
  intro s hI hs
  refine ⟨owed_release hI (by rwa [hs.1.owed]), { hs.1 with owed := ?_ }, hs.2⟩
  rw [owedBy_release, hs.1.owed]

theorem does_commitLogical (logical : Option LogicalOwner)
    (hcomm : commits = false → logical = none) :
    Does i (fun s => Closing mine held i
        ((logical.map fun old => [old.account, Account.logical]).getD []) s ∧ s.history.collected)
      (commitLogical i commits logical)
      (fun _ s => Closing mine held i [] s ∧ s.history.collected) E := by
  cases logical with
  | none => exact meets_pure fun s _ h => h
  | some logical =>
    have htrue : commits = true := by
      cases commits with
      | true => rfl
      | false => cases hcomm rfl
    simp only [commitLogical, htrue, if_true]
    refine meets_bind (does_release [logical.account, .logical] logical.account (by simp))
      fun _ => ?_
    refine meets_pre (does_release [.logical] .logical (by simp)) fun s _ hs => ?_
    simpa using hs

theorem does_dropPermits :
    Does i (fun s => Closing mine held i [] s ∧ s.history.collected) (dropPermits i)
      (fun _ s => Closing mine held i [] s ∧ s.history.collected) E := by
  have hkept : ∀ owed, Kept i fun s => Closing mine held i owed s ∧ s.history.collected :=
    fun owed => (kept_closing owed).and (kept_of_grows fun _ _ hg => hg.collected)
  refine meets_bind (M := fun queued s =>
    Closing mine held i (if queued then [.queued] else []) s ∧ s.history.collected) ?_
    fun queued => ?_
  · refine meets_atomic (hkept []) fun s hI hs =>
      ⟨owed_takeQueued hI, { hs.1 with owed := ?_ }, hs.2⟩
    have howed := hs.1.owed
    cases hperm : s.queuedPermit <;> simpa [EntryStore.owedBy, hperm] using howed
  refine meets_bind (M := fun global s =>
    Closing mine held i ((if global then [.global] else []) ++ if queued then [.queued] else []) s ∧
      s.history.collected) ?_ fun global => ?_
  · refine meets_atomic (hkept _) fun s hI hs =>
      ⟨owed_takeGlobal hI, { hs.1 with owed := ?_ }, hs.2⟩
    have howed := hs.1.owed
    cases hperm : s.globalPermit <;> simpa [EntryStore.owedBy, hperm] using howed
  cases queued with
  | false =>
    cases global with
    | false => exact meets_pure fun s _ h => h
    | true => exact does_release [.global] .global (by simp)
  | true =>
    cases global with
    | false =>
      refine meets_bind (does_release [.queued] .queued (by simp)) fun _ => ?_
      exact meets_pure fun s _ h => h
    | true =>
      refine meets_bind (does_release [.global, .queued] .queued (by simp)) fun _ => ?_
      exact does_release [.global] .global (by simp)

/-- What who has set the record knows. -/
structure Publishing (mine held : Prop) (i : ℕ) (record : TerminalRecord) (s : EntryStore) :
    Prop where
  owed : s.owedBy i = []
  settler : s.history.settler = some i
  terminal : s.terminal = some record
  state : s.state = .terminating
  taker : s.history.taker = some i → s.history.holder ≠ .fresh
  canceller : s.history.canceller = some i → mine
  hand : s.history.holder.thread = some i → held

theorem kept_publishing (record : TerminalRecord) (pending : Option TerminalRecord) :
    Kept i fun s => Publishing mine held i record s ∧ (s.pendingTerminal = pending) := by
  intro s s' _ _ hR ⟨hs, hpend⟩
  have hsett := hR.grows.settler i hs.settler
  obtain ⟨-, hst, hsame⟩ := hR.settler hsett
  exact ⟨⟨hR.owed.trans hs.owed, hsett, hR.grows.terminal record hs.terminal,
    hst.trans hs.state, fun h => hR.grows.fresh (hs.taker (hR.taker h)),
    fun h => hs.canceller (hR.canceller h), fun h => hs.hand (hR.hand h)⟩, hsame.trans hpend⟩

variable {record : TerminalRecord}

theorem does_publishStatus (hrec : record.state.isTerminal) :
    Does i (fun s => Closing mine held i [] s ∧ s.history.collected) (publishStatus i record)
      (fun _ s => Quiet mine held i [] s ∧ s.Settled)
      fun e s => Quiet mine held i [] s ∧ FinalError free final cancels s e := by
  have han : Kept i (Publishing mine held i record) := by
    intro s s' hI hI' hR hs
    exact (kept_publishing record s.pendingTerminal s s' hI hI' hR ⟨hs, rfl⟩).1
  refine meets_bind (M := fun _ => Publishing mine held i record) ?_ fun _ => ?_
  · refine does_swapIf ((kept_closing []).and (kept_of_grows fun _ _ hg => hg.collected))
      (fun s hI hs hnone => ?_) fun s hI hs hsome => ?_
    · have hnone : s.terminal = none := by simpa using hnone
      refine ⟨owed_record hI hs.2 hs.1.finisher hnone hrec, hs.1.owed, rfl, rfl, ?_, hs.1.taker,
        hs.1.canceller, hs.1.hand⟩
      rcases ended_iff.1 (hI.ending.settling hs.1.settling) with h | h
      · exact h
      · simpa [hnone] using settled_of_terminal hI h
    · have hterm : s.terminal.isSome := by simpa using hsome
      refine ⟨⟨hs.1.owed, fun _ => hterm, fun h => (hs.1.settler h).1, hs.1.taker,
        hs.1.canceller, hs.1.hand⟩, .inl ⟨.inl hterm, ?_⟩⟩
      -- Whoever has set the record has closed the owner too.
      obtain ⟨k, hk⟩ := Option.isSome_iff_exists.1 (hI.ending.settler ▸ hterm)
      by_cases hki : k = i
      · exact (hs.1.settler (hki ▸ hk)).2
      · refine hI.ending.single.resolve_left fun hlen => hki ?_
        have hmem := hI.ending.settles k hk
        have hfini := hs.1.finisher
        cases hfin : s.history.finishers with
        | nil => simp [hfin] at hmem
        | cons only rest =>
          have hrest : rest = [] := by simpa [hfin] using hlen
          simp only [hfin, hrest, List.mem_singleton] at hmem hfini
          exact hmem.trans hfini.symm
  refine meets_bind (M := fun _ s => Publishing mine held i record s ∧ s.pendingTerminal = none) ?_
    fun _ => ?_
  · exact meets_modify han fun s hI hs => ⟨owed_unpend hI hs.settler, { hs with }, rfl⟩
  · refine meets_modify (kept_publishing record none) fun s hI hs => ?_
    refine ⟨owed_publish hI hs.1.settler hs.1.terminal hrec hs.1.state hs.2, ?_, ?_⟩
    · exact ⟨hs.1.owed, fun _ => by simp [hs.1.terminal], fun _ => hrec, hs.1.taker,
        hs.1.canceller, hs.1.hand⟩
    · exact .inl (by simp [hs.1.terminal])

theorem does_settle (hrec : record.state.isTerminal) :
    Does i (fun s => Closing mine held i [] s ∧ (commits = false → Unplaced i s))
      (settle i commits record) (fun _ s => Quiet mine held i [] s ∧ s.Settled)
      fun e s => Quiet mine held i [] s ∧ FinalError free final cancels s e := by
  refine meets_bind (M := fun _ s => Closing mine held i [] s ∧ (commits = false → Unplaced i s)) ?_
    fun _ => ?_
  · exact meets_modify ((kept_closing []).and kept_unplaced.imp) fun s hI hs =>
      ⟨owed_detach hI hs.1.settling, { hs.1 with }, hs.2⟩
  refine meets_bind (M := fun logical s => (Closing mine held i
    ((logical.map fun old => [old.account, Account.logical]).getD []) s ∧ s.history.collected) ∧
      (commits = false → logical = none)) ?_ fun logical => ?_
  · refine meets_atomic ((kept_closing []).and kept_unplaced.imp) fun s hI hs =>
      ⟨owed_collect hI hs.1.settling,
      ⟨{ hs.1 with owed := ?_ }, rfl⟩, fun h => (hI.custody.unplaced (hs.2 h).2).1⟩
    rw [owedBy_collect, hs.1.owed, List.append_nil]
  by_cases hcomm : commits = false → logical = none
  swap
  · intro s _ hs
    exact absurd hs.2 hcomm
  refine meets_bind (meets_pre (does_commitLogical logical hcomm) fun s _ h => h.1) fun _ => ?_
  refine meets_bind (M := fun _ s => Closing mine held i [] s ∧ s.history.collected) ?_ fun _ => ?_
  · exact meets_modify ((kept_closing []).and (kept_of_grows fun _ _ hg => hg.collected))
      fun s hI hs => ⟨owed_dropTask hI hs.1.settling, { hs.1 with }, hs.2⟩
  exact meets_bind does_dropPermits fun _ => does_publishStatus hrec

/-- **Finalizing.** -/
theorem does_finalizeTermination :
    Does i (fun s => Quiet mine held i [] s ∧ (free → Free i s) ∧ (final → s.ended) ∧
        (commits = false → Unplaced i s))
      (finalizeTermination i commits cancels) (fun _ s => Quiet mine held i [] s ∧ s.Settled)
      fun e s => Quiet mine held i [] s ∧ FinalError free final cancels s e := by
  refine meets_bind (does_know (K := fun state s => EntryInv s ∧ s.state = state)
    ((kept_quiet []).and (kept_free.imp.and ((Stable.imp kept_ended).and kept_unplaced.imp)))
    fun s hI h => ⟨hI, rfl⟩) fun state => ?_
  split_ifs with hterm htermi
  · exact meets_fail fun s hI h => ⟨h.1.1, .inl (settled_of_terminal hI (h.2.2 ▸ hterm))⟩
  · refine meets_fail fun s hI h => ⟨h.1.1, fun hfin => ?_⟩
    rcases ended_iff.1 (h.1.2.2.1 hfin) with hs | hs
    · exact htermi (h.2.2 ▸ hs)
    · exact hterm (h.2.2 ▸ hs)
  have hst : state = .terminating := by simpa using htermi
  refine meets_pre (P := Checking mine held free commits i) ?_ fun s _ h =>
    ⟨h.1.1, h.1.2.1, h.1.2.2.2, by simp [EntryStore.ended, h.2.2, hst]⟩
  refine meets_bind (does_read (Q := fun pending s => Checking mine held free commits i s ∧
    (pending = none → s.terminal.isSome) ∧
    ∀ record, pending = some record → record.state.isTerminal) kept_checking fun s hI h =>
      ⟨h, fun hnone => ?_, fun record hrec => (hI.ending.pending record hrec).2⟩)
    fun pending => ?_
  · rcases ended_iff.1 h.ended with hs | hs
    · exact (hI.ending.record hs).resolve_left (by simp [hnone])
    · exact settled_of_terminal hI hs
  cases pending with
  | none =>
    refine meets_mono does_missingRecord (fun s _ h => ⟨h.1.quiet, h.2.1 rfl⟩)
      (fun _ _ _ h => h.elim) fun _ _ _ h => h
  | some record =>
    simp only
    split_ifs with hrec
    · exact meets_fail fun s _ h => absurd (h.2.2 record rfl) (by simp [hrec])
    have hrec : record.state.isTerminal = true := by simpa using hrec
    refine meets_bind (meets_pre does_checkSettlement fun s _ h => h.1) fun owner => ?_
    by_cases hopen : owner.isTerminal = false
    swap
    · intro s _ hs
      exact absurd hs.2 hopen
    refine meets_bind (meets_pre (does_closeOwner record hopen) fun s _ h => h.1) fun _ => ?_
    exact does_settle hrec

end Finalize

open EntryState

variable {i : ℕ} {mine held : Prop} {s : EntryStore} {α : Type} {P : EntryStore → Prop}
  {Q : Unit → EntryStore → Prop} {E : TaskAuthorityError → EntryStore → Prop}
variable {expected terminal : EntryState}

/-! ## Duties -/

/-- A cancellation has taken over. -/
def Resting (s : EntryStore) : Prop :=
  s.ended ∧ s.history.canceller.isSome ∧ s.physicalRetention.settles ∧ s.moveDescriptor = none ∧
    s.history.blocked = false ∧ s.history.collided = false ∧ s.history.shifted = false

/-- What who has the task in hand sees to. -/
def Duty (s : EntryStore) : Prop := s.Settled ∨ s.history.audited ∨ Resting s

/-- Thread `i` has the task in hand, and only a cancellation may have ended it. -/
structure Calm (i : ℕ) (s : EntryStore) : Prop extends Free i s where
  ended : s.ended → s.history.canceller.isSome ∨ s.history.audited
  blocked : s.history.blocked = false
  collided : s.history.collided = false
  shifted : s.history.shifted = false

theorem kept_calm : Kept i (Calm i) := by
  intro s s' hI hI' hR hs
  have hheld := hR.held hs.hand
  refine ⟨kept_free s s' hI hI' hR hs.toFree, fun hend => ?_,
    (hheld.blocked hs.retention).trans hs.blocked, (hheld.collided hs.move).trans hs.collided,
    hheld.shifted.trans hs.shifted⟩
  have hold : s.ended → s'.history.canceller.isSome ∨ s'.history.audited := fun h =>
    (hs.ended h).imp hR.grows.cancellerSome hR.grows.audited
  rcases hheld.state with heq | h | ⟨-, hwho, -⟩
  · exact hold (by simpa only [EntryStore.ended, heq] using hend)
  · exact hold h
  · exact hwho

theorem Calm.duty (h : Calm i s) (hend : s.ended) : Duty s := by
  rcases h.ended hend with hcanc | haud
  · exact .inr (.inr ⟨hend, hcanc, h.retention, h.move, h.blocked, h.collided, h.shifted⟩)
  · exact .inr (.inl haud)

theorem calm_of_live (hI : EntryInv s) (hfree : Free i s) (hlive : s.ended = false) : Calm i s := by
  have hl := hI.live hlive
  exact ⟨hfree, fun h => by simp [hlive] at h, hl.blocked, hl.collided, hl.shifted⟩

/-- Thread `i` has the task in hand, in this state unless it has ended. -/
def Waiting (i : ℕ) (state : EntryState) (s : EntryStore) : Prop :=
  Free i s ∧ (s.state = state ∨ s.ended)

variable {state : EntryState} {p : EntryProg Unit}

theorem state_kept {s' : EntryStore} (hR : EntryRely i s s')
    (hhand : s.history.holder.thread = some i)
    (hs : s.state = state ∨ s.ended) : s'.state = state ∨ s'.ended := by
  rcases hs with hstate | hend
  · rcases (hR.held hhand).state with heq | h | h
    · exact .inl (heq.trans hstate)
    · exact .inr (hR.grows.ended h)
    · exact .inr h.1
  · exact .inr (hR.grows.ended hend)

theorem kept_waiting (state : EntryState) : Kept i (Waiting i state) := by
  intro s s' hI hI' hR hs
  exact ⟨kept_free s s' hI hI' hR hs.1, state_kept hR hs.1.hand hs.2⟩

theorem live_or_ended (s : EntryStore) : s.ended = false ∨ s.ended = true := by
  cases s.ended <;> simp

/-! ## Beginning the end -/

/-- `begin_termination`, for one state. -/
theorem does_beginEnd {f : EntryStore → EntryStore} (hP : Kept i P)
    (hyes : ∀ s, EntryInv s → P s → s.state = expected → Owed i s (f s) ∧ Q () (f s))
    (hconf : ∀ s, EntryInv s → P s → s.state = .terminating → E .settlementConflict s)
    (hno : ∀ s, EntryInv s → P s → s.state ≠ expected → E .invalidState s) :
    Does i P (beginEnd expected f) Q E := by
  refine meets_bind (M := fun refusal s => refusal.elim (Q () s) fun e => E e s) ?_
    fun refusal => ?_
  · refine meets_atomic hP fun s hI hs => ?_
    by_cases hpend : s.pendingTerminal.isSome
    · obtain ⟨record, hrec⟩ := Option.isSome_iff_exists.1 hpend
      have hstate := (hI.ending.pending record hrec).1
      simp only [hpend, if_true]
      exact ⟨Owed.refl hI, hconf s hI hs hstate⟩
    · by_cases hstate : s.state = expected
      · simp only [hpend, hstate, if_true]
        exact hyes s hI hs hstate
      · simp only [hpend, hstate, if_false]
        exact ⟨Owed.refl hI, hno s hI hs hstate⟩
  · cases refusal with
    | none => exact meets_pure fun s _ h => h
    | some e => exact meets_fail fun s _ h => h

variable (reason : String)

theorem failFrom_eq
    (hterminal : terminal = .rejected ∨ terminal = .failed) (hexpected : expected ≠ .moving) :
    failFrom i expected terminal reason =
      beginEnd expected (·.terminate i ⟨terminal, some reason⟩) := by
  rcases hterminal with rfl | rfl <;>
    simp [failFrom, beginTermination, hexpected, isTerminal]

/-- Who may end the task. -/
def MayEnd (i : ℕ) (s : EntryStore) : Prop :=
  s.history.holder.thread = some i ∨ s.history.holder = .fresh ∨
    s.history.audited = true ∧ s.state ≠ .running

theorem does_failFrom (hP : Kept i P)
    (hterminal : terminal = .rejected ∨ terminal = .failed) (hexpected : expected ≠ .moving)
    (hlive : expected ≠ .terminating ∧ expected.isTerminal = false)
    (hwho : ∀ s, EntryInv s → P s → s.state = expected → MayEnd i s)
    (hyes : ∀ s, EntryInv s → P s → s.state = expected →
      Q () (s.terminate i ⟨terminal, some reason⟩))
    (hno : ∀ e s, EntryInv s → P s → s.state ≠ expected → E e s) :
    Does i P (failFrom i expected terminal reason) Q E := by
  rw [failFrom_eq reason hterminal hexpected]
  refine does_beginEnd hP (fun s hI hs hstate => ⟨?_, hyes s hI hs hstate⟩)
    (fun s hI hs hstate => hno _ s hI hs ?_) fun s hI hs hstate => hno _ s hI hs hstate
  · refine owed_terminate hI ?_ ?_ (hwho s hI hs hstate)
    · rw [← hstate] at hlive
      simpa [EntryStore.ended] using hlive
    · rcases hterminal with rfl | rfl <;> rfl
  · rw [hstate]
    exact hlive.1.symm

theorem Quiet.terminate {owed : List Account} (h : Quiet mine held i owed s)
    (record : TerminalRecord) (hlive : s.ended = false) (hI : EntryInv s)
    (hhand : s.history.holder.thread = some i ∨ s.history.holder = .fresh → held) :
    Quiet mine held i owed (s.terminate i record) := by
  have hl := hI.live hlive
  refine ⟨h.owed, fun hf => ?_, fun hs => ?_, fun _ => ?_, h.canceller, fun hs => ?_⟩
  · rw [show (s.terminate i record).history.finishers = s.history.finishers from rfl,
      hl.finishers] at hf
    cases hf
  · rw [show (s.terminate i record).history.settler = s.history.settler from rfl, hl.settler] at hs
    cases hs
  · by_cases hfresh : s.history.holder = .fresh
    · simp [EntryStore.terminate, hfresh]
    · simp [EntryStore.terminate, hfresh]
  · by_cases hfresh : s.history.holder = .fresh
    · exact hhand (.inr hfresh)
    · simp only [EntryStore.terminate, hfresh, if_false] at hs
      exact hhand (.inl hs)

theorem Free.terminate (h : Free i s) (record : TerminalRecord) : Free i (s.terminate i record) :=
  ⟨by simpa [EntryStore.terminate, not_fresh h.hand] using h.hand, h.retention, h.move⟩

variable (mine) in
theorem does_failFrom_calm
    (hterminal : terminal = .rejected ∨ terminal = .failed) (hexpected : expected ≠ .moving)
    (hlive : expected ≠ .terminating ∧ expected.isTerminal = false) :
    Does i (fun s => Clear mine i s ∧ Calm i s ∧ Waiting i expected s)
      (failFrom i expected terminal reason)
      (fun _ s => Clear mine i s ∧ Free i s ∧ s.ended)
      fun _ s => Clear mine i s ∧ Calm i s ∧ s.ended := by
  refine does_failFrom reason ((kept_quiet []).and (kept_calm.and (kept_waiting expected)))
    hterminal hexpected hlive (fun s _ h _ => .inl h.2.1.hand) (fun s hI h hstate => ?_)
    fun _ s _ h hstate => ⟨h.1, h.2.1, h.2.2.2.resolve_left hstate⟩
  have hnot : s.ended = false := by
    rw [← hstate] at hlive
    simpa [EntryStore.ended] using hlive
  exact ⟨h.1.terminate _ hnot hI fun _ => trivial, h.2.1.toFree.terminate _, rfl⟩

/-! ## `finalize_terminal` and what calls it -/

theorem blamed_of_error {free final : Prop} {cancels : Bool} {e : TaskAuthorityError}
    (hI : EntryInv s) (h : FinalError free final cancels s e) (hwhy : free ∧ final ∨ s.Blamed)
    (hne : e ≠ .settlementOwned) : s.Blamed ∧ (free ∧ final → s.Settled) := by
  have hshift : s.history.shifted → s.Blamed := by
    intro hs
    rcases (hI.ending.shifted hs).2 with hcross | haud
    · exact .inr (.inl hcross)
    · exact .inl haud
  have hnot : ¬ (free ∧ final) → s.Blamed ∧ (free ∧ final → s.Settled) := fun hn =>
    ⟨hwhy.resolve_left hn, fun hf => absurd hf hn⟩
  cases e with
  | settlementOwned => exact absurd rfl hne
  | retentionMismatch | ownerMismatch => exact hnot fun hf => h.1 hf.1
  | invalidState => exact hnot fun hf => h hf.2
  | settlementConflict =>
    rcases h with ⟨hsett, hs⟩ | ⟨hfree, -⟩
    · exact ⟨hshift hs, fun _ => hsett⟩
    · exact hnot fun hf => hfree hf.1
  | moveAlreadyPrepared | moveTicketMismatch | moveEpochExhausted | invalidTerminal | taskMissing
  | authorityCorrupted | paused => exact h.elim

theorem does_failType (hP : Kept i P) (hblam : ∀ s, P s → s.Blamed)
    (hsame : ∀ s, P s → P { s with typeFailed := true }) :
    Does i P failType (fun _ => P) E :=
  meets_modify hP fun s hI hs => ⟨owed_failed hI (hblam s hs) s.recorded, hsame s hs⟩

theorem finalizeTerminal_eq (i : ℕ) : finalizeTerminal i =
    (finalizeTermination i true false).attempt >>= fun outcome =>
      if outcome = .ok () ∨ outcome = .error .settlementOwned then return else failType := by
  refine congrArg _ (funext fun outcome => ?_)
  cases outcome with
  | ok _ => rfl
  | error e => cases e <;> rfl

/-- A thread that has the task in hand settles it; everybody else has a reason to fail the type. -/
theorem does_finalizeTerminal (free final : Prop) :
    Does i (fun s => (Quiet mine held i [] s ∧ (free → Free i s) ∧ (final → s.ended)) ∧
        (free ∧ final ∨ s.Blamed)) (finalizeTerminal i)
      (fun _ s => (Quiet mine held i [] s ∧ (free ∧ final → s.Settled)) ∧
        (free ∧ final ∨ s.Blamed)) E := by
  rw [finalizeTerminal_eq]
  refine meets_bind (M := fun outcome s => (Quiet mine held i [] s ∧
    Outcome (fun _ s => s.Settled) (fun e s => FinalError free final false s e) outcome s) ∧
      (free ∧ final ∨ s.Blamed)) ?_ fun outcome => ?_
  · refine meets_attempt (meets_pre (does_frame does_finalizeTermination
      (fun s s' hg h => h.imp id hg.blamed)) ?_)
    intro s _ h
    exact ⟨⟨h.1.1, h.1.2.1, h.1.2.2, nofun⟩, h.2⟩
  split_ifs with hown
  · refine meets_pure fun s _ h => ⟨⟨h.1.1, fun _ => ?_⟩, h.2⟩
    rcases hown with rfl | rfl
    · exact h.1.2
    · exact h.1.2
  cases outcome with
  | ok _ => simp at hown
  | error e =>
    have hne : e ≠ .settlementOwned := by simpa using hown
    refine meets_pre (does_failType (P := fun s => (Quiet mine held i [] s ∧
      (free ∧ final → s.Settled)) ∧ s.Blamed) ?_ (fun s h => h.2)
      (fun s h => ⟨⟨{ h.1.1 with }, h.1.2⟩, h.2⟩) |> fun h => meets_post h
        (fun _ _ _ h => ⟨h.1, .inr h.2⟩) fun _ _ _ h => h) ?_
    · exact ((kept_quiet []).and (Stable.imp (kept_of_grows fun _ _ hg => hg.settled))).and
        kept_blamed
    · intro s hI h
      have hblam := blamed_of_error hI h.1.2 h.2 hne
      exact ⟨⟨h.1.1, hblam.2⟩, hblam.1⟩

theorem does_finalizeTerminal_free :
    Does i (fun s => Quiet mine held i [] s ∧ Free i s ∧ s.ended) (finalizeTerminal i)
      (fun _ s => Quiet mine held i [] s ∧ s.Settled) E :=
  meets_mono (does_finalizeTerminal True True)
    (fun _ _ h => ⟨⟨h.1, fun _ => h.2.1, fun _ => h.2.2⟩, .inl ⟨trivial, trivial⟩⟩)
    (fun _ _ _ h => ⟨h.1.1, h.1.2 ⟨trivial, trivial⟩⟩) fun _ _ _ h => h

theorem does_finalizeTerminal_blamed :
    Does i (fun s => Quiet mine held i [] s ∧ s.Blamed) (finalizeTerminal i)
      (fun _ s => Quiet mine held i [] s ∧ s.Blamed) E :=
  meets_mono (does_finalizeTerminal False False)
    (fun _ _ h => ⟨⟨h.1, fun h => h.elim, fun h => h.elim⟩, .inr h.2⟩)
    (fun _ _ _ h => ⟨h.1.1, h.2.resolve_left fun h => h.1⟩) fun _ _ _ h => h

theorem does_recordAuthorityFailure_free :
    Does i (fun s => Quiet mine held i [] s ∧ Free i s ∧ s.ended) (recordAuthorityFailure i reason)
      (fun _ s => Quiet mine held i [] s ∧ s.Settled) E := by
  refine meets_bind (does_see ((kept_quiet []).and (kept_free.and kept_ended))) fun state => ?_
  split_ifs with hterminal hterm
  · exact meets_pure fun s hI h => ⟨h.1.1, .inl (settled_of_terminal hI (h.2 ▸ hterminal))⟩
  · exact meets_pre does_finalizeTerminal_free fun s _ h => h.1
  all_goals
    intro s _ h
    exact absurd h.1.2.2 (not_ended h.2 hterm hterminal)

theorem does_failAuthority (hP : Kept i P) (hblam : ∀ s, P s → s.Blamed)
    (hsame : ∀ s, P s → P { s with typeFailed := true, recorded := s.recorded + 1 }) :
    Does i P failAuthority (fun _ => P) E :=
  meets_modify hP fun s hI hs => ⟨owed_failed hI (hblam s hs) _, hsame s hs⟩

/-- Thread `i` has nothing to give back, and the task was audited. -/
abbrev Overdue (mine : Prop) (i : ℕ) (s : EntryStore) : Prop :=
  Clear mine i s ∧ s.history.audited

theorem kept_overdue : Kept i (Overdue mine i) :=
  (kept_quiet []).and (kept_of_grows fun _ _ hg => hg.audited)

theorem does_finalizeTerminal_overdue :
    Does i (Overdue mine i) (finalizeTerminal i) (fun _ => Overdue mine i) E :=
  meets_mono (does_frame does_finalizeTerminal_blamed fun _ _ hg => hg.audited)
    (fun _ _ h => ⟨⟨h.1, .inl h.2⟩, h.2⟩) (fun _ _ _ h => ⟨h.1.1, h.2⟩) fun _ _ _ h => h.1

theorem does_failOverdue (hlive : expected ≠ .terminating ∧ expected.isTerminal = false)
    (hidle : expected ≠ .moving ∧ expected ≠ .running) :
    Does i (Overdue mine i) (failFrom i expected .failed reason).attempt
      (fun _ => Overdue mine i) E := by
  refine meets_attempt (does_failFrom reason kept_overdue (.inr rfl) hidle.1 hlive
    (fun s _ h hstate => .inr (.inr ⟨h.2, hstate ▸ hidle.2⟩)) (fun s hI h hstate => ?_)
    fun _ _ _ h _ => h)
  refine ⟨h.1.terminate _ ?_ hI fun _ => trivial, h.2⟩
  simpa [EntryStore.ended, hstate] using hlive

/-- A failure is recorded by an audit, or by somebody who has found a reason for it. -/
theorem does_recordAuthorityFailure_audited :
    Does i (Overdue mine i) (recordAuthorityFailure i reason) (fun _ => Overdue mine i) E := by
  have hfail : Does i (Overdue mine i) failAuthority (fun _ => Overdue mine i) E :=
    does_failAuthority kept_overdue (fun s h => .inl h.2) fun s h => ⟨{ h.1 with }, h.2⟩
  refine meets_bind (does_look kept_overdue) fun state => ?_
  split_ifs with hterminal hterm hlive
  · exact meets_pure fun s _ h => h
  · exact does_finalizeTerminal_overdue
  · refine meets_bind (does_failOverdue reason ⟨hterm, by simpa using hterminal⟩ ?_) fun begun => ?_
    · constructor <;> rintro rfl <;> simp at hlive
    · cases begun with
      | ok _ => exact does_finalizeTerminal_overdue
      | error e => exact hfail
  · exact hfail

theorem does_recordAuthorityFailure_calm :
    Does i (fun s => (Clear mine i s ∧ Waiting i .queued s) ∧ s.Blamed)
      (recordAuthorityFailure i reason) (fun _ s => Clear mine i s ∧ Duty s) E := by
  refine meets_bind (does_see (((kept_quiet []).and (kept_waiting .queued)).and kept_blamed)) fun
    state => ?_
  split_ifs with hterminal hterm hlive
  · exact meets_pure fun s hI h =>
      ⟨h.1.1.1, .inl (.inl (settled_of_terminal hI (h.2 ▸ hterminal)))⟩
  · refine meets_mono does_finalizeTerminal_free (fun s _ h => ⟨h.1.1.1, h.1.1.2.1, ?_⟩)
      (fun _ _ _ h => ⟨h.1, .inl h.2⟩) fun _ _ _ h => h
    simp [EntryStore.ended, h.2, hterm]
  · by_cases hqueued : state = .queued
    swap
    · intro s _ h
      rcases h.1.1.2.2 with hs | hs
      · exact absurd (h.2.symm.trans hs) hqueued
      · exact absurd hs (not_ended h.2 hterm hterminal)
    subst hqueued
    refine meets_try (N := fun _ s => (Clear mine i s ∧ Calm i s ∧ s.ended) ∧ s.Blamed)
      (meets_mono (does_frame (does_failFrom_calm mine reason (.inr rfl) (by simp)
        (by simp [isTerminal])) fun _ _ hg => hg.blamed) ?_ (fun _ _ _ h => h.1)
        fun _ _ _ h => h) (fun _ => ?_) fun _ => ?_
    · intro s hI h
      have hnot : s.ended = false := by simp [EntryStore.ended, h.2, isTerminal]
      exact ⟨⟨h.1.1.1, calm_of_live hI h.1.1.2.1 hnot, h.1.1.2⟩, h.1.2⟩
    · exact meets_post does_finalizeTerminal_free (fun _ _ _ h => ⟨h.1, .inl h.2⟩) fun _ _ _ h => h
    · refine meets_post (does_failAuthority (P := fun s => (Clear mine i s ∧
        Calm i s ∧ s.ended) ∧ s.Blamed) ?_ (fun s h => h.2) fun s h => ?_)
        (fun _ s _ h => ⟨h.1.1, h.1.2.1.duty h.1.2.2⟩) fun _ _ _ h => h
      · exact ((kept_quiet []).and (kept_calm.and kept_ended)).and kept_blamed
      · exact ⟨⟨{ h.1.1 with }, { h.1.2.1 with }, h.1.2.2⟩, h.2⟩
  · intro s _ h
    rcases h.1.1.2.2 with hs | hs
    · exact absurd (.inr (.inr (h.2.symm.trans hs))) hlive
    · exact absurd hs (not_ended h.2 hterm hterminal)

/-! ## A task that is not run -/

/-- What is left of a task in hand. -/
def Over (mine : Prop) (i : ℕ) (s : EntryStore) : Prop :=
  Quiet mine True i [] s ∧ (s.history.holder.thread = some i → Duty s)

theorem does_finalize_over :
    Does i (fun s => Clear mine i s ∧ Free i s ∧ s.ended) (finalizeTerminal i)
      (fun _ => Over mine i) E :=
  meets_post does_finalizeTerminal_free (fun _ _ _ h => ⟨h.1, fun _ => .inl h.2⟩) fun _ _ _ h => h

theorem does_finalize_seen (hterm : state = .terminating)
    (hfree : ∀ s, P s → Clear mine i s ∧ Free i s) :
    Does i (fun s => P s ∧ s.state = state) (finalizeTerminal i) (fun _ => Over mine i) E :=
  meets_pre does_finalize_over fun s _ h =>
    ⟨(hfree s h.1).1, (hfree s h.1).2, by simp [EntryStore.ended, h.2, hterm]⟩

theorem does_unlessEnded (hP : Kept i P) (hfree : ∀ s, P s → Free i s)
    (hp : Does i (fun s => Clear mine i s ∧ Calm i s ∧ P s) p (fun _ => Over mine i) E) :
    Does i (fun s => Clear mine i s ∧ P s) (unlessEnded i p) (fun _ => Over mine i) E := by
  refine meets_bind (does_see ((kept_quiet []).and hP)) fun state => ?_
  split_ifs with hterm hterminal
  · exact does_finalize_seen hterm fun s h => ⟨h.1, hfree s h.2⟩
  · exact meets_pure fun s hI h =>
      ⟨h.1.1, fun _ => .inl (.inl (settled_of_terminal hI (h.2 ▸ hterminal)))⟩
  · refine meets_pre hp fun s hI h => ⟨h.1.1, calm_of_live hI (hfree s h.1.2) ?_, h.1.2⟩
    simpa [EntryStore.ended, h.2] using And.intro hterm hterminal

theorem does_failCalm (hexpected : expected ≠ .moving)
    (hlive : expected ≠ .terminating ∧ expected.isTerminal = false)
    (hp : p = do
      let begun ← (failFrom i expected .failed reason).attempt
      match begun with
      | .ok () => finalizeTerminal i
      | .error _ => return) :
    Does i (fun s => Clear mine i s ∧ Calm i s ∧ Waiting i expected s) p
      (fun _ => Over mine i) E := by
  subst hp
  exact meets_try (does_failFrom_calm mine reason (.inr rfl) hexpected hlive)
    (fun _ => does_finalize_over)
    fun _ => meets_pure fun s _ h => ⟨h.1, fun _ => h.2.1.duty h.2.2⟩

theorem does_failBeforeRunning :
    Does i (fun s => Clear mine i s ∧ Waiting i .queued s) (failBeforeRunning i reason)
      (fun _ => Over mine i) E :=
  does_unlessEnded (kept_waiting .queued) (fun _ h => h.1)
    (does_failCalm reason (by simp) (by simp [isTerminal]) rfl)

theorem does_failBeforeRunning_audited :
    Does i (Overdue mine i) (failBeforeRunning i reason) (fun _ => Overdue mine i) E := by
  refine meets_bind (does_look kept_overdue) fun state => ?_
  split_ifs with hterm hterminal
  · exact does_finalizeTerminal_overdue
  · exact meets_pure fun s _ h => h
  refine meets_bind (does_failOverdue reason (by simp [isTerminal]) (by simp)) fun begun => ?_
  cases begun with
  | ok _ => exact does_finalizeTerminal_overdue
  | error e => exact meets_pure fun s _ h => h

/-- A future that is dropped before the payload is taken. -/
theorem does_backstop :
    Does i (fun s => Clear mine i s ∧ Calm i s ∧ Waiting i .queued s)
      (backstop i .queued reason) (fun _ => Over mine i) E := by
  refine meets_bind (does_see ((kept_quiet []).and (kept_calm.and (kept_waiting .queued))))
    fun state => ?_
  split_ifs with hterm
  · exact does_finalize_seen hterm fun s h => ⟨h.1, h.2.2.1⟩
  · exact meets_pre (does_failCalm reason (by simp) (by simp [isTerminal]) rfl) fun s _ h => h.1

end TaskEntry

end NasaRuntime.Napart
