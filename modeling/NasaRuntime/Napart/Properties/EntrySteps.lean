import NasaRuntime.Napart.Properties.EntryRules

/-!
# The steps on a task entry

For every step of a program, what a thread has to know so that the invariant is kept and the others
can rely on the step (`Owed`). A thread that has the task in hand may do what the protocol lets it
do; everybody else may end the task, and finalize it once it has ended.
-/

namespace NasaRuntime.Napart

open List EntryState Option LogicalOwner

namespace TaskEntry

open Sys (Owes)
open Holder EntryRely EntryStore

/-- The step keeps the invariant, and the others can rely on it. -/
abbrev Owed (i : ℕ) (s s' : EntryStore) : Prop := Owes EntryRely EntryInv i s s'

variable {i j : ℕ} {s s' : EntryStore}
variable {place : LogicalOwner} {state : EntryState} {account : Account}

/-- The invariant with its rules side by side, of which a step mentions those that it touches. -/
structure Rules (s : EntryStore) : Prop extends Custody s, Payload s, Numbered s, Requested s where
  ending : Ending s
  balanced : Balanced s
  blame : s.typeFailed ∨ s.recorded ≠ 0 ∨ s.stopped → s.Blamed

theorem EntryInv.rules (hI : EntryInv s) : Rules s :=
  { hI.custody, hI.payload, hI.numbered, hI.requested, hI with }

theorem EntryInv.of (h : Rules s) : EntryInv s :=
  ⟨h.ending, h.toCustody, h.balanced, h.toPayload, h.toNumbered, h.toRequested, h.blame⟩

theorem ended_iff : s.ended ↔ s.state = .terminating ∨ s.state.isTerminal := by
  simp [ended]

theorem live_of_state (hst : s.state = state)
    (h : (state == .terminating || state.isTerminal) = false) : s.ended = false := by
  rw [ended, hst, h]

theorem not_ended (hst : s.state = state) (h : state ≠ .terminating)
    (h' : ¬ state.isTerminal) : ¬ s.ended := by
  simp [ended, hst, h, h']

theorem Owed.refl (hI : EntryInv s) : Owed i s s := ⟨hI, fun j _ => .refl j s⟩

/-- Everybody sees the store grow. -/
theorem Owed.grows (h : Owed i s s') : Grows s s' := (h.2 (i + 1) (by omega)).grows

theorem not_mine (hmine : s.history.holder.thread = some i) (hj : j ≠ i) :
    s.history.holder.thread ≠ some j := by
  rw [hmine]
  simpa using hj.symm

theorem held_of_handler {P : Prop} (hholder : s.history.holder = .handler i) (hj : j ≠ i)
    (h : s.history.holder.thread = some j) : P :=
  absurd h (not_mine (congrArg thread hholder) hj)

theorem not_queued (hmine : s.history.holder.thread = some i) : s.history.holder ≠ .queued := by
  intro h
  simp [h, thread] at hmine

theorem not_fresh (hmine : s.history.holder.thread = some i) : s.history.holder ≠ .fresh := by
  intro h
  simp [h, thread] at hmine

/-! ## Flags -/

variable (hI : EntryInv s)

include hI

/-- The flags of the task type say nothing about the entry, but that a failure has its cause. -/
theorem owed_flags {moving bound typeFailed stopped : Bool} {recorded : ℕ}
    (hblame : typeFailed ∨ recorded ≠ 0 ∨ stopped → s.Blamed) :
    Owed i s { s with moving, bound, typeFailed, recorded, stopped } :=
  ⟨.of { hI.rules with
      ending := { hI.ending with }
      blame := hblame },
    fun j _ => { refl j s with
      grows := { Grows.refl s with }
      held := fun _ => { HeldKept.refl j s with } }⟩

theorem owed_moving (moving : Bool) : Owed i s { s with moving } := owed_flags hI hI.blame

theorem owed_bound (bound : Bool) : Owed i s { s with bound } := owed_flags hI hI.blame

/-- The task type is failed only if something has gone wrong. -/
theorem owed_failed (hblam : s.Blamed) (recorded : ℕ) :
    Owed i s { s with typeFailed := true, recorded } :=
  owed_flags hI fun _ => hblam

/-- The handle is given out when the task is published. -/
theorem owed_handle (hlaunc : s.history.holder.isLaunched) :
    Owed i s { s with handle := true } :=
  ⟨.of { hI.rules with
      ending := { hI.ending with } },
    fun j _ => { refl j s with
      grows := { Grows.refl s with }
      held := fun _ => { HeldKept.refl j s with
        handle := fun hprod => by simp [hprod, isLaunched] at hlaunc } }⟩

/-- A task that is cancelled leaves the table. -/
theorem owed_untabled (hfresh : s.history.holder ≠ .fresh) :
    Owed i s { s with delayed := false } :=
  ⟨.of { hI.rules with
      ending := { hI.ending with }
      fresh := fun h => absurd h hfresh
      table := nofun },
    fun j _ => { refl j s with
      grows := { Grows.refl s with }
      held := fun _ => { HeldKept.refl j s with } }⟩

theorem owed_takeDelayed :
    Owed i s { s with
      delayed := false
      history.taker := if s.delayed then some i else s.history.taker } := by
  cases hdel : s.delayed with
  | false =>
    refine ⟨.of { hI.rules with
      ending := { hI.ending with }
      fresh := fun h _ => hI.custody.fresh h hdel
      table := nofun }, fun j _ => { refl j s with
        grows := { Grows.refl s with }
        held := fun _ => { HeldKept.refl j s with } }⟩
  | true =>
    have hnone := hI.custody.table hdel
    refine ⟨.of { hI.rules with
      ending := { hI.ending with }
      fresh := fun _ _ => rfl
      table := nofun }, fun j hj => { refl j s with
        grows := { Grows.refl s with
          taker := fun t ht => by rw [hnone] at ht; cases ht }
        taker := fun h => by
          simp only [if_true, some.injEq] at h
          exact absurd h.symm hj
        held := fun _ => { HeldKept.refl j s with } }⟩

theorem owed_refused : Owed i s { s with history.refused := true } :=
  ⟨.of { hI.rules with
      ending := { hI.ending with }
      blame := fun _ => .inr (.inr (.inr (.inl rfl))) },
    fun j _ => { refl j s with
      grows := { Grows.refl s with refused := fun _ => rfl }
      held := fun _ => { HeldKept.refl j s with } }⟩

theorem owed_audited : Owed i s { s with history.audited := true } := by
  refine ⟨.of { hI.rules with
    ending := { hI.ending with shifted := fun h => ⟨(hI.ending.shifted h).1, .inr rfl⟩ }
    blame := fun _ => .inl rfl }, fun j _ => ?_⟩
  refine { refl j s with
    grows := { Grows.refl s with audited := fun _ => rfl }
    owner := fun _ => .inl rfl
    held := fun _ => ?_ }
  constructor <;> first
    | exact rfl
    | exact .inl rfl
    | exact fun _ _ => .inl rfl
    | exact fun h h' => ⟨h, h'⟩
    | exact fun _ => rfl

/-! ## What a thread has to give back -/

attribute [local simp] acquired released stored

omit hI in
theorem filter_erase_of_ne (owed : List (ℕ × Account)) (account : Account) (hj : j ≠ i) :
    (owed.erase (i, account)).filter (·.1 = j) = owed.filter (·.1 = j) := by
  induction owed with
  | nil => rfl
  | cons entry owed ih =>
    rw [erase_cons]
    by_cases hent : entry = (i, account)
    · simp [hent, hj.symm]
    · simp only [beq_iff_eq, hent, if_false, filter_cons, ih]

omit hI in
theorem owedBy_erase (owed : List (ℕ × Account)) (account : Account) :
    ((owed.erase (i, account)).filter (·.1 = i)).map (·.2) =
      ((owed.filter (·.1 = i)).map (·.2)).erase account := by
  induction owed with
  | nil => rfl
  | cons entry owed ih =>
    obtain ⟨k, other⟩ := entry
    rw [erase_cons]
    by_cases hk : k = i
    · by_cases hoth : other = account
      · simp [hk, hoth]
      · simp [hk, hoth, ih]
    · simp [hk, ih]

variable {owed : List (ℕ × Account)} {rest : List LogicalOwner} {record : TerminalRecord}

omit hI in
theorem countP_erase_add (other : Account) (h : (i, account) ∈ owed) :
    owed.countP (·.2 = other) =
      (owed.erase (i, account)).countP (·.2 = other) + (decide (account = other)).toNat := by
  rw [(perm_cons_erase h).countP_eq, countP_cons]
  by_cases heq : account = other <;> simp [heq]

omit hI in
theorem mem_owed (h : account ∈ s.owedBy i) : (i, account) ∈ s.history.owed := by
  simp only [owedBy, List.mem_map, mem_filter, decide_eq_true_eq] at h
  obtain ⟨⟨k, other⟩, ⟨hmem, rfl⟩, rfl⟩ := h
  exact hmem

omit hI in
theorem owedBy_acquire (account : Account) :
    (s.acquire i account).owedBy i = account :: s.owedBy i := by
  simp [owedBy, EntryStore.acquire]

omit hI in
theorem owedBy_release (account : Account) :
    (s.release i account).owedBy i = (s.owedBy i).erase account :=
  owedBy_erase s.history.owed account

/-- Accounts that stay balanced and are the thread's own are nobody else's business. -/
theorem owed_accounts {queuedPermit globalPermit : Bool} {ledger : List LedgerNote}
    (hbal : Balanced { s with
      queuedPermit, globalPermit, history.owed := owed, history.ledger := ledger })
    (howed : ∀ j, j ≠ i → owed.filter (·.1 = j) = s.history.owed.filter (·.1 = j)) :
    Owed i s { s with
      queuedPermit, globalPermit, history.owed := owed, history.ledger := ledger } :=
  ⟨.of { hI.rules with
      ending := { hI.ending with }
      balanced := hbal },
    fun j hj => { refl j s with
      grows := { Grows.refl s with }
      owed := by simp only [owedBy, howed j hj]
      held := fun _ => { HeldKept.refl j s with } }⟩

theorem owed_acquire (account : Account) : Owed i s (s.acquire i account) := by
  refine owed_accounts hI (fun other => ?_) fun j hj => ?_
  · have hbal := hI.balanced other
    simp only [acquired, released, stored] at hbal
    simp only [acquired, released, stored, count_append, countP_cons, hbal]
    by_cases heq : account = other
    · simp [heq]
      omega
    · simp [heq]
  · simp [hj.symm]

theorem owed_release (h : account ∈ s.owedBy i) :
    Owed i s (s.release i account) := by
  refine owed_accounts hI (fun other => ?_) fun j hj => ?_
  · have hbal := hI.balanced other
    rw [countP_erase_add other (mem_owed h)] at hbal
    simp only [acquired, released, stored] at hbal
    simp only [acquired, released, stored, count_append, hbal]
    by_cases heq : account = other
    · simp [heq]
      omega
    · simp [heq]
  · exact filter_erase_of_ne _ _ hj

/-- The permit that was acquired for a delayed task is kept in the entry. -/
theorem owed_installPermit (hnone : s.queuedPermit = false) (h : .queued ∈ s.owedBy i) :
    Owed i s { s with
      queuedPermit := true
      history.owed := s.history.owed.erase (i, .queued) } := by
  refine owed_accounts hI (fun other => ?_) fun j hj => ?_
  · have hbal := hI.balanced other
    rw [countP_erase_add other (mem_owed h)] at hbal
    cases other <;>
      simp_all
    omega
  · exact filter_erase_of_ne _ _ hj

theorem owed_takeQueued :
    Owed i s { s with
      queuedPermit := false
      history.owed :=
        if s.queuedPermit then (i, .queued) :: s.history.owed else s.history.owed } := by
  refine owed_accounts hI (fun other => ?_) fun j hj => ?_
  · have hbal := hI.balanced other
    cases hperm : s.queuedPermit <;> cases other <;>
      simp_all
    omega
  · cases s.queuedPermit <;> simp [hj.symm]

theorem owed_takeGlobal :
    Owed i s { s with
      globalPermit := false
      history.owed :=
        if s.globalPermit then (i, .global) :: s.history.owed else s.history.owed } := by
  refine owed_accounts hI (fun other => ?_) fun j hj => ?_
  · have hbal := hI.balanced other
    cases hperm : s.globalPermit <;> cases other <;>
      simp_all
    omega
  · cases s.globalPermit <;> simp [hj.symm]

/-! ## Tasks that have not ended -/

/-- Nothing of the end has happened. -/
structure Live (s : EntryStore) : Prop where
  settling : s.history.settling = false
  finishers : s.history.finishers = []
  owner : s.owner.isTerminal = false
  collected : s.history.collected = false
  terminal : s.terminal = none
  settler : s.history.settler = none
  pending : s.pendingTerminal = none
  blocked : s.history.blocked = false
  collided : s.history.collided = false
  shifted : s.history.shifted = false
  canceller : s.history.canceller = none
  published : ∀ state, .published state ∉ s.history.notes

omit hI in
theorem not_terminating (hlive : s.ended = false) : s.state ≠ .terminating := by
  intro h
  simp [ended, h] at hlive

omit hI in
theorem not_terminal (hlive : s.ended = false) : s.state.isTerminal = false := by
  simp only [ended, Bool.or_eq_false_iff] at hlive
  exact hlive.2

theorem EntryInv.live (hlive : s.ended = false) : Live s := by
  have hno : ∀ {c : Bool}, (c = true → s.ended = true) → c = false := by
    intro c h
    cases c with
    | false => rfl
    | true => exact absurd (h rfl) (by simp [hlive])
  have hsett := hno hI.ending.settling
  have hfin : s.history.finishers = [] := by
    by_contra h
    simp [hI.ending.finishers h] at hsett
  have hcoll : s.history.collected = false :=
    hno fun h => hI.ending.settling (hI.ending.collected h).1
  have hterm : s.terminal = none := by
    by_contra h
    simp [hI.ending.terminal (isSome_iff_ne_none.2 h)] at hcoll
  have hsettl := hI.ending.settler
  refine ⟨hsett, hfin, ?_, hcoll, hterm, ?_, ?_, hno hI.ending.blocked,
    hno hI.ending.collided, hno fun h => (hI.ending.shifted h).1, ?_, ?_⟩
  · by_contra h
    exact hI.ending.closed (by simpa using h) hfin
  · simpa [hterm] using hsettl
  · by_contra h
    obtain ⟨record, hrec⟩ := ne_none_iff_exists'.1 h
    exact not_terminating hlive (hI.ending.pending record hrec).1
  · by_contra h
    simp [hI.requested.canceller (isSome_iff_ne_none.2 h)] at hlive
  · intro state h
    have hst := hI.payload.published state h
    rw [← hst.1, not_terminal hlive] at hst
    cases hst.2

omit hI in
theorem Live.ending (h : Live s) (hlive : s.ended = false) : Ending s where
  settling hs := by simp [h.settling] at hs
  finishers hs := absurd h.finishers hs
  closed hs := by simp [h.owner] at hs
  reopened hs := absurd h.finishers hs
  single := by simp [h.finishers]
  collected hs := by simp [h.collected] at hs
  terminal hs := by simp [h.terminal] at hs
  settler := by simp [h.terminal, h.settler]
  settles k hs := by simp [h.settler] at hs
  status hs := by simp [not_terminal hlive] at hs
  pending record hs := by simp [h.pending] at hs
  record hs := absurd hs (not_terminating hlive)
  kept record hs := by simp [h.terminal] at hs
  blocked hs := by simp [h.blocked] at hs
  collided hs := by simp [h.collided] at hs
  shifted hs := by simp [h.shifted] at hs

theorem untaken (hlive : s.ended = false) (hrun : s.state ≠ .running) :
    .taken ∉ s.history.notes := by
  intro h
  rcases (hI.payload.taken h).2 with hs | hs
  · exact hrun hs
  · simp [hs] at hlive

/-- The payload of a task that goes on in another state. -/
theorem Payload.restate (hlive : s.ended = false) (hrun : s.state ≠ .running) (state : EntryState)
    (hst : state.isTerminal = false) : Payload { s with state } :=
  { hI.payload with
    taken := fun h => absurd h (untaken (s := s) hI hlive hrun)
    published := fun state h => absurd h ((EntryInv.live (s := s) hI hlive).published state)
    noted := fun h => by simp [hst] at h }

theorem fresh_of_delayed (hst : s.state = .delayed) :
    s.history.holder = .fresh := by
  rcases hI.custody.admits with h | ⟨h, -⟩
  · cases hholder : s.history.holder <;> simp [hholder, hst, admits] at h ⊢
  · simp [ended, hst, isTerminal] at h

/-- A request is on its way only while the task is moved. -/
theorem late_of_promise (hlive : s.ended = false) (hmove : s.state ≠ .moving)
    (hidle : s.history.handover = .idle) (h : s.history.promises ≠ []) : s.history.late := by
  rcases hI.requested.promised h with hlate | ⟨-, hs | ⟨hs, -⟩ | ⟨hs, -⟩ | hs⟩
  · exact hlate
  · simp [hs] at hlive
  · exact absurd hs hmove
  · simp [hidle] at hs
  · simp [hidle] at hs

theorem handover_idle (hlive : s.ended = false)
    (h : s.physicalRetention ≠ .container ∨ s.state ≠ .queued ∨ ∀ k, s.history.holder ≠ .handler k) :
    s.history.handover = .idle := by
  by_contra hidle
  obtain ⟨hbox, hqueued, k, hk⟩ := hI.requested.handover hidle hlive
  rcases h with h | h | h
  · exact h hbox
  · exact h hqueued
  · exact h k hk

/-! ## Publishing -/

theorem owed_claimDelayed (hst : s.state = .delayed) :
    Owed i s { s with state := .enqueueing, history.holder := .producer i } := by
  have hlive := live_of_state hst rfl
  have hfresh := fresh_of_delayed hI hst
  have hidle := handover_idle hI hlive (.inr (.inl (by simp [hst])))
  have hlate := late_of_promise hI hlive (by simp [hst]) hidle
  have hunp := hI.custody.unplaced (by simp [hfresh, isPlaced])
  refine ⟨.of { hI.rules with
    ending := Live.ending { hI.live hlive with } rfl
    admits := .inl rfl
    fresh := fun h => by cases h
    shifted := fun _ => ⟨i, rfl⟩
    unplaced := fun _ => hunp
    loose := fun h => by rcases h with h | ⟨k, h⟩ <;> cases h
    placed := fun h => by cases h
    queued := fun h => by cases h
    items := fun _ => hI.custody.items (by simp [hfresh])
    toPayload := { Payload.restate hI hlive (by simp [hst]) .enqueueing rfl with }
    promised := fun h => .inl (hlate h)
    handover := fun h => absurd hidle h
    canceller := fun h => by simp [(hI.live hlive).canceller] at h }, fun j hj => ?_⟩
  refine { refl j s with
    grows := { Grows.refl s with
      ended := fun h => by simp [hlive] at h
      final := fun h => by simp [hst, isTerminal] at h
      fresh := fun _ h => by cases h
      launched := fun h => by simp [hfresh, isLaunched] at h
      running := fun h => by simp [hst] at h }
    settler := fun h => by simp [(hI.live hlive).settler] at h
    hand := fun h => by
      simp only [thread, some.injEq] at h
      exact absurd h.symm hj
    held := fun h => by simp [hfresh, thread] at h }

/-- The owner of a task that is about to be published. -/
theorem owed_setOwner (hholder : s.history.holder = .producer i)
    (hcross : s.ended → s.history.crossed ∨ s.history.audited) {owner : Owner}
    (hown : owner.isTerminal = false) : Owed i s (setOwner owner s) := by
  refine ⟨.of { hI.rules with
    ending := { hI.ending with
      closed := fun h => by simp [setOwner, hown] at h
      reopened := fun h => ?_
      single := ?_
      shifted := fun h => ?_ }
    shifted := fun _ => ⟨i, hholder⟩
    queued := fun h => by simp [setOwner, hholder] at h }, fun j hj => ?_⟩
  · right
    simp [setOwner, hI.ending.settling (hI.ending.finishers h)]
  · rcases hI.ending.single with h | h
    · exact .inl h
    · exact .inr (by simp [setOwner, h])
  · simp only [setOwner, Bool.or_eq_true] at h
    rcases h with h | h
    · exact hI.ending.shifted h
    · exact ⟨h, hcross h⟩
  · refine { refl j s with
      grows := { Grows.refl s with shifted := fun h => by simp [setOwner, h] }
      owner := fun h => ?_
      held := fun h => absurd h (not_mine (congrArg thread hholder) hj) }
    have hshift : (setOwner owner s).history.shifted = true := by
      simp [setOwner, hI.ending.settling h]
    exact .inr (.inr (.inr hshift))

/-- Who has the task in hand says where it is kept. -/
theorem owed_retention (hmine : s.history.holder.thread = some i)
    (hclos : ∀ k, s.history.holder ≠ .closer k) {retention : PhysicalRetention}
    (hnew : retention = .container ∨ retention.settles)
    (hhand : retention = .container ∨ s.history.handover = .idle ∨ s.ended) :
    Owed i s { s with physicalRetention := retention } := by
  refine ⟨.of { hI.rules with
    ending := { hI.ending with }
    loose := fun h => ?_
    queued := fun h => absurd h (not_queued hmine)
    retention := hnew
    handover := fun h hlive => ?_ }, fun j hj => { refl j s with
      grows := { Grows.refl s with }
      held := fun h => absurd h (not_mine hmine hj) }⟩
  · rcases h with h | ⟨k, h⟩
    · exact absurd h (not_fresh hmine)
    · exact absurd h (hclos k)
  · rcases hhand with hbox | hidle | hend
    · exact ⟨hbox, (hI.requested.handover h hlive).2⟩
    · exact absurd hidle h
    · exact absurd (hlive.symm.trans hend) (by simp)

theorem owed_enqueue (hholder : s.history.holder = .producer i) (hst : s.state = .enqueueing)
    {logical : LogicalOwner} (howed : s.owedBy i = [logical.account, .logical]) :
    Owed i s (s.enqueue i logical) := by
  have hlive := live_of_state hst rfl
  have hidle := handover_idle hI hlive (.inr (.inl (by simp [hst])))
  have hlate := late_of_promise hI hlive (by simp [hst]) hidle
  have hunp := hI.custody.unplaced (by simp [hholder, isPlaced])
  have hacc : (i, logical.account) ∈ s.history.owed := mem_owed (by simp [howed])
  have hne : (i, Account.logical) ≠ (i, logical.account) := by simp [account]
  have hlog : (i, Account.logical) ∈ s.history.owed.erase (i, logical.account) :=
    (mem_erase_of_ne hne).2 (mem_owed (by simp [howed]))
  refine ⟨.of { hI.rules with
    ending := Live.ending (s := s.enqueue i logical) { hI.live hlive with } rfl
    admits := .inl rfl
    fresh := fun h => by cases h
    shifted := fun h => by
      have hshift := (hI.live hlive).shifted
      exact absurd (hshift.symm.trans h) (by simp)
    unplaced := fun h => by cases h
    loose := fun h => by rcases h with h | ⟨k, h⟩ <;> cases h
    placed := fun _ _ => rfl
    queued := fun h => by cases h
    items := fun _ => hI.custody.items (by simp [hholder])
    balanced := fun other => ?_
    toPayload := { Payload.restate hI hlive (by simp [hst]) .queued rfl with }
    promised := fun h => .inl (hlate h)
    handover := fun h => absurd hidle h
    canceller := fun h => by
      have hnone := (hI.live hlive).canceller
      exact absurd h (by simp [enqueue, hnone]) }, fun j hj => ?_⟩
  · have hbal := hI.balanced other
    rw [countP_erase_add other hacc, countP_erase_add other hlog] at hbal
    cases other with
    | container slot main =>
      by_cases heq : logical.account = .container slot main
      · simp [enqueue, hunp.1, heq] at hbal ⊢
        omega
      · simp [enqueue, hunp.1, heq] at hbal ⊢
        omega
    | logical =>
      simp [enqueue, hunp.1, account] at hbal ⊢
      omega
    | queued | global =>
      simpa [enqueue, account] using hbal
  · refine { refl j s with
      grows := { Grows.refl s with
        ended := fun h => by simp [hlive] at h
        final := fun h => by simp [hst, isTerminal] at h
        fresh := fun _ h => by cases h
        launched := fun _ => rfl
        running := fun h => by simp [hst] at h }
      owed := ?_
      settler := fun h => by
        have hnone := (hI.live hlive).settler
        exact absurd h (by simp [enqueue, hnone])
      hand := fun h => by
        simp only [enqueue, thread, some.injEq] at h
        exact absurd h.symm hj
      held := fun h => absurd h (not_mine (congrArg thread hholder) hj) }
    simp only [owedBy, enqueue, filter_erase_of_ne _ _ hj]

theorem owed_push (hmine : s.history.holder.thread = some i) (hplac : s.history.holder.isPlaced)
    (hlog : s.logicalOwner = some place) (hbox : s.physicalRetention = .container)
    (hsett : s.history.settling = false) (hown : s.owner = place.owner)
    (hmove : ∀ descriptor, s.moveDescriptor = some descriptor → descriptor.targetOwner = place.owner)
    (hst : s.state = .queued ∨ s.ended) (hhand : s.history.handover = .idle ∨ s.ended) :
    Owed i s (s.push place) := by
  have hit := hI.custody.items (not_queued hmine)
  refine ⟨.of { hI.rules with
    ending := { hI.ending with }
    admits := ?_
    fresh := nofun
    shifted := fun h => ?_
    unplaced := nofun
    loose := nofun
    placed := fun _ _ => by simp [push, hlog]
    queued := fun _ => ⟨place, by simp [push, hit], hlog, hbox, hsett, hown, hmove⟩
    items := fun h => absurd rfl h
    handover := fun h hlive => ?_ }, fun j hj => { refl j s with
      grows := { Grows.refl s with
        fresh := nofun
        launched := fun _ => rfl }
      hand := nofun
      held := fun h => absurd h (not_mine hmine hj) }⟩
  · rcases hst with h | h
    · exact .inl (by simp [push, h, admits])
    · exact .inr ⟨h, by simp [push]⟩
  · obtain ⟨k, hk⟩ := hI.custody.shifted h
    simp [hk, isPlaced] at hplac
  · rcases hhand with hidle | hend
    · exact absurd hidle h
    · exact absurd (hlive.symm.trans hend) (by simp)

theorem holder_of_items (h : s.items = place :: rest) :
    s.history.holder = .queued ∧ Contained s place := by
  have hholder : s.history.holder = .queued := by
    by_contra hne
    rw [hI.custody.items hne] at h
    cases h
  obtain ⟨other, hcont⟩ := hI.custody.queued hholder
  have heq : other = place := by
    have hitem := hcont.1.symm.trans h
    simp only [cons.injEq] at hitem
    exact hitem.1
  exact ⟨hholder, heq ▸ hcont⟩

theorem owed_pop (h : s.items = place :: rest) : Owed i s (s.pop i) := by
  obtain ⟨hholder, hcont⟩ := holder_of_items hI h
  refine ⟨.of { hI.rules with
    ending := { hI.ending with }
    admits := ?_
    fresh := nofun
    shifted := fun h => ?_
    unplaced := nofun
    loose := nofun
    placed := fun _ => hI.custody.placed (by simp [hholder, isPlaced])
    queued := nofun
    items := fun _ => by simp [EntryStore.pop, hcont.1]
    handover := fun h hlive => ?_ }, fun j hj => { refl j s with
      grows := { Grows.refl s with
        fresh := nofun
        launched := fun _ => rfl }
      hand := fun h => by
        simp only [EntryStore.pop, thread, some.injEq] at h
        exact absurd h.symm hj
      held := fun h => by simp [hholder, thread] at h }⟩
  · rcases hI.custody.admits with h | ⟨h, -⟩
    · left
      rw [hholder] at h
      cases hst : s.state <;> simp_all [EntryStore.pop, admits]
    · exact .inr ⟨h, by simp [EntryStore.pop]⟩
  · obtain ⟨k, hk⟩ := hI.custody.shifted h
    simp [hholder] at hk
  · have hidle := handover_idle hI hlive (.inr (.inr fun k => by simp [hholder]))
    exact absurd hidle h

/-! ## Moves -/

/-- A descriptor is removed by who has the task in hand, by who drew its epoch, or by an audit. -/
theorem owed_clear (audit : Bool)
    (hwho : s.history.holder.thread = some i ∨ (∃ descriptor, s.moveDescriptor = some descriptor ∧
      s.history.epochs[descriptor.moveEpoch - 1]? = some i) ∨ audit = true) :
    Owed i s { s with
      moveDescriptor := none
      history.audited := s.history.audited || audit } := by
  have haud : s.history.audited → (s.history.audited || audit) = true := by
    intro h
    simp [h]
  refine ⟨.of { hI.rules with
    ending := { hI.ending with
      shifted := fun h => ⟨(hI.ending.shifted h).1, (hI.ending.shifted h).2.imp id haud⟩ }
    unplaced := fun h => ⟨(hI.custody.unplaced h).1, rfl⟩
    queued := fun h => ?_
    descriptor := nofun
    blame := fun h => (hI.blame h).imp haud id }, fun j hj => ?_⟩
  · obtain ⟨place, hitem, hlog, hbox, hsett, hown, -⟩ := hI.custody.queued h
    exact ⟨place, hitem, hlog, hbox, hsett, hown, nofun⟩
  · refine { refl j s with
      grows := { Grows.refl s with audited := haud }
      owner := fun _ => .inl rfl
      held := fun hheld => ?_ }
    have hmove : audit = true ∨ ∃ descriptor, s.moveDescriptor = some descriptor ∧
        s.history.epochs[descriptor.moveEpoch - 1]? ≠ some j := by
      rcases hwho with h | ⟨descriptor, hdesc, hdrawn⟩ | h
      · exact absurd hheld (not_mine h hj)
      · exact .inr ⟨descriptor, hdesc, by simpa [hdrawn] using hj.symm⟩
      · exact .inl h
    refine { HeldKept.refl j s with
      state := .inl rfl
      pending := fun _ _ => .inl rfl
      move := .inr ⟨rfl, hmove.imp (fun h => by simp [h]) id⟩ }

/-- The mover changes the owner, and whoever takes a task over from the staging queue. -/
theorem owed_changeOwner (hmine : s.history.holder.thread = some i)
    (hsett : s.history.settling → s.history.audited) (hopen : s.owner.isTerminal = false)
    {owner : Owner} (hown : owner.isTerminal = false) : Owed i s { s with owner } := by
  refine ⟨.of { hI.rules with
    ending := { hI.ending with
      closed := fun h => by simp [hown] at h
      reopened := fun h => (hI.ending.reopened h).imp (fun hs => by simp [hopen] at hs) id }
    queued := fun h => absurd h (not_queued hmine) }, fun j hj => { refl j s with
      grows := { Grows.refl s with }
      owner := fun h => .inr (.inr (.inl (hsett h)))
      held := fun h => absurd h (not_mine hmine hj) }⟩

theorem owed_draw :
    Owed i s { s with
      nextMoveEpoch := s.nextMoveEpoch + 1
      history.epochs := s.history.epochs ++ [i] } := by
  refine ⟨.of { hI.rules with
    ending := { hI.ending with }
    toNumbered := ?_
    blame := fun h => ?_ }, fun j _ => { refl j s with
      grows := { Grows.refl s with
        epochs := prefix_append _ _
        epoch := Nat.le_succ _ }
      held := fun _ => { HeldKept.refl j s with } }⟩
  · refine ⟨by simp [hI.numbered.drawn], fun descriptor h => ?_⟩
    have hold := hI.numbered.descriptor descriptor h
    exact ⟨hold.1, by simp; omega⟩
  · rcases hI.blame h with h | h | h | h | h
    · exact .inl h
    · exact .inr (.inl h)
    · exact .inr (.inr (.inl h))
    · exact .inr (.inr (.inr (.inl h)))
    · exact .inr (.inr (.inr (.inr (h.trans (Nat.le_succ _)))))

section

variable (hholder : s.history.holder = .handler i)

include hholder

theorem owed_install {descriptor : MoveDescriptor}
    (hep : 0 < descriptor.moveEpoch ∧ descriptor.moveEpoch ≤ s.history.epochs.length) :
    Owed i s { s with moveDescriptor := some descriptor } := by
  refine ⟨.of { hI.rules with
    ending := { hI.ending with }
    unplaced := fun h => by simp [hholder, isPlaced] at h
    queued := fun h => by simp [hholder] at h
    descriptor := fun other h => ?_ }, fun j hj => { refl j s with
      grows := { Grows.refl s with }
      held := held_of_handler hholder hj }⟩
  cases h
  exact hep

/-- A claimed task is moved or run. -/
theorem owed_begin (hst : s.state = .queued) (hbox : s.physicalRetention ≠ .container)
    (hnew : state = .moving ∨ state = .running) :
    Owed i s { s with state } := by
  have hlive := live_of_state hst rfl
  have hlive' : ({ s with state } : EntryStore).ended = false := by
    rcases hnew with rfl | rfl <;> rfl
  have hterm : state.isTerminal = false := not_terminal hlive'
  have hidle := handover_idle hI hlive (.inl hbox)
  have hlate := late_of_promise hI hlive (by simp [hst]) hidle
  refine ⟨.of { hI.rules with
    ending := Live.ending { hI.live hlive with } hlive'
    admits := .inl ?_
    toPayload := Payload.restate hI hlive (by simp [hst]) state hterm
    promised := fun h => .inl (hlate h)
    handover := fun h => absurd hidle h
    canceller := fun h => by simp [(hI.live hlive).canceller] at h }, fun j hj => ?_⟩
  · rcases hnew with rfl | rfl <;> simp [hholder, admits]
  · refine { refl j s with
      grows := { Grows.refl s with
        ended := fun h => by simp [hlive] at h
        final := fun h => by simp [hst, isTerminal] at h
        running := fun h => by simp [hst] at h }
      settler := fun h => by simp [(hI.live hlive).settler] at h
      held := held_of_handler hholder hj }

variable {old target : LogicalOwner}

theorem owed_replaceLogical (hsett : s.history.settling = false)
    (hold : s.logicalOwner = some old) (howed : target.account ∈ s.owedBy i) :
    Owed i s (s.replaceLogical i target) := by
  have hmem := mem_owed howed
  refine ⟨.of { hI.rules with
    ending := { hI.ending with
      collected := fun h => ?_ }
    unplaced := fun h => by simp [replaceLogical, hholder, isPlaced] at h
    placed := fun _ _ => rfl
    queued := fun h => by simp [replaceLogical, hholder] at h
    balanced := fun other => ?_ }, fun j hj => { refl j s with
      grows := { Grows.refl s with }
      owed := ?_
      held := held_of_handler hholder hj }⟩
  · have hwas := (hI.ending.collected h).1
    exact absurd (hsett.symm.trans hwas) (by simp)
  · have hbal := hI.balanced other
    rw [countP_erase_add other hmem] at hbal
    cases other with
    | container slot main =>
      by_cases hnew : target.account = .container slot main <;>
        by_cases hwas : old.account = .container slot main <;>
        simp [replaceLogical, hold, hnew, hwas] at hbal ⊢ <;> omega
    | logical | queued | global =>
      simpa [replaceLogical, hold, account] using hbal
  · simp [owedBy, replaceLogical, hold, filter_erase_of_ne _ _ hj, hj.symm]

omit hI in
omit hholder in
theorem owedBy_replaceLogical (hold : s.logicalOwner = some old) :
    (s.replaceLogical i target).owedBy i = old.account :: (s.owedBy i).erase target.account := by
  simp [owedBy, replaceLogical, hold, owedBy_erase]

/-- The task is queued again. The mover has yet to look for a request to cancel. -/
theorem owed_publishMove (hst : s.state = .moving) (hbox : s.physicalRetention = .container) :
    Owed i s { s with state := .queued, history.handover := .unseen } := by
  have hlive := live_of_state hst rfl
  have hidle := handover_idle hI hlive (.inr (.inl (by simp [hst])))
  have hunt := untaken hI hlive (by simp [hst])
  refine ⟨.of { hI.rules with
    ending := Live.ending { hI.live hlive with } rfl
    admits := .inl (by simp [hholder, admits])
    toPayload := { Payload.restate hI hlive (by simp [hst]) .queued rfl with }
    promised := fun h => ?_
    handover := fun _ _ => ⟨hbox, rfl, i, hholder⟩
    canceller := fun h => by simp [(hI.live hlive).canceller] at h }, fun j hj => ?_⟩
  · rcases hI.requested.promised h with hlate | ⟨-, hs | ⟨-, hs⟩ | ⟨hs, -⟩ | hs⟩
    · exact .inl hlate
    · simp [hs] at hlive
    · exact .inr ⟨⟨by simp, hunt⟩, .inr (.inr (.inl ⟨rfl, hs⟩))⟩
    · simp [hidle] at hs
    · simp [hidle] at hs
  · refine { refl j s with
      grows := { Grows.refl s with
        ended := fun h => by simp [hlive] at h
        final := fun h => by simp [hst, isTerminal] at h
        running := fun h => by simp [hst] at h }
      settler := fun h => by simp [(hI.live hlive).settler] at h
      held := held_of_handler hholder hj }

theorem owed_look (hunse : s.history.handover = .unseen) (hst : s.state = .queued ∨ s.ended) :
    Owed i s { s with
      cancelRequested := false
      history.handover := if s.cancelRequested then .seen else .idle } := by
  refine ⟨.of { hI.rules with
    ending := { hI.ending with }
    flag := nofun
    promised := fun h => ?_
    handover := fun _ => hI.requested.handover (by simp [hunse]) }, fun j hj =>
      { refl j s with
      grows := { Grows.refl s with }
      held := held_of_handler hholder hj }⟩
  rcases hI.requested.promised h with hlate | ⟨huns, hs | ⟨hs, -⟩ | ⟨-, hs⟩ | hs⟩
  · exact .inl hlate
  · exact .inr ⟨huns, .inl hs⟩
  · rcases hst with hqueued | hend
    · simp [hs] at hqueued
    · exact .inr ⟨huns, .inl hend⟩
  · exact .inr ⟨huns, .inr (.inr (.inr (by simp [hs])))⟩
  · simp [hunse] at hs

end

theorem owed_putBack (hprom : s.history.promises ≠ []) :
    Owed i s { s with cancelRequested := true } := by
  refine ⟨.of { hI.rules with
    ending := { hI.ending with }
    flag := fun _ => hprom
    promised := fun h => (hI.requested.promised h).imp id fun hs => ⟨hs.1, ?_⟩ }, fun j _ =>
      { refl j s with
      grows := { Grows.refl s with }
      held := fun _ => { HeldKept.refl j s with } }⟩
  rcases hs.2 with h | ⟨h, -⟩ | ⟨h, -⟩ | h
  · exact .inl h
  · exact .inr (.inl ⟨h, rfl⟩)
  · exact .inr (.inr (.inl ⟨h, rfl⟩))
  · exact .inr (.inr (.inr h))

/-! ## Requests to cancel -/

/-- A request is deferred while the task is moved. It is late if the move is over. -/
theorem owed_defer :
    Owed i s { s with
      cancelRequested := true
      history.promises := if s.cancelRequested then s.history.promises else i :: s.history.promises
      history.late := s.history.late || s.state != .moving } := by
  have hprom : ∀ k, k ∈ s.history.promises →
      k ∈ (if s.cancelRequested then s.history.promises else i :: s.history.promises) := by
    intro k hk
    split_ifs
    · exact hk
    · exact mem_cons_of_mem _ hk
  have hne : (if s.cancelRequested then s.history.promises else i :: s.history.promises) ≠ [] := by
    split_ifs with hreqd
    · exact hI.requested.flag hreqd
    · exact cons_ne_nil _ _
  refine ⟨.of { hI.rules with
    ending := { hI.ending with }
    flag := fun _ => hne
    promised := fun _ => ?_ }, fun j hj => { refl j s with
      grows := { Grows.refl s with
        promises := hprom
        late := fun h => by simp [h] }
      promise := fun h => ?_
      held := fun _ => { HeldKept.refl j s with } }⟩
  · by_cases hmov : s.state = .moving
    · have hlive := live_of_state hmov rfl
      have hunt := untaken hI hlive (by simp [hmov])
      exact .inr ⟨⟨by simp [hmov], hunt⟩, .inr (.inl ⟨hmov, rfl⟩)⟩
    · exact .inl (by simp [hmov])
  · simp only at h
    split_ifs at h
    · exact h
    · exact (mem_cons.1 h).resolve_left hj

/-! ## Ends -/

omit hI in
/-- The end of a task that has not ended. -/
theorem Live.terminated (h : Live s) (record : TerminalRecord) (hrec : record.state.isTerminal) :
    Ending (s.terminate i record) where
  settling hs := by simp [terminate, h.settling] at hs
  finishers hs := absurd h.finishers hs
  closed hs := by simp [terminate, h.owner] at hs
  reopened hs := absurd h.finishers hs
  single := by simp [terminate, h.finishers]
  collected hs := by simp [terminate, h.collected] at hs
  terminal hs := by simp [terminate, h.terminal] at hs
  settler := by simp [terminate, h.terminal, h.settler]
  settles k hs := by simp [terminate, h.settler] at hs
  status hs := by simp [terminate, isTerminal] at hs
  pending other hs := by
    simp only [terminate, some.injEq] at hs
    exact ⟨rfl, hs ▸ hrec⟩
  record _ := .inl rfl
  kept other hs := by simp [terminate, h.terminal] at hs
  blocked _ := rfl
  collided _ := rfl
  shifted hs := by simp [terminate, h.shifted] at hs

theorem custody_terminate (hlive : s.ended = false) (record : TerminalRecord) :
    Custody (s.terminate i record) := by
  by_cases hfresh : s.history.holder = .fresh
  · have hunp := hI.custody.unplaced (by simp [hfresh, isPlaced])
    have hholder : (s.terminate i record).history.holder = .closer i := by
      simp [terminate, hfresh]
    refine { hI.custody with
      admits := .inr ⟨rfl, by simp [hholder]⟩
      fresh := fun h => by simp [hholder] at h
      shifted := fun h => ?_
      unplaced := fun _ => hunp
      loose := fun _ => hI.custody.loose (.inl hfresh)
      placed := fun h => by simp [hholder, isPlaced] at h
      queued := fun h => by simp [hholder] at h
      items := fun _ => hI.custody.items (by simp [hfresh]) }
    have hnone := (hI.live hlive).shifted
    exact absurd (hnone.symm.trans h) (by simp)
  · have hholder : (s.terminate i record).history.holder = s.history.holder := by
      simp [terminate, hfresh]
    refine { hI.custody with
      admits := .inr ⟨rfl, by rwa [hholder]⟩
      fresh := fun h => absurd (hholder.symm.trans h) hfresh
      shifted := fun h => by rw [hholder]; exact hI.custody.shifted h
      unplaced := fun h => hI.custody.unplaced (by rwa [hholder] at h)
      loose := fun h => hI.custody.loose (by rwa [hholder] at h)
      placed := fun h => hI.custody.placed (by rwa [hholder] at h)
      queued := fun h => hI.custody.queued (hholder.symm.trans h)
      items := fun h => hI.custody.items (by rwa [hholder] at h) }

theorem payload_terminate (hlive : s.ended = false) (record : TerminalRecord) :
    Payload (s.terminate i record) :=
  { hI.payload with
    taken := fun h => ⟨(hI.payload.taken h).1, .inr rfl⟩
    published := fun state h => absurd h ((hI.live hlive).published state)
    noted := fun h => by simp [terminate, isTerminal] at h }

theorem requested_terminate (record : TerminalRecord) :
    Requested (s.terminate i record) :=
  { hI.requested with
    promised := fun h => (hI.requested.promised h).imp id fun hs =>
      ⟨⟨by simp [terminate], hs.1.2⟩, .inl rfl⟩
    handover := nofun
    canceller := fun _ => rfl }

omit hI in
theorem grows_terminate (hlive : s.ended = false) (record : TerminalRecord) :
    Grows s (s.terminate i record) := by
  refine { Grows.refl s with
    ended := fun _ => rfl
    final := fun h => by simp [not_terminal hlive] at h
    fresh := fun h => by simp [terminate, h]
    launched := fun h => ?_
    running := fun _ => .inr rfl }
  by_cases hfresh : s.history.holder = .fresh
  · simp [hfresh, isLaunched] at h
  · simpa [terminate, hfresh] using h

omit hI in
theorem thread_terminate (record : TerminalRecord) (hj : j ≠ i)
    (h : (s.terminate i record).history.holder.thread = some j) :
    s.history.holder.thread = some j := by
  by_cases hfresh : s.history.holder = .fresh
  · simp only [terminate, hfresh, if_true, thread, some.injEq] at h
    exact absurd h.symm hj
  · simpa [terminate, hfresh] using h

/-- The end begins: by who has the task in hand, for a task that nobody has in hand, or by an audit.
-/
theorem owed_terminate (hlive : s.ended = false) (hrec : record.state.isTerminal)
    (hwho : s.history.holder.thread = some i ∨ s.history.holder = .fresh ∨
      s.history.audited = true ∧ s.state ≠ .running) :
    Owed i s (s.terminate i record) := by
  refine ⟨.of { hI.rules with
    ending := (hI.live hlive).terminated record hrec
    toCustody := custody_terminate hI hlive record
    toPayload := payload_terminate hI hlive record
    toRequested := requested_terminate hI record }, fun j hj => ?_⟩
  refine { refl j s with
    grows := grows_terminate hlive record
    settler := fun h => ?_
    hand := thread_terminate record hj
    held := fun hheld => ?_ }
  · have hnone := (hI.live hlive).settler
    exact absurd h (by simp [terminate, hnone])
  · have haud : s.history.audited = true ∧ s.state ≠ .running := by
      rcases hwho with h | h | h
      · exact absurd hheld (not_mine h hj)
      · simp [h, thread] at hheld
      · exact h
    exact { HeldKept.refl j s with
      holder := by simp [terminate, not_fresh hheld]
      state := .inr (.inr ⟨rfl, .inr haud.1, haud.2, fun _ => haud.1, fun _ => .inr haud.1⟩)
      pending := fun _ _ => .inr (.inr haud.1)
      task := fun h => absurd h haud.2 }

/-- A call of `cancel` begins the end. -/
theorem owed_cancelBy (hst : s.state = .enqueueing ∨ s.state = .delayed ∨ s.state = .queued) :
    Owed i s (s.cancelBy i) := by
  have hlive : s.ended = false := by
    rcases hst with h | h | h <;> simp [ended, h, isTerminal]
  have hrun : s.state ≠ .running := by rcases hst with h | h | h <;> simp [h]
  have hmov : s.state ≠ .moving := by rcases hst with h | h | h <;> simp [h]
  have hunt := untaken hI hlive hrun
  have hnone := (hI.live hlive).canceller
  refine ⟨.of { hI.rules with
    ending := { (hI.live hlive).terminated (i := i) cancelRecord rfl with
      shifted := fun h => ?_ }
    toCustody := { custody_terminate (i := i) hI hlive cancelRecord with }
    toPayload := { payload_terminate (i := i) hI hlive cancelRecord with }
    toRequested := { requested_terminate (i := i) hI cancelRecord with
      flag := fun _ => cons_ne_nil _ _
      promised := fun _ => .inr ⟨⟨by simp [cancelBy, terminate], hunt⟩, .inl rfl⟩
      canceller := fun _ => rfl }
    blame := fun h => ?_ }, fun j hj => ?_⟩
  · have hshift := (hI.live hlive).shifted
    exact absurd h (by simp [cancelBy, terminate, hshift])
  · rcases hI.blame h with h | h | h
    · exact .inl h
    · exact .inr (.inl (by simp [cancelBy, h]))
    · exact .inr (.inr h)
  · refine { refl j s with
      grows := { grows_terminate (i := i) hlive cancelRecord with
        promises := fun k hk => mem_cons_of_mem _ hk
        canceller := fun c hc => by simp [hnone] at hc
        crossed := fun h => by simp [cancelBy, h] }
      settler := fun h => ?_
      canceller := fun h => ?_
      promise := fun h => (mem_cons.1 h).resolve_left hj
      hand := thread_terminate cancelRecord hj
      held := fun hheld => ?_ }
    · have hsett := (hI.live hlive).settler
      exact absurd h (by simp [cancelBy, terminate, hsett])
    · simp only [cancelBy, some.injEq] at h
      exact absurd h.symm hj
    · exact { HeldKept.refl j s with
        holder := by simp [cancelBy, terminate, not_fresh hheld]
        state := .inr (.inr ⟨rfl, .inl rfl, hrun, fun h => absurd h hmov,
          fun h => .inl (by simp [cancelBy, h])⟩)
        pending := fun _ _ => .inr (.inl rfl)
        task := fun h => absurd h hrun }

/-! ## Running -/

/-- A task that runs notes what becomes of its payload. -/
theorem owed_note {task : Bool} {note : EntryNote} (hholder : s.history.holder = .handler i)
    (hst : s.state = .running) (htask : task = false)
    (htak : .taken ∈ s.history.notes ++ [note])
    (honce : (s.history.notes ++ [note]).count .taken ≤ 1)
    (hnote : note = .taken ∨ note = .ran s.state) :
    Owed i s { s with task, history.notes := s.history.notes ++ [note] } := by
  have hpub := (hI.live (live_of_state hst rfl)).published
  have hpub' : ∀ state, .published state ∉ s.history.notes ++ [note] := by
    rcases hnote with rfl | rfl <;> simpa using hpub
  refine ⟨.of { hI.rules with
    ending := { hI.ending with }
    taken := fun _ => ⟨htask, .inl hst⟩
    takenOnce := honce
    present := fun _ => .inr htak
    ran := fun state h => ⟨?_, htak⟩
    published := fun state h => absurd h (hpub' state)
    publishedOnce := ?_
    noted := fun h => by simp [hst, isTerminal] at h
    order := ?_
    promised := fun h => ?_ }, fun j hj => { refl j s with
      grows := { Grows.refl s with notes := fun _ h => mem_append_left _ h }
      held := held_of_handler hholder hj }⟩
  · rcases mem_append.1 h with h | h
    · exact (hI.payload.ran state h).1
    · rcases hnote with rfl | rfl
      · simp at h
      · simpa [hst] using h
  · rcases hnote with rfl | rfl <;>
      simpa [EntryNote.isPublished] using hI.payload.publishedOnce
  · refine pairwise_append.2 ⟨hI.payload.order, pairwise_singleton _ _, ?_⟩
    intro before hbef last _ hwas
    cases before with
    | published state => exact absurd hbef (hpub state)
    | taken | ran state => cases hwas
  · rcases hI.requested.promised h with hlate | ⟨huns, -⟩
    · exact .inl hlate
    · exact absurd hst huns.1

theorem owed_take (hholder : s.history.holder = .handler i) (hst : s.state = .running)
    (htask : s.task = true) :
    Owed i s { s with task := false, history.notes := s.history.notes ++ [.taken] } := by
  have hunt : .taken ∉ s.history.notes := by
    intro h
    simp [(hI.payload.taken h).1] at htask
  refine owed_note hI hholder hst rfl (by simp) ?_ (.inl rfl)
  simp [count_append, count_eq_zero.2 hunt]

theorem owed_ran (hholder : s.history.holder = .handler i) (hst : s.state = .running)
    (htak : .taken ∈ s.history.notes) :
    Owed i s { s with history.notes := s.history.notes ++ [.ran s.state] } := by
  refine owed_note hI hholder hst (hI.payload.taken htak).1 (by simp [htak]) ?_ (.inr rfl)
  simp [count_append, hI.payload.takenOnce]

/-! ## Finalizing -/

/-- Somebody who finalizes looks where the task is kept. -/
theorem owed_mark (hend : s.ended) (cancels : Bool) :
    Owed i s { s with
      history.settling := s.history.settling || s.physicalRetention.settles
      history.blocked := s.history.blocked || (cancels && !s.physicalRetention.settles) } := by
  refine ⟨.of { hI.rules with
    ending := { hI.ending with
      settling := fun _ => hend
      finishers := fun h => by simp [hI.ending.finishers h]
      collected := fun h => ⟨by simp [(hI.ending.collected h).1], (hI.ending.collected h).2⟩
      blocked := fun _ => hend }
    queued := fun h => ?_
    present := fun h => (hI.payload.present h).imp (fun hs => by simp [hs]) id },
    fun j _ => { refl j s with
      grows := { Grows.refl s with
        settling := fun h => by simp [h]
        blocked := fun h => by simp [h] }
      held := fun _ => { HeldKept.refl j s with
        retention := .inl rfl
        kept := fun hbox hset => ⟨hbox, by simp [hset, hbox, PhysicalRetention.settles]⟩
        blocked := fun hs => by simp [hs] } }⟩
  obtain ⟨place, hitem, hlog, hbox, hsett, hown, hmove⟩ := hI.custody.queued h
  exact ⟨place, hitem, hlog, hbox, by simp [hsett, hbox, PhysicalRetention.settles], hown, hmove⟩

/-- Somebody who finalizes looks for a descriptor. -/
theorem owed_collide (hend : s.ended) (cancels : Bool) :
    Owed i s { s with
      history.collided := s.history.collided || (cancels && s.moveDescriptor.isSome) } := by
  refine ⟨.of { hI.rules with
    ending := { hI.ending with collided := fun _ => hend }
    blame := fun h => ?_ }, fun j _ => { refl j s with
      grows := { Grows.refl s with collided := fun h => by simp [h] }
      held := fun _ => { HeldKept.refl j s with
        collided := fun h => by simp [h] } }⟩
  rcases hI.blame h with h | h | h | h
  · exact .inl h
  · exact .inr (.inl h)
  · exact .inr (.inr (.inl (by simp [h])))
  · exact .inr (.inr (.inr h))

omit hI in
theorem isTerminal_forTerminal (state : EntryState) : (Owner.forTerminal state).isTerminal := by
  cases state <;> rfl

theorem not_contained (hsett : s.history.settling) :
    s.history.holder ≠ .queued := by
  intro h
  obtain ⟨place, -, -, -, hnot, -⟩ := hI.custody.queued h
  exact absurd (hnot.symm.trans hsett) (by simp)

theorem owed_close (hsett : s.history.settling) (hopen : s.owner.isTerminal = false)
    (state : EntryState) :
    Owed i s { s with
      owner := Owner.forTerminal state
      history.finishers := i :: s.history.finishers } := by
  refine ⟨.of { hI.rules with
    ending := { hI.ending with
      finishers := fun _ => hsett
      closed := fun _ => cons_ne_nil _ _
      reopened := fun _ => .inl (isTerminal_forTerminal state)
      single := ?_
      settles := fun k hk => mem_cons_of_mem _ (hI.ending.settles k hk) }
    queued := fun h => absurd h (not_contained (s := s) hI hsett) }, fun j hj => { refl j s with
      grows := { Grows.refl s with finishers := fun k hk => mem_cons_of_mem _ hk }
      finisher := fun h => (mem_cons.1 h).resolve_left hj
      owner := fun _ => .inr (.inl (isTerminal_forTerminal state))
      held := fun _ => { HeldKept.refl j s with
        owner := .inr ⟨isTerminal_forTerminal state, cons_ne_nil _ _⟩ } }⟩
  by_cases hfirst : s.history.finishers = []
  · exact .inl (by simp [hfirst])
  · refine .inr ((hI.ending.reopened hfirst).resolve_left ?_)
    simp [hopen]

theorem owed_detach (hsett : s.history.settling) :
    Owed i s { s with physicalRetention := .detached } := by
  have hend := hI.ending.settling hsett
  refine ⟨.of { hI.rules with
    ending := { hI.ending with }
    loose := fun _ => rfl
    queued := fun h => absurd h (not_contained (s := s) hI hsett)
    retention := .inr rfl
    handover := fun _ hlive => absurd (hlive.symm.trans hend) (by simp) }, fun j _ =>
      { refl j s with
      grows := { Grows.refl s with }
      held := fun _ => { HeldKept.refl j s with
        retention := .inr ⟨rfl, hsett⟩
        kept := fun _ hset => absurd (hset.symm.trans hsett) (by simp) } }⟩

theorem owed_collect (hsett : s.history.settling) :
    Owed i s (s.collect i) := by
  refine ⟨.of { hI.rules with
    ending := { hI.ending with
      collected := fun _ => ⟨hsett, rfl⟩
      terminal := fun _ => rfl }
    unplaced := fun h => ⟨rfl, (hI.custody.unplaced h).2⟩
    placed := nofun
    queued := fun h => absurd h (not_contained (s := s) hI hsett)
    balanced := fun other => ?_ }, fun j hj => { refl j s with
      grows := { Grows.refl s with collected := fun _ => rfl }
      owed := ?_
      held := fun _ => { HeldKept.refl j s with logical := .inr rfl } }⟩
  · have hbal := hI.balanced other
    cases hlog : s.logicalOwner with
    | none =>
      simpa [collect, hlog] using hbal
    | some logical =>
      cases other with
      | container slot main =>
        by_cases heq : logical.account = .container slot main <;>
          simp [collect, hlog, heq] at hbal ⊢ <;> omega
      | logical =>
        simp [collect, hlog, account] at hbal ⊢
        omega
      | queued | global =>
        simpa [collect, hlog, account] using hbal
  · cases hlog : s.logicalOwner <;>
      simp [owedBy, collect, hlog, hj.symm]

omit hI in
theorem owedBy_collect : (s.collect i).owedBy i =
    (s.logicalOwner.map fun old => [old.account, .logical]).getD [] ++ s.owedBy i := by
  cases hlog : s.logicalOwner <;> simp [owedBy, collect, hlog]

theorem owed_dropTask (hsett : s.history.settling) :
    Owed i s { s with task := false } := by
  have hend := hI.ending.settling hsett
  refine ⟨.of { hI.rules with
    ending := { hI.ending with }
    taken := fun h => ⟨rfl, (hI.payload.taken h).2⟩
    present := fun _ => .inl hsett }, fun j _ => { refl j s with
      grows := { Grows.refl s with }
      held := fun _ => { HeldKept.refl j s with
        task := fun h => ?_ } }⟩
  simp [ended, h, isTerminal] at hend

/-- The terminal record is set by one of those who have closed the owner. -/
theorem owed_record (hcoll : s.history.collected) (hfin : i ∈ s.history.finishers)
    (hnone : s.terminal = none) (hrec : record.state.isTerminal) :
    Owed i s { s with terminal := some record, history.settler := some i } := by
  have hst : s.state.isTerminal = false := by
    by_contra h
    obtain ⟨other, hoth, -⟩ := hI.ending.status (by simpa using h)
    simp [hnone] at hoth
  have hsett : s.history.settler = none := by
    simpa [hnone] using hI.ending.settler
  refine ⟨.of { hI.rules with
    ending := { hI.ending with
      terminal := fun _ => hcoll
      settler := rfl
      settles := fun k hk => by
        simp only [some.injEq] at hk
        exact hk ▸ hfin
      status := fun h => by simp [hst] at h
      record := fun _ => .inr rfl
      kept := by simpa using hrec } }, fun j hj => { refl j s with
      grows := { Grows.refl s with
        terminal := fun other h => by simp [hnone] at h
        settler := fun k h => by simp [hsett] at h }
      settler := fun h => by
        simp only [some.injEq] at h
        exact absurd h.symm hj
      held := fun _ => { HeldKept.refl j s with } }⟩

theorem owed_unpend (hsett : s.history.settler = some i) :
    Owed i s { s with pendingTerminal := none } := by
  have hterm : s.terminal.isSome := by simp [hI.ending.settler, hsett]
  have hsettl := (hI.ending.collected (hI.ending.terminal hterm)).1
  refine ⟨.of { hI.rules with
    ending := { hI.ending with
      pending := nofun
      record := fun _ => .inr hterm } }, fun j hj => { refl j s with
      grows := { Grows.refl s with }
      settler := fun h => absurd (hsett.symm.trans h) (by simpa using hj.symm)
      held := fun _ => { HeldKept.refl j s with
        pending := fun _ hset => absurd (hset.symm.trans hsettl) (by simp) } }⟩

theorem owed_publish (hsett : s.history.settler = some i)
    (hrec : s.terminal = some record) (hterm : record.state.isTerminal)
    (hst : s.state = .terminating) (hpend : s.pendingTerminal = none) :
    Owed i s { s with
      state := record.state
      history.notes := s.history.notes ++ [.published record.state] } := by
  have hend : s.ended := by simp [ended, hst]
  have hend' : (record.state == .terminating || record.state.isTerminal) = true := by
    simp [hterm]
  have hpub : ∀ state, .published state ∉ s.history.notes := by
    intro state h
    have hwas := hI.payload.published state h
    rw [← hwas.1, hst] at hwas
    cases hwas.2
  have hrun : record.state ≠ .running := by
    intro h
    simp [h, isTerminal] at hterm
  refine ⟨.of { hI.rules with
    ending := { hI.ending with
      settling := fun _ => hend'
      status := fun _ => ⟨record, hrec, rfl⟩
      pending := fun _ h => by simp [hpend] at h
      record := fun _ => .inr (by simp [hrec])
      blocked := fun _ => hend'
      collided := fun _ => hend'
      shifted := fun h => ⟨hend', (hI.ending.shifted h).2⟩ }
    admits := .inr ⟨hend', ?_⟩
    taken := fun h => ?_
    takenOnce := by simpa [count_append] using hI.payload.takenOnce
    present := fun h => (hI.payload.present h).imp id (mem_append_left _)
    ran := fun state h => ?_
    published := fun state h => ?_
    publishedOnce := ?_
    noted := fun _ => by simp
    order := ?_
    promised := fun h => ?_
    handover := fun _ h => absurd (h.symm.trans hend') (by simp)
    canceller := fun _ => hend' }, fun j hj => ?_⟩
  · rcases hI.custody.admits with h | ⟨-, h⟩
    · cases hholder : s.history.holder <;> simp [hholder, hst, admits] at h
    · exact h
  · simp only [mem_append, mem_singleton, reduceCtorEq, or_false] at h
    exact ⟨(hI.payload.taken h).1, .inr hend'⟩
  · simp only [mem_append, mem_singleton, reduceCtorEq, or_false] at h
    exact ⟨(hI.payload.ran state h).1, mem_append_left _ (hI.payload.ran state h).2⟩
  · simp only [mem_append, mem_singleton, EntryNote.published.injEq] at h
    rcases h with h | h
    · exact absurd h (hpub state)
    · exact ⟨h.symm, h ▸ hterm⟩
  · have hnone : s.history.notes.countP (·.isPublished) = 0 := by
      rw [countP_eq_zero]
      intro note hnote
      cases note with
      | published state => exact absurd hnote (hpub state)
      | taken | ran state => simp [EntryNote.isPublished]
    rw [countP_append, hnone]
    rfl
  · refine pairwise_append.2 ⟨hI.payload.order, pairwise_singleton _ _, ?_⟩
    intro note _ last hlast _
    rw [mem_singleton.1 hlast]
    rfl
  · rcases hI.requested.promised h with hlate | ⟨huns, -⟩
    · exact .inl hlate
    · exact .inr ⟨⟨hrun, by simpa using huns.2⟩, .inl hend'⟩
  · refine { refl j s with
      grows := { Grows.refl s with
        ended := fun _ => hend'
        final := fun h => by simp [hst, isTerminal] at h
        notes := fun _ h => mem_append_left _ h
        running := fun h => by simp [hst] at h }
      settler := fun h => absurd (hsett.symm.trans h) (by simpa using hj.symm)
      held := fun _ => { HeldKept.refl j s with
        state := .inr (.inl hend)
        task := fun h => by simp [hst] at h } }

end TaskEntry

end NasaRuntime.Napart
