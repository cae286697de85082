import NasaRuntime.Napart.Admission

/-!
# Numbers of the strict order are not lost

Every number that a strict order issues goes to one task, or is settled before the submission that
drew it returns. The invariant (`OrderBook.Sound`) is about who has a number: it was settled, or it
belongs to an accepted task, or a submission holds it that has not returned.

A submission draws its number before its identity. When there are no identities left it returns
without settling the number, and every later task of the type waits for ever.

**Theorem (`strict_sequences`).** After every run of any submissions, expirations and settlements,
`next_run` is the least number that is not settled, and a turn is ready only when all smaller
numbers are settled. As long as there are identities, every issued number is settled, or belongs to
exactly one accepted task, or is held by a submission that has not returned.
-/

namespace NasaRuntime.Napart

open List
open Prog (safe_bind safe_mono safe_attempt safe_atomic safe_modify)

open Prog (Safe)
open Function RunnerStore
open Sys (Owes)

/-! ## The book of numbers -/

/-- What the accounting of numbers is about: the orders with what was settled in them, who holds a
number, the tasks that have one. -/
@[ext]
structure OrderBook where
  orders : TypeKey → Option (StrictOrder × Finset ℕ)
  held : ℕ → Option (TypeKey × ℕ)
  accepted : List Accepted
  nextTaskId : ℕ

def RunnerStore.book (s : RunnerStore) : OrderBook where
  orders key := (s.types key).map fun state => (state.strictOrder, state.settled)
  held := s.held
  accepted := s.accepted
  nextTaskId := s.nextTaskId

variable {id n : ℕ} {ordering : TaskOrdering}

namespace OrderBook

/-- The number was issued. -/
def Issued (book : OrderBook) (claim : TypeKey × ℕ) : Prop :=
  ∃ row, book.orders claim.1 = some row ∧ claim.2 < row.1.nextIssue

structure Sound (book : OrderBook) : Prop where
  tracks : ∀ key row, book.orders key = some row → row.1.Tracks row.2
  heldIssued : ∀ i claim, book.held i = some claim → book.Issued claim
  heldOnce : ∀ i j claim, book.held i = some claim → book.held j = some claim → i = j
  heldFresh : ∀ i claim, book.held i = some claim → ∀ a ∈ book.accepted, (a.key, a.sequence) ≠ claim
  acceptedIssued : ∀ a ∈ book.accepted, book.Issued (a.key, a.sequence)
  acceptedOnce : (book.accepted.map fun a => (a.key, a.sequence)).Nodup
  /-- As long as there are identities, nothing is lost. -/
  covered : book.nextTaskId < u64Max → ∀ key row, book.orders key = some row → ∀ n,
    n < row.1.nextIssue → n ∈ row.2 ∨ (∃ a ∈ book.accepted, (a.key, a.sequence) = (key, n)) ∨
      ∃ i, book.held i = some (key, n)

def setRow (book : OrderBook) (key : TypeKey) (row : StrictOrder × Finset ℕ) : OrderBook :=
  { book with orders := update book.orders key (some row) }

def setHeld (book : OrderBook) (i : ℕ) (held : Option (TypeKey × ℕ)) : OrderBook :=
  { book with held := update book.held i held }

variable {book : OrderBook} {key : TypeKey} {row : StrictOrder × Finset ℕ} {i : ℕ}
  {claim : TypeKey × ℕ}

theorem Issued.setRow {new : StrictOrder × Finset ℕ} (h : book.Issued claim)
    (hnew : ∀ row, book.orders key = some row → row.1.nextIssue ≤ new.1.nextIssue) :
    (book.setRow key new).Issued claim := by
  obtain ⟨row, hrow, hlt⟩ := h
  by_cases hkey : claim.1 = key
  · subst hkey
    exact ⟨new, by simp [OrderBook.setRow], hlt.trans_le (hnew row hrow)⟩
  · exact ⟨row, by simp [OrderBook.setRow, update_of_ne hkey, hrow], hlt⟩

theorem forall_setRow {P : TypeKey → StrictOrder × Finset ℕ → Prop} (hnew : P key row)
    (hold : ∀ key' row', book.orders key' = some row' → P key' row') :
    ∀ key' row', (book.setRow key row).orders key' = some row' → P key' row' := by
  intro key' row' hrow'
  by_cases hkey : key' = key
  · simp only [setRow, hkey, update_self, Option.some.injEq] at hrow'
    exact hkey ▸ hrow' ▸ hnew
  · simp only [setRow, update_of_ne hkey] at hrow'
    exact hold key' row' hrow'

theorem held_setHeld {j : ℕ} {held : Option (TypeKey × ℕ)}
    (hj : (book.setHeld i held).held j = some claim) :
    j = i ∧ held = some claim ∨ j ≠ i ∧ book.held j = some claim := by
  by_cases hji : j = i
  · simp only [setHeld, hji, update_self] at hj
    exact .inl ⟨hji, hj⟩
  · simp only [setHeld, update_of_ne hji] at hj
    exact .inr ⟨hji, hj⟩

theorem Sound.create (h : book.Sound) (hnone : book.orders key = none) :
    (book.setRow key (.new, ∅)).Sound := by
  have hkeep : ∀ row, book.orders key = some row → row.1.nextIssue ≤ StrictOrder.new.nextIssue := by
    intro row hrow
    rw [hnone] at hrow
    cases hrow
  exact { h with
    tracks := forall_setRow StrictOrder.tracks_new h.tracks
    heldIssued := fun i claim hheld => (h.heldIssued i claim hheld).setRow hkeep
    acceptedIssued := fun a ha => (h.acceptedIssued a ha).setRow hkeep
    covered := fun hid => forall_setRow (fun n hn => absurd hn (Nat.not_lt_zero n)) (h.covered hid) }

theorem Sound.issue (h : book.Sound) (hrow : book.orders key = some row)
    (hfree : book.held i = none) (hroom : row.1.nextIssue < u64Max) :
    ((book.setRow key (row.1.issue.2, row.2)).setHeld i (some (key, row.1.nextIssue))).Sound := by
  have hiss : row.1.issue.2.nextIssue = row.1.nextIssue + 1 := by
    simp [StrictOrder.issue, hroom]
  have hkeep : ∀ old, book.orders key = some old → old.1.nextIssue ≤ row.1.issue.2.nextIssue := by
    intro old hold
    cases hrow.symm.trans hold
    omega
  have hnew : ¬ book.Issued (key, row.1.nextIssue) := by
    intro hissu
    obtain ⟨old, hold, hlt⟩ := hissu
    cases hrow.symm.trans hold
    exact lt_irrefl _ hlt
  constructor
  case tracks => exact forall_setRow (h.tracks key row hrow).issue h.tracks
  case heldIssued =>
    intro j claim hj
    rcases held_setHeld hj with ⟨_, heq⟩ | ⟨_, hheld⟩
    · cases heq
      exact ⟨(row.1.issue.2, row.2), by simp [setRow, setHeld], by simp [hiss]⟩
    · exact (h.heldIssued j claim hheld).setRow hkeep
  case heldOnce =>
    intro j k claim hj hk
    rcases held_setHeld hj with ⟨hji, heq⟩ | ⟨hji, hheld⟩ <;>
      rcases held_setHeld hk with ⟨hki, heq'⟩ | ⟨hki, hheld'⟩
    · rw [hji, hki]
    · exact absurd (Option.some.inj heq ▸ h.heldIssued k claim hheld') hnew
    · exact absurd (Option.some.inj heq' ▸ h.heldIssued j claim hheld) hnew
    · exact h.heldOnce j k claim hheld hheld'
  case heldFresh =>
    intro j claim hj a ha heq
    rcases held_setHeld hj with ⟨_, hclaim⟩ | ⟨_, hheld⟩
    · cases hclaim
      exact hnew (heq ▸ h.acceptedIssued a ha)
    · exact h.heldFresh j claim hheld a ha heq
  case acceptedIssued => exact fun a ha => (h.acceptedIssued a ha).setRow hkeep
  case acceptedOnce => exact h.acceptedOnce
  case covered =>
    intro hid
    -- What was held before is held still: the submission itself held nothing.
    have hstill : ∀ claim, (∃ j, book.held j = some claim) →
        ∃ j, update book.held i (some (key, row.1.nextIssue)) j = some claim := by
      intro claim hheld
      obtain ⟨j, hj⟩ := hheld
      refine ⟨j, ?_⟩
      have hji : j ≠ i := by
        intro heq
        rw [heq, hfree] at hj
        cases hj
      rw [update_of_ne hji, hj]
    refine forall_setRow (fun n hn => ?_) fun key' row' hrow' n hn =>
      (h.covered hid key' row' hrow' n hn).imp_right fun hn => hn.imp_right (hstill _)
    simp only [hiss] at hn
    rcases Nat.lt_succ_iff_lt_or_eq.1 hn with hlt | heq
    · exact (h.covered hid key row hrow n hlt).imp_right fun hn => hn.imp_right (hstill _)
    · exact .inr (.inr ⟨i, by simp [setHeld, heq]⟩)

theorem Sound.settle (h : book.Sound) (hrow : book.orders key = some row)
    (hiss : n < row.1.nextIssue) :
    (book.setRow key ((row.1.settle n).2, insert n row.2)).Sound := by
  have hnext : (row.1.settle n).2.nextIssue = row.1.nextIssue := by
    rw [StrictOrder.settle]
    split
    · rfl
    · exact StrictOrder.skip_nextIssue _ _
  have hkeep : ∀ old, book.orders key = some old →
      old.1.nextIssue ≤ (row.1.settle n).2.nextIssue := by
    intro old hold
    cases hrow.symm.trans hold
    exact hnext.ge
  refine { h with
    tracks := forall_setRow ((h.tracks key row hrow).settle hiss) h.tracks
    heldIssued := fun i claim hheld => (h.heldIssued i claim hheld).setRow hkeep
    acceptedIssued := fun a ha => (h.acceptedIssued a ha).setRow hkeep
    covered := fun hid => forall_setRow (fun m hm => ?_) (h.covered hid) }
  simp only [hnext] at hm
  exact (h.covered hid key row hrow m hm).imp_left Finset.mem_insert_of_mem

/-- Nobody else holds what program `i` gives away. -/
theorem held_setHeld_none {j : ℕ}
    (hj : (book.setHeld i none).held j = some claim) : j ≠ i ∧ book.held j = some claim :=
  (held_setHeld hj).resolve_left fun h => by cases h.2

/-- A submission gives up a number that is settled. -/
theorem Sound.release (h : book.Sound) (hrow : book.orders key = some row)
    (hheld : book.held i = some (key, n)) (hsett : n ∈ row.2) : (book.setHeld i none).Sound := by
  refine { h with
    heldIssued := fun j claim hj => h.heldIssued j claim (held_setHeld_none hj).2
    heldOnce := fun j k claim hj hk =>
      h.heldOnce j k claim (held_setHeld_none hj).2 (held_setHeld_none hk).2
    heldFresh := fun j claim hj => h.heldFresh j claim (held_setHeld_none hj).2
    covered := ?_ }
  intro hid key' row' hrow' m hm
  rcases h.covered hid key' row' hrow' m hm with hin | hacc | ⟨j, hj⟩
  · exact .inl hin
  · exact .inr (.inl hacc)
  · by_cases hji : j = i
    · rw [hji, hheld] at hj
      cases hj
      cases hrow.symm.trans hrow'
      exact .inl hsett
    · exact .inr (.inr ⟨j, by simp [setHeld, update_of_ne hji, hj]⟩)

/-- A task takes over the number of its submission. -/
theorem Sound.carry (h : book.Sound) (hheld : book.held i = some (key, n)) :
    Sound { book.setHeld i none with accepted := book.accepted ++ [⟨key, n, id⟩] } := by
  have hfresh := h.heldFresh i _ hheld
  constructor
  case tracks => exact h.tracks
  case heldIssued => exact fun j claim hj => h.heldIssued j claim (held_setHeld_none hj).2
  case heldOnce =>
    exact fun j k claim hj hk =>
      h.heldOnce j k claim (held_setHeld_none hj).2 (held_setHeld_none hk).2
  case heldFresh =>
    intro j claim hj a ha heq
    obtain ⟨hji, hj⟩ := held_setHeld_none hj
    rcases mem_append.1 ha with hold | hnew
    · exact h.heldFresh j claim hj a hold heq
    · rw [mem_singleton.1 hnew] at heq
      exact hji (h.heldOnce j i _ (heq ▸ hj) hheld)
  case acceptedIssued =>
    intro a ha
    rcases mem_append.1 ha with hold | hnew
    · exact h.acceptedIssued a hold
    · rw [mem_singleton.1 hnew]
      exact h.heldIssued i _ hheld
  case acceptedOnce =>
    rw [map_append]
    refine nodup_append.2 ⟨h.acceptedOnce, nodup_singleton _, ?_⟩
    intro claim hclaim other hoth
    obtain ⟨a, ha, rfl⟩ := mem_map.1 hclaim
    rw [mem_singleton.1 hoth]
    exact hfresh a ha
  case covered =>
    intro hid key' row' hrow' m hm
    rcases h.covered hid key' row' hrow' m hm with hin | ⟨a, ha, heq⟩ | ⟨j, hj⟩
    · exact .inl hin
    · exact .inr (.inl ⟨a, mem_append_left _ ha, heq⟩)
    · by_cases hji : j = i
      · rw [hji, hheld] at hj
        cases hj
        exact .inr (.inl ⟨_, mem_append_right _ (mem_singleton_self _), rfl⟩)
      · exact .inr (.inr ⟨j, by simp [setHeld, update_of_ne hji, hj]⟩)

theorem Sound.nextId (h : book.Sound) (hn : book.nextTaskId ≤ n) :
    Sound { book with nextTaskId := n } :=
  { h with covered := fun hid => h.covered (hn.trans_lt hid) }

end OrderBook

/-! ## Steps of the store -/

namespace RunnerStore

variable {s : RunnerStore} {key : TypeKey} {state : TypeState}

/-- A change of a type that is not about its order. -/
theorem book_updateType {f : TypeState → TypeState}
    (hf : ∀ state, (f state).strictOrder = state.strictOrder ∧ (f state).settled = state.settled) :
    (s.updateType key f).book = s.book := by
  have hord : (s.updateType key f).book.orders = s.book.orders := by
    funext key'
    by_cases hkey : key' = key
    · subst hkey
      cases hst : s.types key' with
      | none => simp [book, updateType, hst]
      | some state => simp [book, updateType, hst, hf state]
    · simp [book, updateType, update_of_ne hkey]
  exact OrderBook.ext hord rfl rfl rfl

theorem orders_book (hst : s.types key = some state) :
    s.book.orders key = some (state.strictOrder, state.settled) := by
  simp [book, hst]

theorem book_updateType_some (hst : s.types key = some state) (f : TypeState → TypeState) :
    (s.updateType key f).book = s.book.setRow key ((f state).strictOrder, (f state).settled) := by
  refine OrderBook.ext ?_ rfl rfl rfl
  funext key'
  by_cases hkey : key' = key
  · simp [book, updateType, OrderBook.setRow, hkey, hst]
  · simp [book, updateType, OrderBook.setRow, update_of_ne hkey]

theorem book_create {capacity : ℕ} :
    book { s with types := update s.types key (some (.new ordering capacity)) } =
      s.book.setRow key (.new, ∅) := by
  refine OrderBook.ext ?_ rfl rfl rfl
  funext key'
  by_cases hkey : key' = key
  · simp [book, OrderBook.setRow, hkey, TypeState.new]
  · simp [book, OrderBook.setRow, update_of_ne hkey]

end RunnerStore

/-! ## What the calls rely on -/

namespace Admission

/-- Nobody else touches the number of program `i`, and identities are not given back. -/
def Trusts (i : ℕ) (s s' : RunnerStore) : Prop :=
  s'.held i = s.held i ∧ s.nextTaskId ≤ s'.nextTaskId

def Booked (s : RunnerStore) : Prop := s.book.Sound

/-- Program `i` holds no number, or there are no identities left. -/
def Free (i : ℕ) (s : RunnerStore) : Prop := s.held i = none ∨ u64Max ≤ s.nextTaskId

theorem Trusts.refl (i : ℕ) (s : RunnerStore) : Trusts i s s := ⟨rfl, le_rfl⟩

theorem Trusts.trans {a b c : RunnerStore} (hab : Trusts i a b) (hbc : Trusts i b c) :
    Trusts i a c := ⟨hbc.1.trans hab.1, hab.2.trans hbc.2⟩

variable {s s' : RunnerStore}

theorem Trusts.free (h : Trusts i s s') (hfree : Free i s) : Free i s' := by
  rcases hfree with hnone | hout
  · exact .inl (h.1.trans hnone)
  · exact .inr (hout.trans h.2)

theorem trusts_of_book (h : s'.book = s.book) : Trusts i s s' :=
  ⟨congrArg (·.held i) h, (congrArg (·.nextTaskId) h).ge⟩

/-- Program `i` ends in `Q` or fails in `E`, and keeps the book sound. -/
abbrev Keeps {α : Type} (i : ℕ) (Q : α → RunnerStore → Prop)
    (E : SubmitRejection → RunnerStore → Prop) (p : RunnerProg α) (s : RunnerStore) : Prop :=
  Safe (Trusts i) (Owes Trusts Booked i) Booked (fun _ _ => True) Q E p s

variable {i : ℕ} {α β : Type}
variable {s : RunnerStore} {key : TypeKey} {sequence : Option ℕ} {p : RunnerProg α}
  {answers : Answers}

/-! ## Programs that leave numbers alone -/

/-- What is known of the number of program `i` stays known. -/
def Steady (i : ℕ) (p : RunnerProg α) : Prop :=
  ∀ P : RunnerStore → Prop, (∀ s s', Trusts i s s' → P s → P s') → ∀ s, P s →
    Keeps i (fun _ => P) (fun _ => P) p s

theorem steady_pure (a : α) : Steady i (pure a) := fun _ _ _ hs => hs

theorem steady_fail (e : SubmitRejection) : Steady i (.fail e : RunnerProg α) := fun _ _ _ hs => hs

variable {q : α → RunnerProg β} {f : RunnerStore → α × RunnerStore}

theorem Steady.bind (hp : Steady i p) (hq : ∀ a, Steady i (q a)) : Steady i (p >>= q) := by
  intro P hP s hs
  apply safe_bind
  exact safe_mono (hp P hP s hs) (fun a s hs => hq a P hP s hs) fun _ _ he => he

theorem Steady.attempt (hp : Steady i p) : Steady i p.attempt :=
  fun P hP s hs => safe_attempt (hp P hP s hs)

theorem steady_atomic
    (hf : ∀ s, Booked s → Booked (f s).2 ∧ ∀ j, Trusts j s (f s).2) : Steady i (.atomic f) := by
  intro P hP s hs
  apply safe_atomic
  intro s' hR hI _
  exact ⟨⟨(hf s' hI).1, fun j _ => (hf s' hI).2 j⟩, hP _ _ ((hf s' hI).2 i) (hP _ _ hR hs)⟩

theorem steady_quiet (hf : ∀ s, (f s).2.book = s.book) : Steady i (.atomic f) :=
  steady_atomic fun s hI => ⟨by rw [Booked, hf s]; exact hI, fun _ => trusts_of_book (hf s)⟩

theorem steady_read (f : RunnerStore → α) : Steady i (.read f) :=
  steady_quiet (f := fun s => (f s, s)) fun _ => rfl

theorem steady_modify {f : RunnerStore → RunnerStore} (hf : ∀ s, (f s).book = s.book) :
    Steady i (.modify f) :=
  steady_quiet (f := fun s => ((), f s)) hf

theorem steady_useType (state : TypeState) (spec : TaskSpec) : Steady i (useType state spec) := by
  rw [useType]
  split
  · exact steady_fail _
  · split
    · exact steady_fail _
    · exact steady_pure _

theorem steady_useRacedType (state : TypeState) (spec : TaskSpec) :
    Steady i (useRacedType state spec) := by
  rw [useRacedType]
  split
  · exact steady_fail _
  · split
    · exact steady_fail _
    · exact steady_pure _

variable (config : RunnerConfig)

theorem steady_createType (home : ℕ) (spec : TaskSpec) :
    Steady i (createType config home spec) := by
  refine steady_atomic fun s hI => ?_
  cases hst : s.types (home, spec.ty) with
  | some state => exact ⟨hI, fun j => Trusts.refl j s⟩
  | none =>
    refine ⟨?_, fun j => Trusts.refl j s⟩
    simp only [Booked]
    rw [book_create]
    exact OrderBook.Sound.create hI (by simp [book, hst])

theorem steady_getOrCreateType (home : ℕ) (spec : TaskSpec) :
    Steady i (getOrCreateType config home spec) := by
  refine (steady_read _).bind fun phase => ?_
  split
  · exact steady_fail _
  refine (steady_read _).bind fun accepting => ?_
  split
  · exact steady_fail _
  refine (steady_read _).bind fun existing => ?_
  cases existing with
  | some state => exact steady_useType state spec
  | none =>
    refine (steady_quiet fun s => ?_).bind fun room => ?_
    · split <;> rfl
    split
    · exact steady_fail _
    refine (steady_createType config home spec).bind fun raced => ?_
    cases raced with
    | some state => exact steady_useRacedType state spec
    | none =>
      refine (steady_read _).bind fun still => ?_
      split
      · exact steady_pure _
      refine (steady_modify fun s => ?_).bind fun _ => steady_fail _
      exact book_updateType fun _ => ⟨rfl, rfl⟩

theorem steady_acquireQueued (key : TypeKey) (e : SubmitRejection) :
    Steady i (acquireQueued key e) := by
  refine (steady_quiet fun s => ?_).bind fun taken => ?_
  · cases s.types key with
    | none => rfl
    | some state => exact book_updateType fun _ => ⟨rfl, rfl⟩
  · split
    · exact steady_pure _
    · exact steady_fail _

theorem steady_releaseQueued (key : TypeKey) : Steady i (releaseQueued key) :=
  steady_modify fun _ => book_updateType fun _ => ⟨rfl, rfl⟩

theorem steady_acquireGlobal (e : SubmitRejection) : Steady i (acquireGlobal e) := by
  refine (steady_quiet fun s => rfl).bind fun taken => ?_
  split
  · exact steady_pure _
  · exact steady_fail _

theorem steady_releaseGlobal : Steady i releaseGlobal := steady_modify fun _ => rfl

theorem steady_newEntry (home : ℕ) : Steady i (newEntry home) := by
  rw [newEntry]
  split
  · exact steady_pure _
  · exact steady_fail _

theorem steady_rejectDelayed (e : SubmitRejection) : Steady i (rejectDelayed e) :=
  steady_releaseGlobal.bind fun _ => steady_fail e

theorem steady_rejectQueued (key : TypeKey) (e : SubmitRejection) : Steady i (rejectQueued key e) :=
  (steady_releaseQueued key).bind fun _ => steady_rejectDelayed e

theorem steady_takeDelayed (id : ℕ) : Steady i (takeDelayed id) := steady_quiet fun _ => rfl

theorem steady_requalify (answers : Answers) (task : DelayedTask) :
    Steady i (requalify config answers task) := by
  refine (steady_read _).bind fun phase => ?_
  split
  · exact steady_fail _
  dsimp only
  split
  · exact steady_fail _
  refine (steady_getOrCreateType config _ _).bind fun _ => ?_
  refine (steady_acquireQueued _ _).bind fun _ => ?_
  split
  · exact steady_pure _
  · exact (steady_releaseQueued _).bind fun _ => steady_fail _

theorem keeps_nextTaskId {P : RunnerStore → Prop} (hP : ∀ s s', Trusts i s s' → P s → P s')
    (hs : P s) : Keeps i (fun _ => P) (fun _ s => P s ∧ u64Max ≤ s.nextTaskId) nextTaskId s := by
  apply safe_bind
  apply safe_atomic
  intro s' hR hI _
  have hs' := hP _ _ hR hs
  by_cases hroom : s'.nextTaskId < u64Max
  · have hstep : ∀ j, Trusts j s' { s' with nextTaskId := s'.nextTaskId + 1 } :=
      fun j => ⟨rfl, Nat.le_succ _⟩
    simp only [if_pos hroom]
    exact ⟨⟨OrderBook.Sound.nextId hI (Nat.le_succ _), fun j _ => hstep j⟩, hP _ _ (hstep i) hs'⟩
  · simp only [if_neg hroom]
    exact ⟨⟨hI, fun j _ => Trusts.refl j s'⟩, hs', not_lt.1 hroom⟩

/-! ## Programs that draw a number -/

/-- A program that begins without a number and ends without one, or finds that there are no
identities left. -/
def Settles (i : ℕ) (p : RunnerProg α) : Prop :=
  ∀ s, s.held i = none → Keeps i (fun _ => Free i) (fun _ => Free i) p s

theorem held_stable (c : Option (TypeKey × ℕ)) (s s' : RunnerStore) (h : Trusts i s s')
    (hs : s.held i = c) : s'.held i = c := h.1.trans hs

theorem free_stable (s s' : RunnerStore) (h : Trusts i s s') (hs : Free i s) : Free i s' :=
  h.free hs

theorem Steady.settles (hp : Steady i p) : Settles i p :=
  fun s hs => hp (Free i) free_stable s (.inl hs)

theorem Steady.bind_settles (hp : Steady i p)
    (hq : ∀ a, Settles i (q a)) : Settles i (p >>= q) := by
  intro s hs
  apply safe_bind
  exact safe_mono (hp _ (held_stable none) s hs) (fun a s hs => hq a s hs) fun _ _ he => .inl he

theorem Settles.withProducer (hp : Settles i p) : Settles i (withProducer p) := by
  have hleave : Steady i (.modify fun s : RunnerStore => { s with producers := s.producers - 1 }) :=
    steady_modify fun _ => rfl
  refine (steady_read _).bind_settles fun phase => ?_
  split
  · exact (steady_fail _).settles
  refine Steady.bind_settles (steady_modify fun _ => rfl) fun _ => ?_
  refine (steady_read _).bind_settles fun again => ?_
  split
  · exact (hleave.bind fun _ => steady_fail _).settles
  intro s hs
  apply safe_bind
  exact safe_attempt (safe_mono (hp s hs)
    (fun a s hs => (hleave.bind fun _ => steady_pure a) (Free i) free_stable s hs)
    fun e s hs => (hleave.bind fun _ => steady_fail e) (Free i) free_stable s hs)

theorem Settles.dropping {release : RunnerProg Unit}
    (hrel : Steady i release) (hp : Settles i p) : Settles i (dropping release p) := by
  intro s hs
  apply safe_bind
  refine safe_attempt (safe_mono (hp s hs) (fun a s hs => hs) fun e s hs => ?_)
  exact (hrel.bind fun _ => steady_fail e) (Free i) free_stable s hs

/-- What a submission holds after it drew its number. -/
def Holds (i : ℕ) (key : TypeKey) (sequence : Option ℕ) (s : RunnerStore) : Prop :=
  s.held i = sequence.map (key, ·)

theorem keeps_drawSequence {e : SubmitRejection} (hs : s.held i = none) :
    Keeps i (Holds i key) (fun _ s => s.held i = none) (drawSequence i key ordering e) s := by
  cases ordering with
  | relaxed => exact hs
  | strict =>
    apply safe_bind
    apply safe_atomic
    intro s' hR hI _
    have hs' : s'.held i = none := hR.1.trans hs
    have hquiet : Owes Trusts Booked i s' s' := ⟨hI, fun j _ => Trusts.refl j s'⟩
    cases hst : s'.types key with
    | none => exact ⟨hquiet, hs'⟩
    | some state =>
      by_cases hroom : state.strictOrder.nextIssue < u64Max
      · have hiss : state.strictOrder.issue.1 = some state.strictOrder.nextIssue := by
          simp [StrictOrder.issue, hroom]
        simp only [hiss]
        refine ⟨⟨?_, fun j hj => ⟨update_of_ne hj _ _, le_rfl⟩⟩, update_self _ _ _⟩
        have hbook := book_updateType_some hst TypeState.issue
        have hsound := OrderBook.Sound.issue hI (orders_book hst) hs' hroom
        simp only [TypeState.issue] at hbook
        rw [← hbook] at hsound
        exact hsound
      · have hiss : state.strictOrder.issue.1 = none := by simp [StrictOrder.issue, hroom]
        simp only [hiss]
        exact ⟨hquiet, hs'⟩

/-- The number of a submission was issued, so there is a state of its type. -/
theorem exists_state (hI : Booked s) (hs : s.held i = some (key, n)) :
    ∃ state, s.types key = some state ∧ n < state.strictOrder.nextIssue := by
  obtain ⟨row, hrow, hlt⟩ := hI.heldIssued i _ hs
  simp only [book, Option.map_eq_some_iff] at hrow
  obtain ⟨state, hst, rfl⟩ := hrow
  exact ⟨state, hst, hlt⟩

theorem booked_settle {state : TypeState} (hI : Booked s)
    (hst : s.types key = some state) (hiss : n < state.strictOrder.nextIssue) :
    Booked (s.updateType key fun state => state.settle n) := by
  rw [Booked, book_updateType_some hst]
  exact OrderBook.Sound.settle hI (orders_book hst) hiss

theorem keeps_settleStrict (hs : Holds i key sequence s) :
    Keeps i (fun _ s => s.held i = none) (fun _ _ => False) (settleStrict i key sequence) s := by
  cases sequence with
  | none => exact hs
  | some n =>
    apply safe_modify
    intro s' hR hI _
    have hs' : s'.held i = some (key, n) := hR.1.trans hs
    obtain ⟨state, hst, hlt⟩ := exists_state hI hs'
    refine ⟨⟨?_, fun j hj => ⟨update_of_ne hj _ _, le_rfl⟩⟩, update_self _ _ _⟩
    have hsett := booked_settle hI hst hlt
    have hrow : (s'.updateType key fun state => state.settle n).types key =
        some (state.settle n) := by
      simp [updateType, hst]
    exact OrderBook.Sound.release hsett (orders_book hrow) hs' (Finset.mem_insert_self _ _)

theorem keeps_carry (hs : Holds i key sequence s) :
    Keeps i (fun _ s => s.held i = none) (fun _ _ => False) (carry i key id sequence) s := by
  cases sequence with
  | none => exact hs
  | some n =>
    apply safe_modify
    intro s' hR hI _
    have hs' : s'.held i = some (key, n) := hR.1.trans hs
    refine ⟨⟨?_, fun j hj => ⟨update_of_ne hj _ _, le_rfl⟩⟩, update_self _ _ _⟩
    exact OrderBook.Sound.carry hI hs'

theorem keeps_finalizeInside (hs : Holds i key sequence s) :
    Keeps i (fun _ => Holds i key sequence) (fun _ _ => False)
      (finalizeInside answers key sequence) s := by
  cases sequence with
  | none => exact hs
  | some n =>
    rw [finalizeInside]
    split
    · apply safe_modify
      intro s' hR hI _
      have hs' : s'.held i = some (key, n) := hR.1.trans hs
      obtain ⟨state, hst, hlt⟩ := exists_state hI hs'
      exact ⟨⟨booked_settle hI hst hlt, fun j _ => ⟨rfl, le_rfl⟩⟩, hs'⟩
    · exact hs

/-- A task that is published has the number; otherwise the submission has it still. -/
theorem keeps_publishInitial (hs : Holds i key sequence s) :
    Keeps i (fun _ s => s.held i = none) (fun _ => Holds i key sequence)
      (publishInitial i answers key id sequence) s := by
  rw [publishInitial]
  cases answers.published with
  | ok _ => exact safe_mono (keeps_carry hs) (fun _ _ h => h) fun _ _ h => h.elim
  | error e =>
    apply safe_bind
    exact safe_mono (keeps_finalizeInside hs) (fun _ _ h => h) fun _ _ h => h.elim

/-- The ways out of a submission that has drawn its number: the task is published, or the number is
settled. -/
theorem keeps_publishOrSettle
    (reject : SubmitRejection → RunnerProg ℕ) (hrej : ∀ e, Steady i (reject e))
    (hs : Holds i key sequence s) :
    Keeps i (fun _ => Free i) (fun _ => Free i) (do
      let published ← (publishInitial i answers key id sequence).attempt
      match published with
      | .ok () => return id
      | .error e => do
        settleStrict i key sequence
        reject e) s := by
  apply safe_bind
  refine safe_attempt (safe_mono (keeps_publishInitial hs) (fun _ s hs => .inl hs) ?_)
  intro e s hs
  apply safe_bind
  refine safe_mono (keeps_settleStrict hs) (fun _ s hs => ?_) fun _ _ h => h.elim
  exact hrej e (Free i) free_stable s (.inl hs)

theorem keeps_settleAndReject {p : RunnerProg ℕ}
    (hp : Steady i p) (hs : Holds i key sequence s) :
    Keeps i (fun _ => Free i) (fun _ => Free i) (do
      settleStrict i key sequence
      p) s := by
  apply safe_bind
  refine safe_mono (keeps_settleStrict hs) (fun _ s hs => ?_) fun _ _ h => h.elim
  exact hp (Free i) free_stable s (.inl hs)

theorem settles_submitAdmitted (answers : Answers) {home : ℕ} (spec : TaskSpec)
    (hhome : home < 2 ^ 31) : Settles i (submitAdmitted i answers home spec) := by
  apply Settles.withProducer
  refine (steady_read _).bind_settles fun failed => ?_
  split
  · exact (steady_fail _).settles
  intro s hs
  apply safe_bind
  refine safe_mono (keeps_drawSequence hs) (fun sequence s hs => ?_) fun _ _ h => .inl h
  apply safe_bind
  -- The only way out with the number: there are no identities left.
  refine safe_mono (keeps_nextTaskId (P := Holds i _ sequence) (held_stable _) hs)
    (fun id s hs => ?_) fun _ _ h => .inr h.2
  rw [newEntry, if_pos hhome]
  apply safe_bind
  show Safe _ _ _ _ _ _ (if answers.bound = false then _ else _) s
  split
  · exact keeps_settleAndReject (steady_fail _) hs
  · exact keeps_publishOrSettle (fun e => .fail e) (fun e => steady_fail e) hs

theorem home_lt (hash : ℕ) : config.home hash < 2 ^ 31 := by
  have hlt := Nat.mod_lt hash config.within.1
  have hmax := config.within.2
  rw [RunnerConfig.home]
  omega

theorem settles_submitNow (answers : Answers) (hash : ℕ) (spec : TaskSpec) :
    Settles i (submitNow config i answers hash spec) := by
  apply Settles.withProducer
  refine (steady_getOrCreateType config _ _).bind_settles fun _ => ?_
  refine (steady_acquireQueued _ _).bind_settles fun _ => ?_
  refine Settles.dropping (steady_releaseQueued _) ?_
  refine (steady_acquireGlobal _).bind_settles fun _ => Settles.dropping steady_releaseGlobal ?_
  exact settles_submitAdmitted answers spec (home_lt config hash)

theorem settles_submitAsync (answers : Answers) (hash : ℕ)
    (spec : TaskSpec) : Settles i (submitAsync config i answers hash spec) := by
  refine (steady_getOrCreateType config _ _).bind_settles fun _ => ?_
  refine (steady_acquireQueued _ _).bind_settles fun _ => ?_
  refine Settles.dropping (steady_releaseQueued _) ?_
  refine (steady_acquireGlobal _).bind_settles fun _ => Settles.dropping steady_releaseGlobal ?_
  exact settles_submitAdmitted answers spec (home_lt config hash)

theorem steady_nextTaskId : Steady i nextTaskId := fun _ hP _ hs =>
  safe_mono (keeps_nextTaskId hP hs) (fun _ _ h => h) fun _ _ h => h.1

theorem settles_submitDelayed (answers : Answers) (hash : ℕ)
    (spec : TaskSpec) : Settles i (submitDelayed config answers hash spec) := by
  apply Settles.withProducer
  refine (steady_acquireGlobal _).bind_settles fun _ => Settles.dropping steady_releaseGlobal ?_
  apply Steady.settles
  refine steady_nextTaskId.bind fun id => (steady_newEntry _).bind fun _ => ?_
  refine Steady.bind (steady_modify fun _ => rfl) fun _ => ?_
  split
  · exact steady_pure id
  · exact Steady.bind (steady_modify fun _ => rfl) fun _ => steady_fail _

theorem settles_expireDelayed (answers : Answers) (id : ℕ) :
    Settles i (expireDelayed config i answers id) := by
  refine (steady_takeDelayed id).bind_settles fun delayed => ?_
  cases delayed with
  | none => exact (steady_pure id).settles
  | some task =>
    dsimp only
    split
    · exact (steady_pure id).settles
    refine (steady_requalify config answers task).attempt.bind_settles fun ready => ?_
    cases ready with
    | error e => exact (steady_rejectDelayed e).settles
    | ok _ =>
      intro s hs
      apply safe_bind
      refine safe_attempt (safe_mono (keeps_drawSequence hs) (fun sequence s hs => ?_) ?_)
      · show Safe _ _ _ _ _ _ (if answers.bound = false then _ else _) s
        split
        · exact keeps_settleAndReject (steady_rejectQueued _ _) hs
        · exact keeps_publishOrSettle (rejectQueued _) (fun e => steady_rejectQueued _ e) hs
      · intro e s hs
        exact (steady_rejectQueued _ e).settles s hs

theorem steady_settleTask (key : TypeKey) (n : ℕ) : Steady i (settleTask key n) := by
  intro P hP s hs
  apply safe_modify
  intro s' hR hI _
  split
  · next hiss =>
    obtain ⟨state, hst, hlt⟩ := (Option.any_eq_true _ _).1 hiss
    have hstep : ∀ j, Trusts j s' (s'.updateType key fun state => state.settle n) :=
      fun j => ⟨rfl, le_rfl⟩
    exact ⟨⟨booked_settle hI hst (of_decide_eq_true hlt), fun j _ => hstep j⟩,
      hP _ _ (hstep i) (hP _ _ hR hs)⟩
  · exact ⟨⟨hI, fun j _ => Trusts.refl j s'⟩, hP _ _ hR hs⟩

/-- **Calls.** Every call that has returned holds no number, unless there are no identities left. -/
theorem keeps_prog (answers : Answers) (call : RunnerCall)
    (hs : s.held i = none) :
    Keeps i (fun _ => Free i) (fun _ _ => True) (call.prog config i answers) s := by
  cases call with
  | submitNow hash spec => exact safe_attempt (settles_submitNow config answers hash spec s hs)
  | submitAsync hash spec =>
    exact safe_attempt (settles_submitAsync config answers hash spec s hs)
  | submitDelayed hash spec =>
    exact safe_attempt (settles_submitDelayed config answers hash spec s hs)
  | expireDelayed id => exact safe_attempt (settles_expireDelayed config answers id s hs)
  | settleTask key n =>
    exact safe_mono (((steady_settleTask key n).bind fun _ => steady_pure _).settles s hs)
      (fun _ _ h => h) fun _ _ _ => trivial

/-! ## The system -/

theorem book_apply (s : RunnerStore) (event : RunnerEvent) : (s.apply event).book = s.book := by
  cases event with
  | failType key | closeQueued key | releaseQueued key => exact book_updateType fun _ => ⟨rfl, rfl⟩
  | _ => rfl

theorem booked_new : Booked (.new config) := by
  constructor
  all_goals simp [book, new]

theorem inv_admission (calls : ℕ → RunnerCall × Answers)
    (inputs : List (Input RunnerEvent)) :
    (runFrom admissionExec (admission config calls) inputs).Inv Trusts (Owes Trusts Booked)
      (fun _ _ _ => True) Booked fun i _ => Free i := by
  refine Sys.sound (Sys.compatible_owes Trusts.refl (fun _ _ _ _ => Trusts.trans)
    fun _ _ _ _ h => h.free) ?_ ((along_true _ _).mono fun sys input _ => ?_)
  · exact Sys.inv_launch (booked_new config) fun i => keeps_prog config _ _ rfl
  · cases input with
    | run i | stop i => trivial
    | env event =>
      intro hI
      have hbook := book_apply sys.store event
      refine ⟨by rw [Booked, hbook]; exact hI, fun i _ => trusts_of_book hbook, fun i _ hfree => ?_⟩
      exact (trusts_of_book hbook).free hfree

/-- The submission that drew the number has not returned. -/
def Pending (sys : Sys RunnerStore SubmitRejection (Except SubmitRejection ℕ)) (key : TypeKey)
    (n : ℕ) : Prop :=
  ∃ i, sys.store.held i = some (key, n) ∧ ∀ outcome, sys.procs i ≠ .done outcome

/-- **Numbers of the strict order.** -/
theorem strict_sequences (config : RunnerConfig) (calls : ℕ → RunnerCall × Answers)
    (inputs : List (Input RunnerEvent)) :
    let final := runFrom admissionExec (admission config calls) inputs
    ∀ key state, final.store.types key = some state →
      (∀ n, n < state.strictOrder.nextRun → n ∈ state.settled) ∧
      state.strictOrder.nextRun ∉ state.settled ∧
      state.strictOrder.nextRun ≤ state.strictOrder.nextIssue ∧
      (∀ n, state.strictOrder.turnReady n → ∀ m, m < n → m ∈ state.settled) ∧
      (final.store.nextTaskId < u64Max → ∀ n, n < state.strictOrder.nextIssue → n ∈ state.settled ∨
        (∃! task, task ∈ final.store.accepted ∧ task.key = key ∧ task.sequence = n) ∨
        Pending final key n) := by
  intro final key state hst
  have hinv := inv_admission config calls inputs
  have hsound : final.store.book.Sound := hinv.1
  have hrow := orders_book hst
  have htracks := hsound.tracks key _ hrow
  refine ⟨htracks.before, htracks.head, htracks.nextRun_le,
    -- A turn is ready only behind settled numbers.
    fun n hready m hm => htracks.before m (hm.trans_le (of_decide_eq_true hready)),
    fun hid n hn => ?_⟩
  rcases hsound.covered hid key _ hrow n hn with hsett | ⟨task, htask, heq⟩ | ⟨i, hi⟩
  · exact .inl hsett
  · refine .inr (.inl ⟨task, ⟨htask, congrArg Prod.fst heq, congrArg Prod.snd heq⟩, ?_⟩)
    intro other ⟨hmem, hkey, hseq⟩
    exact inj_on_of_nodup_map hsound.acceptedOnce hmem htask (by rw [heq, hkey, hseq])
  · refine .inr (.inr ⟨i, hi, fun outcome hdone => ?_⟩)
    rcases hinv.result hdone with hnone | hout
    · cases hnone.symm.trans hi
    · exact absurd hid (not_lt.2 hout)

/-- A small runner. -/
def smallConfig : RunnerConfig := ⟨1, 4, 4, 4, by decide⟩

def smallAnswers (registered : Bool) : Answers := ⟨true, true, true, registered, .ok (), false⟩

/-- A strict task is submitted and accepted. -/
theorem strict_sequences_accepted :
    let final := runFrom admissionExec
      (admission smallConfig fun _ => (.submitNow 0 ⟨7, .strict⟩, smallAnswers true))
      (List.replicate 30 (.run 0))
    ∃ state, final.store.types (0, 7) = some state ∧ final.store.nextTaskId < u64Max ∧
      0 < state.strictOrder.nextIssue ∧
      (0 ∈ state.settled ∨
        (∃! task, task ∈ final.store.accepted ∧ task.key = (0, 7) ∧ task.sequence = 0) ∨
        Pending final (0, 7) 0) :=
  ⟨_, rfl, by decide, by decide,
    (strict_sequences smallConfig _ (replicate 30 (.run 0)) (0, 7) _ rfl).2.2.2.2 (by decide) 0
      (by decide)⟩

/-! ## Without identities -/

/-- Delayed submissions that the timer refuses use up the identities; then a strict task comes. -/
def exhaustingCalls (i : ℕ) : RunnerCall × Answers :=
  if i + 1 < u64Max then (.submitDelayed 0 ⟨7, .strict⟩, smallAnswers false)
  else (.submitNow 0 ⟨7, .strict⟩, smallAnswers true)

/-- The runner after `n - 1` identities, with nothing left of the tasks that had them. -/
def usedIds (n : ℕ) : RunnerStore := { new smallConfig with nextTaskId := n }

/-- A delayed submission that the timer refuses costs an identity and nothing else. -/
theorem solo_refused (hn : n < u64Max) (i : ℕ) :
    (((RunnerCall.submitDelayed 0 ⟨7, .strict⟩).prog smallConfig i (smallAnswers false)).solo
      (usedIds n)).1 = usedIds (n + 1) := by
  simp [RunnerCall.prog, submitDelayed, withProducer, acquireGlobal, dropping, nextTaskId, newEntry,
    releaseGlobal, Prog.attempt, Prog.solo, Prog.read, Prog.modify, Prog.atomic, bind, Prog.bind,
    pure, usedIds, new, smallConfig, smallAnswers, RunnerConfig.home, Budget.tryAcquire,
    Budget.release, hn]

/-- The identities are used up one by one. -/
theorem exists_usedIds (hn : n + 1 ≤ u64Max) :
    ∃ inputs, (runFrom admissionExec (admission smallConfig exhaustingCalls) inputs).store =
        usedIds (n + 1) ∧
      ∀ j, n ≤ j → (runFrom admissionExec (admission smallConfig exhaustingCalls) inputs).procs j =
        (exhaustingCalls j).1.prog smallConfig j (exhaustingCalls j).2 := by
  induction n with
  | zero => exact ⟨[], rfl, fun _ _ => rfl⟩
  | succ n ih =>
    obtain ⟨before, hstore, hprocs⟩ := ih (by omega)
    have hlt : n + 1 < u64Max := hn
    have hproc := hprocs n le_rfl
    rw [exhaustingCalls, if_pos hlt] at hproc
    obtain ⟨inputs, hstore', hprocs'⟩ := Sys.exists_solo apply .abandoned
      (runFrom admissionExec (admission smallConfig exhaustingCalls) before) n
    refine ⟨before ++ inputs, ?_, fun j hj => ?_⟩
    · rw [runFrom_append]
      refine hstore'.trans ?_
      rw [hproc, hstore]
      exact solo_refused hlt n
    · rw [runFrom_append]
      refine (congrFun hprocs' j).trans ?_
      rw [update_of_ne (by omega)]
      exact hprocs j (by omega)

/-- The strict submission that finds no identity. -/
def lastCall : ℕ := u64Max - 1

/-- **A number is lost.** The submission has returned its rejection, its number belongs to no task
and is not settled, and no later task gets its turn. -/
theorem strict_sequence_lost :
    ∃ inputs, let final := runFrom admissionExec (admission smallConfig exhaustingCalls) inputs
      final.procs lastCall = .done (.error .laneFailed) ∧ final.store.accepted = [] ∧
      ∃ state, final.store.types (0, 7) = some state ∧ state.strictOrder.nextIssue = 1 ∧
        state.settled = ∅ ∧ state.strictOrder.turnReady 1 = false := by
  obtain ⟨before, hstore, hprocs⟩ := exists_usedIds (n := lastCall) (by decide)
  have hproc := hprocs lastCall le_rfl
  rw [exhaustingCalls, if_neg (by decide)] at hproc
  obtain ⟨inputs, hstore', hprocs'⟩ := Sys.exists_solo apply .abandoned
    (runFrom admissionExec (admission smallConfig exhaustingCalls) before) lastCall
  rw [hproc, hstore] at hstore' hprocs'
  refine ⟨before ++ inputs, ?_⟩
  simp only [runFrom_append]
  refine ⟨?_, ?_, ?_⟩
  · refine (congrFun hprocs' lastCall).trans ?_
    rw [update_self]
    rfl
  · exact (congrArg RunnerStore.accepted hstore').trans rfl
  · exact ⟨_, (congrFun (congrArg types hstore') (0, 7)).trans rfl, rfl, rfl, rfl⟩

end Admission

end NasaRuntime.Napart
