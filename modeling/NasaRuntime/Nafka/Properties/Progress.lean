import NasaRuntime.Nafka.OffsetState

/-!
# The frontier and the progress of a group

The observations of a partition are trimmed when a commit is confirmed, so the state knows only the
last of them. What is claimed is about all of them: the history of the partition since its last
reset. The invariant `Tracks` carries it: an observation that is not safe is never trimmed, because
it lies at the frontier or above it.

**Theorem (`frontier_run`).** In every run, for every partition, whatever its operations answered:
no next offset that is offered or confirmed passes an unsafe offset recorded since the last reset;
the confirmed offsets strictly increase until the partition is forgotten; offsets are recorded
strictly increasing, and past everything that was offered or confirmed, as long as the partition
holds an observation; a confirmation is accepted only for the frontier, and trims only safe
observations below it.

The order is not checked past a confirmation that trims the last observation: the check compares
with the observations in flight, and there are none (`frontier_run_drained`).

**Theorem (`counted_run`).** `Counted` holds after every run, also after operations that fail, and
the confirmation of several partitions takes effect for all of them or for none.

**Theorem (`observed_run`).** A run is accepted if its records would be one by one, with the same
result, and leaves the state as it was if not.

**Theorem (`safe_run`).** A record is known as safe if it lies below the confirmed offset, or is
recorded as safe in the epoch that is asked for. It was then confirmed, or recorded as safe since the
last reset. The confirmed offset counts in every epoch (`safe_run_reassigned`).
-/

namespace NasaRuntime.Nafka

open List

/-! ## Events -/

variable {next offset : Int} {x : OffsetEvent} {outcome : RecordOutcome}
  {state state' : PartitionOffsetState}

namespace OffsetEvent

/-- The next offset that the event names. -/
def next? : OffsetEvent → Option Int
  | .offered next | .confirmed next _ => some next
  | .recorded .. | .reset | .removed => none

/-- The offsets below the bound are behind the event. -/
def reach? : OffsetEvent → Option Int
  | .recorded offset _ => some (offset + 1)
  | .offered next | .confirmed next _ => some next
  | .reset | .removed => none

def isRemoved : OffsetEvent → Bool
  | .removed => true
  | _ => false

def isReset : OffsetEvent → Bool
  | .reset | .removed => true
  | _ => false

/-- The partition holds no observation after the event. -/
def isPause : OffsetEvent → Bool
  | .reset | .removed | .confirmed _ 0 => true
  | _ => false

end OffsetEvent

/-! ## The frontier -/

namespace PartitionOffsetState

variable {state : PartitionOffsetState} {next : Int}

theorem frontierOf_ok {observed : List ObservedOutcome} {hne : observed ≠ []}
    (hsort : observed.Pairwise (·.offset < ·.offset)) (h : frontierOf observed hne = .ok next) :
    (∀ entry ∈ observed, entry.outcome.isSafe = false → next ≤ entry.offset) ∧
      ∃ entry ∈ observed, next ≤ entry.offset + 1 := by
  unfold frontierOf at h
  split at h
  · rename_i first hfind
    cases h
    obtain ⟨-, before, after, rfl, hbef⟩ := find?_eq_some_iff_append.1 hfind
    refine ⟨fun entry hent hopen => ?_, first, by simp, by omega⟩
    rcases mem_append.1 hent with hmem | hmem
    · simpa [hopen] using hbef entry hmem
    · rcases mem_cons.1 hmem with rfl | hmem
      · exact le_rfl
      · exact ((pairwise_cons.1 (pairwise_append.1 hsort).2.1).1 entry hmem).le
  · rename_i hnone
    simp only at h
    split at h
    · cases h
      refine ⟨fun entry hent hopen => ?_, _, getLast_mem hne, le_rfl⟩
      have hsafe := find?_eq_none.1 hnone entry hent
      simp [hopen] at hsafe
    · cases h

theorem committableNext_ok (h : state.committableNext = .ok (some next)) :
    (∃ progress, ∃ hne : progress.observed ≠ [], state.inFlight = some progress ∧
      frontierOf progress.observed hne = .ok next) ∧
      ∀ confirmed, state.lastConfirmed = some confirmed → confirmed < next := by
  unfold committableNext at h
  split at h
  · cases h
  · rename_i progress hflight
    split at h
    · cases h
    · rename_i hne
      split at h
      · cases h
      · rename_i frontier hfront
        split at h
        · rename_i confirmed hconf
          split at h
          · cases h
          · rename_i hlt
            cases h
            refine ⟨⟨progress, hne, hflight, hfront⟩, fun confirmed' heq => ?_⟩
            obtain rfl : confirmed = confirmed' := Option.some.inj (hconf.symm.trans heq)
            exact not_le.1 hlt
        · rename_i hconf
          split at h
          · cases h
          · cases h
            refine ⟨⟨progress, hne, hflight, hfront⟩, fun confirmed heq => ?_⟩
            rw [hconf] at heq
            cases heq

theorem committableNext_le (h : state.committableNext = .ok (some next)) :
    (∀ entry ∈ state.observed, entry.outcome.isSafe = false → next ≤ entry.offset) ∧
      ∃ entry ∈ state.observed, next ≤ entry.offset + 1 := by
  obtain ⟨⟨progress, hne, hflight, hfront⟩, -⟩ := committableNext_ok h
  have hobs : state.observed = progress.observed := by simp [observed, hflight]
  rw [hobs]
  exact frontierOf_ok progress.increasing hfront

end PartitionOffsetState

/-! ## The invariant -/

open PartitionOffsetState

/-- What the state of a partition keeps of its history. -/
structure Tracks (before : List OffsetEvent) (p : Option PartitionOffsetState) : Prop where
  /-- An unsafe observation stays until the next reset. -/
  unsafeKept : ∀ offset outcome,
    .recorded offset outcome ∈ before.rtakeWhile (!·.isReset) → outcome.isSafe = false →
      ∃ state, p = some state ∧ ⟨offset, outcome⟩ ∈ state.observed
  /-- A confirmed offset is remembered, also by a reset. -/
  confirmedKept : ∀ next left, .confirmed next left ∈ before.rtakeWhile (!·.isRemoved) →
    ∃ state confirmed, p = some state ∧ state.lastConfirmed = some confirmed ∧ next ≤ confirmed
  /-- While there is an observation, the last one is as far as anything that happened. -/
  reached : ∀ e ∈ before.rtakeWhile (!·.isPause), ∀ bound, e.reach? = some bound →
    ∃ state entry, p = some state ∧ entry ∈ state.observed ∧ bound ≤ entry.offset + 1

variable {before : List OffsetEvent} {p p' : Option PartitionOffsetState} {e : OffsetEvent}

/-- What happened since the last event of a kind, one event later. -/
theorem mem_rtakeWhile_concat {stop : OffsetEvent → Bool}
    (h : x ∈ (before ++ [e]).rtakeWhile (!stop ·)) :
    stop e = false ∧ (x ∈ before.rtakeWhile (!stop ·) ∨ x = e) := by
  rw [rtakeWhile_concat] at h
  split at h
  · rename_i hstop
    refine ⟨by simpa using hstop, ?_⟩
    simpa using h
  · cases h

theorem Tracks.record {epoch : ℕ}
    (hstart : p = some state ∨ (p = none ∧ PartitionOffsetState.new none offset = .ok state))
    (happ : Appends epoch state (offset, outcome) state') (ht : Tracks before p) :
    Tracks (before ++ [.recorded offset outcome]) (some state') := by
  have hobs : state'.observed = state.observed ++ [⟨offset, outcome⟩] := observed_of_appends happ
  have hconf : state'.lastConfirmed = state.lastConfirmed := by
    obtain ⟨progress, rfl, -⟩ := happ
    rfl
  have hsame : ∀ s, p = some s → s = state := by
    intro s hs
    rcases hstart with h | ⟨h, -⟩
    · exact Option.some.inj (hs.symm.trans h)
    · rw [h] at hs
      cases hs
  constructor
  · intro offset' outcome' hmem hopen
    refine ⟨state', rfl, ?_⟩
    rw [hobs]
    rcases (mem_rtakeWhile_concat hmem).2 with hmem | heq
    · obtain ⟨s, hs, hent⟩ := ht.unsafeKept _ _ hmem hopen
      rw [hsame s hs] at hent
      exact mem_append_left _ hent
    · cases heq
      simp
  · intro next left hmem
    rcases (mem_rtakeWhile_concat hmem).2 with hmem | heq
    · obtain ⟨s, confirmed, hs, hlast, hle⟩ := ht.confirmedKept _ _ hmem
      rw [hsame s hs] at hlast
      exact ⟨state', confirmed, rfl, hconf.trans hlast, hle⟩
    · cases heq
  · intro x hmem bound hreach
    rcases (mem_rtakeWhile_concat hmem).2 with hmem | heq
    · obtain ⟨s, entry, hs, hent, hle⟩ := ht.reached x hmem bound hreach
      rw [hsame s hs] at hent
      exact ⟨state', entry, rfl, hobs ▸ mem_append_left _ hent, hle⟩
    · subst heq
      cases hreach
      exact ⟨state', ⟨offset, outcome⟩, rfl, by simp [hobs], le_rfl⟩

theorem Tracks.offer
    (h : state.committableNext = .ok (some next)) (ht : Tracks before (some state)) :
    Tracks (before ++ [.offered next]) (some state) := by
  constructor
  · intro offset outcome hmem hopen
    rcases (mem_rtakeWhile_concat hmem).2 with hmem | heq
    · exact ht.unsafeKept _ _ hmem hopen
    · cases heq
  · intro next' left hmem
    rcases (mem_rtakeWhile_concat hmem).2 with hmem | heq
    · exact ht.confirmedKept _ _ hmem
    · cases heq
  · intro x hmem bound hreach
    rcases (mem_rtakeWhile_concat hmem).2 with hmem | heq
    · exact ht.reached x hmem bound hreach
    · subst heq
      cases hreach
      obtain ⟨entry, hent, hle⟩ := (committableNext_le h).2
      exact ⟨state, entry, rfl, hent, hle⟩

theorem Tracks.confirm
    (h : state.confirmCommitted next = .ok state') (ht : Tracks before (some state)) :
    Tracks (before ++ [.confirmed next state'.observedLen]) (some state') := by
  obtain ⟨hoff, rfl⟩ := confirmCommitted_ok h
  have hobs := observed_trim state next
  generalize hst' : (⟨next, some next, state.inFlight.bind (trim · next)⟩ :
    PartitionOffsetState) = state' at hobs ⊢
  have hconf : state'.lastConfirmed = some next := by rw [← hst']
  constructor
  · intro offset outcome hmem hopen
    rcases (mem_rtakeWhile_concat hmem).2 with hmem | heq
    · -- it lies at the frontier or above it, so it is not trimmed
      obtain ⟨s, hs, hent⟩ := ht.unsafeKept _ _ hmem hopen
      cases hs
      have hle := (committableNext_le hoff).1 _ hent hopen
      refine ⟨state', rfl, ?_⟩
      rw [hobs]
      exact mem_filter.2 ⟨hent, decide_eq_true hle⟩
    · cases heq
  · intro next' left hmem
    refine ⟨state', next, rfl, hconf, ?_⟩
    rcases (mem_rtakeWhile_concat hmem).2 with hmem | heq
    · obtain ⟨s, confirmed, hs, hlast, hle⟩ := ht.confirmedKept _ _ hmem
      cases hs
      exact hle.trans ((committableNext_ok hoff).2 confirmed hlast).le
    · cases heq
      exact le_rfl
  · intro x hmem bound hreach
    obtain ⟨hstop, hmem⟩ := mem_rtakeWhile_concat hmem
    -- the confirmation leaves an observation, at the confirmed offset or above it
    obtain ⟨left, hleft⟩ : ∃ left, left ∈ state'.observed := by
      cases hlist : state'.observed with
      | nil => simp [observedLen, hlist, OffsetEvent.isPause] at hstop
      | cons left rest => exact ⟨left, mem_cons_self⟩
    have hnext : next ≤ left.offset := by
      rw [hobs] at hleft
      exact of_decide_eq_true (mem_filter.1 hleft).2
    rcases hmem with hmem | heq
    · obtain ⟨s, entry, hs, hent, hle⟩ := ht.reached x hmem bound hreach
      cases hs
      by_cases hkept : next ≤ entry.offset
      · refine ⟨state', entry, rfl, ?_, hle⟩
        rw [hobs]
        exact mem_filter.2 ⟨hent, decide_eq_true hkept⟩
      · exact ⟨state', left, rfl, hleft, by omega⟩
    · subst heq
      cases hreach
      exact ⟨state', left, rfl, hleft, by omega⟩

theorem Tracks.reset (ht : Tracks before p) :
    Tracks (before ++ [.reset]) (p.map PartitionOffsetState.reset) := by
  constructor
  · intro offset outcome hmem
    cases (mem_rtakeWhile_concat hmem).1
  · intro next left hmem
    rcases (mem_rtakeWhile_concat hmem).2 with hmem | heq
    · obtain ⟨state, confirmed, rfl, hlast, hle⟩ := ht.confirmedKept _ _ hmem
      exact ⟨state.reset, confirmed, rfl, hlast, hle⟩
    · cases heq
  · intro x hmem
    cases (mem_rtakeWhile_concat hmem).1

theorem Tracks.remove : Tracks (before ++ [.removed]) none := by
  constructor
  · intro offset outcome hmem
    cases (mem_rtakeWhile_concat hmem).1
  · intro next left hmem
    cases (mem_rtakeWhile_concat hmem).1
  · intro x hmem
    cases (mem_rtakeWhile_concat hmem).1

theorem tracks_move (ht : Tracks before p) (h : OffsetMove p e p') : Tracks (before ++ [e]) p' := by
  cases h with
  | record hstart happ => exact ht.record hstart happ
  | offer hoff => exact ht.offer hoff
  | confirm hconf => exact ht.confirm hconf
  | reset => exact ht.reset
  | remove => exact .remove

theorem tracks_path (h : Path OffsetMove none before p) : Tracks before p := by
  refine Path.inv (I := Tracks) ?_ tracks_move h
  constructor
  · nofun
  · nofun
  · nofun

/-! ## Every run -/

namespace GroupOffsetState

/-- What happened to a partition in a run. -/
def log (maxPartitionRecords maxGroupRecords : ℕ) (tp : Tp) (ops : List OffsetOp) :
    List OffsetEvent :=
  history exec (events tp) (new maxPartitionRecords maxGroupRecords) ops

/-- An event of a run, the moves before it and its move. -/
theorem move_of_log {maxPartitionRecords maxGroupRecords : ℕ} {tp : Tp} {ops : List OffsetOp}
    {after : List OffsetEvent}
    (h : log maxPartitionRecords maxGroupRecords tp ops = before ++ e :: after) :
    ∃ p p', Tracks before p ∧ OffsetMove p e p' := by
  have hpath := path_history (path_events tp) (new maxPartitionRecords maxGroupRecords) ops
  rw [show history exec (events tp) _ ops = _ from h] at hpath
  obtain ⟨p, p', hbef, hmove⟩ := hpath.event
  exact ⟨p, p', tracks_path hbef, hmove⟩

theorem next_le_of_recorded (ht : Tracks before p)
    (hmove : OffsetMove p e p') (hnext : e.next? = some next)
    (hmem : .recorded offset outcome ∈ before.rtakeWhile (!·.isReset))
    (hopen : outcome.isSafe = false) : next ≤ offset := by
  obtain ⟨state, rfl, hent⟩ := ht.unsafeKept _ _ hmem hopen
  cases hmove with
  | offer hoff =>
    cases hnext
    exact (committableNext_le hoff).1 _ hent hopen
  | confirm hconf =>
    cases hnext
    exact (committableNext_le (confirmCommitted_ok hconf).1).1 _ hent hopen
  | record | reset | remove => cases hnext

theorem bound_le_of_recorded {bound : Int}
    (ht : Tracks before p) (hmove : OffsetMove p (.recorded offset outcome) p')
    (hmem : x ∈ before.rtakeWhile (!·.isPause)) (hreach : x.reach? = some bound) :
    bound ≤ offset := by
  obtain ⟨state, entry, rfl, hent, hle⟩ := ht.reached x hmem bound hreach
  cases hmove with
  | record hstart happ =>
    rename_i s s' epoch
    obtain rfl : state = s := by
      rcases hstart with h | ⟨h, -⟩
      · exact Option.some.inj h
      · cases h
    have hsort := increasing_observed s'
    rw [observed_of_appends happ] at hsort
    have hlt : entry.offset < offset :=
      (pairwise_append.1 hsort).2.2 entry hent _ (mem_singleton_self _)
    omega

/-- **Safe frontier.** -/
theorem frontier_run (maxPartitionRecords maxGroupRecords : ℕ) (ops : List OffsetOp) (tp : Tp) :
    -- no next offset passes an unsafe one, since the last reset
    (∀ before e after next,
      log maxPartitionRecords maxGroupRecords tp ops = before ++ e :: after →
      e.next? = some next → ∀ offset outcome,
        .recorded offset outcome ∈ before.rtakeWhile (!·.isReset) →
        (outcome.isSafe = false → next ≤ offset) ∧ (offset < next → outcome.isSafe = true)) ∧
    -- records go upwards, and past what was offered or confirmed, while there are observations
    (∀ before offset outcome after,
      log maxPartitionRecords maxGroupRecords tp ops =
        before ++ .recorded offset outcome :: after →
      ∀ e ∈ before.rtakeWhile (!·.isPause),
        (∀ offset' outcome', e = .recorded offset' outcome' → offset' < offset) ∧
        ∀ next, e.next? = some next → next ≤ offset) ∧
    -- confirmed offsets strictly increase
    (∀ before next left after,
      log maxPartitionRecords maxGroupRecords tp ops = before ++ .confirmed next left :: after →
      ∀ next' left', .confirmed next' left' ∈ before.rtakeWhile (!·.isRemoved) → next' < next) ∧
    -- a confirmation is that of the frontier, and trims safe observations below it
    ∀ offsets, ((run maxPartitionRecords maxGroupRecords ops).confirmCommitted offsets).2 =
      .ok () → ∀ next, offsets.get? tp = some next → ∃ state state',
        (run maxPartitionRecords maxGroupRecords ops).partitions.get? tp = some state ∧
        ((run maxPartitionRecords maxGroupRecords ops).confirmCommitted
          offsets).1.partitions.get? tp = some state' ∧
        state.committableNext = .ok (some next) ∧
        state'.lastConfirmed = some next ∧
        ∀ entry ∈ state.observed, entry ∈ state'.observed ∨
          (entry.outcome.isSafe = true ∧ entry.offset < next) := by
  refine ⟨?_, ?_, ?_, ?_⟩
  · intro before e after next hlog hnext offset outcome hmem
    obtain ⟨p, p', ht, hmove⟩ := move_of_log hlog
    have hle := next_le_of_recorded ht hmove hnext hmem
    refine ⟨hle, fun hlt => ?_⟩
    by_contra hopen
    have := hle (eq_false_of_ne_true hopen)
    omega
  · intro before offset outcome after hlog e hmem
    obtain ⟨p, p', ht, hmove⟩ := move_of_log hlog
    constructor
    · rintro offset' outcome' rfl
      have := bound_le_of_recorded ht hmove hmem rfl
      omega
    · intro next hnext
      refine bound_le_of_recorded ht hmove hmem ?_
      cases e <;> first | exact hnext | cases hnext
  · intro before next left after hlog next' left' hmem
    obtain ⟨p, p', ht, hmove⟩ := move_of_log hlog
    obtain ⟨state, confirmed, rfl, hlast, hle⟩ := ht.confirmedKept _ _ hmem
    cases hmove with
    | confirm hconf =>
      have := (committableNext_ok (confirmCommitted_ok hconf).1).2 confirmed hlast
      omega
  · intro offsets hok next hnext
    generalize run maxPartitionRecords maxGroupRecords ops = group at hok ⊢
    rcases confirmCommitted_spec group offsets with
      ⟨-, error, hconf⟩ | ⟨partitions, hconf, -, hdone⟩
    · rw [hconf] at hok
      cases hok
    · obtain ⟨state, state', hget, hcomm, hget'⟩ := hdone tp next hnext
      obtain ⟨hoff, rfl⟩ := confirmCommitted_ok hcomm
      refine ⟨state, _, hget, by rw [hconf]; exact hget', hoff, rfl, ?_⟩
      intro entry hent
      rw [observed_trim]
      by_cases hkept : next ≤ entry.offset
      · exact .inl (mem_filter.2 ⟨hent, decide_eq_true hkept⟩)
      · refine .inr ⟨?_, not_le.1 hkept⟩
        by_contra hopen
        exact hkept ((committableNext_le hoff).1 entry hent (eq_false_of_ne_true hopen))

/-- A partition with a gap and a failed record, and the commits of a next offset for it. -/
def orders : Tp := ⟨"orders", 0⟩

def commitTo (next : Int) : Dict Tp Int := (∅ : Dict Tp Int).insert orders next

/-- Up to the failed record everything is committed; the next records come after it, and so does the
next commit after the first one. -/
theorem frontier_run_gap :
    let ops := [.observe orders 0 5 (.acknowledged .manual), .confirmCommitted (commitTo 6),
      .observeRun orders 0 [(8, .deadLettered), (9, .failed)], .committableOffsets,
      .confirmCommitted (commitTo 9)]
    log 10 10 orders ops = [.recorded 5 (.acknowledged .manual), .confirmed 6 0,
      .recorded 8 .deadLettered, .recorded 9 .failed, .offered 9, .confirmed 9 1] ∧
    ((9 : Int) ≤ 9 ∧ (8 : Int) < 9 ∧ (6 : Int) < 9) ∧
    ∃ state state', (run 10 10 (ops.take 4)).partitions.get? orders = some state ∧
      ((run 10 10 (ops.take 4)).confirmCommitted (commitTo 9)).1.partitions.get? orders =
        some state' ∧
      state.committableNext = .ok (some 9) ∧ state'.lastConfirmed = some 9 ∧
      ∀ entry ∈ state.observed, entry ∈ state'.observed ∨
        (entry.outcome.isSafe = true ∧ entry.offset < 9) := by
  intro ops
  have hlog : log 10 10 orders ops = [.recorded 5 (.acknowledged .manual), .confirmed 6 0,
      .recorded 8 .deadLettered, .recorded 9 .failed, .offered 9, .confirmed 9 1] := by
    decide +kernel
  obtain ⟨hsafe, hinc, hconf, -⟩ := frontier_run 10 10 ops orders
  refine ⟨hlog, ⟨?_, ?_, ?_⟩, ?_⟩
  · exact (hsafe [.recorded 5 (.acknowledged .manual), .confirmed 6 0, .recorded 8 .deadLettered,
      .recorded 9 .failed] (.offered 9) [.confirmed 9 1] 9 hlog rfl 9 .failed (by decide)).1 rfl
  · exact (hinc [.recorded 5 (.acknowledged .manual), .confirmed 6 0,
      .recorded 8 .deadLettered] 9 .failed [.offered 9, .confirmed 9 1] hlog
      (.recorded 8 .deadLettered) (by decide)).1 8 .deadLettered rfl
  · exact hconf [.recorded 5 (.acknowledged .manual), .confirmed 6 0, .recorded 8 .deadLettered,
      .recorded 9 .failed, .offered 9] 9 1 [] hlog 6 0 (by decide)
  · exact (frontier_run 10 10 (ops.take 4) orders).2.2.2 (commitTo 9) (by decide +kernel) 9
      (by decide +kernel)

/-- After a confirmation that trims the last observation, a record below it is accepted: without a
reset, the offsets recorded do not increase, and an unsafe one lies below what was confirmed. -/
theorem frontier_run_drained :
    let ops := [.observe orders 0 5 (.acknowledged .manual), .confirmCommitted (commitTo 6),
      .observe orders 0 3 .failed]
    (∀ e ∈ log 10 10 orders ops, e.isReset = false) ∧
    ¬ (∀ before offset outcome after,
      log 10 10 orders ops = before ++ .recorded offset outcome :: after →
      ∀ offset' outcome', .recorded offset' outcome' ∈ before.rtakeWhile (!·.isReset) →
        offset' < offset) ∧
    ¬ (∀ next left offset outcome, .confirmed next left ∈ log 10 10 orders ops →
      .recorded offset outcome ∈ log 10 10 orders ops → outcome.isSafe = false →
        next ≤ offset) := by
  intro ops
  have hlog : log 10 10 orders ops = [.recorded 5 (.acknowledged .manual), .confirmed 6 0,
      .recorded 3 .failed] := by
    decide +kernel
  rw [hlog]
  refine ⟨by decide, fun hinc => ?_, fun hsafe => ?_⟩
  · have := hinc [.recorded 5 (.acknowledged .manual), .confirmed 6 0] 3 .failed [] rfl 5
      (.acknowledged .manual) (by decide)
    omega
  · have := hsafe 6 0 3 .failed (by decide) (by decide) rfl
    omega

open Dict

/-- The cached count is right and the limits are kept. -/
structure Counted (maxPartitionRecords maxGroupRecords : ℕ) (group : GroupOffsetState) : Prop where
  partitionLimit : group.maxPartitionRecords = maxPartitionRecords
  groupLimit : group.maxGroupRecords = maxGroupRecords
  total : group.observedTotal = group.partitions.total observedLen
  partition_le : ∀ tp state, group.partitions.get? tp = some state →
    state.observedLen ≤ maxPartitionRecords
  total_le : group.observedTotal ≤ maxGroupRecords

variable {maxPartitionRecords maxGroupRecords : ℕ} {group : GroupOffsetState} {tp : Tp}
variable {state state' : PartitionOffsetState}

theorem observedLen_of_path {epoch : ℕ} {outcomes : List (Int × RecordOutcome)}
    (h : Path (Appends epoch) state outcomes state') :
    state'.observedLen = state.observedLen + outcomes.length := by
  induction outcomes generalizing state with
  | nil =>
    cases h
    rfl
  | cons entry outcomes ih =>
    obtain ⟨middle, happ, hrest⟩ := h
    rw [ih hrest, observedLen, observed_of_appends happ, List.length_append, observedLen,
      List.length_singleton, List.length_cons]
    omega

variable {offset next : Int}

theorem observedLen_of_entry
    (h : group.entry tp offset = .ok state) : state.observedLen = group.partitionLen tp := by
  rcases entry_ok.1 h with hget | ⟨hnone, hnew⟩
  · simp [partitionLen, hget]
  · simp [partitionLen, hnone, observedLen, observed, inFlight_new hnew]

/-- Writing a partition that grew by some observations, and adding them to the count. -/
theorem Counted.grow {added : ℕ} (h : group.Counted maxPartitionRecords maxGroupRecords)
    (hent : group.entry tp offset = .ok state)
    (hlen : state'.observedLen = state.observedLen + added) (hroom : group.Room tp added) :
    (group.grow tp state' added).Counted maxPartitionRecords maxGroupRecords := by
  obtain ⟨hpart, htot⟩ := hroom
  have hbef := observedLen_of_entry hent
  constructor
  · exact h.partitionLimit
  · exact h.groupLimit
  · show group.observedTotal + added = (group.partitions.insert tp state').total observedLen
    have hins := total_insert (d := group.partitions) (k := tp) (v := state') (w := observedLen)
    have hold : ((group.partitions.get? tp).map observedLen).getD 0 = group.partitionLen tp := rfl
    have := h.total
    omega
  · intro tp' other hget
    simp only [GroupOffsetState.grow, setPartition, get?_insert] at hget
    split_ifs at hget
    · cases hget
      have := h.partitionLimit
      omega
    · exact h.partition_le tp' other hget
  · have := h.groupLimit
    show group.observedTotal + added ≤ maxGroupRecords
    omega

theorem Counted.recount {partitions : Dict Tp PartitionOffsetState}
    (h : group.Counted maxPartitionRecords maxGroupRecords)
    (hle : ∀ tp state', partitions.get? tp = some state' →
      ∃ state, group.partitions.get? tp = some state ∧ state'.observedLen ≤ state.observedLen) :
    Counted maxPartitionRecords maxGroupRecords
      (GroupOffsetState.recount { group with partitions }) := by
  constructor
  · exact h.partitionLimit
  · exact h.groupLimit
  · rfl
  · intro tp state' hget
    obtain ⟨state, hst, hshrunk⟩ := hle tp state' hget
    exact hshrunk.trans (h.partition_le tp state hst)
  · show partitions.total observedLen ≤ maxGroupRecords
    have := Dict.total_le hle
    have := h.total
    have := h.total_le
    omega

theorem Counted.observeRun (h : group.Counted maxPartitionRecords maxGroupRecords) (tp : Tp)
    (epoch : ℕ) (outcomes : List (Int × RecordOutcome)) :
    (group.observeRun tp epoch outcomes).1.Counted maxPartitionRecords maxGroupRecords := by
  rcases observeRun_spec group tp epoch outcomes with ⟨result, hobs, -⟩ |
    ⟨start, rest, state, state', -, hent, hpath, hroom, hobs⟩
  · rwa [hobs]
  · rw [hobs]
    exact h.grow hent (observedLen_of_path hpath) hroom

theorem Counted.exec (h : group.Counted maxPartitionRecords maxGroupRecords) (op : OffsetOp) :
    (group.exec op).Counted maxPartitionRecords maxGroupRecords := by
  cases op with
  | observe tp epoch offset outcome =>
    rw [GroupOffsetState.exec, observe_eq_observeRun]
    exact h.observeRun tp epoch [(offset, outcome)]
  | observeRun tp epoch outcomes => exact h.observeRun tp epoch outcomes
  | committableOffsets => exact h
  | confirmCommitted offsets =>
    rcases confirmCommitted_spec group offsets with
      ⟨-, error, hconf⟩ | ⟨partitions, hconf, hkeep, hdone⟩
    · simpa only [GroupOffsetState.exec, hconf] using h
    · simp only [GroupOffsetState.exec, hconf]
      refine h.recount fun tp state' hget => ?_
      cases hnext : offsets.get? tp with
      | none => exact ⟨state', (hkeep tp hnext).symm.trans hget, le_rfl⟩
      | some next =>
        obtain ⟨state, state'', hbef, hcomm, hget'⟩ := hdone tp next hnext
        obtain rfl : state' = state'' := Option.some.inj (hget.symm.trans hget')
        rw [(confirmCommitted_ok hcomm).2, observedLen, observed_trim]
        exact ⟨state, hbef, List.length_filter_le _ _⟩
  | resetPartition tp =>
    simp only [GroupOffsetState.exec, resetPartition]
    split
    · rename_i state hst
      refine h.recount fun tp' state' hget => ?_
      simp only [get?_insert] at hget
      split_ifs at hget with htp
      · cases hget
        exact ⟨state, htp ▸ hst, Nat.zero_le _⟩
      · exact ⟨state', hget, le_rfl⟩
    · exact h.recount fun tp' state' hget => ⟨state', hget, le_rfl⟩
  | resetForAssignment assigned =>
    refine h.recount fun tp state' hget => ?_
    obtain ⟨state, hst, hres⟩ := Option.bind_eq_some_iff.1 (get?_retain.symm.trans hget)
    split_ifs at hres
    cases hres
    exact ⟨state, hst, Nat.zero_le _⟩
  | clear =>
    constructor
    · exact h.partitionLimit
    · exact h.groupLimit
    · rfl
    · intro tp state hget
      cases hget
    · exact Nat.zero_le _
  | clearPartition tp =>
    refine h.recount fun tp' state' hget => ?_
    rw [get?_erase] at hget
    split_ifs at hget
    exact ⟨state', hget, le_rfl⟩

/-- The confirmation of one partition by itself. -/
def Confirms (group : GroupOffsetState) (tp : Tp) (next : Int) (state' : PartitionOffsetState) :
    Prop :=
  ∃ state, group.partitions.get? tp = some state ∧ state.confirmCommitted next = .ok state'

theorem expected_of_confirms
    (h : group.Confirms tp next state') : group.expected tp = .ok (some next) := by
  obtain ⟨state, hget, hconf⟩ := h
  exact expected_ok.2 ⟨state, hget, (confirmCommitted_ok hconf).1⟩

/-- **Occupancy.** -/
theorem counted_run (maxPartitionRecords maxGroupRecords : ℕ) (ops : List OffsetOp) :
    (run maxPartitionRecords maxGroupRecords ops).observedTotal =
      (run maxPartitionRecords maxGroupRecords ops).partitions.total observedLen ∧
    (∀ tp state, (run maxPartitionRecords maxGroupRecords ops).partitions.get? tp = some state →
      state.observedLen ≤ maxPartitionRecords) ∧
    (run maxPartitionRecords maxGroupRecords ops).observedTotal ≤ maxGroupRecords ∧
    ∀ offsets,
      -- one confirmation is invalid and nothing changes
      ((∃ tp next, offsets.get? tp = some next ∧
          ∀ state', ¬ (run maxPartitionRecords maxGroupRecords ops).Confirms tp next state') →
        ∃ error, (run maxPartitionRecords maxGroupRecords ops).confirmCommitted offsets =
          (run maxPartitionRecords maxGroupRecords ops, .error (.error error))) ∧
      -- all are valid, and exactly the partitions of the map are confirmed
      ((∀ tp next, offsets.get? tp = some next →
          ∃ state', (run maxPartitionRecords maxGroupRecords ops).Confirms tp next state') →
        ∃ group', (run maxPartitionRecords maxGroupRecords ops).confirmCommitted offsets =
          (group', .ok ()) ∧
          (∀ tp next, offsets.get? tp = some next → ∃ state',
            (run maxPartitionRecords maxGroupRecords ops).Confirms tp next state' ∧
              group'.partitions.get? tp = some state') ∧
          ∀ tp, offsets.get? tp = none → group'.partitions.get? tp =
            (run maxPartitionRecords maxGroupRecords ops).partitions.get? tp) := by
  have hcnt : (run maxPartitionRecords maxGroupRecords ops).Counted maxPartitionRecords
      maxGroupRecords := by
    refine inv_runFrom_all (fun group op h => h.exec op) ?_ ops
    constructor
    · rfl
    · rfl
    · rfl
    · nofun
    · exact Nat.zero_le _
  generalize run maxPartitionRecords maxGroupRecords ops = group at hcnt ⊢
  refine ⟨hcnt.total, hcnt.partition_le, hcnt.total_le, fun offsets => ?_⟩
  rcases confirmCommitted_spec group offsets with
    ⟨⟨tp, next, hnext, hnot⟩, hconf⟩ | ⟨partitions, hconf, hkeep, hdone⟩
  · refine ⟨fun _ => hconf, fun hval => ?_⟩
    obtain ⟨state', hconfi⟩ := hval tp next hnext
    exact absurd (expected_of_confirms hconfi) hnot
  · constructor
    · rintro ⟨tp, next, hnext, hinv⟩
      obtain ⟨state, state', hget, hcomm, -⟩ := hdone tp next hnext
      exact absurd ⟨state, hget, hcomm⟩ (hinv state')
    · refine fun _ => ⟨_, hconf, fun tp next hnext => ?_, hkeep⟩
      obtain ⟨state, state', hget, hcomm, hget'⟩ := hdone tp next hnext
      exact ⟨state', ⟨state, hget, hcomm⟩, hget'⟩

/-- A safe record of one partition and a failed one of another. -/
def twoPartitions : List OffsetOp :=
  [.observe ⟨"orders", 0⟩ 0 5 .deadLettered, .observe ⟨"payments", 0⟩ 0 2 .failed]

/-- The first partition can be confirmed, the second cannot. -/
theorem counted_run_twoPartitions :
    (∃ error, (run 10 10 twoPartitions).confirmCommitted
      (((∅ : Dict Tp Int).insert ⟨"orders", 0⟩ 6).insert ⟨"payments", 0⟩ 3) =
        (run 10 10 twoPartitions, .error (.error error))) ∧
    ∃ group', (run 10 10 twoPartitions).confirmCommitted
        ((∅ : Dict Tp Int).insert ⟨"orders", 0⟩ 6) = (group', .ok ()) ∧
      group'.partitions.get? ⟨"payments", 0⟩ =
        (run 10 10 twoPartitions).partitions.get? ⟨"payments", 0⟩ := by
  obtain ⟨-, -, -, hconf⟩ := counted_run 10 10 twoPartitions
  constructor
  · refine (hconf _).1 ⟨⟨"payments", 0⟩, 3, by decide +kernel, fun state' hconfi => ?_⟩
    have hoff : (run 10 10 twoPartitions).expected ⟨"payments", 0⟩ = .ok none := by
      decide +kernel
    rw [expected_of_confirms hconfi] at hoff
    cases hoff
  · obtain ⟨group', hok, -, hkeep⟩ := (hconf ((∅ : Dict Tp Int).insert ⟨"orders", 0⟩ 6)).2 <| by
      intro tp next hnext
      rw [get?_insert] at hnext
      split_ifs at hnext with htp
      · cases hnext
        have hoff : (run 10 10 twoPartitions).expected ⟨"orders", 0⟩ = .ok (some 6) := by
          decide +kernel
        obtain ⟨state, hget, hoffer⟩ := expected_ok.1 hoff
        exact ⟨_, state, htp ▸ hget, confirmCommitted_of_committableNext hoffer⟩
      · cases hnext
    exact ⟨group', hok, hkeep _ (by decide +kernel)⟩

/-! ## Runs -/

variable {group group' : GroupOffsetState} {tp : Tp} {epoch : ℕ} {offset : Int}
  {outcome : RecordOutcome} {outcomes : List (Int × RecordOutcome)}

/-- The entries one by one, up to the first that is refused. -/
def observeEach (group : GroupOffsetState) (tp : Tp) (epoch : ℕ) :
    List (Int × RecordOutcome) → GroupOffsetState × Except OffsetStateError Unit
  | [] => (group, .ok ())
  | (offset, outcome) :: outcomes =>
    match group.observe tp epoch offset outcome with
    | (group, .error error) => (group, .error error)
    | (group, .ok ()) => group.observeEach tp epoch outcomes

theorem observeRun_ok :
    group.observeRun tp epoch ((offset, outcome) :: outcomes) = (group', .ok ()) ↔
      group.Room tp (outcomes.length + 1) ∧ ∃ state state', group.entry tp offset = .ok state ∧
        state.validateRun epoch (offset :: outcomes.map (·.1)) = .ok () ∧
        state.observeAll epoch ((offset, outcome) :: outcomes) = (state', .ok ()) ∧
        group' = group.grow tp state' (outcomes.length + 1) := by
  simp only [observeRun, length_cons, map_cons, Room, ← not_lt]
  split_ifs with hpart htot
  · simp [hpart]
  · simp [htot]
  · cases group.entry tp offset with
    | error error => simp
    | ok state =>
      cases hval : state.validateRun epoch (offset :: outcomes.map (·.1)) with
      | error error => simp [hval]
      | ok _ =>
        rcases hall : state.observeAll epoch ((offset, outcome) :: outcomes) with ⟨state', error | ok⟩
        · simp [hval, hall]
        · simp [hpart, htot, hval, hall, grow, eq_comm]

/-- The rest of a run, after its first record. -/
theorem observeRun_grow {state first : PartitionOffsetState}
    (hent : group.entry tp offset = .ok state) (hroom : group.Room tp 1)
    (happ : Appends epoch state (offset, outcome) first) :
    (group.grow tp first 1).observeRun tp epoch outcomes = (group', .ok ()) ↔
      group.Room tp (outcomes.length + 1) ∧
        validateOffsets (some offset) (outcomes.map (·.1)) = .ok () ∧
        ∃ state', first.observeAll epoch outcomes = (state', .ok ()) ∧
          group' = group.grow tp state' (outcomes.length + 1) := by
  cases outcomes with
  | nil => simp [observeRun, observeAll, validateOffsets, hroom, eq_comm]
  | cons entry outcomes =>
    have hpath : Path (Appends epoch) state [(offset, outcome)] first := ⟨_, happ, rfl⟩
    have hlen := observedLen_of_path hpath
    rw [observedLen_of_entry hent] at hlen
    rw [observeRun_ok]
    simp [Room, grow, setPartition, partitionLen, GroupOffsetState.entry, hlen,
      validateRun_of_appends happ,
      Dict.insert_insert, add_assoc, add_comm 1]

/-- A run is accepted if its first record is, and the rest after it. -/
theorem observeRun_cons :
    group.observeRun tp epoch ((offset, outcome) :: outcomes) = (group', .ok ()) ↔
      ∃ middle, group.observeRun tp epoch [(offset, outcome)] = (middle, .ok ()) ∧
        middle.observeRun tp epoch outcomes = (group', .ok ()) := by
  constructor
  · intro h
    obtain ⟨hroom, state, state', hent, hval, hall, rfl⟩ := observeRun_ok.1 h
    have hroom1 : group.Room tp 1 := ⟨by have := hroom.1; omega, by have := hroom.2; omega⟩
    obtain ⟨hadm, hoff⟩ := validateRun_cons.1 hval
    obtain ⟨first, hobs, happ⟩ := observe_of_admits hadm outcome
    simp only [observeAll, hobs] at hall
    refine ⟨group.grow tp first 1, observeRun_ok.2 ⟨hroom1, state, first, hent,
      validateRun_cons.2 ⟨hadm, rfl⟩, by simp only [observeAll, hobs], rfl⟩, ?_⟩
    exact (observeRun_grow hent hroom1 happ).2 ⟨hroom, hoff, state', hall, rfl⟩
  · rintro ⟨_, hfirst, hrest⟩
    obtain ⟨hroom1, state, _, hent, hval, hall, rfl⟩ := observeRun_ok.1 hfirst
    obtain ⟨hadm, -⟩ := validateRun_cons.1 hval
    obtain ⟨first, hobs, happ⟩ := observe_of_admits hadm outcome
    simp only [observeAll, hobs] at hall
    cases hall
    obtain ⟨hroom, hoff, state', hall, rfl⟩ := (observeRun_grow hent hroom1 happ).1 hrest
    refine observeRun_ok.2 ⟨hroom, state, state', hent, validateRun_cons.2 ⟨hadm, hoff⟩, ?_, rfl⟩
    simp only [observeAll, hobs]
    exact hall

/-- A run is accepted if the entries are one by one, with the same result. -/
theorem observeRun_iff : group.observeRun tp epoch outcomes = (group', .ok ()) ↔
    group.observeEach tp epoch outcomes = (group', .ok ()) := by
  induction outcomes generalizing group with
  | nil => rfl
  | cons entry outcomes ih =>
    obtain ⟨offset, outcome⟩ := entry
    rw [observeRun_cons, ← observe_eq_observeRun]
    unfold observeEach
    rcases group.observe tp epoch offset outcome with ⟨middle, error | ok⟩
    · simp
    · simp [ih]

/-- **Runs.** A run is recorded as its records one by one would be, or not at all. -/
theorem observed_run (maxPartitionRecords maxGroupRecords : ℕ) (ops : List OffsetOp) (tp : Tp)
    (epoch : ℕ) (outcomes : List (Int × RecordOutcome)) :
    let group := run maxPartitionRecords maxGroupRecords ops
    ((group.observeRun tp epoch outcomes).2 = .ok () ↔
      (group.observeEach tp epoch outcomes).2 = .ok ()) ∧
    ((group.observeRun tp epoch outcomes).2 = .ok () →
      (group.observeRun tp epoch outcomes).1 = (group.observeEach tp epoch outcomes).1) ∧
    ((group.observeRun tp epoch outcomes).2 ≠ .ok () →
      (group.observeRun tp epoch outcomes).1 = group) := by
  intro group
  have hiff (group') : group.observeRun tp epoch outcomes = (group', .ok ()) ↔
      group.observeEach tp epoch outcomes = (group', .ok ()) := observeRun_iff
  refine ⟨⟨fun h => ?_, fun h => ?_⟩, fun h => ?_, fun h => ?_⟩
  · rw [(hiff _).1 (Prod.ext rfl h)]
  · rw [(hiff _).2 (Prod.ext rfl h)]
  · rw [(hiff _).1 (Prod.ext rfl h)]
  · rcases observeRun_spec group tp epoch outcomes with
      ⟨result, heq, -⟩ | ⟨_, _, _, _, -, -, -, -, heq⟩
    · rw [heq]
    · rw [heq] at h
      exact absurd rfl h

end GroupOffsetState

/-! ## Records that come again -/

variable {before : List OffsetEvent} {p p' : Option PartitionOffsetState} {e : OffsetEvent}

/-- The observations of a partition, if there is one. -/
def observedOf (p : Option PartitionOffsetState) : List ObservedOutcome := p.elim [] (·.observed)

/-- What a move leaves known was known, or is what happened. -/
theorem known_of_move (h : OffsetMove p e p') :
    (∀ entry ∈ observedOf p', (entry ∈ observedOf p ∧ e.isReset = false) ∨
      e = .recorded entry.offset entry.outcome) ∧
    ∀ next, p'.bind (·.lastConfirmed) = some next →
      (p.bind (·.lastConfirmed) = some next ∧ e.isRemoved = false) ∨
        ∃ left, e = .confirmed next left := by
  cases h with
  | @record _ state state' epoch offset outcome hstart happ =>
    have hst : observedOf p = state.observed ∧ p.bind (·.lastConfirmed) = state.lastConfirmed := by
      rcases hstart with rfl | ⟨rfl, hnew⟩
      · exact ⟨rfl, rfl⟩
      · unfold PartitionOffsetState.new at hnew
        split at hnew <;> cases hnew
        exact ⟨rfl, rfl⟩
    refine ⟨fun entry hent => ?_, fun next hnext => .inl ⟨hst.2.trans ?_, rfl⟩⟩
    · rw [hst.1]
      rw [observedOf, Option.elim_some, observed_of_appends happ] at hent
      rcases mem_append.1 hent with hent | hent
      · exact .inl ⟨hent, rfl⟩
      · exact .inr (by rw [mem_singleton.1 hent])
    · obtain ⟨progress, rfl, -⟩ := happ
      exact hnext
  | offer hoff => exact ⟨fun _ h => .inl ⟨h, rfl⟩, fun _ h => .inl ⟨h, rfl⟩⟩
  | @confirm state _ next hconf =>
    obtain ⟨-, rfl⟩ := confirmCommitted_ok hconf
    refine ⟨fun entry hent => .inl ⟨?_, rfl⟩, fun next hnext => .inr ⟨_, by cases hnext; rfl⟩⟩
    rw [observedOf, Option.elim_some, observed_trim] at hent
    exact (mem_filter.1 hent).1
  | reset =>
    cases p with
    | none => exact ⟨by nofun, by nofun⟩
    | some state => exact ⟨by nofun, fun _ h => .inl ⟨h, rfl⟩⟩
  | remove => exact ⟨by nofun, by nofun⟩

/-- What the state of a partition knows has happened to it. -/
structure Recalls (before : List OffsetEvent) (p : Option PartitionOffsetState) : Prop where
  observed : ∀ entry ∈ observedOf p,
    .recorded entry.offset entry.outcome ∈ before.rtakeWhile (!·.isReset)
  confirmed : ∀ next, p.bind (·.lastConfirmed) = some next →
    ∃ left, .confirmed next left ∈ before.rtakeWhile (!·.isRemoved)

theorem recalls_move (h : Recalls before p) (hmove : OffsetMove p e p') :
    Recalls (before ++ [e]) p' := by
  have hkeep {stop : OffsetEvent → Bool} (hstop : stop e = false) :
      (before ++ [e]).rtakeWhile (!stop ·) = before.rtakeWhile (!stop ·) ++ [e] :=
    rtakeWhile_append (by simp [hstop])
  obtain ⟨hobs, hconf⟩ := known_of_move hmove
  constructor
  · intro entry hent
    rcases hobs entry hent with ⟨hbef, hstop⟩ | rfl
    · rw [hkeep hstop]
      exact mem_append_left _ (h.observed entry hbef)
    · rw [hkeep rfl]
      exact mem_append_right _ (mem_singleton_self _)
  · intro next hnext
    rcases hconf next hnext with ⟨hbef, hstop⟩ | ⟨left, rfl⟩
    · obtain ⟨left, hleft⟩ := h.confirmed next hbef
      rw [hkeep hstop]
      exact ⟨left, mem_append_left _ hleft⟩
    · rw [hkeep rfl]
      exact ⟨left, mem_append_right _ (mem_singleton_self _)⟩

namespace GroupOffsetState

theorem alreadySafe_iff {group : GroupOffsetState} {tp : Tp} {epoch : ℕ} {offset : Int} :
    group.alreadySafe tp epoch offset = true ↔
      ∃ state, group.partitions.get? tp = some state ∧
        ((∃ next, state.lastConfirmed = some next ∧ offset < next) ∨
          ∃ progress outcome, state.inFlight = some progress ∧ progress.assignmentEpoch = epoch ∧
            ⟨offset, outcome⟩ ∈ progress.observed ∧ outcome.isSafe = true) := by
  have hfnd (progress : PartitionProgress) :
      (binarySearch (·.offset) offset progress.observed).any (·.outcome.isSafe) = true ↔
        ∃ outcome, ⟨offset, outcome⟩ ∈ progress.observed ∧ outcome.isSafe = true := by
    simp only [Option.any_eq_true, binarySearch_eq_some progress.increasing]
    constructor
    · rintro ⟨⟨_, outcome⟩, ⟨hmem, rfl⟩, hsafe⟩
      exact ⟨outcome, hmem, hsafe⟩
    · rintro ⟨outcome, hmem, hsafe⟩
      exact ⟨_, ⟨hmem, rfl⟩, hsafe⟩
  unfold alreadySafe
  cases group.partitions.get? tp with
  | none => simp
  | some state => simp [Option.any_eq_true, hfnd]

/-- **Records that come again.** -/
theorem safe_run (maxPartitionRecords maxGroupRecords : ℕ) (ops : List OffsetOp) (tp : Tp)
    (epoch : ℕ) (offset : Int) :
    let group := run maxPartitionRecords maxGroupRecords ops
    let log := log maxPartitionRecords maxGroupRecords tp ops
    (group.alreadySafe tp epoch offset = true ↔
      ∃ state, group.partitions.get? tp = some state ∧
        ((∃ next, state.lastConfirmed = some next ∧ offset < next) ∨
          ∃ progress outcome, state.inFlight = some progress ∧ progress.assignmentEpoch = epoch ∧
            ⟨offset, outcome⟩ ∈ progress.observed ∧ outcome.isSafe = true)) ∧
    (group.alreadySafe tp epoch offset = true →
      (∃ outcome, .recorded offset outcome ∈ log.rtakeWhile (!·.isReset) ∧ outcome.isSafe = true) ∨
      ∃ next left, .confirmed next left ∈ log.rtakeWhile (!·.isRemoved) ∧ offset < next) := by
  intro group log
  refine ⟨alreadySafe_iff, fun h => ?_⟩
  obtain ⟨state, hget, hsafe⟩ := alreadySafe_iff.1 h
  have hpath := path_history (path_events tp) (new maxPartitionRecords maxGroupRecords) ops
  have hrec : Recalls log (group.partitions.get? tp) :=
    Path.inv (I := Recalls) ⟨by nofun, by nofun⟩ recalls_move hpath
  rcases hsafe with ⟨next, hnext, hlt⟩ | ⟨progress, outcome, hflight, -, hmem, hsafe⟩
  · obtain ⟨left, hleft⟩ := hrec.confirmed next (by rw [hget]; exact hnext)
    exact .inr ⟨next, left, hleft, hlt⟩
  · refine .inl ⟨outcome, hrec.observed ⟨offset, outcome⟩ ?_, hsafe⟩
    simpa [hget, observedOf, observed, hflight] using hmem

/-- A record below the confirmed offset is known as safe in another epoch as well. -/
theorem safe_run_reassigned :
    let group := run 10 10 [.observe orders 0 5 (.acknowledged .manual),
      .confirmCommitted (commitTo 6), .observe orders 0 6 .failed]
    (group.partitions.get? orders).bind (·.inFlight.map (·.assignmentEpoch)) = some 0 ∧
      group.alreadySafe orders 1 5 = true := by
  decide +kernel

end GroupOffsetState

end NasaRuntime.Nafka
