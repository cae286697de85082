import Mathlib.Data.List.Nodup
import NasaRuntime.Napart.Queue

/-!
# Delivery

Any number of producers and the consumer of a queue take their steps in any order.

**Theorem (`queue_delivers`).** The consumer gets the sequences `0, 1, 2, …` one after the other,
each of them once and with what was published under it, and it passes no sequence before it is
published or poisoned. What it did not pass yet is in a segment that is still there, and a value at
the head is delivered by the next poll. When the queue was drained, or a poll that was not overtaken
has reported it as closed, every sequence is consumed and no producer can take another one.

**Theorem (`queue_closed_early`).** A poll that is overtaken can report the queue as closed while a
value is waiting. It loads the next sequence first and the number of producers last; in between a
producer takes a sequence, publishes and leaves, and the queue is closed.
-/

namespace NasaRuntime.Napart

open Prog List

variable {τ : Type}

/-! ## The slots of a block -/

theorem block_le (q : ℕ) : block q ≤ q := Nat.div_mul_le_self q segmentLen

variable {q q' : ℕ} {cell : Cell τ} {stage : Stage τ} {s' : QueueStore τ}

/-- A block that the consumer has not passed starts at its cursor, if the cursor is at a start. -/
theorem le_block {next : ℕ} (hnext : next % segmentLen = 0) (h : next ≤ q) : next ≤ block q := by
  unfold block segmentLen at *
  omega

namespace Segment

theorem slot_setSlot_self (segment : Segment τ) (q : ℕ) (slot : Slot τ) :
    (segment.setSlot q slot).slot q = slot := by
  simp [setSlot, Segment.slot]

theorem slot_setSlot_of_ne {segment : Segment τ} (slot : Slot τ)
    (hq : segment.base ≤ q) (hq' : segment.base ≤ q') (h : q' ≠ q) :
    (segment.setSlot q slot).slot q' = segment.slot q' := by
  have hne : q' - segment.base ≠ q - segment.base := by omega
  simp [setSlot, Segment.slot, hne]

end Segment

/-! ## The invariant -/

/-- What the slot of a sequence holds. -/
def Stage.slot : Stage τ → Slot τ
  | .allocated => .new
  | .reserved => ⟨.reserved, none⟩
  | .writing value => ⟨.writing, value⟩
  | .published value => ⟨.published, some value⟩
  | .poisoned => ⟨.poisoned, none⟩

namespace QueueStore

/-- What the slot of a sequence holds, when the consumer may have moved out the value of the head.
-/
def expected (s : QueueStore τ) (q : ℕ) : Slot τ :=
  match s.cells[q]? with
  | none => .new
  | some cell =>
    if s.taking = true ∧ q = s.consumed then { cell.stage.slot with value := none }
    else cell.stage.slot

theorem expected_of_cell {s : QueueStore τ} (hcell : s.cells[q]? = some cell) :
    s.expected q = if s.taking = true ∧ q = s.consumed then { cell.stage.slot with value := none }
      else cell.stage.slot := by
  rw [expected, hcell]

/-- Away from the head, only the sequences matter. -/
theorem expected_congr (s s' : QueueStore τ) (hcells : s'.cells = s.cells)
    (h : q ≠ s.consumed) (h' : s'.taking = false ∨ q ≠ s'.consumed) :
    s'.expected q = s.expected q := by
  unfold expected
  rw [hcells]
  cases s.cells[q]? with
  | none => rfl
  | some cell =>
    have hhead' : ¬ (s'.taking = true ∧ q = s'.consumed) := by
      rintro ⟨htak, hq⟩
      rcases h' with h' | h'
      · rw [h'] at htak
        cases htak
      · exact h' hq
    simp only
    rw [if_neg hhead', if_neg fun hhead => h hhead.2]

/-- Nobody can take a sequence any more. -/
def Sealed (s : QueueStore τ) : Prop := s.accepting = false ∧ s.admitted = []

/-- Nobody can take a sequence any more, and all are consumed. -/
def Finished (s : QueueStore τ) : Prop := s.Sealed ∧ s.consumed = s.nextSequence

structure Sound (s : QueueStore τ) : Prop where
  bound : s.nextSequence ≤ u64Max
  length : s.cells.length = s.nextSequence
  cursor : s.consumed ≤ s.nextSequence
  tail : s.segments.get? (s.heap s.tail).base = some s.tail
  bases : ∀ b r, s.segments.get? b = some r → r < s.created ∧ (s.heap r).base = b
  slots : ∀ q r, s.segments.get? (block q) = some r → s.consumed ≤ q → s.slot r q = s.expected q
  found : ∀ q cell, s.consumed ≤ q → s.cells[q]? = some cell → cell.stage ≠ .allocated →
    ∃ r, s.segments.get? (block q) = some r
  received : s.received.length = s.consumed
  passed : ∀ q < s.consumed, ∃ cell, s.cells[q]? = some cell ∧ cell.stage.settled = true ∧
    s.received[q]? = some (q, cell.stage.value)
  inflight : s.producerInflight = s.entering.length + s.admitted.length
  reservations : s.reservations = s.active.length
  distinct : s.active.Nodup
  active : ∀ q ∈ s.active, q < s.nextSequence
  failed : s.failed = true → s.nextSequence = u64Max
  taking : s.taking = true →
    ∃ cell, s.cells[s.consumed]? = some cell ∧ cell.stage.settled = true
  polling : s.polling = true → s.overtaken = false → s.consumed = s.nextSequence
  reports : false ∈ s.closedReports → s.Finished
  drained : s.drained = true → s.Finished

/-- What a producer relies on. -/
structure Keeps (i : ℕ) (s s' : QueueStore τ) : Prop where
  entering : i ∈ s.entering → i ∈ s'.entering
  admitted : i ∈ s.admitted → i ∈ s'.admitted
  nextSequence : s.nextSequence ≤ s'.nextSequence
  cells : ∀ (q : ℕ) (cell : Cell τ), s.cells[q]? = some cell → cell.holder = i →
    s'.cells[q]? = some cell
  active : ∀ (q : ℕ) (cell : Cell τ), s.cells[q]? = some cell → cell.holder = i →
    (q ∈ s'.active ↔ q ∈ s.active)
  segments : ∀ (q : ℕ) (cell : Cell τ) (r : ℕ), s.cells[q]? = some cell → cell.holder = i →
    cell.stage.settled = false → s.segments.get? (block q) = some r →
    s'.segments.get? (block q) = some r

/-- What the consumer relies on. -/
structure Leaves (s s' : QueueStore τ) : Prop where
  consumed : s'.consumed = s.consumed
  taking : s'.taking = s.taking
  polling : s'.polling = s.polling
  closed : s.accepting = false → s'.accepting = false
  finished : s.Sealed → s'.Sealed ∧ s'.nextSequence = s.nextSequence
  nextSequence : s.nextSequence ≤ s'.nextSequence
  cells : ∀ (q : ℕ) (cell : Cell τ), s.cells[q]? = some cell → cell.stage.settled = true →
    s'.cells[q]? = some cell
  segments : ∀ b r, s.segments.get? b = some r → s'.segments.get? b = some r
  tail : (s'.heap s'.tail).base = (s.heap s.tail).base ∨
    block s.consumed ≤ (s'.heap s'.tail).base

/-- The consumer is number `0`. -/
def Relies : ℕ → QueueStore τ → QueueStore τ → Prop
  | 0 => Leaves
  | i + 1 => Keeps (i + 1)

/-- What a program guarantees. -/
abbrev Owes (i : ℕ) (s s' : QueueStore τ) : Prop := Sys.Owes Relies Sound i s s'

variable {s s' : QueueStore τ} {i q r : ℕ} {cell : Cell τ}

theorem Keeps.refl (i : ℕ) (s : QueueStore τ) : s.Keeps i s :=
  ⟨fun h => h, fun h => h, le_rfl, fun _ _ h _ => h, fun _ _ _ _ => Iff.rfl, fun _ _ _ _ _ _ h => h⟩

variable {a b c : QueueStore τ}

theorem Keeps.trans (h : a.Keeps i b) (h' : b.Keeps i c) : a.Keeps i c := by
  constructor
  case entering => exact fun hi => h'.entering (h.entering hi)
  case admitted => exact fun hi => h'.admitted (h.admitted hi)
  case nextSequence => exact h.nextSequence.trans h'.nextSequence
  case cells =>
    intro q cell hcell hi
    exact h'.cells q cell (h.cells q cell hcell hi) hi
  case active =>
    intro q cell hcell hi
    rw [h'.active q cell (h.cells q cell hcell hi) hi, h.active q cell hcell hi]
  case segments =>
    intro q cell r hcell hi hsett hr
    exact h'.segments q cell r (h.cells q cell hcell hi) hi hsett
      (h.segments q cell r hcell hi hsett hr)

theorem Leaves.refl (s : QueueStore τ) : s.Leaves s :=
  ⟨rfl, rfl, rfl, fun h => h, fun h => ⟨h, rfl⟩, le_rfl, fun _ _ h _ => h, fun _ _ h => h, .inl rfl⟩

theorem Leaves.trans (h : a.Leaves b) (h' : b.Leaves c) : a.Leaves c := by
  constructor
  case consumed => exact h'.consumed.trans h.consumed
  case taking => exact h'.taking.trans h.taking
  case polling => exact h'.polling.trans h.polling
  case closed => exact fun hc => h'.closed (h.closed hc)
  case finished =>
    intro hseal
    obtain ⟨hb, hnext⟩ := h.finished hseal
    obtain ⟨hc, hnext'⟩ := h'.finished hb
    exact ⟨hc, hnext'.trans hnext⟩
  case nextSequence => exact h.nextSequence.trans h'.nextSequence
  case cells =>
    intro q cell hcell hsett
    exact h'.cells q cell (h.cells q cell hcell hsett) hsett
  case segments => exact fun b r hr => h'.segments b r (h.segments b r hr)
  case tail =>
    rcases h'.tail with h' | h'
    · rw [h']
      exact h.tail
    · rw [h.consumed] at h'
      exact .inr h'

theorem compatible : Sys.Compatible (Relies (τ := τ)) Owes Sound fun _ (_ : Unit) _ => True := by
  apply Sys.compatible_owes
  · intro i s
    cases i with
    | zero => exact .refl s
    | succ i => exact .refl (i + 1) s
  · intro i a b c
    cases i with
    | zero | succ i => exact .trans
  · exact fun _ _ _ _ _ _ => trivial

theorem owes_refl (s : QueueStore τ) (hs : s.Sound) : Owes i s s :=
  ⟨hs, fun j _ => compatible.refl j s⟩

theorem owes_producer (hs : s'.Sound) (hleav : s.Leaves s') (hkeeps : ∀ j, j ≠ i → s.Keeps j s') :
    Owes i s s' := by
  refine ⟨hs, fun j hj => ?_⟩
  cases j with
  | zero => exact hleav
  | succ j => exact hkeeps (j + 1) hj

theorem owes_consumer (hs : s'.Sound) (hkeeps : ∀ j, s.Keeps j s') : Owes 0 s s' := by
  refine ⟨hs, fun j hj => ?_⟩
  cases j with
  | zero => exact absurd rfl hj
  | succ j => exact hkeeps (j + 1)

section

variable {q' : ℕ} {cell' : Cell τ} (hcell : s.cells[q]? = some cell)

include hcell

theorem ne_of_settled (h : cell.stage.settled = false) (hcell' : s.cells[q']? = some cell')
    (h' : cell'.stage.settled = true) : q' ≠ q := by
  rintro rfl
  rw [hcell] at hcell'
  cases hcell'
  rw [h] at h'
  cases h'

theorem ne_of_holder (hi : cell.holder = i) {j : ℕ} (hj : j ≠ i)
    (hcell' : s.cells[q']? = some cell') (hhold : cell'.holder = j) : q' ≠ q := by
  rintro rfl
  rw [hcell] at hcell'
  cases hcell'
  exact hj (hhold.symm.trans hi)

end

variable (hs : s.Sound)

include hs

theorem Sound.le_of_unsettled (hcell : s.cells[q]? = some cell) (h : cell.stage.settled = false) :
    s.consumed ≤ q := by
  by_contra hlt
  obtain ⟨other, hoth, hsett, -⟩ := hs.passed q (Nat.lt_of_not_le hlt)
  exact ne_of_settled hcell h hoth hsett rfl

theorem Sound.lt_of_cell (hcell : s.cells[q]? = some cell) : q < s.nextSequence := by
  rw [← hs.length]
  exact (List.getElem?_eq_some_iff.1 hcell).1

/-- Where the consumer is not, the slot holds what the sequence got to. -/
theorem Sound.slot_of_unsettled (hcell : s.cells[q]? = some cell)
    (hsett : cell.stage.settled = false) (hr : s.segments.get? (block q) = some r) :
    s.slot r q = cell.stage.slot := by
  rw [hs.slots q r hr (hs.le_of_unsettled hcell hsett), expected, hcell]
  simp only
  split_ifs with htak
  · obtain ⟨other, hoth, hsett'⟩ := hs.taking htak.1
    exact absurd htak.2.symm (ne_of_settled hcell hsett hoth hsett')
  · rfl

/-! ### Counting -/

theorem Sound.sealed_of_idle (hacc : s.accepting = false)
    (hinf : ¬ 0 < s.producerInflight) : s.Sealed := by
  refine ⟨hacc, ?_⟩
  have hzero : s.entering.length + s.admitted.length = 0 := by
    rw [← hs.inflight]
    omega
  exact eq_nil_of_length_eq_zero (by omega)

theorem owes_enter :
    Owes i s { s with
      producerInflight := s.producerInflight + 1
      entering := i :: s.entering } := by
  refine owes_producer ?_ { Leaves.refl s with } fun j _ => ?_
  · have hinf : s.producerInflight + 1 = (i :: s.entering).length + s.admitted.length := by
      rw [hs.inflight, length_cons]
      omega
    exact { hs with inflight := hinf }
  · exact { Keeps.refl j s with entering := mem_cons_of_mem i }

/-- A producer is let in, which happens only while the queue is open. -/
theorem owes_lookAgain (hacc : s.accepting = true) (hi : i ∈ s.entering) :
    Owes i s { s with entering := s.entering.erase i, admitted := i :: s.admitted } := by
  have hopen : ¬ s.Sealed := by
    intro h
    have hclos := h.1
    rw [hacc] at hclos
    cases hclos
  have hinf : s.producerInflight = (s.entering.erase i).length + (i :: s.admitted).length := by
    have hpos := length_pos_of_mem hi
    rw [hs.inflight, length_erase_of_mem hi, length_cons]
    omega
  refine owes_producer ?_ ?_ fun j hj => ?_
  · exact { hs with
      inflight := hinf
      reports := fun h => absurd (hs.reports h).1 hopen
      drained := fun h => absurd (hs.drained h).1 hopen }
  · exact { Leaves.refl s with finished := fun h => absurd h hopen }
  · exact { Keeps.refl j s with
      entering := (mem_erase_of_ne hj).2
      admitted := mem_cons_of_mem i }

theorem owes_leave (hi : i ∈ s.admitted) :
    Owes i s { s with
      producerInflight := s.producerInflight - 1
      admitted := s.admitted.erase i } := by
  have huns : ¬ s.Sealed := fun h => ne_nil_of_mem hi h.2
  have hinf : s.producerInflight - 1 = s.entering.length + (s.admitted.erase i).length := by
    have hpos := length_pos_of_mem hi
    rw [hs.inflight, length_erase_of_mem hi]
    omega
  refine owes_producer ?_ ?_ fun j hj => ?_
  · exact { hs with
      inflight := hinf
      reports := fun h => absurd (hs.reports h).1 huns
      drained := fun h => absurd (hs.drained h).1 huns }
  · exact { Leaves.refl s with finished := fun h => absurd h huns }
  · exact { Keeps.refl j s with admitted := (mem_erase_of_ne hj).2 }

theorem owes_turnBack (hi : i ∈ s.entering) :
    Owes i s { s with
      producerInflight := s.producerInflight - 1
      entering := s.entering.erase i } := by
  have hinf : s.producerInflight - 1 = (s.entering.erase i).length + s.admitted.length := by
    have hpos := length_pos_of_mem hi
    rw [hs.inflight, length_erase_of_mem hi]
    omega
  refine owes_producer ?_ { Leaves.refl s with } fun j hj => ?_
  · exact { hs with inflight := hinf }
  · exact { Keeps.refl j s with entering := (mem_erase_of_ne hj).2 }

theorem close_sound : ({ s with accepting := false } : QueueStore τ).Sound :=
  { hs with
    reports := fun h => ⟨⟨rfl, (hs.reports h).1.2⟩, (hs.reports h).2⟩
    drained := fun h => ⟨⟨rfl, (hs.drained h).1.2⟩, (hs.drained h).2⟩ }

omit hs in
theorem close_relies (s : QueueStore τ) (j : ℕ) : Relies j s { s with accepting := false } := by
  cases j with
  | zero =>
    exact { Leaves.refl s with
      closed := fun _ => rfl
      finished := fun h => ⟨⟨rfl, h.2⟩, rfl⟩ }
  | succ j => exact { Keeps.refl (j + 1) s with }

theorem owes_close : Owes i s { s with accepting := false } :=
  ⟨close_sound hs, fun j _ => close_relies s j⟩

theorem owes_failed (hmax : s.nextSequence = u64Max) :
    Owes i s { s with failed := true } :=
  owes_producer { hs with failed := fun _ => hmax } { Leaves.refl s with } fun j _ =>
    { Keeps.refl j s with }

/-- Reservations are counted, and there are fewer of them than sequences. -/
theorem Sound.reservations_lt (hcell : s.cells[q]? = some cell) (hq : q ∉ s.active) :
    s.reservations < u64Max := by
  have hnod : (q :: s.active).Nodup := nodup_cons.2 ⟨hq, hs.distinct⟩
  have hsubs : q :: s.active ⊆ range s.nextSequence := by
    intro other hoth
    rw [mem_range]
    rcases mem_cons.1 hoth with rfl | h
    · exact hs.lt_of_cell hcell
    · exact hs.active other h
  have hlen := (subperm_of_subset hnod hsubs).length_le
  rw [length_cons, length_range, ← hs.reservations] at hlen
  exact lt_of_lt_of_le hlen hs.bound

theorem owes_increment (hcell : s.cells[q]? = some cell) (hi : cell.holder = i)
    (hq : q ∉ s.active) :
    Owes i s { s with reservations := s.reservations + 1, active := q :: s.active } := by
  refine owes_producer ?_ { Leaves.refl s with } fun j hj => ?_
  · have hcnt : s.reservations + 1 = (q :: s.active).length := by
      rw [hs.reservations, length_cons]
    have hact : ∀ other ∈ q :: s.active, other < s.nextSequence := by
      intro other hoth
      rcases mem_cons.1 hoth with rfl | h
      · exact hs.lt_of_cell hcell
      · exact hs.active other h
    exact { hs with
      reservations := hcnt
      distinct := nodup_cons.2 ⟨hq, hs.distinct⟩
      active := hact }
  · refine { Keeps.refl j s with active := fun other cell' hcell' hhold => ?_ }
    have hne := ne_of_holder hcell hi hj hcell' hhold
    simp [hne]

theorem owes_decrement (hcell : s.cells[q]? = some cell) (hi : cell.holder = i)
    (hq : q ∈ s.active) :
    Owes i s { s with reservations := s.reservations - 1, active := s.active.erase q } := by
  refine owes_producer ?_ { Leaves.refl s with } fun j hj => ?_
  · have hcnt : s.reservations - 1 = (s.active.erase q).length := by
      rw [hs.reservations, length_erase_of_mem hq]
    exact { hs with
      reservations := hcnt
      distinct := hs.distinct.erase q
      active := fun other h => hs.active other (mem_of_mem_erase h) }
  · refine { Keeps.refl j s with active := fun other cell' hcell' hhold => ?_ }
    have hne := ne_of_holder hcell hi hj hcell' hhold
    exact mem_erase_of_ne hne

/-! ### Sequences and segments -/

omit hs in
theorem cells_allocate (h : s.cells[q]? = some cell) :
    (s.allocate i).cells[q]? = some cell := by
  show (s.cells ++ [_])[q]? = some cell
  rw [List.getElem?_append_left (List.getElem?_eq_some_iff.1 h).1]
  exact h

omit hs in
theorem expected_allocate (s : QueueStore τ) (i q : ℕ) :
    (s.allocate i).expected q = s.expected q := by
  unfold expected
  by_cases hq : q < s.cells.length
  · have hsame : (s.allocate i).cells[q]? = s.cells[q]? := getElem?_append_left hq
    rw [hsame]
    rfl
  · have hnone : s.cells[q]? = none := getElem?_eq_none (Nat.le_of_not_lt hq)
    rw [hnone]
    cases hnew : (s.allocate i).cells[q]? with
    | none => rfl
    | some cell =>
      have hcell : cell = ⟨i, .allocated⟩ := by
        have happ : (s.cells ++ [⟨i, .allocated⟩])[q]? = some cell := hnew
        rw [getElem?_append_right (Nat.le_of_not_lt hq)] at happ
        exact mem_singleton.1 (mem_of_getElem? happ)
      subst hcell
      simp only [Stage.slot]
      split_ifs
      · rfl
      · rfl

/-- A sequence is taken. Only a producer that was let in does that. -/
theorem owes_allocate (hi : i ∈ s.admitted) (hmax : s.nextSequence ≠ u64Max) :
    Owes i s (s.allocate i) := by
  have huns : ¬ s.Sealed := fun h => ne_nil_of_mem hi h.2
  have hnew : ∀ (q : ℕ) (cell : Cell τ), (s.allocate i).cells[q]? = some cell →
      cell.stage ≠ .allocated → s.cells[q]? = some cell := by
    intro q cell hcell hstg
    have happ : (s.cells ++ [⟨i, .allocated⟩])[q]? = some cell := hcell
    by_cases hq : q < s.cells.length
    · rwa [getElem?_append_left hq] at happ
    · rw [getElem?_append_right (Nat.le_of_not_lt hq)] at happ
      have hsame := mem_singleton.1 (mem_of_getElem? happ)
      rw [hsame] at hstg
      exact absurd rfl hstg
  refine owes_producer ?_ ?_ fun j _ => ?_
  · refine { hs with
      bound := Nat.lt_of_le_of_ne hs.bound hmax
      length := ?_
      cursor := hs.cursor.trans (Nat.le_succ _)
      slots := ?_
      found := ?_
      passed := ?_
      active := fun q hq => (hs.active q hq).trans (Nat.lt_succ_self _)
      failed := fun h => absurd (hs.failed h) hmax
      taking := ?_
      polling := ?_
      reports := fun h => absurd (hs.reports h).1 huns
      drained := fun h => absurd (hs.drained h).1 huns }
    · show (s.cells ++ [_]).length = s.nextSequence + 1
      rw [length_append, hs.length]
      rfl
    · intro q r hr hq
      rw [expected_allocate]
      exact hs.slots q r hr hq
    · exact fun q cell hq hcell hstg => hs.found q cell hq (hnew q cell hcell hstg) hstg
    · intro q hq
      obtain ⟨cell, hcell, hrest⟩ := hs.passed q hq
      exact ⟨cell, cells_allocate hcell, hrest⟩
    · intro h
      obtain ⟨cell, hcell, hsett⟩ := hs.taking h
      exact ⟨cell, cells_allocate hcell, hsett⟩
    · intro hpolli hov
      have hnot : (s.overtaken || s.polling) = false := hov
      have hpoll : s.polling = true := hpolli
      simp [hpoll] at hnot
  · exact { Leaves.refl s with
      finished := fun h => absurd h huns
      nextSequence := Nat.le_succ _
      cells := fun q cell h _ => cells_allocate h }
  · exact { Keeps.refl j s with
      nextSequence := Nat.le_succ _
      cells := fun q cell h _ => cells_allocate h }

theorem Sound.tail_lt : s.tail < s.created := (hs.bases _ _ hs.tail).1

omit hs in
theorem heap_install {base r : ℕ} (h : r < s.created) : (s.install base).heap r = s.heap r :=
  Function.update_of_ne h.ne _ _

/-- No sequence of a block that has no segment has got further than being taken. -/
theorem Sound.expected_of_none (hnone : s.segments.get? (block q) = none) (hq : s.consumed ≤ q) :
    s.expected q = .new := by
  unfold expected
  cases hcell : s.cells[q]? with
  | none => rfl
  | some cell =>
    have hstg : cell.stage = .allocated := by
      by_contra hoth
      obtain ⟨r, hr⟩ := hs.found q cell hq hcell hoth
      rw [hnone] at hr
      cases hr
    simp only [hstg, Stage.slot]
    split_ifs
    · rfl
    · rfl

theorem owes_install (hcell : s.cells[q]? = some cell) (hsett : cell.stage.settled = false)
    (hnone : s.segments.get? (block q) = none) :
    Owes i s (s.install (block q)) := by
  have hle := hs.le_of_unsettled hcell hsett
  have hget : ∀ b, (s.install (block q)).segments.get? b =
      if b = block q then some s.created else s.segments.get? b := fun b => Dict.get?_insert
  have hkept : ∀ b r, s.segments.get? b = some r →
      (s.install (block q)).segments.get? b = some r := by
    intro b r hr
    rw [hget, if_neg]
    · exact hr
    · rintro rfl
      rw [hnone] at hr
      cases hr
  have hnew : (s.install (block q)).heap s.created = .new (block q) := Function.update_self ..
  have htail : ((s.install (block q)).tail = s.tail ∧ ¬ (s.heap s.tail).base < block q) ∨
      ((s.install (block q)).tail = s.created ∧ (s.heap s.tail).base < block q) := by
    show ((if _ then _ else _) = s.tail ∧ _) ∨ ((if _ then _ else _) = s.created ∧ _)
    by_cases h : (s.heap s.tail).base < block q
    · exact .inr ⟨if_pos h, h⟩
    · exact .inl ⟨if_neg h, h⟩
  refine owes_producer ?_ ?_ fun j _ => ?_
  · refine { hs with
      tail := ?_
      bases := ?_
      slots := ?_
      found := ?_ }
    · rcases htail with ⟨h, -⟩ | ⟨h, -⟩
      · rw [h, heap_install hs.tail_lt]
        exact hkept _ _ hs.tail
      · rw [h, hnew, hget]
        exact if_pos rfl
    · intro b r hr
      rw [hget] at hr
      split_ifs at hr with hb
      · cases hr
        rw [hnew]
        exact ⟨Nat.lt_succ_self _, hb.symm⟩
      · obtain ⟨hlt, hbase⟩ := hs.bases b r hr
        rw [heap_install hlt]
        exact ⟨hlt.trans (Nat.lt_succ_self _), hbase⟩
    · intro q' r hr hq'
      have hexp : (s.install (block q)).expected q' = s.expected q' := rfl
      rw [hexp]
      rw [hget] at hr
      split_ifs at hr with hb
      · cases hr
        rw [slot, hnew]
        exact (hs.expected_of_none (hb ▸ hnone) hq').symm
      · rw [slot, heap_install (hs.bases _ r hr).1]
        exact hs.slots q' r hr hq'
    · intro q' cell' hq' hcell' hstg
      obtain ⟨r, hr⟩ := hs.found q' cell' hq' hcell' hstg
      exact ⟨r, hkept _ r hr⟩
  · refine { Leaves.refl s with segments := hkept, tail := ?_ }
    rcases htail with ⟨h, -⟩ | ⟨h, -⟩
    · left
      rw [h, heap_install hs.tail_lt]
    · right
      rw [h, hnew]
      exact Nat.mul_le_mul_right _ (Nat.div_le_div_right hle)
  · exact { Keeps.refl j s with segments := fun q' cell' r _ _ _ hr => hkept _ r hr }

/-! ### Slots -/

omit hs in
theorem base_setSlot (s : QueueStore τ) (r q r' : ℕ) (slot : Slot τ) :
    ((s.setSlot r q slot).heap r').base = (s.heap r').base := by
  by_cases h : r' = r
  · subst h
    simp [setSlot, Segment.setSlot]
  · simp [setSlot, h]

omit hs in
theorem slot_setSlot_self (s : QueueStore τ) (r q : ℕ) (slot : Slot τ) :
    (s.setSlot r q slot).slot r q = slot := by
  simp only [setSlot, QueueStore.slot, Function.update_self]
  exact Segment.slot_setSlot_self ..

/-- The other slots that the consumer or a producer finds are not touched. -/
theorem Sound.slot_setSlot_of_ne {r' : ℕ} (slot : Slot τ) (hne : q' ≠ q)
    (hr : s.segments.get? (block q) = some r) (hr' : s.segments.get? (block q') = some r') :
    (s.setSlot r q slot).slot r' q' = s.slot r' q' := by
  simp only [setSlot, QueueStore.slot]
  by_cases h : r' = r
  · subst h
    rw [Function.update_self]
    refine Segment.slot_setSlot_of_ne slot ?_ ?_ hne
    · rw [(hs.bases _ _ hr).2]
      exact block_le q
    · rw [(hs.bases _ _ hr').2]
      exact block_le q'
  · rw [Function.update_of_ne h]

omit hs in
theorem cells_setStage_self (hcell : s.cells[q]? = some cell) (stage : Stage τ) :
    (s.setStage q stage).cells[q]? = some { cell with stage } := by
  show (s.cells.modify q _)[q]? = _
  simp [hcell]

/-- The holder of a sequence gets on with it. -/
theorem owes_stage {slot : Slot τ} (hcell : s.cells[q]? = some cell)
    (hi : cell.holder = i) (hsett : cell.stage.settled = false)
    (hr : s.segments.get? (block q) = some r) (hslot : slot = stage.slot) :
    Owes i s ((s.setSlot r q slot).setStage q stage) := by
  have hle := hs.le_of_unsettled hcell hsett
  have hself : ((s.setSlot r q slot).setStage q stage).cells[q]? = some { cell with stage } :=
    cells_setStage_self (s := s.setSlot r q slot) hcell stage
  have hoth : ∀ q', q' ≠ q → ((s.setSlot r q slot).setStage q stage).cells[q']? = s.cells[q']? :=
    fun q' h => by
      show (s.cells.modify q _)[q']? = _
      simp [Ne.symm h]
  have hhead : s.taking = true → s.consumed ≠ q := by
    intro htak
    obtain ⟨other, hoth, hsett'⟩ := hs.taking htak
    exact ne_of_settled hcell hsett hoth hsett'
  refine owes_producer ?_ ?_ fun j hj => ?_
  · refine { hs with
      length := ?_
      tail := ?_
      bases := ?_
      slots := ?_
      found := ?_
      passed := ?_
      taking := ?_ }
    · show (s.cells.modify q _).length = s.nextSequence
      rw [length_modify]
      exact hs.length
    · show s.segments.get? ((s.setSlot r q slot).heap s.tail).base = some s.tail
      rw [base_setSlot]
      exact hs.tail
    · intro b r' hr'
      have hbase : (((s.setSlot r q slot).setStage q stage).heap r').base = (s.heap r').base :=
        base_setSlot s r q r' slot
      rw [hbase]
      exact hs.bases b r' hr'
    · intro q' r' hr' hq'
      have hslots : ((s.setSlot r q slot).setStage q stage).slot r' q' =
          (s.setSlot r q slot).slot r' q' := rfl
      rw [hslots]
      by_cases h : q' = q
      · subst h
        cases hr.symm.trans hr'
        rw [slot_setSlot_self, expected, hself]
        simp only
        rw [if_neg]
        · exact hslot
        · exact fun h => hhead h.1 h.2.symm
      · rw [hs.slot_setSlot_of_ne slot h hr hr', expected, hoth q' h]
        exact hs.slots q' r' hr' hq'
    · intro q' cell' hq' hcell' hstg'
      by_cases h : q' = q
      · rw [h]
        exact ⟨r, hr⟩
      · rw [hoth q' h] at hcell'
        exact hs.found q' cell' hq' hcell' hstg'
    · intro q' hq'
      rw [hoth q' (Nat.ne_of_lt (lt_of_lt_of_le hq' hle))]
      exact hs.passed q' hq'
    · intro htak
      have hne : s.consumed ≠ q := hhead htak
      show ∃ cell', ((s.setSlot r q slot).setStage q stage).cells[s.consumed]? = some cell' ∧ _
      rw [hoth _ hne]
      exact hs.taking htak
  · refine { Leaves.refl s with
      cells := fun q' cell' hcell' hsett' => ?_
      tail := .inl (base_setSlot s r q s.tail slot) }
    rw [hoth q' (ne_of_settled hcell hsett hcell' hsett')]
    exact hcell'
  · refine { Keeps.refl j s with cells := fun q' cell' hcell' hhold => ?_ }
    rw [hoth q' (ne_of_holder hcell hi hj hcell' hhold)]
    exact hcell'

/-! ### Steps of the consumer -/

theorem owes_loadReserved :
    Owes 0 s { s with
      polling := decide (s.nextSequence ≤ s.consumed)
      overtaken := false } := by
  refine owes_consumer ?_ fun j => { Keeps.refl j s with }
  exact { hs with
    polling := fun hpoll _ => le_antisymm hs.cursor (of_decide_eq_true hpoll) }

theorem owes_polling {polling : Bool} (h : polling = true → s.polling = true) :
    Owes 0 s { s with polling } := by
  refine owes_consumer ?_ fun j => { Keeps.refl j s with }
  exact { hs with polling := fun hpoll => hs.polling (h hpoll) }

/-- The consumer reports that the queue is closed. If the poll was not overtaken, it is finished. -/
theorem owes_report (hseal : s.Sealed) (hpoll : s.polling = true) :
    Owes 0 s { s with
      polling := false
      closedReports := s.overtaken :: s.closedReports } := by
  refine owes_consumer ?_ fun j => { Keeps.refl j s with }
  have hrep : false ∈ s.overtaken :: s.closedReports → s.Finished := by
    intro h
    rcases mem_cons.1 h with h | h
    · exact ⟨hseal, hs.polling hpoll h.symm⟩
    · exact hs.reports h
  exact { hs with
    polling := nofun
    reports := hrep }

theorem owes_drained (h : s.Finished) : Owes 0 s { s with drained := true } :=
  owes_consumer { hs with drained := fun _ => h } fun j => { Keeps.refl j s with }

/-- Segments are dropped that the consumer has passed, except the one that was the last. -/
theorem owes_retain {next tailBase : ℕ} (hat : s.consumed = next) (hnext : next % segmentLen = 0)
    (htail : (s.heap s.tail).base = tailBase ∨ block s.consumed ≤ (s.heap s.tail).base) :
    Owes 0 s { s with
      segments := s.segments.retain fun base segment =>
        if next ≤ base ∨ base = tailBase then some segment else none } := by
  subst hat
  have hget : ∀ b, (s.segments.retain fun base segment =>
      if s.consumed ≤ base ∨ base = tailBase then some segment else none).get? b =
      (s.segments.get? b).bind fun segment =>
        if s.consumed ≤ b ∨ b = tailBase then some segment else none := fun b => Dict.get?_retain
  have hkept : ∀ b r, (s.consumed ≤ b ∨ b = tailBase) → s.segments.get? b = some r →
      (s.segments.retain fun base segment =>
        if s.consumed ≤ base ∨ base = tailBase then some segment else none).get? b = some r := by
    intro b r hb hr
    rw [hget, hr, Option.bind_some, if_pos hb]
  have hold : ∀ b r, (s.segments.retain fun base segment =>
      if s.consumed ≤ base ∨ base = tailBase then some segment else none).get? b = some r →
      s.segments.get? b = some r := by
    intro b r hr
    rw [hget] at hr
    obtain ⟨segment, hsegm, hif⟩ := Option.bind_eq_some_iff.1 hr
    split_ifs at hif
    cases hif
    exact hsegm
  refine owes_consumer ?_ fun j => ?_
  · refine { hs with
      tail := hkept _ _ ?_ hs.tail
      bases := fun b r hr => hs.bases b r (hold b r hr)
      slots := fun q r hr hq => hs.slots q r (hold _ r hr) hq
      found := fun q cell hq hcell hstg => ?_ }
    · rcases htail with h | h
      · exact .inr h
      · exact .inl ((le_block hnext le_rfl).trans h)
    · obtain ⟨r, hr⟩ := hs.found q cell hq hcell hstg
      exact ⟨r, hkept _ r (.inl (le_block hnext hq)) hr⟩
  · refine { Keeps.refl j s with segments := fun q cell r hcell _ hsett hr => ?_ }
    exact hkept _ r (.inl (le_block hnext (hs.le_of_unsettled hcell hsett))) hr

theorem owes_moveOut (hat : s.consumed = q) (hcell : s.cells[q]? = some cell)
    (hsett : cell.stage.settled = true) (hr : s.segments.get? (block q) = some r) :
    Owes 0 s (s.moveOut r q) := by
  subst hat
  have hbase : ∀ r', ((s.moveOut r s.consumed).heap r').base = (s.heap r').base :=
    fun r' => base_setSlot ..
  have hslot : (s.moveOut r s.consumed).slot r s.consumed =
      { s.slot r s.consumed with value := none } := slot_setSlot_self ..
  have hcell' : (s.moveOut r s.consumed).cells[s.consumed]? = some cell := hcell
  have hhead : (s.moveOut r s.consumed).expected s.consumed =
      { cell.stage.slot with value := none } := by
    rw [expected_of_cell hcell', if_pos ⟨rfl, rfl⟩]
  refine owes_consumer ?_ fun j => { Keeps.refl j s with }
  refine { hs with
    tail := ?_
    bases := ?_
    slots := ?_
    taking := fun _ => ⟨cell, hcell, hsett⟩ }
  · rw [hbase]
    exact hs.tail
  · intro b r' hr'
    rw [hbase]
    exact hs.bases b r' hr'
  · intro q' r' hr' hq'
    by_cases h : q' = s.consumed
    · subst h
      cases hr.symm.trans hr'
      rw [hhead, hslot, hs.slots _ _ hr le_rfl, expected_of_cell hcell]
      split_ifs
      · rfl
      · rfl
    · have hoth : (s.moveOut r s.consumed).slot r' q' = s.slot r' q' :=
        hs.slot_setSlot_of_ne _ h hr hr'
      rw [hoth, hs.slots q' r' hr' hq']
      exact (expected_congr s (s.moveOut r s.consumed) rfl h (.inr h)).symm

theorem owes_advance (hat : s.consumed = q) (hcell : s.cells[q]? = some cell)
    (hsett : cell.stage.settled = true) (hr : s.segments.get? (block q) = some r)
    (hpolli : s.polling = false) : Owes 0 s (s.advance r cell.stage.value) := by
  subst hat
  have hlt := hs.lt_of_cell hcell
  have hunf : ¬ s.Finished := fun h => absurd h.2 hlt.ne
  have hbase : ∀ r', ((s.advance r cell.stage.value).heap r').base = (s.heap r').base :=
    fun r' => base_setSlot ..
  refine owes_consumer ?_ fun j => { Keeps.refl j s with }
  refine { hs with
    cursor := hlt
    tail := ?_
    bases := ?_
    slots := ?_
    found := fun q' cell' hq' => hs.found q' cell' (Nat.le_of_succ_le hq')
    received := ?_
    passed := ?_
    taking := nofun
    polling := ?_
    reports := fun h => absurd (hs.reports h) hunf
    drained := fun h => absurd (hs.drained h) hunf }
  · rw [hbase]
    exact hs.tail
  · intro b r' hr'
    rw [hbase]
    exact hs.bases b r' hr'
  · intro q' r' hr' hq'
    have hne : q' ≠ s.consumed := (Nat.lt_of_succ_le hq').ne'
    have hslot : (s.advance r cell.stage.value).slot r' q' = s.slot r' q' :=
      hs.slot_setSlot_of_ne _ hne hr hr'
    rw [hslot, hs.slots q' r' hr' (Nat.le_of_succ_le hq')]
    exact (expected_congr s (s.advance r cell.stage.value) rfl hne (.inl rfl)).symm
  · show (s.received ++ [_]).length = s.consumed + 1
    rw [length_append, hs.received]
    rfl
  · intro q' hq'
    show ∃ cell', s.cells[q']? = some cell' ∧ _ ∧ (s.received ++ [_])[q']? = _
    rcases Nat.lt_succ_iff_lt_or_eq.1 hq' with h | rfl
    · obtain ⟨other, hoth, hsett', hrec⟩ := hs.passed q' h
      refine ⟨other, hoth, hsett', ?_⟩
      rw [getElem?_append_left (hs.received.symm ▸ h)]
      exact hrec
    · refine ⟨cell, hcell, hsett, ?_⟩
      rw [← hs.received, getElem?_concat_length]
  · intro h
    have hpoll : s.polling = true := h
    rw [hpolli] at hpoll
    cases hpoll

end QueueStore

/-! ## Producers -/

open QueueStore

section Producers

variable {α : Type} {s : QueueStore τ} {i q r : ℕ}

/-- The program of a producer is safe from `s`. -/
abbrev SafeProducer (i : ℕ) (Q : α → QueueStore τ → Prop) (E : QueueError → QueueStore τ → Prop)
    (p : QueueProg τ α) (s : QueueStore τ) : Prop :=
  Safe (Keeps i) (Owes i) Sound (fun _ _ => True) Q E p s

variable {E : QueueError → QueueStore τ → Prop}

theorem safe_fail (hmax : s.nextSequence = u64Max)
    (hi : i ∈ s.admitted) : SafeProducer i (fun _ s => i ∈ s.admitted) E fail s := by
  refine safe_modify_bind fun s1 hR1 hs1 _ => ?_
  have hmax1 : s1.nextSequence = u64Max := le_antisymm hs1.bound (hmax ▸ hR1.nextSequence)
  refine ⟨owes_failed hs1 hmax1, ?_⟩
  have hi1 : i ∈ s1.admitted := hR1.admitted hi
  refine safe_modify fun s2 hR2 hs2 _ => ?_
  exact ⟨owes_close hs2, hR2.admitted hi1⟩

theorem safe_enterProducer :
    SafeProducer i (fun _ s => i ∈ s.admitted) (fun _ _ => True) (enterProducer (τ := τ) i) s := by
  refine safe_read_bind owes_refl fun s1 _ _ => ?_
  by_cases hacc : s1.accepting = true
  · rw [if_pos hacc]
    refine safe_modify_bind fun s2 _ hs2 _ => ⟨owes_enter hs2, ?_⟩
    refine safe_atomic_bind fun s3 hR3 hs3 _ => ?_
    have hi3 : i ∈ s3.entering := hR3.entering mem_cons_self
    by_cases hacc3 : s3.accepting = true
    · rw [if_pos hacc3]
      exact ⟨owes_lookAgain hs3 hacc3 hi3, mem_cons_self⟩
    · rw [if_neg hacc3]
      refine ⟨owes_refl _ hs3, ?_⟩
      refine safe_modify_bind fun s4 hR4 hs4 _ => ?_
      exact ⟨owes_turnBack hs4 (hR4.entering hi3), trivial⟩
  · rw [if_neg hacc]
    trivial

/-- The producer holds a sequence, for which nothing was counted yet. -/
def Holds (i q : ℕ) (stage : Stage τ) (s : QueueStore τ) : Prop :=
  s.cells[q]? = some ⟨i, stage⟩ ∧ q ∉ s.active

theorem Holds.mono (h : Holds i q stage s) (hkeeps : s.Keeps i s') : Holds i q stage s' := by
  refine ⟨hkeeps.cells q _ h.1 rfl, fun hq => h.2 ?_⟩
  exact (hkeeps.active q _ h.1 rfl).1 hq

theorem safe_allocateSequence (attempts : List Bool) (hi : i ∈ s.admitted) :
    SafeProducer i (fun q s => Holds i q .allocated s ∧ i ∈ s.admitted)
      (fun _ s => i ∈ s.admitted) (allocateSequence (τ := τ) i attempts) s := by
  induction attempts generalizing s with
  | nil => exact hi
  | cons spurious rest ih =>
    refine safe_read_bind owes_refl fun s1 hR1 _ => ?_
    have hi1 := hR1.admitted hi
    by_cases hfail : s1.failed = true
    · rw [if_pos hfail]
      exact hi1
    rw [if_neg hfail]
    refine safe_read_bind owes_refl fun s2 hR2 _ => ?_
    have hi2 := hR2.admitted hi1
    by_cases hacc : (!s2.accepting) = true
    · rw [if_pos hacc]
      exact hi2
    rw [if_neg hacc]
    refine safe_read_bind owes_refl fun s3 hR3 _ => ?_
    have hi3 := hR3.admitted hi2
    by_cases hmax : s3.nextSequence = u64Max
    · rw [if_pos hmax]
      exact safe_bind (safe_fail hmax hi3)
    rw [if_neg hmax]
    refine safe_atomic_bind fun s4 hR4 hs4 _ => ?_
    have hi4 := hR4.admitted hi3
    by_cases hexc : s4.nextSequence = s3.nextSequence ∧ ¬ spurious = true
    · rw [if_pos hexc]
      have hmax4 : s4.nextSequence ≠ u64Max := by
        rw [hexc.1]
        exact hmax
      refine ⟨owes_allocate hs4 hi4 hmax4, ⟨?_, fun hq => ?_⟩, hi4⟩
      · show (s4.cells ++ [_])[s3.nextSequence]? = _
        rw [← hexc.1, ← hs4.length, getElem?_concat_length]
      · have hlt := hs4.active _ hq
        rw [hexc.1] at hlt
        exact absurd hlt (lt_irrefl _)
    · rw [if_neg hexc]
      exact ⟨owes_refl _ hs4, ih hi4⟩

/-- The segment of a sequence that is held. It stays, since the consumer cannot pass. -/
theorem safe_segmentForProducer (h : Holds i q .allocated s) (hi : i ∈ s.admitted) :
    SafeProducer i (fun r s => Holds i q .allocated s ∧ i ∈ s.admitted ∧
      s.segments.get? (block q) = some r) E (segmentForProducer q) s := by
  refine safe_read_bind owes_refl fun s1 hR1 hs1 => ?_
  have h1 := h.mono hR1
  have hi1 := hR1.admitted hi
  simp only
  by_cases htail : (s1.heap s1.tail).base = block q
  · rw [if_pos htail]
    refine ⟨h1, hi1, ?_⟩
    rw [← htail]
    exact hs1.tail
  rw [if_neg htail]
  refine safe_atomic fun s2 hR2 hs2 _ => ?_
  have h2 := h1.mono hR2
  have hi2 := hR2.admitted hi1
  cases hget : s2.segments.get? (block q) with
  | some segment => exact ⟨owes_refl _ hs2, h2, hi2, hget⟩
  | none =>
    refine ⟨owes_install hs2 h2.1 rfl hget, h2, hi2, ?_⟩
    exact Dict.get?_insert_self

/-- A reservation: its slot is in a segment that stays, and it is counted. -/
def Reserved (i q r : ℕ) (s : QueueStore τ) : Prop :=
  s.cells[q]? = some ⟨i, .reserved⟩ ∧ s.segments.get? (block q) = some r ∧ q ∈ s.active

theorem safe_reserveSlot (h : Holds i q .allocated s) (hi : i ∈ s.admitted) :
    SafeProducer i (fun r => Reserved i q r) (fun _ _ => True) (reserveSlot i q) s := by
  refine safe_seq (safe_segmentForProducer h hi) ?_
  intro r s1 ⟨h1, hi1, hr1⟩
  refine safe_atomic_bind fun s2 hR2 hs2 _ => ?_
  have h2 := h1.mono hR2
  have hr2 := hR2.segments q _ r h1.1 rfl rfl hr1
  have hslot : s2.slot r q = .new := hs2.slot_of_unsettled h2.1 rfl hr2
  rw [if_pos (by rw [hslot]; rfl)]
  refine ⟨owes_stage hs2 h2.1 rfl rfl hr2 (by rw [hslot]; rfl), ?_⟩
  have hcell : ((s2.setSlot r q { s2.slot r q with state := .reserved }).setStage q
      .reserved).cells[q]? = some ⟨i, .reserved⟩ := cells_setStage_self h2.1 .reserved
  have hheld : Holds i q .reserved ((s2.setSlot r q { s2.slot r q with state := .reserved }).setStage
      q .reserved) := ⟨hcell, h2.2⟩
  refine safe_atomic_bind fun s3 hR3 hs3 _ => ?_
  have h3 := hheld.mono hR3
  rw [if_pos (hs3.reservations_lt h3.1 h3.2)]
  refine ⟨owes_increment hs3 h3.1 rfl h3.2, ?_⟩
  have hr3 : s3.segments.get? (block q) = some r := hR3.segments q _ r hcell rfl rfl hr2
  have hi3 : i ∈ s3.admitted := hR3.admitted (hR2.admitted hi1)
  refine safe_modify_bind fun s4 hR4 hs4 _ => ?_
  refine ⟨owes_leave hs4 (hR4.admitted hi3), hR4.cells q _ h3.1 rfl,
    hR4.segments q _ r h3.1 rfl rfl hr3, ?_⟩
  exact (hR4.active q _ h3.1 rfl).2 mem_cons_self

theorem safe_reserve (attempts : List Bool) :
    SafeProducer i (fun found => Reserved i found.1 found.2) (fun _ _ => True)
      (reserve (τ := τ) i attempts) s := by
  refine safe_seq safe_enterProducer ?_
  intro _ s1 hi1
  refine safe_bind (safe_attempt (safe_mono (safe_allocateSequence attempts hi1) ?_ ?_))
  · intro q s2 ⟨h2, hi2⟩
    exact safe_seq (safe_reserveSlot h2 hi2) fun _ _ h => h
  · intro error s2 hi2
    have hleave : ∀ error', SafeProducer i (fun found : ℕ × ℕ => Reserved i found.1 found.2)
        (fun _ _ => True) (do
          leaveProducer i
          throw error') s2 := fun error' =>
      safe_modify_bind fun s3 hR3 hs3 _ => ⟨owes_leave hs3 (hR3.admitted hi2), trivial⟩
    cases error with
    | paused => trivial
    | closed => exact hleave .closed
    | sequenceExhausted => exact hleave .sequenceExhausted
    | failed => exact hleave .failed

theorem safe_finishReservation (hcell : s.cells[q]? = some cell)
    (hi : cell.holder = i) (hq : q ∈ s.active) :
    SafeProducer i (fun _ _ => True) (fun _ _ => True) (finishReservation q) s := by
  refine safe_atomic_bind fun s1 hR1 hs1 _ => ?_
  have hq1 := (hR1.active q cell hcell hi).2 hq
  have hpos : 0 < s1.reservations := by
    rw [hs1.reservations]
    exact length_pos_of_mem hq1
  rw [if_pos hpos]
  exact ⟨owes_decrement hs1 (hR1.cells q cell hcell hi) hi hq1, trivial⟩

/-- A slot that is not settled stays with its producer, and holds what its stage says. -/
theorem staged_mono (hstg : stage.settled = false)
    (hkeeps : s.Keeps i s') (hs : s'.Sound) (hcell : s.cells[q]? = some ⟨i, stage⟩)
    (hr : s.segments.get? (block q) = some r) (hq : q ∈ s.active) :
    s'.cells[q]? = some ⟨i, stage⟩ ∧ s'.segments.get? (block q) = some r ∧ q ∈ s'.active ∧
      s'.slot r q = stage.slot := by
  have hcell' := hkeeps.cells q _ hcell rfl
  have hr' := hkeeps.segments q _ r hcell rfl hstg hr
  exact ⟨hcell', hr', (hkeeps.active q _ hcell rfl).2 hq, hs.slot_of_unsettled hcell' hstg hr'⟩

theorem safe_publish (value : τ) (h : Reserved i q r s) :
    SafeProducer i (fun _ _ => True) (fun _ _ => True) (publish q r value) s := by
  obtain ⟨hcell, hr, hq⟩ := h
  refine safe_atomic_bind fun s1 hR1 hs1 _ => ?_
  obtain ⟨hcell1, hr1, hq1, hslot1⟩ := staged_mono rfl hR1 hs1 hcell hr hq
  rw [if_pos (by rw [hslot1]; rfl)]
  refine ⟨owes_stage hs1 hcell1 rfl rfl hr1 (by rw [hslot1]; rfl), ?_⟩
  -- the value is written
  refine safe_modify_bind fun s2 hR2 hs2 _ => ?_
  have hwrit := cells_setStage_self (s := s1.setSlot r q { s1.slot r q with state := .writing })
    hcell1 (.writing none)
  obtain ⟨hcell2, hr2, hq2, hslot2⟩ := staged_mono rfl hR2 hs2 hwrit hr1 hq1
  refine ⟨owes_stage hs2 hcell2 rfl rfl hr2 (by rw [hslot2]; rfl), ?_⟩
  -- and published
  refine safe_modify_bind fun s3 hR3 hs3 _ => ?_
  have hwritt := cells_setStage_self (s := s2.setSlot r q { s2.slot r q with value := some value })
    hcell2 (.writing (some value))
  obtain ⟨hcell3, hr3, hq3, hslot3⟩ := staged_mono rfl hR3 hs3 hwritt hr2 hq2
  refine ⟨owes_stage hs3 hcell3 rfl rfl hr3 (by rw [hslot3]; rfl), ?_⟩
  have hpub := cells_setStage_self (s := s3.setSlot r q { s3.slot r q with state := .published })
    hcell3 (.published value)
  exact safe_finishReservation hpub rfl hq3

theorem safe_dropReservation (h : Reserved i q r s) :
    SafeProducer i (fun _ _ => True) (fun _ _ => True) (dropReservation (τ := τ) q r) s := by
  obtain ⟨hcell, hr, hq⟩ := h
  refine safe_atomic_bind fun s1 hR1 hs1 _ => ?_
  obtain ⟨hcell1, hr1, hq1, hslot1⟩ := staged_mono rfl hR1 hs1 hcell hr hq
  rw [if_pos (by rw [hslot1]; rfl)]
  refine ⟨owes_stage hs1 hcell1 rfl rfl hr1 (by rw [hslot1]; rfl), ?_⟩
  have hpois := cells_setStage_self (s := s1.setSlot r q { s1.slot r q with state := .poisoned })
    hcell1 .poisoned
  exact safe_finishReservation hpois rfl hq1

theorem safe_produce (call : ProducerCall τ) :
    SafeProducer i (fun _ _ => True) (fun _ _ => True) (produce i call) s := by
  refine safe_seq (safe_reserve call.attempts) ?_
  intro found s1 h1
  cases hval : call.value with
  | some value =>
    simp only
    exact safe_publish value h1
  | none =>
    simp only
    exact safe_dropReservation h1

end Producers

/-! ## The consumer -/

section Consumer

variable {α : Type} {s : QueueStore τ} {next r : ℕ}

/-- The program of the consumer is safe from `s`. -/
abbrev SafeConsumer (Q : α → QueueStore τ → Prop) (p : QueueProg τ α) (s : QueueStore τ) : Prop :=
  Safe Leaves (Owes 0) Sound (fun _ _ => True) Q (fun _ _ => True) p s

/-- The consumer is in no step of a poll. -/
def Idle (s : QueueStore τ) : Prop := s.taking = false ∧ s.polling = false

theorem Idle.mono (h : Idle s) (hleav : s.Leaves s') : Idle s' :=
  ⟨hleav.taking.trans h.1, hleav.polling.trans h.2⟩

theorem safe_pollOpen (htak : s.taking = false) (hpoll : s.polling = true) :
    SafeConsumer (fun _ => Idle) pollOpen s := by
  refine safe_atomic_bind fun s1 hR1 hs1 _ => ?_
  have htak1 := hR1.taking.trans htak
  have hpoll1 := hR1.polling.trans hpoll
  by_cases hacc : s1.accepting = true
  · rw [if_pos hacc]
    refine ⟨owes_polling hs1 fun _ => hpoll1, htak1, ?_⟩
    simp [hacc]
  · rw [if_neg hacc]
    refine ⟨owes_polling hs1 fun _ => hpoll1, ?_⟩
    refine safe_atomic fun s2 hR2 hs2 _ => ?_
    have hclos : s2.accepting = false := hR2.closed (by simpa using hacc)
    have htak2 : s2.taking = false := hR2.taking.trans htak1
    have hpoll2 : s2.polling = true := by
      rw [hR2.polling]
      simp [hpoll1, hacc]
    by_cases hinf : 0 < s2.producerInflight
    · rw [if_pos hinf]
      exact ⟨owes_polling hs2 nofun, htak2, rfl⟩
    · rw [if_neg hinf]
      exact ⟨owes_report hs2 (hs2.sealed_of_idle hclos hinf) hpoll2, htak2, rfl⟩

/-- What the consumer knows of the producers, and its own steps do not change. -/
def Steady (F : QueueStore τ → Prop) : Prop :=
  ∀ s s' : QueueStore τ, F s → s.Leaves s' ∨ (s'.accepting = s.accepting ∧
    s'.admitted = s.admitted ∧ s'.nextSequence = s.nextSequence) → F s'

/-- The consumer is at a sequence. -/
def At (next : ℕ) (s : QueueStore τ) : Prop := s.consumed = next ∧ Idle s

theorem At.mono (h : At next s) (hleav : s.Leaves s') : At next s' :=
  ⟨hleav.consumed.trans h.1, h.2.mono hleav⟩

theorem slot_of_at (hs : s.Sound) (hat : At next s)
    (hcell : s.cells[next]? = some cell) (hr : s.segments.get? (block next) = some r) :
    s.slot r next = cell.stage.slot := by
  rw [hs.slots next r hr hat.1.le, expected_of_cell hcell, if_neg]
  intro hhead
  have htak := hat.2.1
  rw [hhead.1] at htak
  cases htak

variable {F : QueueStore τ → Prop}

theorem safe_reclaimBefore (hF : Steady F) (hat : At next s) (h : F s) :
    SafeConsumer (fun _ s => At next s ∧ F s) (reclaimBefore next) s := by
  unfold reclaimBefore
  split_ifs with hstart
  · exact ⟨hat, h⟩
  have hnext : next % segmentLen = 0 := by
    by_contra hoth
    exact hstart (.inr hoth)
  refine safe_read_bind owes_refl fun s1 hR1 _ => ?_
  have hat1 := hat.mono hR1
  refine safe_modify fun s2 hR2 hs2 _ => ?_
  have hat2 := hat1.mono hR2
  have htail : (s2.heap s2.tail).base = (s1.heap s1.tail).base ∨
      block s2.consumed ≤ (s2.heap s2.tail).base := by
    rw [hR2.consumed]
    exact hR2.tail
  refine ⟨owes_retain hs2 hat2.1 hnext htail, hat2, ?_⟩
  exact hF s2 _ (hF s1 s2 (hF s s1 h (.inl hR1)) (.inl hR2)) (.inr ⟨rfl, rfl, rfl⟩)

theorem safe_segmentForConsumer (hF : Steady F) (hat : At next s) (h : F s) :
    SafeConsumer (fun found s => At next s ∧ F s ∧
      ∀ r, found = some r → s.segments.get? (block next) = some r) (segmentForConsumer next) s := by
  refine safe_read_bind owes_refl fun s1 hR1 hs1 => ?_
  have hat1 := hat.mono hR1
  have h1 := hF s s1 h (.inl hR1)
  simp only
  by_cases htail : (s1.heap s1.tail).base = block next
  · rw [if_pos htail]
    refine ⟨hat1, h1, ?_⟩
    rintro r ⟨⟩
    rw [← htail]
    exact hs1.tail
  · rw [if_neg htail]
    refine safe_read owes_refl fun s2 hR2 _ => ?_
    exact ⟨hat1.mono hR2, hF s1 s2 h1 (.inl hR2), fun r hr => hr⟩

/-- What a poll of the head leaves. -/
def Polled (next : ℕ) (F : QueueStore τ → Prop) (poll : ConsumerPoll τ) (s : QueueStore τ) : Prop :=
  F s ∧ match poll with
    | .item _ _ | .poisoned _ => At (next + 1) s
    | _ => At next s

theorem safe_consumeHead (hF : Steady F) (hlt : ∀ s, F s → next < s.nextSequence) (hat : At next s)
    (h : F s) : SafeConsumer (Polled next F) (consumeHead next) s := by
  refine safe_seq (safe_reclaimBefore hF hat h) ?_
  intro _ s1 ⟨hat1, h1⟩
  refine safe_seq (safe_segmentForConsumer hF hat1 h1) ?_
  intro found s2 ⟨hat2, h2, hfnd⟩
  cases found with
  | none => exact ⟨h2, hat2⟩
  | some r =>
    have hr2 := hfnd r rfl
    refine safe_read_bind owes_refl fun s3 hR3 hs3 => ?_
    have hat3 := hat2.mono hR3
    have h3 := hF s2 s3 h2 (.inl hR3)
    have hr3 := hR3.segments _ r hr2
    obtain ⟨cell, hcell⟩ : ∃ cell, s3.cells[next]? = some cell :=
      ⟨_, getElem?_eq_getElem (hs3.length.symm ▸ hlt s3 h3)⟩
    rw [slot_of_at hs3 hat3 hcell hr3]
    obtain ⟨holder, stage⟩ := cell
    cases stage with
    | allocated | reserved | writing value => exact ⟨h3, hat3⟩
    | published value =>
      refine safe_atomic_bind fun s4 hR4 hs4 _ => ?_
      have hat4 := hat3.mono hR4
      have hcell4 := hR4.cells next _ hcell rfl
      have hr4 := hR4.segments _ r hr3
      have hslot4 : s4.slot r next = ⟨.published, some value⟩ := slot_of_at hs4 hat4 hcell4 hr4
      refine ⟨owes_moveOut hs4 hat4.1 hcell4 rfl hr4, ?_⟩
      rw [hslot4]
      refine safe_modify_bind fun s5 hR5 hs5 _ => ?_
      have hat5 : s5.consumed = next := hR5.consumed.trans hat4.1
      have hcell5 := hR5.cells next _ hcell4 rfl
      have hpoll5 : s5.polling = false := hR5.polling.trans hat4.2.2
      refine ⟨owes_advance hs5 hat5 hcell5 rfl (hR5.segments _ r hr4) hpoll5, ?_, ?_, rfl, hpoll5⟩
      · have h4 := hF s4 (s4.moveOut r next) (hF s3 s4 h3 (.inl hR4)) (.inr ⟨rfl, rfl, rfl⟩)
        exact hF s5 _ (hF _ s5 h4 (.inl hR5)) (.inr ⟨rfl, rfl, rfl⟩)
      · show s5.consumed + 1 = next + 1
        rw [hat5]
    | poisoned =>
      refine safe_modify_bind fun s4 hR4 hs4 _ => ?_
      have hat4 := hat3.mono hR4
      have hcell4 := hR4.cells next _ hcell rfl
      have h4 := hF s3 s4 h3 (.inl hR4)
      refine ⟨owes_advance hs4 hat4.1 hcell4 rfl (hR4.segments _ r hr3) hat4.2.2,
        hF s4 _ h4 (.inr ⟨rfl, rfl, rfl⟩), ?_, rfl, hat4.2.2⟩
      show s4.consumed + 1 = next + 1
      rw [hat4.1]

theorem steady_true : Steady (τ := τ) fun _ => True := fun _ _ _ _ => trivial

theorem steady_lt (next : ℕ) : Steady (τ := τ) fun s => next < s.nextSequence := by
  intro s s' h hstep
  rcases hstep with hleav | ⟨_, _, hsame⟩
  · exact lt_of_lt_of_le h hleav.nextSequence
  · exact hsame ▸ h

/-- The poll of an idle consumer up to the point where it knows whether there is a sequence. -/
theorem safe_loadReserved {Q : α → QueueStore τ → Prop} {k : ℕ × ℕ → QueueProg τ α} (h : Idle s)
    (hemp : ∀ s : QueueStore τ, s.taking = false → s.polling = true → ∀ next reserved,
      reserved ≤ next → SafeConsumer Q (k (next, reserved)) s)
    (hhead : ∀ (s : QueueStore τ) next reserved, At next s → next < s.nextSequence →
      ¬ reserved ≤ next → SafeConsumer Q (k (next, reserved)) s) :
    SafeConsumer Q (loadReserved >>= k) s := by
  refine safe_atomic_bind fun s1 hR1 hs1 _ => ⟨owes_loadReserved hs1, ?_⟩
  have h1 := h.mono hR1
  by_cases hle : s1.nextSequence ≤ s1.consumed
  · refine hemp _ ?_ ?_ _ _ hle
    · exact h1.1
    · exact decide_eq_true hle
  · refine hhead _ _ _ ⟨rfl, ?_, ?_⟩ ?_ hle
    · exact h1.1
    · exact decide_eq_false hle
    · exact Nat.lt_of_not_le hle

theorem safe_tryRecv (h : Idle s) : SafeConsumer (fun _ => Idle) (tryRecv (τ := τ)) s := by
  refine safe_read_bind owes_refl fun s1 hR1 _ => ?_
  have h1 := h.mono hR1
  by_cases hfail : s1.failed = true
  · rw [if_pos hfail]
    exact h1
  rw [if_neg hfail]
  refine safe_loadReserved h1 ?_ ?_
  · intro s2 htak hpoll next reserved hle
    simp only
    rw [if_pos hle]
    refine safe_seq (safe_pollOpen htak hpoll) ?_
    intro state s3 h3
    cases state with
    | _ => exact h3
  · intro s2 next reserved hat hlt hle
    simp only
    rw [if_neg hle]
    refine safe_mono (safe_consumeHead (steady_lt next) (fun _ h => h) hat hlt) ?_ fun _ _ h => h
    intro poll s3 h3
    cases poll with
    | _ => exact h3.2.2

theorem safe_headState (h : Idle s) : SafeConsumer (fun _ => Idle) (headState (τ := τ)) s := by
  refine safe_read_bind owes_refl fun s1 hR1 _ => ?_
  have h1 := h.mono hR1
  by_cases hfail : s1.failed = true
  · rw [if_pos hfail]
    exact h1
  rw [if_neg hfail]
  refine safe_loadReserved h1 ?_ ?_
  · intro s2 htak hpoll next reserved hle
    simp only
    rw [if_pos hle]
    exact safe_pollOpen htak hpoll
  · intro s2 next reserved hat _ hle
    simp only
    rw [if_neg hle]
    refine safe_seq (safe_segmentForConsumer steady_true hat trivial) ?_
    intro found s3 ⟨hat3, _⟩
    cases found with
    | none => exact hat3.2
    | some r =>
      refine safe_read_bind owes_refl fun s4 hR4 _ => ?_
      have h4 := hat3.2.mono hR4
      cases (s4.slot r next).state with
      | _ => exact h4

/-- Nobody takes a sequence any more, and the last one is known. -/
theorem steady_sealed (boundary : ℕ) :
    Steady (τ := τ) fun s => s.Sealed ∧ s.nextSequence = boundary := by
  intro s s' ⟨hseal, hnext⟩ hstep
  rcases hstep with hleav | ⟨hacc, hadm, hsame⟩
  · obtain ⟨hseal', hsame⟩ := hleav.finished hseal
    exact ⟨hseal', hsame.trans hnext⟩
  · exact ⟨⟨hacc.trans hseal.1, hadm.trans hseal.2⟩, hsame.trans hnext⟩

theorem safe_drainFrom (summary : DrainSummary) (n boundary : ℕ) (hn : n = boundary - next)
    (hnext : next ≤ boundary) (hat : At next s) (h : s.Sealed ∧ s.nextSequence = boundary) :
    SafeConsumer (fun _ => Idle) (drainFrom (τ := τ) next summary n) s := by
  induction n generalizing next summary s with
  | zero =>
    refine safe_seq (safe_reclaimBefore (steady_sealed boundary) hat h) ?_
    intro _ s1 ⟨hat1, h1⟩
    refine safe_modify_bind fun s2 hR2 hs2 _ => ?_
    have hat2 := hat1.mono hR2
    have h2 := steady_sealed boundary s1 s2 h1 (.inl hR2)
    refine ⟨owes_drained hs2 ⟨h2.1, ?_⟩, hat2.2⟩
    rw [hat2.1, h2.2]
    omega
  | succ n ih =>
    have hlt : ∀ s : QueueStore τ, s.Sealed ∧ s.nextSequence = boundary → next < s.nextSequence := by
      intro s h
      rw [h.2]
      omega
    refine safe_seq (safe_consumeHead (steady_sealed boundary) hlt hat h) ?_
    intro poll s1 ⟨h1, hpoll⟩
    cases poll with
    | item _ _ | poisoned _ => exact ih _ (by omega) (by omega) hpoll h1
    | _ => exact hpoll.2

theorem safe_drainAfterProducersStop (h : Idle s) :
    SafeConsumer (fun _ => Idle) (drainAfterProducersStop (τ := τ)) s := by
  refine safe_modify_bind fun s1 hR1 hs1 _ => ⟨owes_close hs1, ?_⟩
  have h1 := h.mono hR1
  refine safe_read_bind owes_refl fun s2 hR2 hs2 => ?_
  have h2 : Idle s2 := ⟨hR2.taking.trans h1.1, hR2.polling.trans h1.2⟩
  have hclos2 : s2.accepting = false := hR2.closed rfl
  by_cases hprod : s2.producerInflight ≠ 0
  · rw [if_pos hprod]
    exact h2
  rw [if_neg hprod]
  have hseal := hs2.sealed_of_idle hclos2 (by omega)
  refine safe_read_bind owes_refl fun s3 hR3 hs3 => ?_
  exact safe_drainFrom _ _ s3.nextSequence rfl hs3.cursor ⟨rfl, h2.mono hR3⟩
    ⟨(hR3.finished hseal).1, rfl⟩

theorem safe_consume (script : List ConsumerCall) (h : Idle s) :
    SafeConsumer (fun _ _ => True) (consume (τ := τ) script) s := by
  induction script generalizing s with
  | nil => trivial
  | cons call rest ih =>
    have hcall : SafeConsumer (fun _ => Idle) (call.program (τ := τ)) s := by
      cases call with
      | tryRecv => exact safe_seq (safe_tryRecv h) fun _ _ h => h
      | headState => exact safe_seq (safe_headState h) fun _ _ h => h
      | drainAfterProducersStop =>
        exact safe_seq (safe_drainAfterProducersStop h) fun _ _ h => h
    exact safe_seq hcall fun _ _ h => ih h

end Consumer

/-! ## A poll that is not interrupted -/

section Alone

variable {α : Type} {s : QueueStore τ} {next r : ℕ}

abbrev Alone (Q : α → QueueStore τ → Prop) (p : QueueProg τ α) (s : QueueStore τ) : Prop :=
  Safe (· = ·) (fun _ _ => True) (fun _ => True) (fun _ _ => True) Q (fun _ _ => False) p s

/-- The head is published, and can be found. -/
structure Ready (next r : ℕ) (value : τ) (s : QueueStore τ) : Prop where
  tail : (s.heap s.tail).base = block next → s.tail = r
  segment : s.segments.get? (block next) = some r
  slot : s.slot r next = ⟨.published, some value⟩

variable {value : τ}

theorem alone_reclaimBefore (h : Ready next r value s) :
    Alone (fun _ => Ready next r value) (reclaimBefore next) s := by
  unfold reclaimBefore
  split_ifs with hstart
  · exact h
  have hnext : next % segmentLen = 0 := by
    by_contra hoth
    exact hstart (.inr hoth)
  refine safe_read_bind (fun _ _ => trivial) fun s1 hs1 _ => ?_
  subst hs1
  refine safe_modify fun s1 hs1 _ _ => ?_
  subst hs1
  refine ⟨trivial, h.tail, ?_, h.slot⟩
  show (s.segments.retain _).get? (block next) = some r
  rw [Dict.get?_retain, h.segment, Option.bind_some, if_pos (.inl (le_block hnext le_rfl))]

theorem alone_consumeHead (h : Ready next r value s) :
    Alone (fun poll _ => poll = .item next value) (consumeHead next) s := by
  refine safe_seq (alone_reclaimBefore h) ?_
  intro _ s1 h1
  have hfnd : Alone (fun found s => found = some r ∧ Ready next r value s)
      (segmentForConsumer next) s1 := by
    refine safe_read_bind (fun _ _ => trivial) fun s2 hs2 _ => ?_
    subst hs2
    simp only
    by_cases htail : (s1.heap s1.tail).base = block next
    · rw [if_pos htail]
      exact ⟨congrArg some (h1.tail htail), h1⟩
    · rw [if_neg htail]
      refine safe_read (fun _ _ => trivial) fun s2 hs2 _ => ?_
      subst hs2
      exact ⟨h1.segment, h1⟩
  refine safe_seq hfnd ?_
  rintro _ s2 ⟨rfl, h2⟩
  refine safe_read_bind (fun _ _ => trivial) fun s3 hs3 _ => ?_
  subst hs3
  rw [h2.slot]
  refine safe_atomic_bind fun s3 hs3 _ _ => ⟨trivial, ?_⟩
  subst hs3
  rw [h2.slot]
  exact safe_modify_bind fun _ _ _ _ => ⟨trivial, rfl⟩

/-- A value that is published at the head is delivered by the next poll. -/
theorem tryRecv_delivers (hs : s.Sound) (htak : s.taking = false)
    (hfail : s.failed = false) (hcell : s.cells[s.consumed]? = some cell)
    (hstg : cell.stage = .published value) :
    (tryRecv.solo s).2 = .ok (.item s.consumed value) := by
  obtain ⟨r, hr⟩ := hs.found s.consumed cell le_rfl hcell (by rw [hstg]; simp)
  have hready : Ready s.consumed r value s := by
    refine ⟨fun htail => ?_, hr, ?_⟩
    · have hsame := hs.tail
      rw [htail, hr] at hsame
      exact (Option.some.inj hsame).symm
    · rw [hs.slots _ r hr le_rfl, expected_of_cell hcell, if_neg (by simp [htak]), hstg]
      rfl
  have hsafe : Alone (fun poll _ => poll = .item s.consumed value) tryRecv s := by
    refine safe_read_bind (fun _ _ => trivial) fun s1 hs1 _ => ?_
    subst hs1
    rw [if_neg (by simp [hfail])]
    refine safe_atomic_bind fun s1 hs1 _ _ => ⟨trivial, ?_⟩
    subst hs1
    simp only
    rw [if_neg (Nat.not_le.2 (hs.lt_of_cell hcell))]
    exact alone_consumeHead ⟨hready.tail, hready.segment, hready.slot⟩
  obtain ⟨poll, hpoll, rfl⟩ := solo_of_safe hsafe
  exact hpoll

end Alone

/-! ## Interleavings -/

theorem sound_channel : (channel : QueueStore τ).Sound := by
  have hget : ∀ b, ((∅ : Dict ℕ ℕ).insert 0 0).get? b = if b = 0 then some 0 else none :=
    fun b => Dict.get?_insert
  constructor
  case bound => exact Nat.zero_le _
  case length => rfl
  case cursor => exact le_rfl
  case tail => exact Dict.get?_insert_self
  case bases =>
    intro b r hr
    have hr' : (if b = 0 then some 0 else none) = some r := (hget b).symm.trans hr
    split_ifs at hr' with hb
    cases hr'
    exact ⟨Nat.zero_lt_one, hb.symm⟩
  case slots => exact fun _ _ _ _ => rfl
  case found => nofun
  case received => rfl
  case passed => exact fun q hq => absurd hq (Nat.not_lt_zero q)
  case inflight => rfl
  case reservations => rfl
  case distinct => exact nodup_nil
  case active => nofun
  case failed => nofun
  case taking => nofun
  case polling => nofun
  case reports => nofun
  case drained => nofun

/-- **Step and run.** -/
theorem inv_runQueue (calls : ℕ → ProducerCall τ) (script : List ConsumerCall)
    (inputs : List (Input QueueEvent)) :
    (runQueue calls script inputs).Inv Relies Owes (fun _ _ _ => True) Sound fun _ _ _ => True := by
  refine Sys.sound compatible (Sys.inv_launch sound_channel fun i => ?_) ?_
  · cases i with
    | zero => exact safe_consume script ⟨rfl, rfl⟩
    | succ i => exact safe_produce (calls i)
  · refine (along_true _ inputs).mono fun sys input _ => ?_
    cases input with
    | run i | stop i => trivial
    | env e =>
      intro hs
      cases e with
      | close => exact ⟨close_sound hs, fun i _ => close_relies sys.store i, fun _ _ _ => trivial⟩

/-- **Delivery.** -/
theorem queue_delivers (calls : ℕ → ProducerCall τ) (script : List ConsumerCall)
    (inputs : List (Input QueueEvent)) :
    let s := (runQueue calls script inputs).store
    (s.received.length = s.consumed ∧ ∀ q < s.consumed, ∃ cell, s.cells[q]? = some cell ∧
      cell.stage.settled = true ∧ s.received[q]? = some (q, cell.stage.value)) ∧
    (∀ q cell, s.consumed ≤ q → s.cells[q]? = some cell → cell.stage ≠ .allocated →
      ∃ r, s.segments.get? (block q) = some r ∧ s.slot r q = s.expected q) ∧
    (∀ cell value, s.cells[s.consumed]? = some cell → cell.stage = .published value →
      s.taking = false → s.failed = false → (tryRecv.solo s).2 = .ok (.item s.consumed value)) ∧
    (s.failed = true → s.nextSequence = u64Max) ∧
    (s.drained = true ∨ false ∈ s.closedReports → s.consumed = s.nextSequence ∧
      s.accepting = false ∧ s.admitted = []) := by
  intro s
  have hs : s.Sound := (inv_runQueue calls script inputs).1
  refine ⟨⟨hs.received, hs.passed⟩, ?_, ?_, hs.failed, ?_⟩
  · intro q cell hq hcell hstg
    obtain ⟨r, hr⟩ := hs.found q cell hq hcell hstg
    exact ⟨r, hr, hs.slots q r hr hq⟩
  · intro cell value hcell hstg htak hfail
    exact tryRecv_delivers hs htak hfail hcell hstg
  · intro hend
    have hfin : s.Finished := by
      rcases hend with h | h
      · exact hs.drained h
      · exact hs.reports h
    exact ⟨hfin.2, hfin.1⟩

/-- A value is delivered, and then the queue is found to be closed. -/
theorem queue_delivers_one :
    let s := (runQueue (fun _ => ⟨[false], some 7⟩) [.tryRecv, .tryRecv]
      (List.replicate 15 (.run 1) ++ [.env .close] ++ List.replicate 10 (.run 0))).store
    s.received = [(0, some 7)] ∧ s.closedReports = [false] ∧ s.consumed = s.nextSequence ∧
      s.accepting = false ∧ s.admitted = [] := by
  intro s
  have hrep : s.closedReports = [false] := by decide
  have hrec : s.received = [(0, some 7)] := by decide
  obtain ⟨-, -, -, -, hend⟩ := queue_delivers (fun _ => ⟨[false], some 7⟩) [.tryRecv, .tryRecv]
    (replicate 15 (.run 1) ++ [.env .close] ++ replicate 10 (.run 0))
  refine ⟨hrec, hrep, hend (.inr ?_)⟩
  show false ∈ s.closedReports
  rw [hrep]
  exact mem_cons_self

/-- **A queue is closed too early.** The consumer has loaded the next sequence when a producer
offers a value and the queue is closed. It then reports the queue as closed, and the value is not
consumed. -/
theorem queue_closed_early :
    let s := (runQueue (fun _ => ⟨[false], some 7⟩) [.tryRecv]
      (List.replicate 2 (.run 0) ++ List.replicate 15 (.run 1) ++ [.env .close] ++
        List.replicate 2 (.run 0))).store
    s.closedReports = [true] ∧ s.consumed = 0 ∧ s.nextSequence = 1 ∧
      s.cells = [⟨1, .published 7⟩] ∧ s.received = [] := by
  decide

end NasaRuntime.Napart
