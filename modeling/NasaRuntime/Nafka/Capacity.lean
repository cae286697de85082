import Mathlib.Order.WithBot
import NasaRuntime.Lib.Dict
import NasaRuntime.Lib.Run
import NasaRuntime.Nafka.Types

/-!
# The capacity of pending inputs

An input is charged before it is copied, at five levels: the process, its source, its consumer group,
its partition and its key within the partition. Each level counts records and bytes. The permit of the
input is shared by everything that still needs it, and the charge is given back when the last of them
lets go.

Two locks split the hierarchy. `reserve` holds the lock of the group from its check to its last
write, and inside it takes the locks of the source and of the process, in which these two are checked
and written; so it is one step of the machine. Before that it asks `can_reserve`, under the same two
locks but a moment earlier, when other groups may have changed the answer: its answer is an input of
the step. The `drop` of a permit is two steps. Its own body gives back key, partition and group under
the lock of the group; the source's part of the permit is a field, which is dropped after the body and
gives back source and process under their locks.

`live` and `leaving` are not fields of the source: they are the permits that exist, and those of which
only the field is left. The limits are `usize` values and no account exceeds its limit, so an addition
does not overflow; a subtraction that goes below zero, or an entry that is not there, is a panic.

**Theorem (`levels_run`).** After every sequence of requests and drops, of any sources and groups:
every level has the sum over the permits that belong to it and is within its limits; an entry is there
only while something is charged to it; no drop of a permit goes below zero or misses an entry; a
refused request changes nothing.

**Theorem (`owners_run`).** The counters of an owner are the sums over its permits.
-/

namespace NasaRuntime.Nafka

/-- The limits in the `BehaviorConfig` of a source, which its `validate` has seen. -/
structure InputLimits where
  maxProcessPendingRecords : ℕ
  maxProcessPendingBytes : ℕ
  maxSourcePendingRecords : ℕ
  maxSourcePendingBytes : ℕ
  maxGroupProgressRecords : ℕ
  maxGroupPendingBytes : ℕ
  maxProgressRecords : ℕ
  maxPartitionPendingBytes : ℕ
  maxKeyPendingRecords : ℕ
  maxKeyPendingBytes : ℕ
  positive : ∀ limit ∈ [maxProcessPendingRecords, maxProcessPendingBytes, maxSourcePendingRecords,
    maxSourcePendingBytes, maxGroupProgressRecords, maxGroupPendingBytes, maxProgressRecords,
    maxPartitionPendingBytes, maxKeyPendingRecords, maxKeyPendingBytes], 0 < limit

/-- The identity under which the key of an input is charged: no key, or the digest of the key. Keys
with one digest share an account. -/
structure InputKey where
  digest : Option Bytes
deriving DecidableEq

namespace InputKey

/-- An input without a key comes first, then the digests byte by byte. -/
def rank (key : InputKey) : WithBot (List ℕ) := key.digest.map (·.map UInt8.toNat)

theorem rank_injective : Function.Injective rank := by
  intro key key' h
  have hby : Function.Injective (List.map UInt8.toNat) :=
    List.map_injective_iff.2 fun _ _ => UInt8.toNat.inj
  cases key
  cases key'
  simpa [rank, hby.eq_iff] using Option.map_injective hby h

instance : LinearOrder InputKey := LinearOrder.lift' rank rank_injective

end InputKey

structure PartitionUsage where
  records : ℕ
  bytes : ℕ
  keys : Dict InputKey (ℕ × ℕ)
deriving DecidableEq

structure Usage where
  records : ℕ
  bytes : ℕ
  partitions : Dict Tp PartitionUsage

/-- What is charged in a group. -/
structure Charge where
  tp : Tp
  key : InputKey
  bytes : ℕ
deriving DecidableEq

/-- The permit of an input, charged by an owner of a group. -/
structure RecordPermit extends Charge where
  group : ℕ
  owner : ℕ
  /-- The input was found to be on a route by key, which its owner counts. -/
  keyed : Bool
deriving DecidableEq

/-! ## The group -/

structure GroupCapacity where
  maxRecords : ℕ
  maxBytes : ℕ
  maxPartitionRecords : ℕ
  maxPartitionBytes : ℕ
  maxKeyRecords : ℕ
  maxKeyBytes : ℕ

namespace GroupCapacity

def new (config : InputLimits) : GroupCapacity where
  maxRecords := config.maxGroupProgressRecords
  maxBytes := config.maxGroupPendingBytes
  maxPartitionRecords := config.maxProgressRecords
  maxPartitionBytes := config.maxPartitionPendingBytes
  maxKeyRecords := config.maxKeyPendingRecords
  maxKeyBytes := config.maxKeyPendingBytes

/-- The last line of the source asks the level above, which answered `canReserve`. -/
def available (capacity : GroupCapacity) (usage : Usage) (input : Charge) (canReserve : Bool) :
    Bool :=
  if capacity.maxRecords ≤ usage.records ∨ capacity.maxBytes - usage.bytes < input.bytes then false
  else
    match usage.partitions.get? input.tp with
    | some partition =>
      if capacity.maxPartitionRecords ≤ partition.records ∨
          capacity.maxPartitionBytes - partition.bytes < input.bytes then false
      else
        let keyed := (partition.keys.get? input.key).getD (0, 0)
        if capacity.maxKeyRecords ≤ keyed.1 ∨ capacity.maxKeyBytes - keyed.2 < input.bytes then false
        else canReserve
    | none =>
      if min capacity.maxPartitionBytes capacity.maxKeyBytes < input.bytes then false else canReserve

end GroupCapacity

/-- The writes of `reserve` to the entry of the partition. -/
def PartitionUsage.charge (partition : PartitionUsage) (input : Charge) : PartitionUsage where
  records := partition.records + 1
  bytes := partition.bytes + input.bytes
  keys := partition.keys.insert input.key
    (NasaRuntime.charge ((partition.keys.get? input.key).getD (0, 0)) input.bytes)

/-- The writes of `reserve` to the usage of the group. -/
def Usage.charge (usage : Usage) (input : Charge) : Usage where
  records := usage.records + 1
  bytes := usage.bytes + input.bytes
  partitions := usage.partitions.insert input.tp
    (((usage.partitions.get? input.tp).getD ⟨0, 0, ∅⟩).charge input)

/-- The writes of `drop` to the entry of the partition. -/
def PartitionUsage.refund (partition : PartitionUsage) (input : Charge) : Option PartitionUsage := do
  let held ← NasaRuntime.refund (partition.records, partition.bytes) input.bytes
  let keyed ← partition.keys.get? input.key
  let keyed ← NasaRuntime.refund keyed input.bytes
  let keys :=
    if keyed.1 = 0 then partition.keys.erase input.key else partition.keys.insert input.key keyed
  some ⟨held.1, held.2, keys⟩

/-- The writes of `drop` to the usage of the group. -/
def Usage.refund (usage : Usage) (input : Charge) : Option Usage := do
  let held ← NasaRuntime.refund (usage.records, usage.bytes) input.bytes
  let partition ← usage.partitions.get? input.tp
  let partition ← partition.refund input
  let partitions :=
    if partition.records = 0 then usage.partitions.erase input.tp
    else usage.partitions.insert input.tp partition
  some ⟨held.1, held.2, partitions⟩

/-! ## The process -/

/-- The sources and groups of a process. A source with other limits for the process than the first
one is refused, so all of them have the same. -/
structure Layout where
  config : ℕ → InputLimits
  agree : ∀ source source',
    (config source).maxProcessPendingRecords = (config source').maxProcessPendingRecords ∧
    (config source).maxProcessPendingBytes = (config source').maxProcessPendingBytes
  source : ℕ → ℕ

def Layout.group (layout : Layout) (group : ℕ) : GroupCapacity :=
  .new (layout.config (layout.source group))

/-- What an owner counts: its inputs, and those of them on a route by key. -/
structure OwnerUsage where
  inputs : ℕ × ℕ
  keyed : ℕ × ℕ

/-- The writes of `drop` to the counters of the owner. -/
def OwnerUsage.refund (owned : OwnerUsage) (permit : RecordPermit) : Option OwnerUsage := do
  let inputs ← NasaRuntime.refund owned.inputs permit.bytes
  if permit.keyed then
    let keyed ← NasaRuntime.refund owned.keyed permit.bytes
    some ⟨inputs, keyed⟩
  else some ⟨inputs, owned.keyed⟩

structure Capacity where
  process : ℕ × ℕ
  source : ℕ → ℕ × ℕ
  group : ℕ → Usage
  owner : ℕ → OwnerUsage
  live : Multiset RecordPermit
  leaving : Multiset RecordPermit

namespace Capacity

def new : Capacity where
  process := (0, 0)
  source _ := (0, 0)
  group _ := ⟨0, 0, ∅⟩
  owner _ := ⟨(0, 0), (0, 0)⟩
  live := 0
  leaving := 0

/-- `SourceCapacity::available`. -/
def sourceAvailable (config : InputLimits) (source process : ℕ × ℕ) (bytes : ℕ) : Bool :=
  source.1 < config.maxSourcePendingRecords &&
    bytes ≤ config.maxSourcePendingBytes - source.2 &&
    process.1 < config.maxProcessPendingRecords &&
    bytes ≤ config.maxProcessPendingBytes - process.2

/-- `SourceCapacity::reserve`. -/
def reserveSource (layout : Layout) (capacity : Capacity) (source bytes : ℕ) : Option Capacity :=
  if sourceAvailable (layout.config source) (capacity.source source) capacity.process bytes then
    some { capacity with
      source := Function.update capacity.source source (charge (capacity.source source) bytes)
      process := charge capacity.process bytes }
  else none

def reserve (layout : Layout) (capacity : Capacity) (group owner : ℕ) (input : Charge)
    (canReserve : Bool) : Capacity × Option RecordPermit :=
  if !(layout.group group).available (capacity.group group) input canReserve then (capacity, none)
  else
    match capacity.reserveSource layout (layout.source group) input.bytes with
    | none => (capacity, none)
    | some reserved =>
      let permit : RecordPermit := ⟨input, group, owner, false⟩
      let owned := reserved.owner owner
      let owned := { owned with inputs := charge owned.inputs input.bytes }
      ({ reserved with
          group := Function.update reserved.group group ((reserved.group group).charge input)
          owner := Function.update reserved.owner owner owned
          live := permit ::ₘ reserved.live }, some permit)

def markKeyed (capacity : Capacity) (permit : RecordPermit) : Capacity :=
  if permit.keyed then capacity
  else
    let owned := capacity.owner permit.owner
    let owned := { owned with keyed := charge owned.keyed permit.bytes }
    { capacity with
      owner := Function.update capacity.owner permit.owner owned
      live := { permit with keyed := true } ::ₘ capacity.live.erase permit }

/-- The body of `RecordPermit::drop`. -/
def dropRecord (capacity : Capacity) (permit : RecordPermit) : Option Capacity := do
  let usage ← (capacity.group permit.group).refund permit.toCharge
  let owned ← (capacity.owner permit.owner).refund permit
  some { capacity with
    group := Function.update capacity.group permit.group usage
    owner := Function.update capacity.owner permit.owner owned
    live := capacity.live.erase permit
    leaving := permit ::ₘ capacity.leaving }

/-- `SourcePermit::drop`, of the field of a permit. -/
def dropSource (layout : Layout) (capacity : Capacity) (permit : RecordPermit) :
    Option Capacity := do
  let source := layout.source permit.group
  let used ← refund (capacity.source source) permit.bytes
  let process ← refund capacity.process permit.bytes
  some { capacity with
    source := Function.update capacity.source source used
    process
    leaving := capacity.leaving.erase permit }

inductive CapacityOp
  | reserve (group owner : ℕ) (input : Charge) (canReserve : Bool)
  | markKeyed (permit : RecordPermit)
  | dropRecord (permit : RecordPermit)
  | dropSource (permit : RecordPermit)

/-- One step: a request, or something that happens to a permit that exists. -/
def exec (layout : Layout) (capacity : Capacity) : CapacityOp → Capacity
  | .reserve group owner input canReserve =>
    (capacity.reserve layout group owner input canReserve).1
  | .markKeyed permit => if permit ∈ capacity.live then capacity.markKeyed permit else capacity
  | .dropRecord permit =>
    if permit ∈ capacity.live then (capacity.dropRecord permit).getD capacity else capacity
  | .dropSource permit =>
    if permit ∈ capacity.leaving then (capacity.dropSource layout permit).getD capacity
    else capacity

def run (layout : Layout) (ops : List CapacityOp) : Capacity := runFrom (exec layout) new ops

end Capacity

open Function Multiset Option

variable {m m' : Multiset Charge} {input : Charge} {usage : Usage} {partition : PartitionUsage}

/-! ## The usage of a group -/

/-- The entry of a partition with these inputs. -/
def PartitionUsage.Holds (m : Multiset Charge) (partition : PartitionUsage) : Prop :=
  (partition.records, partition.bytes) = tally Charge.bytes m ∧
    Book Charge.key (fun m keyed => keyed = tally Charge.bytes m) m partition.keys

/-- The usage of a group with these inputs. -/
def Usage.Holds (m : Multiset Charge) (usage : Usage) : Prop :=
  (usage.records, usage.bytes) = tally Charge.bytes m ∧
    Book Charge.tp PartitionUsage.Holds m usage.partitions

theorem PartitionUsage.Holds.empty : PartitionUsage.Holds 0 ⟨0, 0, ∅⟩ := ⟨rfl, Book.empty⟩

theorem Usage.Holds.empty : Usage.Holds 0 ⟨0, 0, ∅⟩ := ⟨rfl, Book.empty⟩

theorem PartitionUsage.Holds.charge (h : partition.Holds m) (input : Charge) :
    (partition.charge input).Holds (input ::ₘ m) := by
  obtain ⟨htot, hkeys⟩ := h
  constructor
  · rw [tally_cons, ← htot]
    rfl
  · have hkeyed : (partition.keys.get? input.key).getD (0, 0) =
        tally Charge.bytes (under Charge.key input.key m) := hkeys.entry rfl input.key
    refine hkeys.insert ?_
    rw [tally_cons, hkeyed]

theorem Usage.Holds.charge (h : usage.Holds m) (input : Charge) :
    (usage.charge input).Holds (input ::ₘ m) := by
  obtain ⟨htot, hparts⟩ := h
  constructor
  · rw [tally_cons, ← htot]
    rfl
  · exact hparts.insert ((hparts.entry .empty _).charge input)

theorem PartitionUsage.Holds.refund (h : partition.Holds (input ::ₘ m)) :
    ∃ rest, partition.refund input = some rest ∧ rest.Holds m := by
  obtain ⟨htot, hkeys⟩ := h
  obtain ⟨keyed, hkeyed, rfl⟩ := hkeys.found
  have htot' := refund_tally (w := Charge.bytes) (a := input) (m := m)
  rw [← htot] at htot'
  simp only [PartitionUsage.refund, htot', hkeyed, refund_tally, bind_eq_bind, bind_some]
  refine ⟨_, rfl, rfl, hkeys.replace rfl tally_fst_eq_zero⟩

theorem Usage.Holds.refund (h : usage.Holds (input ::ₘ m)) :
    ∃ rest, usage.refund input = some rest ∧ rest.Holds m := by
  obtain ⟨htot, hparts⟩ := h
  obtain ⟨partition, hpart, hholds⟩ := hparts.found
  obtain ⟨rest, hrest, hholds⟩ := hholds.refund
  have htot' := refund_tally (w := Charge.bytes) (a := input) (m := m)
  rw [← htot] at htot'
  simp only [Usage.refund, htot', hpart, hrest, bind_eq_bind, bind_some]
  refine ⟨_, rfl, rfl, hparts.replace hholds ?_⟩
  have hrec : rest.records = (tally Charge.bytes (under Charge.tp input.tp m)).1 :=
    congrArg Prod.fst hholds.1
  rw [hrec, tally_fst_eq_zero]

/-! ## The limits of a group -/

/-- The inputs are within the limits of the group, of each partition and of each key. -/
structure GroupCapacity.Within (capacity : GroupCapacity) (m : Multiset Charge) : Prop where
  group : tally Charge.bytes m ≤ (capacity.maxRecords, capacity.maxBytes)
  partition : ∀ tp, tally Charge.bytes (under Charge.tp tp m) ≤
    (capacity.maxPartitionRecords, capacity.maxPartitionBytes)
  key : ∀ tp key, tally Charge.bytes (under Charge.key key (under Charge.tp tp m)) ≤
    (capacity.maxKeyRecords, capacity.maxKeyBytes)

namespace GroupCapacity

variable {config : InputLimits} {capacity : GroupCapacity}

theorem Within.mono (h : capacity.Within m') (hle : m ≤ m') : capacity.Within m := by
  constructor
  · exact (tally_le hle).trans h.group
  · intro tp
    exact (tally_le (under_mono hle)).trans (h.partition tp)
  · intro tp key
    exact (tally_le (under_mono (under_mono hle))).trans (h.key tp key)

theorem room_of_available {canReserve : Bool} (h : usage.Holds m)
    (havail : (GroupCapacity.new config).available usage input canReserve = true) :
    let room := fun (account : ℕ × ℕ) (records bytes : ℕ) =>
      account.1 < records ∧ input.bytes ≤ bytes - account.2
    room (tally Charge.bytes m) config.maxGroupProgressRecords config.maxGroupPendingBytes ∧
    room (tally Charge.bytes (under Charge.tp input.tp m))
      config.maxProgressRecords config.maxPartitionPendingBytes ∧
    room (tally Charge.bytes (under Charge.key input.key (under Charge.tp input.tp m)))
      config.maxKeyPendingRecords config.maxKeyPendingBytes := by
  intro room
  obtain ⟨htot, hparts⟩ := h
  have hent := hparts input.tp
  unfold available at havail
  by_cases hgroup : (new config).maxRecords ≤ usage.records ∨
      (new config).maxBytes - usage.bytes < input.bytes
  · rw [if_pos hgroup] at havail
    cases havail
  rw [if_neg hgroup] at havail
  push Not at hgroup
  refine ⟨by rw [← htot]; exact hgroup, ?_⟩
  generalize under Charge.tp input.tp m = inputs, usage.partitions.get? input.tp = found
    at hent havail ⊢
  cases hent with
  | absent =>
    -- no record of the partition yet, so only the bytes were compared
    simp only at havail
    split_ifs at havail with hby
    have hpart := config.positive config.maxProgressRecords (by simp)
    have hkey := config.positive config.maxKeyPendingRecords (by simp)
    simp only [new] at hby
    simp only [room, under_zero, tally_zero]
    omega
  | @present _ partition _ hholds =>
    obtain ⟨hpart, hkeys⟩ := hholds
    have hkeyed : (partition.keys.get? input.key).getD (0, 0) =
        tally Charge.bytes (under Charge.key input.key inputs) := hkeys.entry rfl input.key
    simp only [hkeyed] at havail
    split_ifs at havail with hp hk
    push Not at hp hk
    exact ⟨by rw [← hpart]; exact hp, hk⟩

theorem Within.cons {canReserve : Bool} (h : (GroupCapacity.new config).Within m)
    (hholds : usage.Holds m)
    (havail : (GroupCapacity.new config).available usage input canReserve = true) :
    (GroupCapacity.new config).Within (input ::ₘ m) := by
  obtain ⟨hgroup, hpart, hkey⟩ := room_of_available hholds havail
  constructor
  · rw [tally_cons]
    exact charge_le h.group hgroup.1 hgroup.2
  · intro tp
    by_cases htp : input.tp = tp
    · subst htp
      rw [under_cons_self, tally_cons]
      exact charge_le (h.partition _) hpart.1 hpart.2
    · rw [under_cons_of_ne htp]
      exact h.partition tp
  · intro tp key
    by_cases htp : input.tp = tp
    · subst htp
      rw [under_cons_self]
      by_cases hk : input.key = key
      · subst hk
        rw [under_cons_self, tally_cons]
        exact charge_le (h.key _ _) hkey.1 hkey.2
      · rw [under_cons_of_ne hk]
        exact h.key _ key
    · rw [under_cons_of_ne htp]
      exact h.key tp key

end GroupCapacity

/-! ## The invariant -/

namespace Capacity

/-- The inputs of a group. -/
def inputs (live : Multiset RecordPermit) (group : ℕ) : Multiset Charge :=
  (under RecordPermit.group group live).map RecordPermit.toCharge

/-- The permits that their owners count as keyed. -/
def keyed (live : Multiset RecordPermit) : Multiset RecordPermit := live.filter (·.keyed = true)

/-- The source of a permit. -/
def sourceOf (layout : Layout) (permit : RecordPermit) : ℕ := layout.source permit.group

/-- Every level accounts for its permits, within its limits. The part of a permit that belongs to the
source and the process exists until it has left. -/
structure Balanced (layout : Layout) (capacity : Capacity) : Prop where
  process : capacity.process = tally (·.bytes) (capacity.live + capacity.leaving)
  process_le : ∀ source, capacity.process ≤ ((layout.config source).maxProcessPendingRecords,
    (layout.config source).maxProcessPendingBytes)
  source : Ledger (sourceOf layout) (·.bytes) (capacity.live + capacity.leaving) capacity.source
  source_le : ∀ source, capacity.source source ≤ ((layout.config source).maxSourcePendingRecords,
    (layout.config source).maxSourcePendingBytes)
  group : ∀ group, (capacity.group group).Holds (inputs capacity.live group)
  within : ∀ group, (layout.group group).Within (inputs capacity.live group)
  owner : Ledger RecordPermit.owner (·.bytes) capacity.live (OwnerUsage.inputs ∘ capacity.owner)
  keyed : Ledger RecordPermit.owner (·.bytes) (keyed capacity.live)
    (OwnerUsage.keyed ∘ capacity.owner)

variable {layout : Layout} {capacity : Capacity} {permit : RecordPermit} {group owner : ℕ}
  {live : Multiset RecordPermit}

theorem inputs_cons_self :
    inputs (permit ::ₘ live) permit.group = permit.toCharge ::ₘ inputs live permit.group := by
  rw [inputs, under_cons_self, map_cons, inputs]

theorem inputs_cons_of_ne (h : permit.group ≠ group) :
    inputs (permit ::ₘ live) group = inputs live group := by
  rw [inputs, under_cons_of_ne h, inputs]

theorem inputs_swap {permit' : RecordPermit} (hgroup : permit'.group = permit.group)
    (hcharge : permit'.toCharge = permit.toCharge) :
    inputs (permit' ::ₘ live) group = inputs (permit ::ₘ live) group := by
  by_cases hg : permit.group = group
  · subst hg
    rw [inputs_cons_self, ← hgroup, inputs_cons_self, hcharge]
  · rw [inputs_cons_of_ne hg, inputs_cons_of_ne (hgroup ▸ hg)]

theorem keyed_update (owners : ℕ → OwnerUsage) (owner : ℕ) (inputs : ℕ × ℕ) :
    OwnerUsage.keyed ∘ update owners owner ⟨inputs, (owners owner).keyed⟩ =
      OwnerUsage.keyed ∘ owners := by
  rw [comp_update]
  exact update_eq_self owner (OwnerUsage.keyed ∘ owners)

/-- A request is refused and nothing changes, or it is admitted and every level stays balanced. -/
theorem reserve_spec (h : capacity.Balanced layout) (group owner : ℕ) (input : Charge)
    (canReserve : Bool) :
    capacity.reserve layout group owner input canReserve = (capacity, none) ∨
      ∃ capacity', capacity.reserve layout group owner input canReserve =
        (capacity', some ⟨input, group, owner, false⟩) ∧ capacity'.Balanced layout := by
  unfold reserve
  by_cases havail : (layout.group group).available (capacity.group group) input canReserve = true
  swap
  · left
    simp [havail]
  by_cases hsrc : sourceAvailable (layout.config (layout.source group))
      (capacity.source (layout.source group)) capacity.process input.bytes = true
  swap
  · left
    simp [havail, reserveSource, hsrc]
  right
  simp only [havail, reserveSource, hsrc, Bool.not_true, Bool.false_eq_true, ↓reduceIte]
  refine ⟨_, rfl, ?_⟩
  simp only [sourceAvailable, Bool.and_eq_true, decide_eq_true_eq] at hsrc
  obtain ⟨⟨⟨hsourc, hsourceB⟩, hproc⟩, hproce⟩ := hsrc
  have hsourceL := h.source.charge ⟨input, group, owner, false⟩
  constructor
  · simp only [cons_add, tally_cons, h.process]
  · intro source
    obtain ⟨hrec, hby⟩ := layout.agree source (layout.source group)
    refine charge_le (h.process_le source) ?_ ?_
    · rwa [hrec]
    · rwa [hby]
  · simp only [cons_add]
    exact hsourceL
  · intro source
    by_cases hs : source = layout.source group
    · subst hs
      simp only [update_self]
      exact charge_le (h.source_le _) hsourc hsourceB
    · simp only [update_of_ne hs]
      exact h.source_le source
  · intro group'
    by_cases hg : group = group'
    · subst hg
      simp only [update_self]
      rw [inputs_cons_self]
      exact (h.group group).charge input
    · simp only [update_of_ne (Ne.symm hg)]
      rw [inputs_cons_of_ne hg]
      exact h.group group'
  · intro group'
    by_cases hg : group = group'
    · subst hg
      rw [inputs_cons_self]
      exact (h.within group).cons (h.group group) havail
    · rw [inputs_cons_of_ne hg]
      exact h.within group'
  · rw [comp_update]
    exact h.owner.charge ⟨input, group, owner, false⟩
  · rw [keyed_update, Capacity.keyed, filter_cons_of_neg _ (by simp)]
    exact h.keyed

theorem owner_refund {owners : ℕ → OwnerUsage}
    (hinp : Ledger RecordPermit.owner (·.bytes) (permit ::ₘ live) (OwnerUsage.inputs ∘ owners))
    (hkeyed : Ledger RecordPermit.owner (·.bytes) (keyed (permit ::ₘ live))
      (OwnerUsage.keyed ∘ owners)) :
    ∃ owned, (owners permit.owner).refund permit = some owned ∧
      Ledger RecordPermit.owner (·.bytes) live
        (OwnerUsage.inputs ∘ update owners permit.owner owned) ∧
      Ledger RecordPermit.owner (·.bytes) (keyed live)
        (OwnerUsage.keyed ∘ update owners permit.owner owned) := by
  obtain ⟨href, hledg⟩ := hinp.refund
  rw [comp_apply] at href
  cases hflag : permit.keyed with
  | false =>
    rw [keyed, filter_cons_of_neg _ (by simp [hflag])] at hkeyed
    simp only [OwnerUsage.refund, href, hflag, bind_eq_bind, bind_some,
      Bool.false_eq_true, ↓reduceIte]
    refine ⟨_, rfl, ?_, ?_⟩
    · rwa [comp_update]
    · rwa [keyed_update]
  | true =>
    rw [keyed, filter_cons_of_pos _ (by simp [hflag])] at hkeyed
    obtain ⟨hrefu, hledge⟩ := hkeyed.refund
    rw [comp_apply] at hrefu
    simp only [OwnerUsage.refund, href, hrefu, hflag, bind_eq_bind, bind_some, ↓reduceIte]
    refine ⟨_, rfl, ?_, ?_⟩
    · rwa [comp_update]
    · rwa [comp_update]

theorem dropRecord_spec (h : capacity.Balanced layout) (hmem : permit ∈ capacity.live) :
    ∃ capacity', capacity.dropRecord permit = some capacity' ∧ capacity'.Balanced layout ∧
      capacity.live = permit ::ₘ capacity'.live ∧
      capacity'.leaving = permit ::ₘ capacity.leaving := by
  obtain ⟨live, hlive⟩ := exists_cons_of_mem hmem
  have her : capacity.live.erase permit = live := by rw [hlive, erase_cons_head]
  -- the permit goes from one multiset to the other
  have hheld : live + permit ::ₘ capacity.leaving = capacity.live + capacity.leaving := by
    rw [hlive, add_cons, cons_add]
  have hgroup := h.group permit.group
  rw [hlive, inputs_cons_self] at hgroup
  obtain ⟨usage, hus, hholds⟩ := hgroup.refund
  have hinp := h.owner
  have hkeyed := h.keyed
  rw [hlive] at hinp hkeyed
  obtain ⟨owned, hown, hinp, hkeyed⟩ := owner_refund hinp hkeyed
  simp only [dropRecord, hus, hown, her, bind_eq_bind, bind_some]
  refine ⟨_, rfl, ?_, hlive, rfl⟩
  constructor
  · simp only [hheld, h.process]
  · exact h.process_le
  · simp only [hheld]
    exact h.source
  · exact h.source_le
  · intro group
    by_cases hg : permit.group = group
    · subst hg
      simpa only [update_self] using hholds
    · have hoth := h.group group
      rw [hlive, inputs_cons_of_ne hg] at hoth
      simpa only [update_of_ne (Ne.symm hg)] using hoth
  · intro group
    refine (h.within group).mono ?_
    rw [hlive]
    exact map_le_map (under_mono (le_cons_self _ _))
  · exact hinp
  · exact hkeyed

theorem dropSource_spec (h : capacity.Balanced layout) (hmem : permit ∈ capacity.leaving) :
    ∃ capacity', capacity.dropSource layout permit = some capacity' ∧
      capacity'.Balanced layout ∧ capacity'.live = capacity.live ∧
      capacity.leaving = permit ::ₘ capacity'.leaving := by
  obtain ⟨leaving, hleav⟩ := exists_cons_of_mem hmem
  have her : capacity.leaving.erase permit = leaving := by
    rw [hleav, erase_cons_head]
  have hheld : capacity.live + capacity.leaving = permit ::ₘ (capacity.live + leaving) := by
    rw [hleav, add_cons]
  have hproce := h.process
  have hsrc := h.source
  rw [hheld] at hproce hsrc
  obtain ⟨hused, hledg⟩ := hsrc.refund
  have hproc : refund capacity.process permit.bytes =
      some (tally (·.bytes) (capacity.live + leaving)) := by rw [hproce]; exact refund_tally
  have hle : capacity.live + leaving ≤ permit ::ₘ (capacity.live + leaving) := le_cons_self _ _
  simp only [sourceOf] at hused
  simp only [dropSource, hused, hproc, her, bind_eq_bind, bind_some]
  refine ⟨_, rfl, ?_, rfl, hleav⟩
  constructor
  · rfl
  · intro source
    refine le_trans ?_ (h.process_le source)
    rw [hproce]
    exact tally_le hle
  · exact hledg
  · intro source
    refine (hledg source).le.trans (le_trans ?_ (h.source_le source))
    rw [hsrc source]
    exact tally_le (under_mono hle)
  · exact h.group
  · exact h.within
  · exact h.owner
  · exact h.keyed

theorem markKeyed_spec (h : capacity.Balanced layout) (hmem : permit ∈ capacity.live) :
    (capacity.markKeyed permit).Balanced layout := by
  unfold markKeyed
  cases hflag : permit.keyed with
  | true => exact h
  | false =>
    obtain ⟨live, hlive⟩ := exists_cons_of_mem hmem
    have her : capacity.live.erase permit = live := by rw [hlive, erase_cons_head]
    obtain ⟨hproce, hproc, hsrc, hsourc, hgroup, hwith, hown, hkeyed⟩ := h
    rw [hlive] at hproce hsrc hgroup hwith hown hkeyed
    simp only [her, Bool.false_eq_true, ↓reduceIte]
    -- the marked permit has the same group, source, owner and charge
    have hinp : ∀ group, inputs ({ permit with keyed := true } ::ₘ live) group =
        inputs (permit ::ₘ live) group := fun group => inputs_swap rfl rfl
    have hmark : Capacity.keyed ({ permit with keyed := true } ::ₘ live) =
        { permit with keyed := true } ::ₘ Capacity.keyed live :=
      filter_cons_of_pos live rfl
    constructor
    · simpa only [cons_add, tally_cons] using hproce
    · exact hproc
    · rw [cons_add] at hsrc ⊢
      exact hsrc.swap rfl rfl
    · exact hsourc
    · intro group
      rw [hinp]
      exact hgroup group
    · intro group
      rw [hinp]
      exact hwith group
    · rw [comp_update]
      erw [update_eq_self]
      exact hown.swap rfl rfl
    · rw [keyed, filter_cons_of_neg _ (by simp [hflag])] at hkeyed
      rw [comp_update, hmark]
      exact hkeyed.charge { permit with keyed := true }

/-! ## Every run -/

theorem Balanced.exec (h : capacity.Balanced layout) (op : CapacityOp) :
    (capacity.exec layout op).Balanced layout := by
  cases op with
  | reserve group owner input canReserve =>
    rcases reserve_spec h group owner input canReserve with href | ⟨capacity', hadm, hnext⟩
    · simpa only [Capacity.exec, href] using h
    · simpa only [Capacity.exec, hadm] using hnext
  | markKeyed permit =>
    simp only [Capacity.exec]
    split_ifs with hmem
    · exact markKeyed_spec h hmem
    · exact h
  | dropRecord permit =>
    simp only [Capacity.exec]
    split_ifs with hmem
    · obtain ⟨capacity', hdropp, hnext, -⟩ := dropRecord_spec h hmem
      rwa [hdropp]
    · exact h
  | dropSource permit =>
    simp only [Capacity.exec]
    split_ifs with hmem
    · obtain ⟨capacity', hdropp, hnext, -⟩ := dropSource_spec h hmem
      rwa [hdropp]
    · exact h

theorem balanced_run (layout : Layout) (ops : List CapacityOp) :
    (run layout ops).Balanced layout := by
  refine inv_runFrom_all (fun capacity op h => h.exec op) ?_ ops
  constructor
  · rfl
  · exact fun _ => ⟨Nat.zero_le _, Nat.zero_le _⟩
  · exact fun _ => rfl
  · exact fun _ => ⟨Nat.zero_le _, Nat.zero_le _⟩
  · exact fun _ => .empty
  · intro group
    constructor
    · exact ⟨Nat.zero_le _, Nat.zero_le _⟩
    · exact fun _ => ⟨Nat.zero_le _, Nat.zero_le _⟩
    · exact fun _ _ => ⟨Nat.zero_le _, Nat.zero_le _⟩
  · exact fun _ => rfl
  · exact fun _ => rfl

end Capacity

/-! ## The levels -/

/-- A level of the hierarchy. -/
inductive Level
  | process
  | source (source : ℕ)
  | group (group : ℕ)
  | partition (group : ℕ) (tp : Tp)
  | key (group : ℕ) (tp : Tp) (key : InputKey)

namespace Level

/-- The records and bytes that the code has stored, none where it has no entry. -/
def stored (capacity : Capacity) : Level → ℕ × ℕ
  | .process => capacity.process
  | .source s => capacity.source s
  | .group g => ((capacity.group g).records, (capacity.group g).bytes)
  | .partition g tp =>
    let entry := ((capacity.group g).partitions.get? tp).getD ⟨0, 0, ∅⟩
    (entry.records, entry.bytes)
  | .key g tp k =>
    let entry := ((capacity.group g).partitions.get? tp).getD ⟨0, 0, ∅⟩
    (entry.keys.get? k).getD (0, 0)

/-- The most records and bytes it may have. -/
def limit (layout : Layout) : Level → ℕ × ℕ
  | .process => ((layout.config 0).maxProcessPendingRecords, (layout.config 0).maxProcessPendingBytes)
  | .source s => ((layout.config s).maxSourcePendingRecords, (layout.config s).maxSourcePendingBytes)
  | .group g => ((layout.group g).maxRecords, (layout.group g).maxBytes)
  | .partition g _ => ((layout.group g).maxPartitionRecords, (layout.group g).maxPartitionBytes)
  | .key g _ _ => ((layout.group g).maxKeyRecords, (layout.group g).maxKeyBytes)

/-- The permits that belong to it. -/
def permits (layout : Layout) (capacity : Capacity) : Level → Multiset RecordPermit
  | .process => capacity.live + capacity.leaving
  | .source s => under (Capacity.sourceOf layout) s (capacity.live + capacity.leaving)
  | .group g => under (·.group) g capacity.live
  | .partition g tp => under (·.tp) tp (under (·.group) g capacity.live)
  | .key g tp k => under (·.key) k (under (·.tp) tp (under (·.group) g capacity.live))

variable {layout : Layout} {capacity : Capacity}

theorem stored_eq (h : capacity.Balanced layout) (level : Level) :
    level.stored capacity = tally (·.bytes) (level.permits layout capacity) := by
  cases level with
  | process => exact h.process
  | source source => exact h.source source
  | group group => exact (h.group group).1.trans (tally_map _ _)
  | partition group tp =>
    have hent := (h.group group).2.entry .empty tp
    rw [Capacity.inputs, under_map] at hent
    exact hent.1.trans (tally_map _ _)
  | key group tp key =>
    have hent := (h.group group).2.entry .empty tp
    rw [Capacity.inputs, under_map] at hent
    have hkeyed := hent.2.entry rfl key
    rw [under_map] at hkeyed
    exact hkeyed.trans (tally_map _ _)

theorem stored_le (h : capacity.Balanced layout) (level : Level) :
    level.stored capacity ≤ level.limit layout := by
  cases level with
  | process => exact h.process_le 0
  | source source => exact h.source_le source
  | group group => exact (h.group group).1.trans_le (h.within group).group
  | partition group tp =>
    have hent := (h.group group).2.entry .empty tp
    exact hent.1.trans_le ((h.within group).partition tp)
  | key group tp key =>
    have hent := (h.group group).2.entry .empty tp
    exact (hent.2.entry rfl key).trans_le ((h.within group).key tp key)

end Level

namespace Capacity

/-- **Levels.** -/
theorem levels_run (layout : Layout) (ops : List CapacityOp) :
    (∀ level : Level, level.stored (run layout ops) =
      tally (·.bytes) (level.permits layout (run layout ops))) ∧
    (∀ level : Level, level.stored (run layout ops) ≤ level.limit layout) ∧
    (∀ group tp partition, ((run layout ops).group group).partitions.get? tp = some partition →
      0 < partition.records ∧
      ∀ key keyed, partition.keys.get? key = some keyed → 0 < keyed.1) ∧
    (∀ permit ∈ (run layout ops).live, ∃ after, (run layout ops).dropRecord permit = some after ∧
      (run layout ops).live = permit ::ₘ after.live ∧
      after.leaving = permit ::ₘ (run layout ops).leaving) ∧
    (∀ permit ∈ (run layout ops).leaving, ∃ after,
      (run layout ops).dropSource layout permit = some after ∧
      after.live = (run layout ops).live ∧ (run layout ops).leaving = permit ::ₘ after.leaving) ∧
    ∀ group owner input canReserve,
      ((run layout ops).reserve layout group owner input canReserve).2 = none →
      ((run layout ops).reserve layout group owner input canReserve).1 = run layout ops := by
  have h := balanced_run layout ops
  generalize run layout ops = capacity at h ⊢
  refine ⟨Level.stored_eq h, Level.stored_le h, ?_, ?_, ?_, ?_⟩
  · intro group tp partition hpart
    obtain ⟨hne, htot, hkeys⟩ := (h.group group).2.of_get? hpart
    have hrec : partition.records = (tally Charge.bytes _).1 := congrArg Prod.fst htot
    refine ⟨Nat.pos_of_ne_zero fun hzero => hne (tally_fst_eq_zero.1 (hrec ▸ hzero)), ?_⟩
    intro key keyed hkeyed
    obtain ⟨hne, rfl⟩ := hkeys.of_get? hkeyed
    exact Nat.pos_of_ne_zero fun hzero => hne (tally_fst_eq_zero.1 hzero)
  · intro permit hmem
    obtain ⟨capacity', hdropp, -, hperm⟩ := dropRecord_spec h hmem
    exact ⟨capacity', hdropp, hperm⟩
  · intro permit hmem
    obtain ⟨capacity', hdropp, -, hperm⟩ := dropSource_spec h hmem
    exact ⟨capacity', hdropp, hperm⟩
  · intro group owner input canReserve href
    rcases reserve_spec h group owner input canReserve with hsame | ⟨capacity', hadm, -⟩
    · rw [hsame]
    · rw [hadm] at href
      cases href

/-- Two sources with small limits. The groups `0` and `1` belong to the first one. -/
def twoSources : Layout where
  config _ := ⟨3, 100, 2, 80, 2, 50, 1, 40, 1, 40, by decide⟩
  agree _ _ := ⟨rfl, rfl⟩
  source group := group / 2

/-- Three groups fill the process. A second record of a partition is refused, and the first one is
let go by the group but not yet by the source. -/
def threeGroups : List CapacityOp :=
  [.reserve 0 0 ⟨⟨"orders", 0⟩, ⟨some [1]⟩, 30⟩ true,
    .reserve 0 0 ⟨⟨"orders", 0⟩, ⟨some [2]⟩, 10⟩ true,
    .reserve 1 1 ⟨⟨"orders", 0⟩, ⟨none⟩, 40⟩ true,
    .reserve 2 2 ⟨⟨"payments", 1⟩, ⟨some [1]⟩, 20⟩ true,
    .dropRecord ⟨⟨⟨"orders", 0⟩, ⟨some [1]⟩, 30⟩, 0, 0, false⟩]

/-- The process still counts three permits, so the group that has room again is refused. -/
theorem levels_run_threeGroups :
    Level.process.stored (run twoSources threeGroups) = (3, 90) ∧
    (Level.group 0).stored (run twoSources threeGroups) = (0, 0) ∧
    (Level.key 1 ⟨"orders", 0⟩ ⟨none⟩).stored (run twoSources threeGroups) ≤ (1, 40) ∧
    (∃ partition, ((run twoSources threeGroups).group 1).partitions.get? ⟨"orders", 0⟩ =
      some partition ∧ 0 < partition.records ∧
      ∃ keyed, partition.keys.get? ⟨none⟩ = some keyed ∧ 0 < keyed.1) ∧
    (∃ after, (run twoSources threeGroups).dropRecord
      ⟨⟨⟨"orders", 0⟩, ⟨none⟩, 40⟩, 1, 1, false⟩ = some after ∧
        (run twoSources threeGroups).live = ⟨⟨⟨"orders", 0⟩, ⟨none⟩, 40⟩, 1, 1, false⟩ ::ₘ after.live) ∧
    (∃ after, (run twoSources threeGroups).dropSource twoSources
      ⟨⟨⟨"orders", 0⟩, ⟨some [1]⟩, 30⟩, 0, 0, false⟩ = some after ∧
        after.live = (run twoSources threeGroups).live) ∧
    ((run twoSources threeGroups).reserve twoSources 0 0 ⟨⟨"orders", 0⟩, ⟨some [1]⟩, 5⟩ true).1 =
      run twoSources threeGroups := by
  obtain ⟨hsum, hlim, hents, hrec, hsrc, href⟩ := levels_run twoSources threeGroups
  refine ⟨(hsum _).trans (by decide +kernel), (hsum _).trans (by decide +kernel), hlim _, ?_,
    (hrec _ (by decide +kernel)).imp fun _ h => ⟨h.1, h.2.1⟩,
    (hsrc _ (by decide +kernel)).imp fun _ h => ⟨h.1, h.2.1⟩, href 0 0 _ true (by decide +kernel)⟩
  obtain ⟨hreco, hkeys⟩ := hents 1 ⟨"orders", 0⟩
    ⟨1, 40, (∅ : Dict InputKey (ℕ × ℕ)).insert ⟨none⟩ (1, 40)⟩ (by decide +kernel)
  exact ⟨_, by decide +kernel, hreco, (1, 40), by decide +kernel, hkeys ⟨none⟩ _ (by decide +kernel)⟩

/-- **Owners.** -/
theorem owners_run (layout : Layout) (ops : List CapacityOp) (owner : ℕ) :
    ((run layout ops).owner owner).inputs =
      tally (·.bytes) (under (·.owner) owner (run layout ops).live) ∧
    ((run layout ops).owner owner).keyed =
      tally (·.bytes) (under (·.owner) owner (keyed (run layout ops).live)) ∧
    ∀ permit ∈ (run layout ops).live, ∃ after, (run layout ops).dropRecord permit = some after ∧
      (run layout ops).live = permit ::ₘ after.live := by
  have h := balanced_run layout ops
  refine ⟨h.owner owner, h.keyed owner, fun permit hmem => ?_⟩
  obtain ⟨after, hdropp, -, hlive, -⟩ := dropRecord_spec h hmem
  exact ⟨after, hdropp, hlive⟩

end Capacity

end NasaRuntime.Nafka
