import Mathlib.Data.Finset.Basic
import NasaRuntime.Lib.Dict
import NasaRuntime.Lib.Run
import NasaRuntime.Nafka.Types

/-!
# The pool of handler threads

The owners of a consumer group share one pool of threads. A call needs a permit, which it holds until
its closure has really exited; a permit can outlive the assignment, and the owner, it was taken for.
Beside the number of permits the pool keeps, for each partition, an *order domain*: the keys of the
calls that run, or one call without a key, which has the partition for itself.

`reserve` and the `drop` of a permit run under the lock of the pool, so they are the steps of the
machine. `live` is not a field of the source: it is the permits that exist, which the source knows by
ownership. A permit carries the owner whose `active` counter it counts in; that counter is atomic and
would wrap around below zero, which it never does (`active_run`).

**Theorem (`admission_run`).** After every sequence of requests and drops: the count is the number of
permits and within the capacity; every domain fits the permits of its partition, and is there exactly
while there are some; a refused request changes nothing; the drop of a permit does not panic.

**Theorem (`active_run`).** The counter of an owner is the number of its permits, so an owner that
waits for zero waits for all of its calls.
-/

namespace NasaRuntime.Nafka

/-- The calls of a partition that have not exited. -/
structure Domain where
  exclusive : Bool
  keys : Finset Bytes
deriving DecidableEq

namespace Domain

/-- A call with the key has to wait. -/
def blocks (state : Domain) (key : Option Bytes) : Bool :=
  state.exclusive || key.isNone || key.any (· ∈ state.keys)

def enter (state : Domain) : Option Bytes → Domain
  | some key => { state with keys := insert key state.keys }
  | none => { state with exclusive := true }

def leave (state : Domain) : Option Bytes → Domain
  | some key => { state with keys := state.keys.erase key }
  | none => { state with exclusive := false }

def isFree (state : Domain) : Bool := !state.exclusive && state.keys = ∅

end Domain

/-- The permit of one call: its owner, and the partition and key it orders, if it orders any. -/
structure HandlerPermit where
  owner : ℕ
  domain : Option (Tp × Option Bytes)
deriving DecidableEq

/-- The key under which a permit counts in a partition. -/
def HandlerPermit.keyIn (permit : HandlerPermit) (tp : Tp) : Option (Option Bytes) :=
  permit.domain.bind fun domain => if domain.1 = tp then some domain.2 else none

/-- The keys of those of the permits that count in a partition. -/
def heldBy (permits : Multiset HandlerPermit) (tp : Tp) : Multiset (Option Bytes) :=
  permits.filterMap (·.keyIn tp)

structure HandlerPool where
  capacity : ℕ
  reserved : ℕ
  domains : Dict Tp Domain
  /-- The permits of each owner that count against its shutdown. -/
  active : ℕ → ℕ
  live : Multiset HandlerPermit

namespace HandlerPool

def new (capacity : ℕ) : HandlerPool := ⟨capacity, 0, ∅, fun _ => 0, 0⟩

/-- The last lines of `reserve`. -/
def grant (pool : HandlerPool) (permit : HandlerPermit) : HandlerPool :=
  { pool with
    reserved := pool.reserved + 1
    active := Function.update pool.active permit.owner (pool.active permit.owner + 1)
    live := permit ::ₘ pool.live }

def reserve (pool : HandlerPool) (owner : ℕ) (domain : Option (Tp × Option Bytes)) :
    HandlerPool × Option HandlerPermit :=
  if pool.capacity ≤ pool.reserved then (pool, none)
  else
    match domain with
    | none => (pool.grant ⟨owner, none⟩, some ⟨owner, none⟩)
    | some (tp, key) =>
      if (pool.domains.get? tp).any (·.blocks key) then (pool, none)
      else
        let state := ((pool.domains.get? tp).getD ⟨false, ∅⟩).enter key
        let pool := { pool with domains := pool.domains.insert tp state }
        (pool.grant ⟨owner, some (tp, key)⟩, some ⟨owner, some (tp, key)⟩)

/-- The last lines of the `drop` of a permit. -/
def retire (pool : HandlerPool) (permit : HandlerPermit) : HandlerPool :=
  { pool with
    reserved := pool.reserved - 1
    active := Function.update pool.active permit.owner (pool.active permit.owner - 1)
    live := pool.live.erase permit }

/-- The `drop` of a permit. There is no result if it panics: at the subtraction, or because the order
domain of the permit is not there. -/
def release (pool : HandlerPool) (permit : HandlerPermit) : Option HandlerPool :=
  if pool.reserved = 0 then none
  else
    match permit.domain with
    | none => some (pool.retire permit)
    | some (tp, key) =>
      match pool.domains.get? tp with
      | none => none
      | some state =>
        let state := state.leave key
        let domains :=
          if state.isFree then pool.domains.erase tp else pool.domains.insert tp state
        some (retire { pool with domains } permit)

inductive PoolOp
  | reserve (owner : ℕ) (domain : Option (Tp × Option Bytes))
  | drop (permit : HandlerPermit)

/-- One step: a request, or the end of a permit that exists. -/
def exec (pool : HandlerPool) : PoolOp → HandlerPool
  | .reserve owner domain => (pool.reserve owner domain).1
  | .drop permit => if permit ∈ pool.live then (pool.release permit).getD pool else pool

def run (capacity : ℕ) (ops : List PoolOp) : HandlerPool := runFrom exec (new capacity) ops

/-- The keys of the permits of a partition. -/
def held (pool : HandlerPool) (tp : Tp) : Multiset (Option Bytes) := heldBy pool.live tp

end HandlerPool

open Multiset Domain HandlerPermit Dict

variable {key : Option Bytes} {calls : Multiset (Option Bytes)} {domain : Option Domain}

/-! ## Order domains -/

/-- The keys of the calls of a partition, and its order domain. -/
inductive Fits : Multiset (Option Bytes) → Option Domain → Prop
  | free : Fits 0 none
  | exclusive : Fits {none} (some ⟨true, ∅⟩)
  | keyed {keys : Finset Bytes} (hne : keys ≠ ∅) : Fits (keys.val.map some) (some ⟨false, keys⟩)

theorem Fits.enter (h : Fits calls domain) (hfree : domain.any (·.blocks key) = false) :
    Fits (key ::ₘ calls) (some ((domain.getD ⟨false, ∅⟩).enter key)) := by
  cases h with
  | free =>
    cases key with
    | none => exact .exclusive
    | some k => exact .keyed (Finset.singleton_ne_empty k)
  | exclusive => simp [blocks] at hfree
  | @keyed keys hne =>
    cases key with
    | none => simp [blocks] at hfree
    | some k =>
      have hfresh : k ∉ keys := by simpa [blocks] using hfree
      have hcalls : some k ::ₘ keys.val.map some = (insert k keys).val.map some := by
        rw [Finset.insert_val_of_notMem hfresh, map_cons]
      rw [hcalls]
      exact .keyed (Finset.insert_ne_empty k keys)

/-- A call that exits finds its domain, and leaves one that fits the others. -/
theorem Fits.leave (h : Fits (key ::ₘ calls) domain) :
    ∃ state, domain = some state ∧
      Fits calls (if (state.leave key).isFree then none else some (state.leave key)) := by
  generalize hall : key ::ₘ calls = all at h
  cases h with
  | free => exact absurd hall (cons_ne_zero)
  | exclusive =>
    obtain ⟨rfl, rfl⟩ : key = none ∧ calls = 0 := by
      have hkey : key ∈ ({none} : Multiset (Option Bytes)) := hall ▸ mem_cons_self _ _
      obtain rfl := mem_singleton.1 hkey
      exact ⟨rfl, (cons_inj_right none).1 hall⟩
    exact ⟨_, rfl, .free⟩
  | @keyed keys hne =>
    have hmem : key ∈ keys.val.map some := hall ▸ mem_cons_self _ _
    obtain ⟨k, hk, rfl⟩ := mem_map.1 hmem
    -- the other calls have the other keys
    have hcalls : calls = (keys.erase k).val.map some := by
      refine (cons_inj_right (some k)).1 (hall.trans ?_)
      rw [← map_cons, Finset.erase_val, cons_erase hk]
    refine ⟨_, rfl, ?_⟩
    rw [hcalls]
    by_cases hlast : keys.erase k = ∅
    · simp only [isFree, leave, hlast, Bool.not_false, decide_true, Bool.and_self, ↓reduceIte]
      exact .free
    · simp only [isFree, leave, hlast, Bool.not_false, decide_false, Bool.and_false,
        Bool.false_eq_true, ↓reduceIte]
      exact .keyed hlast

/-! ## The invariant -/

namespace HandlerPool

/-- The pool accounts for its permits. -/
structure Accounts (capacity : ℕ) (pool : HandlerPool) : Prop where
  limit : pool.capacity = capacity
  reserved_eq : pool.reserved = pool.live.card
  reserved_le : pool.reserved ≤ capacity
  fits : ∀ tp, Fits (pool.held tp) (pool.domains.get? tp)
  active_eq : ∀ owner, pool.active owner = pool.live.countP (·.owner = owner)

variable {capacity : ℕ} {pool : HandlerPool} {permit : HandlerPermit} {tp : Tp}
  {domains : Dict Tp Domain}
variable {rest : Multiset HandlerPermit}

theorem heldBy_none (hdom : permit.domain = none) (tp : Tp) :
    heldBy (permit ::ₘ rest) tp = heldBy rest tp :=
  filterMap_cons_none _ _ (by simp [keyIn, hdom])

theorem heldBy_self (hdom : permit.domain = some (tp, key)) :
    heldBy (permit ::ₘ rest) tp = key ::ₘ heldBy rest tp :=
  filterMap_cons_some _ _ _ (by simp [keyIn, hdom])

theorem heldBy_of_ne {tp' : Tp} (hdom : permit.domain = some (tp, key)) (hne : tp' ≠ tp) :
    heldBy (permit ::ₘ rest) tp' = heldBy rest tp' :=
  filterMap_cons_none _ _ (by simp [keyIn, hdom, Ne.symm hne])

theorem Accounts.grant (h : pool.Accounts capacity) (hroom : pool.reserved < capacity)
    (hfits : ∀ tp, Fits (heldBy (permit ::ₘ pool.live) tp) (domains.get? tp)) :
    (HandlerPool.grant { pool with domains } permit).Accounts capacity := by
  constructor
  · exact h.limit
  · simp [HandlerPool.grant, h.reserved_eq]
  · exact hroom
  · exact hfits
  · intro owner
    by_cases hown : permit.owner = owner
    · subst hown
      simp [HandlerPool.grant, h.active_eq]
    · simp [HandlerPool.grant, h.active_eq, hown, Ne.symm hown]

theorem Accounts.retire (h : pool.Accounts capacity) (hlive : pool.live = permit ::ₘ rest)
    (hfits : ∀ tp, Fits (heldBy rest tp) (domains.get? tp)) :
    (HandlerPool.retire { pool with domains } permit).Accounts capacity := by
  have her : pool.live.erase permit = rest := by rw [hlive, erase_cons_head]
  have hresv := h.reserved_eq
  rw [hlive, card_cons] at hresv
  constructor
  · exact h.limit
  · simp [HandlerPool.retire, her, hresv]
  · exact (Nat.sub_le _ _).trans h.reserved_le
  · intro tp
    simp only [HandlerPool.retire, held, her]
    exact hfits tp
  · intro owner
    have hact := h.active_eq owner
    rw [hlive, countP_cons] at hact
    by_cases hown : permit.owner = owner
    · subst hown
      simp [HandlerPool.retire, her, hact]
    · simp [HandlerPool.retire, her, hact, hown, Ne.symm hown]

theorem reserve_spec (h : pool.Accounts capacity) (owner : ℕ)
    (domain : Option (Tp × Option Bytes)) :
    pool.reserve owner domain = (pool, none) ∨
      ∃ pool', pool.reserve owner domain = (pool', some ⟨owner, domain⟩) ∧
        pool'.Accounts capacity := by
  unfold reserve
  by_cases hfull : pool.capacity ≤ pool.reserved
  · exact .inl (if_pos hfull)
  rw [if_neg hfull]
  have hroom : pool.reserved < capacity := by
    have := h.limit
    omega
  cases domain with
  | none =>
    refine .inr ⟨_, rfl, h.grant hroom fun tp => ?_⟩
    rw [heldBy_none rfl]
    exact h.fits tp
  | some domain =>
    obtain ⟨tp, key⟩ := domain
    by_cases hblock : (pool.domains.get? tp).any (·.blocks key) = true
    · exact .inl (if_pos hblock)
    · refine .inr ⟨_, if_neg hblock, h.grant hroom fun tp' => ?_⟩
      rw [get?_insert]
      by_cases htp : tp' = tp
      · subst htp
        rw [if_pos rfl, heldBy_self rfl]
        exact (h.fits tp').enter (eq_false_of_ne_true hblock)
      · rw [if_neg htp, heldBy_of_ne rfl htp]
        exact h.fits tp'

theorem release_spec (h : pool.Accounts capacity) (hmem : permit ∈ pool.live) :
    ∃ pool', pool.release permit = some pool' ∧ pool'.Accounts capacity := by
  obtain ⟨rest, hlive⟩ := exists_cons_of_mem hmem
  have hpos : pool.reserved ≠ 0 := by
    rw [h.reserved_eq, hlive, card_cons]
    omega
  have hheld : ∀ tp, pool.held tp = heldBy (permit ::ₘ rest) tp := fun tp => by
    rw [held, hlive]
  unfold release
  rw [if_neg hpos]
  split
  · rename_i hdom
    refine ⟨_, rfl, h.retire hlive fun tp => ?_⟩
    have hfits := h.fits tp
    rwa [hheld, heldBy_none hdom] at hfits
  · rename_i tp key hdom
    have hfits := h.fits tp
    rw [hheld, heldBy_self hdom] at hfits
    obtain ⟨state, hst, hleave⟩ := hfits.leave
    simp only [hst]
    refine ⟨_, rfl, h.retire hlive fun tp' => ?_⟩
    by_cases htp : tp' = tp
    · subst htp
      by_cases hemp : (state.leave key).isFree = true
      · rw [if_pos hemp] at hleave
        rwa [if_pos hemp, get?_erase, if_pos rfl]
      · rw [if_neg hemp] at hleave
        rwa [if_neg hemp, get?_insert, if_pos rfl]
    · have hoth := h.fits tp'
      rw [hheld, heldBy_of_ne hdom htp] at hoth
      split_ifs
      · rwa [get?_erase, if_neg htp]
      · rwa [get?_insert, if_neg htp]

theorem Accounts.exec (h : pool.Accounts capacity) (op : PoolOp) :
    (pool.exec op).Accounts capacity := by
  cases op with
  | reserve owner domain =>
    rcases reserve_spec h owner domain with href | ⟨pool', hadm, hacc⟩
    · simpa only [HandlerPool.exec, href] using h
    · simpa only [HandlerPool.exec, hadm] using hacc
  | drop permit =>
    simp only [HandlerPool.exec]
    split_ifs with hmem
    · obtain ⟨pool', hrel, hacc⟩ := release_spec h hmem
      rwa [hrel]
    · exact h

theorem accounts_run (capacity : ℕ) (ops : List PoolOp) : (run capacity ops).Accounts capacity := by
  refine inv_runFrom_all (fun pool op h => h.exec op) ?_ ops
  constructor
  · rfl
  · rfl
  · exact Nat.zero_le _
  · exact fun _ => .free
  · exact fun _ => rfl

/-! ## Every run -/

/-- **Admission.** -/
theorem admission_run (capacity : ℕ) (ops : List PoolOp) :
    (run capacity ops).reserved = (run capacity ops).live.card ∧
    (run capacity ops).reserved ≤ capacity ∧
    (∀ tp state, (run capacity ops).domains.get? tp = some state →
      (state.exclusive = true ∧ state.keys = ∅ ∧ (run capacity ops).held tp = {none}) ∨
      (state.exclusive = false ∧ state.keys ≠ ∅ ∧
        (run capacity ops).held tp = state.keys.val.map some)) ∧
    (∀ tp, (run capacity ops).held tp = 0 → (run capacity ops).domains.get? tp = none) ∧
    (∀ owner domain, ((run capacity ops).reserve owner domain).2 = none →
      ((run capacity ops).reserve owner domain).1 = run capacity ops) ∧
    ∀ permit ∈ (run capacity ops).live, ((run capacity ops).release permit).isSome = true := by
  have hacc := accounts_run capacity ops
  generalize run capacity ops = pool at hacc ⊢
  refine ⟨hacc.reserved_eq, hacc.reserved_le, ?_, ?_, ?_, ?_⟩
  · intro tp state hst
    have hfits := hacc.fits tp
    rw [hst] at hfits
    generalize pool.held tp = calls at hfits ⊢
    cases hfits with
    | exclusive => exact .inl ⟨rfl, rfl, rfl⟩
    | keyed hne => exact .inr ⟨rfl, hne, rfl⟩
  · intro tp hnone
    have hfits := hacc.fits tp
    rw [hnone] at hfits
    generalize hcalls : (0 : Multiset (Option Bytes)) = calls at hfits
    generalize pool.domains.get? tp = domain at hfits ⊢
    cases hfits with
    | free => rfl
    | exclusive => cases singleton_ne_zero none hcalls.symm
    | keyed hne => exact absurd (map_eq_zero.1 hcalls.symm) (by simpa using hne)
  · intro owner domain href
    rcases reserve_spec hacc owner domain with hsame | ⟨pool', hadm, -⟩
    · rw [hsame]
    · rw [hadm] at href
      cases href
  · intro permit hmem
    obtain ⟨pool', hrel, -⟩ := release_spec hacc hmem
    rw [hrel]
    rfl

/-- Two keyed calls and a preparation without a domain fill the pool. -/
def threeCalls : List PoolOp :=
  [.reserve 0 (some (⟨"orders", 0⟩, some [1])), .reserve 1 (some (⟨"orders", 0⟩, some [2])),
    .reserve 1 (some (⟨"orders", 0⟩, none)), .reserve 0 none]

/-- The partition is shared by the two keys, the call without a key was refused and so is any
other. -/
theorem admission_run_threeCalls :
    (run 3 threeCalls).held ⟨"orders", 0⟩ = ({[2], [1]} : Finset Bytes).val.map some ∧
    (run 3 threeCalls).domains.get? ⟨"payments", 0⟩ = none ∧
    ((run 3 threeCalls).reserve 0 none).1 = run 3 threeCalls ∧
    ((run 3 threeCalls).release ⟨1, some (⟨"orders", 0⟩, some [2])⟩).isSome = true := by
  obtain ⟨-, -, hdom, habs, href, hrel⟩ := admission_run 3 threeCalls
  refine ⟨?_, habs _ (by decide +kernel), href 0 none (by decide +kernel),
    hrel _ (by decide +kernel)⟩
  rcases hdom ⟨"orders", 0⟩ ⟨false, {[2], [1]}⟩ (by decide +kernel) with ⟨h, -⟩ | ⟨-, -, hkeys⟩
  · cases h
  · exact hkeys

/-- **Shutdown.** -/
theorem active_run (capacity : ℕ) (ops : List PoolOp) (owner : ℕ) :
    (run capacity ops).active owner = (run capacity ops).live.countP (·.owner = owner) :=
  (accounts_run capacity ops).active_eq owner

end HandlerPool

end NasaRuntime.Nafka
