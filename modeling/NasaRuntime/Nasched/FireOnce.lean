import Mathlib.Data.Nat.Count
import Mathlib.Order.Bounds.Basic
import NasaRuntime.Lib.Run

/-!
# The misfire sweep and the claims of fire times

The misfire sweep asks a schedule for its latest time that is not after the clock. The cron iterator
only runs forwards, so the search scans a window that ends at the clock, and doubles it while it is
empty. A scan gives up after 100,001 times and takes the last one it has read, so the answer is the
latest time exactly when the first window that is not empty holds no more than that.

The nodes of a cluster compute nominal fire times from their own clocks, in the driver of a task and
in the misfire sweep, and spawn guarded triggers. A trigger claims its nominal time in the fire log,
which the nodes share, and runs the task if it gets it.

**Theorem (`claims_increase`).** The times that are claimed for a task increase, whatever the clocks
and the leaders of the nodes are, so that none is run twice. This needs that the difference of the
sweep fits into 64 bits: if it wraps, then every claim is stale.
-/

namespace NasaRuntime.Nasched

/-- A set of times, in milliseconds. The iterator goes through them in order. -/
abbrev Cron := ℤ → Bool

/-- 1830 days. -/
def maxWindow : ℕ := 1830 * 24 * 60 * 60 * 1000

namespace Cron

variable (cron : Cron) (now : ℤ)

/-- The loop over the times of the last `d` milliseconds, with `i` of them read. -/
def scan : ℕ → ℕ → Option ℤ → Option ℤ
  | 0, _, last => last -- The next time is after `now`.
  | d + 1, i, last =>
    if cron (now - d) then
      if i > 100_000 then last else scan d (i + 1) (some (now - d))
    else scan d i last

def search (window : ℕ) (h : 0 < window) : Option ℤ :=
  let last := cron.scan now (window + 1) 0 none
  if last.isSome then last
  else if hmax : maxWindow ≤ window then none
  else search (min (window * 2) maxWindow) (by omega)
termination_by maxWindow - window

def latestBefore : Option ℤ := cron.search now 120_000 (by decide)

/-- The times of the last `d` milliseconds. -/
def recent (d : ℕ) : Set ℤ := {x | cron x ∧ now - d < x ∧ x ≤ now}

/-- How many there are. -/
def held (d : ℕ) : ℕ := Nat.count (fun k : ℕ => cron (now - k)) d

/-- The windows of the search, with the clock's own millisecond. -/
def window (k : ℕ) : ℕ := min (120_000 * 2 ^ k) maxWindow + 1

/-- The first window that is not empty holds no more times than a scan reads. -/
def Sparse : Prop :=
  ∀ k, (∀ j < k, cron.recent now (window j) = ∅) → cron.held now (window k) ≤ 100_001

variable {cron now}

theorem recent_mono {d d' : ℕ} (h : d ≤ d') : cron.recent now d ⊆ cron.recent now d' :=
  fun _ hx => ⟨hx.1, by have := hx.2.1; omega, hx.2.2⟩

theorem recent_succ (d : ℕ) : cron.recent now (d + 1) =
    if cron (now - d) then insert (now - d) (cron.recent now d) else cron.recent now d := by
  ext x
  split_ifs <;> grind [recent]

theorem held_succ (d : ℕ) :
    cron.held now (d + 1) = cron.held now d + if cron (now - d) then 1 else 0 :=
  Nat.count_succ ..

theorem held_of_empty {d : ℕ} (h : cron.recent now d = ∅) : cron.held now d = 0 :=
  (Nat.count_iff_forall_not (p := fun k : ℕ => cron (now - k))).mpr fun k hk hc =>
    Set.notMem_empty (now - k) (h ▸ ⟨hc, by omega, by omega⟩)

theorem recent_zero : cron.recent now 0 = ∅ :=
  Set.eq_empty_of_forall_notMem fun x hx => by have := hx.2; omega

/-- A scan that has read a time takes the latest one exactly when it can read all that follow. -/
theorem scan_some (d i : ℕ) {o : ℤ} (ho : o ≤ now - d) (hi : i ≤ 100_001) :
    ∃ last ∈ insert o (cron.recent now d), cron.scan now d i (some o) = some last ∧
      (IsGreatest (insert o (cron.recent now d)) last ↔ i + cron.held now d ≤ 100_001) := by
  induction d generalizing i o with
  | zero => exact ⟨o, .inl rfl, rfl, by simpa [recent_zero, held] using hi⟩
  | succ d ih =>
    rw [recent_succ, held_succ, scan]
    split_ifs with hc hlast
    · refine ⟨o, .inl rfl, rfl, iff_of_false (fun hg => ?_) (by omega)⟩
      have := hg.2 (.inr (.inl rfl))
      omega
    · obtain ⟨last, hmem, hs, hg⟩ := ih (i + 1) le_rfl (by omega)
      have hle : o ≤ last := by
        obtain rfl | hmem := hmem
        · omega
        · have := hmem.2.1
          omega
      refine ⟨last, .inr hmem, hs, ?_⟩
      rw [add_comm (cron.held now d), ← add_assoc, ← hg]
      simp [IsGreatest, hmem, hle, upperBounds_insert]
    · exact ih i (by omega) hi

theorem scan_none (cron : Cron) (now : ℤ) (d : ℕ) :
    (cron.scan now d 0 none = none ∧ cron.recent now d = ∅) ∨
      ∃ o ∈ cron.recent now d, cron.scan now d 0 none = some o ∧
        (IsGreatest (cron.recent now d) o ↔ cron.held now d ≤ 100_001) := by
  induction d with
  | zero => exact .inl ⟨rfl, recent_zero⟩
  | succ d ih =>
    rw [recent_succ, held_succ, scan, add_comm (cron.held now d)]
    split_ifs with hc h
    · cases h
    · exact .inr (scan_some d 1 le_rfl (by decide))
    · rwa [zero_add]

theorem window_le (k : ℕ) : window k ≤ maxWindow + 1 :=
  Nat.succ_le_succ (min_le_right _ _)

/-- The search answers from the first window that is not empty. -/
theorem search_spec (cron : Cron) (now : ℤ) {w k : ℕ} (hw : 0 < w) (hk : w + 1 = window k)
    (hemp : ∀ j < k, cron.recent now (window j) = ∅) :
    (cron.search now w hw = none ∧ cron.recent now (maxWindow + 1) = ∅) ∨
      ∃ i, (∀ j < i, cron.recent now (window j) = ∅) ∧
        ∃ o ∈ cron.recent now (window i), cron.search now w hw = some o ∧
          (IsGreatest (cron.recent now (window i)) o ↔ cron.held now (window i) ≤ 100_001) := by
  have hfirst := cron.scan_none now (w + 1)
  fun_induction search generalizing k with
  | case1 w hw last =>
    rename_i hlast
    obtain ⟨hnone, -⟩ | h := hfirst
    · simp [last, hnone] at hlast
    · exact .inr ⟨k, hemp, hk ▸ h⟩
  | case2 w hw last hlast =>
    obtain ⟨-, hS⟩ | ⟨o, -, hsome, -⟩ := hfirst
    · have hle := hk.trans_le (window_le k)
      exact .inl ⟨rfl, (show w = maxWindow by omega) ▸ hS⟩
    · simp [last, hsome] at hlast
  | case3 w hw last hlast hmax =>
    rename_i ih
    obtain ⟨-, hS⟩ | ⟨o, -, hsome, -⟩ := hfirst
    · refine ih (k := k + 1) ?_ (fun j hj => ?_) (cron.scan_none _ _)
      · simp only [window, pow_succ] at hk ⊢
        omega
      · obtain hj | rfl := Nat.lt_succ_iff_lt_or_eq.mp hj
        · exact hemp j hj
        · exact hk ▸ hS
    · simp [last, hsome] at hlast

/-- The search finds a time whenever there is one, and it is the latest one exactly when a scan can
read all of the first window that is not empty. -/
theorem latestBefore_greatest_iff (cron : Cron) (now : ℤ) :
    (cron.latestBefore now = none ↔ cron.recent now (maxWindow + 1) = ∅) ∧
      ((∀ o, cron.latestBefore now = some o ↔ IsGreatest (cron.recent now (maxWindow + 1)) o) ↔
        cron.Sparse now) := by
  obtain ⟨hnone, hS⟩ | ⟨i, hemp, o, ho, hsome, hg⟩ :=
    cron.search_spec now (w := 120_000) (k := 0) (by decide) (by decide) nofun
  · rw [latestBefore, hnone, hS]
    refine ⟨by simp, iff_of_true (fun o => ⟨nofun, fun h => h.1.elim⟩) fun k _ => ?_⟩
    exact held_of_empty (Set.subset_eq_empty (recent_mono (window_le k)) hS) ▸ Nat.zero_le _
  · have hiff : IsGreatest (cron.recent now (maxWindow + 1)) o ↔
        IsGreatest (cron.recent now (window i)) o := by
      refine ⟨fun h => ⟨ho, fun x hx => h.2 (recent_mono (window_le i) hx)⟩,
        fun h => ⟨recent_mono (window_le i) ho, fun x hx => ?_⟩⟩
      by_cases hold : now - window i < x
      · exact h.2 ⟨hx.1, hold, hx.2.2⟩
      · exact (not_lt.mp hold).trans ho.2.1.le
    rw [latestBefore, hsome]
    refine ⟨iff_of_false nofun fun h => Set.notMem_empty o (h ▸ recent_mono (window_le i) ho),
      fun h k hk => ?_, fun h o' => ?_⟩
    · obtain hlt | rfl | hgt := lt_trichotomy k i
      · exact held_of_empty (hemp k hlt) ▸ Nat.zero_le _
      · exact hg.mp (hiff.mp ((h o).mp rfl))
      · exact absurd ho (hk i hgt ▸ Set.notMem_empty o)
    · have hmax := hiff.mpr (hg.mpr (h i hemp))
      exact ⟨fun h => by cases h; exact hmax, fun h => congrArg some (hmax.unique h)⟩

/-- Every second of every Thursday and Friday, `* * * * * 4,5` in UTC. -/
def thursdays : Cron := fun t => t % 1000 = 0 ∧ t % 604_800_000 < 172_800_000

/-- On Sunday 1970-01-04 at 10:08:00 the search misses Friday 23:59:59. -/
theorem thursdays_latestBefore :
    thursdays.latestBefore 295_680_000 ≠ some 172_799_000 ∧
      IsGreatest (thursdays.recent 295_680_000 (maxWindow + 1)) 172_799_000 := by
  have hmax : ∀ d, ∀ x ∈ thursdays.recent 295_680_000 d, x ≤ 172_799_000 := by
    intro d x ⟨hx, _, hle⟩
    simp only [thursdays, decide_eq_true_eq] at hx
    omega
  refine ⟨fun h => ?_, ⟨by decide, by decide, by decide⟩, hmax _⟩
  obtain ⟨hnone, -⟩ | ⟨i, -, o, ho, hsome, hg⟩ :=
    thursdays.search_spec 295_680_000 (w := 120_000) (k := 0) (by decide) (by decide) nofun
  · cases hnone.symm.trans h
  · cases hsome.symm.trans h
    -- The window reaches back to Friday, and so to Thursday 13:52:00.
    have hi : 2 ^ 10 < 2 ^ i := by
      have := ho.2.1
      simp only [window] at this
      omega
    have hpow : 2 ^ 11 ≤ 2 ^ i :=
      Nat.pow_le_pow_right (by decide) ((Nat.pow_lt_pow_iff_right (by decide)).mp hi)
    have hheld : 122_880 ≤ thursdays.held 295_680_000 (window i) := by
      rw [held, Nat.count_eq_card_filter_range, ← Finset.card_range 122_880]
      refine Finset.card_le_card_of_injOn (122_881_000 + 1000 * ·) (fun k hk => ?_) fun _ _ _ _ h => ?_
      · simp only [Finset.coe_range, Set.mem_Iio] at hk
        simp [thursdays, window, maxWindow]
        omega
      · dsimp only at h
        omega
    have := hg.mp ⟨ho, hmax _⟩
    omega

end Cron

abbrev TaskId := String

inductive ClusterMode
  | localNode
  | leader
deriving DecidableEq

/-- The gate says whether the node is the leader, if there is one. -/
def shouldRun (gate : Option Bool) : ClusterMode → Bool
  | .localNode => true
  | .leader => gate.getD false

/-- The nominal times around a reading of the clock. -/
structure CronPlan where
  nextAfter : Int64 → Option Int64
  prevBeforeOrEqual : Int64 → Option Int64

structure FireOnceTask where
  id : TaskId
  cluster : ClusterMode
  plan : CronPlan
  sweep : Bool

/-- A call of `fire_once_guarded`. -/
structure Trigger where
  id : TaskId
  scheduledAt : Int64
  staleBefore : Int64
deriving DecidableEq

def fireOnceCronDriver (task : FireOnceTask) (now : Int64) (gate : Option Bool) : Option Trigger :=
  match task.plan.nextAfter now with
  | none => none
  | some next => if shouldRun gate task.cluster then some ⟨task.id, next, next⟩ else none

/-- `last` is what the fire log answers. -/
def misfireSweep (tolerance : Int64) (task : FireOnceTask) (now : Int64) (gate : Option Bool)
    (last : Option (Option Int64)) : Option Trigger :=
  if shouldRun gate .leader then
    match task.plan.prevBeforeOrEqual now, last with
    | some prev, some last =>
      if last.all (· < prev - tolerance) then some ⟨task.id, prev, prev - tolerance⟩ else none
    | _, _ => none
  else none

/-- The trigger is spawned by a driver or a sweep, at some reading of a clock. -/
inductive Spawned (tolerance : Int64) (t : Trigger) : Prop
  | driver {task now gate} : fireOnceCronDriver task now gate = some t → Spawned tolerance t
  | sweep {task now gate last} : task.sweep → misfireSweep tolerance task now gate last = some t →
    Spawned tolerance t

/-- The numbers of the claim script are doubles: `tonumber` rounds, and keeps the order. -/
structure Lua where
  tonumber : Int64 → Int
  mono : ∀ a b, a ≤ b → tonumber a ≤ tonumber b

/-- The script claims a time if there is no claim, or a stale one. -/
def Lua.claims (lua : Lua) (t : Trigger) (cur : Option Int64) : Bool :=
  cur.all (lua.tonumber · < lua.tonumber t.staleBefore)

/-- The fire log, and for every task the times that were claimed and those that it was run for, the
latest first. -/
structure Cluster where
  fireLog : TaskId → Option Int64 := fun _ => none
  claimed : TaskId → List Int64 := fun _ => []
  runs : TaskId → List Int64 := fun _ => []

/-- What becomes of a call of the claim script. -/
inductive Call
  | answered
  | answerLost
  | failed
deriving DecidableEq

/-- The claim script. -/
def Cluster.claim (lua : Lua) (s : Cluster) (t : Trigger) : Cluster :=
  if lua.claims t (s.fireLog t.id) then
    { s with
      fireLog := Function.update s.fireLog t.id (some t.scheduledAt)
      claimed := Function.update s.claimed t.id (t.scheduledAt :: s.claimed t.id) }
  else s

def Cluster.fireOnceGuarded (lua : Lua) (s : Cluster) (t : Trigger) : Call → Cluster
  | .answered =>
    if lua.claims t (s.fireLog t.id) then
      { s.claim lua t with runs := Function.update s.runs t.id (t.scheduledAt :: s.runs t.id) }
    else s
  | .answerLost => s.claim lua t
  | .failed => s

variable {lua : Lua} {tolerance : Int64} {s : Cluster}

/-- A claim overwrites only earlier ones. -/
theorem Lua.claims_lt {t : Trigger} {cur : Int64} (ht : t.staleBefore ≤ t.scheduledAt)
    (h : lua.claims t (some cur)) : cur < t.scheduledAt := by
  by_contra hge
  have hle : t.staleBefore ≤ cur := by
    rw [Int64.lt_iff_toInt_lt] at hge
    rw [Int64.le_iff_toInt_le] at ht ⊢
    omega
  have hkept := lua.mono _ _ hle
  simp [claims, show ¬ lua.tonumber cur < lua.tonumber t.staleBefore by omega] at h

theorem sub_le {a b : Int64} (hb : 0 ≤ b) (h : Int64.minValue.toInt ≤ a.toInt - b.toInt) :
    a - b ≤ a := by
  rw [Int64.le_iff_toInt_le] at hb ⊢
  have ha := a.toInt_lt
  rw [Int64.toInt_sub, Int.bmod_eq_of_le] <;> simp at * <;> omega

/-- What a trigger calls stale is not after its own time. -/
theorem Spawned.stale_le {t : Trigger} (h : Spawned tolerance t) (htol : 0 ≤ tolerance)
    (hfits : t.staleBefore ≠ t.scheduledAt →
      Int64.minValue.toInt ≤ t.scheduledAt.toInt - tolerance.toInt) :
    t.staleBefore ≤ t.scheduledAt := by
  by_cases heq : t.staleBefore = t.scheduledAt
  · exact Int64.le_of_eq heq
  cases h with
  | driver h =>
    unfold fireOnceCronDriver at h
    split at h
    · cases h
    · split_ifs at h
      cases h
      exact absurd rfl heq
  | sweep _ h =>
    unfold misfireSweep at h
    split_ifs at h
    split at h
    · split_ifs at h
      cases h
      exact sub_le htol (hfits heq)
    · cases h

namespace Cluster

structure Increasing (s : Cluster) : Prop where
  claimed : ∀ id, (s.claimed id).Pairwise (· > ·)
  stored : ∀ id, s.fireLog id = (s.claimed id).head?
  runs : ∀ id, (s.runs id).Sublist (s.claimed id)

variable {t : Trigger}

theorem Increasing.lt_of_claims (h : s.Increasing) (ht : t.staleBefore ≤ t.scheduledAt)
    (hclaims : lua.claims t (s.fireLog t.id)) : ∀ cur ∈ s.claimed t.id, cur < t.scheduledAt := by
  have hpairw := h.claimed t.id
  rw [h.stored] at hclaims
  cases hclaim : s.claimed t.id with
  | nil => simp
  | cons last earlier =>
    rw [hclaim] at hclaims hpairw
    have hlt := Lua.claims_lt ht hclaims
    intro cur hcur
    rcases List.mem_cons.1 hcur with rfl | hcur
    · exact hlt
    · exact Int64.lt_trans ((List.pairwise_cons.1 hpairw).1 cur hcur) hlt

/-- A claim, with the run that it allows or without it. -/
theorem Increasing.claim (h : s.Increasing) (ht : t.staleBefore ≤ t.scheduledAt)
    (hclaims : lua.claims t (s.fireLog t.id)) {runs : List Int64}
    (hruns : runs.Sublist (t.scheduledAt :: s.claimed t.id)) :
    { s.claim lua t with runs := Function.update s.runs t.id runs }.Increasing := by
  have hlt := h.lt_of_claims ht hclaims
  simp only [Cluster.claim, hclaims, if_true]
  refine ⟨fun id => ?_, fun id => ?_, fun id => ?_⟩ <;> by_cases hid : id = t.id
  · subst hid
    simpa [h.claimed] using hlt
  · simpa [hid] using h.claimed id
  · simp [hid]
  · simpa [hid] using h.stored id
  · subst hid
    simpa using hruns
  · simpa [hid] using h.runs id

theorem Increasing.fireOnceGuarded (h : s.Increasing) (ht : t.staleBefore ≤ t.scheduledAt)
    (call : Call) : (s.fireOnceGuarded lua t call).Increasing := by
  by_cases hclaims : lua.claims t (s.fireLog t.id)
  · cases call with
    | answered =>
      simpa [Cluster.fireOnceGuarded, hclaims] using h.claim ht hclaims ((h.runs _).cons_cons _)
    | answerLost =>
      have hclaim := h.claim ht hclaims ((h.runs _).cons _)
      simp only [Function.update_eq_self] at hclaim
      simpa [Cluster.fireOnceGuarded, Cluster.claim, hclaims] using hclaim
    | failed => exact h
  · cases call <;> simpa [Cluster.fireOnceGuarded, Cluster.claim, hclaims] using h

/-- The cluster after calls, in the order in which the script was executed. -/
def run (lua : Lua) : List (Trigger × Call) → Cluster :=
  runFrom (fun s call => s.fireOnceGuarded lua call.1 call.2) {}

end Cluster

/-- **Claims.** -/
theorem claims_increase (lua : Lua) (tolerance : Int64) (htolerance : 0 ≤ tolerance)
    (calls : List (Trigger × Call)) (hspawned : ∀ call ∈ calls, Spawned tolerance call.1)
    (hfits : ∀ call ∈ calls, call.1.staleBefore ≠ call.1.scheduledAt →
      Int64.minValue.toInt ≤ call.1.scheduledAt.toInt - tolerance.toInt) (id : TaskId) :
    let s := Cluster.run lua calls
    (s.claimed id).Pairwise (· > ·) ∧ s.fireLog id = (s.claimed id).head? ∧
      (s.runs id).Sublist (s.claimed id) ∧ (s.runs id).Nodup ∧
      ∀ t call, call ≠ .answered ∨ lua.claims t (s.fireLog t.id) = false →
        (s.fireOnceGuarded lua t call).runs = s.runs := by
  intro s
  have hs : s.Increasing := by
    refine inv_runFrom (P := fun _ call => call ∈ calls) (fun s call h hmem => ?_)
      ⟨fun _ => .nil, fun _ => rfl, fun _ => .slnil⟩ (along_of_mem _ fun _ h => h)
    exact h.fireOnceGuarded ((hspawned call hmem).stale_le htolerance (hfits call hmem)) call.2
  refine ⟨hs.claimed id, hs.stored id, hs.runs id, ?_, fun t call hcall => ?_⟩
  · refine ((hs.claimed id).imp ?_).sublist (hs.runs id)
    rintro a b hlt rfl
    exact Int64.lt_irrefl hlt
  · cases call with
    | answered =>
      have href := hcall.resolve_left (not_not.2 rfl)
      simp [Cluster.fireOnceGuarded, href]
    | answerLost =>
      simp only [Cluster.fireOnceGuarded, Cluster.claim]
      split_ifs <;> rfl
    | failed => rfl

/-- A script that computes with the integers themselves, and a task whose last time was a second
before 1970. -/
def exact : Lua := ⟨Int64.toInt, fun _ _ => Int64.le_iff_toInt_le.1⟩

def nightly : FireOnceTask :=
  ⟨"nightly", .leader, ⟨fun now => some (now + 1), fun _ => some (-1000)⟩, true⟩

theorem claims_increase_nightly :
    let s := Cluster.run exact [(⟨"nightly", 8, 8⟩, .answered), (⟨"nightly", 8, 8⟩, .answered)]
    s.runs "nightly" = [8] ∧ (s.runs "nightly").Nodup := by
  refine ⟨by decide +kernel, (claims_increase exact 0 (by decide) _ ?_ ?_ _).2.2.2.1⟩
  · have h : fireOnceCronDriver nightly 7 (some true) = some ⟨"nightly", 8, 8⟩ := rfl
    simp only [List.forall_mem_cons]
    exact ⟨.driver h, .driver h, nofun⟩
  · simp

/-- The tolerance is the largest `i64`, the difference wraps, and two sweeps run the same time. -/
theorem wrapped_tolerance :
    misfireSweep Int64.maxValue nightly 0 (some true) (some none) =
        some ⟨"nightly", -1000, 9223372036854774809⟩ ∧
      (Cluster.run exact [(⟨"nightly", -1000, 9223372036854774809⟩, .answered),
        (⟨"nightly", -1000, 9223372036854774809⟩, .answered)]).runs "nightly" = [-1000, -1000] := by
  decide +kernel

end NasaRuntime.Nasched
