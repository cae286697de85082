import NasaRuntime.Lib.Check
import NasaRuntime.Nadis.Properties.Custody

/-!
# Planned IDs

A park is resumed, or sent to the dead-letter stream, by any number of executors, which crash, come
again and run beside each other, while others write to the stream and delete from it.

**Theorem (`published_once`).** The plan of the park is chosen once and never replaced; its IDs are
increasing, one for each message. Every entry that an executor adds is the entry of a message under
its planned ID, and no message is added twice. The park ends only when every message has been in the
stream under its planned ID.
-/

namespace NasaRuntime.Nadis

open Prog List Option

variable {π : Type}

/-! ## IDs -/

variable {base : StreamId} {ids : List StreamId} {s : DispositionStore π}

theorem lt_of_nextId {id : StreamId} (h : nextId base = .ok id) : base < id := by
  unfold nextId at h
  simp only at h
  split_ifs at h with hseq hms
  · simp only [pure_eq_ok] at h
    rw [← h, Prod.Lex.lt_iff]
    left
    exact Nat.lt_succ_self _
  · simp only [pure_eq_ok] at h
    rw [← h, Prod.Lex.lt_iff]
    right
    exact ⟨rfl, Nat.lt_succ_self _⟩

theorem planIds_eq_ok {n : ℕ} (h : planIds base n = .ok ids) :
    ids.length = n ∧ (base :: ids).Pairwise (· < ·) := by
  induction n generalizing base ids with
  | zero =>
    simp only [planIds, pure_eq_ok] at h
    subst h
    simp
  | succ n ih =>
    simp only [planIds, bind_eq_ok, pure_eq_ok] at h
    obtain ⟨id, hid, rest, hrest, rfl⟩ := h
    obtain ⟨hlen, hpairw⟩ := ih hrest
    have hlt := lt_of_nextId hid
    refine ⟨by simp [hlen], pairwise_cons.2 ⟨?_, hpairw⟩⟩
    intro other hoth
    rcases mem_cons.1 hoth with rfl | hoth
    · exact hlt
    · exact hlt.trans (rel_of_pairwise_cons hpairw hoth)

/-! ## Reservations -/

namespace DispositionStore

section Park

variable (route : Route) (parkId : String) (payloads : List π)

/-- Every message has been in the stream under its planned ID. -/
def Confirmed (s : DispositionStore π) : Prop :=
  ∃ planned, s.plan = some planned ∧ planned.length = payloads.length ∧
    ∀ (i : ℕ) (id : StreamId) (payload : π), planned[i]? = some id → payloads[i]? = some payload →
      s.Held route.target id payload

/-- The IDs that the marker reports are those of the plan. -/
def Recorded (s : DispositionStore π) : Prop :=
  ∀ ids, s.marker.newIds = some ids → s.plan = some ids

/-- The states of a park on its route. -/
def OnRoute (s : DispositionStore π) : Prop :=
  ∀ state, s.marker.state = some state → state = .parked ∨ state = route.publishing ∨
    state = route.indeterminate ∨ state = route.final

/-- What holds of a park that is being published. -/
structure Reserved (s : DispositionStore π) : Prop where
  entries : ∀ target, ∀ entry ∈ (s.stream target).entries, entry ∈ (s.stream target).history
  ids : (s.stream route.target).history.Pairwise (·.id < ·.id)
  last : ∀ entry ∈ (s.stream route.target).history, entry.id ≤ (s.stream route.target).last
  marked : ∀ entry ∈ (s.stream route.target).history, ∀ i, entry.message = some i →
    ∃ planned payload, s.plan = some planned ∧ planned[i]? = some entry.id ∧
      payloads[i]? = some payload ∧ entry.data = some payload
  quarantine : s.quarantine parkId = .full payloads ∨ s.quarantine parkId = .absent
  gone : s.quarantine parkId = .absent → s.Confirmed route payloads
  increasing : ∀ planned, s.plan = some planned → planned.Pairwise (· < ·)
  planned : ∀ planned, s.marker.planned = some planned →
    s.plan = some planned ∨ s.quarantine parkId = .absent
  kept : ∀ planned, s.plan = some planned →
    s.marker.planned = some planned ∨ s.quarantine parkId = .absent
  park : ∀ other, s.marker.parkId = some other → other = parkId
  state : s.OnRoute route
  final : s.marker.state = some route.final → s.Confirmed route payloads ∧ s.Recorded
  expiring : s.marker.expiring = true → s.quarantine parkId = .absent

/-- What an executor relies on. -/
structure Advances (s s' : DispositionStore π) : Prop where
  plan : ∀ planned, s.plan = some planned → s'.plan = some planned
  history : ∀ target, ∀ entry ∈ (s.stream target).history, entry ∈ (s'.stream target).history
  gone : s.quarantine parkId = .absent → s'.quarantine parkId = .absent
  recorded : s.Recorded → s'.Recorded

/-- What an executor guarantees. -/
def Reserves (s s' : DispositionStore π) : Prop :=
  s.Advances parkId s' ∧ s'.Reserved route parkId payloads

end Park

section Writes

variable {route : Route} {parkId : String} {payloads : List π} {s s' : DispositionStore π}

theorem Advances.refl (s : DispositionStore π) : s.Advances parkId s :=
  ⟨fun _ h => h, fun _ _ h => h, fun h => h, fun h => h⟩

theorem Advances.trans {a b c : DispositionStore π} (h : a.Advances parkId b)
    (h' : b.Advances parkId c) : a.Advances parkId c :=
  ⟨fun planned hp => h'.plan planned (h.plan planned hp),
    fun target entry he => h'.history target entry (h.history target entry he),
    fun hg => h'.gone (h.gone hg), fun hr => h'.recorded (h.recorded hr)⟩

variable {target : Target}

theorem Advances.held {id : StreamId} {payload : π} (h : s.Advances parkId s')
    (hheld : s.Held target id payload) : s'.Held target id payload := by
  obtain ⟨entry, hent, hid, hdata⟩ := hheld
  exact ⟨entry, h.history target entry hent, hid, hdata⟩

theorem Confirmed.mono (h : s.Confirmed route payloads) (hadv : s.Advances parkId s') :
    s'.Confirmed route payloads := by
  obtain ⟨planned, hplan, hlen, hheld⟩ := h
  exact ⟨planned, hadv.plan planned hplan, hlen,
    fun i id payload hid hpayl => hadv.held (hheld i id payload hid hpayl)⟩

theorem ground_reserved : Ground (π := π) (Advances parkId) (Reserves route parkId payloads)
    (Reserved route parkId payloads) := by
  refine ⟨fun s hs => ⟨.refl s, hs⟩, fun _ _ h => h.1, ?_, fun s target entry hs =>
    hs.entries target entry⟩
  intro s s' target id payload hadv
  exact hadv.held

/-! ### Writes -/

variable (hs : s.Reserved route parkId payloads)

include hs

variable {lock : Option String} {fence : Fence} {pending : List StreamId} {marker : Marker}
  {index : Option String} {parks : List (String × List π)} {drops : List String}

theorem reserves_marker (hplann : marker.planned = s.marker.planned)
    (hpark : marker.parkId = s.marker.parkId) (hrec : s.Recorded → Recorded { s with marker })
    (hst : OnRoute route { s with marker })
    (hfin : marker.state = some route.final →
      s.Confirmed route payloads ∧ Recorded { s with marker })
    (hexp : marker.expiring = true → s.quarantine parkId = .absent) :
    s.Reserves route parkId payloads { s with lock, fence, pending, marker, index, parks, drops } := by
  have hadv : s.Advances parkId { s with lock, fence, pending, marker, index, parks, drops } :=
    ⟨fun _ h => h, fun _ _ h => h, fun h => h, hrec⟩
  exact ⟨hadv, { hs with
    gone := fun h => (hs.gone h).mono hadv
    planned := fun planned h => hs.planned planned (hplann ▸ h)
    kept := fun planned h => (hs.kept planned h).imp_left hplann.trans
    park := fun other h => hs.park other (hpark ▸ h)
    state := hst
    final := fun h => ⟨(hfin h).1.mono hadv, (hfin h).2⟩
    expiring := hexp }⟩

theorem reserves_state {state : DispositionState} (hplann : marker.planned = s.marker.planned)
    (hpark : marker.parkId = s.marker.parkId) (hnew : marker.newIds = s.marker.newIds)
    (hexp : marker.expiring = s.marker.expiring) (hst : marker.state = some state)
    (hroute : state = route.publishing ∨ state = route.indeterminate ∨ state = route.final)
    (hfin : state = route.final → s.Confirmed route payloads ∧ s.Recorded) :
    s.Reserves route parkId payloads { s with lock, fence, pending, marker, index, parks, drops } := by
  have hrec : s.Recorded → Recorded { s with marker } := fun h ids hids => h ids (hnew ▸ hids)
  refine reserves_marker hs hplann hpark hrec ?_ ?_ (hexp ▸ hs.expiring)
  · intro other hoth
    cases hst.symm.trans hoth
    exact .inr hroute
  · intro h
    exact (hfin (some.inj (hst.symm.trans h))).imp_right hrec

theorem reserves_same (hplann : marker.planned = s.marker.planned)
    (hpark : marker.parkId = s.marker.parkId) (hnew : marker.newIds = s.marker.newIds)
    (hexp : marker.expiring = true → s.quarantine parkId = .absent)
    (hst : marker.state = s.marker.state) :
    s.Reserves route parkId payloads { s with lock, fence, pending, marker, index, parks, drops } := by
  have hrec : s.Recorded → Recorded { s with marker } := fun h ids hids => h ids (hnew ▸ hids)
  refine reserves_marker hs hplann hpark hrec ?_ ?_ hexp
  · exact fun state h => hs.state state (hst ▸ h)
  · exact fun h => (hs.final (hst ▸ h)).imp_right hrec

theorem reserves_deleteQuarantine (hconf : s.Confirmed route payloads) :
    s.Reserves route parkId payloads
      { s with quarantine := Function.update s.quarantine parkId .absent } := by
  have hgone : Function.update s.quarantine parkId .absent parkId = .absent :=
    Function.update_self ..
  refine ⟨⟨fun _ h => h, fun _ _ h => h, fun _ => hgone, fun h => h⟩, ?_⟩
  exact { hs with
    quarantine := .inr hgone
    gone := fun _ => hconf
    planned := fun _ _ => .inr hgone
    kept := fun _ _ => .inr hgone
    expiring := fun _ => hgone }

theorem reserves_expire (hexp : s.marker.expiring = true) :
    s.Reserves route parkId payloads { s with marker := .absent } := by
  have hgone := hs.expiring hexp
  refine ⟨⟨fun _ h => h, fun _ _ h => h, fun h => h, nofun⟩, ?_⟩
  exact { hs with
    planned := fun _ _ => .inr hgone
    kept := fun _ _ => .inr hgone
    park := nofun
    state := nofun
    final := nofun
    expiring := fun _ => hgone }

/-- The plan is written where there is none. If there was one, it was lost with its marker, and then
the quarantine is gone. -/
theorem reserves_setPlanned {planned : List StreamId}
    {chosen : List (Option String × ℕ × Target × StreamId)} (hnone : s.marker.planned = none)
    (hinc : planned.Pairwise (· < ·)) :
    let s' : DispositionStore π := { s with
      marker := { s.marker with planned := some planned }
      plan := s.plan.or (some planned)
      chosen }
    s.Reserves route parkId payloads s' ∧
      (s'.plan = some planned ∨ s'.quarantine parkId = .absent) := by
  intro s'
  cases hplan : s.plan with
  | none =>
    have hplan' : s'.plan = some planned := by
      show s.plan.or (some planned) = some planned
      rw [hplan]
      rfl
    have hunc : ¬ s.Confirmed route payloads := by
      intro ⟨other, h, _⟩
      rw [hplan] at h
      cases h
    have hunr : s.Recorded → s.marker.newIds = none := by
      intro h
      cases hids : s.marker.newIds with
      | none => rfl
      | some ids =>
        have hsome := h ids hids
        rw [hplan] at hsome
        cases hsome
    have hadv : s.Advances parkId s' := by
      refine ⟨fun other h => ?_, fun _ _ h => h, fun h => h, fun h ids hids => ?_⟩
      · rw [hplan] at h
        cases h
      · have hnew : s.marker.newIds = some ids := hids
        rw [hunr h] at hnew
        cases hnew
    refine ⟨⟨hadv, ?_⟩, .inl hplan'⟩
    refine { hs with
      marked := ?_
      gone := fun h => absurd (hs.gone h) hunc
      increasing := ?_
      planned := ?_
      kept := ?_
      final := fun h => absurd (hs.final h).1 hunc }
    · intro entry hent i hi
      obtain ⟨other, _, h, _⟩ := hs.marked entry hent i hi
      rw [hplan] at h
      cases h
    · intro other h
      rw [hplan'] at h
      cases h
      exact hinc
    · intro other h
      cases h
      exact .inl hplan'
    · intro other h
      rw [hplan'] at h
      cases h
      exact .inl rfl
  | some other =>
    have hgone : s.quarantine parkId = .absent := by
      rcases hs.kept other hplan with h | h
      · rw [hnone] at h
        cases h
      · exact h
    have hplan' : s'.plan = s.plan := by
      show s.plan.or (some planned) = s.plan
      rw [hplan]
      rfl
    have hadv : s.Advances parkId s' := by
      refine ⟨fun other h => hplan'.trans h, fun _ _ h => h, fun h => h, fun h ids hids => ?_⟩
      exact hplan'.trans (h ids hids)
    refine ⟨⟨hadv, ?_⟩, .inr hgone⟩
    exact { hs with
      marked := hplan' ▸ hs.marked
      gone := fun h => (hs.gone h).mono hadv
      increasing := hplan' ▸ hs.increasing
      planned := fun _ _ => .inr hgone
      kept := fun _ _ => .inr hgone
      final := fun h => ⟨(hs.final h).1.mono hadv, hadv.recorded (hs.final h).2⟩ }

theorem reserves_stream {stream : Stream π}
    (hhist : ∀ entry ∈ (s.stream target).history, entry ∈ stream.history)
    (hents : ∀ entry ∈ stream.entries, entry ∈ stream.history)
    (hids : target = route.target → stream.history.Pairwise (·.id < ·.id))
    (hlast : target = route.target → ∀ entry ∈ stream.history, entry.id ≤ stream.last)
    (hmark : target = route.target → ∀ entry ∈ stream.history, ∀ i, entry.message = some i →
      ∃ planned payload, s.plan = some planned ∧ planned[i]? = some entry.id ∧
        payloads[i]? = some payload ∧ entry.data = some payload) :
    s.Reserves route parkId payloads (s.setStream target stream) := by
  have hroute : (target = route.target ∧ (s.setStream target stream).stream route.target = stream) ∨
      (s.setStream target stream).stream route.target = s.stream route.target := by
    by_cases h : route.target = target
    · exact .inl ⟨h.symm, h ▸ stream_setStream s target stream⟩
    · exact .inr (stream_setStream_of_ne s stream h)
  have hhist' := history_setStream hhist
  have hents' := entries_setStream target hs.entries hents
  obtain ⟨source, dlq, hset⟩ := exists_setStream s target stream
  rw [hset] at hroute hhist' hents' ⊢
  have hadv : s.Advances parkId { s with source, dlq } :=
    ⟨fun _ h => h, hhist', fun h => h, fun h => h⟩
  refine ⟨hadv, { hs with
    entries := hents'
    ids := ?_
    last := ?_
    marked := ?_
    gone := fun h => (hs.gone h).mono hadv
    final := fun h => ⟨(hs.final h).1.mono hadv, (hs.final h).2⟩ }⟩
  all_goals rcases hroute with ⟨h, hstream⟩ | hstream <;> rw [hstream]
  exacts [hids h, hs.ids, hlast h, hs.last, hmark h, hs.marked]

/-- An entry is added above the last one. If it is marked, then as the plan has it. -/
theorem reserves_add {entry : Entry π} (hlast : (s.stream target).last < entry.id)
    (hmark : target = route.target → ∀ i, entry.message = some i →
      ∃ planned payload, s.plan = some planned ∧ planned[i]? = some entry.id ∧
        payloads[i]? = some payload ∧ entry.data = some payload) :
    s.Reserves route parkId payloads (s.setStream target ((s.stream target).add entry)) := by
  apply reserves_stream hs
  · exact fun other h => mem_append_left _ h
  · intro other hoth
    rcases mem_append.1 hoth with h | h
    · exact mem_append_left _ (hs.entries target other h)
    · exact mem_append_right _ h
  · rintro rfl
    refine pairwise_append.2 ⟨hs.ids, pairwise_singleton _ _, fun other hoth new hnew => ?_⟩
    rw [mem_singleton.1 hnew]
    exact (hs.last other hoth).trans_lt hlast
  · rintro rfl other hoth
    rcases mem_append.1 hoth with h | h
    · exact ((hs.last other h).trans_lt hlast).le
    · rw [mem_singleton.1 h]
      exact le_rfl
  · intro htarg other hoth
    rcases mem_append.1 hoth with h | h
    · subst htarg
      exact hs.marked other h
    · rw [mem_singleton.1 h]
      exact hmark htarg

end Writes

end DispositionStore

/-! ## The programs -/

open DispositionStore

namespace Reservation

section Programs

variable {α : Type} {route : Route} {parkId : String} {payloads : List π} {s : DispositionStore π}
variable {planned : List StreamId}

/-- The program of an executor of the park is safe from `s`. -/
abbrev SafeExecutor (route : Route) (parkId : String) (payloads : List π)
    (Q : α → DispositionStore π → Prop) (p : Executor π α) (s : DispositionStore π) : Prop :=
  Safe (Advances parkId) (Reserves route parkId payloads) (Reserved route parkId payloads)
    (fun _ _ => True) Q (fun _ _ => True) p s

/-- The IDs are the plan, unless the park is over. -/
def Chosen (parkId : String) (planned : List StreamId) (s : DispositionStore π) : Prop :=
  s.plan = some planned ∨ s.quarantine parkId = .absent

theorem Chosen.mono {s' : DispositionStore π}
    (h : Chosen parkId planned s) (hadv : s.Advances parkId s') : Chosen parkId planned s' := by
  rcases h with h | h
  · exact .inl (hadv.plan planned h)
  · exact .inr (hadv.gone h)

/-- The result of an executor. -/
def Reported (ids : List StreamId) (s : DispositionStore π) : Prop := ids = [] ∨ s.plan = some ids

theorem Reported.mono {s' : DispositionStore π} (h : Reported ids s)
    (hadv : s.Advances parkId s') : Reported ids s' := by
  rcases h with h | h
  · exact .inl h
  · exact .inr (hadv.plan ids h)

theorem safe_reserve :
    SafeExecutor route parkId payloads (Chosen parkId) (reserve route parkId) s := by
  refine safe_read_bind ground_reserved.reads fun s1 _ hs1 => ?_
  cases hplann : s1.marker.planned with
  | some planned => exact hs1.planned planned hplann
  | none =>
    refine safe_then (safe_loadQuarantinePayloads (K := fun _ => True)
      (L := fun _ => True) ground_reserved (fun _ _ _ h => h) (fun _ _ _ h => h)
      (fun s hs _ => hs.quarantine) (fun _ _ _ _ => trivial) trivial) ?_
    intro found s2 _
    refine safe_read_bind ground_reserved.reads fun s3 _ _ => ?_
    cases hids : planIds (s3.stream route.target).last found.length with
    | error error => trivial
    | ok planned =>
      obtain ⟨_, hinc⟩ := planIds_eq_ok hids
      refine safe_atomic_bind fun s4 _ hs4 _ => ?_
      by_cases hnone : s4.marker.planned.isNone
      · rw [if_pos hnone]
        exact reserves_setPlanned hs4 (isNone_iff_eq_none.1 hnone) (List.Pairwise.of_cons hinc)
      · rw [if_neg hnone]
        refine ⟨ground_reserved.reads s4 hs4, ?_⟩
        refine safe_read_bind ground_reserved.reads fun s5 _ hs5 => ?_
        cases hex : s5.marker.planned with
        | some existing => exact hs5.planned existing hex
        | none => trivial

theorem safe_cleanUp {K : DispositionStore π → Prop} {Q : α → DispositionStore π → Prop}
    {q : Executor π α} (hK : ∀ s s' : DispositionStore π, s.Advances parkId s' → K s → K s')
    (hconf : ∀ s, K s → s.Confirmed route payloads) (h : K s)
    (hq : ∀ s, K s → SafeExecutor route parkId payloads Q q s) :
    SafeExecutor route parkId payloads Q (do
      deleteIndex
      deleteQuarantine parkId
      expireMarker
      q) s := by
  refine safe_write ground_reserved hK h (fun s hs _ => ?_) fun s h => ?_
  · exact reserves_same hs rfl rfl rfl hs.expiring rfl
  refine safe_modify_bind fun s1 hR1 hs1 _ => ?_
  have h1 := hK _ _ hR1 h
  have hdel := reserves_deleteQuarantine hs1 (hconf s1 h1)
  refine ⟨hdel, ?_⟩
  -- from here on the quarantine is gone
  refine safe_write (K := fun s => K s ∧ s.quarantine parkId = .absent) ground_reserved
    (fun s s' hR h => ⟨hK s s' hR h.1, hR.gone h.2⟩)
    ⟨hK _ _ hdel.1 h1, Function.update_self ..⟩ (fun s hs h => ?_) fun s h => hq s h.1
  exact reserves_same hs rfl rfl rfl (fun _ => h.2) rfl

theorem safe_finish (hplan : s.plan = some planned) (hconf : s.Confirmed route payloads) :
    SafeExecutor route parkId payloads Reported (finish route.final parkId planned) s := by
  refine safe_modify_bind fun s1 hR1 hs1 _ => ?_
  have hplan1 := hR1.plan planned hplan
  have hconf1 := hconf.mono hR1
  let s2 : DispositionStore π := { s1 with marker := { s1.marker with newIds := some planned } }
  have hrec2 : s2.Recorded := by
    intro ids hids
    cases hids
    exact hplan1
  have hres : s1.Reserves route parkId payloads s2 :=
    reserves_marker hs1 rfl rfl (fun _ => hrec2) hs1.state (fun _ => ⟨hconf1, hrec2⟩) hs1.expiring
  refine ⟨hres, ?_⟩
  let K : DispositionStore π → Prop := fun s =>
    s.plan = some planned ∧ s.Confirmed route payloads ∧ s.Recorded
  have hK : ∀ s s' : DispositionStore π, s.Advances parkId s' → K s → K s' := fun s s' hR h =>
    ⟨hR.plan planned h.1, h.2.1.mono hR, hR.recorded h.2.2⟩
  have h2 : K s2 := ⟨hplan1, hconf1.mono hres.1, hrec2⟩
  refine safe_write ground_reserved hK h2 (fun s hs h => ?_) fun s h => ?_
  · exact reserves_state hs rfl rfl rfl rfl rfl (.inr (.inr rfl)) fun _ => h.2
  · exact safe_cleanUp hK (fun _ h => h.2.1) h fun s h => .inr h.1

theorem safe_readMarker :
    SafeExecutor route parkId payloads (fun found s => found.2 = parkId ∧
      (found.1 = route.final → s.Confirmed route payloads ∧ s.Recorded)) readMarker s := by
  refine safe_read_bind ground_reserved.reads fun s1 _ hs1 => ?_
  refine safe_read_bind ground_reserved.reads fun s2 hR2 hs2 => ?_
  cases hst : s1.marker.state with
  | none => trivial
  | some state =>
    cases hpark : s2.marker.parkId with
    | none => trivial
    | some other =>
      refine ⟨hs2.park other hpark, ?_⟩
      rintro rfl
      obtain ⟨hconf, hrec⟩ := hs1.final hst
      exact ⟨hconf.mono hR2, hR2.recorded hrec⟩

theorem safe_claimTransition (hroute : route.Usual) (lease : OwnerLease) :
    SafeExecutor route parkId payloads (fun _ _ => True)
      (claimTransition .parked route.publishing lease) s := by
  refine safe_atomic_bind fun s1 _ hs1 _ => ?_
  have hrefl := ground_reserved.reads s1 hs1
  cases lease.check s1 with
  | error reject => exact ⟨hrefl, trivial⟩
  | ok _ =>
    simp only
    by_cases hpark : s1.marker.state = some .parked
    · rw [if_neg (not_not.2 hpark)]
      refine ⟨?_, trivial⟩
      refine reserves_state hs1 rfl rfl rfl rfl rfl (.inl rfl) ?_
      rcases hroute with rfl | rfl
      · nofun
      · nofun
    · rw [if_pos hpark]
      exact ⟨hrefl, trivial⟩

variable [DecidableEq π]

theorem safe_publishReserved (hroute : route.Usual)
    (hlen : payloads.length = planned.length) (hplan : s.plan = some planned) :
    SafeExecutor route parkId payloads Reported (publishReserved route parkId planned payloads)
      s := by
  let K : DispositionStore π → Prop := fun s => s.plan = some planned
  have hK : ∀ s s' : DispositionStore π, s.Advances parkId s' → K s → K s' := fun s s' hR h =>
    hR.plan planned h
  refine safe_then (safe_publishEach ground_reserved hK (planned.zip payloads) 0 ?_ hplan) ?_
  · -- the entry of a message is added under its planned ID
    intro j message hmsg s hs hplan hlast
    obtain ⟨hid, hpayl⟩ := getElem?_zip_eq_some.1 hmsg
    refine reserves_add hs hlast fun _ i hi => ?_
    cases hi
    rw [Nat.zero_add]
    exact ⟨planned, message.2, hplan, hid, hpayl, rfl⟩
  intro uncertain s1 ⟨hplan1, hheld⟩
  by_cases hnone : uncertain = []
  · rw [if_neg (not_not.2 hnone)]
    refine safe_finish hplan1 ⟨planned, hplan1, hlen.symm, fun i id payload hid hpayl => ?_⟩
    have hzip : (planned.zip payloads)[i]? = some (id, payload) :=
      getElem?_zip_eq_some.2 ⟨hid, hpayl⟩
    exact hheld i (id, payload) hzip (by simp [hnone])
  · rw [if_pos hnone]
    refine safe_write ground_reserved hK hplan1 (fun s hs _ => ?_) fun s h => ?_
    · exact reserves_same hs rfl rfl rfl hs.expiring rfl
    · refine safe_write ground_reserved hK h (fun s hs _ => ?_) fun _ _ => trivial
      refine reserves_state hs rfl rfl rfl rfl rfl (.inr (.inl rfl)) ?_
      rcases hroute with rfl | rfl
      · nofun
      · nofun

theorem safe_publishStep (hroute : route.Usual) :
    SafeExecutor route parkId payloads Reported (publishStep route parkId) s := by
  refine safe_then safe_reserve ?_
  intro planned s1 hchos
  refine safe_bind (safe_then (safe_loadQuarantinePayloads (K := Chosen parkId planned)
    (L := fun s => s.plan = some planned) ground_reserved (fun _ _ hR h => h.mono hR)
    (fun _ _ hR h => hR.plan planned h) (fun s hs _ => hs.quarantine) ?_ hchos) ?_)
  · intro s _ h hpres
    rcases h with h | h
    · exact h
    · exact absurd h hpres
  intro found s2 ⟨hfnd, _, hplan⟩
  subst hfnd
  by_cases hlen : found.length = planned.length
  · rw [if_neg (not_not.2 hlen)]
    exact safe_publishReserved hroute hlen hplan
  · rw [if_pos hlen]
    trivial

theorem safe_publishParked (hroute : route.Usual) (lease : OwnerLease) :
    SafeExecutor route parkId payloads Reported (publishParked route lease) s := by
  refine safe_verifyOwnerFenced ground_reserved lease fun s1 => ?_
  refine safe_then safe_readMarker ?_
  rintro ⟨state, found⟩ s2 ⟨rfl, hfin⟩
  simp only
  split_ifs with hpark hpubl hind hst
  · refine safe_then (safe_claimTransition hroute lease) ?_
    exact fun _ _ _ => safe_publishStep hroute
  · refine safe_then (safe_assertOpOwns (K := fun _ => True) ground_reserved
      (fun _ _ _ h => h) lease.operationId trivial) ?_
    exact fun _ _ _ => safe_publishStep hroute
  · trivial
  · refine safe_cleanUp (K := fun s => s.Confirmed route payloads ∧ s.Recorded)
      (fun s s' hR h => ⟨h.1.mono hR, hR.recorded h.2⟩) (fun _ h => h.1) (hfin hst)
      fun s h => ?_
    refine safe_read_bind ground_reserved.reads fun s3 hR3 _ => ?_
    cases hids : s3.marker.newIds with
    | none => exact .inl rfl
    | some ids => exact .inr (hR3.recorded h.2 ids hids)
  · trivial

theorem safe_forceTakeover (hroute : route.Usual) (lease : OwnerLease) :
    SafeExecutor route parkId payloads Reported (forceTakeover lease) s := by
  refine safe_verifyOwnerFenced ground_reserved lease fun s1 => ?_
  refine safe_read_bind ground_reserved.reads fun s2 _ hs2 => ?_
  cases hst : s2.marker.state with
  | none => trivial
  | some state =>
    simp only
    by_cases hoth : state ≠ .resumePublishing ∧ state ≠ .dlqPublishing ∧
        state ≠ .forcePublishing ∧ state ≠ .dropping
    · rw [if_pos hoth]
      trivial
    rw [if_neg hoth]
    have hpubl : state = route.publishing := by
      rcases hs2.state state hst with rfl | rfl | rfl | rfl
      · simp at hoth
      · rfl
      all_goals rcases hroute with rfl | rfl <;> simp [resumeRoute, dlqRoute] at hoth
    refine safe_atomic_bind fun s3 _ hs3 _ => ?_
    by_cases hsame : s3.marker.state = some state
    · rw [if_pos hsame]
      refine ⟨reserves_same hs3 rfl rfl rfl hs3.expiring rfl, ?_⟩
      subst hpubl
      rcases hroute with rfl | rfl
      · exact safe_publishParked (.inl rfl) lease
      · exact safe_publishParked (.inr rfl) lease
    · rw [if_neg hsame]
      exact ⟨ground_reserved.reads s3 hs3, trivial⟩

end Programs

/-! ## Interleavings -/

/-- No messages are parked. -/
def NoPark : Input (DispositionEvent π) → Prop
  | .env (.park _ _ _) => False
  | _ => True

variable {route : Route} {parkId : String} {payloads : List π}

theorem reserves_event (hs : s.Reserved route parkId payloads)
    (e : DispositionEvent π) (he : NoPark (.env e)) :
    s.Reserves route parkId payloads (s.happen e) := by
  have hrefl := ground_reserved.reads s hs
  cases e with
  | park holder parkId records => exact he.elim
  | expire =>
    simp only [happen]
    split_ifs with hexp
    · exact reserves_expire hs hexp
    · exact hrefl
  | produce target id data =>
    simp only [happen]
    split_ifs with hlast
    · exact reserves_add hs hlast fun _ i hi => by cases hi
    · exact hrefl
  | consume target id =>
    apply reserves_stream hs
    · exact fun _ h => h
    · exact fun entry h => hs.entries target entry (mem_of_mem_filter h)
    · rintro rfl
      exact hs.ids
    · rintro rfl
      exact hs.last
    · rintro rfl
      exact hs.marked
  | lock holder | fence fence | pend pending =>
    exact reserves_same hs rfl rfl rfl hs.expiring rfl

theorem reservation_compatible :
    Sys.Compatible (fun _ => Advances parkId) (fun _ => Reserves route parkId payloads)
      (Reserved (π := π) route parkId payloads) fun _ => Reported := by
  refine ⟨fun _ => .refl, fun _ _ _ _ => .trans, fun _ _ s s' _ _ h => h.1, fun _ s s' _ h => h.2, ?_⟩
  intro _ ids s s' hadv h
  exact h.mono hadv

theorem length_filter_le_one {entries : List (Entry π)} {p : Entry π → Bool} (id : StreamId)
    (hids : entries.Pairwise (·.id < ·.id)) (hp : ∀ entry ∈ entries, p entry = true → entry.id = id) :
    (entries.filter p).length ≤ 1 := by
  have hfilt := hids.filter p
  have hsame : ∀ entry ∈ entries.filter p, entry.id = id := fun entry h =>
    hp entry (mem_filter.1 h).1 (mem_filter.1 h).2
  cases hents : entries.filter p with
  | nil => simp
  | cons first rest =>
    cases rest with
    | nil => simp
    | cons second rest =>
      rw [hents] at hfilt hsame
      have hlt : first.id < second.id := rel_of_pairwise_cons hfilt mem_cons_self
      rw [hsame first mem_cons_self, hsame second (by simp)] at hlt
      exact absurd hlt (lt_irrefl id)

end Reservation

open Reservation

/-- The route of an operation that publishes the messages as they were parked. -/
def Operation.route : Operation → Option Route
  | .resume => some resumeRoute
  | .dlqFromParked => some dlqRoute
  | _ => none

/-- Messages have been parked, and nothing was published of them. A plan that is in the marker already
was left there by an executor of an earlier park. -/
structure Parked (route : Route) (parkId : String) (payloads : List π) (s : DispositionStore π) :
    Prop where
  entries : ∀ target, ∀ entry ∈ (s.stream target).entries, entry ∈ (s.stream target).history
  ids : (s.stream route.target).history.Pairwise (·.id < ·.id)
  last : ∀ entry ∈ (s.stream route.target).history, entry.id ≤ (s.stream route.target).last
  unmarked : ∀ entry ∈ (s.stream route.target).history, entry.message = none
  quarantine : s.quarantine parkId = .full payloads
  state : s.marker.state = some .parked
  park : s.marker.parkId = some parkId
  plan : s.plan = s.marker.planned
  increasing : ∀ planned, s.marker.planned = some planned → planned.Pairwise (· < ·)
  expiring : s.marker.expiring = false

section Interleavings

variable {route : Route} {parkId : String} {payloads : List π}

theorem Parked.reserved (hs : Parked route parkId payloads s)
    (hroute : route.Usual) : s.Reserved route parkId payloads := by
  have hfin : s.marker.state ≠ some route.final := by
    rw [hs.state]
    rcases hroute with rfl | rfl
    · nofun
    · nofun
  have hpres : s.quarantine parkId ≠ .absent := by
    rw [hs.quarantine]
    exact Quarantine.full_ne_absent payloads
  constructor
  case entries => exact hs.entries
  case ids => exact hs.ids
  case last => exact hs.last
  case marked =>
    intro entry hent i hi
    rw [hs.unmarked entry hent] at hi
    cases hi
  case quarantine => exact .inl hs.quarantine
  case gone => exact fun h => absurd h hpres
  case increasing =>
    rw [hs.plan]
    exact hs.increasing
  case planned =>
    rw [hs.plan]
    exact fun _ h => .inl h
  case kept =>
    rw [hs.plan]
    exact fun _ h => .inl h
  case park =>
    intro other h
    rw [hs.park] at h
    exact (some.inj h).symm
  case state =>
    intro state h
    rw [hs.state] at h
    exact .inl (some.inj h).symm
  case final => exact fun h => absurd h hfin
  case expiring =>
    rw [hs.expiring]
    nofun

/-- Every run is one that the executors are verified for, and its events do what executors may do. -/
theorem along_noPark {sys : Executors π} {inputs : List (Input (DispositionEvent π))}
    (h : ∀ input ∈ inputs, NoPark input) :
    Along (Sys.exec DispositionStore.happen .crashed) (fun sys input =>
      sys.Admissible (fun _ => Advances parkId) (fun _ _ _ => True) (Reserved route parkId payloads)
        (fun _ => Reported) DispositionStore.happen input ∧
      ∀ e, input = .env e → sys.store.Reserved route parkId payloads →
        sys.store.Advances parkId (sys.store.happen e)) sys inputs := by
  induction inputs generalizing sys with
  | nil => trivial
  | cons input inputs ih =>
    refine ⟨⟨?_, ?_⟩, ih fun other hoth => h other (mem_cons_of_mem input hoth)⟩
    · cases input with
      | run i | stop i => trivial
      | env e =>
        intro hs
        have hres := reserves_event hs e (h (.env e) mem_cons_self)
        exact ⟨hres.2, fun _ _ => hres.1, fun _ _ hrep => hrep.mono hres.1⟩
    · rintro e rfl hs
      exact (reserves_event hs e (h (.env e) mem_cons_self)).1

variable [DecidableEq π]

theorem inv_executors {operation : Operation} (hroute : operation.route = some route)
    {calls : ℕ → Operation × OwnerLease}
    (hcalls : ∀ i, (calls i).1 = operation ∨ (calls i).1 = .forceTakeover)
    (hs : Parked route parkId payloads s) :
    (executors calls s).Inv (fun _ => Advances parkId) (fun _ => Reserves route parkId payloads)
      (fun _ _ _ => True) (Reserved route parkId payloads) fun _ => Reported := by
  have hus : route.Usual := by
    cases operation with
    | resume => exact .inl (some.inj hroute).symm
    | dlqFromParked => exact .inr (some.inj hroute).symm
    | _ => cases hroute
  refine Sys.inv_start (hs.reserved hus) fun i s _ => ?_
  rcases hcalls i with h | h
  · rw [h]
    cases operation with
    | resume | dlqFromParked =>
      cases hroute
      exact Reservation.safe_publishParked hus (calls i).2
    | _ => cases hroute
  · rw [h]
    exact Reservation.safe_forceTakeover hus (calls i).2

/-- **Every message once, under its planned ID.** -/
theorem published_once {operation : Operation} (hroute : operation.route = some route)
    (calls : ℕ → Operation × OwnerLease)
    (hcalls : ∀ i, (calls i).1 = operation ∨ (calls i).1 = .forceTakeover) (s : DispositionStore π)
    (hs : Parked route parkId payloads s) (inputs : List (Input (DispositionEvent π)))
    (hinputs : ∀ input ∈ inputs, NoPark input) :
    let sys := runExecutors (executors calls s) inputs
    let s' := sys.store
    (∀ i, ((s'.stream route.target).history.filter (·.message = some i)).length ≤ 1) ∧
    (∀ entry ∈ (s'.stream route.target).history, ∀ i, entry.message = some i →
      ∃ planned payload, s'.plan = some planned ∧ planned[i]? = some entry.id ∧
        payloads[i]? = some payload ∧ entry.data = some payload) ∧
    (∀ planned, s'.plan = some planned → planned.Pairwise (· < ·) ∧
      ∀ later, (∀ input ∈ later, NoPark input) →
        (runExecutors sys later).store.plan = some planned) ∧
    (s'.marker.state = some route.final → s'.Confirmed route payloads) ∧
    ∀ i ids, sys.procs i = .done ids → ids = [] ∨ s'.plan = some ids := by
  intro sys s'
  have hinv : sys.Inv (fun _ => Advances parkId) (fun _ => Reserves route parkId payloads)
      (fun _ _ _ => True) (Reserved route parkId payloads) fun _ => Reported :=
    Sys.sound reservation_compatible (inv_executors hroute hcalls hs)
      ((along_noPark hinputs).mono fun _ _ h => h.1)
  have hresv : s'.Reserved route parkId payloads := hinv.1
  refine ⟨fun i => ?_, hresv.marked, fun planned hplan => ⟨hresv.increasing planned hplan, ?_⟩,
    fun h => (hresv.final h).1, fun i ids hdone => hinv.result hdone⟩
  · -- all entries of a message have its planned ID
    by_cases hplan : ∃ planned id, s'.plan = some planned ∧ planned[i]? = some id
    · obtain ⟨planned, id, hplan, hid⟩ := hplan
      refine length_filter_le_one id hresv.ids fun entry hent hmsg => ?_
      obtain ⟨other, _, hoth, hentr, _⟩ := hresv.marked entry hent i (by simpa using hmsg)
      rw [hplan] at hoth
      cases hoth
      rw [hid] at hentr
      exact (some.inj hentr).symm
    · have hnone : (s'.stream route.target).history.filter (·.message = some i) = [] := by
        rw [filter_eq_nil_iff]
        intro entry hent hmsg
        obtain ⟨planned, _, hplan', hid, _⟩ := hresv.marked entry hent i (by simpa using hmsg)
        exact hplan ⟨planned, entry.id, hplan', hid⟩
      rw [hnone]
      exact Nat.zero_le 1
  · intro later hlat
    have hmov := Sys.moved reservation_compatible Advances.refl (fun _ _ _ => Advances.trans)
      (fun _ _ _ _ h => h.1) hinv (along_noPark hlat)
    exact hmov.plan planned hplan

end Interleavings

/-- The pending messages are parked. -/
def parkedStore : DispositionStore ℕ :=
  pendingStore.park "p1" [(toLex (1, 0), 7), (toLex (2, 0), 8)]

theorem parked_parkedStore : Parked resumeRoute "p1" [7, 8] parkedStore := by
  constructor
  case entries =>
    intro target entry h
    cases target with
    | source | dlq => exact h
  case ids | last | unmarked => decide
  case quarantine =>
    simp [parkedStore, park, pendingStore, Quarantine.absent, Quarantine.full]
  case increasing => exact fun _ h => by cases h
  case state | park | plan | expiring => rfl

/-- An executor crashes when it has added the first of two messages, and another one finishes the
park. -/
theorem published_once_reentered :
    let s' := (runExecutors (executors (fun _ => (.resume, owner)) parkedStore)
      (commands 0 16 ++ [.stop 0] ++ commands 1 30)).store
    s'.marker.state = some .resumed ∧ s'.Confirmed resumeRoute [7, 8] ∧
      ∀ i, (s'.source.history.filter (·.message = some i)).length ≤ 1 := by
  intro s'
  have hinpu : ∀ input ∈ commands 0 16 ++ [.stop 0] ++ commands 1 30, NoPark input := by
    intro input hinp
    simp only [commands, mem_append, mem_replicate, mem_singleton] at hinp
    rcases hinp with (h | h) | h
    · rw [h.2]
      trivial
    · rw [h]
      trivial
    · rw [h.2]
      trivial
  have hst : s'.marker.state = some .resumed := by decide
  obtain ⟨honce, -, -, hfin, -⟩ := published_once
    (show Operation.resume.route = some resumeRoute from rfl) (fun _ => (.resume, owner))
    (fun _ => .inl rfl) parkedStore parked_parkedStore _ hinpu
  exact ⟨hst, hfin hst, honce⟩

end NasaRuntime.Nadis
