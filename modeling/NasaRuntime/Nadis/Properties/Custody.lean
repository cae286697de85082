import NasaRuntime.Nadis.Disposition

/-!
# Custody of parked messages

A message that was parked must not get lost: it is in the quarantine of a marker that has not ended,
or it was published, or it was dropped on purpose.

**Theorem (`custody_kept`).** This holds after every run in which no park takes effect, and no marker
expires, while an executor is at work: between its first command and its last one, unless it was
stopped. The index of the latest park is deleted only when its messages are published or dropped.

Within one park the executors may interleave as they like. An executor ends a park only when it has
seen for itself that all messages are in the stream, or that the park was claimed for a drop, and
neither can be undone (`Moves`).

Across parks nothing holds (`custody_lost`). The owner is checked when an operation starts, and the
marker is not looked at again: an executor that has read the marker of one park and is paused ends the
marker of the next park, whose messages nobody has published or dropped.
-/

namespace NasaRuntime.Nadis

open List Option DispositionStore

variable {π : Type} {payload : π} {target : Target}

/-! ## Custody -/

/-- What a park in some state was claimed for: to be published in a stream, or to be dropped. -/
def DispositionState.goal : DispositionState → Option (Option Target)
  | .parked => none
  | .resumePublishing | .resumed | .resumeIndeterminate | .forcePublishing => some (some .source)
  | .dlqPublishing | .dlqed | .dlqIndeterminate => some (some .dlq)
  | .dropping | .dropped => some none

namespace DispositionStore

/-- Message `i` of a park was added to a stream: an entry with its payload, under an ID that was chosen
for it. -/
def Published (s : DispositionStore π) (parkId : String) (i : ℕ) (payload : π) : Prop :=
  ∃ target id, (some parkId, i, target, id) ∈ s.chosen ∧ s.Held target id payload

/-- The messages of a park are published, apart from some. -/
def PublishedBut (s : DispositionStore π) (parkId : String) (payloads : List π)
    (indexes : List ℕ) : Prop :=
  ∀ i payload, payloads[i]? = some payload → i ∉ indexes → s.Published parkId i payload

/-- The messages of a park are published, or the park was dropped. -/
def Settled (s : DispositionStore π) (parkId : String) (payloads : List π) : Prop :=
  s.PublishedBut parkId payloads [] ∨ parkId ∈ s.drops

/-- The IDs were chosen for the messages of a park. -/
def Chosen (s : DispositionStore π) (parkId : String) (target : Target) (ids : List StreamId) : Prop :=
  ∀ i id, ids[i]? = some id → (some parkId, i, target, id) ∈ s.chosen

/-- The marker has not ended. -/
def Open (s : DispositionStore π) : Prop := ∃ state, s.marker.state = some state ∧ ¬ state.terminal

def goal (s : DispositionStore π) : Option (Option Target) := s.marker.state.bind (·.goal)

/-- What the marker says of the latest park is so. -/
structure Says (s : DispositionStore π) (parkId : String) (payloads : List π) : Prop where
  published : s.marker.state = some .resumed ∨ s.marker.state = some .dlqed →
    s.PublishedBut parkId payloads []
  dropped : s.goal = some none → parkId ∈ s.drops
  expiring : s.marker.expiring = true → s.Settled parkId payloads
  uncertain : ∀ indexes, s.marker.uncertain = some indexes →
    s.PublishedBut parkId payloads indexes
  planned : ∀ planned, s.marker.planned = some planned →
    ∃ target, s.goal = some (some target) ∧ s.Chosen parkId target planned
  force : ∀ i id, s.marker.force.get? i = some id → (some parkId, i, .source, id) ∈ s.chosen

/-- What holds of the latest park. -/
structure Current (s : DispositionStore π) (parkId : String) (payloads : List π) : Prop
    extends Says s parkId payloads where
  park : s.marker.state ≠ none → s.marker.parkId = some parkId
  absent : s.marker.state = none → s.marker = .absent
  quarantine : s.quarantine parkId = .full payloads ∨ s.quarantine parkId = .absent
  kept : s.Open ∧ s.quarantine parkId = .full payloads ∨ s.Settled parkId payloads
  index : s.index = some parkId ∨ s.Settled parkId payloads

/-- What holds of the store. -/
structure Custody (s : DispositionStore π) : Prop where
  entries : ∀ target, ∀ entry ∈ (s.stream target).entries, entry ∈ (s.stream target).history
  unused : ∀ parkId, parkId ∉ s.parks.map (·.1) → s.quarantine parkId = .absent
  idle : s.parks = [] → s.marker = .absent
  earlier : ∀ park ∈ s.parks.dropLast, s.Settled park.1 park.2
  current : ∀ parkId payloads, s.parks.getLast? = some (parkId, payloads) →
    s.Current parkId payloads

/-- What an executor relies on while it is at work. -/
structure Moves (s s' : DispositionStore π) : Prop where
  parks : s'.parks = s.parks
  drops : ∀ parkId ∈ s.drops, parkId ∈ s'.drops
  history : ∀ target, ∀ entry ∈ (s.stream target).history, entry ∈ (s'.stream target).history
  marked : s.marker.state ≠ none → s'.marker.state ≠ none
  goal : ∀ goal, s.goal = some goal → s'.goal = some goal
  chosen : ∀ choice ∈ s.chosen, choice ∈ s'.chosen

theorem Moves.refl (s : DispositionStore π) : s.Moves s :=
  ⟨rfl, fun _ h => h, fun _ _ h => h, fun h => h, fun _ h => h, fun _ h => h⟩

variable {s s' : DispositionStore π}

theorem Moves.trans {a b c : DispositionStore π} (h : a.Moves b) (h' : b.Moves c) : a.Moves c :=
  ⟨h'.parks.trans h.parks, fun parkId hd => h'.drops parkId (h.drops parkId hd),
    fun target entry he => h'.history target entry (h.history target entry he),
    fun hm => h'.marked (h.marked hm), fun goal hg => h'.goal goal (h.goal goal hg),
    fun choice hc => h'.chosen choice (h.chosen choice hc)⟩

variable {payloads : List π} {parkId : String} {indexes : List ℕ} {ids : List StreamId}

theorem PublishedBut.mono (h : s.PublishedBut parkId payloads indexes) (hmvs : s.Moves s') :
    s'.PublishedBut parkId payloads indexes := by
  intro i payload hpayl hi
  obtain ⟨target, id, hchos, entry, hent, hdata⟩ := h i payload hpayl hi
  exact ⟨target, id, hmvs.chosen _ hchos, entry, hmvs.history target entry hent, hdata⟩

theorem Chosen.mono (h : s.Chosen parkId target ids) (hmvs : s.Moves s') :
    s'.Chosen parkId target ids :=
  fun i id hid => hmvs.chosen _ (h i id hid)

theorem Settled.mono
    (h : s.Settled parkId payloads) (hmvs : s.Moves s') : s'.Settled parkId payloads :=
  h.imp (·.mono hmvs) (hmvs.drops parkId)

/-- A step that leaves the state alone, and writes no ID that was not chosen. -/
theorem Says.mono (h : s.Says parkId payloads) (hmvs : s.Moves s')
    (hst : s'.marker.state = s.marker.state) (hexp : s'.marker.expiring = s.marker.expiring)
    (hunc : s'.marker.uncertain = s.marker.uncertain)
    (hplan : ∀ planned, s'.marker.planned = some planned → s.marker.planned = some planned ∨
      ∃ target, s.goal = some (some target) ∧ s'.Chosen parkId target planned)
    (hforc : ∀ i id, s'.marker.force.get? i = some id → s.marker.force.get? i = some id ∨
      (some parkId, i, .source, id) ∈ s'.chosen) : s'.Says parkId payloads := by
  have hgoal : s'.goal = s.goal := by rw [goal, goal, hst]
  refine ⟨?_, ?_, ?_, ?_, ?_, ?_⟩
  · rw [hst]
    exact fun hfin => (h.published hfin).mono hmvs
  · rw [hgoal]
    exact fun hdropp => hmvs.drops parkId (h.dropped hdropp)
  · rw [hexp]
    exact fun hexp => (h.expiring hexp).mono hmvs
  · rw [hunc]
    exact fun indexes hind => (h.uncertain indexes hind).mono hmvs
  · intro planned hp
    rw [hgoal]
    rcases hplan planned hp with hp | hp
    · obtain ⟨target, hg, hchos⟩ := h.planned planned hp
      exact ⟨target, hg, hchos.mono hmvs⟩
    · exact hp
  · intro i id hi
    rcases hforc i id hi with hi | hi
    · exact hmvs.chosen _ (h.force i id hi)
    · exact hi

/-- What an executor guarantees. -/
def Keeps (s s' : DispositionStore π) : Prop := s.Moves s' ∧ s'.Custody

/-- The executor works on the latest park, which has a marker. -/
def At (parkId : String) (payloads : List π) (s : DispositionStore π) : Prop :=
  s.parks.getLast? = some (parkId, payloads) ∧ s.marker.state ≠ none

theorem At.mono (h : At parkId payloads s) (hmvs : s.Moves s') : At parkId payloads s' := by
  refine ⟨?_, hmvs.marked h.2⟩
  rw [hmvs.parks]
  exact h.1

/-- The latest park was claimed for a goal. -/
def On (goal : Option Target) (parkId : String) (payloads : List π) (s : DispositionStore π) : Prop :=
  s.parks.getLast? = some (parkId, payloads) ∧ s.goal = some goal

variable {goal : Option Target}

theorem On.mono (s s' : DispositionStore π) (hmvs : s.Moves s') (h : On goal parkId payloads s) :
    On goal parkId payloads s' := by
  refine ⟨?_, hmvs.goal goal h.2⟩
  rw [hmvs.parks]
  exact h.1

theorem On.at (h : On goal parkId payloads s) : At parkId payloads s := by
  refine ⟨h.1, fun hnone => ?_⟩
  have hg := h.2
  rw [DispositionStore.goal, hnone] at hg
  cases hg

theorem On.settled (hs : s.Custody) (h : On none parkId payloads s) : s.Settled parkId payloads :=
  .inr ((hs.current parkId payloads h.1).dropped h.2)

theorem On.planned {planned : List StreamId} (hs : s.Custody)
    (h : On (some target) parkId payloads s) (hplan : s.marker.planned = some planned) :
    s.Chosen parkId target planned := by
  obtain ⟨other, hg, hchos⟩ := (hs.current parkId payloads h.1).planned planned hplan
  cases some.inj (h.2.symm.trans hg)
  exact hchos

theorem At.mem (h : At parkId payloads s) : parkId ∈ s.parks.map (·.1) :=
  mem_map.2 ⟨_, mem_of_getLast? h.1, rfl⟩

/-! ## Writes -/

section Writes

variable {s : DispositionStore π} {parkId : String} {payloads : List π}
variable {s' : DispositionStore π} {state : DispositionState}

theorem keeps_of_current (hs : s.Custody) (hat : At parkId payloads s) (hmvs : s.Moves s')
    (hents : ∀ target, ∀ entry ∈ (s'.stream target).entries, entry ∈ (s'.stream target).history)
    (hquar : ∀ other, other ≠ parkId → s'.quarantine other = s.quarantine other)
    (hcurr : s'.Current parkId payloads) : s.Keeps s' := by
  refine ⟨hmvs, hents, ?_, ?_, ?_, ?_⟩
  · intro other hoth
    rw [hmvs.parks] at hoth
    have hne : other ≠ parkId := by
      intro h
      rw [h] at hoth
      exact hoth hat.mem
    rw [hquar other hne]
    exact hs.unused other hoth
  · intro hnone
    rw [hmvs.parks] at hnone
    rw [At, hnone] at hat
    cases hat.1
  · intro park hpark
    rw [hmvs.parks] at hpark
    exact (hs.earlier park hpark).mono hmvs
  · intro other payloads' hlast
    rw [hmvs.parks] at hlast
    cases some.inj (hlast.symm.trans hat.1)
    exact hcurr

theorem settled_of_terminal (h : s.Says parkId payloads) (hst : s.marker.state = some state)
    (hterm : state.terminal = true) : s.Settled parkId payloads := by
  cases state with
  | resumed => exact .inl (h.published (.inl hst))
  | dlqed => exact .inl (h.published (.inr hst))
  | dropped =>
    refine .inr (h.dropped ?_)
    rw [goal, hst]
    rfl
  | _ => cases hterm

section Marker

variable {marker : Marker} {plan : Option (List StreamId)}
  {chosen : List (Option String × ℕ × Target × StreamId)}

/-- A marker is replaced by one that says nothing that is not so. -/
theorem keeps_marker (hs : s.Custody) (hat : At parkId payloads s)
    (hpark : marker.parkId = s.marker.parkId) (hmvs : s.Moves { s with marker, plan, chosen })
    (hsaid : { s with marker, plan, chosen }.Says parkId payloads) :
    s.Keeps { s with marker, plan, chosen } := by
  have hcurr := hs.current parkId payloads hat.1
  have hst : marker.state ≠ none := hmvs.marked hat.2
  refine keeps_of_current hs hat hmvs hs.entries (fun _ _ => rfl)
    ⟨hsaid, fun _ => hpark.trans (hcurr.park hat.2), fun h => absurd h hst, hcurr.quarantine, ?_,
      hcurr.index.imp_right (·.mono hmvs)⟩
  obtain ⟨state, hsome⟩ := ne_none_iff_exists'.1 hst
  by_cases hterm : state.terminal = true
  · exact .inr (settled_of_terminal hsaid hsome hterm)
  · rcases hcurr.kept with ⟨-, hfull⟩ | hsett
    · exact .inl ⟨⟨state, hsome, hterm⟩, hfull⟩
    · exact .inr (hsett.mono hmvs)

/-- A field of the marker that says nothing about the messages, or an ID that was just chosen. -/
theorem keeps_fields (hs : s.Custody) (hat : At parkId payloads s)
    (hst : marker.state = s.marker.state) (hpark : marker.parkId = s.marker.parkId)
    (hexp : marker.expiring = s.marker.expiring) (hunc : marker.uncertain = s.marker.uncertain)
    (hchos : ∀ choice ∈ s.chosen, choice ∈ chosen)
    (hplan : ∀ planned, marker.planned = some planned → s.marker.planned = some planned ∨
      ∃ target, s.goal = some (some target) ∧ { s with chosen }.Chosen parkId target planned)
    (hforc : ∀ i id, marker.force.get? i = some id → s.marker.force.get? i = some id ∨
      (some parkId, i, .source, id) ∈ chosen) :
    s.Keeps { s with marker, plan, chosen } := by
  have hmvs : s.Moves { s with marker, plan, chosen } := by
    refine { Moves.refl s with marked := ?_, goal := ?_, chosen := hchos }
    · simp only [hst, imp_self]
    · simp only [goal, hst, imp_self, implies_true]
  exact keeps_marker hs hat hpark hmvs
    ((hs.current parkId payloads hat.1).mono hmvs hst hexp hunc hplan hforc)

end Marker

theorem keeps_state (hs : s.Custody) (hon : On goal parkId payloads s)
    (hgoal : state.goal = some goal)
    (hpub : state = .resumed ∨ state = .dlqed → s.PublishedBut parkId payloads []) :
    s.Keeps { s with marker := { s.marker with state := some state } } := by
  have hcurr := hs.current parkId payloads hon.1
  have hsame : { s with marker := { s.marker with state := some state } }.goal = s.goal :=
    hgoal.trans hon.2.symm
  refine keeps_marker hs hon.at rfl
    { Moves.refl s with marked := fun _ => nofun, goal := fun _ h => hsame.trans h }
    { hcurr.toSays with published := ?_, dropped := fun h => ?_, planned := fun planned h => ?_ }
  · rintro (h | h)
    · exact hpub (.inl (some.inj h))
    · exact hpub (.inr (some.inj h))
  · exact hcurr.dropped (hsame.symm.trans h)
  · obtain ⟨target, hg, hchos⟩ := hcurr.planned planned h
    exact ⟨target, hsame.trans hg, hchos⟩

/-- What is settled can be deleted. -/
theorem keeps_deleted (hs : s.Custody) (hat : At parkId payloads s)
    (hsett : s.Settled parkId payloads)
    (hs' : s' = { s with quarantine := Function.update s.quarantine parkId .absent } ∨
      s' = { s with index := none }) : s.Keeps s' := by
  have hcurr := hs.current parkId payloads hat.1
  rcases hs' with rfl | rfl
  · refine keeps_of_current hs hat { Moves.refl s with } hs.entries ?_
      { hcurr with
        quarantine := .inr ?_
        kept := .inr hsett }
    · intro other hoth
      simp only [Function.update_of_ne hoth]
    · simp only [Function.update_self]
  · exact keeps_of_current hs hat { Moves.refl s with } hs.entries
      (fun _ _ => rfl) { hcurr with index := .inr hsett }

theorem keeps_claim (operation : String) (hs : s.Custody)
    (hat : At parkId payloads s) (hst : ¬ state.terminal = true)
    (hgoal : ∀ goal, s.goal = some goal → state.goal = some goal) :
    s.Keeps (s.claim state operation) := by
  have hcurr := hs.current parkId payloads hat.1
  have hmvs : s.Moves (s.claim state operation) := by
    refine { Moves.refl s with drops := fun other hoth => ?_, marked := nofun, goal := hgoal }
    simp only [claim]
    split_ifs
    · exact mem_append_left _ hoth
    · exact hoth
  refine keeps_of_current hs hat hmvs hs.entries (fun _ _ => rfl)
    ⟨⟨?_, ?_, fun h => (hcurr.expiring h).mono hmvs, hcurr.uncertain, ?_, hcurr.force⟩,
      fun _ => hcurr.park hat.2, nofun, hcurr.quarantine, ?_, hcurr.index.imp_right (·.mono hmvs)⟩
  · rintro (h | h)
    · cases h
      exact absurd rfl hst
    · cases h
      exact absurd rfl hst
  · intro h
    cases state with
    | dropping => simp [claim, hcurr.park hat.2]
    | dropped => exact absurd rfl hst
    | _ => cases h
  · intro planned hplan
    obtain ⟨target, hg, hchos⟩ := hcurr.planned planned hplan
    exact ⟨target, hgoal _ hg, hchos⟩
  · rcases hcurr.kept with ⟨-, hfull⟩ | hsett
    · exact .inl ⟨⟨state, rfl, hst⟩, hfull⟩
    · exact .inr (hsett.mono hmvs)

theorem keeps_of_same (hs : s.Custody) {lock : Option String} {fence : Fence} {pending : List StreamId}
    {source dlq : Stream π}
    (hhist : ∀ target, ∀ entry ∈ (s.stream target).history,
      entry ∈ ({ s with source, dlq }.stream target).history)
    (hents : ∀ target, ∀ entry ∈ ({ s with source, dlq }.stream target).entries,
      entry ∈ ({ s with source, dlq }.stream target).history) :
    s.Keeps { s with lock, fence, pending, source, dlq } := by
  have hmvs : s.Moves { s with lock, fence, pending, source, dlq } :=
    { Moves.refl s with history := hhist }
  refine ⟨hmvs, { hs with
    entries := hents
    earlier := fun park hpark => (hs.earlier park hpark).mono hmvs
    current := fun parkId payloads hlast => ?_ }⟩
  have hcurr := hs.current parkId payloads hlast
  exact { hcurr with
    toSays := hcurr.mono hmvs rfl rfl rfl (fun _ => .inl) fun _ _ => .inl
    kept := hcurr.kept.imp_right (·.mono hmvs)
    index := hcurr.index.imp_right (·.mono hmvs) }

theorem keeps_refl (hs : s.Custody) : s.Keeps s := ⟨.refl s, hs⟩

theorem keeps_stream {stream : Stream π} (hs : s.Custody)
    (hhist : ∀ entry ∈ (s.stream target).history, entry ∈ stream.history)
    (hents : ∀ entry ∈ stream.entries, entry ∈ stream.history) :
    s.Keeps (s.setStream target stream) := by
  have hhist' := history_setStream hhist
  have hents' := entries_setStream target hs.entries hents
  obtain ⟨source, dlq, hset⟩ := exists_setStream s target stream
  rw [hset] at hhist' hents' ⊢
  exact keeps_of_same hs hhist' hents'

theorem keeps_add (target : Target) (entry : Entry π) (hs : s.Custody) :
    s.Keeps (s.setStream target ((s.stream target).add entry)) := by
  refine keeps_stream hs (fun other hoth => mem_append_left _ hoth) ?_
  intro other hoth
  rcases mem_append.1 hoth with h | h
  · exact mem_append_left _ (hs.entries target other h)
  · exact mem_append_right _ h

end Writes

end DispositionStore

/-! ## The programs -/

open DispositionStore Prog

section Programs

variable {α : Type} {s : DispositionStore π} {parkId : String} {payloads : List π}

/-- The program of an executor is safe from `s`. An error promises nothing. -/
abbrev SafeExecutor (Q : α → DispositionStore π → Prop) (p : Executor π α)
    (s : DispositionStore π) : Prop :=
  Safe Moves Keeps Custody (fun _ _ => True) Q (fun _ _ => True) p s

theorem ground : Ground (π := π) Moves Keeps Custody := by
  refine ⟨fun _ => keeps_refl, fun _ _ h => h.1, ?_, fun _ target entry hs => hs.entries target entry⟩
  intro s s' target id payload hmvs h
  obtain ⟨entry, hent, hid, hdata⟩ := h
  exact ⟨entry, hmvs.history target entry hent, hid, hdata⟩

/-- What the state of the marker says about the park. -/
def Seen (state : DispositionState) (parkId : String) (payloads : List π)
    (s : DispositionStore π) : Prop :=
  (∀ goal, state.goal = some goal → On goal parkId payloads s) ∧
    (state = .resumed ∨ state = .dlqed → s.PublishedBut parkId payloads [])

variable {state : DispositionState} {indexes : List ℕ} {route : Route} {goal : Option Target}

theorem Seen.mono {s' : DispositionStore π}
    (h : Seen state parkId payloads s) (hmvs : s.Moves s') : Seen state parkId payloads s' :=
  ⟨fun goal hgoal => (h.1 goal hgoal).mono s s' hmvs, fun hst => (h.2 hst).mono hmvs⟩

theorem exists_at (hs : s.Custody) (hst : s.marker.state = some state) :
    ∃ parkId payloads, At parkId payloads s ∧ Seen state parkId payloads s := by
  have hmark : s.marker.state ≠ none := by simp [hst]
  cases hlast : s.parks.getLast? with
  | none =>
    have habs := hs.idle (getLast?_eq_none_iff.1 hlast)
    rw [habs] at hmark
    exact absurd rfl hmark
  | some park =>
    have hcurr := hs.current park.1 park.2 hlast
    refine ⟨park.1, park.2, ⟨hlast, hmark⟩, fun goal hgoal => ⟨hlast, ?_⟩, ?_⟩
    · rw [DispositionStore.goal, hst]
      exact hgoal
    · rintro (rfl | rfl)
      · exact hcurr.published (.inl hst)
      · exact hcurr.published (.inr hst)

theorem safe_readMarker :
    SafeExecutor (fun found s => ∃ payloads, At found.2 payloads s ∧ Seen found.1 found.2 payloads s)
      (readMarker (π := π)) s := by
  refine safe_read_bind ground.reads fun s1 _ hs1 => ?_
  refine safe_read_bind ground.reads fun s2 hR2 hs2 => ?_
  cases hst : s1.marker.state with
  | none => trivial
  | some state =>
    obtain ⟨parkId, payloads, hat, hseen⟩ := exists_at hs1 hst
    have hat2 := hat.mono hR2
    have hpark : s2.marker.parkId = some parkId := (hs2.current parkId payloads hat2.1).park hat2.2
    rw [hpark]
    exact ⟨payloads, hat2, hseen.mono hR2⟩

/-! ### Endings -/

/-- The executor works on a park whose messages it knows to be settled. -/
def Ending (parkId : String) (payloads : List π) (s : DispositionStore π) : Prop :=
  At parkId payloads s ∧ s.Settled parkId payloads

theorem Ending.mono (s s' : DispositionStore π) (hmvs : s.Moves s')
    (h : Ending parkId payloads s) : Ending parkId payloads s' :=
  ⟨h.1.mono hmvs, h.2.mono hmvs⟩

theorem keeps_expire (hs : s.Custody) (h : Ending parkId payloads s) :
    s.Keeps { s with
      marker := { s.marker with expiring := s.marker.expiring || s.marker.present } } := by
  have hcurr := hs.current parkId payloads h.1.1
  exact keeps_marker hs h.1 rfl { Moves.refl s with } { hcurr.toSays with expiring := fun _ => h.2 }

theorem safe_cleanUp {Q : α → DispositionStore π → Prop} {q : Executor π α}
    (h : Ending parkId payloads s) (hq : ∀ s, Ending parkId payloads s → SafeExecutor Q q s) :
    SafeExecutor Q (do
      deleteIndex
      deleteQuarantine parkId
      expireMarker
      q) s := by
  refine safe_write ground Ending.mono h
    (fun s hs h => keeps_deleted hs h.1 h.2 (.inr rfl)) fun s h => ?_
  refine safe_write ground Ending.mono h
    (fun s hs h => keeps_deleted hs h.1 h.2 (.inl rfl)) fun s h => ?_
  exact safe_write ground Ending.mono h (fun s hs h => keeps_expire hs h) hq

theorem safe_finish {final : DispositionState} (hgoal : final.goal = some goal)
    (ids : List StreamId) (hon : On goal parkId payloads s)
    (hpub : s.PublishedBut parkId payloads []) :
    SafeExecutor (fun _ _ => True) (finish final parkId ids) s := by
  let K : DispositionStore π → Prop := fun s =>
    On goal parkId payloads s ∧ s.PublishedBut parkId payloads []
  have hK : ∀ s s' : DispositionStore π, s.Moves s' → K s → K s' := fun s s' hmvs h =>
    ⟨h.1.mono s s' hmvs, h.2.mono hmvs⟩
  have h : K s := ⟨hon, hpub⟩
  refine safe_write ground hK h (fun s hs h => keeps_fields hs h.1.at rfl rfl rfl rfl (fun _ h => h)
    (fun _ => .inl) fun _ _ => .inl) fun s h => ?_
  refine safe_write ground hK h (fun s hs h => keeps_state hs h.1 hgoal fun _ => h.2) fun s h => ?_
  exact safe_cleanUp ⟨h.1.at, .inl h.2⟩ fun _ _ => trivial

/-! ### Publishing -/

theorem safe_load (hon : On goal parkId payloads s) :
    SafeExecutor (fun found s => found = payloads ∧ On goal parkId payloads s)
      (loadQuarantinePayloads parkId) s := by
  refine safe_mono (safe_loadQuarantinePayloads (L := fun _ => True) ground On.mono
    (fun _ _ _ h => h) (fun s hs h => (hs.current parkId payloads h.1).quarantine)
    (fun _ _ _ _ => trivial) hon) ?_ fun _ _ _ => trivial
  intro found s h
  exact ⟨h.1, h.2.1⟩

theorem safe_claimTransition {expected : DispositionState} (lease : OwnerLease)
    (hst : ¬ state.terminal = true) (hgoal : state.goal = some goal)
    (hexp : ∀ goal, expected.goal = some goal → state.goal = some goal)
    (hat : At parkId payloads s) :
    SafeExecutor (fun _ => On goal parkId payloads) (claimTransition expected state lease) s := by
  refine safe_atomic_bind fun s1 hR1 hs1 _ => ?_
  have hat1 := hat.mono hR1
  cases lease.check s1 with
  | error reject => exact ⟨keeps_refl hs1, trivial⟩
  | ok _ =>
    simp only
    by_cases hsame : s1.marker.state = some expected
    · rw [if_neg (not_not.2 hsame)]
      refine ⟨keeps_claim lease.operationId hs1 hat1 hst fun other hoth => hexp other ?_,
        hat1.1, hgoal⟩
      rwa [DispositionStore.goal, hsame] at hoth
    · rw [if_pos hsame]
      exact ⟨keeps_refl hs1, trivial⟩

/-- The executor knows which IDs were chosen for the messages of its park. -/
def Planned (target : Target) (parkId : String) (payloads : List π) (planned : List StreamId)
    (s : DispositionStore π) : Prop :=
  On (some target) parkId payloads s ∧ s.Chosen parkId target planned

variable {planned : List StreamId}

theorem Planned.mono (s s' : DispositionStore π) (hmvs : s.Moves s')
    (h : Planned target parkId payloads planned s) : Planned target parkId payloads planned s' :=
  ⟨h.1.mono s s' hmvs, h.2.mono hmvs⟩

theorem safe_reserve (route : Route) (hon : On (some route.target) parkId payloads s) :
    SafeExecutor (Planned route.target parkId payloads) (reserve route parkId) s := by
  refine safe_read_bind ground.reads fun s1 hR1 hs1 => ?_
  have hon1 := hon.mono s s1 hR1
  cases hplan : s1.marker.planned with
  | some planned => exact ⟨hon1, hon1.planned hs1 hplan⟩
  | none =>
    refine safe_then (safe_load hon1) ?_
    intro found s2 h2
    refine safe_read_bind ground.reads fun s3 hR3 _ => ?_
    have hon3 := h2.2.mono s2 s3 hR3
    cases planIds (s3.stream route.target).last found.length with
    | error error => trivial
    | ok planned =>
      refine safe_atomic_bind fun s4 hR4 hs4 _ => ?_
      have hon4 := hon3.mono s3 s4 hR4
      by_cases hnone : s4.marker.planned.isNone
      · rw [if_pos hnone]
        have hpark := (hs4.current parkId payloads hon4.1).park hon4.at.2
        have hchos : ∀ i id, planned[i]? = some id → (some parkId, i, route.target, id) ∈
            s4.chosen ++ planned.zipIdx.map fun pair =>
              (s4.marker.parkId, pair.2, route.target, pair.1) := by
          intro i id hid
          rw [hpark]
          exact mem_append_right _ (mem_map.2 ⟨(id, i), mem_zipIdx_iff_getElem?.2 hid, rfl⟩)
        refine ⟨keeps_fields hs4 hon4.at rfl rfl rfl rfl (fun _ h => mem_append_left _ h)
          (fun _ h => .inr ⟨route.target, hon4.2, ?_⟩) fun _ _ => .inl, hon4, hchos⟩
        cases h
        exact hchos
      · rw [if_neg hnone]
        refine ⟨keeps_refl hs4, ?_⟩
        refine safe_read_bind ground.reads fun s5 hR5 hs5 => ?_
        have hon5 := hon4.mono s4 s5 hR5
        cases hplan5 : s5.marker.planned with
        | some planned => exact ⟨hon5, hon5.planned hs5 hplan5⟩
        | none => trivial

theorem safe_loadUncertain (indexes : List ℕ) (hon : On goal parkId payloads s) :
    SafeExecutor (fun found s => On goal parkId payloads s ∧ found.map (·.1) = indexes ∧
      ∀ message ∈ found, payloads[message.1]? = some message.2)
      (loadUncertain parkId indexes) s := by
  induction indexes generalizing s with
  | nil => exact ⟨hon, rfl, nofun⟩
  | cons i rest ih =>
    refine safe_read_bind ground.reads fun s1 hR1 hs1 => ?_
    have hon1 := hon.mono s s1 hR1
    cases hpayl : (s1.quarantine parkId).payload i with
    | none => trivial
    | some payload =>
      refine safe_then (ih hon1) ?_
      intro others s2 ⟨hon2, hind, hoth⟩
      refine ⟨hon2, by simp [hind], forall_mem_cons.2 ⟨?_, hoth⟩⟩
      rcases (hs1.current parkId payloads hon1.1).quarantine with hq | hq
      · rw [hq] at hpayl
        exact hpayl
      · rw [hq] at hpayl
        cases hpayl

theorem safe_dropParked (lease : OwnerLease) :
    SafeExecutor (fun _ _ => True) (dropParked (π := π) lease) s := by
  refine safe_verifyOwnerFenced ground lease fun s1 => ?_
  refine safe_then safe_readMarker ?_
  rintro ⟨state, parkId⟩ s2 ⟨payloads, hat, hseen⟩
  -- whichever way it came here, the park was claimed for a drop
  have hrest : ∀ s : DispositionStore π, On none parkId payloads s →
      SafeExecutor (fun _ _ => True) (do
        deleteQuarantine parkId
        deleteIndex
        setState .dropped
        expireMarker
        return ([] : List StreamId)) s := by
    intro s hon
    refine safe_write ground On.mono hon
      (fun s hs h => keeps_deleted hs h.at (h.settled hs) (.inl rfl)) fun s h => ?_
    refine safe_write ground On.mono h
      (fun s hs h => keeps_deleted hs h.at (h.settled hs) (.inr rfl)) fun s h => ?_
    refine safe_write ground On.mono h (fun s hs h => keeps_state hs h rfl nofun) fun s h => ?_
    exact safe_write ground On.mono h (fun s hs h => keeps_expire hs ⟨h.at, h.settled hs⟩)
      fun _ _ => trivial
  simp only
  cases state with
  | parked =>
    exact safe_then (safe_claimTransition lease (by decide) rfl nofun hat) fun _ s3 h3 => hrest s3 h3
  | dropping =>
    exact safe_then (safe_assertOpOwns ground On.mono lease.operationId (hseen.1 none rfl))
      fun _ s3 h3 => hrest s3 h3
  | dropped => exact hrest s2 (hseen.1 none rfl)
  | _ => trivial

/-- The executor publishes message `i` under an ID that was chosen for it. -/
def Forcing (parkId : String) (payloads : List π) (i : ℕ) (id : StreamId)
    (s : DispositionStore π) : Prop :=
  On (some .source) parkId payloads s ∧ (some parkId, i, .source, id) ∈ s.chosen

variable {i : ℕ} {id : StreamId}

theorem Forcing.mono (s s' : DispositionStore π) (hmvs : s.Moves s')
    (h : Forcing parkId payloads i id s) : Forcing parkId payloads i id s' :=
  ⟨h.1.mono s s' hmvs, hmvs.chosen _ h.2⟩

/-- What an executor knows of the messages that it still has to publish by force. -/
def Known (parkId : String) (payloads : List π) (indexes : List ℕ) (ids : List StreamId)
    (s : DispositionStore π) : Prop :=
  s.PublishedBut parkId payloads indexes ∧ s.Chosen parkId .source ids

variable {ids : List StreamId}

theorem Known.mono (s s' : DispositionStore π) (hmvs : s.Moves s')
    (h : Known parkId payloads indexes ids s) : Known parkId payloads indexes ids s' :=
  ⟨h.1.mono hmvs, h.2.mono hmvs⟩

theorem Route.Usual.goals (h : route.Usual) : route.publishing.goal = some (some route.target) ∧
    route.final.goal = some (some route.target) ∧
    route.indeterminate.goal = some (some route.target) := by
  rcases h with rfl | rfl
  · exact ⟨rfl, rfl, rfl⟩
  · exact ⟨rfl, rfl, rfl⟩

variable [DecidableEq π]

theorem safe_publishReserved (hroute : route.Usual)
    (hlen : payloads.length = planned.length) (h : Planned route.target parkId payloads planned s) :
    SafeExecutor (fun _ _ => True) (publishReserved route parkId planned payloads) s := by
  refine safe_then (safe_publishEach ground Planned.mono (planned.zip payloads) 0
    (fun j message _ s hs _ _ => keeps_add _ _ hs) h) ?_
  intro uncertain s1 ⟨h1, hheld⟩
  -- every message that is not uncertain is published
  have hpub : s1.PublishedBut parkId payloads uncertain := by
    intro i payload hpayl hi
    obtain ⟨hlt, -⟩ := List.getElem?_eq_some_iff.1 hpayl
    obtain ⟨id, hid⟩ : ∃ id, planned[i]? = some id := ⟨_, List.getElem?_eq_getElem (hlen ▸ hlt)⟩
    have hzip : (planned.zip payloads)[i]? = some (id, payload) :=
      List.getElem?_zip_eq_some.2 ⟨hid, hpayl⟩
    exact ⟨route.target, id, h1.2 i id hid, hheld i _ hzip (by simpa using hi)⟩
  by_cases hnone : uncertain = []
  · subst hnone
    exact safe_finish hroute.goals.2.1 planned h1.1 hpub
  · rw [if_pos hnone]
    let K : DispositionStore π → Prop := fun s => On (some route.target) parkId payloads s ∧
      s.PublishedBut parkId payloads uncertain
    have hK : ∀ s s' : DispositionStore π, s.Moves s' → K s → K s' := fun s s' hmvs h =>
      ⟨h.1.mono s s' hmvs, h.2.mono hmvs⟩
    refine safe_write ground hK ⟨h1.1, hpub⟩ (fun s hs h => ?_) fun s h => ?_
    · have hcurr := hs.current parkId payloads h.1.1
      refine keeps_marker hs h.1.at rfl { Moves.refl s with }
        { hcurr.toSays with uncertain := fun indexes hind => ?_ }
      cases hind
      exact h.2
    · refine safe_write ground hK h (fun s hs h => keeps_state hs h.1 hroute.goals.2.2 ?_)
        fun _ _ => trivial
      rcases hroute with rfl | rfl <;> nofun

theorem safe_publishStep (hroute : route.Usual) (hon : On (some route.target) parkId payloads s) :
    SafeExecutor (fun _ _ => True) (publishStep route parkId) s := by
  refine safe_then (safe_reserve route hon) ?_
  intro planned s1 h1
  refine safe_bind (safe_then (safe_frame (fun _ _ hmvs h => Chosen.mono h hmvs) ground.own
    (safe_load h1.1) h1.2) ?_)
  intro found s2 ⟨⟨hfnd, hon2⟩, hchos2⟩
  subst hfnd
  by_cases hlen : found.length = planned.length
  · rw [if_neg (not_not.2 hlen)]
    exact safe_publishReserved hroute hlen ⟨hon2, hchos2⟩
  · rw [if_pos hlen]
    trivial

/-! ### Operations -/

theorem safe_publishParked (hroute : route.Usual) (lease : OwnerLease) :
    SafeExecutor (fun _ _ => True) (publishParked (π := π) route lease) s := by
  refine safe_verifyOwnerFenced ground lease fun s1 => ?_
  refine safe_then safe_readMarker ?_
  rintro ⟨state, parkId⟩ s2 ⟨payloads, hat, hseen⟩
  simp only
  split_ifs with hpark hpubl hind hfin
  · refine safe_then (safe_claimTransition lease ?_ hroute.goals.1 nofun hat) ?_
    · rcases hroute with rfl | rfl
      · simp [resumeRoute, DispositionState.terminal]
      · simp [dlqRoute, DispositionState.terminal]
    · intro _ s3 h3
      exact safe_publishStep hroute h3
  · subst hpubl
    refine safe_then (safe_assertOpOwns ground On.mono lease.operationId
      (hseen.1 _ hroute.goals.1)) ?_
    intro _ s3 h3
    exact safe_publishStep hroute h3
  · trivial
  · have hpub : s2.PublishedBut parkId payloads [] := by
      apply hseen.2
      rcases hroute with rfl | rfl
      · exact .inl hfin
      · exact .inr hfin
    refine safe_cleanUp ⟨hat, .inl hpub⟩ fun s h => ?_
    exact safe_read_bind ground.reads fun _ _ _ => trivial
  · trivial

/-! ### Forced publishing -/

theorem safe_xaddForceTarget (payload : π) (h : Forcing parkId payloads i id s) :
    SafeExecutor (fun _ s => Forcing parkId payloads i id s ∧ s.Held .source id payload)
      (xaddForceTarget id payload i) s := by
  refine safe_atomic_bind fun s1 hR1 hs1 _ => ?_
  have h1 := h.mono s s1 hR1
  by_cases hlast : (s1.stream .source).last < id
  · rw [if_pos hlast]
    have hkeeps := keeps_add .source ⟨id, some payload, some i⟩ hs1
    exact ⟨hkeeps, h1.mono _ _ hkeeps.1, held_add s1 .source id payload i⟩
  · rw [if_neg hlast]
    refine ⟨keeps_refl hs1, ?_⟩
    refine safe_then (safe_reconcileOne ground Forcing.mono h1) ?_
    intro confirmed s2 ⟨h2, hheld⟩
    cases confirmed with
    | true => exact ⟨h2, hheld rfl⟩
    | false => trivial

theorem safe_commitTarget (payload : π) (id : StreamId)
    (hon : On (some .source) parkId payloads s) :
    SafeExecutor (fun id s => Forcing parkId payloads i id s ∧ s.Held .source id payload)
      (commitTarget i payload id) s := by
  refine safe_modify_bind fun s1 hR1 hs1 _ => ?_
  have hon1 := hon.mono s s1 hR1
  have hpark := (hs1.current parkId payloads hon1.1).park hon1.at.2
  have hchos : (some parkId, i, .source, id) ∈
      s1.chosen ++ [(s1.marker.parkId, i, .source, id)] := by simp [hpark]
  have hkeeps : s1.Keeps { s1 with
      marker := { s1.marker with force := s1.marker.force.insert i id }
      chosen := s1.chosen ++ [(s1.marker.parkId, i, .source, id)] } := by
    refine keeps_fields hs1 hon1.at rfl rfl rfl rfl (fun _ h => mem_append_left _ h)
      (fun _ => .inl) fun j other hj => ?_
    simp only [Dict.get?_insert] at hj
    split_ifs at hj with hji
    · cases hj
      exact .inr (hji ▸ hchos)
    · exact .inl hj
  exact ⟨hkeeps, safe_then (safe_xaddForceTarget payload ⟨hon1.mono _ _ hkeeps.1, hchos⟩)
    fun _ _ h => h⟩

theorem safe_forceOne {planned : StreamId} (payload : π)
    (h : Forcing parkId payloads i planned s) :
    SafeExecutor (fun id s => Forcing parkId payloads i id s ∧ s.Held .source id payload)
      (forceOne planned i payload) s := by
  have hfresh : ∀ s : DispositionStore π, On (some .source) parkId payloads s →
      SafeExecutor (fun id s => Forcing parkId payloads i id s ∧ s.Held .source id payload) (do
        let fresh ← freshTarget
        commitTarget i payload fresh) s := by
    intro s hon
    refine safe_bind (safe_read_bind ground.reads fun s1 hR1 _ => ?_)
    cases nextId (s1.stream .source).last with
    | error error => trivial
    | ok fresh => exact safe_commitTarget payload fresh (hon.mono s s1 hR1)
  refine safe_read_bind ground.reads fun s1 hR1 hs1 => ?_
  have h1 := h.mono s s1 hR1
  cases hforc : s1.marker.force.get? i with
  | none =>
    refine safe_bind (safe_attempt (safe_mono (safe_reconcileOne ground Forcing.mono h1) ?_
      fun error s2 h2 => ?_))
    · intro confirmed s2 ⟨h2, hheld⟩
      cases confirmed with
      | true => exact ⟨h2, hheld rfl⟩
      | false => exact hfresh s2 h2.1
    · cases error with
      | retryable => exact safe_commitTarget payload planned h2.1
      | _ => trivial
  | some id =>
    have hid : Forcing parkId payloads i id s1 :=
      ⟨h1.1, (hs1.current parkId payloads h1.1.1).force i id hforc⟩
    refine safe_bind (safe_attempt (safe_mono (safe_reconcileOne ground Forcing.mono hid) ?_
      fun error s2 h2 => ?_))
    · intro confirmed s2 ⟨h2, hheld⟩
      cases confirmed with
      | true => exact ⟨h2, hheld rfl⟩
      | false => exact hfresh s2 h2.1
    · cases error with
      | retryable => exact safe_then (safe_xaddForceTarget payload h2) fun _ _ h => h
      | _ => trivial

/-- The loop: each turn publishes one more message. -/
theorem safe_forceEach (messages : List (ℕ × π))
    (hmess : ∀ message ∈ messages, payloads[message.1]? = some message.2 ∧ message.1 < ids.length)
    (hon : On (some .source) parkId payloads s)
    (h : Known parkId payloads (messages.map (·.1)) ids s) :
    SafeExecutor (fun _ s => On (some .source) parkId payloads s ∧
      s.PublishedBut parkId payloads []) (forceEach ids messages) s := by
  induction messages generalizing s ids with
  | nil => exact ⟨hon, h.1⟩
  | cons first rest ih =>
    obtain ⟨i, payload⟩ := first
    obtain ⟨⟨hpayl, hlt⟩, hrest⟩ := forall_mem_cons.1 hmess
    have hid : (some parkId, i, Target.source, ids.getD i (toLex (0, 0))) ∈ s.chosen :=
      h.2 i _ (by simp [getD_eq_getElem?_getD, hlt])
    refine safe_then (safe_frame Known.mono ground.own (safe_forceOne payload ⟨hon, hid⟩) h) ?_
    intro id s1 ⟨⟨hforc, hheld⟩, h1⟩
    refine ih (by simpa using hrest) hforc.1 ⟨fun j other hoth hj => ?_, fun j other hoth => ?_⟩
    · by_cases hji : j = i
      · subst hji
        cases some.inj (hpayl.symm.trans hoth)
        exact ⟨.source, id, hforc.2, hheld⟩
      · exact h1.1 j other hoth (by simpa [hji] using hj)
    · rw [getElem?_set] at hoth
      split_ifs at hoth with hij
      · cases hoth
        exact hij ▸ hforc.2
      · exact h1.2 j other hoth

theorem safe_publishForced (messages : List (ℕ × π))
    (hmess : ∀ message ∈ messages, payloads[message.1]? = some message.2 ∧ message.1 < ids.length)
    (hon : On (some .source) parkId payloads s)
    (h : Known parkId payloads (messages.map (·.1)) ids s) :
    SafeExecutor (fun _ _ => True) (publishForced parkId ids messages) s :=
  safe_then (safe_forceEach messages hmess hon h) fun _ _ h => safe_finish rfl _ h.1 h.2

theorem safe_forceFrom (first : Bool) (lease : OwnerLease)
    (hon : On (some .source) parkId payloads s) :
    SafeExecutor (fun _ _ => True) (forceFrom first lease) s := by
  refine safe_read_bind ground.reads fun s1 hR1 hs1 => ?_
  have hon1 := hon.mono s s1 hR1
  have hpark := (hs1.current parkId payloads hon1.1).park hon1.at.2
  rw [hpark]
  simp only [getD_some]
  by_cases hemp : parkId = ""
  · rw [if_pos hemp]
    trivial
  rw [if_neg hemp]
  refine safe_read_bind ground.reads fun s2 hR2 hs2 => ?_
  have hon2 := hon1.mono s1 s2 hR2
  cases hplan : s2.marker.planned with
  | none => trivial
  | some planned =>
    refine safe_read_bind ground.reads fun s3 hR3 hs3 => ?_
    have hon3 := hon2.mono s2 s3 hR3
    cases hunc : s3.marker.uncertain with
    | none => trivial
    | some uncertain =>
      have h3 : Known parkId payloads uncertain planned s3 :=
        ⟨(hs3.current parkId payloads hon3.1).uncertain uncertain hunc,
          (hon2.planned hs2 hplan).mono hR3⟩
      simp only
      by_cases hbad : uncertain = [] ∨ (uncertain.any (planned.length ≤ ·)) ∨ ¬ uncertain.Nodup
      · rw [if_pos hbad]
        trivial
      rw [if_neg hbad]
      refine safe_then (safe_frame Known.mono ground.own (safe_loadUncertain uncertain hon3) h3) ?_
      intro messages s4 ⟨⟨hon4, hind, hmess⟩, h4⟩
      subst hind
      have hmess4 : ∀ message ∈ messages, payloads[message.1]? = some message.2 ∧
          message.1 < planned.length := by
        intro message hmsg
        refine ⟨hmess message hmsg, not_le.1 fun hle => hbad (.inr (.inl ?_))⟩
        exact any_eq_true.2 ⟨message.1, mem_map_of_mem hmsg, by simpa using hle⟩
      cases first with
      | true =>
        refine safe_then (safe_frame Known.mono ground.own
          (safe_claimTransition lease (by decide) rfl (fun _ h => h) hon4.at) h4) ?_
        intro _ s5 ⟨hon5, h5⟩
        exact safe_publishForced messages hmess4 hon5 h5
      | false => exact safe_publishForced messages hmess4 hon4 h4

theorem safe_forceRepublish (lease : OwnerLease) :
    SafeExecutor (fun _ _ => True) (forceRepublish (π := π) lease) s := by
  refine safe_verifyOwnerFenced ground lease fun s1 => ?_
  refine safe_read_bind ground.reads fun s2 _ hs2 => ?_
  cases hst : s2.marker.state with
  | none => trivial
  | some state =>
    obtain ⟨parkId, payloads, -, hseen⟩ := exists_at hs2 hst
    cases state with
    | resumeIndeterminate => exact safe_forceFrom true lease (hseen.1 _ rfl)
    | forcePublishing =>
      refine safe_then (safe_assertOpOwns ground On.mono lease.operationId (hseen.1 _ rfl)) ?_
      intro _ s3 h3
      exact safe_forceFrom false lease h3
    | _ => trivial

theorem safe_forceTakeover (lease : OwnerLease) :
    SafeExecutor (fun _ _ => True) (forceTakeover (π := π) lease) s := by
  refine safe_verifyOwnerFenced ground lease fun s1 => ?_
  refine safe_read_bind ground.reads fun s2 _ hs2 => ?_
  cases hst : s2.marker.state with
  | none => trivial
  | some state =>
    obtain ⟨parkId, payloads, hat, -⟩ := exists_at hs2 hst
    simp only
    by_cases hoth : state ≠ .resumePublishing ∧ state ≠ .dlqPublishing ∧
        state ≠ .forcePublishing ∧ state ≠ .dropping
    · rw [if_pos hoth]
      trivial
    rw [if_neg hoth]
    refine safe_atomic_bind fun s3 hR3 hs3 _ => ?_
    have hat3 := hat.mono hR3
    by_cases hsame : s3.marker.state = some state
    · rw [if_pos hsame]
      refine ⟨keeps_fields hs3 hat3 rfl rfl rfl rfl (fun _ h => h) (fun _ => .inl) fun _ _ => .inl,
        ?_⟩
      cases state with
      | resumePublishing => exact safe_publishParked (.inl rfl) lease
      | dlqPublishing => exact safe_publishParked (.inr rfl) lease
      | forcePublishing => exact safe_forceRepublish lease
      | _ => exact safe_dropParked lease
    · rw [if_neg hsame]
      exact ⟨keeps_refl hs3, trivial⟩

theorem safe_program (operation : Operation) (lease : OwnerLease) :
    SafeExecutor (fun _ _ => True) (operation.program (π := π) lease) s := by
  cases operation with
  | resume => exact safe_publishParked (.inl rfl) lease
  | dlqFromParked => exact safe_publishParked (.inr rfl) lease
  | forceRepublish => exact safe_forceRepublish lease
  | dropParked => exact safe_dropParked lease
  | forceTakeover => exact safe_forceTakeover lease

end Programs

/-! ## Parks and other events -/

section Events

variable {s : DispositionStore π} {parkId : String}

theorem not_open (h : s.marker.state.all (·.terminal) = true) : ¬ s.Open := by
  rintro ⟨state, hst, hopen⟩
  rw [hst] at h
  exact hopen h

/-- A new park starts with nothing of the earlier ones. -/
theorem marker_park (hs : s.Custody) (records : List (StreamId × π)) :
    (s.park parkId records).marker = { Marker.absent with
      state := some .parked
      parkId := some parkId
      version := some s.nextVersion } := by
  have habs : s.marker.state = none → s.marker = .absent := by
    intro hnone
    cases hlast : s.parks.getLast? with
    | none => exact hs.idle (getLast?_eq_none_iff.1 hlast)
    | some park => exact (hs.current park.1 park.2 hlast).absent hnone
  cases hst : s.marker.state with
  | none => simp [park, habs hst, Marker.absent]
  | some state => simp [park, hst]

theorem DispositionStore.Custody.settled_or_last {park : String × List π} (hs : s.Custody)
    (hmem : park ∈ s.parks) : s.Settled park.1 park.2 ∨ s.parks.getLast? = some park := by
  cases hlast : s.parks.getLast? with
  | none =>
    rw [getLast?_eq_none_iff.1 hlast] at hmem
    cases hmem
  | some last =>
    rw [← dropLast_append_getLast? last hlast, mem_append] at hmem
    rcases hmem with h | h
    · exact .inl (hs.earlier park h)
    · exact .inr (mem_singleton.1 h ▸ rfl)

theorem custody_park {holder : String} {records : List (StreamId × π)} (hs : s.Custody)
    (hacc : s.accepts holder parkId records = true) (hfresh : parkId ∉ s.parks.map (·.1)) :
    (s.park parkId records).Custody := by
  have hterm : s.marker.state.all (·.terminal) = true := by
    simp only [accepts, Bool.and_eq_true] at hacc
    exact hacc.1.2
  have hquar : (s.park parkId records).quarantine parkId = .full (records.map (·.2)) := by
    simp [park, hs.unused parkId hfresh, Quarantine.absent, Quarantine.full]
  have hmark : (s.park parkId records).marker = { Marker.absent with
      state := some .parked
      parkId := some parkId
      version := some s.nextVersion } := marker_park hs records
  refine ⟨hs.entries, ?_, ?_, ?_, ?_⟩
  · intro other hoth
    simp only [park, map_append, mem_append, not_or, map_cons, map_nil, mem_singleton] at hoth ⊢
    rw [Function.update_of_ne hoth.2]
    exact hs.unused other hoth.1
  · intro hnone
    simp [park] at hnone
  · -- the park before this one has come to an end
    intro earlier hearl
    simp only [park, dropLast_concat] at hearl
    rcases hs.settled_or_last hearl with h | hlast
    · exact h
    · rcases (hs.current earlier.1 earlier.2 hlast).kept with h | h
      · exact absurd h.1 (not_open hterm)
      · exact h
  · intro other payloads hlast
    simp only [park, getLast?_concat] at hlast
    cases hlast
    refine ⟨?_, ?_, ?_, .inl hquar, .inl ⟨⟨.parked, ?_, by decide⟩, hquar⟩, .inl rfl⟩
    · refine ⟨?_, ?_, ?_, ?_, ?_, ?_⟩
      all_goals
        simp only [goal, hmark]
        nofun
    · intro _
      rw [hmark]
    · intro h
      rw [hmark] at h
      cases h
    · rw [hmark]

theorem custody_expire (hs : s.Custody) (hexp : s.marker.expiring = true) :
    ({ s with marker := .absent } : DispositionStore π).Custody := by
  refine ⟨hs.entries, hs.unused, fun _ => rfl, hs.earlier, fun parkId payloads hlast => ?_⟩
  have hcurr := hs.current parkId payloads hlast
  have hsett := hcurr.expiring hexp
  exact ⟨⟨nofun, nofun, nofun, nofun, nofun, nofun⟩, fun h => absurd rfl h, fun _ => rfl,
    hcurr.quarantine, .inr hsett, .inr hsett⟩

/-- Events that are neither parks nor the end of a marker. -/
theorem keeps_event [DecidableEq π] (hs : s.Custody) (e : DispositionEvent π)
    (hpark : ∀ holder parkId records, e ≠ .park holder parkId records) (hexp : e ≠ .expire) :
    s.Keeps (s.happen e) := by
  cases e with
  | park holder parkId records => exact absurd rfl (hpark holder parkId records)
  | expire => exact absurd rfl hexp
  | produce target id data =>
    simp only [happen]
    split_ifs
    · exact keeps_add target _ hs
    · exact keeps_refl hs
  | consume target id =>
    refine keeps_stream hs (fun _ h => h) fun entry hent => ?_
    exact hs.entries target entry (mem_of_mem_filter hent)
  | lock holder | fence fence | pend pending =>
    exact keeps_of_same hs (fun _ _ h => h) hs.entries

end Events

/-! ## Interleavings -/

theorem custody_compatible :
    Sys.Compatible (fun _ => Moves) (fun _ => Keeps) (Custody (π := π))
      fun _ (_ : List StreamId) _ => True := by
  refine ⟨fun _ => .refl, fun _ _ _ _ => .trans, ?_, ?_, fun _ _ _ _ _ _ => trivial⟩
  · intro _ _ s s' _ _ hG
    exact hG.1
  · intro _ s s' _ hG
    exact hG.2

variable [DecidableEq π]

/-- The condition on the runs: no executor is at work when messages are parked or a marker expires.
The IDs of parks are never used again. -/
def Quiet (sys : Executors π) : Input (DispositionEvent π) → Prop
  | .env (.park _ parkId _) => (∀ i, ¬ sys.running i) ∧ parkId ∉ sys.store.parks.map (·.1)
  | .env .expire => ∀ i, ¬ sys.running i
  | _ => True

theorem admissible_of_quiet {sys : Executors π} {input : Input (DispositionEvent π)}
    (h : Quiet sys input) :
    sys.Admissible (fun _ => Moves) (fun _ _ _ => True) Custody (fun _ _ _ => True)
      happen input := by
  cases input with
  | run i | stop i => trivial
  | env e =>
    intro hs
    by_cases hexp : e = .expire
    · subst hexp
      refine ⟨?_, fun i hi => absurd hi (h i), fun _ _ _ => trivial⟩
      simp only [happen]
      split_ifs with hexpi
      · exact custody_expire hs hexpi
      · exact hs
    by_cases hpark : ∃ holder parkId records, e = .park holder parkId records
    · obtain ⟨holder, parkId, records, rfl⟩ := hpark
      refine ⟨?_, fun i hi => absurd hi (h.1 i), fun _ _ _ => trivial⟩
      simp only [happen]
      split_ifs with hacc
      · exact custody_park hs hacc.2 h.2
      · exact hs
    have hkeeps := keeps_event hs e (fun holder parkId records heq =>
      hpark ⟨holder, parkId, records, heq⟩) hexp
    exact ⟨hkeeps.2, fun _ _ => hkeeps.1, fun _ _ _ => trivial⟩

/-- Nothing was parked yet. -/
structure Fresh (s : DispositionStore π) : Prop where
  marker : s.marker = .absent
  quarantine : ∀ parkId, s.quarantine parkId = .absent
  parks : s.parks = []
  chosen : s.chosen = []
  entries : ∀ target, ∀ entry ∈ (s.stream target).entries, entry ∈ (s.stream target).history

/-- **Custody.** -/
theorem custody_kept (calls : ℕ → Operation × OwnerLease) (s : DispositionStore π) (hs : Fresh s)
    (inputs : List (Input (DispositionEvent π)))
    (h : Along (Sys.exec DispositionStore.happen .crashed) Quiet (executors calls s) inputs) :
    let s' := (runExecutors (executors calls s) inputs).store
    (∀ parkId payloads, (parkId, payloads) ∈ s'.parks → ∀ i payload, payloads[i]? = some payload →
      (s'.marker.parkId = some parkId ∧ s'.Open ∧ (s'.quarantine parkId).payload i = some payload) ∨
        s'.Published parkId i payload ∨ parkId ∈ s'.drops) ∧
    ∀ parkId payloads, s'.parks.getLast? = some (parkId, payloads) →
      s'.index = some parkId ∨ s'.Settled parkId payloads := by
  intro s'
  have hstart : (executors calls s).Inv (fun _ => Moves) (fun _ => Keeps) (fun _ _ _ => True)
      Custody fun _ _ _ => True := by
    refine Sys.inv_start ⟨hs.entries, fun parkId _ => hs.quarantine parkId, fun _ => hs.marker, ?_,
      ?_⟩ fun i s _ => safe_program (calls i).1 (calls i).2
    · rw [hs.parks]
      exact nofun
    · rw [hs.parks]
      nofun
  have hinv := Sys.sound custody_compatible hstart (h.mono fun _ _ => admissible_of_quiet)
  have hcust : s'.Custody := hinv.1
  refine ⟨?_, fun parkId payloads hlast => (hcust.current parkId payloads hlast).index⟩
  intro parkId payloads hmem i payload hpayl
  have hsett : s'.Settled parkId payloads → s'.Published parkId i payload ∨ parkId ∈ s'.drops :=
    Or.imp_left fun h => h i payload hpayl not_mem_nil
  rcases hcust.settled_or_last hmem with h | hlast
  · exact .inr (hsett h)
  have hcurr := hcust.current parkId payloads hlast
  rcases hcurr.kept with ⟨hopen, hfull⟩ | h
  · left
    obtain ⟨state, hst, hterm⟩ := hopen
    refine ⟨hcurr.park (by simp [hst]), ⟨state, hst, hterm⟩, ?_⟩
    rw [hfull]
    exact hpayl
  · exact .inr (hsett h)

/-! ## An executor that outlives its park -/

/-- The owner of the partition, without a fence. -/
def owner : OwnerLease := ⟨0, "op", "node", none⟩

def pendingEntries : List (Entry ℕ) := [⟨toLex (1, 0), some 7, none⟩, ⟨toLex (2, 0), some 8, none⟩]

/-- Two messages are pending. -/
def pendingStore : DispositionStore ℕ where
  lock := some "node"
  fence := .absent
  pending := [toLex (1, 0), toLex (2, 0)]
  marker := .absent
  quarantine := fun _ => .absent
  index := none
  source := ⟨pendingEntries, pendingEntries, toLex (2, 0)⟩
  dlq := ⟨[], [], toLex (0, 0)⟩
  parks := []
  drops := []
  plan := none
  chosen := []

theorem fresh_pendingStore : Fresh pendingStore := by
  refine ⟨rfl, fun _ => rfl, rfl, rfl, fun target entry h => ?_⟩
  cases target with
  | source | dlq => exact h

/-- The first message is parked. -/
def parkFirst : Input (DispositionEvent ℕ) := .env (.park "node" "p1" [(toLex (1, 0), 7)])

/-- The second message is parked. -/
def parkSecond : Input (DispositionEvent ℕ) := .env (.park "node" "p2" [(toLex (2, 0), 8)])

/-- Executor `i` issues `n` commands. -/
def commands (i n : ℕ) : List (Input (DispositionEvent ℕ)) := List.replicate n (.run i)

theorem along_commands (sys : Executors ℕ) (i n : ℕ) :
    Along (Sys.exec happen .crashed) Quiet sys (commands i n) := by
  induction n generalizing sys with
  | zero => trivial
  | succ n ih => exact ⟨trivial, ih _⟩

/-- The first park is resumed to its end before the second one. -/
theorem custody_kept_resumed :
    let s' := (runExecutors (executors (fun _ => (.resume, owner)) pendingStore)
      ([parkFirst] ++ commands 0 19 ++ [parkSecond])).store
    ("p1", [7]) ∈ s'.parks ∧ ("p2", [8]) ∈ s'.parks ∧
      (s'.Published "p1" 0 7 ∨ "p1" ∈ s'.drops) := by
  intro s'
  have hquiet : Along (Sys.exec happen .crashed) Quiet
      (executors (fun _ => (.resume, owner)) pendingStore)
      ([parkFirst] ++ commands 0 19 ++ [parkSecond]) := by
    refine along_append.2 ⟨along_append.2 ⟨⟨⟨?_, by decide⟩, trivial⟩, along_commands _ 0 19⟩,
      ⟨⟨?_, by decide⟩, trivial⟩⟩
    · intro i hi
      cases hi.1
    · intro i hi
      cases i with
      | zero => exact absurd hi.2 (by decide)
      | succ i => exact Bool.noConfusion (show false = true from hi.1)
  have hparks : ("p1", [7]) ∈ s'.parks ∧ ("p2", [8]) ∈ s'.parks := by decide
  refine ⟨hparks.1, hparks.2, ?_⟩
  obtain ⟨hkept, -⟩ := custody_kept _ pendingStore fresh_pendingStore _ hquiet
  rcases hkept "p1" [7] hparks.1 0 7 rfl with h | h
  · exact absurd h.1 (by decide)
  · exact h

/-- **A park is lost.** The first park is dropped. A second executor of the drop has read its marker
when the second message is parked, and goes on: it ends the marker of the second park and deletes its
index, and nobody has published or dropped the message. -/
theorem custody_lost :
    let s' := (runExecutors (executors (fun _ => (.dropParked, owner)) pendingStore)
      ([parkFirst] ++ commands 0 8 ++ commands 1 3 ++ [parkSecond] ++ commands 1 4)).store
    ("p2", [8]) ∈ s'.parks ∧ s'.marker.parkId = some "p2" ∧ ¬ s'.Open ∧ s'.index = none ∧
      ¬ s'.Published "p2" 0 8 ∧ "p2" ∉ s'.drops := by
  intro s'
  have hend : ("p2", [8]) ∈ s'.parks ∧ s'.marker.parkId = some "p2" ∧
      s'.marker.state.all (·.terminal) = true ∧ s'.index = none ∧ s'.chosen = [] ∧
      "p2" ∉ s'.drops := by decide
  obtain ⟨hparks, hpark, hterm, hind, hchos, hdrops⟩ := hend
  refine ⟨hparks, hpark, not_open hterm, hind, ?_, hdrops⟩
  rintro ⟨target, id, hmem, -⟩
  rw [hchos] at hmem
  cases hmem

end NasaRuntime.Nadis
