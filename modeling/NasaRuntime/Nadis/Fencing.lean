import NasaRuntime.Lib.Dict
import NasaRuntime.Lib.Interleave

/-!
# The fencing of partitions

The nodes of a namespace agree on a round and a nonce before any of them acknowledges a message, and
every acknowledgement is checked against both. The agreement is a marker, one for the namespace, and
a fence for every group of partitions. A node that finds no marker that is ready takes a lease and
takes the marker through its states: `initializing`, `activating` with a nonce, and `ready` once the
fence of its group is.

Each command is one step of a program (`Prog`), so a node can be paused between any two of them. The
lease expires by itself (`Event.expire`), whatever its owner is doing. A command that fails ends the
call, as a crash does, so failures have no case of their own.

The owner of the lease is a token drawn for every attempt. A call takes the lease at most once, so the
number of the call stands for its token. The nonce that a call would choose is a part of the call.

**Theorem (`bootstrap_agrees`).** If no call changes the marker after its lease has expired, all calls
return the same nonce, and a fence that is ready keeps its round and its nonce.

The lease alone does not give this (`bootstrap_splits`): a call that is paused with a marker that was
`initializing`, while another one takes the lease over and completes, goes on to choose a second nonce
for the same round, and to put it into the fence that is ready.

A node that has taken the lock of a partition acquires a stamp: it raises the counter of the
partition in the fence of the group (`ACQUIRE_STAMP_LUA`). It acknowledges records with the counter
that it got, and the script compares it to the one in the fence (`FENCED_ACK_LUA`).

Both are scripts, so each is one step. Locks are taken and expire at any time, and the fence is
initialised and activated by whoever bootstraps the group.

**Theorem (`stamps_fence`).** Counters of a partition are acquired in strictly increasing order, and
once one was acquired, an acknowledgement with a smaller one is rejected and changes nothing. No new
round takes a counter back: a fence is created again only while it has none.
-/

namespace NasaRuntime.Nadis

/-! ## What is stored -/

/-- The state of the marker, or any other text that is found in its place. -/
inductive BootstrapState
  | initializing | activating | ready
  | other (text : String)
deriving DecidableEq

structure BootstrapMarker where
  state : BootstrapState
  round : ℕ
  ownerTerm : ℕ
  nonce : String
deriving DecidableEq

inductive FenceState
  | initializing | ready
deriving DecidableEq

/-- The fence of a group: a hash, of which every field can be missing. The counters are the terms of
the partitions. -/
structure Fence where
  state : Option FenceState
  round : Option ℕ
  nonce : Option String
  epoch : Option ℕ
  counters : Dict ℕ ℕ

/-- The fence of a group that was never touched. -/
def Fence.absent : Fence := ⟨none, none, none, none, ∅⟩

structure FencingStore (γ : Type) where
  marker : Option BootstrapMarker
  lease : Option ℕ
  fence : γ → Fence

structure FenceMeta where
  round : ℕ
  nonce : String
  epoch : ℕ
deriving DecidableEq

/-! ## Scripts -/

inductive InitReply
  | ok | corrupt | rejectOldOwner | rejectHasCounters | rejectReady
deriving DecidableEq

/-- `TAG_INIT_LUA`. -/
def Fence.init (fence : Fence) (round epoch : ℕ) : InitReply × Fence :=
  match fence.state with
  | none =>
    (.ok, { fence with state := some .initializing, round := some round, epoch := some epoch })
  | some state =>
    let current := fence.round.getD 0
    if current = round then
      if fence.epoch.isNone then (.corrupt, fence) else (.ok, fence)
    else if round < current then (.rejectOldOwner, fence)
    else
      match state with
      | .initializing =>
        if fence.counters.entries ≠ [] then (.rejectHasCounters, fence)
        else (.ok, { Fence.absent with
          state := some .initializing, round := some round, epoch := some epoch })
      | .ready => (.rejectReady, fence)

/-- `TAG_ACTIVATE_LUA`. The reply is whether the round matched. -/
def Fence.activate (fence : Fence) (round : ℕ) (nonce : String) : Bool × Fence :=
  if fence.round ≠ some round then (false, fence)
  else (true, { fence with state := some .ready, nonce := some nonce })

/-- The writes of `ACQUIRE_STAMP_LUA`: a new term of a partition, if the fence is the expected one. -/
def Fence.acquireStamp (fence : Fence) (round : ℕ) (nonce : String) (partition : ℕ) : Fence :=
  if fence.state ≠ some .ready ∨ fence.round ≠ some round ∨ fence.nonce ≠ some nonce then fence
  else
    { fence with
      counters := fence.counters.insert partition ((fence.counters.get? partition).getD 0 + 1) }

/-! ## Commands -/

inductive FenceError
  | crashed | noMarker | missingEpoch | emptyNonce | activateRefused | notReady | timeout
  | unknownState (state : BootstrapState)
  | initRefused (reply : InitReply)
deriving DecidableEq

variable {γ : Type} [DecidableEq γ]

/-- A program of one node. -/
abbrev Node (γ : Type) := Prog (FencingStore γ) FenceError

def getMarker : Node γ (Option BootstrapMarker) := .read (·.marker)

def setMarker (marker : BootstrapMarker) : Node γ Unit :=
  .modify fun s => { s with marker := some marker }

/-- `SET NX`. The reply is whether the marker was created. -/
def createMarker (marker : BootstrapMarker) : Node γ Bool :=
  .atomic fun s => if s.marker.isNone then (true, { s with marker := some marker }) else (false, s)

/-- `SET NX PX` of the lease. -/
def takeLease (token : ℕ) : Node γ Bool :=
  .atomic fun s => if s.lease.isNone then (true, { s with lease := some token }) else (false, s)

/-- `RELEASE_OWNER_LUA`. -/
def releaseLease (token : ℕ) : Node γ Unit :=
  .modify fun s => if s.lease = some token then { s with lease := none } else s

def initFence (group : γ) (round epoch : ℕ) : Node γ InitReply :=
  .atomic fun s =>
    (((s.fence group).init round epoch).1,
      { s with fence := Function.update s.fence group ((s.fence group).init round epoch).2 })

def activateFence (group : γ) (round : ℕ) (nonce : String) : Node γ Bool :=
  .atomic fun s =>
    (((s.fence group).activate round nonce).1,
      { s with fence := Function.update s.fence group ((s.fence group).activate round nonce).2 })

/-! ## Programs -/

/-- Three commands, so the fields need not belong together. -/
def verifyTagReady (group : γ) (round : ℕ) (nonce : String) : Node γ Unit := do
  let state ← .read fun s => (s.fence group).state
  let found ← .read fun s => (s.fence group).round
  let foundNonce ← .read fun s => (s.fence group).nonce
  if state ≠ some .ready ∨ found ≠ some round ∨ foundNonce ≠ some nonce then throw .notReady
  else return

def seedTag (group : γ) (round : ℕ) (nonce : String) (epoch : ℕ) : Node γ Unit := do
  let reply ← initFence group round epoch
  if reply ≠ .ok then throw (.initRefused reply)
  else do
    let matched ← activateFence group round nonce
    if !matched then throw .activateRefused
    else verifyTagReady group round nonce

/-- The fence is ready, and its own epoch is the one that counts. -/
def readyMeta (group : γ) (marker : BootstrapMarker) : Node γ FenceMeta := do
  match ← Prog.read fun s => (s.fence group).epoch with
  | none => throw .missingEpoch
  | some epoch => return { round := marker.round, nonce := marker.nonce, epoch }

/-- One call of `bootstrap`. -/
structure BootstrapCall (γ : Type) where
  group : γ
  epoch : ℕ
  /-- What `new_v4` would give. -/
  nonce : String
  /-- How often the marker is looked at again before the deadline. -/
  polls : ℕ

namespace BootstrapCall

variable (call : BootstrapCall γ)

/-- A marker that is there, or a new one and that it is new. -/
def findMarker : Node γ (BootstrapMarker × Bool) := do
  match ← getMarker with
  | some marker => return (marker, false)
  | none =>
    let fresh : BootstrapMarker :=
      { state := .initializing, round := 1, ownerTerm := 1, nonce := "" }
    if ← createMarker fresh then return (fresh, true)
    else
      match ← getMarker with
      | some marker => return (marker, false)
      | none => throw .noMarker

/-- From the fence on: the marker was taken over, or is new. -/
def activate (marker : BootstrapMarker) : Node γ FenceMeta := do
  let reply ← initFence call.group marker.round call.epoch
  if reply ≠ .ok then throw (.initRefused reply)
  else do
    let chosen : BootstrapMarker :=
      if marker.state = .initializing then
        { marker with state := .activating, nonce := call.nonce }
      else marker
    if marker.state = .initializing then setMarker chosen
    let matched ← activateFence call.group chosen.round chosen.nonce
    if !matched then throw .activateRefused
    else do
      verifyTagReady call.group chosen.round chosen.nonce
      setMarker { chosen with state := .ready }
      return { round := chosen.round, nonce := chosen.nonce, epoch := call.epoch }

def bootstrapAsOwner : Node γ FenceMeta := do
  let (marker, fresh) ← findMarker
  if marker.state = .ready then do
    match ← (verifyTagReady call.group marker.round marker.nonce).attempt with
    | .ok () => readyMeta call.group marker
    | .error _ => do
      seedTag call.group marker.round marker.nonce call.epoch
      readyMeta call.group marker
  else if marker.state ≠ .initializing ∧ marker.state ≠ .activating then
    throw (.unknownState marker.state)
  else if marker.state = .activating ∧ marker.nonce = "" then throw .emptyNonce
  else if fresh then call.activate marker
  else do
    let taken : BootstrapMarker := { marker with ownerTerm := marker.ownerTerm + 1 }
    setMarker taken
    call.activate taken

/-- The look at the marker before every attempt. -/
def look : Node γ (Option FenceMeta) := do
  match ← getMarker with
  | none => return none
  | some marker =>
    if marker.state = .ready then
      match ← (verifyTagReady call.group marker.round marker.nonce).attempt with
      | .ok () => some <$> readyMeta call.group marker
      | .error _ => return none
    else return none

/-- The lease is released whatever the outcome. -/
def bootstrapHolding (token : ℕ) : Node γ FenceMeta := do
  let outcome ← call.bootstrapAsOwner.attempt
  releaseLease token
  match outcome with
  | .ok found => return found
  | .error error => throw error

def bootstrapWithin (token : ℕ) : ℕ → Node γ FenceMeta
  | 0 => do
    match ← call.look with
    | some found => return found
    | none => if ← takeLease token then call.bootstrapHolding token else throw .timeout
  | polls + 1 => do
    match ← call.look with
    | some found => return found
    | none =>
      if ← takeLease token then call.bootstrapHolding token else bootstrapWithin token polls

def bootstrap (token : ℕ) : Node γ FenceMeta := call.bootstrapWithin token call.polls

end BootstrapCall

/-! ## Interleavings -/

/-- What happens besides the calls: the lease expires, or a node acquires a stamp. -/
inductive Event (γ : Type)
  | expire
  | stamp (group : γ) (round : ℕ) (nonce : String) (partition : ℕ)
deriving DecidableEq

def FencingStore.happen (s : FencingStore γ) : Event γ → FencingStore γ
  | .expire => { s with lease := none }
  | .stamp group round nonce partition =>
    let fence := (s.fence group).acquireStamp round nonce partition
    { s with fence := Function.update s.fence group fence }

/-- Any number of calls of `bootstrap`. -/
abbrev Nodes (γ : Type) := Sys (FencingStore γ) FenceError FenceMeta

/-- The calls before the first command. -/
def nodes (calls : ℕ → BootstrapCall γ) (s : FencingStore γ) : Nodes γ :=
  Sys.start s fun token => (calls token).bootstrap token

/-- Any interleaving. -/
def runNodes (sys : Nodes γ) (inputs : List (Input (Event γ))) : Nodes γ :=
  runFrom (Sys.exec FencingStore.happen .crashed) sys inputs

section

open FencingStore Function Option

variable {γ : Type}

/-! ## What a step keeps -/

/-- The nonce of the marker was chosen. -/
def BootstrapMarker.Chosen (marker : BootstrapMarker) : Prop :=
  marker.state = .activating ∨ marker.state = .ready

instance (marker : BootstrapMarker) : Decidable marker.Chosen := instDecidableOr

variable {s s' : FencingStore γ}

namespace FencingStore

/-- The nonce that the marker has chosen. -/
def chosen (s : FencingStore γ) : Option String :=
  s.marker.bind fun marker => if marker.Chosen then some marker.nonce else none

/-- The round of the marker. -/
def round (s : FencingStore γ) : Option ℕ := s.marker.map (·.round)

/-- The fence of a group is ready with a round and a nonce. -/
def Ready (s : FencingStore γ) (group : γ) (round : Option ℕ) (nonce : Option String) : Prop :=
  (s.fence group).state = some .ready ∧ (s.fence group).round = round ∧
    (s.fence group).nonce = nonce

instance (s : FencingStore γ) (group : γ) (round : Option ℕ) (nonce : Option String) :
    Decidable (s.Ready group round nonce) := instDecidableAnd

/-- A fence that is ready in the round of the marker, which is the first if there is none, has its
nonce. -/
def Sound (s : FencingStore γ) : Prop :=
  ∀ group nonce, s.Ready group (some (s.round.getD 1)) nonce → nonce.isSome ∧ s.chosen = nonce

/-- What was agreed upon stays. -/
structure Keeps (s s' : FencingStore γ) : Prop where
  chosen : ∀ nonce, s.chosen = some nonce → s'.chosen = some nonce
  round : ∀ round, s.round = some round → s'.round = some round
  fence : ∀ group round nonce, s.Ready group round nonce → s'.Ready group round nonce

theorem Keeps.refl (s : FencingStore γ) : s.Keeps s :=
  ⟨fun _ h => h, fun _ h => h, fun _ _ _ h => h⟩

theorem Keeps.trans {a b c : FencingStore γ} (h : a.Keeps b) (h' : b.Keeps c) : a.Keeps c :=
  ⟨fun nonce hn => h'.chosen nonce (h.chosen nonce hn),
    fun round hr => h'.round round (h.round round hr),
    fun group round nonce hf => h'.fence group round nonce (h.fence group round nonce hf)⟩

/-- What call `i` relies on. While it holds the lease nobody else has held it or changed the marker. -/
def Relies (i : ℕ) (s s' : FencingStore γ) : Prop :=
  s.Keeps s' ∧ (s'.lease = some i → s.lease = some i ∧ s'.marker = s.marker)

/-- What call `i` guarantees. -/
structure Guarantees (i : ℕ) (s s' : FencingStore γ) : Prop where
  keeps : s.Keeps s'
  sound : s'.Sound
  marker : s'.marker ≠ s.marker → s.lease = some i
  lease : s'.lease = s.lease ∨ s'.lease = some i ∨ s'.lease = none

/-- The marker is changed by the holder of the lease alone. -/
def Holding (i : ℕ) (s s' : FencingStore γ) : Prop := s'.marker ≠ s.marker → s.lease = some i

variable {s : FencingStore γ} {i : ℕ}

theorem Guarantees.refl (hs : s.Sound) : Guarantees i s s :=
  ⟨.refl s, hs, fun h => absurd rfl h, .inl rfl⟩

/-- The marker and the round and nonce that were agreed upon, as far as a call that has read the marker
can know them. -/
structure Known (i : ℕ) (marker : BootstrapMarker) (s : FencingStore γ) : Prop where
  round : s.round = some marker.round
  chosen : marker.Chosen → s.chosen = some marker.nonce
  same : marker.state = .initializing → s.lease = some i → s.marker = some marker

variable {marker : BootstrapMarker}

theorem known_of_marker (h : s.marker = some marker) : Known i marker s := by
  refine ⟨?_, ?_, fun _ _ => h⟩
  · simp [round, h]
  · intro hchos
    simp [chosen, h, hchos]

theorem Known.rely (h : Known i marker s) (hR : Relies i s s') : Known i marker s' := by
  refine ⟨hR.1.round _ h.round, fun hchos => hR.1.chosen _ (h.chosen hchos), ?_⟩
  intro hst hlease
  obtain ⟨hheld, hmark⟩ := hR.2 hlease
  rw [hmark]
  exact h.same hst hheld

theorem Known.fence (h : Known i marker s)
    (fence : γ → Fence) : Known i marker { s with fence } := ⟨h.round, h.chosen, h.same⟩

/-! ## The commands -/

/-- One marker can follow another: in the same round, and with the nonce that was chosen. -/
structure Follows (marker marker' : BootstrapMarker) : Prop where
  round : marker'.round = marker.round
  state : marker.state = .initializing ∨ marker.Chosen
  nonce : marker.Chosen → marker'.Chosen ∧ marker'.nonce = marker.nonce

theorem guarantees_setMarker {marker' : BootstrapMarker}
    (hs : s.Sound) (h : Known i marker s) (hfoll : Follows marker marker')
    (hA : Holding i s { s with marker := some marker' }) :
    Guarantees i s { s with marker := some marker' } := by
  by_cases hmark : s.marker = some marker'
  · rw [show ({ s with marker := some marker' } : FencingStore γ) = s by rw [← hmark]]
    exact .refl hs
  have hlease : s.lease = some i := hA fun h => hmark h.symm
  have hround : ({ s with marker := some marker' } : FencingStore γ).round = s.round := by
    rw [h.round, ← hfoll.round]
    rfl
  -- either the nonce stays, or none was chosen
  have hchos : ({ s with marker := some marker' } : FencingStore γ).chosen = s.chosen ∨
      s.chosen = none := by
    rcases hfoll.state with hst | hst
    · right
      have hnot : ¬ marker.Chosen := by simp [BootstrapMarker.Chosen, hst]
      simp [chosen, h.same hst hlease, hnot]
    · left
      obtain ⟨hchos', hnonce⟩ := hfoll.nonce hst
      rw [h.chosen hst, ← hnonce]
      simp [chosen, hchos']
  refine ⟨⟨?_, ?_, fun _ _ _ h => h⟩, ?_, hA, .inl rfl⟩
  · intro nonce hnonce
    rcases hchos with hsame | hnone
    · rw [hsame, hnonce]
    · rw [hnone] at hnonce
      cases hnonce
  · intro round hr
    rw [hround, hr]
  · intro group nonce hready
    rw [hround] at hready
    obtain ⟨hsome, hnonce⟩ := hs group nonce hready
    rcases hchos with hsame | hnone
    · exact ⟨hsome, hsame.trans hnonce⟩
    · rw [← hnonce, hnone] at hsome
      cases hsome

theorem guarantees_createMarker (hs : s.Sound) (hnone : s.marker = none) (hround : marker.round = 1)
    (hA : Holding i s { s with marker := some marker }) :
    Guarantees i s { s with marker := some marker } := by
  refine ⟨⟨?_, ?_, fun _ _ _ h => h⟩, ?_, hA, .inl rfl⟩
  · intro nonce hnonce
    simp [FencingStore.chosen, hnone] at hnonce
  · intro round hr
    simp [FencingStore.round, hnone] at hr
  · intro group nonce hready
    have hfirst : s.Ready group (some (s.round.getD 1)) nonce := by
      rw [FencingStore.round, hnone]
      rw [FencingStore.round, map_some, hround] at hready
      exact hready
    obtain ⟨hsome, hnonce⟩ := hs group nonce hfirst
    rw [← hnonce] at hsome
    simp [FencingStore.chosen, hnone] at hsome

theorem guarantees_lease {lease : Option ℕ} (hs : s.Sound)
    (hlease : lease = some i ∨ lease = none) : Guarantees i s { s with lease } :=
  ⟨⟨fun _ h => h, fun _ h => h, fun _ _ _ h => h⟩, hs, fun h => absurd rfl h, .inr hlease⟩

variable [DecidableEq γ]

/-- A fence that is not ready can be changed, as long as it does not become ready with a nonce that was
not chosen. -/
theorem guarantees_fence {group : γ} {fence : Fence} (hs : s.Sound)
    (hkeeps : (s.fence group).state = some .ready →
      fence.state = some .ready ∧ fence.round = (s.fence group).round ∧
        fence.nonce = (s.fence group).nonce)
    (hsound : fence.state = some .ready → fence.round = some (s.round.getD 1) →
      fence.nonce.isSome ∧ s.chosen = fence.nonce) :
    Guarantees i s { s with fence := update s.fence group fence } := by
  refine ⟨⟨fun _ h => h, fun _ h => h, ?_⟩, ?_, fun h => absurd rfl h, .inl rfl⟩
  · intro other round nonce hready
    by_cases hoth : other = group
    · subst hoth
      obtain ⟨hst, hround, hnonce⟩ := hready
      obtain ⟨hst', hround', hnonce'⟩ := hkeeps hst
      simp only [Ready, update_self]
      exact ⟨hst', hround'.trans hround, hnonce'.trans hnonce⟩
    · simpa only [Ready, update_of_ne hoth] using hready
  · intro other nonce hready
    by_cases hoth : other = group
    · subst hoth
      simp only [Ready, update_self] at hready
      obtain ⟨hst, hround, rfl⟩ := hready
      exact hsound hst hround
    · simp only [Ready, update_of_ne hoth] at hready
      exact hs other nonce hready

theorem guarantees_init {i round epoch : ℕ} {group : γ} (hs : s.Sound) : Guarantees i s
      { s with fence := update s.fence group ((s.fence group).init round epoch).2 } := by
  have hcas : ((s.fence group).init round epoch).2 = s.fence group ∨
      (s.fence group).state ≠ some .ready ∧
        ((s.fence group).init round epoch).2.state = some .initializing := by
    unfold Fence.init
    split
    · next hst => exact .inr ⟨by simp [hst], rfl⟩
    · next state hst =>
      cases state with
      | initializing =>
        simp only
        split_ifs
        · exact .inl rfl
        · exact .inl rfl
        · exact .inl rfl
        · exact .inl rfl
        · exact .inr ⟨by simp [hst], rfl⟩
      | ready =>
        simp only
        split_ifs <;> exact .inl rfl
  rcases hcas with hsame | ⟨hnot, hst⟩
  · rw [hsame, update_eq_self]
    exact .refl hs
  · refine guarantees_fence hs (fun h => absurd h hnot) ?_
    intro hready
    rw [hst] at hready
    cases hready

theorem guarantees_activate {group : γ}
    (hs : s.Sound) (h : Known i marker s) (hchos : marker.Chosen) : Guarantees i s { s with
      fence := update s.fence group
        ((s.fence group).activate marker.round marker.nonce).2 } := by
  unfold Fence.activate
  by_cases hround : (s.fence group).round = some marker.round
  · rw [if_neg (not_not.2 hround)]
    refine guarantees_fence hs ?_ ?_
    · intro hready
      have hfence : s.Ready group (some (s.round.getD 1)) (s.fence group).nonce := by
        refine ⟨hready, ?_, rfl⟩
        rw [hround, h.round]
        rfl
      refine ⟨rfl, rfl, ?_⟩
      rw [← (hs group _ hfence).2, h.chosen hchos]
    · intro _ _
      exact ⟨rfl, h.chosen hchos⟩
  · rw [if_pos hround, update_eq_self]
    exact .refl hs

end FencingStore

/-! ## The programs -/

open Prog

section Programs

variable {i : ℕ} {α : Type} {Q : α → FencingStore γ → Prop} {s : FencingStore γ} {group : γ}
  {call : BootstrapCall γ}
variable {marker : BootstrapMarker}

/-- The program of call `i` is safe from `s`. An error promises nothing. -/
abbrev SafeCall (i : ℕ) (Q : α → FencingStore γ → Prop) (p : Node γ α) (s : FencingStore γ) : Prop :=
  Safe (Relies i) (Guarantees i) Sound (Holding i) Q (fun _ _ => True) p s

/-- The call returns what was agreed upon. -/
def Agreed (found : FenceMeta) (s : FencingStore γ) : Prop :=
  s.round = some found.round ∧ s.chosen = some found.nonce

theorem reads (s : FencingStore γ) (hs : s.Sound) : Guarantees i s s := .refl hs

theorem agreed_rely {found : FenceMeta} (hR : Relies i s s')
    (h : Agreed found s) : Agreed found s' := ⟨hR.1.round _ h.1, hR.1.chosen _ h.2⟩

theorem safe_verifyTagReady {K : FencingStore γ → Prop} {round : ℕ} {nonce : String}
    (hK : ∀ s s', Relies i s s' → K s → K s') (h : K s) :
    Safe (Relies i) (Guarantees i) Sound (Holding i) (fun _ => K) (fun _ => K)
      (verifyTagReady group round nonce) s := by
  refine safe_read_bind reads fun s1 hR1 _ => ?_
  refine safe_read_bind reads fun s2 hR2 _ => ?_
  refine safe_read_bind reads fun s3 hR3 _ => ?_
  have hend : K s3 := hK _ _ hR3 (hK _ _ hR2 (hK _ _ hR1 h))
  split_ifs
  · exact hend
  · exact hend

theorem agreed_of_known (h : Known i marker s) (hchos : marker.Chosen)
    (epoch : ℕ) : Agreed ⟨marker.round, marker.nonce, epoch⟩ s :=
  ⟨h.round, h.chosen hchos⟩

theorem safe_readyMeta (h : Known i marker s)
    (hchos : marker.Chosen) : SafeCall i Agreed (readyMeta group marker) s := by
  refine safe_read_bind reads fun s1 hR1 _ => ?_
  split
  · trivial
  · exact agreed_of_known (h.rely hR1) hchos _

theorem safe_findMarker :
    SafeCall i (fun found s => Known i found.1 s ∧
      (found.2 = true → found.1.state = .initializing)) (BootstrapCall.findMarker (γ := γ)) s := by
  refine safe_read_bind reads fun s1 _ _ => ?_
  cases hmark : s1.marker with
  | some marker =>
    exact ⟨known_of_marker hmark, nofun⟩
  | none =>
    refine safe_atomic_bind fun s2 hR2 hs2 hA => ?_
    by_cases hnone : s2.marker.isNone
    · simp only [if_pos hnone] at hA ⊢
      refine ⟨guarantees_createMarker hs2 (isNone_iff_eq_none.1 hnone) rfl hA, ?_⟩
      exact ⟨known_of_marker rfl, fun _ => rfl⟩
    · simp only [if_neg hnone]
      refine ⟨.refl hs2, ?_⟩
      refine safe_read_bind reads fun s3 _ _ => ?_
      cases hmark3 : s3.marker with
      | some marker => exact ⟨known_of_marker hmark3, nofun⟩
      | none => trivial

theorem safe_look :
    SafeCall i (fun found s => ∀ m, found = some m → Agreed m s) call.look s := by
  refine safe_read_bind reads fun s1 _ _ => ?_
  have hnone : ∀ s : FencingStore γ, ∀ m, (none : Option FenceMeta) = some m → Agreed m s := by
    nofun
  cases hmark : s1.marker with
  | none => exact hnone s1
  | some marker =>
    simp only
    by_cases hready : marker.state = .ready
    · rw [if_pos hready]
      refine safe_bind (safe_attempt (safe_mono (safe_verifyTagReady
        (fun _ _ hR h => Known.rely h hR) (known_of_marker (i := i) hmark)) ?_ ?_))
      · intro _ s2 h2
        refine safe_then (safe_readyMeta h2 (.inr hready)) ?_
        intro found s3 h3 m hm
        cases hm
        exact h3
      · intro _ s2 _
        exact hnone s2
    · rw [if_neg hready]
      exact hnone s1

variable [DecidableEq γ]

theorem safe_seedTag {epoch : ℕ} (h : Known i marker s) (hchos : marker.Chosen) :
    SafeCall i (fun _ => Known i marker) (seedTag group marker.round marker.nonce epoch) s := by
  refine safe_atomic_bind fun s1 hR1 hs1 _ => ⟨guarantees_init hs1, ?_⟩
  have h1 := (h.rely hR1).fence (update s1.fence group ((s1.fence group).init marker.round epoch).2)
  split_ifs
  · trivial
  refine safe_atomic_bind fun s2 hR2 hs2 _ => ⟨guarantees_activate hs2 (h1.rely hR2) hchos, ?_⟩
  have h2 := (h1.rely hR2).fence (update s2.fence group
    ((s2.fence group).activate marker.round marker.nonce).2)
  split_ifs
  · trivial
  exact safe_mono (safe_verifyTagReady (fun _ _ hR h => Known.rely h hR) h2) (fun _ _ h => h)
    fun _ _ _ => trivial

/-- From a marker with a nonce to the end. -/
theorem safe_activateChosen (call : BootstrapCall γ)
    (h : Known i marker s) (hchos : marker.Chosen) :
    SafeCall i Agreed (do
      let matched ← activateFence call.group marker.round marker.nonce
      if !matched then throw FenceError.activateRefused
      else do
        verifyTagReady call.group marker.round marker.nonce
        setMarker { marker with state := .ready }
        return { round := marker.round, nonce := marker.nonce, epoch := call.epoch }) s := by
  refine safe_atomic_bind fun s1 hR1 hs1 _ => ⟨guarantees_activate hs1 (h.rely hR1) hchos, ?_⟩
  have h1 := (h.rely hR1).fence (update s1.fence call.group
    ((s1.fence call.group).activate marker.round marker.nonce).2)
  split_ifs
  · trivial
  refine safe_then (safe_verifyTagReady (fun _ _ hR h => Known.rely h hR) h1) ?_
  intro _ s2 h2
  have hfoll : Follows marker { marker with state := .ready } :=
    ⟨rfl, .inr hchos, fun _ => ⟨.inr rfl, rfl⟩⟩
  refine safe_modify_bind fun s3 hR3 hs3 hA => ?_
  refine ⟨guarantees_setMarker hs3 (h2.rely hR3) hfoll hA, ?_⟩
  have hmark : Known i { marker with state := .ready }
      { s3 with marker := some { marker with state := .ready } } := known_of_marker rfl
  have hagr := agreed_of_known hmark (.inr rfl) call.epoch
  exact hagr

theorem safe_activate (h : Known i marker s)
    (hst : marker.state = .initializing ∨ marker.Chosen) :
    SafeCall i Agreed (call.activate marker) s := by
  unfold BootstrapCall.activate
  refine safe_atomic_bind fun s1 hR1 hs1 _ => ⟨guarantees_init hs1, ?_⟩
  have h1 := (h.rely hR1).fence (update s1.fence call.group
    ((s1.fence call.group).init marker.round call.epoch).2)
  by_cases hreply : ((s1.fence call.group).init marker.round call.epoch).1 = .ok
  · rw [if_neg (not_not.2 hreply)]
    by_cases hinit : marker.state = .initializing
    · have hfoll : Follows marker { marker with state := .activating, nonce := call.nonce } := by
        refine ⟨rfl, .inl hinit, fun hchos => ?_⟩
        simp [BootstrapMarker.Chosen, hinit] at hchos
      simp only [if_pos hinit]
      refine safe_modify_bind fun s2 hR2 hs2 hA => ?_
      refine ⟨guarantees_setMarker hs2 (h1.rely hR2) hfoll hA, ?_⟩
      have h2 : Known i { marker with state := .activating, nonce := call.nonce }
          { s2 with marker := some { marker with state := .activating, nonce := call.nonce } } :=
        known_of_marker rfl
      have hrest := safe_activateChosen call h2 (.inl rfl)
      exact hrest
    · simp only [if_neg hinit]
      exact safe_activateChosen call h1 (hst.resolve_left hinit)
  · rw [if_pos hreply]
    trivial

theorem state_of_not_other (h : ¬ (marker.state ≠ .initializing ∧ marker.state ≠ .activating)) :
    marker.state = .initializing ∨ marker.Chosen := by
  by_cases hinit : marker.state = .initializing
  · exact .inl hinit
  · exact .inr (.inl (by_contra fun hact => h ⟨hinit, hact⟩))

theorem safe_bootstrapAsOwner : SafeCall i Agreed call.bootstrapAsOwner s := by
  refine safe_then safe_findMarker ?_
  rintro ⟨marker, fresh⟩ s1 ⟨h, hfresh⟩
  simp only
  split_ifs with hready hoth
  · have hchos : marker.Chosen := .inr hready
    refine safe_bind (safe_attempt (safe_mono
      (safe_verifyTagReady (fun _ _ hR h => Known.rely h hR) h) ?_ ?_))
    · intro _ s2 h2
      exact safe_readyMeta h2 hchos
    · intro _ s2 h2
      exact safe_bind (safe_mono (safe_seedTag h2 hchos)
        (fun _ s3 h3 => safe_readyMeta h3 hchos) fun _ _ _ => trivial)
  · trivial
  · trivial
  · exact safe_activate h (state_of_not_other hoth)
  · -- the marker is taken over
    have hst := state_of_not_other hoth
    refine safe_modify_bind fun s2 hR2 hs2 hA => ?_
    have hfoll : Follows marker { marker with ownerTerm := marker.ownerTerm + 1 } :=
      ⟨rfl, hst, fun hchos => ⟨hchos, rfl⟩⟩
    exact ⟨guarantees_setMarker hs2 (h.rely hR2) hfoll hA, safe_activate (known_of_marker rfl) hst⟩

theorem safe_bootstrapHolding : SafeCall i Agreed (call.bootstrapHolding i) s := by
  have hrel : ∀ s : FencingStore γ, s.Sound →
      Guarantees i s (if s.lease = some i then { s with lease := none } else s) := by
    intro s hs
    split_ifs
    · exact guarantees_lease hs (.inr rfl)
    · exact .refl hs
  refine safe_bind (safe_attempt (safe_mono safe_bootstrapAsOwner ?_ ?_))
  · intro found s1 h1
    refine safe_modify_bind fun s2 hR2 hs2 _ => ⟨hrel s2 hs2, ?_⟩
    have h2 := agreed_rely hR2 h1
    show Agreed found (if s2.lease = some i then { s2 with lease := none } else s2)
    split_ifs
    · exact h2
    · exact h2
  · intro _ s1 _
    exact safe_modify_bind fun s2 _ hs2 _ => ⟨hrel s2 hs2, trivial⟩

theorem safe_attemptLease {p : Node γ FenceMeta} (hp : ∀ s, SafeCall i Agreed p s) :
    SafeCall i Agreed (do
      match ← call.look with
      | some found => return found
      | none => if ← takeLease i then call.bootstrapHolding i else p) s := by
  refine safe_then safe_look ?_
  intro found s1 h1
  cases found with
  | some found => exact h1 found rfl
  | none =>
    refine safe_atomic_bind fun s2 _ hs2 _ => ?_
    by_cases hfree : s2.lease.isNone = true
    · rw [if_pos hfree]
      exact ⟨guarantees_lease hs2 (.inl rfl), safe_bootstrapHolding⟩
    · rw [if_neg hfree]
      exact ⟨.refl hs2, hp s2⟩

theorem safe_bootstrapWithin (polls : ℕ) : SafeCall i Agreed (call.bootstrapWithin i polls) s := by
  induction polls generalizing s with
  | zero => exact safe_attemptLease fun _ => trivial
  | succ polls ih => exact safe_attemptLease fun _ => ih

end Programs

/-! ## Interleavings -/

theorem compatible :
    Sys.Compatible (Relies (γ := γ)) Guarantees Sound fun _ => Agreed := by
  refine ⟨?_, ?_, ?_, ?_, ?_⟩
  · intro i s
    exact ⟨.refl s, fun h => ⟨h, rfl⟩⟩
  · intro i a b c hab hbc
    refine ⟨hab.1.trans hbc.1, fun hlease => ?_⟩
    obtain ⟨hheld, hmark⟩ := hbc.2 hlease
    obtain ⟨hheld', hmark'⟩ := hab.2 hheld
    exact ⟨hheld', hmark.trans hmark'⟩
  · intro i j s s' hij _ hG
    refine ⟨hG.keeps, fun hlease => ?_⟩
    -- call `j` has neither taken the lease nor changed the marker
    have hheld : s.lease = some i := by
      rcases hG.lease with h | h | h
      · rw [← h, hlease]
      · rw [hlease] at h
        exact absurd (some.inj h) hij
      · rw [hlease] at h
        cases h
    refine ⟨hheld, by_contra fun hmark => ?_⟩
    have hoth := hG.marker hmark
    rw [hheld] at hoth
    exact hij (some.inj hoth)
  · intro i s s' _ hG
    exact hG.sound
  · intro i found s s' hR h
    exact agreed_rely hR h

variable [DecidableEq γ]

theorem keeps_happen (s : FencingStore γ) (e : Event γ) :
    s.Keeps (s.happen e) ∧ (s.Sound → (s.happen e).Sound) := by
  cases e with
  | expire => exact ⟨⟨fun _ h => h, fun _ h => h, fun _ _ _ h => h⟩, fun h => h⟩
  | stamp group round nonce partition =>
    have hfields : ∀ fence : Fence, (fence.acquireStamp round nonce partition).state = fence.state ∧
        (fence.acquireStamp round nonce partition).round = fence.round ∧
        (fence.acquireStamp round nonce partition).nonce = fence.nonce := by
      intro fence
      unfold Fence.acquireStamp
      split_ifs
      · exact ⟨rfl, rfl, rfl⟩
      · exact ⟨rfl, rfl, rfl⟩
    have hready : ∀ other round' nonce',
        (s.happen (.stamp group round nonce partition)).Ready other round' nonce' ↔
          s.Ready other round' nonce' := by
      intro other round' nonce'
      by_cases hoth : other = group
      · subst hoth
        simp [Ready, happen, hfields]
      · simp [Ready, happen, update_of_ne hoth]
    refine ⟨⟨fun _ h => h, fun _ h => h, fun _ _ _ h => (hready _ _ _).2 h⟩, fun h => ?_⟩
    intro other nonce' hfence
    exact h other nonce' ((hready _ _ _).1 hfence)

/-- The condition on the runs: a call whose next step changes the marker holds the lease. -/
def HoldsLease (sys : Nodes γ) : Input (Event γ) → Prop
  | .run i => Holding i sys.store (sys.next i)
  | _ => True

instance (sys : Nodes γ) : (input : Input (Event γ)) → Decidable (HoldsLease sys input)
  | .run _ => instDecidableForall
  | .stop _ => instDecidableTrue
  | .env _ => instDecidableTrue

theorem admissible_of_holdsLease {sys : Nodes γ} {input : Input (Event γ)}
    (h : HoldsLease sys input) :
    sys.Admissible Relies Holding Sound (fun _ => Agreed) happen input := by
  cases input with
  | run i => exact h
  | stop i => trivial
  | env e =>
    intro hs
    obtain ⟨hkeeps, hsound⟩ := keeps_happen sys.store e
    refine ⟨hsound hs, fun i _ => ⟨hkeeps, ?_⟩, ?_⟩
    · intro hlease
      cases e with
      | expire => cases hlease
      | stamp group round nonce partition => exact ⟨hlease, rfl⟩
    · intro i found hagr
      exact ⟨hkeeps.round _ hagr.1, hkeeps.chosen _ hagr.2⟩

theorem inv_runNodes (calls : ℕ → BootstrapCall γ) (hs : s.Sound) {inputs : List (Input (Event γ))}
    (h : Along (Sys.exec happen .crashed) HoldsLease (nodes calls s) inputs) :
    (runNodes (nodes calls s) inputs).Inv Relies Guarantees Holding Sound fun _ => Agreed := by
  exact Sys.sound compatible (Sys.inv_start hs fun i s _ => safe_bootstrapWithin (calls i).polls)
    (h.mono fun _ _ => admissible_of_holdsLease)

/-- **One nonce in a round.** -/
theorem bootstrap_agrees (calls : ℕ → BootstrapCall γ) (s : FencingStore γ) (hs : s.Sound)
    (inputs : List (Input (Event γ)))
    (h : Along (Sys.exec FencingStore.happen .crashed) HoldsLease (nodes calls s) inputs) :
    (∀ i j found found', (runNodes (nodes calls s) inputs).procs i = .done found →
      (runNodes (nodes calls s) inputs).procs j = .done found' →
      found.round = found'.round → found.nonce = found'.nonce) ∧
    ∀ pre post, inputs = pre ++ post → ∀ group round nonce,
      (runNodes (nodes calls s) pre).store.Ready group round nonce →
        (runNodes (nodes calls s) inputs).store.Ready group round nonce := by
  constructor
  · intro i j found found' hi hj _
    have hinv := inv_runNodes calls hs h
    have hagr := hinv.result hi
    have hagr' := hinv.result hj
    exact some.inj (hagr.2.symm.trans hagr'.2)
  · intro pre post heq group round nonce hready
    subst heq
    obtain ⟨hpre, hpost⟩ := along_append.1 h
    have hkeeps : (runNodes (nodes calls s) pre).store.Keeps
        (runNodes (nodes calls s) (pre ++ post)).store := by
      rw [runNodes, runNodes, runFrom_append]
      refine Sys.moved (I := Sound) compatible Keeps.refl (fun _ _ _ => Keeps.trans)
        (fun _ _ _ _ hG => hG.keeps) (inv_runNodes calls hs hpre) ?_
      refine hpost.mono fun sys input hinp => ⟨admissible_of_holdsLease hinp, ?_⟩
      intro e _ _
      exact (keeps_happen sys.store e).1
    exact hkeeps.fence group round nonce hready

/-! ## A call that outlives its lease -/

/-- Two nodes of one group. -/
def twoCalls : ℕ → BootstrapCall Unit
  | 0 => { group := (), epoch := 1, nonce := "a", polls := 0 }
  | _ => { group := (), epoch := 1, nonce := "b", polls := 0 }

/-- Nothing is stored. -/
def emptyStore : FencingStore Unit := ⟨none, none, fun _ => .absent⟩

/-- Call `i` takes `n` steps. -/
def turns (i n : ℕ) : List (Input (Event Unit)) := List.replicate n (.run i)

/-- The first call completes, and then the second one finds everything ready. -/
theorem bootstrap_agrees_twoCalls :
    ∃ found found',
      (runNodes (nodes twoCalls emptyStore) (turns 0 12 ++ turns 1 5)).procs 0 = .done found ∧
      (runNodes (nodes twoCalls emptyStore) (turns 0 12 ++ turns 1 5)).procs 1 = .done found' ∧
      found.nonce = found'.nonce ∧
      (runNodes (nodes twoCalls emptyStore) (turns 0 12 ++ turns 1 5)).store.Ready () (some 1)
        (some "a") := by
  have hs : emptyStore.Sound := by
    intro group nonce h
    cases h.1
  obtain ⟨hsame, hready⟩ := bootstrap_agrees twoCalls emptyStore hs (turns 0 12 ++ turns 1 5)
    (by decide)
  have hfirst := Prog.eq_done_of_result (p :=
    (runNodes (nodes twoCalls emptyStore) (turns 0 12 ++ turns 1 5)).procs 0) (a := ⟨1, "a", 1⟩)
    (by decide)
  have hsec := Prog.eq_done_of_result (p :=
    (runNodes (nodes twoCalls emptyStore) (turns 0 12 ++ turns 1 5)).procs 1) (a := ⟨1, "a", 1⟩)
    (by decide)
  exact ⟨_, _, hfirst, hsec, hsame 0 1 _ _ hfirst hsec rfl,
    hready (turns 0 12) (turns 1 5) rfl () (some 1) (some "a") (by decide)⟩

/-- The first call creates the marker and is paused until its lease has expired and the second call
is done. -/
def paused : List (Input (Event Unit)) := turns 0 4 ++ [.env .expire] ++ turns 1 12

/-- **Two nonces.** When the first call goes on, it returns another nonce for the same round, and
replaces that of the fence. -/
theorem bootstrap_splits :
    ((runNodes (nodes twoCalls emptyStore) (paused ++ turns 0 8)).procs 0).result =
      some (.ok ⟨1, "a", 1⟩) ∧
    ((runNodes (nodes twoCalls emptyStore) (paused ++ turns 0 8)).procs 1).result =
      some (.ok ⟨1, "b", 1⟩) ∧
    (runNodes (nodes twoCalls emptyStore) paused).store.Ready () (some 1) (some "b") ∧
    (runNodes (nodes twoCalls emptyStore) (paused ++ turns 0 8)).store.Ready () (some 1)
      (some "a") := by
  decide

end

structure FencingStamp where
  p : ℕ
  epoch : ℕ
  counter : ℕ
deriving DecidableEq

/-- Why no stamp is acquired: the script refuses with a tag, HINCRBY fails, or the reply is bad. -/
inductive StampError
  | rejected (tag : String) | overflow | missingEpoch | counterCorrupt | counterRange
deriving DecidableEq

/-- What Redis keeps for a group: the fence, and for each partition the holders of the lock and the
records that are pending. -/
structure StampStore where
  fence : Fence
  lock : ℕ → List String
  pending : ℕ → List String

/-- The checks of the fence in both scripts, with the tag that is returned if one fails. -/
def Fence.refuses (fence : Fence) (info : FenceMeta) : Option String :=
  if fence.state ≠ some .ready then some "FENCE_NOT_READY"
  else if fence.round ≠ some info.round then some "ROUND_MISMATCH"
  else if fence.nonce ≠ some info.nonce then some "NONCE_MISMATCH"
  else none

/-- The counter of a partition, as HINCRBY reads it. -/
def Fence.counter (fence : Fence) (p : ℕ) : ℕ := (fence.counters.get? p).getD 0

inductive FencedAck
  | acked (count : ℕ)
  | rejected (tag : String)
deriving DecidableEq

/-- XACK of one record. -/
def xack (acked : ℕ × List String) (id : String) : ℕ × List String :=
  if id ∈ acked.2 then (acked.1 + 1, acked.2.erase id) else acked

/-- What can happen, by whomever. -/
inductive StampStep
  | acquire (info : FenceMeta) (p : ℕ)
  | ack (holder : String) (info : FenceMeta) (stamp : FencingStamp) (ids : List String)
  | setLock (p : ℕ) (holders : List String)
  | setPending (p : ℕ) (ids : List String)
  | init (round epoch : ℕ)
  | activate (round : ℕ) (nonce : String)

namespace StampStore

/-- `acquire_stamp`. A bad reply is found after the counter was raised. -/
def acquireStamp (s : StampStore) (info : FenceMeta) (p : ℕ) :
    Except StampError FencingStamp × StampStore :=
  match s.fence.refuses info with
  | some tag => (.error (.rejected tag), s)
  | none =>
    if 2 ^ 63 - 1 ≤ s.fence.counter p then (.error .overflow, s)
    else
      let fence := s.fence.acquireStamp info.round info.nonce p
      let counter := fence.counter p
      let reply := match fence.epoch with
        | none => .error .missingEpoch
        | some epoch =>
          -- Lua's `tostring` keeps fourteen digits, and more do not parse
          if 10 ^ 14 ≤ counter then .error .counterCorrupt
          else if counter = 0 ∨ 2 ^ 63 - 1 < counter then .error .counterRange
          else .ok ⟨p, epoch, counter⟩
      (reply, { s with fence })

def fencedAck (s : StampStore) (holder : String) (info : FenceMeta) (stamp : FencingStamp)
    (ids : List String) : FencedAck × StampStore :=
  if holder ∉ s.lock stamp.p then (.rejected "NOT_HOLDER", s)
  else
    match s.fence.refuses info with
    | some tag => (.rejected tag, s)
    | none =>
      if s.fence.counters.get? stamp.p ≠ some stamp.counter then (.rejected "STALE_STAMP", s)
      else
        let acked := ids.foldl xack (0, s.pending stamp.p)
        (.acked acked.1, { s with pending := Function.update s.pending stamp.p acked.2 })

def exec (s : StampStore) : StampStep → StampStore
  | .acquire info p => (s.acquireStamp info p).2
  | .ack holder info stamp ids => (s.fencedAck holder info stamp ids).2
  | .setLock p holders => { s with lock := Function.update s.lock p holders }
  | .setPending p ids => { s with pending := Function.update s.pending p ids }
  | .init round epoch => { s with fence := (s.fence.init round epoch).2 }
  | .activate round nonce => { s with fence := (s.fence.activate round nonce).2 }

def run (s : StampStore) (steps : List StampStep) : StampStore := runFrom exec s steps

end StampStore

variable {s : StampStore} {info : FenceMeta} {p : ℕ} {stamp : FencingStamp}
  {holder : String} {ids : List String}

theorem Fence.counter_init_le (fence : Fence) (round epoch p : ℕ) :
    fence.counter p ≤ (fence.init round epoch).2.counter p := by
  unfold Fence.init
  cases fence.state with
  | none => exact le_rfl
  | some state =>
    cases state with
    | ready =>
      simp only
      split_ifs <;> exact le_rfl
    | initializing =>
      simp only
      split_ifs with _ _ _ hcnt
      · exact le_rfl
      · exact le_rfl
      · exact le_rfl
      · exact le_rfl
      · -- the fence that is replaced has no counters
        have hnone : fence.counters.get? p = none := by
          simp [Dict.get?, not_not.1 hcnt]
        simp [Fence.counter, hnone]

theorem Fence.counter_acquireStamp_le (fence : Fence) (round : ℕ) (nonce : String) (p q : ℕ) :
    fence.counter q ≤ (fence.acquireStamp round nonce p).counter q := by
  unfold Fence.acquireStamp
  split_ifs
  · exact le_rfl
  · by_cases hq : q = p
    · simp [Fence.counter, hq]
    · simp [Fence.counter, hq]

namespace StampStore

theorem fencedAck_fence : (s.fencedAck holder info stamp ids).2.fence = s.fence := by
  unfold fencedAck
  split
  · rfl
  · split
    · rfl
    · split <;> rfl

theorem counter_exec_le (s : StampStore) (step : StampStep) (p : ℕ) :
    s.fence.counter p ≤ (s.exec step).fence.counter p := by
  cases step with
  | acquire info q =>
    simp only [exec, acquireStamp]
    split
    · exact le_rfl
    · split
      · exact le_rfl
      · exact s.fence.counter_acquireStamp_le _ _ q p
  | ack holder info stamp ids => simp [exec, fencedAck_fence]
  | setLock q holders | setPending q ids => exact le_rfl
  | init round epoch => exact s.fence.counter_init_le round epoch p
  | activate round nonce =>
    simp only [exec, Fence.activate]
    split_ifs <;> exact le_rfl

theorem counter_run_le (s : StampStore) (steps : List StampStep) (p : ℕ) :
    s.fence.counter p ≤ (s.run steps).fence.counter p :=
  inv_runFrom_all (I := fun t : StampStore => s.fence.counter p ≤ t.fence.counter p)
    (fun t step h => h.trans (counter_exec_le t step p)) le_rfl steps

theorem counter_of_acquire (h : (s.acquireStamp info p).1 = .ok stamp) :
    stamp.counter = s.fence.counter p + 1 ∧
      (s.exec (.acquire info p)).fence.counter p = stamp.counter := by
  simp only [exec, acquireStamp] at h ⊢
  cases href : s.fence.refuses info with
  | some tag => simp [href] at h
  | none =>
    have hready : ¬ (s.fence.state ≠ some .ready ∨ s.fence.round ≠ some info.round ∨
        s.fence.nonce ≠ some info.nonce) := by
      unfold Fence.refuses at href
      split_ifs at href
      simp_all
    simp only [href, Fence.acquireStamp, if_neg hready] at h ⊢
    cases hep : s.fence.epoch with
    | none =>
      simp only [hep] at h
      split_ifs at h
    | some epoch =>
      simp only [hep] at h ⊢
      split_ifs at h ⊢
      cases h
      simp [Fence.counter]

theorem fencedAck_of_lt (h : stamp.counter < s.fence.counter stamp.p) :
    (s.fencedAck holder info stamp ids).2 = s ∧
      ∀ count, (s.fencedAck holder info stamp ids).1 ≠ .acked count := by
  have hstale : s.fence.counters.get? stamp.p ≠ some stamp.counter := by
    intro heq
    simp [Fence.counter, heq] at h
  rw [fencedAck, if_pos hstale]
  split
  · simp
  · split <;> simp

/-- **Fenced terms.** -/
theorem stamps_fence (s : StampStore) (before after : List StampStep) (info : FenceMeta)
    (p : ℕ) (stamp : FencingStamp) (h : ((s.run before).acquireStamp info p).1 = .ok stamp) :
    let t := (s.run before).run (.acquire info p :: after)
    (∀ info' stamp', (t.acquireStamp info' p).1 = .ok stamp' → stamp.counter < stamp'.counter) ∧
    ∀ old holder info' ids, old.p = p → old.counter < stamp.counter →
      (t.fencedAck holder info' old ids).2 = t ∧
        ∀ count, (t.fencedAck holder info' old ids).1 ≠ .acked count := by
  intro t
  have hreach : stamp.counter ≤ t.fence.counter p := by
    rw [← (counter_of_acquire h).2]
    exact counter_run_le _ after p
  refine ⟨fun info' stamp' h' => ?_, fun old holder info' ids hp hlt => ?_⟩
  · have hnext := (counter_of_acquire h').1
    omega
  · exact fencedAck_of_lt (hp ▸ hlt.trans_le hreach)

/-- A group that is ready, with nothing acquired yet and one record pending. -/
def ready : StampStore :=
  ⟨⟨some .ready, some 1, some "n", some 0, ∅⟩, fun _ => ["a", "b"], fun _ => ["1-0"]⟩

/-- Two nodes acquire a partition. The first one still holds the lock, but acknowledges nothing. -/
theorem stamps_fence_taken_over :
    let s := ready.run [.acquire ⟨1, "n", 0⟩ 0]
    let t := s.run [.acquire ⟨1, "n", 0⟩ 0]
    (ready.acquireStamp ⟨1, "n", 0⟩ 0).1 = .ok ⟨0, 0, 1⟩ ∧
      (s.acquireStamp ⟨1, "n", 0⟩ 0).1 = .ok ⟨0, 0, 2⟩ ∧
      (t.fencedAck "a" ⟨1, "n", 0⟩ ⟨0, 0, 1⟩ ["1-0"]).2 = t := by
  intro s t
  have hsec : (s.acquireStamp ⟨1, "n", 0⟩ 0).1 = .ok ⟨0, 0, 2⟩ := by decide +kernel
  have hold := (stamps_fence ready [.acquire ⟨1, "n", 0⟩ 0] [] ⟨1, "n", 0⟩ 0 _ hsec).2
  exact ⟨by decide +kernel, hsec, (hold ⟨0, 0, 1⟩ "a" _ _ rfl (by decide)).1⟩

end StampStore

end NasaRuntime.Nadis
