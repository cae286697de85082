import Mathlib.Data.List.Nodup
import NasaRuntime.Naidempotency.Stores
import NasaRuntime.Natx.Kernel
import NasaRuntime.Saga.Definition

/-!
# The inbox

`MySqlInbox::process` claims a message, runs the handler and commits, inside one transaction of
`natx`. Any number of tasks, of any number of replicas, run against one table `inbox_message`, and
the retention deletes old rows of it.

The database is modelled by what is assumed of it. A row that a transaction has inserted is locked
until the transaction ends, and is in the table from then on if the transaction was committed. An
INSERT succeeds if its key is neither in the table nor locked; it reports a duplicate if the key is
in the table or was inserted by the same transaction; as long as another transaction has locked the
key, it waits. Any statement may fail. Keys are compared under the collation of the server, which does
not tell upper case from lower case (`InboxKey.collate`).

**Theorem (`inbox_processing`).** In every history of tasks and retention runs, the effects of a
message were committed at most once since its marker was last deleted. A `process` that owns its
transaction returns `Applied` or `Duplicate` only after the transaction was committed, and the
marker with it or before it, if no other message with an equal key was committed.

A `process` inside an ambient transaction returns before anything is committed, and the caller may
still roll back (`joined_process_uncommitted`).
-/

namespace NasaRuntime.Nainbox

open Natx (Body TxDecision TxRunError Task Event)
open Naidempotency (Server lowerCase inboxCollation)

/-- The primary key of `inbox_message`. -/
abbrev Key := Naidempotency.InboxKey

/-- The statements of a task: the INSERT of a claim, and whatever the handlers write. -/
inductive Statement (W : Type)
  | claim (key : Key)
  | write (w : W)
  deriving DecidableEq

/-- What the database answers. A row gets its `processed_at` when it is inserted. -/
inductive Answer
  | claimed (processedAt : ℕ)
  | duplicate
  | done
  | failed
  deriving DecidableEq

/-- The values of transactional bodies: of `process` (`InboxProcess`), and all others. -/
inductive Outcome (T : Type)
  | value (t : T)
  | applied (value : Outcome T)
  | duplicate
  deriving DecidableEq

inductive InboxError
  | store (reason : String)
  | business (reason : String)
  deriving DecidableEq

variable {W T : Type}

abbrev InboxBody (W T : Type) := Body (Statement W) Answer (Outcome T) InboxError

abbrev InboxTask (W T : Type) := Task (Statement W) Answer (Outcome T) InboxError

def validateKey (field value : String) (max : ℕ) : Except InboxError Unit :=
  if value = "" || value.toList.head?.any Saga.isWhitespace ||
      value.toList.getLast?.any Saga.isWhitespace || value.utf8ByteSize > max ||
      value.toList.contains '\x00' then
    .error (.store s!"invalid {field}")
  else .ok ()

/-- What becomes of the value of the handler. -/
def applyValue : InboxBody W T → InboxBody W T
  | .statement op next => .statement op fun answer => applyValue (next answer)
  | .call datasource describe body next =>
    .call datasource describe body fun result => applyValue (next result)
  | .done (.commit value) => .done (.commit (.applied value))
  | .done (.rollback error) => .done (.rollback error)

/-- The body of `process`. -/
def process (key : Key) (handle : InboxBody W T) : InboxBody W T :=
  let valid := do
    validateKey "consumer_name" key.consumerName 128
    validateKey "message_id" key.messageId 190
  match valid with
  | .error error => .done (.rollback error)
  | .ok () => .statement (.claim key) fun
    | .claimed _ => applyValue handle
    | .duplicate => .done (.commit .duplicate)
    | .done | .failed => .done (.rollback (.store "database operation failed"))

/-- The error of `process`. -/
inductive ProcessError
  | body (error : InboxError)
  | rollbackOnly
  | commitRejected
  | commitUncertain
  | rollbackFailed
  | infrastructure

def mapTransactionError : TxRunError InboxError → ProcessError
  | .rollback error => .body error
  | .rollbackOnly _ => .rollbackOnly
  | .commitRejected _ => .commitRejected
  | .commitUncertain _ => .commitUncertain
  | .rollbackFailed _ _ => .rollbackFailed
  | .infrastructure _ => .infrastructure

/-- What `process` has returned, where it owns the transaction of the task. -/
def returned (t : InboxTask W T) : Option (Except ProcessError (Outcome T)) :=
  t.result.map (Except.mapError mapTransactionError)

/-- A row, with the transaction that inserted it. -/
structure Row where
  task : ℕ
  key : Key
  processedAt : ℕ
  deriving DecidableEq

/-- What the database compares of a row. -/
def Row.weight (server : Server) (row : Row) : Key := row.key.collate server

inductive Change (W : Type)
  | committed (task : ℕ) (log : List (Event (Statement W) Answer))
  | deleted (key : Key)

structure Inbox (W T : Type) where
  rows : List Row
  /-- The rows of transactions that have not ended. -/
  locks : List Row
  tasks : ℕ → Option (InboxTask W T)
  /-- The latest change comes first. -/
  history : List (Change W)

inductive Call (W T : Type)
  | begin (task : ℕ) (datasource : String) (body : InboxBody W T)
  | move (task : ℕ) (input : Natx.Input Answer)
  | retain (consumerName : String) (cutoff batchLimit : ℕ)

namespace Inbox

def empty : Inbox W T := ⟨[], [], fun _ => none, []⟩

def put (s : Inbox W T) (i : ℕ) (t : InboxTask W T) : Inbox W T :=
  { s with tasks := Function.update s.tasks i (some t) }

@[simp] theorem put_self (s : Inbox W T) (i : ℕ) (t : InboxTask W T) :
    (s.put i t).tasks i = some t := Function.update_self ..

theorem put_of_ne (s : Inbox W T) {i j : ℕ} (t : InboxTask W T) (h : j ≠ i) :
    (s.put i t).tasks j = s.tasks j := Function.update_of_ne h ..

/-- Whether the database may answer so, and what it has locked then. -/
def answer (server : Server) (s : Inbox W T) (i : ℕ) : Statement W → Answer → Option (List Row)
  | .claim key, .claimed processedAt =>
    if (s.rows ++ s.locks).any (·.weight server = key.collate server) then none
    else some (⟨i, key, processedAt⟩ :: s.locks)
  | .claim key, .duplicate =>
    if s.rows.any (·.weight server = key.collate server) ||
        s.locks.any (fun row => row.task = i && row.weight server = key.collate server) then
      some s.locks
    else none
  | .write _, .done => some s.locks
  | _, .failed => some s.locks
  | _, _ => none

/-- The database has applied the transaction. -/
def applies : Natx.Physical → Bool
  | .committed | .unconfirmed true => true
  | _ => false

/-- The transaction ends, with the task in its last state. -/
def finish (s : Inbox W T) (i : ℕ) (t : InboxTask W T) : Inbox W T :=
  let locks := s.locks.filter (·.task ≠ i)
  if applies t.physical then
    { s.put i t with
      rows := s.locks.filter (·.task = i) ++ s.rows
      locks := locks
      history := .committed i t.log :: s.history }
  else { s.put i t with locks := locks }

def settle (s : Inbox W T) (i : ℕ) (t : InboxTask W T) : Inbox W T :=
  if t.physical = .active then s.put i t else s.finish i t

def move (server : Server) (s : Inbox W T) (i : ℕ) (t : InboxTask W T) (input : Natx.Input Answer) :
    Inbox W T :=
  if t.physical ≠ .active then s
  else
    match input, t.body with
    | .answer answer, .statement op _ =>
      match s.answer server i op answer with
      | some locks => { s.put i (t.exec input) with locks := locks }
      | none => s
    | _, _ => s.settle i (t.exec input)

/-- One DELETE of `retention_round_locked`. -/
def retain (server : Server) (s : Inbox W T) (consumerName : String) (cutoff batchLimit : ℕ) :
    Inbox W T :=
  let old := s.rows.filter fun row =>
    (row.weight server).consumerName = server.column inboxCollation consumerName &&
      decide (row.processedAt < cutoff)
  let doomed := (old.mergeSort fun a b => a.processedAt ≤ b.processedAt).take batchLimit
  { s with
    rows := s.rows.filter (· ∉ doomed)
    history := doomed.map (fun row => .deleted row.key) ++ s.history }

def exec (server : Server) (s : Inbox W T) : Call W T → Inbox W T
  | .begin i datasource body =>
    match s.tasks i with
    | none => s.put i (.start datasource body)
    | some _ => s
  | .move i input =>
    match s.tasks i with
    | none => s
    | some t => s.move server i t input
  | .retain consumerName cutoff batchLimit => s.retain server consumerName cutoff batchLimit

/-- The inbox after a history of calls. -/
def run (server : Server) (calls : List (Call W T)) : Inbox W T := runFrom (exec server) empty calls

end Inbox

open List

/-- The claims that succeeded. -/
def claims (log : List (Event (Statement W) Answer)) : List Key :=
  log.filterMap fun
    | .executed (.claim key) (.claimed _) => some key
    | _ => none

/-- How often the effects of messages with a key were committed since its marker was last deleted. -/
def live (server : Server) (weight : Key) : List (Change W) → ℕ
  | [] => 0
  | .committed _ log :: history =>
    ((claims log).map (·.collate server)).count weight + live server weight history
  | .deleted key :: history =>
    if key.collate server = weight then 0 else live server weight history

/-- The claims of a transaction that has not ended. -/
def openClaims : Option (InboxTask W T) → List Key
  | none => []
  | some t => if t.physical = .active then claims t.log else []

/-- The marker of the message was committed. -/
def Marked (key : Key) (history : List (Change W)) : Prop :=
  ∃ i log, .committed i log ∈ history ∧ key ∈ claims log

variable {history history' : List (Change W)}

theorem Marked.mono {key : Key} (h : Marked key history)
    (hsub : ∀ change ∈ history, change ∈ history') : Marked key history' := by
  obtain ⟨i, log, hmem, hkey⟩ := h
  exact ⟨i, log, hsub _ hmem, hkey⟩

namespace Inbox

structure Inv (server : Server) (s : Inbox W T) : Prop where
  distinct : ((s.rows ++ s.locks).map (·.weight server)).Nodup
  owned : ∀ i, (s.locks.filter (·.task = i)).map (·.key) = openClaims (s.tasks i)
  live : ∀ key, live server key s.history ≤ if key ∈ s.rows.map (·.weight server) then 1 else 0
  marked : ∀ row ∈ s.rows, Marked row.key s.history
  nesting : ∀ i t, s.tasks i = some t → t.Nesting
  recorded : ∀ i t, s.tasks i = some t → applies t.physical → .committed i t.log ∈ s.history

variable {server : Server} {s : Inbox W T} {t : InboxTask W T} {i : ℕ} {key : Key}
variable {next : Answer → InboxBody W T}

theorem inv_empty : Inv server (empty : Inbox W T) := by
  constructor <;> simp [empty, openClaims, Nainbox.live]

theorem exec_cases (server : Server) (s : Inbox W T) (call : Call W T) :
    s.exec server call = s ∨
      (∃ i datasource body, call = .begin i datasource body ∧ s.tasks i = none ∧
        s.exec server call = s.put i (.start datasource body)) ∨
      (∃ i t op next answer locks, s.tasks i = some t ∧ t.physical = .active ∧
        t.body = .statement op next ∧ s.answer server i op answer = some locks ∧
        s.exec server call = { s.put i (t.exec (.answer answer)) with locks := locks }) ∨
      (∃ i t input, s.tasks i = some t ∧ t.physical = .active ∧
        (∀ answer op next, input = .answer answer → t.body ≠ .statement op next) ∧
        s.exec server call = s.settle i (t.exec input)) ∨
      ∃ consumerName cutoff batchLimit,
        s.exec server call = s.retain server consumerName cutoff batchLimit := by
  cases call with
  | begin i datasource body =>
    cases hi : s.tasks i with
    | none => exact .inr (.inl ⟨i, datasource, body, rfl, hi, by simp only [exec, hi]⟩)
    | some t => exact .inl (by simp only [exec, hi])
  | move i input =>
    cases hi : s.tasks i with
    | none => exact .inl (by simp only [exec, hi])
    | some t =>
      simp only [exec, hi, move]
      split_ifs with hact
      · exact .inl rfl
      rw [not_not] at hact
      split
      case h_1 answer op next hbody =>
        split
        case h_1 locks hlocks =>
          exact .inr (.inr (.inl ⟨i, t, op, next, answer, locks, hi, hact, hbody, hlocks, rfl⟩))
        case h_2 => exact .inl rfl
      case h_2 hno =>
        refine .inr (.inr (.inr (.inl ⟨i, t, _, hi, hact, ?_, rfl⟩)))
        rintro answer op next rfl hbody
        exact hno answer op next rfl hbody
  | retain consumerName cutoff batchLimit =>
    exact .inr (.inr (.inr (.inr ⟨consumerName, cutoff, batchLimit, rfl⟩)))

/-! ## Moves of one task -/

theorem exec_answer (hact : t.physical = .active) {op : Statement W}
    (hbody : t.body = .statement op next) (answer : Answer) : t.exec (.answer answer) =
      { t with body := next answer, log := .executed op answer :: t.log } := by
  simp [Task.exec, hact, hbody]

theorem claims_exec (t : InboxTask W T) (input : Natx.Input Answer)
    (h : ∀ answer op next, input = .answer answer → t.body ≠ .statement op next) :
    claims (t.exec input).log = claims t.log := by
  rcases t.exec_cases input with heq | ⟨-, ⟨answer, op, next, hinp, hbody, -⟩ | ⟨_, heq⟩ |
    ⟨_, _, _, heq⟩ | ⟨_, _, decision, _, heq⟩ | ⟨_, _, _, heq⟩ | heq |
    ⟨_, _, _, _, _, _, _, heq⟩⟩
  · rw [heq]
  · exact absurd hbody (h answer op next hinp)
  · rw [heq]
  · rw [heq]; rfl
  · rw [heq]; cases decision <;> rfl
  · rw [heq]; rfl
  · rw [heq]
  · rw [heq]

/-- Only the task that moves has a new state, and it keeps the nesting of its calls. -/
theorem Inv.nesting_put (h : Inv server s) (ht : t.Nesting) :
    ∀ j t', (s.put i t).tasks j = some t' → t'.Nesting := by
  intro j t' hj
  by_cases hji : j = i
  · subst hji
    cases (s.put_self j t).symm.trans hj
    exact ht
  · exact h.nesting j t' ((s.put_of_ne t hji).symm.trans hj)

theorem Inv.recorded_put (h : Inv server s) (hhist : ∀ change ∈ s.history, change ∈ history)
    (ht : applies t.physical → .committed i t.log ∈ history) :
    ∀ j t', (s.put i t).tasks j = some t' → applies t'.physical →
      .committed j t'.log ∈ history := by
  intro j t' hj happ
  by_cases hji : j = i
  · subst hji
    cases (s.put_self j t).symm.trans hj
    exact ht happ
  · exact hhist _ (h.recorded j t' ((s.put_of_ne t hji).symm.trans hj) happ)

/-- The task has as many claims open as it has rows locked, and no other task is touched. -/
theorem Inv.owned_put (h : Inv server s) {locks : List Row}
    (hmine : (locks.filter (·.task = i)).map (·.key) = openClaims (some t))
    (hoth : ∀ j ≠ i, locks.filter (·.task = j) = s.locks.filter (·.task = j)) (j : ℕ) :
    (locks.filter (·.task = j)).map (·.key) = openClaims ((s.put i t).tasks j) := by
  by_cases hji : j = i
  · subst hji
    rw [put_self]
    exact hmine
  · rw [put_of_ne s t hji, hoth j hji]
    exact h.owned j

/-- A move that ends nothing and locks nothing. -/
theorem Inv.put (h : Inv server s) (ht : t.Nesting) (hact : t.physical = .active)
    (hclaims : claims t.log = openClaims (s.tasks i)) : Inv server (s.put i t) where
  distinct := h.distinct
  owned := h.owned_put ((h.owned i).trans (by rw [openClaims, if_pos hact, hclaims])) fun _ _ => rfl
  live := h.live
  marked := h.marked
  nesting := h.nesting_put ht
  recorded := h.recorded_put (fun _ => id) fun happ => by
    rw [hact] at happ
    cases happ

theorem Inv.answer (h : Inv server s) (hi : s.tasks i = some t) (hact : t.physical = .active)
    {op : Statement W} (hbody : t.body = .statement op next)
    {answer : Answer} {locks : List Row} (hlocks : s.answer server i op answer = some locks) :
    Inv server { s.put i (t.exec (.answer answer)) with locks := locks } := by
  have hnest := (h.nesting i t hi).exec (.answer answer)
  have hopen : openClaims (s.tasks i) = claims t.log := by rw [hi, openClaims, if_pos hact]
  rw [exec_answer hact hbody] at hnest ⊢
  by_cases hclaim : ∃ key processedAt, op = .claim key ∧ answer = .claimed processedAt
  · obtain ⟨key, processedAt, rfl, rfl⟩ := hclaim
    simp only [Inbox.answer, Option.ite_none_left_eq_some, Option.some.injEq] at hlocks
    obtain ⟨hfree, rfl⟩ := hlocks
    have hkey : key.collate server ∉ (s.rows ++ s.locks).map (·.weight server) := by
      simpa using hfree
    refine { h with
      distinct := ?_
      owned := h.owned_put ?_ fun j hj => ?_
      nesting := h.nesting_put hnest
      recorded := h.recorded_put (fun _ => id) ?_ }
    · have hperm : (s.rows ++ (⟨i, key, processedAt⟩ : Row) :: s.locks).Perm
          (⟨i, key, processedAt⟩ :: (s.rows ++ s.locks)) := perm_middle
      exact (hperm.map (·.weight server)).nodup_iff.2 (nodup_cons.2 ⟨hkey, h.distinct⟩)
    · rw [filter_cons_of_pos (by simp), map_cons, h.owned, hopen, openClaims, if_pos hact]
      rfl
    · simp [hj.symm]
    · simp [hact, applies]
  · have hsame : locks = s.locks := by
      cases op <;> cases answer <;> simp_all [Inbox.answer]
    have hclaims : claims (.executed op answer :: t.log) = claims t.log := by
      cases op <;> cases answer <;> first | rfl | exact absurd ⟨_, _, rfl, rfl⟩ hclaim
    subst hsame
    exact h.put hnest hact (hclaims.trans hopen.symm)

theorem Inv.finish (h : Inv server s) (ht : t.Nesting) (hend : t.physical ≠ .active)
    (hclaims : claims t.log = openClaims (s.tasks i)) : Inv server (s.finish i t) := by
  have hnone : ((s.locks.filter (·.task ≠ i)).filter (·.task = i)).map (·.key) =
      openClaims (some t) := by
    simp [openClaims, hend]
  have hoth : ∀ j ≠ i,
      (s.locks.filter (·.task ≠ i)).filter (·.task = j) = s.locks.filter (·.task = j) := by
    intro j hj
    rw [filter_filter]
    refine filter_congr fun row _ => ?_
    by_cases hrow : row.task = j <;> simp [hrow, hj]
  have hown := h.owned_put hnone hoth
  have hmine : (s.locks.filter (·.task = i)).map (·.key) = claims t.log := by
    rw [h.owned, hclaims]
  have hweigh : (s.locks.filter (·.task = i)).map (·.weight server) =
      (claims t.log).map (·.collate server) := by
    rw [← hmine, map_map]
    rfl
  unfold Inbox.finish
  split_ifs with happ
  · have hperm : (s.locks.filter (·.task = i) ++ s.rows ++ s.locks.filter (·.task ≠ i)).Perm
        (s.rows ++ s.locks) := by
      have hsplit := filter_append_perm (fun row : Row => row.task = i) s.locks
      simp only [ne_eq, decide_not]
      exact ((perm_append_comm).append_right _).trans
        ((append_assoc ..).symm ▸ hsplit.append_left s.rows)
    have hdist : ((s.locks.filter (·.task = i) ++ s.rows).map (·.weight server)).Nodup :=
      (nodup_append.1 (map_append ▸ ((hperm.map _).nodup_iff.2 h.distinct))).1
    rw [map_append, hweigh] at hdist
    refine {
      distinct := (hperm.map _).nodup_iff.2 h.distinct
      owned := hown
      live := fun key => ?_
      marked := fun row hrow => ?_
      nesting := h.nesting_put ht
      recorded := h.recorded_put (fun _ => mem_cons_of_mem _) fun _ => mem_cons_self }
    · have hold := h.live key
      simp only [Nainbox.live, map_append, hweigh, mem_append]
      by_cases hkey : key ∈ (claims t.log).map (·.collate server)
      · have hnot : key ∉ s.rows.map (·.weight server) := fun hrow =>
          (nodup_append.1 hdist).2.2 key hkey key hrow rfl
        rw [if_neg hnot] at hold
        have hcnt := nodup_iff_count_le_one.1 (nodup_append.1 hdist).1 key
        rw [if_pos (.inl hkey)]
        omega
      · rw [count_eq_zero_of_not_mem hkey, Nat.zero_add]
        simpa only [hkey, false_or] using hold
    · rcases mem_append.1 hrow with hmem | hmem
      · exact ⟨i, t.log, mem_cons_self, hmine ▸ mem_map_of_mem hmem⟩
      · exact (h.marked row hmem).mono fun _ => mem_cons_of_mem _
  · have hsub : (s.rows ++ s.locks.filter (·.task ≠ i)).Sublist (s.rows ++ s.locks) :=
      List.Sublist.append_left filter_sublist _
    exact { h with
      distinct := h.distinct.sublist (hsub.map _)
      owned := hown
      nesting := h.nesting_put ht
      recorded := h.recorded_put (fun _ => id) fun h' => absurd h' happ }

theorem Inv.moveOn (h : Inv server s) (hi : s.tasks i = some t) (hact : t.physical = .active)
    {input : Natx.Input Answer}
    (hno : ∀ answer op next, input = .answer answer → t.body ≠ .statement op next) :
    Inv server (s.settle i (t.exec input)) := by
  have hclaims : claims (t.exec input).log = openClaims (s.tasks i) := by
    rw [claims_exec t input hno, hi, openClaims, if_pos hact]
  unfold settle
  split_ifs with hstill
  · exact h.put ((h.nesting i t hi).exec input) hstill hclaims
  · exact h.finish ((h.nesting i t hi).exec input) hstill hclaims

/-! ## Retention -/

theorem live_deleted (rows : List Row) (history : List (Change W)) :
    live server key (rows.map (fun row => .deleted row.key) ++ history) =
      if key ∈ rows.map (·.weight server) then 0 else live server key history := by
  induction rows with
  | nil => simp
  | cons row rows ih =>
    by_cases hrow : row.key.collate server = key
    · simp [live, Row.weight, hrow]
    · have hne : key ≠ row.weight server := Ne.symm hrow
      simp only [map_cons, cons_append, live, hrow, if_false, ih, mem_cons, hne, false_or]

theorem Inv.retain (h : Inv server s) (consumerName : String) (cutoff batchLimit : ℕ) :
    Inv server (s.retain server consumerName cutoff batchLimit) := by
  unfold Inbox.retain
  simp only
  generalize hdoom : ((s.rows.filter _).mergeSort _).take batchLimit = doomed
  have hsub : ((s.rows.filter (· ∉ doomed)) ++ s.locks).Sublist (s.rows ++ s.locks) :=
    filter_sublist.append_right _
  refine { h with
    distinct := h.distinct.sublist (hsub.map _)
    live := fun key => ?_
    marked := fun row hrow => ?_
    recorded := fun i t hi happ => mem_append_right _ (h.recorded i t hi happ) }
  · have hold := h.live key
    rw [live_deleted]
    split_ifs with hgone hkept hkept
    · exact Nat.zero_le _
    · exact Nat.zero_le _
    · split_ifs at hold <;> omega
    · rw [if_neg] at hold
      · exact hold
      · intro hmem
        obtain ⟨row, hrow, rfl⟩ := mem_map.1 hmem
        by_cases hrow' : row ∈ doomed
        · exact hgone (mem_map_of_mem hrow')
        · exact hkept (mem_map_of_mem (mem_filter.2 ⟨hrow, by simpa using hrow'⟩))
  · exact (h.marked row (mem_filter.1 hrow).1).mono fun _ => mem_append_right _

theorem Inv.exec (h : Inv server s) (call : Call W T) : Inv server (s.exec server call) := by
  rcases exec_cases server s call with heq | ⟨i, datasource, body, -, hi, heq⟩ |
    ⟨i, t, op, next, answer, locks, hi, hact, hbody, hlocks, heq⟩ |
    ⟨i, t, input, hi, hact, hno, heq⟩ | ⟨consumerName, cutoff, batchLimit, heq⟩ <;> rw [heq]
  · exact h
  · exact h.put (Task.nesting_start datasource body) rfl (by rw [hi]; rfl)
  · exact h.answer hi hact hbody hlocks
  · exact h.moveOn hi hact hno
  · exact h.retain consumerName cutoff batchLimit

theorem inv_run (calls : List (Call W T)) : Inv server (run server calls) :=
  inv_runFrom_all (fun _ call h => h.exec call) inv_empty calls

/-! ## A process that owns its transaction -/

/-- How far a task that began with `process` has come: to its first statement, past a claim of its
own, or to its end without one. -/
inductive Stage (server : Server) (key : Key) (handle : InboxBody W T) (history : List (Change W))
    (t : InboxTask W T) : Prop
  | begun (hframes : t.frames = []) (next : Answer → InboxBody W T)
      (hbody : t.body = .statement (.claim key) next)
      (hprocess : process key handle = .statement (.claim key) next) (hlog : t.log = [])
      (hresult : t.result = none)
  | claimed (hkey : key ∈ claims t.log)
  | decided (hframes : t.frames = []) (decision : TxDecision (Outcome T) InboxError)
      (hbody : t.body = .done decision)
      (hmarked : ∀ v, decision = .commit v → v = .duplicate ∧
        ∃ other, other.collate server = key.collate server ∧ Marked other history)
      (hresult : ∀ v, t.result = some (.ok v) → decision = .commit v)

theorem process_cases (key : Key) (handle : InboxBody W T) :
    (∃ error, process key handle = .done (.rollback error)) ∨
      ∃ next, process key handle = .statement (.claim key) next ∧
        next .duplicate = .done (.commit .duplicate) ∧
        next .failed = .done (.rollback (.store "database operation failed")) := by
  unfold process
  simp only
  split
  · exact .inl ⟨_, rfl⟩
  · exact .inr ⟨_, rfl, rfl, rfl⟩

variable {handle : InboxBody W T}

theorem Stage.mono (h : Stage server key handle history t)
    (hsub : ∀ change ∈ history, change ∈ history') : Stage server key handle history' t := by
  cases h with
  | begun hframes next hbody hprocess hlog hresult =>
    exact .begun hframes next hbody hprocess hlog hresult
  | claimed hkey => exact .claimed hkey
  | decided hframes decision hbody hmarked hresult =>
    refine .decided hframes decision hbody (fun v hv => ?_) hresult
    obtain ⟨hdupl, other, hsame, hmark⟩ := hmarked v hv
    exact ⟨hdupl, other, hsame, hmark.mono hsub⟩

theorem Stage.moveOn (h : Stage server key handle history t) {input : Natx.Input Answer}
    (hno : ∀ answer op next, input = .answer answer → t.body ≠ .statement op next) :
    Stage server key handle history (t.exec input) := by
  cases h with
  | claimed hkey => exact .claimed (claims_exec t input hno ▸ hkey)
  | begun hframes next hbody hprocess hlog hresult =>
    -- the statement waits for its answer, so the task can only be dropped
    have hsame : t.exec input = t ∨ t.exec input = { t with physical := .discarded } := by
      by_cases hact : t.physical = .active
      · cases input with
        | answer answer => exact absurd hbody (hno answer _ _ rfl)
        | poll | drop | finish => simp [Task.exec, hact, hbody, hframes]
      · simp [Task.exec, hact]
    rcases hsame with heq | heq <;> rw [heq]
    · exact .begun hframes next hbody hprocess hlog hresult
    · exact .begun hframes next hbody hprocess hlog hresult
  | decided hframes decision hbody hmarked hresult =>
    by_cases hact : t.physical = .active
    · cases input with
      | finish held answer rollbackOk awaited =>
        simp only [Task.exec, hact, hbody, hframes, ne_eq, not_true, if_false]
        refine .decided rfl decision rfl hmarked fun v hv => ?_
        split_ifs at hv
        exact ((Task.conclude_spec t.context held answer rollbackOk decision).2 v
          (Option.some.inj hv)).2
      | drop =>
        simp only [Task.exec, hact, hframes, ne_eq, not_true, if_false]
        exact .decided rfl decision hbody hmarked hresult
      | answer | poll =>
        simp only [Task.exec, hact, hbody, hframes, ne_eq, not_true, if_false]
        exact .decided hframes decision hbody hmarked hresult
    · simp only [Task.exec, hact, ne_eq, not_false_eq_true, if_true]
      exact .decided hframes decision hbody hmarked hresult

/-- The answer to the first statement says whose marker it is. -/
theorem Stage.answer (h : Inv server s) (hi : s.tasks i = some t) (hact : t.physical = .active)
    (hstg : Stage server key handle s.history t) {op : Statement W}
    (hbody : t.body = .statement op next) {answer : Answer} {locks : List Row}
    (hlocks : s.answer server i op answer = some locks) :
    Stage server key handle s.history (t.exec (.answer answer)) := by
  rw [exec_answer hact hbody]
  cases hstg with
  | claimed hkey =>
    exact .claimed (mem_filterMap.2 (by
      obtain ⟨event, hmem, hev⟩ := mem_filterMap.1 hkey
      exact ⟨event, mem_cons_of_mem _ hmem, hev⟩))
  | decided _ _ hdone => rw [hdone] at hbody; cases hbody
  | begun hframes next' hclaim hprocess hlog hresult =>
    cases hbody.symm.trans hclaim
    rcases process_cases key handle with ⟨error, heq⟩ | ⟨next', heq, hdupl, hfail⟩
    · cases heq.symm.trans hprocess
    cases heq.symm.trans hprocess
    cases answer with
    | claimed processedAt => exact .claimed (by simp [claims])
    | done => cases hlocks
    | failed => exact .decided hframes _ hfail nofun (by simp [hresult])
    | duplicate =>
      refine .decided hframes _ hdupl (fun v hv => ⟨?_, ?_⟩) (by simp [hresult])
      · cases hv
        rfl
      have hmine : s.locks.filter (·.task = i) = [] := by
        have hown := h.owned i
        rw [hi, openClaims, if_pos hact, hlog] at hown
        exact map_eq_nil_iff.1 hown
      have hrow : s.rows.any (·.weight server = key.collate server) := by
        by_contra hnot
        rw [Bool.not_eq_true] at hnot
        simp only [Inbox.answer, hnot, Bool.false_or, Option.ite_none_right_eq_some] at hlocks
        obtain ⟨row, hmem, hrow⟩ := any_eq_true.1 hlocks.1
        rw [Bool.and_eq_true] at hrow
        have hin : row ∈ s.locks.filter (·.task = i) := mem_filter.2 ⟨hmem, hrow.1⟩
        rw [hmine] at hin
        cases hin
      obtain ⟨row, hmem, hkey⟩ := any_eq_true.1 hrow
      exact ⟨row.key, of_decide_eq_true hkey, h.marked row hmem⟩

/-- A task of `process` at one of its stages. -/
def Owner (server : Server) (key : Key) (handle : InboxBody W T) (i : ℕ) (s : Inbox W T) : Prop :=
  ∃ t, s.tasks i = some t ∧ Stage server key handle s.history t

theorem Owner.exec (h : Inv server s) (hown : Owner server key handle i s) (call : Call W T) :
    Owner server key handle i (s.exec server call) := by
  obtain ⟨t, hi, hstg⟩ := hown
  rcases exec_cases server s call with heq | ⟨j, datasource, body, -, hj, heq⟩ |
    ⟨j, t', op, next, answer, locks, hj, hact, hbody, hlocks, heq⟩ |
    ⟨j, t', input, hj, hact, hno, heq⟩ | ⟨consumerName, cutoff, batchLimit, heq⟩ <;> rw [heq]
  · exact ⟨t, hi, hstg⟩
  · have hne : i ≠ j := by
      rintro rfl
      rw [hi] at hj
      cases hj
    exact ⟨t, (s.put_of_ne _ hne).trans hi, hstg⟩
  · by_cases hij : i = j
    · subst hij
      cases hi.symm.trans hj
      exact ⟨_, s.put_self i _, hstg.answer h hi hact hbody hlocks⟩
    · exact ⟨t, (s.put_of_ne _ hij).trans hi, hstg⟩
  · obtain ⟨hgrows, htasks⟩ : (∀ change ∈ s.history, change ∈ (s.settle j (t'.exec input)).history) ∧
        (s.settle j (t'.exec input)).tasks = (s.put j (t'.exec input)).tasks := by
      unfold settle finish
      split_ifs
      · exact ⟨fun _ => id, rfl⟩
      · exact ⟨fun _ => mem_cons_of_mem _, rfl⟩
      · exact ⟨fun _ => id, rfl⟩
    rw [Owner, htasks]
    by_cases hij : i = j
    · subst hij
      cases hi.symm.trans hj
      exact ⟨_, s.put_self i _, (hstg.moveOn hno).mono hgrows⟩
    · exact ⟨t, (s.put_of_ne _ hij).trans hi, hstg.mono hgrows⟩
  · exact ⟨t, hi, hstg.mono fun _ => mem_append_right _⟩

/-- **Processing.** -/
theorem inbox_processing (server : Server) (calls : List (Call W T)) :
    (∀ key : Key, live server (key.collate server) (run server calls).history ≤ 1 ∧
      (live server (key.collate server) (run server calls).history = 1 →
        (run server calls).rows.any (·.weight server = key.collate server))) ∧
    ∀ (i : ℕ) (datasource : String) (key : Key) (handle : InboxBody W T) (more : List (Call W T)),
      (run server calls).tasks i = none →
      let s := run server (calls ++ .begin i datasource (process key handle) :: more)
      ∀ t v, s.tasks i = some t → returned t = some (.ok v) →
        t.physical = .committed ∧ .committed i t.log ∈ s.history ∧
        ((∀ other, Marked other s.history → other.collate server = key.collate server →
          other = key) → key ∈ claims t.log ∨ v = .duplicate ∧ Marked key s.history) := by
  refine ⟨fun key => ?_, ?_⟩
  · have hinv : Inv server (run server calls) := inv_run calls
    have hlive := hinv.live (key.collate server)
    split_ifs at hlive with hmem
    · obtain ⟨row, hrow, hkey⟩ := mem_map.1 hmem
      exact ⟨hlive, fun _ => any_eq_true.2 ⟨row, hrow, decide_eq_true hkey⟩⟩
    · exact ⟨by omega, fun hone => by omega⟩
  · intro i datasource key handle more hfresh s t v ht hv
    obtain ⟨result, hv, hok⟩ := Option.map_eq_some_iff.1 hv
    rcases result with error | value <;> cases hok
    have hinv : Inv server s := inv_run _
    have hown : Owner server key handle i s := by
      have hstart : Owner server key handle i
          ((run server calls).exec server (.begin i datasource (process key handle))) := by
        refine ⟨.start datasource (process key handle), by simp only [exec, hfresh, put_self], ?_⟩
        rcases process_cases key handle with ⟨error, hprocess⟩ | ⟨next, hprocess, -⟩
        · exact .decided rfl (.rollback error) hprocess nofun nofun
        · exact .begun rfl next hprocess hprocess rfl rfl
      have hboth := inv_runFrom_all (I := fun s => Inv server s ∧ Owner server key handle i s)
        (fun _ call h => ⟨h.1.exec call, h.2.exec h.1 call⟩)
        ⟨(inv_run calls).exec (.begin i datasource (process key handle)), hstart⟩ more
      simp only [s, run, runFrom_append]
      exact hboth.2
    obtain ⟨t', ht', hstg⟩ := hown
    cases ht'.symm.trans ht
    have hcomm := (hinv.nesting i t ht).confirmed v hv
    refine ⟨hcomm, hinv.recorded i t ht (by rw [hcomm]; rfl), fun hapart => ?_⟩
    cases hstg with
    | begun _ _ _ _ _ hresult => rw [hresult] at hv; cases hv
    | claimed hkey => exact .inl hkey
    | decided _ decision _ hmarked hresult =>
      obtain ⟨hdupl, other, hsame, hmark⟩ := hmarked v (hresult v hv)
      exact .inr ⟨hdupl, hapart other hmark hsame ▸ hmark⟩

/-! ## Runs -/

def orderKey : Key := ⟨"billing", "order-7"⟩

/-- A handler with one write. -/
def charge : InboxBody String String :=
  .statement (.write "charge") fun _ => .done (.commit (.value "charged"))

/-- The message is processed by a task that owns the transaction. -/
def delivered : List (Call String String) :=
  [.begin 0 "default" (process orderKey charge), .move 0 (.answer (.claimed 5)),
    .move 0 (.answer .done), .move 0 (.finish false .ok true true)]

theorem inbox_processing_delivered :
    ∃ t v, (run lowerCase delivered).tasks 0 = some t ∧ returned t = some (.ok v) ∧
      .committed 0 t.log ∈ (run lowerCase delivered).history := by
  have hresult : (((run lowerCase delivered).tasks 0).bind returned).any
      (·.toOption = some (.applied (.value "charged"))) := by decide +kernel
  obtain ⟨result, hbind, hresult⟩ := (Option.any_eq_true ..).1 hresult
  obtain ⟨t, ht, hv⟩ := Option.bind_eq_some_iff.1 hbind
  cases result with
  | error error => cases hresult
  | ok v =>
    refine ⟨t, v, ht, hv, ?_⟩
    exact ((inbox_processing lowerCase []).2 0 "default" orderKey charge delivered.tail rfl t v ht hv).2.1

/-- A caller that has the message processed inside its own transaction, notes that it was applied,
and rolls back. -/
def joined : List (Call String String) :=
  [.begin 0 "default" (.call "default" (fun _ => "nested explicit rollback")
      (process orderKey charge) fun
        | some (.ok (.applied _)) => .statement (.write "acknowledge") fun _ =>
          .done (.rollback (.business "changed its mind"))
        | _ => .done (.rollback (.business "not applied"))),
    .move 0 .poll, .move 0 (.answer (.claimed 5)), .move 0 (.answer .done), .move 0 .poll,
    .move 0 (.answer .done), .move 0 (.finish false .ok true true)]

/-- `process` returned `Applied`, so the caller acknowledged the message; at that time nothing was
committed, and in the end the marker and the effects are gone. -/
theorem joined_process_uncommitted :
    ((run lowerCase (joined.take 6)).tasks 0).any (fun t => decide (t.physical = .active) &&
        decide (.executed (.write "acknowledge") .done ∈ t.log)) ∧
      (run lowerCase joined).rows = [] ∧ (run lowerCase joined).locks = [] ∧ (run lowerCase joined).history.length = 0 := by
  decide +kernel

end Inbox

end NasaRuntime.Nainbox
