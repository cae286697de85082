import Mathlib.Tactic.Common

/-!
# Transactions over a store

A transaction reads and writes a store and may fail. It is a state monad over `Except`, and
`Tx.commit` is what the database does with one: it keeps the writes of a transaction that
succeeds and rolls back all the writes of one that fails.

`Tx.Ends m s a s'` says that `m`, started in `s`, succeeds with answer `a` and leaves `s'`. The
`ends_*` lemmas peel a transaction apart into the transactions it is made of; they are the only
way proofs look inside one.

`Tx.Keeps I m` says that `m` keeps a property of the store. It is a class, so that the frame of a
long transaction (what it never touches) is found from the frames of the statements it is made of.
-/

namespace NasaRuntime

variable {σ ε : Type} {α β : Type}

/-- A transaction over a store `σ` with errors `ε`. -/
abbrev Tx (σ ε : Type) (α : Type) : Type := StateT σ (Except ε) α

namespace Tx

/-- `m` succeeds from `s` with answer `a` and leaves `s'`. -/
def Ends (m : Tx σ ε α) (s : σ) (a : α) (s' : σ) : Prop := m.run s = .ok (a, s')

/-- `m` fails from `s`. -/
def Fails (m : Tx σ ε α) (s : σ) : Prop := ∃ e, m.run s = .error e

/-- Run `m` on the store: keep its writes if it succeeds, roll them back if it fails. -/
def commit (m : Tx σ ε α) (s : σ) : σ :=
  match m.run s with
  | .ok (_, s') => s'
  | .error _ => s

/-- The answer of `m` from `s`, if it succeeds. -/
def answer (m : Tx σ ε α) (s : σ) : Option α :=
  match m.run s with
  | .ok (a, _) => some a
  | .error _ => none

/-- Go on if the condition holds, fail with `e` otherwise. -/
def require (c : Prop) [Decidable c] (e : ε) : Tx σ ε Unit := if c then pure () else throw e

/-- Run `m` only if the condition holds. -/
def when (c : Prop) [Decidable c] (m : Tx σ ε Unit) : Tx σ ε Unit := if c then m else pure ()

/-- The value of an option, or the error `e`. -/
def orThrow (o : Option α) (e : ε) : Tx σ ε α :=
  match o with
  | some a => pure a
  | none => throw e

/-- The value of a pure computation that may fail. -/
def ofExcept (r : Except ε α) : Tx σ ε α :=
  match r with
  | .ok a => pure a
  | .error e => throw e

/-- The same transaction with another error. -/
def mapErr (f : ε → ε) (m : Tx σ ε α) : Tx σ ε α := fun s => (m.run s).mapError f

/-! ## Peeling transactions apart -/

variable {m : Tx σ ε α} {f : α → Tx σ ε β}

theorem ends_bind {s s'' : σ} {b : β} :
    (m >>= f).Ends s b s'' ↔ ∃ a s', m.Ends s a s' ∧ (f a).Ends s' b s'' := by
  unfold Ends
  rw [StateT.run_bind]
  cases h : m.run s with
  | error e => simp [Bind.bind, Except.bind]
  | ok p =>
    obtain ⟨a, s'⟩ := p
    constructor
    · intro h'
      exact ⟨a, s', rfl, h'⟩
    · rintro ⟨a', s1, he, h'⟩
      cases he
      exact h'

variable {a : α}

theorem answer_eq_some {s : σ} : m.answer s = some a ↔ ∃ s', m.Ends s a s' := by
  unfold answer Ends
  cases m.run s with
  | error e => simp
  | ok p =>
    obtain ⟨b, s'⟩ := p
    simp

variable {s s' : σ}

theorem ends_pure {a b : α} : (pure a : Tx σ ε α).Ends s b s' ↔ a = b ∧ s = s' := by
  constructor
  · intro h
    cases h
    exact ⟨rfl, rfl⟩
  · rintro ⟨rfl, rfl⟩
    rfl

variable {e : ε} {c : Prop}

theorem ends_throw : ¬ (throw e : Tx σ ε α).Ends s a s' := by
  nofun

theorem ends_get {s s' t : σ} : (get : Tx σ ε σ).Ends s t s' ↔ s = t ∧ s = s' := by
  simp only [Ends, StateT.run_get, pure, Except.pure, Except.ok.injEq, Prod.mk.injEq]

theorem ends_modify {f : σ → σ} {u : PUnit} : (modify f : Tx σ ε PUnit).Ends s u s' ↔ f s = s' := by
  simp only [Ends, StateT.run_modify, pure, Except.pure, Except.ok.injEq, Prod.mk.injEq, true_and]

theorem ends_ite [Decidable c] {n : Tx σ ε α} :
    (if c then m else n).Ends s a s' ↔ (c ∧ m.Ends s a s') ∨ (¬ c ∧ n.Ends s a s') := by
  by_cases h : c <;> simp [h]

theorem ends_require [Decidable c] {u : Unit} :
    (require c e : Tx σ ε Unit).Ends s u s' ↔ c ∧ s = s' := by
  unfold require
  rw [ends_ite]
  simp [ends_pure, ends_throw]

theorem ends_when [Decidable c] {m : Tx σ ε Unit} {u : Unit} :
    (when c m).Ends s u s' ↔ (c ∧ m.Ends s u s') ∨ (¬ c ∧ s = s') := by
  unfold when
  rw [ends_ite]
  simp [ends_pure]

theorem ends_orThrow {o : Option α} :
    (orThrow o e : Tx σ ε α).Ends s a s' ↔ o = some a ∧ s = s' := by
  cases o with
  | none => simp [orThrow, ends_throw]
  | some b => simp [orThrow, ends_pure]

theorem ends_ofExcept {r : Except ε α} :
    (ofExcept r : Tx σ ε α).Ends s a s' ↔ r = .ok a ∧ s = s' := by
  cases r with
  | error e => simp [ofExcept, ends_throw]
  | ok b => simp [ofExcept, ends_pure]

theorem ends_mapErr {f : ε → ε} : (mapErr f m).Ends s a s' ↔ m.Ends s a s' := by
  change (m.run s).mapError f = .ok (a, s') ↔ m.run s = .ok (a, s')
  cases m.run s <;> simp [Except.mapError]

/-! ## Committing -/

/-- A committed transaction either ended and its final store is kept, or changed nothing. -/
theorem commit_cases (m : Tx σ ε α) (s : σ) :
    (∃ a s', m.Ends s a s' ∧ m.commit s = s') ∨ m.commit s = s := by
  unfold commit Ends
  cases h : m.run s with
  | error e => exact .inr rfl
  | ok p => exact .inl ⟨p.1, p.2, rfl, rfl⟩

theorem fails_of_not_ends {s : σ} (h : ∀ a s', ¬ m.Ends s a s') : m.Fails s := by
  unfold Fails
  cases hr : m.run s with
  | error e => exact ⟨e, rfl⟩
  | ok p => exact absurd hr (h p.1 p.2)

theorem commit_of_ends (h : m.Ends s a s') : m.commit s = s' := by
  unfold commit
  rw [show m.run s = .ok (a, s') from h]

/-- **Roll-back.** If `m` ends in `s'` and what follows fails there, the store stays as it was. -/
theorem commit_of_fails (hm : m.Ends s a s') (hf : (f a).Fails s') : (m >>= f).commit s = s := by
  obtain ⟨e, he⟩ := hf
  unfold commit
  rw [StateT.run_bind, show m.run s = .ok (a, s') from hm]
  simp only [Bind.bind, Except.bind, he]

theorem commit_require [Decidable c] {m : Unit → Tx σ ε α} {s : σ} :
    (require c e >>= m).commit s = if c then (m ()).commit s else s := by
  by_cases h : c
  · rw [if_pos h, require, if_pos h]
    rfl
  · rw [if_neg h, require, if_neg h]
    rfl

theorem fails_bind {s : σ} (h : m.Fails s) : (m >>= f).Fails s := by
  obtain ⟨e, he⟩ := h
  exact ⟨e, by rw [StateT.run_bind, he]; rfl⟩

/-! ## Frames -/

/-- `m` keeps the property `I` of the store. -/
class Keeps (I : σ → Prop) (m : Tx σ ε α) : Prop where
  ends : ∀ {s a s'}, I s → m.Ends s a s' → I s'

namespace Keeps

variable {I : σ → Prop}

theorem bind [hm : Keeps I m] (hf : ∀ a, Keeps I (f a)) : Keeps I (m >>= f) := by
  refine ⟨fun {s b s''} hs h => ?_⟩
  obtain ⟨a, s', hfirst, hrest⟩ := ends_bind.1 h
  exact (hf a).ends (hm.ends hs hfirst) hrest

theorem of_modify {f : σ → σ} (hf : ∀ s, I s → I (f s)) :
    Keeps I (modify f : Tx σ ε PUnit) := by
  refine ⟨fun {s a s'} hs h => ?_⟩
  rw [← ends_modify.1 h]
  exact hf s hs

instance {m : Tx σ ε α} {f : α → Tx σ ε β} [Keeps I m] [∀ a, Keeps I (f a)] :
    Keeps I (m >>= f) := bind inferInstance

instance (a : α) : Keeps I (pure a : Tx σ ε α) := by
  refine ⟨fun hs h => ?_⟩
  rwa [← (ends_pure.1 h).2]

instance (e : ε) : Keeps I (throw e : Tx σ ε α) := ⟨fun _ h => absurd h ends_throw⟩

instance : Keeps I (get : Tx σ ε σ) := by
  refine ⟨fun hs h => ?_⟩
  rwa [← (ends_get.1 h).2]

instance {c : Prop} [Decidable c] {m n : Tx σ ε α} [Keeps I m] [Keeps I n] :
    Keeps I (if c then m else n) := by
  by_cases h : c
  · rwa [if_pos h]
  · rwa [if_neg h]

instance {c : Prop} [Decidable c] {e : ε} : Keeps I (require c e : Tx σ ε Unit) :=
  inferInstanceAs (Keeps I (if c then pure () else throw e))

instance {c : Prop} [Decidable c] {m : Tx σ ε Unit} [Keeps I m] : Keeps I (when c m) :=
  inferInstanceAs (Keeps I (if c then m else pure ()))

instance (x : Option α) (e : ε) : Keeps I (orThrow x e : Tx σ ε α) := by
  cases x with
  | none => exact inferInstanceAs (Keeps I (throw e : Tx σ ε α))
  | some a => exact inferInstanceAs (Keeps I (pure a : Tx σ ε α))

instance (x : Except ε α) : Keeps I (ofExcept x : Tx σ ε α) := by
  cases x with
  | error e => exact inferInstanceAs (Keeps I (throw e : Tx σ ε α))
  | ok a => exact inferInstanceAs (Keeps I (pure a : Tx σ ε α))

instance {f : ε → ε} {m : Tx σ ε α} [hm : Keeps I m] : Keeps I (mapErr f m) :=
  ⟨fun hs h => hm.ends hs (ends_mapErr.1 h)⟩

theorem commit [hm : Keeps I m] {s : σ} (hs : I s) : I (m.commit s) := by
  rcases commit_cases m s with ⟨a, s', h, hc⟩ | hc
  · rw [hc]
    exact hm.ends hs h
  · rwa [hc]

end Keeps

end Tx

end NasaRuntime
