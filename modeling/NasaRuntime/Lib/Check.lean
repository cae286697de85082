import Mathlib.Tactic.Common

/-!
# Validation

A validation is a computation that can fail and has no result: checks in order, the first that fails
gives the error. It succeeds exactly if all of them do. The lemmas are a simp set that turns
`validate x = .ok ()` into what was checked.
-/

namespace NasaRuntime

variable {ε α β : Type} {e : ε} {a : α} {b : β}
variable {x : Except ε α}

@[simp] theorem throw_eq_ok : (throw e : Except ε α) = .ok a ↔ False := by
  constructor
  · nofun
  · exact False.elim

@[simp] theorem pure_eq_ok {x : α} : (pure x : Except ε α) = .ok a ↔ x = a := by
  constructor
  · intro h
    cases h
    rfl
  · intro h
    rw [h]
    rfl

variable {f : α → Except ε β} {l : List α}

theorem bind_eq_ok : (x >>= f) = .ok b ↔ ∃ a, x = .ok a ∧ f a = .ok b := by
  cases x with
  | error e =>
    constructor
    · nofun
    · rintro ⟨a, h, -⟩
      cases h
  | ok a =>
    constructor
    · intro h
      exact ⟨a, rfl, h⟩
    · rintro ⟨a', h, hf⟩
      cases h
      exact hf

/-- A check before the rest. -/
@[simp] theorem check_eq_ok {c : Prop} [Decidable c] :
    (if c then throw e else x) = .ok a ↔ ¬ c ∧ x = .ok a := by
  by_cases h : c
  · simp [h]
  · simp [h]

@[simp] theorem then_eq_ok {x : Except ε Unit} {f : Unit → Except ε β} :
    (x >>= f) = .ok b ↔ x = .ok () ∧ f () = .ok b := by
  rw [bind_eq_ok]
  constructor
  · rintro ⟨⟨⟩, h⟩
    exact h
  · intro h
    exact ⟨(), h⟩

@[simp] theorem forM_eq_ok {f : α → Except ε Unit} : forM l f = .ok () ↔ ∀ a ∈ l, f a = .ok () := by
  induction l with
  | nil => simp
  | cons a l ih => simp [ih]

@[simp] theorem mapError_eq_ok {ε' : Type} {f : ε → ε'} : x.mapError f = .ok a ↔ x = .ok a := by
  cases x with
  | error e | ok a => simp [Except.mapError]

/-- A list is mapped if each of its elements is. -/
theorem mapM_eq_ok_of {g : α → β} (h : ∀ a ∈ l, f a = .ok (g a)) : l.mapM f = .ok (l.map g) := by
  induction l with
  | nil => rfl
  | cons a l ih =>
    have ha := h a List.mem_cons_self
    have hl := ih fun x hx => h x (List.mem_cons_of_mem a hx)
    rw [List.mapM_cons, ha, hl]
    rfl

theorem exists_ok_of_isOk (h : x.isOk = true) : ∃ a, x = .ok a := by
  cases x with
  | error e => cases h
  | ok a => exact ⟨a, rfl⟩

end NasaRuntime
