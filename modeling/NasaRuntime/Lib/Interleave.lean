import NasaRuntime.Lib.Run

/-!
# Interleaved programs

A program works on a shared store by atomic steps and can be paused between any two of them. `Prog σ ε
α` is such a program with results in `α` and errors in `ε`: a step changes the store, and what comes
next depends on the store that the step has seen. In a system (`Sys`) any number of programs run, in
any order; a program that crashed is one that takes no step any more, or one that is stopped.

The programs are verified one at a time, by what each relies on and what it guarantees.
`Safe R G I A Q E p s` says that the program `p`, resumed at the store `s`, takes only steps in `G` as
long as the others move the store within `R` and keep `I`. `A` restricts the steps of the program
itself, for statements about those runs alone in which its steps meet a condition.

**Theorem (`Sys.sound`).** If every program is safe, and what one of them guarantees is what the
others rely on, then the invariant holds after every run, every program is safe where it is, and the
result of a program that ended is as it promised.

Between two steps of a program the others move the store, so what the program knows is what they
cannot destroy (`Stable`). `Meets R I i P p Q E` says that the program `p` of thread `i`, resumed
where `P` holds, takes only steps that the others can rely on and that keep the invariant, and ends in
`Q` or with an error in `E`.
-/

namespace NasaRuntime

/-- A program on a store `σ`, with errors in `ε`. -/
inductive Prog (σ ε α : Type) : Type
  | done (a : α)
  | fail (e : ε)
  | step (f : σ → σ) (k : σ → Prog σ ε α)

namespace Prog

variable {σ ε ε' α β : Type}

def bind : Prog σ ε α → (α → Prog σ ε β) → Prog σ ε β
  | done a, q => q a
  | fail e, _ => fail e
  | step f k, q => step f fun s => (k s).bind q

instance : Monad (Prog σ ε) where
  pure := done
  bind := bind

/-- The outcome of a program, as a value. -/
def attempt : Prog σ ε α → Prog σ ε' (Except ε α)
  | done a => done (.ok a)
  | fail e => done (.error e)
  | step f k => step f fun s => (k s).attempt

instance : MonadExceptOf ε (Prog σ ε) where
  throw := fail
  tryCatch p h := p.attempt.bind fun
    | .ok a => done a
    | .error e => h e

/-- One atomic step. -/
def atomic (f : σ → α × σ) : Prog σ ε α := step (fun s => (f s).2) fun s => done (f s).1

/-- A step that only reads. -/
def read (f : σ → α) : Prog σ ε α := step id fun s => done (f s)

/-- A step that only writes. -/
def modify (f : σ → σ) : Prog σ ε Unit := step f fun _ => done ()

/-- How the program ended. -/
def result : Prog σ ε α → Option (Except ε α)
  | done a => some (.ok a)
  | fail e => some (.error e)
  | step _ _ => none

/-- The store at the end of a program that is not interrupted, and its outcome. -/
def solo : Prog σ ε α → σ → σ × Except ε α
  | done a, s => (s, .ok a)
  | fail e, s => (s, .error e)
  | step f k, s => (k s).solo (f s)

/-- A program that has ended. -/
def ended : Except ε α → Prog σ ε α
  | .ok a => done a
  | .error e => fail e

theorem eq_done_of_result {p : Prog σ ε α} {a : α} (h : p.result = some (.ok a)) : p = done a := by
  cases p with
  | done b =>
    cases h
    rfl
  | fail e | step f k => cases h

/-- The result of a program that ended without an error. -/
def answer (p : Prog σ ε α) : Option α := p.result.bind Except.toOption

theorem eq_done_of_answer {p : Prog σ ε α} {a : α} (h : p.answer = some a) : p = done a := by
  cases p with
  | done b =>
    cases h
    rfl
  | fail e | step f k => cases h

/-! ## Safety of one program -/

section Safe

variable (R G : σ → σ → Prop) (I : σ → Prop) (A : σ → σ → Prop)

/-- The program takes only steps in `G` if the others keep to `R` and `I` and its own steps meet `A`.
It ends in `Q`, or with an error in `E`. -/
def Safe (Q : α → σ → Prop) (E : ε → σ → Prop) : Prog σ ε α → σ → Prop
  | done a, s => Q a s
  | fail e, s => E e s
  | step f k, s => ∀ s', R s s' → I s' → A s' (f s') → G s' (f s') ∧ Safe Q E (k s') (f s')

variable {R G I A} {Q Q' : α → σ → Prop} {E E' : ε → σ → Prop} {p : Prog σ ε α} {s s' : σ}
variable {q : α → Prog σ ε β}

/-- **Sequence.** -/
theorem safe_bind {Q : β → σ → Prop} (h : Safe R G I A (fun a => Safe R G I A Q E (q a)) E p s) :
    Safe R G I A Q E (p >>= q) s := by
  induction p generalizing s with
  | done a | fail e => exact h
  | step f k ih =>
    intro s' hR hI hA
    obtain ⟨hG, hk⟩ := h s' hR hI hA
    exact ⟨hG, ih s' hk⟩

variable {f : σ → α × σ} {M : α → σ → Prop}

theorem safe_atomic
    (h : ∀ s', R s s' → I s' → A s' (f s').2 → G s' (f s').2 ∧ Q (f s').1 (f s').2) :
    Safe R G I A Q E (atomic f) s := h

theorem safe_modify {Q : Unit → σ → Prop} {f : σ → σ}
    (h : ∀ s', R s s' → I s' → A s' (f s') → G s' (f s') ∧ Q () (f s')) :
    Safe R G I A Q E (modify f) s := h

theorem safe_read {f : σ → α} (hG : ∀ s, I s → G s s)
    (h : ∀ s', R s s' → I s' → Q (f s') s') : Safe R G I A Q E (read f) s :=
  fun s' hR hI _ => ⟨hG s' hI, h s' hR hI⟩

theorem safe_atomic_bind {Q : β → σ → Prop}
    (h : ∀ s', R s s' → I s' → A s' (f s').2 →
      G s' (f s').2 ∧ Safe R G I A Q E (q (f s').1) (f s').2) :
    Safe R G I A Q E (atomic f >>= q) s := h

theorem safe_modify_bind {Q : β → σ → Prop} {f : σ → σ} {q : Unit → Prog σ ε β}
    (h : ∀ s', R s s' → I s' → A s' (f s') → G s' (f s') ∧ Safe R G I A Q E (q ()) (f s')) :
    Safe R G I A Q E (modify f >>= q) s := h

theorem safe_read_bind {Q : β → σ → Prop} {f : σ → α}
    (hG : ∀ s, I s → G s s) (h : ∀ s', R s s' → I s' → Safe R G I A Q E (q (f s')) s') :
    Safe R G I A Q E (read f >>= q) s := fun s' hR hI _ => ⟨hG s' hI, h s' hR hI⟩

theorem safe_mono (h : Safe R G I A Q E p s) (hQ : ∀ a s, Q a s → Q' a s)
    (hE : ∀ e s, E e s → E' e s) : Safe R G I A Q' E' p s := by
  induction p generalizing s with
  | done a => exact hQ a s h
  | fail e => exact hE e s h
  | step f k ih =>
    intro s' hR hI hA
    obtain ⟨hG, hk⟩ := h s' hR hI hA
    exact ⟨hG, ih s' hk⟩

theorem safe_seq {Q : β → σ → Prop} (h : Safe R G I A M E p s)
    (hq : ∀ a s, M a s → Safe R G I A Q E (q a) s) : Safe R G I A Q E (p >>= q) s :=
  safe_bind (safe_mono h hq fun _ _ h => h)

/-- **Sequence**, where an error promises nothing. -/
theorem safe_then {Q : β → σ → Prop} (h : Safe R G I A M E p s)
    (hq : ∀ a s, M a s → Safe R G I A Q (fun _ _ => True) (q a) s) :
    Safe R G I A Q (fun _ _ => True) (p >>= q) s :=
  safe_bind (safe_mono h hq fun _ _ _ => trivial)

/-- **Frame.** What nobody can destroy, neither the others nor the program itself, stays known. -/
theorem safe_frame {F : σ → Prop} (hF : ∀ s s', R s s' → F s → F s')
    (hown : ∀ s s', G s s' → R s s') (h : Safe R G I A Q E p s) (hs : F s) :
    Safe R G I A (fun a s => Q a s ∧ F s) (fun e s => E e s ∧ F s) p s := by
  induction p generalizing s with
  | done a | fail e => exact ⟨h, hs⟩
  | step f k ih =>
    intro s' hR hI hA
    obtain ⟨hG, hk⟩ := h s' hR hI hA
    exact ⟨hG, ih s' hk (hF _ _ (hown _ _ hG) (hF _ _ hR hs))⟩

theorem safe_attempt {Q : Except ε α → σ → Prop} {E : ε' → σ → Prop}
    (h : Safe R G I A (fun a => Q (.ok a)) (fun e => Q (.error e)) p s) :
    Safe R G I A Q E p.attempt s := by
  induction p generalizing s with
  | done a | fail e => exact h
  | step f k ih =>
    intro s' hR hI hA
    obtain ⟨hG, hk⟩ := h s' hR hI hA
    exact ⟨hG, ih s' hk⟩

/-- What a program relies on can happen before it goes on. -/
theorem safe_rely (htrans : ∀ a b c, R a b → R b c → R a c)
    (hQ : ∀ a s s', R s s' → Q a s → Q a s') (hE : ∀ e s s', R s s' → E e s → E e s')
    (h : Safe R G I A Q E p s) (hR : R s s') : Safe R G I A Q E p s' := by
  cases p with
  | done a => exact hQ a s s' hR h
  | fail e => exact hE e s s' hR h
  | step f k =>
    intro s'' hR' hI hA
    exact h s'' (htrans s s' s'' hR hR') hI hA

/-- What holds at the end of a program that is not interrupted. It fails never. -/
theorem solo_of_safe (h : Safe (· = ·) (fun _ _ => True) (fun _ => True) (fun _ _ => True) Q
    (fun _ _ => False) p s) : ∃ a, (p.solo s).2 = .ok a ∧ Q a (p.solo s).1 := by
  induction p generalizing s with
  | done a => exact ⟨a, rfl, h⟩
  | fail e => exact h.elim
  | step f k ih => exact ih s (h s rfl trivial trivial).2

end Safe

end Prog

/-! ## Systems -/

/-- The store, the programs, and which of them have begun. -/
structure Sys (σ ε α : Type) where
  store : σ
  procs : ℕ → Prog σ ε α
  begun : ℕ → Bool

/-- One program takes its next step, or is stopped, or the world does something to the store. -/
inductive Input (η : Type)
  | run (i : ℕ)
  | stop (i : ℕ)
  | env (e : η)
deriving DecidableEq

namespace Sys

open Prog (Safe)

variable {σ ε α η : Type}

/-- The programs before any of them has begun. -/
def start (s : σ) (procs : ℕ → Prog σ ε α) : Sys σ ε α := ⟨s, procs, fun _ => false⟩

/-- The programs, all of them under way. -/
def launch (s : σ) (procs : ℕ → Prog σ ε α) : Sys σ ε α := ⟨s, procs, fun _ => true⟩

/-- The store after the next step of a program. -/
def next (sys : Sys σ ε α) (i : ℕ) : σ :=
  match sys.procs i with
  | .step f _ => f sys.store
  | _ => sys.store

/-- The program has begun and not ended. -/
def running (sys : Sys σ ε α) (i : ℕ) : Prop := sys.begun i = true ∧ (sys.procs i).result = none

def exec (world : σ → η → σ) (crashed : ε) (sys : Sys σ ε α) : Input η → Sys σ ε α
  | .run i =>
    match sys.procs i with
    | .step f k =>
      { store := f sys.store
        procs := Function.update sys.procs i (k sys.store)
        begun := Function.update sys.begun i true }
    | _ => sys
  | .stop i =>
    match sys.procs i with
    | .step _ _ => { sys with procs := Function.update sys.procs i (.fail crashed) }
    | _ => sys
  | .env e => { sys with store := world sys.store e }

/-- A program can run to its end while nobody else does anything. -/
theorem exists_solo (world : σ → η → σ) (crashed : ε) (sys : Sys σ ε α) (i : ℕ) :
    ∃ inputs, (runFrom (exec world crashed) sys inputs).store = ((sys.procs i).solo sys.store).1 ∧
      (runFrom (exec world crashed) sys inputs).procs =
        Function.update sys.procs i (.ended ((sys.procs i).solo sys.store).2) := by
  generalize hp : sys.procs i = p
  induction p generalizing sys with
  | done a | fail e => exact ⟨[], rfl, (Function.update_eq_self_iff.2 hp.symm).symm⟩
  | step f k ih =>
    have hexec : sys.exec world crashed (.run i) =
        ⟨f sys.store, Function.update sys.procs i (k sys.store), Function.update sys.begun i true⟩ := by
      simp only [exec, hp]
    obtain ⟨inputs, hstore, hprocs⟩ :=
      ih sys.store (sys.exec world crashed (.run i)) (by simp [hexec])
    refine ⟨.run i :: inputs, hstore.trans ?_, hprocs.trans ?_⟩
    · rw [hexec, Prog.solo]
    · rw [hexec, Function.update_idem, Prog.solo]

/-! ## Safety of a system -/

/-- What the programs owe each other: what one guarantees is what the others rely on, and it keeps
the invariant. -/
structure Compatible (R G : ℕ → σ → σ → Prop) (I : σ → Prop) (Q : ℕ → α → σ → Prop) : Prop where
  refl : ∀ i s, R i s s
  trans : ∀ i a b c, R i a b → R i b c → R i a c
  others : ∀ i j s s', i ≠ j → I s → G j s s' → R i s s'
  inv : ∀ i s s', I s → G i s s' → I s'
  result : ∀ i a s s', R i s s' → Q i a s → Q i a s'

variable {R G A : ℕ → σ → σ → Prop} {I : σ → Prop} {Q : ℕ → α → σ → Prop} {world : σ → η → σ}
  {crashed : ε}
variable {sys : Sys σ ε α}

/-- The weakest guarantee: the invariant is kept, and all others can rely on the step. -/
def Owes (R : ℕ → σ → σ → Prop) (I : σ → Prop) (i : ℕ) (s s' : σ) : Prop :=
  I s' ∧ ∀ j, j ≠ i → R j s s'

theorem compatible_owes (hrefl : ∀ i s, R i s s) (htrans : ∀ i a b c, R i a b → R i b c → R i a c)
    (hres : ∀ i a s s', R i s s' → Q i a s → Q i a s') : Compatible R (Owes R I) I Q :=
  ⟨hrefl, htrans, fun _ _ _ _ hij _ h => h.2 _ hij, fun _ _ _ _ h => h.1, hres⟩

/-- A step of the world that the programs that are running can rely on, and that changes no result. -/
def Harmless (R : ℕ → σ → σ → Prop) (I : σ → Prop) (Q : ℕ → α → σ → Prop) (world : σ → η → σ)
    (sys : Sys σ ε α) (e : η) : Prop :=
  I (world sys.store e) ∧ (∀ i, sys.running i → R i sys.store (world sys.store e)) ∧
    ∀ i a, Q i a sys.store → Q i a (world sys.store e)

/-- The inputs that the programs are verified for. -/
def Admissible (R A : ℕ → σ → σ → Prop) (I : σ → Prop) (Q : ℕ → α → σ → Prop) (world : σ → η → σ)
    (sys : Sys σ ε α) : Input η → Prop
  | .run i => A i sys.store (sys.next i)
  | .stop _ => True
  | .env e => I sys.store → Harmless R I Q world sys e

/-- Every program is safe where it is. One that has not begun makes no assumption on the store. -/
def Inv (R G A : ℕ → σ → σ → Prop) (I : σ → Prop) (Q : ℕ → α → σ → Prop) (sys : Sys σ ε α) : Prop :=
  I sys.store ∧ ∀ i,
    (sys.begun i = true → Safe (R i) (G i) I (A i) (Q i) (fun _ _ => True) (sys.procs i) sys.store) ∧
    (sys.begun i = false → ∀ s, I s →
      Safe (R i) (G i) I (A i) (Q i) (fun _ _ => True) (sys.procs i) s)

/-- **Step.** -/
theorem inv_exec (hcomp : Compatible R G I Q) {input : Input η}
    (h : sys.Inv R G A I Q) (hinp : sys.Admissible R A I Q world input) :
    (sys.exec world crashed input).Inv R G A I Q := by
  obtain ⟨hI, hsafe⟩ := h
  have hwhere : ∀ i, Safe (R i) (G i) I (A i) (Q i) (fun _ _ => True) (sys.procs i) sys.store := by
    intro i
    cases hbeg : sys.begun i with
    | true => exact (hsafe i).1 hbeg
    | false => exact (hsafe i).2 hbeg sys.store hI
  cases input with
  | run i =>
    have hi := hwhere i
    cases hproc : sys.procs i with
    | done a | fail e =>
      simp only [exec, hproc]
      exact ⟨hI, hsafe⟩
    | step f k =>
      rw [hproc] at hi
      simp only [Admissible, next, hproc] at hinp
      obtain ⟨hG, hk⟩ := hi sys.store (hcomp.refl i _) hI hinp
      simp only [exec, hproc]
      refine ⟨hcomp.inv i _ _ hI hG, fun j => ?_⟩
      by_cases hj : j = i
      · subst hj
        simp only [Function.update_self]
        exact ⟨fun _ => hk, fun h => by simp at h⟩
      · simp only [Function.update_of_ne hj]
        refine ⟨fun hbeg => ?_, (hsafe j).2⟩
        exact Prog.safe_rely (hcomp.trans j) (hcomp.result j) (fun _ _ _ _ _ => trivial)
          ((hsafe j).1 hbeg) (hcomp.others j i _ _ hj hI hG)
  | stop i =>
    cases hproc : sys.procs i with
    | done a | fail e =>
      simp only [exec, hproc]
      exact ⟨hI, hsafe⟩
    | step f k =>
      simp only [exec, hproc]
      refine ⟨hI, fun j => ?_⟩
      by_cases hj : j = i
      · subst hj
        simp only [Function.update_self]
        exact ⟨fun _ => trivial, fun _ _ _ => trivial⟩
      · simp only [Function.update_of_ne hj]
        exact hsafe j
  | env e =>
    obtain ⟨hworld, hrunn, hres⟩ := hinp hI
    refine ⟨hworld, fun j => ⟨fun hbeg => ?_, (hsafe j).2⟩⟩
    have hj := (hsafe j).1 hbeg
    cases hproc : sys.procs j with
    | done a =>
      rw [hproc] at hj
      simp only [exec, hproc]
      exact hres j a hj
    | fail e =>
      simp only [exec, hproc]
      trivial
    | step f k =>
      have hmov := Prog.safe_rely (hcomp.trans j) (hcomp.result j)
        (fun _ _ _ _ _ => trivial) hj (hrunn j ⟨hbeg, by rw [hproc]; rfl⟩)
      exact hmov

variable {inputs : List (Input η)} {procs : ℕ → Prog σ ε α}

/-- **Run.** -/
theorem sound (hcomp : Compatible R G I Q) (h : sys.Inv R G A I Q)
    (hinp : Along (exec world crashed) (Admissible R A I Q world) sys inputs) :
    (runFrom (exec world crashed) sys inputs).Inv R G A I Q :=
  inv_runFrom (fun _ _ hinv hinput => inv_exec hcomp hinv hinput) h hinp

theorem guarantee_next (hcomp : Compatible R G I Q) {i : ℕ}
    (h : sys.Inv R G A I Q) (hA : A i sys.store (sys.next i)) :
    sys.next i = sys.store ∨ G i sys.store (sys.next i) := by
  have hi := h.2 i
  cases hproc : sys.procs i with
  | done a | fail e => exact .inl (by simp only [next, hproc])
  | step f k =>
    right
    simp only [hproc, next] at hi hA ⊢
    cases hbeg : sys.begun i with
    | true => exact (hi.1 hbeg sys.store (hcomp.refl i _) h.1 hA).1
    | false => exact (hi.2 hbeg sys.store h.1 sys.store (hcomp.refl i _) h.1 hA).1

theorem store_exec_run (sys : Sys σ ε α) (i : ℕ) :
    (sys.exec world crashed (.run i)).store = sys.next i := by
  cases hproc : sys.procs i with
  | done a | fail e | step f k => simp only [exec, next, hproc]

theorem store_exec_stop (sys : Sys σ ε α) (i : ℕ) :
    (sys.exec world crashed (.stop i)).store = sys.store := by
  cases hproc : sys.procs i with
  | done a | fail e | step f k => simp only [exec, hproc]

/-- **Movement of the store.** If every step moves the store along a preorder, then so does every
run. -/
theorem moved (hcomp : Compatible R G I Q) {M : σ → σ → Prop} (hrefl : ∀ s, M s s)
    (htrans : ∀ a b c, M a b → M b c → M a c) (hG : ∀ i s s', I s → G i s s' → M s s')
    (h : sys.Inv R G A I Q)
    (hinpu : Along (exec world crashed) (fun sys input => Admissible R A I Q world sys input ∧
      ∀ e, input = .env e → I sys.store → M sys.store (world sys.store e)) sys inputs) :
    M sys.store (runFrom (exec world crashed) sys inputs).store := by
  induction inputs generalizing sys with
  | nil => exact hrefl _
  | cons input inputs ih =>
    obtain ⟨⟨hinp, henv⟩, hrest⟩ := hinpu
    refine htrans _ _ _ ?_ (ih (inv_exec hcomp h hinp) hrest)
    cases input with
    | run i =>
      rw [store_exec_run]
      rcases guarantee_next hcomp h hinp with hsame | hnext
      · rw [hsame]
        exact hrefl _
      · exact hG i _ _ h.1 hnext
    | stop i =>
      rw [store_exec_stop]
      exact hrefl _
    | env e => exact henv e rfl h.1

theorem procs_runs {j : ℕ} {is : List ℕ} (h : j ∉ is) :
    (runFrom (exec world crashed) sys (is.map .run)).procs j = sys.procs j := by
  induction is generalizing sys with
  | nil => rfl
  | cons i is ih =>
    have hne : j ≠ i := fun heq => h (heq ▸ List.mem_cons_self)
    refine (ih fun hmem => h (List.mem_cons_of_mem _ hmem)).trans ?_
    cases hproc : sys.procs i with
    | done a | fail e => simp only [exec, hproc]
    | step f k => simp only [exec, hproc, Function.update_of_ne hne]

theorem inv_start {s : σ} (hI : I s)
    (hsafe : ∀ i s, I s → Safe (R i) (G i) I (A i) (Q i) (fun _ _ => True) (procs i) s) :
    (start s procs).Inv R G A I Q := by
  refine ⟨hI, fun i => ⟨fun h => ?_, fun _ => hsafe i⟩⟩
  cases h

theorem inv_launch {s : σ} (hI : I s)
    (hsafe : ∀ i, Safe (R i) (G i) I (A i) (Q i) (fun _ _ => True) (procs i) s) :
    (launch s procs).Inv R G A I Q := by
  refine ⟨hI, fun i => ⟨fun _ => hsafe i, fun h => ?_⟩⟩
  cases h

theorem Inv.result (h : sys.Inv R G A I Q) {i : ℕ} {a : α}
    (hdone : sys.procs i = .done a) : Q i a sys.store := by
  have hi := h.2 i
  rw [hdone] at hi
  cases hbeg : sys.begun i with
  | true => exact hi.1 hbeg
  | false => exact hi.2 hbeg sys.store h.1

end Sys

open Sys (Owes)

namespace Prog

variable {σ ε ε' α β : Type} {R : ℕ → σ → σ → Prop} {I : σ → Prop} {i : ℕ}

/-- What the others cannot destroy. -/
def Stable (R : ℕ → σ → σ → Prop) (I : σ → Prop) (i : ℕ) (P : σ → Prop) : Prop :=
  ∀ s s', I s → I s' → R i s s' → P s → P s'

theorem Stable.and (h : Stable R I i P) (h' : Stable R I i P') : Stable R I i fun s => P s ∧ P' s :=
  fun s s' hI hI' hR hP => ⟨h s s' hI hI' hR hP.1, h' s s' hI hI' hR hP.2⟩

theorem Stable.imp {c : Prop} (h : Stable R I i P) : Stable R I i fun s => c → P s :=
  fun s s' hI hI' hR hP hc => h s s' hI hI' hR (hP hc)

/-- Where `P` holds, the program owes nothing to the others, and ends in `Q` or with an error in
`E`. -/
def Meets (R : ℕ → σ → σ → Prop) (I : σ → Prop) (i : ℕ) (P : σ → Prop) (p : Prog σ ε α)
    (Q : α → σ → Prop) (E : ε → σ → Prop) : Prop :=
  ∀ s, I s → P s → Safe (R i) (Owes R I i) I (fun _ _ => True) Q E p s

variable {P P' : σ → Prop} {p : Prog σ ε α} {Q Q' : α → σ → Prop} {E E' : ε → σ → Prop}

/-- The steps of the program keep the invariant. -/
theorem safe_inv {s : σ} (h : Safe (R i) (Owes R I i) I (fun _ _ => True) Q E p s) (hI : I s) :
    Safe (R i) (Owes R I i) I (fun _ _ => True) (fun a s => I s ∧ Q a s) (fun e s => I s ∧ E e s)
      p s := by
  induction p generalizing s with
  | done a | fail e => exact ⟨hI, h⟩
  | step f k ih =>
    intro s' hR hI' hA
    obtain ⟨hG, hk⟩ := h s' hR hI' hA
    exact ⟨hG, ih s' hk hG.1⟩

theorem meets_pure {a : α} (h : ∀ s, I s → P s → Q a s) :
    Meets R I i P (pure a : Prog σ ε α) Q E := h

theorem meets_fail {e : ε} (h : ∀ s, I s → P s → E e s) :
    Meets R I i P (.fail e : Prog σ ε α) Q E := h

variable {M : α → σ → Prop}

/-- **Sequence.** -/
theorem meets_bind {Q : β → σ → Prop} {q : α → Prog σ ε β}
    (hp : Meets R I i P p M E) (hq : ∀ a, Meets R I i (M a) (q a) Q E) :
    Meets R I i P (p >>= q) Q E := by
  intro s hI hP
  refine safe_bind (safe_mono (safe_inv (hp s hI hP) hI) ?_ fun e s hE => hE.2)
  intro a s hQ
  exact hq a s hQ.1 hQ.2

/-- What is known of an outcome. -/
abbrev Outcome (Q : α → σ → Prop) (E : ε → σ → Prop) : Except ε α → σ → Prop
  | .ok a => Q a
  | .error e => E e

theorem meets_attempt {Q : Except ε α → σ → Prop} {E : ε' → σ → Prop}
    (h : Meets R I i P p (fun a => Q (.ok a)) fun e => Q (.error e)) :
    Meets R I i P p.attempt Q E :=
  fun s hI hP => safe_attempt (h s hI hP)

theorem meets_outcome {E' : ε' → σ → Prop} (h : Meets R I i P p Q E) :
    Meets R I i P p.attempt (Outcome Q E) E' := meets_attempt h

/-- A program goes on after an answer and after an error. -/
theorem meets_try {N : ε → σ → Prop} {Q : β → σ → Prop} {E : ε' → σ → Prop}
    {q : Except ε α → Prog σ ε' β} (hp : Meets R I i P p M N)
    (hok : ∀ a, Meets R I i (M a) (q (.ok a)) Q E)
    (herr : ∀ e, Meets R I i (N e) (q (.error e)) Q E) : Meets R I i P (p.attempt >>= q) Q E := by
  refine meets_bind (meets_outcome hp) fun outcome => ?_
  cases outcome with
  | ok a => exact hok a
  | error e => exact herr e

theorem meets_atomic {f : σ → α × σ} (hP : Stable R I i P)
    (h : ∀ s, I s → P s → Owes R I i s (f s).2 ∧ Q (f s).1 (f s).2) :
    Meets R I i P (atomic f : Prog σ ε α) Q E := by
  intro s hI hs
  exact safe_atomic fun s' hR hI' _ => h s' hI' (hP s s' hI hI' hR hs)

theorem meets_modify {Q : Unit → σ → Prop} {f : σ → σ} (hP : Stable R I i P)
    (h : ∀ s, I s → P s → Owes R I i s (f s) ∧ Q () (f s)) :
    Meets R I i P (modify f : Prog σ ε Unit) Q E := by
  intro s hI hs
  exact safe_modify fun s' hR hI' _ => h s' hI' (hP s s' hI hI' hR hs)

theorem meets_read {f : σ → α} (hrefl : ∀ i s, R i s s) (hP : Stable R I i P)
    (h : ∀ s, I s → P s → Q (f s) s) : Meets R I i P (read f : Prog σ ε α) Q E := by
  intro s hI hs
  exact safe_read (fun s hI => ⟨hI, fun j _ => hrefl j s⟩) fun s' hR hI' =>
    h s' hI' (hP s s' hI hI' hR hs)

theorem meets_mono (h : Meets R I i P p Q E) (hP : ∀ s, I s → P' s → P s)
    (hQ : ∀ a s, I s → Q a s → Q' a s) (hE : ∀ e s, I s → E e s → E' e s) :
    Meets R I i P' p Q' E' := by
  intro s hI hs
  exact safe_mono (safe_inv (h s hI (hP s hI hs)) hI) (fun a s hs => hQ a s hs.1 hs.2)
    fun e s hs => hE e s hs.1 hs.2

theorem meets_pre (h : Meets R I i P p Q E) (hP : ∀ s, I s → P' s → P s) : Meets R I i P' p Q E :=
  meets_mono h hP (fun _ _ _ h => h) fun _ _ _ h => h

theorem meets_post (h : Meets R I i P p Q E) (hQ : ∀ a s, I s → Q a s → Q' a s)
    (hE : ∀ e s, I s → E e s → E' e s) : Meets R I i P p Q' E' :=
  meets_mono h (fun _ _ h => h) hQ hE

/-- **Frame.** -/
theorem meets_frame {F : σ → Prop} (h : Meets R I i P p Q E) (hF : Stable R I i F)
    (hown : ∀ s s', I s → Owes R I i s s' → F s → F s') :
    Meets R I i (fun s => P s ∧ F s) p (fun a s => Q a s ∧ F s) fun e s => E e s ∧ F s := by
  intro s hI hs
  have hsafe := h s hI hs.1
  have hFs := hs.2
  clear hs h
  induction p generalizing s with
  | done a | fail e => exact ⟨hsafe, hFs⟩
  | step f k ih =>
    intro s' hR hI' hA
    obtain ⟨hG, hk⟩ := hsafe s' hR hI' hA
    exact ⟨hG, ih s' _ hG.1 hk (hown _ _ hI' hG (hF _ _ hI hI' hR hFs))⟩

end Prog

end NasaRuntime
