import Mathlib.Data.List.DropRight

/-!
# Runs of a machine

A machine is a function from a state and an input to the next state; a run is a list of inputs.
Concurrent clients of a store whose steps are atomic are such a run: the list is the order in
which their steps took effect, and a theorem about every list is a theorem about every
interleaving.

`Along exec P s is` says that every step of the run meets `P`, a condition on the state before the
step and the input.

**Theorem (`inv_runFrom`).** An invariant kept by every step that meets `P` holds after every run
along `P`.

**Theorem (`runFrom_keyed`).** If no statement is on another key that is the same row, then the row
of a key is what the statements on that key alone have made of it.

A labelled transition relation `move t e t'` says which events a part of a system can go through.
`Path move t es t'` is a sequence of such moves and `history` the events that the steps of a machine
emit.

**Theorem (`path_history`).** If the events of every step of the machine are a path of the part that
`view` shows, then the history of every run is one: the machine refines the relation.
-/

namespace NasaRuntime

open List

variable {σ ι : Type}

/-- The state after the inputs. -/
def runFrom (exec : σ → ι → σ) (s : σ) (is : List ι) : σ := is.foldl exec s

/-- Every step of the run from `s` meets `P`. -/
def Along (exec : σ → ι → σ) (P : σ → ι → Prop) : σ → List ι → Prop
  | _, [] => True
  | s, i :: is => P s i ∧ Along exec P (exec s i) is

variable {exec : σ → ι → σ} {P Q : σ → ι → Prop} {I : σ → Prop}

instance decidableAlong [∀ s i, Decidable (P s i)] :
    ∀ (s : σ) (is : List ι), Decidable (Along exec P s is)
  | _, [] => instDecidableTrue
  | s, i :: is => @instDecidableAnd _ _ _ (decidableAlong (exec s i) is)

@[simp] theorem runFrom_nil (s : σ) : runFrom exec s [] = s := rfl

@[simp] theorem runFrom_cons (s : σ) (i : ι) (is : List ι) :
    runFrom exec s (i :: is) = runFrom exec (exec s i) is := rfl

theorem runFrom_append (s : σ) (is js : List ι) :
    runFrom exec s (is ++ js) = runFrom exec (runFrom exec s is) js := foldl_append

variable {is : List ι} {s : σ}

theorem along_append {js : List ι} :
    Along exec P s (is ++ js) ↔ Along exec P s is ∧ Along exec P (runFrom exec s is) js := by
  induction is generalizing s with
  | nil => simp [Along]
  | cons i is ih => simp [Along, ih, and_assoc]

theorem Along.mono (hPQ : ∀ s i, P s i → Q s i) (h : Along exec P s is) : Along exec Q s is := by
  induction is generalizing s with
  | nil => trivial
  | cons i is ih => exact ⟨hPQ s i h.1, ih h.2⟩

/-- **Invariants over runs.** -/
theorem inv_runFrom (hstep : ∀ s i, I s → P s i → I (exec s i))
    (hs : I s) (h : Along exec P s is) : I (runFrom exec s is) := by
  induction is generalizing s with
  | nil => exact hs
  | cons i is ih => exact ih (hstep s i hs h.1) h.2

theorem along_of_mem {P : ι → Prop} (s : σ) (h : ∀ i ∈ is, P i) : Along exec (fun _ => P) s is := by
  induction is generalizing s with
  | nil => trivial
  | cons i is ih => exact ⟨h i mem_cons_self, ih _ fun j hj => h j (mem_cons_of_mem i hj)⟩

theorem along_true (s : σ) (is : List ι) : Along exec (fun _ _ => True) s is :=
  along_of_mem s fun _ _ => trivial

theorem inv_runFrom_all (hstep : ∀ s i, I s → I (exec s i)) (hs : I s) (is : List ι) :
    I (runFrom exec s is) :=
  inv_runFrom (fun s i h _ => hstep s i h) hs (along_true s is)

/-- **Unless.** What every step but those in `R` keeps holds until a step in `R`. -/
theorem runFrom_unless {R : ι → Prop} (hstep : ∀ s i, I s → P s i → ¬ R i → I (exec s i)) (hs : I s)
    (h : Along exec P s is) :
    I (runFrom exec s is) ∨ ∃ i ∈ is, R i := by
  induction is generalizing s with
  | nil => exact .inl hs
  | cons i is ih =>
    by_cases hi : R i
    · exact .inr ⟨i, mem_cons_self, hi⟩
    · rcases ih (hstep s i hs h.1 hi) h.2 with hend | ⟨j, hj, hr⟩
      · exact .inl hend
      · exact .inr ⟨j, mem_cons_of_mem i hj, hr⟩

/-! ## Observations -/

section Observation

variable {β : Type} (f : σ → β)

/-- **The last change.** The value an observation ends with was set by one step of the run, and
every step after it left the observation alone. -/
theorem runFrom_last_change (hs : f s ≠ f (runFrom exec s is)) :
    ∃ pre i post, is = pre ++ i :: post ∧
      f (runFrom exec s pre) ≠ f (runFrom exec s is) ∧
      ∀ mid rest, post = mid ++ rest →
        f (runFrom exec s (pre ++ i :: mid)) = f (runFrom exec s is) := by
  induction is using reverseRecOn with
  | nil => exact absurd rfl hs
  | append_singleton is j ih =>
    by_cases hj : f (runFrom exec s is) = f (runFrom exec s (is ++ [j]))
    · rw [← hj] at hs ⊢
      obtain ⟨pre, i, post, rfl, hpre, hpost⟩ := ih hs
      refine ⟨pre, i, post ++ [j], by simp, hpre, fun mid rest heq => ?_⟩
      rcases eq_nil_or_concat rest with rfl | ⟨rest, k, rfl⟩
      · rw [append_nil] at heq
        rw [← heq, hj]
        simp
      · rw [concat_eq_append, ← append_assoc] at heq
        exact hpost mid rest (append_inj_left' heq rfl)
    · refine ⟨is, j, [], rfl, hj, fun mid rest heq => ?_⟩
      rw [(append_eq_nil_iff.1 heq.symm).1]

/-- **The first change.** Either the observation stays as it is throughout the run, or one step is
the first to change it. -/
theorem runFrom_first_change (s : σ) (is : List ι) :
    (∀ mid rest, is = mid ++ rest → f (runFrom exec s mid) = f s) ∨
      ∃ pre i post, is = pre ++ i :: post ∧ f (runFrom exec s pre) = f s ∧
        f (runFrom exec s (pre ++ [i])) ≠ f s := by
  induction is using reverseRecOn with
  | nil =>
    refine .inl fun mid rest heq => ?_
    rw [(append_eq_nil_iff.1 heq.symm).1]
    rfl
  | append_singleton is j ih =>
    rcases ih with hall | ⟨pre, i, post, rfl, hpre, hi⟩
    · by_cases hj : f (runFrom exec s (is ++ [j])) = f s
      · refine .inl fun mid rest heq => ?_
        rcases eq_nil_or_concat rest with rfl | ⟨rest, k, rfl⟩
        · rw [append_nil] at heq
          rw [← heq, hj]
        · rw [concat_eq_append, ← append_assoc] at heq
          exact hall mid rest (append_inj_left' heq rfl)
      · exact .inr ⟨is, j, [], rfl, hall is [] (append_nil is).symm, hj⟩
    · exact .inr ⟨pre, i, post ++ [j], by simp, hpre, hi⟩

/-- **Movement.** What every step leaves or moves along a transitive relation, every run does. -/
theorem runFrom_moved {R : β → β → Prop} (htrans : ∀ a b c, R a b → R b c → R a c)
    (hinv : ∀ s i, I s → I (exec s i))
    (hstep : ∀ s i, I s → f (exec s i) = f s ∨ R (f s) (f (exec s i))) (hs : I s)
    (is : List ι) : f (runFrom exec s is) = f s ∨ R (f s) (f (runFrom exec s is)) := by
  induction is generalizing s with
  | nil => exact .inl rfl
  | cons i is ih =>
    rw [runFrom_cons]
    rcases ih (hinv s i hs) with hrest | hrest
    · rw [hrest]
      exact hstep s i hs
    · right
      rcases hstep s i hs with hfirst | hfirst
      · rwa [hfirst] at hrest
      · exact htrans _ _ _ hfirst hrest

end Observation

/-! ## Tables that compare keys in their own way

Two keys are the same row if `same` maps them to the same value. A statement acts on the row of its
key and answers. -/

variable {κ β ι ρ α : Type}

def execKeyed (same : κ → β) (act : ι → Option ρ → α × Option ρ) [DecidableEq β]
    (rows : β → Option ρ) (op : κ × ι) : β → Option ρ :=
  Function.update rows (same op.1) (act op.2 (rows (same op.1))).2

variable {same : κ → β} {act : ι → Option ρ → α × Option ρ} [DecidableEq β]

theorem execKeyed_of_ne {rows : β → Option ρ} {op : κ × ι} {b : β} (h : same op.1 ≠ b) :
    execKeyed same act rows op b = rows b :=
  Function.update_of_ne h.symm _ _

/-- **Keys apart.** -/
theorem runFrom_keyed [DecidableEq κ] {key : κ} {ops : List (κ × ι)}
    (h : ∀ op ∈ ops, same op.1 = same key → op.1 = key) {rows rows' : β → Option ρ}
    (hrows : rows (same key) = rows' (same key)) :
    runFrom (execKeyed same act) rows ops (same key) =
      runFrom (execKeyed same act) rows' (ops.filter (·.1 = key)) (same key) := by
  induction ops generalizing rows rows' with
  | nil => exact hrows
  | cons op ops ih =>
    have hrest : ∀ op ∈ ops, same op.1 = same key → op.1 = key :=
      fun op hop => h op (mem_cons_of_mem _ hop)
    by_cases hkey : op.1 = key
    · rw [filter_cons_of_pos (by simpa using hkey)]
      refine ih hrest ?_
      simp only [execKeyed, hkey, Function.update_self, hrows]
    · rw [filter_cons_of_neg (by simpa using hkey)]
      refine ih hrest ?_
      rw [execKeyed_of_ne fun hsame => hkey (h op mem_cons_self hsame), hrows]

variable {σ τ ι ε : Type} {move : τ → ε → τ → Prop}
variable {emit : σ → ι → List ε} {exec : σ → ι → σ} {t t' : τ}

/-- The events lead from one state to the other. -/
def Path (move : τ → ε → τ → Prop) : τ → List ε → τ → Prop
  | t, [], t' => t' = t
  | t, e :: es, t' => ∃ u, move t e u ∧ Path move u es t'

@[simp] theorem path_nil : Path move t [] t' ↔ t' = t := Iff.rfl

variable {e : ε} {es after before : List ε}

@[simp] theorem path_cons :
    Path move t (e :: es) t' ↔ ∃ u, move t e u ∧ Path move u es t' := Iff.rfl

variable {fs : List ε} {s : σ}

theorem path_append : Path move t (es ++ fs) t' ↔ ∃ u, Path move t es u ∧ Path move u fs t' := by
  induction es generalizing t with
  | nil => simp
  | cons e es ih =>
    simp only [cons_append, path_cons, ih]
    constructor
    · rintro ⟨v, hmove, u, hes, hfs⟩
      exact ⟨u, ⟨v, hmove, hes⟩, hfs⟩
    · rintro ⟨u, ⟨v, hmove, hes⟩, hfs⟩
      exact ⟨v, hmove, u, hes, hfs⟩

/-- **Invariants of histories.** -/
theorem Path.inv {I : List ε → τ → Prop} (hinit : I [] t)
    (hmove : ∀ {before u e v}, I before u → move u e v → I (before ++ [e]) v)
    (h : Path move t es t') : I es t' := by
  induction es using reverseRecOn generalizing t' with
  | nil =>
    cases h
    exact hinit
  | append_singleton es e ih =>
    obtain ⟨u, hes, v, he, rfl⟩ := path_append.1 h
    exact hmove (ih hes) he

theorem Path.event (h : Path move t (before ++ e :: after) t') :
    ∃ u v, Path move t before u ∧ move u e v := by
  obtain ⟨u, hbef, v, he, -⟩ := path_append.1 h
  exact ⟨u, v, hbef, he⟩

/-- The events of the steps of a run. -/
def history (exec : σ → ι → σ) (emit : σ → ι → List ε) : σ → List ι → List ε
  | _, [] => []
  | s, i :: is => emit s i ++ history exec emit (exec s i) is

theorem history_append (s : σ) (is js : List ι) : history exec emit s (is ++ js) =
      history exec emit s is ++ history exec emit (runFrom exec s is) js := by
  induction is generalizing s with
  | nil => rfl
  | cons i is ih => simp [history, ih]

theorem history_event {is : List ι} (h : history exec emit s is = before ++ e :: after) :
    ∃ is1 i is2 pre post, is = is1 ++ i :: is2 ∧
      emit (runFrom exec s is1) i = pre ++ e :: post ∧
      before = history exec emit s is1 ++ pre := by
  induction is using reverseRecOn generalizing after with
  | nil => cases append_eq_nil_iff.1 h.symm |>.2
  | append_singleton is i ih =>
    rw [history_append] at h
    -- the event is one of the last step, or of the steps before it
    rcases append_eq_append_iff.1 h with ⟨pre, rfl, hlast⟩ | ⟨rest, hinit, hrest⟩
    · refine ⟨is, i, [], pre, after, rfl, ?_, rfl⟩
      simpa [history] using hlast
    · cases rest with
      | nil =>
        refine ⟨is, i, [], [], after, rfl, ?_, ?_⟩
        · simpa [history] using hrest.symm
        · simpa using hinit.symm
      | cons e' rest =>
        obtain ⟨rfl, -⟩ := cons.inj hrest
        obtain ⟨is1, j, is2, pre, post, rfl, hemit, hbef⟩ := ih hinit
        exact ⟨is1, j, is2 ++ [i], pre, post, by simp, hemit, hbef⟩

/-- A property of the events so far and the state they lead to, which every step keeps. -/
theorem history_inv {I : List ε → σ → Prop}
    (hinit : I [] s) (hstep : ∀ {es t i}, I es t → I (es ++ emit t i) (exec t i))
    (is : List ι) : I (history exec emit s is) (runFrom exec s is) := by
  induction is using reverseRecOn with
  | nil => exact hinit
  | append_singleton is i ih =>
    rw [history_append, runFrom_append]
    simpa [history] using hstep (i := i) ih

/-- What happened since the last event of some kind, with more events of other kinds. -/
theorem rtakeWhile_append {p : ε → Bool} (h : ∀ e ∈ fs, p e = true) :
    (es ++ fs).rtakeWhile p = es.rtakeWhile p ++ fs := by
  unfold rtakeWhile
  rw [reverse_append, takeWhile_append_of_pos (by simpa using h), reverse_append, reverse_reverse]

/-- **Refinement.** -/
theorem path_history {view : σ → τ}
    (hstep : ∀ s i, Path move (view s) (emit s i) (view (exec s i))) (s : σ) (is : List ι) :
    Path move (view s) (history exec emit s is) (view (runFrom exec s is)) := by
  induction is generalizing s with
  | nil => rfl
  | cons i is ih => exact path_append.2 ⟨_, hstep s i, ih (exec s i)⟩

end NasaRuntime
