import Mathlib.Algebra.BigOperators.Group.List.Basic
import Mathlib.Algebra.BigOperators.Group.Multiset.Basic
import Mathlib.Algebra.GroupWithZero.Nat
import Mathlib.Order.Lattice

/-!
# Dictionaries and accounts

A finite map over an ordered type of keys: its entries, in strictly increasing order of their keys.
The order is what an iteration over the map sees, and it makes the entries a canonical form: two
dictionaries that answer every lookup alike are equal (`Dict.ext_get?`).

**Theorem (`binarySearch_eq_some`).** On a list of strictly increasing keys, the search finds exactly
the item with the key.

An *account* is a pair of numbers kept by hand: how many items there are, and what they weigh
together. Against the multiset of the items that exist the account is `tally`, and taking an item in
and giving one back are the two ways to read `Multiset.cons`.

A *ledger* has an account for every key. A *book* is a dictionary that keeps something about the items
under each key, and has an entry only while there are such items. What it keeps is a relation `R`, so
books nest: `R` may again say that a part of the entry is a book.

**Theorem (`refund_tally`).** Giving back an item that exists does not go below zero.

**Theorem (`Book.insert`, `Book.replace`).** Writing the entry of an item's key keeps a book, when an
item comes and when one goes.
-/

namespace NasaRuntime

open Option List

/-- A finite map. -/
@[ext]
structure Dict (κ ν : Type) [LinearOrder κ] where
  entries : List (κ × ν)
  sorted : entries.Pairwise (·.1 < ·.1)
deriving DecidableEq

namespace Dict

variable {κ ν : Type} [LinearOrder κ] {d d' : Dict κ ν} {k k' : κ} {v v' : ν}

instance : EmptyCollection (Dict κ ν) := ⟨⟨[], .nil⟩⟩

instance : Inhabited (Dict κ ν) := ⟨∅⟩

/-- The value under a key. -/
def get? (d : Dict κ ν) (k : κ) : Option ν :=
  (d.entries.find? (·.1 = k)).map (·.2)

/-- The dictionary with the value under the key. -/
def insert (d : Dict κ ν) (k : κ) (v : ν) : Dict κ ν where
  entries := d.entries.filter (·.1 < k) ++ (k, v) :: d.entries.filter (k < ·.1)
  sorted := by
    refine List.pairwise_append.2 ⟨d.sorted.filter _, List.pairwise_cons.2 ⟨?_, d.sorted.filter _⟩,
      ?_⟩
    · intro e he
      exact of_decide_eq_true (List.mem_filter.1 he).2
    · intro e he e' he'
      have hlt : e.1 < k := of_decide_eq_true (List.mem_filter.1 he).2
      rcases List.mem_cons.1 he' with rfl | he'
      · exact hlt
      · exact hlt.trans (of_decide_eq_true (List.mem_filter.1 he').2)

/-- The dictionary without the key. -/
def erase (d : Dict κ ν) (k : κ) : Dict κ ν where
  entries := d.entries.filter (·.1 ≠ k)
  sorted := d.sorted.filter _

/-- Every entry is updated, or dropped. -/
def retain (d : Dict κ ν) (f : κ → ν → Option ν) : Dict κ ν where
  entries := d.entries.filterMap fun e => (f e.1 e.2).map fun v => (e.1, v)
  sorted := by
    refine d.sorted.filterMap _ ?_
    intro e e' hlt b hb b' hb'
    obtain ⟨_, -, rfl⟩ := Option.map_eq_some_iff.1 hb
    obtain ⟨_, -, rfl⟩ := Option.map_eq_some_iff.1 hb'
    exact hlt

/-- The values a fallible function gives, where it gives one; the first failure in the order of the
keys is the failure of the whole. -/
def collect {ε μ : Type} (d : Dict κ ν) (f : ν → Except ε (Option μ)) : Except ε (Dict κ μ) :=
  go ∅ d.entries
where
  go (found : Dict κ μ) : List (κ × ν) → Except ε (Dict κ μ)
    | [] => .ok found
    | (k, v) :: rest =>
      match f v with
      | .error e => .error e
      | .ok none => go found rest
      | .ok (some u) => go (found.insert k u) rest

/-- The sum of a weight over the values. -/
def total (w : ν → ℕ) (d : Dict κ ν) : ℕ := (d.entries.map fun e => w e.2).sum

/-! ## Lookups -/

theorem get?_eq_some : d.get? k = some v ↔ (k, v) ∈ d.entries := by
  unfold get?
  constructor
  · intro h
    obtain ⟨e, he, rfl⟩ := map_eq_some_iff.1 h
    have hkey : e.1 = k := of_decide_eq_true
      (find?_some (p := fun e : κ × ν => decide (e.1 = k)) he)
    rw [← hkey]
    exact mem_of_find?_eq_some he
  · intro h
    have hsort := d.sorted
    generalize d.entries = es at h hsort
    induction es with
    | nil => cases h
    | cons e es ih =>
      obtain ⟨hhead, htail⟩ := pairwise_cons.1 hsort
      rcases mem_cons.1 h with rfl | h
      · rw [find?_cons_of_pos (by simp)]
        rfl
      · -- the entry of the key lies further on, so the head has a smaller key
        have hne : e.1 ≠ k := (hhead _ h).ne
        rw [find?_cons_of_neg (by simpa using hne)]
        exact ih h htail

theorem get?_eq_none_of_lt (h : ∀ e ∈ d.entries, e.1 < k) : d.get? k = none := by
  cases hv : d.get? k with
  | none => rfl
  | some v => exact absurd (h _ (get?_eq_some.1 hv)) (lt_irrefl k)

theorem entries_insert_of_lt (h : ∀ e ∈ d.entries, e.1 < k) :
    (d.insert k v).entries = d.entries ++ [(k, v)] := by
  have hbef : d.entries.filter (·.1 < k) = d.entries :=
    filter_eq_self.2 fun e he => decide_eq_true (h e he)
  have haft : d.entries.filter (k < ·.1) = [] :=
    filter_eq_nil_iff.2 fun e he => by simpa using (h e he).le
  simp only [insert, hbef, haft]

theorem ext_get? (h : ∀ k, d.get? k = d'.get? k) : d = d' := by
  refine Dict.ext ?_
  have hmem : ∀ e, e ∈ d.entries ↔ e ∈ d'.entries := by
    rintro ⟨k, v⟩
    rw [← get?_eq_some, ← get?_eq_some, h]
  have hnod : ∀ c : Dict κ ν, c.entries.Nodup := fun c => c.sorted.imp fun hlt heq =>
    hlt.ne (congrArg Prod.fst heq)
  refine List.Perm.eq_of_pairwise ?_ d.sorted d'.sorted ?_
  · intro e e' _ _ hlt hgt
    exact absurd hlt hgt.asymm
  · exact (perm_ext_iff_of_nodup (hnod d) (hnod d')).2 hmem

@[simp] theorem get?_empty : (∅ : Dict κ ν).get? k = none := rfl

@[simp] theorem get?_insert : (d.insert k v).get? k' = if k' = k then some v else d.get? k' := by
  refine ext fun u => ?_
  rw [get?_eq_some, insert]
  by_cases hk : k' = k
  · subst hk
    simp [eq_comm]
  · rw [if_neg hk, get?_eq_some]
    simp [hk, ← and_or_left, lt_or_gt_of_ne hk]

theorem get?_insert_self : (d.insert k v).get? k = some v := by simp

theorem insert_self (h : d.get? k = some v) : d.insert k v = d := by
  refine ext_get? fun k' => ?_
  rw [get?_insert]
  split
  · rename_i heq
    rw [heq, h]
  · rfl

theorem insert_insert : (d.insert k v).insert k v' = d.insert k v' := by
  refine ext_get? fun k' => ?_
  rw [get?_insert, get?_insert, get?_insert]
  split <;> rfl

@[simp] theorem get?_erase : (d.erase k).get? k' = if k' = k then none else d.get? k' := by
  refine ext fun u => ?_
  rw [get?_eq_some, erase]
  by_cases hk : k' = k
  · simp [hk]
  · rw [if_neg hk, get?_eq_some]
    simp [hk]

@[simp] theorem get?_retain {f : κ → ν → Option ν} :
    (d.retain f).get? k = (d.get? k).bind (f k) := by
  refine ext fun u => ?_
  rw [get?_eq_some, bind_eq_some_iff]
  simp only [retain, mem_filterMap, map_eq_some_iff, Prod.mk.injEq, get?_eq_some]
  constructor
  · rintro ⟨⟨a, v⟩, hmem, w, hf, rfl, rfl⟩
    exact ⟨v, hmem, hf⟩
  · rintro ⟨v, hmem, hf⟩
    exact ⟨(k, v), hmem, u, hf, rfl, rfl⟩

section Collect

variable {ε μ : Type} {f : ν → Except ε (Option μ)} {found d'' : Dict κ μ} {u : μ}

theorem get?_collect_go {rest : List (κ × ν)} (hsort : rest.Pairwise (·.1 < ·.1))
    (hfresh : ∀ e ∈ rest, found.get? e.1 = none) (h : collect.go f found rest = .ok d'') :
    d''.get? k = some u ↔ found.get? k = some u ∨ ∃ v, (k, v) ∈ rest ∧ f v = .ok (some u) := by
  induction rest generalizing found with
  | nil =>
    cases h
    simp
  | cons e rest ih =>
    obtain ⟨a, v⟩ := e
    obtain ⟨hhead, htail⟩ := pairwise_cons.1 hsort
    unfold collect.go at h
    split at h
    · cases h
    · rename_i hf
      rw [ih htail (fun e he => hfresh e (mem_cons_of_mem _ he)) h]
      refine or_congr_right (exists_congr fun v' => ?_)
      by_cases hv : v' = v
      · simp [hv, hf]
      · simp [hv]
    · rename_i u0 hf
      rw [ih htail ?_ h, get?_insert]
      · by_cases hk : k = a
        · -- the key is that of the head: neither the values found nor the rest have it
          subst hk
          have hnone : found.get? k = none := hfresh _ mem_cons_self
          have hrest : ∀ v', (k, v') ∉ rest := fun v' hmem => lt_irrefl k (hhead _ hmem)
          simp [hnone, hrest, hf]
        · simp [hk]
      · intro e he
        rw [get?_insert, if_neg (hhead e he).ne', hfresh e (mem_cons_of_mem _ he)]

theorem get?_collect (h : d.collect f = .ok d'') :
    d''.get? k = some u ↔ ∃ v, d.get? k = some v ∧ f v = .ok (some u) := by
  rw [get?_collect_go d.sorted (fun _ _ => get?_empty) h]
  simp [get?_eq_some]

end Collect

/-! ## Totals -/

variable {w : ν → ℕ}

@[simp] theorem total_empty : (∅ : Dict κ ν).total w = 0 := rfl

theorem total_erase : (d.erase k).total w + ((d.get? k).map w).getD 0 = d.total w := by
  obtain ⟨es, hsort⟩ := d
  simp only [total, erase, get?]
  induction es with
  | nil => rfl
  | cons e es ih =>
    obtain ⟨hhead, htail⟩ := pairwise_cons.1 hsort
    by_cases hk : e.1 = k
    · -- the key occurs nowhere else
      have hrest : es.filter (fun e => decide (e.1 ≠ k)) = es := by
        refine filter_eq_self.2 fun e' he' => decide_eq_true ?_
        exact hk ▸ (hhead e' he').ne'
      rw [filter_cons_of_neg (by simpa using hk), find?_cons_of_pos (by simpa using hk),
        hrest, map_cons, sum_cons, Nat.add_comm]
      rfl
    · rw [filter_cons_of_pos (by simpa using hk), find?_cons_of_neg (by simpa using hk),
        map_cons, map_cons, sum_cons, sum_cons, ← ih htail]
      omega

theorem total_insert :
    (d.insert k v).total w + ((d.get? k).map w).getD 0 = d.total w + w v := by
  have hsplit : (d.insert k v).total w = (d.erase k).total w + w v := by
    simp only [total, insert, erase, ne_eq, map_append, sum_append, map_cons, sum_cons]
    induction d.entries with
    | nil => simp
    | cons e es ih =>
      rcases lt_trichotomy e.1 k with hlt | heq | hgt
      · simp only [filter_cons, hlt, hlt.ne, hlt.asymm, decide_true, decide_false,
          not_false_eq_true, ↓reduceIte, map_cons, sum_cons, Bool.false_eq_true]
        omega
      · simpa [heq] using ih
      · simp only [filter_cons, hgt, hgt.ne', hgt.asymm, decide_true, decide_false,
          not_false_eq_true, ↓reduceIte, map_cons, sum_cons, Bool.false_eq_true]
        omega
  rw [hsplit, ← total_erase (d := d) (k := k)]
  omega

theorem total_le (h : ∀ k v', d'.get? k = some v' → ∃ v, d.get? k = some v ∧ w v' ≤ w v) :
    d'.total w ≤ d.total w := by
  obtain ⟨es, hsort⟩ := d'
  simp only [get?_eq_some] at h
  simp only [total]
  induction es generalizing d with
  | nil => exact Nat.zero_le _
  | cons e es ih =>
    obtain ⟨hhead, htail⟩ := pairwise_cons.1 hsort
    obtain ⟨v, hv, hle⟩ := h e.1 e.2 mem_cons_self
    -- the rest lies in what is left without the first key
    have hrest := ih (d := d.erase e.1) htail ?_
    · have htot := total_erase (d := d) (k := e.1) (w := w)
      rw [get?_eq_some.2 hv, map_some, getD_some] at htot
      simp only [total] at htot hrest ⊢
      rw [map_cons, sum_cons]
      omega
    · intro k v' hmem
      obtain ⟨u, hu, hle⟩ := h k v' (mem_cons_of_mem _ hmem)
      refine ⟨u, ?_, hle⟩
      rw [← get?_eq_some] at hu ⊢
      rw [get?_erase, if_neg (hhead _ hmem).ne', hu]

end Dict

variable {α κ : Type} [LinearOrder κ] {keyOf : α → κ} {key : κ} {items : List α} {item : α}

/-- The item with the key: the half that can hold it is searched, down to one item. -/
def binarySearch (keyOf : α → κ) (key : κ) (items : List α) : Option α :=
  if h : items.length ≤ 1 then items.head?.filter (keyOf · = key)
  else
    let half := items.length / 2
    if key < keyOf (items.get ⟨half, by omega⟩) then
      binarySearch keyOf key (items.take (items.length - half))
    else binarySearch keyOf key (items.drop half)
termination_by items.length
decreasing_by
  all_goals
    simp only [List.length_take, List.length_drop]
    omega

theorem binarySearch_eq_some (hsort : items.Pairwise (keyOf · < keyOf ·)) :
    binarySearch keyOf key items = some item ↔ item ∈ items ∧ keyOf item = key := by
  fun_induction binarySearch keyOf key items with
  | case1 items h =>
    match items, h with
    | [], _ => simp
    | [one], _ =>
      rw [head?_cons, Option.filter_eq_some_iff]
      simp [eq_comm]
  | case2 items h half hlt ih =>
    have hlt : key < keyOf items[half] := hlt
    rw [ih (hsort.sublist (take_sublist _ _))]
    refine and_congr_left fun hkey => ⟨mem_of_mem_take, fun hmem => ?_⟩
    obtain ⟨k, hk, rfl⟩ := mem_iff_getElem.1 hmem
    have hbef : k < half := by
      by_contra hle
      rcases Nat.eq_or_lt_of_le (Nat.not_lt.1 hle) with rfl | hlt'
      · exact hlt.ne' hkey
      · exact (hlt.trans (pairwise_iff_getElem.1 hsort half k _ hk hlt')).ne' hkey
    exact mem_take_iff_getElem.2 ⟨k, by omega, rfl⟩
  | case3 items h half hge ih =>
    rw [ih (hsort.sublist (drop_sublist _ _))]
    refine and_congr_left fun hkey => ⟨mem_of_mem_drop, fun hmem => ?_⟩
    obtain ⟨k, hk, rfl⟩ := mem_iff_getElem.1 hmem
    have haft : half ≤ k := by
      by_contra hlt
      refine hge ?_
      rw [← hkey]
      exact pairwise_iff_getElem.1 hsort k half hk _ (Nat.not_le.1 hlt)
    exact mem_drop_iff_getElem.2 ⟨k - half, by omega, by simp [haft]⟩

open Multiset

variable {α β κ ν : Type} [LinearOrder κ]

/-- How many items there are, and what they weigh. -/
def tally (w : α → ℕ) (m : Multiset α) : ℕ × ℕ := (m.card, (m.map w).sum)

/-- The account after an item came. -/
def charge (account : ℕ × ℕ) (weight : ℕ) : ℕ × ℕ := (account.1 + 1, account.2 + weight)

/-- The account after an item went. There is none if a subtraction goes below zero. -/
def refund (account : ℕ × ℕ) (weight : ℕ) : Option (ℕ × ℕ) :=
  if 1 ≤ account.1 ∧ weight ≤ account.2 then some (account.1 - 1, account.2 - weight) else none

/-- The items under a key. -/
def under (key : α → κ) (k : κ) (m : Multiset α) : Multiset α := m.filter (key · = k)

/-- The account of each key is that of the items under it. -/
def Ledger (key : α → κ) (w : α → ℕ) (m : Multiset α) (f : κ → ℕ × ℕ) : Prop :=
  ∀ k, f k = tally w (under key k m)

/-- What a dictionary has for some items. -/
inductive Entry (R : Multiset α → ν → Prop) : Multiset α → Option ν → Prop
  | absent : Entry R 0 none
  | present {m : Multiset α} {v : ν} (hne : m ≠ 0) (h : R m v) : Entry R m (some v)

/-- The dictionary keeps the items by their key. -/
def Book (key : α → κ) (R : Multiset α → ν → Prop) (m : Multiset α) (d : Dict κ ν) : Prop :=
  ∀ k, Entry R (under key k m) (d.get? k)

variable {w : α → ℕ} {m m' : Multiset α} {a : α} {key : α → κ} {k : κ}
  {R : Multiset α → ν → Prop} {d : Dict κ ν} {v : ν} {f : κ → ℕ × ℕ}

/-! ## Tallies -/

@[simp] theorem tally_zero : tally w 0 = (0, 0) := rfl

@[simp] theorem tally_cons : tally w (a ::ₘ m) = charge (tally w m) (w a) := by
  simp [tally, charge, Nat.add_comm]

theorem tally_map (f : β → α) (m : Multiset β) : tally w (m.map f) = tally (w ∘ f) m := by
  simp [tally]

theorem tally_fst_eq_zero : (tally w m).1 = 0 ↔ m = 0 := card_eq_zero

theorem tally_le (h : m ≤ m') : tally w m ≤ tally w m' := by
  obtain ⟨rest, rfl⟩ := Multiset.le_iff_exists_add.1 h
  constructor
  · simp [tally]
  · simp [tally]

theorem charge_le {account : ℕ × ℕ} {weight records bytes : ℕ} (hfits : account ≤ (records, bytes))
    (hrec : account.1 < records) (hby : weight ≤ bytes - account.2) :
    charge account weight ≤ (records, bytes) := by
  have hle : account.2 ≤ bytes := hfits.2
  constructor
  · exact hrec
  · show account.2 + weight ≤ bytes
    omega

theorem refund_tally : refund (tally w (a ::ₘ m)) (w a) = some (tally w m) := by
  simp [refund, charge]

/-! ## Items under a key -/

@[simp] theorem under_zero : under key k 0 = 0 := rfl

theorem under_cons_self : under key (key a) (a ::ₘ m) = a ::ₘ under key (key a) m :=
  filter_cons_of_pos m rfl

theorem under_cons_of_ne (h : key a ≠ k) : under key k (a ::ₘ m) = under key k m :=
  filter_cons_of_neg m h

theorem under_mono (h : m ≤ m') : under key k m ≤ under key k m' := filter_le_filter _ h

theorem under_map (f : β → α) (m : Multiset β) :
    under key k (m.map f) = (under (key ∘ f) k m).map f :=
  filter_map _ f m

/-! ## Ledgers -/

theorem Ledger.charge (h : Ledger key w m f) (a : α) :
    Ledger key w (a ::ₘ m) (Function.update f (key a) (charge (f (key a)) (w a))) := by
  intro k
  by_cases hk : k = key a
  · subst hk
    rw [Function.update_self, under_cons_self, tally_cons, h]
  · rw [Function.update_of_ne hk, under_cons_of_ne (Ne.symm hk), h]

theorem Ledger.refund (h : Ledger key w (a ::ₘ m) f) :
    refund (f (key a)) (w a) = some (tally w (under key (key a) m)) ∧
      Ledger key w m (Function.update f (key a) (tally w (under key (key a) m))) := by
  constructor
  · rw [h, under_cons_self, refund_tally]
  · intro k
    by_cases hk : k = key a
    · subst hk
      rw [Function.update_self]
    · rw [Function.update_of_ne hk, h, under_cons_of_ne (Ne.symm hk)]

/-- An item is replaced by one with the same key and weight. -/
theorem Ledger.swap {a' : α} (h : Ledger key w (a ::ₘ m) f) (hkey : key a' = key a)
    (hw : w a' = w a) : Ledger key w (a' ::ₘ m) f := by
  intro k
  rw [h k]
  by_cases hk : key a = k
  · subst hk
    rw [under_cons_self, ← hkey, under_cons_self, tally_cons, tally_cons, hw]
  · rw [under_cons_of_ne hk, under_cons_of_ne (hkey ▸ hk)]

/-! ## Books -/

theorem Book.empty : Book key R 0 ∅ := fun _ => .absent

theorem Book.entry {v0 : ν} (h : Book key R m d) (hnone : R 0 v0) (k : κ) :
    R (under key k m) ((d.get? k).getD v0) := by
  have hent := h k
  generalize under key k m = items, d.get? k = found at hent ⊢
  cases hent with
  | absent => exact hnone
  | present _ hv => exact hv

theorem Book.of_get? (h : Book key R m d) (hv : d.get? k = some v) :
    under key k m ≠ 0 ∧ R (under key k m) v := by
  have hent := h k
  rw [hv] at hent
  generalize under key k m = items at hent ⊢
  cases hent with
  | present hne hv => exact ⟨hne, hv⟩

theorem Book.insert (h : Book key R m d) (hv : R (a ::ₘ under key (key a) m) v) :
    Book key R (a ::ₘ m) (d.insert (key a) v) := by
  intro k
  by_cases hk : k = key a
  · subst hk
    rw [Dict.get?_insert_self, under_cons_self]
    exact .present cons_ne_zero hv
  · rw [Dict.get?_insert, if_neg hk, under_cons_of_ne (Ne.symm hk)]
    exact h k

theorem Book.found (h : Book key R (a ::ₘ m) d) :
    ∃ v, d.get? (key a) = some v ∧ R (a ::ₘ under key (key a) m) v := by
  have hent := h (key a)
  rw [under_cons_self] at hent
  generalize hit : a ::ₘ under key (key a) m = items, d.get? (key a) = found at hent
  cases hent with
  | absent => exact absurd hit cons_ne_zero
  | present _ hv => exact ⟨_, rfl, hv⟩

/-- An item goes. Its entry goes with it if it was the last one. -/
theorem Book.replace {last : Prop} [Decidable last] (h : Book key R (a ::ₘ m) d)
    (hv : R (under key (key a) m) v) (hlast : last ↔ under key (key a) m = 0) :
    Book key R m (if last then d.erase (key a) else d.insert (key a) v) := by
  intro k
  by_cases hk : k = key a
  · subst hk
    by_cases hzero : last
    · rw [if_pos hzero, Dict.get?_erase, if_pos rfl, hlast.1 hzero]
      exact .absent
    · rw [if_neg hzero, Dict.get?_insert_self]
      exact .present (fun hnone => hzero (hlast.2 hnone)) hv
  · have hoth := h k
    rw [under_cons_of_ne (Ne.symm hk)] at hoth
    split_ifs
    · rwa [Dict.get?_erase, if_neg hk]
    · rwa [Dict.get?_insert, if_neg hk]

end NasaRuntime
