import Mathlib.Data.List.Nodup

/-!
# Tables as lists of rows

What the SQL statements of a store do to a table that is kept as a list of rows:
`updateWhere p f` is `UPDATE … SET f WHERE p`. It keeps the number and the order of the rows, and
any key that `f` does not write.

`Rewrites R` is what any number of updates do to a table: each row stays or changes by `R`, and the
rows keep their number and order.
-/

namespace NasaRuntime.Table

open List

variable {α κ : Type} {p : α → Bool} {f : α → α} {rows : List α}

/-- `UPDATE … SET f WHERE p`. -/
def updateWhere (p : α → Bool) (f : α → α) (rows : List α) : List α :=
  rows.map fun r => if p r then f r else r

variable {r' r : α} {key : α → κ}

theorem mem_updateWhere : r' ∈ updateWhere p f rows ↔ ∃ r ∈ rows, r' = if p r then f r else r := by
  unfold updateWhere
  simp only [mem_map, eq_comm]

theorem map_updateWhere (key : α → κ) (hf : ∀ r, key (f r) = key r) :
    (updateWhere p f rows).map key = rows.map key := by
  unfold updateWhere
  rw [map_map]
  refine map_congr_left fun r _ => ?_
  by_cases h : p r <;> simp [h, hf]

theorem find?_updateWhere {q : α → Bool} (hq : ∀ r, q (f r) = q r) :
    (updateWhere p f rows).find? q = (rows.find? q).map fun r => if p r then f r else r := by
  unfold updateWhere
  rw [find?_map]
  congr 2
  funext r
  by_cases h : p r = true
  · simp [h, hq]
  · simp [h]

theorem eq_of_key (hn : (rows.map key).Nodup) (hr : r ∈ rows)
    (hr' : r' ∈ rows) (hk : key r = key r') : r = r' :=
  inj_on_of_nodup_map hn hr hr' hk

theorem find?_of_mem [DecidableEq κ] (hn : (rows.map key).Nodup)
    (hr : r ∈ rows) : rows.find? (fun x => key x = key r) = some r := by
  induction rows with
  | nil => cases hr
  | cons x rest ih =>
    by_cases hx : key x = key r
    · rw [find?_cons_of_pos (by simpa using hx), eq_of_key hn mem_cons_self hr hx]
    · rw [find?_cons_of_neg (by simpa using hx)]
      refine ih (nodup_cons.1 hn).2 ?_
      rcases mem_cons.1 hr with rfl | hr
      · exact absurd rfl hx
      · exact hr

/-! ## Rewritten tables -/

/-- Every row stays as it is or changes by `R`. -/
def Rewrites (R : α → α → Prop) (rows rows' : List α) : Prop :=
  ∃ g : α → α, rows' = rows.map g ∧ ∀ r ∈ rows, g r = r ∨ R r (g r)

namespace Rewrites

variable {R S T : α → α → Prop} {rows' rows'' : List α}

theorem refl (R : α → α → Prop) (rows : List α) : Rewrites R rows rows :=
  ⟨id, (map_id rows).symm, fun _ _ => .inl rfl⟩

theorem of_update (h : ∀ r ∈ rows, p r = true → R r (f r)) :
    Rewrites R rows (updateWhere p f rows) := by
  refine ⟨fun r => if p r then f r else r, rfl, fun r hr => ?_⟩
  by_cases hp : p r = true
  · exact .inr (by simpa [hp] using h r hr hp)
  · exact .inl (by simp [hp])

/-- One rewriting after another, if what both do to a row is a change by `T`. -/
theorem comp (h1 : Rewrites R rows rows') (h2 : Rewrites S rows' rows'')
    (hT : ∀ r ∈ rows, ∀ r' r'', (r' = r ∨ R r r') → (r'' = r' ∨ S r' r'') → r'' = r ∨ T r r'') :
    Rewrites T rows rows'' := by
  obtain ⟨g, rfl, hg⟩ := h1
  obtain ⟨g', rfl, hg'⟩ := h2
  refine ⟨g' ∘ g, map_map, fun r hr => ?_⟩
  exact hT r hr (g r) (g' (g r)) (hg r hr) (hg' (g r) (mem_map_of_mem hr))

theorem trans (h1 : Rewrites R rows rows') (h2 : Rewrites R rows' rows'')
    (hR : ∀ a b c, R a b → R b c → R a c) : Rewrites R rows rows'' := by
  refine h1.comp h2 fun r _ r' r'' hr hr' => ?_
  rcases hr with rfl | hr
  · exact hr'
  · rcases hr' with rfl | hr'
    · exact .inr hr
    · exact .inr (hR _ _ _ hr hr')

/-- Where a row of the rewritten table comes from. -/
theorem source (h : Rewrites R rows rows') (hr : r' ∈ rows') : ∃ r ∈ rows, r' = r ∨ R r r' := by
  obtain ⟨g, rfl, hg⟩ := h
  obtain ⟨r, hm, rfl⟩ := mem_map.1 hr
  exact ⟨r, hm, hg r hm⟩

/-- What became of a row of the table. -/
theorem target (h : Rewrites R rows rows') (hr : r ∈ rows) : ∃ r' ∈ rows', r' = r ∨ R r r' := by
  obtain ⟨g, rfl, hg⟩ := h
  exact ⟨g r, mem_map_of_mem hr, hg r hr⟩

theorem map_eq (h : Rewrites R rows rows') (key : α → κ)
    (hkey : ∀ r ∈ rows, ∀ r', R r r' → key r' = key r) : rows'.map key = rows.map key := by
  obtain ⟨g, rfl, hg⟩ := h
  rw [map_map]
  refine map_congr_left fun r hr => ?_
  rcases hg r hr with he | hR
  · simp only [Function.comp_apply, he]
  · exact hkey r hr _ hR

end Rewrites

end NasaRuntime.Table
