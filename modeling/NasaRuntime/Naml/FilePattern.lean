import Mathlib.Data.List.Forall2
import Mathlib.Data.List.Infix
import Mathlib.Data.Prod.Lex

/-!
# The file patterns of an import

A pattern stands for the files of one directory: `*` is any text and `?` is one character. The match
goes through the name once and can only go back to the last star. It compares a character before it
looks for a star, so a star in the name uses up the pattern's: then names are missed
(`matches_star`), and none is taken in that should not be.

`Reads` is what the loop takes in: a star of the pattern that meets a star stands for it alone. So a
name of the pattern is found exactly if there is a way to read it like that.
-/

namespace NasaRuntime.Naml

structure FilePattern where
  directory : String
  filename : String

/-- The loop over the name from `t` on. The pattern from `p` on is left, `star` is the pattern behind
the last star, and `retry` the part of the name that it was last tried on. -/
def matchLoop (p t : List Char) (star : Option (List Char)) (retry : List Char)
    (h : t.length ≤ retry.length) : Bool :=
  match t, h with
  | [], _ => p.all (· = '*')
  | c :: t, h =>
    if hc : p.head? = some '?' ∨ p.head? = some c then
      matchLoop p.tail t star retry (by grind)
    else if hs : p.head? = some '*' then matchLoop p.tail (c :: t) (some p.tail) (c :: t) le_rfl
    else star.elim false fun index => matchLoop index retry.tail star retry.tail le_rfl
termination_by (retry.length, p.length)
decreasing_by all_goals grind

def FilePattern.matches (pattern : FilePattern) (name : String) : Bool :=
  if name.utf8ByteSize > 4096 ∨ '/' ∈ name.toList ∨ '\x00' ∈ name.toList ∨
      (name.toList.head? = some '.' ∧ pattern.filename.toList.head? ≠ some '.') then false
  else matchLoop pattern.filename.toList name.toList none name.toList le_rfl

/-- What a pattern stands for: every star is replaced by a text, and every question mark by a
character. -/
inductive Glob : List Char → List Char → Prop
  | nil : Glob [] []
  | star {p t} (s : List Char) (h : Glob p t) : Glob ('*' :: p) (s ++ t)
  | any {p t} (c : Char) (h : Glob p t) : Glob ('?' :: p) (c :: t)
  | literal {p t c} (hs : c ≠ '*') (hq : c ≠ '?') (h : Glob p t) : Glob (c :: p) (c :: t)

/-- What the loop takes in: a star that meets a star of the name is a character like any other. -/
inductive Reads : List Char → List Char → Prop
  | nil : Reads [] []
  | star {p t} (s : List Char) (hs : (s ++ t).head? ≠ some '*') (h : Reads p t) :
      Reads ('*' :: p) (s ++ t)
  | any {p t} (c : Char) (h : Reads p t) : Reads ('?' :: p) (c :: t)
  | literal {p t c} (hq : c ≠ '?') (h : Reads p t) : Reads (c :: p) (c :: t)

open List

variable {p s t u w retry : List Char} {star : Option (List Char)}

theorem Reads.glob (h : Reads p t) : Glob p t := by
  induction h with
  | nil => exact .nil
  | star s _ _ ih => exact .star s ih
  | any c _ ih => exact .any c ih
  | @literal p t c hq _ ih =>
    by_cases hs : c = '*'
    · exact hs ▸ .star ['*'] ih
    · exact .literal hs hq ih

theorem Glob.reads (hname : '*' ∉ t) (h : Glob p t) : Reads p t := by
  induction h with
  | nil => exact .nil
  | @star p t s _ ih =>
    refine .star s (fun hhead => hname (mem_of_head? hhead)) (ih fun hmem => hname ?_)
    exact mem_append_right s hmem
  | any c _ ih => exact .any c (ih fun hmem => hname (mem_cons_of_mem c hmem))
  | literal _ hq _ ih => exact .literal hq (ih fun hmem => hname (mem_cons_of_mem _ hmem))

theorem Reads.suffix (h : Reads ('*' :: p) t) : ∃ s, s <:+ t ∧ Reads p s := by
  cases h with
  | star s _ h => exact ⟨_, suffix_append _ _, h⟩
  | literal _ h => exact ⟨_, suffix_cons _ _, h⟩

theorem reads_nil_iff : Reads p [] ↔ p.all (· = '*') := by
  induction p with
  | nil => exact iff_of_true .nil rfl
  | cons x p ih =>
    rw [all_cons, Bool.and_eq_true, decide_eq_true_eq, ← ih]
    constructor
    · intro h
      generalize ht : [] = t at h
      cases h with
      | star s _ h =>
        obtain ⟨rfl, rfl⟩ := append_eq_nil_iff.mp ht.symm
        exact ⟨rfl, h⟩
      | any | literal => cases ht
    · rintro ⟨rfl, h⟩
      exact .star [] nofun h

/-- What the loop can still find: a text of the rest of the pattern, or a shorter one of the star. -/
def Reach (p t : List Char) (star : Option (List Char)) (retry : List Char) : Prop :=
  Reads p t ∨ ∃ q ∈ star, ∃ s, s <:+ retry ∧ s.length < retry.length ∧ Reads q s

theorem reach_restart : Reach p t (some p) t ↔ ∃ s, s <:+ t ∧ Reads p s := by
  constructor
  · rintro (h | ⟨q, hq, s, hs, -, h⟩)
    · exact ⟨t, suffix_rfl, h⟩
    · cases hq
      exact ⟨s, hs, h⟩
  · rintro ⟨s, hs, h⟩
    obtain heq | hlt := hs.length_le.eq_or_lt
    · exact .inl (hs.eq_of_length heq ▸ h)
    · exact .inr ⟨p, rfl, s, hs, hlt, h⟩

theorem reach_of_matchLoop {h : t.length ≤ retry.length} (hm : matchLoop p t star retry h) :
    Reach p t star retry := by
  fun_induction matchLoop p t star retry h with
  | case1 p star retry => exact .inl (reads_nil_iff.mpr hm)
  | case2 p star retry c t _ hc _ ih =>
    refine (ih hm).imp_left fun h => ?_
    by_cases hq : p.head? = some '?'
    · obtain ⟨p, rfl⟩ := head?_eq_some_iff.mp hq
      exact .any c h
    · have hc := hc.resolve_left hq
      obtain ⟨p, rfl⟩ := head?_eq_some_iff.mp hc
      exact .literal (by simpa using hq) h
  | case3 p star retry c t _ hc hs _ ih =>
    obtain ⟨p, rfl⟩ := head?_eq_some_iff.mp hs
    obtain ⟨s, ⟨u, heq⟩, h⟩ := reach_restart.mp (ih hm)
    have hno : (u ++ s).head? ≠ some '*' := by
      rintro hhead
      rw [heq] at hhead
      cases hhead
      exact hc (.inr rfl)
    exact .inl (heq ▸ .star u hno h)
  | case4 p star retry c t hle hc hs _ ih =>
    cases star with
    | none => cases hm
    | some q =>
      obtain ⟨s, hs, h⟩ := reach_restart.mp (ih q hm)
      have := hs.length_le
      refine .inr ⟨q, rfl, s, hs.trans (tail_suffix _), ?_, h⟩
      simp at this hle
      omega

/-- Since the last star, the loop has read the name character by character, and a star of the pattern
only where the name has one. -/
def Since (p t : List Char) (star : Option (List Char)) (retry : List Char) : Prop :=
  ∀ q ∈ star, ∃ u w, q = u ++ p ∧ retry = w ++ t ∧ Forall₂ (fun x c => x = '*' → c = '*') u w

theorem since_restart : Since p t (some p) t := by
  rintro q ⟨⟩
  exact ⟨[], [], rfl, rfl, .nil⟩

/-- Whoever reads the same part of the pattern from a later place on is not ahead of the loop. -/
theorem Reads.behind (hread : Forall₂ (fun x c => x = '*' → c = '*') u w) (hs : s <:+ w ++ t)
    (h : Reads (u ++ p) s) : ∃ r, r <:+ t ∧ Reads p r := by
  induction hread generalizing s with
  | nil => exact ⟨s, hs, h⟩
  | @cons x c u w hxc _ ih =>
    have hs := suffix_cons_iff.mp hs
    cases h with
    | @star _ r v hno h =>
      -- the loop has read a star here, so this one is tried further on
      refine ih ((suffix_append v r).trans (hs.resolve_left fun heq => hno ?_)) h
      rw [heq, hxc rfl]
      rfl
    | @any _ r _ h | @literal _ r _ _ h =>
      refine ih (hs.elim (fun heq => ?_) (suffix_cons _ r).trans) h
      cases heq
      exact suffix_rfl

/-- Going back to the last star is enough: what an earlier one leads to, the last one does too. -/
theorem matchLoop_of_reach {h : t.length ≤ retry.length} (hsince : Since p t star retry)
    (hm : Reach p t star retry) : matchLoop p t star retry h := by
  fun_induction matchLoop p t star retry h with
  | case1 p star retry =>
    refine reads_nil_iff.mp ?_
    obtain h | ⟨q, hq, s, hs, -, h⟩ := hm
    · exact h
    obtain ⟨u, w, rfl, rfl, hread⟩ := hsince q hq
    obtain ⟨r, hr, h⟩ := h.behind hread hs
    exact suffix_nil.mp hr ▸ h
  | case2 p star retry c t _ hc _ ih =>
    obtain ⟨x, p, rfl, hx⟩ : ∃ x p', p = x :: p' ∧ (x = '?' ∨ x = c) := by
      cases p with
      | nil => simp at hc
      | cons x p => exact ⟨x, p, rfl, by simpa using hc⟩
    refine ih (fun q hq => ?_) (hm.imp_left fun h => ?_)
    · obtain ⟨u, w, rfl, rfl, hread⟩ := hsince q hq
      refine ⟨u ++ [x], w ++ [c], by simp, by simp, rel_append hread (.cons ?_ .nil)⟩
      rintro rfl
      exact (hx.resolve_left (by decide)).symm
    · generalize ht : c :: t = t' at h
      cases h with
      | star s hno =>
        rw [← ht] at hno
        exact absurd (hx.resolve_left (by decide)) fun hstar => hno (hstar ▸ rfl)
      | any | literal => cases ht; assumption
  | case3 p star retry c t _ hc hs _ ih =>
    obtain ⟨p, rfl⟩ := head?_eq_some_iff.mp hs
    refine ih since_restart (reach_restart.mpr ?_)
    obtain h | ⟨q, hq, s, hs, -, h⟩ := hm
    · exact h.suffix
    obtain ⟨u, w, rfl, rfl, hread⟩ := hsince q hq
    obtain ⟨r, hr, h⟩ := h.behind hread hs
    obtain ⟨v, hv, h⟩ := h.suffix
    exact ⟨v, hv.trans hr, h⟩
  | case4 p star retry c t _ hc hs _ ih =>
    have hnot : ¬ Reads p (c :: t) := by
      intro h
      generalize ht : c :: t = t' at h
      cases h with
      | nil => cases ht
      | star => simp at hs
      | any => simp at hc
      | literal =>
        cases ht
        simp at hc
    obtain ⟨q, rfl, s, hs, hlt, h⟩ := hm.resolve_left hnot
    refine ih q since_restart
      (reach_restart.mpr ⟨s, suffix_of_suffix_length_le hs (tail_suffix _) ?_, h⟩)
    simp
    omega

/-- What the pattern should take in. -/
def FilePattern.Denotes (pattern : FilePattern) (name : String) : Prop :=
  (name.toList.head? = some '.' → pattern.filename.toList.head? = some '.') ∧
    Glob pattern.filename.toList name.toList

/-- Only names of the pattern are taken in. A name is missed exactly if it can be read off the pattern
only with a star in place of a text that begins with one, which takes a star in the name. -/
theorem matches_iff_denotes (pattern : FilePattern) (name : String) :
    (pattern.matches name → pattern.Denotes name) ∧
      (name.utf8ByteSize ≤ 4096 → '/' ∉ name.toList → '\x00' ∉ name.toList →
        ((pattern.matches name ↔ pattern.Denotes name) ↔
          (pattern.Denotes name → Reads pattern.filename.toList name.toList)) ∧
        ('*' ∉ name.toList → (pattern.matches name ↔ pattern.Denotes name))) := by
  have hreads : pattern.matches name → pattern.Denotes name ∧
      Reads pattern.filename.toList name.toList := by
    intro h
    simp only [FilePattern.matches] at h
    split_ifs at h with hno
    push Not at hno
    have hread := (reach_of_matchLoop h).resolve_right (by rintro ⟨q, hq, -⟩; cases hq)
    exact ⟨⟨hno.2.2.2, hread.glob⟩, hread⟩
  have hsound : pattern.matches name → pattern.Denotes name := fun h => (hreads h).1
  refine ⟨hsound, fun hlen hslash hnul => ?_⟩
  have hfind : pattern.Denotes name → Reads pattern.filename.toList name.toList →
      pattern.matches name := by
    intro hden hread
    rw [FilePattern.matches, if_neg (by push Not; exact ⟨hlen, hslash, hnul, hden.1⟩)]
    exact matchLoop_of_reach nofun (.inl hread)
  refine ⟨⟨fun hiff hden => (hreads (hiff.mpr hden)).2, fun hread =>
    ⟨hsound, fun hden => hfind hden (hread hden)⟩⟩, fun hname => ⟨hsound, fun hden => ?_⟩⟩
  exact hfind hden (hden.2.reads hname)

/-- The star of the name uses up the one of the pattern, and there is none to go back to. -/
theorem matches_star : (FilePattern.mk "conf" "*.yml").matches "*b.yml" = false ∧
    (FilePattern.mk "conf" "*.yml").Denotes "*b.yml" := by
  refine ⟨?_, nofun, .star ['*', 'b'] ?_⟩
  · rw [FilePattern.matches, if_neg (by decide)]
    change matchLoop ('*' :: _) ('*' :: 'b' :: _) none _ _ = false
    rw [matchLoop, dif_pos (by decide), matchLoop, dif_neg (by decide), dif_neg (by decide)]
    rfl
  · exact Reads.glob (.literal nofun (.literal nofun (.literal nofun (.literal nofun .nil))))

end NasaRuntime.Naml
