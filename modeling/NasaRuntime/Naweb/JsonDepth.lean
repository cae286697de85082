import Mathlib.Data.List.Basic

/-!
# The depth of a JSON text

Before a JSON text is parsed, a scan of its bytes bounds the nesting of its containers. The scan does
not know the grammar: it only leaves out what stands in strings. On a JSON text it finds the true
depth, and on any text a parser that stops at the first error meets no more containers than it allows.
-/

namespace NasaRuntime.Naweb

structure Scan where
  depth : ℕ
  inString : Bool
  escaped : Bool

/-- One byte of the scan, `none` if the limit is passed. -/
def Scan.step (maxDepth : ℕ) (s : Scan) (byte : UInt8) : Option Scan :=
  if s.inString then
    if s.escaped then some { s with escaped := false }
    else if byte = 92 then some { s with escaped := true }
    else if byte = 34 then some { s with inString := false }
    else some s
  else if byte = 34 then some { s with inString := true }
  else if byte = 123 ∨ byte = 91 then
    if s.depth + 1 > maxDepth then none else some { s with depth := s.depth + 1 }
  else if byte = 125 ∨ byte = 93 then some { s with depth := s.depth - 1 }
  else some s

def scan (maxDepth : ℕ) (s : Scan) (bytes : List UInt8) : Option Scan :=
  bytes.foldlM (Scan.step maxDepth) s

def jsonDepthWithinLimit (bytes : List UInt8) (maxDepth : ℕ) : Bool :=
  (scan maxDepth ⟨0, false, false⟩ bytes).isSome

/-! ## JSON texts -/

/-- A part of a JSON text: a bracket, or anything between two of them. -/
inductive Token
  | opening (b : UInt8)
  | closing (b : UInt8)
  | text (bytes : List UInt8)

def Token.bytes : Token → List UInt8
  | opening b | closing b => [b]
  | text bytes => bytes

def render (ts : List Token) : List UInt8 := ts.flatMap Token.bytes

/-- How many containers are open after a token, if `k` are before it. -/
def Token.open (k : ℕ) : Token → ℕ
  | opening _ => k + 1
  | closing _ => k - 1
  | text _ => k

/-- How many containers are open after the first `n` bytes of a text. -/
def openAfter (k n : ℕ) : List Token → ℕ
  | [] => k
  | t :: ts => if t.bytes.length ≤ n then openAfter (t.open k) (n - t.bytes.length) ts else k

def Ws (b : List UInt8) : Prop := ∀ x ∈ b, x ∈ ([32, 9, 10, 13] : List UInt8)

def Digits (b : List UInt8) : Prop := b ≠ [] ∧ ∀ x ∈ b, 48 ≤ x ∧ x ≤ 57

def Number (b : List UInt8) : Prop :=
  ∃ sign int frac exp, b = sign ++ int ++ frac ++ exp ∧ sign ∈ [[], [45]] ∧
    Digits int ∧ (int.head? = some 48 → int = [48]) ∧
    (frac = [] ∨ ∃ l, frac = 46 :: l ∧ Digits l) ∧
    (exp = [] ∨ ∃ e l, exp = e ++ l ∧ Digits l ∧
      e ∈ [[69], [101], [69, 43], [101, 43], [69, 45], [101, 45]])

def isHex (x : UInt8) : Prop := 48 ≤ x ∧ x ≤ 57 ∨ 65 ≤ x ∧ x ≤ 70 ∨ 97 ≤ x ∧ x ≤ 102

/-- What stands between the quotes of a string. -/
inductive Body : List UInt8 → Prop
  | nil : Body []
  | plain {x l} (hx : 32 ≤ x ∧ x ≠ 34 ∧ x ≠ 92) (h : Body l) : Body (x :: l)
  | escape {x l} (hx : x ∈ ([34, 92, 47, 98, 102, 110, 114, 116] : List UInt8)) (h : Body l) :
    Body (92 :: x :: l)
  | unicode {u l} (hu : u.length = 4 ∧ ∀ x ∈ u, isHex x) (h : Body l) : Body (92 :: 117 :: u ++ l)

def Str (b : List UInt8) : Prop := ∃ l, Body l ∧ b = 34 :: l ++ [34]

/-- `true`, `false`, `null`, a number or a string. -/
def Scalar (b : List UInt8) : Prop :=
  b ∈ [[116, 114, 117, 101], [102, 97, 108, 115, 101], [110, 117, 108, 108]] ∨ Number b ∨ Str b

inductive Kind
  | array
  | object

/-- What stands before a value in a container. -/
inductive Lead : Kind → List Token → Prop
  | array {w} (hw : Ws w) : Lead .array [.text w]
  | object {w s w' w''} (hw : Ws w) (hs : Str s) (hw' : Ws w') (hw'' : Ws w'') :
    Lead .object [.text w, .text s, .text w', .text [58], .text w'']

def brackets : List (UInt8 × UInt8) := [(91, 93), (123, 125)]

/-- A value (`none`) or the values of a container, and how deep its containers are nested. -/
inductive Json : Option Kind → ℕ → List Token → Prop
  | scalar {b} (h : Scalar b) : Json none 0 [.text b]
  | empty {o c w} (hb : (o, c) ∈ brackets) (hw : Ws w) :
    Json none 1 [.opening o, .text w, .closing c]
  | array {d ts} (h : Json (some .array) d ts) : Json none (d + 1) (.opening 91 :: ts ++ [.closing 93])
  | object {d ts} (h : Json (some .object) d ts) :
    Json none (d + 1) (.opening 123 :: ts ++ [.closing 125])
  | item {kind lead d ts w} (hl : Lead kind lead) (h : Json none d ts) (hw : Ws w) :
    Json (some kind) d (lead ++ ts ++ [.text w])
  | comma {kind d e ts us} (h : Json (some kind) d ts) (h' : Json (some kind) e us) :
    Json (some kind) (max d e) (ts ++ [.text [44]] ++ us)

def Document (d : ℕ) (ts : List Token) : Prop :=
  ∃ w us w', Ws w ∧ Json none d us ∧ Ws w' ∧ ts = [.text w] ++ us ++ [.text w']

/-! ## The scan of a JSON text -/

open List

variable {m k d e : ℕ} {b l p : List UInt8} {ts us : List Token} {kind : Option Kind}

/-- The scan outside of strings. -/
abbrev out (k : ℕ) : Scan := ⟨k, false, false⟩

abbrev quoted (k : ℕ) : Scan := ⟨k, true, false⟩

theorem scan_cons (s : Scan) (x : UInt8) : scan m s (x :: b) = (s.step m x).bind (scan m · b) :=
  foldlM_cons

theorem scan_append (s : Scan) : scan m s (b ++ l) = (scan m s b).bind (scan m · l) :=
  foldlM_append ..

/-- No quote and no bracket. -/
abbrev Plain (b : List UInt8) : Prop := ∀ x ∈ b, x ∉ ([34, 91, 93, 123, 125] : List UInt8)

/-- The scan passes over plain text, and over a string with all that is in it. -/
theorem scan_plain (h : Plain b) : scan m (out k) b = some (out k) := by
  induction b with
  | nil => rfl
  | cons x b ih =>
    rw [Plain, forall_mem_cons] at h
    rw [scan_cons, show Scan.step m (out k) x = some (out k) by grind [Scan.step]]
    exact ih h.2

theorem scan_body (h : Body b) : scan m (quoted k) b = some (quoted k) := by
  have hplain {x : UInt8} {l : List UInt8} (hx : x ≠ 34 ∧ x ≠ 92)
      (h : scan m (quoted k) l = some (quoted k)) : scan m (quoted k) (x :: l) = some (quoted k) := by
    rw [scan_cons, show Scan.step m (quoted k) x = some (quoted k) by grind [Scan.step]]
    exact h
  induction h with
  | nil => rfl
  | plain hx _ ih => exact hplain hx.2 ih
  | escape _ _ ih => exact ih
  | @unicode u l hu _ ih =>
    change scan m (quoted k) (u ++ l) = _
    obtain ⟨-, hu⟩ := hu
    induction u with
    | nil => exact ih
    | cons x u ihu =>
      rw [forall_mem_cons] at hu
      exact hplain (by grind [isHex]) (ihu hu.2)

theorem scan_str (h : Str b) : scan m (out k) b = some (out k) := by
  obtain ⟨l, hl, rfl⟩ := h
  change scan m (quoted k) (l ++ [34]) = _
  rw [scan_append, scan_body hl]
  rfl

theorem plain_digits (h : Digits b) : Plain b := by
  intro x hx
  obtain ⟨hle, hge⟩ := h.2 x hx
  grind

theorem scan_scalar (h : Scalar b) : scan m (out k) b = some (out k) := by
  obtain h | ⟨sign, int, frac, exp, rfl, hs, hi, -, hf, he⟩ | h := h
  · exact scan_plain (by revert b; decide +kernel)
  · have hsign : Plain sign := by revert sign; decide +kernel
    have hfrac : Plain frac := by
      obtain rfl | ⟨l, rfl, hl⟩ := hf
      · exact fun _ h => by cases h
      · exact forall_mem_cons.mpr ⟨by decide, plain_digits hl⟩
    have hexp : Plain exp := by
      obtain rfl | ⟨e, l, rfl, hl, he⟩ := he
      · exact fun _ h => by cases h
      · have he : Plain e := by revert e; decide +kernel
        exact forall_mem_append.mpr ⟨he, plain_digits hl⟩
    refine scan_plain ?_
    simp only [Plain, forall_mem_append]
    exact ⟨⟨⟨hsign, plain_digits hi⟩, hfrac⟩, hexp⟩
  · exact scan_str h

/-- The scan takes a token as a whole, and rejects it if that opens too many containers. -/
def Whole (t : Token) : Prop :=
  ∀ m k, k ≤ m → scan m (out k) t.bytes = if t.open k ≤ m then some (out (t.open k)) else none

structure Passes (d : ℕ) (ts : List Token) : Prop where
  whole : ∀ t ∈ ts, Whole t
  returns : ∀ m k, k ≤ m → scan m (out k) (render ts) = if k + d ≤ m then some (out k) else none

theorem passes_text (h : ∀ m k, scan m (out k) b = some (out k)) : Passes 0 [.text b] where
  whole t ht m k hk := by
    rw [mem_singleton.mp ht]
    exact (h m k).trans (if_pos hk).symm
  returns m k hk := by
    rw [show render [.text b] = b from append_nil b, h]
    exact (if_pos hk).symm

theorem Passes.append (h : Passes d ts) (h' : Passes e us) : Passes (max d e) (ts ++ us) where
  whole := forall_mem_append.mpr ⟨h.whole, h'.whole⟩
  returns m k hk := by
    rw [show render (ts ++ us) = render ts ++ render us from flatMap_append .., scan_append,
      h.returns m k hk]
    split_ifs with hd hmax hmax
    · exact (h'.returns m k hk).trans (if_pos (by omega))
    · exact (h'.returns m k hk).trans (if_neg (by omega))
    · omega
    · rfl

theorem Passes.wrap {o c : UInt8} (hb : (o, c) ∈ brackets) (h : Passes d ts) :
    Passes (d + 1) (.opening o :: ts ++ [.closing c]) := by
  have ho (m k : ℕ) : (out k).step m o = if k + 1 ≤ m then some (out (k + 1)) else none := by
    grind [Scan.step, brackets]
  have hc (m k : ℕ) : scan m (out k) [c] = some (out (k - 1)) := by
    rw [scan_cons, show (out k).step m c = some (out (k - 1)) by grind [Scan.step, brackets]]
    rfl
  constructor
  · simp only [cons_append, forall_mem_cons, forall_mem_append]
    refine ⟨fun m k hk => ?_, h.whole, fun m k hk => ?_, nofun⟩
    · rw [Token.bytes, scan_cons, ho, Token.open]
      split_ifs <;> rfl
    · exact (hc m k).trans (if_pos (Nat.le_trans (Nat.sub_le k 1) hk)).symm
  · intro m k hk
    rw [show render (.opening o :: ts ++ [.closing c]) = o :: (render ts ++ [c]) by
      simp [render, Token.bytes], scan_cons, ho]
    split_ifs with hlt hd hd
    · rw [Option.bind_some, scan_append, h.returns m (k + 1) hlt, if_pos (by omega)]
      exact hc m (k + 1)
    · rw [Option.bind_some, scan_append, h.returns m (k + 1) hlt, if_neg (by omega)]
      rfl
    · omega
    · rfl

theorem passes_ws (h : Ws b) : Passes 0 [.text b] :=
  passes_text fun _ _ => scan_plain fun x hx => by grind [Ws]

theorem passes_json (h : Json kind d ts) : Passes d ts := by
  have hsep (x : UInt8) (hx : Plain [x]) : Passes 0 [.text [x]] :=
    passes_text fun _ _ => scan_plain hx
  induction h with
  | scalar h => exact passes_text fun _ _ => scan_scalar h
  | empty hb hw => exact (passes_ws hw).wrap hb
  | array _ ih => exact ih.wrap (by decide)
  | object _ ih => exact ih.wrap (by decide)
  | @item kind lead d ts w hl _ hw ih =>
    have hlead : Passes 0 lead := by
      cases hl with
      | array hw => exact passes_ws hw
      | object hw hs hw' hw'' =>
        have hkey := (passes_ws hw).append (passes_text fun _ _ => scan_str hs)
        exact (hkey.append (passes_ws hw')).append ((hsep 58 (by simp [Plain])).append (passes_ws hw''))
    simpa using (hlead.append ih).append (passes_ws hw)
  | comma _ _ ih ih' => simpa using (ih.append (hsep 44 (by simp [Plain]))).append ih'

theorem depth_of_scan (h : ∀ t ∈ ts, Whole t) (hk : k ≤ m) (hp : p <+: render ts)
    (hs : (scan m (out k) p).isSome) : openAfter k p.length ts ≤ m := by
  induction ts generalizing k p with
  | nil => exact hk
  | cons t ts ih =>
    rw [forall_mem_cons] at h
    rw [openAfter]
    split_ifs with hlen
    · obtain ⟨p, rfl⟩ := prefix_of_prefix_length_le (prefix_append t.bytes (render ts)) hp hlen
      rw [scan_append, h.1 m k hk] at hs
      rw [length_append, Nat.add_sub_cancel_left]
      split_ifs at hs with hle
      · exact ih h.2 hle ((prefix_append_right_inj _).mp hp) hs
      · cases hs
    · exact hk

/-- The scan accepts a JSON text exactly if its containers are not nested too deeply, and where it
accepts a text, no more containers are open after any prefix of it that a JSON text begins with. -/
theorem jsonDepthWithinLimit_spec (limit : ℕ) :
    (∀ d ts, Document d ts → (jsonDepthWithinLimit (render ts) limit ↔ d ≤ limit)) ∧
    ∀ bytes p d ts, jsonDepthWithinLimit bytes limit → p <+: bytes → Document d ts →
      p <+: render ts → openAfter 0 p.length ts ≤ limit := by
  have hdoc {d ts} (h : Document d ts) : Passes d ts := by
    obtain ⟨w, us, w', hw, h, hw', rfl⟩ := h
    simpa using ((passes_ws hw).append (passes_json h)).append (passes_ws hw')
  refine ⟨fun d ts h => ?_, fun bytes p d ts hok hp h hts => ?_⟩
  · rw [jsonDepthWithinLimit, (hdoc h).returns limit 0 (Nat.zero_le _), Nat.zero_add]
    split_ifs with hd
    · exact iff_of_true rfl hd
    · exact iff_of_false nofun hd
  · obtain ⟨rest, rfl⟩ := hp
    rw [jsonDepthWithinLimit, scan_append] at hok
    exact depth_of_scan (hdoc h).whole (Nat.zero_le _) hts (Option.isSome_of_isSome_bind hok)

end NasaRuntime.Naweb
