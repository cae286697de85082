import Mathlib.Algebra.Order.Ring.Nat
import NasaRuntime.Lib.Check
import NasaRuntime.Lib.Dict

/-!
# Readers and writers of bytes

A writer is a function into bytes. A reader takes what it needs from the front of the input and leaves
the rest, or fails. `Restores p e W` relates them in one direction: on the values that meet `W` the
reader `p` undoes the writer `e`, whatever follows. `Reads p e W` says in addition that what `p`
accepts is the writing of such a value.

**Theorem (`Restores.bind`, `Reads.bind`).** One line: a part of the value is read, and the rest of the
reader knows it.

**Theorem (`Reads.replicate`, `Restores.entries`, `Restores.framed`).** Counted lists, dictionaries, and
bytes behind their length.

**Theorem (`Sealing.canonical`).** A decoder that compares the encoding of its result with its input
accepts encodings only, and all those it can parse.
-/

namespace NasaRuntime

open List

/-! ## Numbers -/

/-- The number in `w` bytes, the most significant one first. -/
def be : ℕ → ℕ → List UInt8
  | 0, _ => []
  | w + 1, n => UInt8.ofNat (n / 256 ^ w) :: be w (n % 256 ^ w)

def ofBe : List UInt8 → ℕ
  | [] => 0
  | b :: bytes => b.toNat * 256 ^ bytes.length + ofBe bytes

@[simp] theorem length_be (w n : ℕ) : (be w n).length = w := by
  induction w generalizing n with
  | zero => rfl
  | succ w ih => simp [be, ih]

theorem ofBe_lt (bytes : List UInt8) : ofBe bytes < 256 ^ bytes.length := by
  induction bytes with
  | nil => simp [ofBe]
  | cons b bytes ih =>
    have hb : b.toNat + 1 ≤ 256 := b.toNat_lt
    calc ofBe (b :: bytes) < b.toNat * 256 ^ bytes.length + 256 ^ bytes.length := by
          simpa [ofBe] using ih
      _ = (b.toNat + 1) * 256 ^ bytes.length := by rw [Nat.add_mul, Nat.one_mul]
      _ ≤ 256 * 256 ^ bytes.length := Nat.mul_le_mul_right _ hb
      _ = 256 ^ (b :: bytes).length := by rw [length_cons, Nat.pow_succ, Nat.mul_comm]

theorem ofBe_be {w n : ℕ} (h : n < 256 ^ w) : ofBe (be w n) = n := by
  induction w generalizing n with
  | zero =>
    have : n = 0 := by simpa using h
    subst this
    rfl
  | succ w ih =>
    have hpos : 0 < 256 ^ w := Nat.pow_pos (by decide)
    have hdig : n / 256 ^ w < 256 := by
      rw [Nat.div_lt_iff_lt_mul hpos]
      rwa [Nat.pow_succ, Nat.mul_comm] at h
    have hbyte : (UInt8.ofNat (n / 256 ^ w)).toNat = n / 256 ^ w := by
      rw [UInt8.toNat_ofNat']
      exact Nat.mod_eq_of_lt hdig
    rw [be, ofBe, length_be, hbyte, ih (Nat.mod_lt n hpos), Nat.div_add_mod']

theorem be_ofBe (bytes : List UInt8) : be bytes.length (ofBe bytes) = bytes := by
  induction bytes with
  | nil => rfl
  | cons b bytes ih =>
    have hlt := ofBe_lt bytes
    have hpos : 0 < 256 ^ bytes.length := Nat.pow_pos (by decide)
    have hdiv : ofBe (b :: bytes) / 256 ^ bytes.length = b.toNat := by
      rw [ofBe, Nat.add_comm, Nat.add_mul_div_right _ _ hpos, Nat.div_eq_of_lt hlt, Nat.zero_add]
    have hmod : ofBe (b :: bytes) % 256 ^ bytes.length = ofBe bytes := by
      rw [ofBe, Nat.add_comm, Nat.add_mul_mod_self_right, Nat.mod_eq_of_lt hlt]
    rw [length_cons, be, hdiv, hmod, ih, UInt8.ofNat_toNat]

/-! ## Text -/

/-- The bytes of a text. -/
def utf8 (s : String) : List UInt8 := s.toByteArray.data.toList

/-- The text of these bytes, if they are well formed. -/
def fromUtf8 (bytes : List UInt8) : Option String := String.fromUTF8? ⟨⟨bytes⟩⟩

variable {s : String} {input : List UInt8}

theorem fromUtf8_eq_some {bytes : List UInt8} : fromUtf8 bytes = some s ↔ utf8 s = bytes := by
  unfold fromUtf8 utf8 String.fromUTF8?
  constructor
  · intro h
    split at h
    · cases h
      rfl
    · cases h
  · intro h
    subst h
    exact dif_pos s.isValidUTF8

theorem utf8_injective : Function.Injective utf8 := by
  intro s t h
  have hs := fromUtf8_eq_some.2 h
  rw [fromUtf8_eq_some.2 rfl] at hs
  exact (Option.some.inj hs).symm

/-! ## Readers -/

/-- A computation on the rest of the input. -/
abbrev Reader (ε : Type) := StateT (List UInt8) (Except ε)

variable {ε α β : Type}

namespace Reader

/-- The next bytes of the input. -/
def take (short : ε) (n : ℕ) : Reader ε (List UInt8) := fun input =>
  if input.length < n then .error short else .ok (input.take n, input.drop n)

/-- The next number of the given width. -/
def nat (short : ε) (w : ℕ) : Reader ε ℕ := ofBe <$> take short w

def int32 (short : ε) : Reader ε Int32 := (fun n => (UInt32.ofNat n).toInt32) <$> nat short 4

def int64 (short : ε) : Reader ε Int64 := (fun n => (UInt64.ofNat n).toInt64) <$> nat short 8

/-- A value so often, in order. -/
def replicate (p : Reader ε α) : ℕ → Reader ε (List α)
  | 0 => pure []
  | n + 1 => do
    let a ← p
    let rest ← replicate p n
    return a :: rest

/-- A text behind its length in two bytes, of accepted bytes only. -/
def text (bad : ε) (limit : ℕ) (accept : UInt8 → Bool) (empty : Bool) : Reader ε String := do
  let length ← nat bad 2
  if (!empty && length == 0) ∨ limit < length then throw bad
  else do
    let bytes ← take bad length
    if !bytes.all accept then throw bad
    else
      match fromUtf8 bytes with
      | none => throw bad
      | some s => return s

/-- Exactly these bytes. -/
def expect (bad : ε) (bytes : List UInt8) : Reader ε Unit := do
  let found ← take bad bytes.length
  if found ≠ bytes then throw bad
  else return

/-- So many entries, with different keys, are added to a dictionary. -/
def entries {κ ν : Type} [LinearOrder κ] (bad : ε) (p : Reader ε (κ × ν)) :
    ℕ → Dict κ ν → Reader ε (Dict κ ν)
  | 0, d => pure d
  | n + 1, d => do
    let e ← p
    if (d.get? e.1).isSome then throw bad
    else entries bad p n (d.insert e.1 e.2)

/-- A value that takes the whole input. -/
def whole (bad : ε) (p : Reader ε α) (input : List UInt8) : Except ε α := do
  let (a, rest) ← p input
  if rest ≠ [] then throw bad else return a

end Reader

/-! ## Writers -/

namespace Writer

def int32 (i : Int32) : List UInt8 := be 4 i.toUInt32.toNat

def int64 (i : Int64) : List UInt8 := be 8 i.toUInt64.toNat

/-- A text behind its length, which is cut to two bytes. -/
def text (s : String) : List UInt8 := be 2 ((utf8 s).length % 2 ^ 16) ++ utf8 s

@[simp] theorem length_int32 (i : Int32) : (int32 i).length = 4 := length_be _ _

@[simp] theorem length_int64 (i : Int64) : (int64 i).length = 8 := length_be _ _

@[simp] theorem length_text (s : String) : (text s).length = 2 + (utf8 s).length := by simp [text]

end Writer

/-- The lengths of the writings of a list add up. -/
theorem length_flatMap_le {e : α → List UInt8} {bound : ℕ} {l : List α}
    (h : ∀ a ∈ l, (e a).length ≤ bound) : (l.flatMap e).length ≤ l.length * bound := by
  induction l with
  | nil => simp
  | cons a l ih =>
    have ha := h a mem_cons_self
    have hl := ih fun x hx => h x (mem_cons_of_mem a hx)
    rw [flatMap_cons, length_append, length_cons, Nat.add_mul, Nat.one_mul]
    omega

/-! ## Reading what was written -/

variable {p : Reader ε α} {q : Reader ε β} {e : α → List UInt8} {e' : β → List UInt8} {V : β → Prop}
  {W : α → Prop} {bad : ε} {a : α} {f : β → Reader ε α}

theorem read_bind_eq_ok {rest : List UInt8} :
    (q >>= f) input = .ok (a, rest) ↔ ∃ b mid, q input = .ok (b, mid) ∧ f b mid = .ok (a, rest) := by
  show (Except.bind (q input) fun x => f x.1 x.2) = _ ↔ _
  cases q input with
  | error e => simp [Except.bind]
  | ok x =>
    obtain ⟨b, mid⟩ := x
    simp [Except.bind]

/-- The reader undoes the writer on the values that meet `W`, whatever follows. -/
def Restores (p : Reader ε α) (e : α → List UInt8) (W : α → Prop) : Prop :=
  ∀ a rest, W a → p (e a ++ rest) = .ok (a, rest)

variable {c : Prop} {x : α} {least most : ℕ}

namespace Restores

/-- **One line of a reader.** -/
theorem bind (g : α → β) (hq : Restores q e' V) (hV : ∀ a, W a → V (g a))
    (hf : ∀ b, V b → Restores (f b) e fun a => W a ∧ g a = b) :
    Restores (q >>= f) (fun a => e' (g a) ++ e a) W := by
  intro a rest ha
  rw [append_assoc]
  exact read_bind_eq_ok.2 ⟨g a, e a ++ rest, hq _ _ (hV a ha), hf _ (hV a ha) a rest ⟨ha, rfl⟩⟩

/-- The end of a reader: everything has been read. -/
theorem pure (h : ∀ a, W a → a = x) : Restores (pure x : Reader ε α) (fun _ => []) W := by
  intro a rest ha
  rw [h a ha]
  rfl

theorem last (g : α → β) (hq : Restores q e' V) (hV : ∀ a, W a → V (g a))
    (hf : ∀ b, V b → Restores (f b) (fun _ => []) fun a => W a ∧ g a = b) :
    Restores (q >>= f) (fun a => e' (g a)) W := by
  simpa using hq.bind g hV hf

/-- **A check that no value of the writer fails.** -/
theorem guard [Decidable c] (hc : ∀ a, W a → ¬ c) (hp : Restores p e W) :
    Restores (if c then throw bad else p) e W := by
  intro a rest ha
  rw [if_neg (hc a ha)]
  exact hp a rest ha

/-- A fixed mark before the value. -/
theorem expect {f : Unit → Reader ε α} {mark : List UInt8} (hf : Restores (f ()) e W) :
    Restores (Reader.expect bad mark >>= f) (fun a => mark ++ e a) W := by
  intro a rest ha
  refine read_bind_eq_ok.2 ⟨(), e a ++ rest, ?_, hf a rest ha⟩
  refine read_bind_eq_ok.2 ⟨mark, e a ++ rest, ?_, ?_⟩
  · simp [Reader.take]
  · rw [if_neg (not_not.2 rfl)]
    rfl

/-- **A counted list.** -/
theorem replicate (hp : Restores p e W) (n : ℕ) :
    Restores (Reader.replicate p n) (fun l => l.flatMap e)
      fun l => l.length = n ∧ ∀ a ∈ l, W a := by
  induction n with
  | zero =>
    intro l rest hl
    rw [length_eq_zero_iff.1 hl.1]
    rfl
  | succ n ih =>
    intro l rest hl
    obtain ⟨a, l, rfl⟩ := exists_cons_of_length_eq_add_one hl.1
    obtain ⟨ha, hrest⟩ := forall_mem_cons.1 hl.2
    simp only [flatMap_cons, append_assoc]
    refine read_bind_eq_ok.2 ⟨a, _, hp _ _ ha, read_bind_eq_ok.2 ⟨l, _, ih _ _ ?_, rfl⟩⟩
    exact ⟨by simpa using hl.1, hrest⟩

/-- Nothing is left of the input. -/
theorem whole (hp : Restores p e W) (ha : W a) : Reader.whole bad p (e a) = .ok a := by
  have hread := hp a [] ha
  rw [append_nil] at hread
  rw [Reader.whole, hread]
  rfl

/-- A dictionary is restored from its entries in order. -/
theorem entries {κ ν : Type} [LinearOrder κ] {p : Reader ε (κ × ν)} {e : κ × ν → List UInt8}
    {V : κ × ν → Prop} (hp : Restores p e V) (n : ℕ) :
    Restores (Reader.entries bad p n ∅) (fun d : Dict κ ν => d.entries.flatMap e)
      fun d => d.entries.length = n ∧ ∀ x ∈ d.entries, V x := by
  -- what has been added is a first part of the entries, and the rest is read
  suffices h : ∀ (n : ℕ) (d d' : Dict κ ν) (todo : List (κ × ν)),
      d'.entries = d.entries ++ todo → todo.length = n → (∀ x ∈ todo, V x) → ∀ rest,
      Reader.entries bad p n d (todo.flatMap e ++ rest) = .ok (d', rest) by
    intro d rest hd
    exact h n ∅ d d.entries rfl hd.1 hd.2 rest
  intro n
  induction n with
  | zero =>
    intro d d' todo hents hlen _ rest
    obtain rfl := length_eq_zero_iff.1 hlen
    have hd : d' = d := Dict.ext (by simpa using hents)
    subst hd
    rfl
  | succ n ih =>
    intro d d' todo hents hlen hV rest
    match todo, hlen with
    | x :: todo, hlen =>
      have hbef : ∀ y ∈ d.entries, y.1 < x.1 := by
        have hsort := d'.sorted
        rw [hents] at hsort
        intro y hy
        exact (pairwise_append.1 hsort).2.2 y hy x mem_cons_self
      rw [flatMap_cons, append_assoc]
      refine read_bind_eq_ok.2 ⟨x, _, hp _ _ (hV x mem_cons_self), ?_⟩
      rw [Dict.get?_eq_none_of_lt hbef, if_neg (by simp)]
      refine ih _ d' todo ?_ (by simpa using hlen) (fun y hy => hV y (mem_cons_of_mem x hy)) rest
      rw [hents, Dict.entries_insert_of_lt hbef]
      simp

end Restores

/-- The reader undoes the writer on the values that meet `W`, and accepts nothing else. -/
structure Reads (p : Reader ε α) (e : α → List UInt8) (W : α → Prop) : Prop where
  complete : Restores p e W
  sound : ∀ input a rest, p input = .ok (a, rest) → W a ∧ input = e a ++ rest

namespace Reads

theorem bind (g : α → β) (hq : Reads q e' V) (hV : ∀ a, W a → V (g a))
    (hf : ∀ b, V b → Reads (f b) e fun a => W a ∧ g a = b) :
    Reads (q >>= f) (fun a => e' (g a) ++ e a) W := by
  constructor
  · exact hq.complete.bind g hV fun b hb => (hf b hb).complete
  · intro input a rest h
    obtain ⟨b, mid, hb, hmid⟩ := read_bind_eq_ok.1 h
    obtain ⟨hVb, rfl⟩ := hq.sound _ _ _ hb
    obtain ⟨⟨ha, rfl⟩, rfl⟩ := (hf b hVb).sound _ _ _ hmid
    exact ⟨ha, (append_assoc ..).symm⟩

theorem pure (h : ∀ a, W a ↔ a = x) : Reads (pure x : Reader ε α) (fun _ => []) W := by
  constructor
  · exact Restores.pure fun a => (h a).1
  · intro input a rest hread
    cases hread
    exact ⟨(h x).2 rfl, rfl⟩

theorem last (g : α → β) (hq : Reads q e' V) (hV : ∀ a, W a → V (g a))
    (hf : ∀ b, V b → Reads (f b) (fun _ => []) fun a => W a ∧ g a = b) :
    Reads (q >>= f) (fun a => e' (g a)) W := by
  simpa using hq.bind g hV hf

theorem refuse (h : ∀ a, ¬ W a) : Reads (throw bad : Reader ε α) e W := by
  constructor
  · intro a rest ha
    exact absurd ha (h a)
  · nofun

theorem guard [Decidable c] (hc : ∀ a, W a → ¬ c) (hp : ¬ c → Reads p e W) :
    Reads (if c then throw bad else p) e W := by
  by_cases h : c
  · rw [if_pos h]
    exact refuse fun a ha => hc a ha h
  · rw [if_neg h]
    exact hp h

theorem map (hp : Reads p e W) (f : α → β) (g : β → α) (hV : ∀ b, V b → W (g b) ∧ f (g b) = b)
    (hW : ∀ a, W a → V (f a) ∧ g (f a) = a) : Reads (f <$> p) (fun b => e (g b)) V := by
  constructor
  · intro b rest hb
    obtain ⟨ha, hfg⟩ := hV b hb
    show (Except.bind (p _) fun x => .ok (f x.1, x.2)) = _
    rw [hp.complete _ _ ha]
    show Except.ok (f (g b), rest) = _
    rw [hfg]
  · intro input b rest h
    replace h : (Except.bind (p input) fun x => .ok (f x.1, x.2)) = .ok (b, rest) := h
    cases hread : p input with
    | error => simp [hread, Except.bind] at h
    | ok x =>
      obtain ⟨a, mid⟩ := x
      rw [hread] at h
      cases h
      obtain ⟨ha, rfl⟩ := hp.sound _ _ _ hread
      obtain ⟨hb, hgf⟩ := hW a ha
      exact ⟨hb, by rw [hgf]⟩

theorem take (n : ℕ) : Reads (Reader.take bad n) id fun bytes => bytes.length = n := by
  constructor
  · intro bytes rest h
    subst h
    simp [Reader.take]
  · intro input bytes rest h
    unfold Reader.take at h
    split_ifs at h with hshort
    cases h
    constructor
    · rw [length_take]
      omega
    · exact (take_append_drop n input).symm

theorem nat (w : ℕ) : Reads (Reader.nat bad w) (be w) fun n => n < 256 ^ w := by
  refine (Reads.take w).map ofBe (be w) ?_ ?_
  · intro n hn
    exact ⟨length_be w n, ofBe_be hn⟩
  · intro bytes hby
    subst hby
    exact ⟨ofBe_lt bytes, be_ofBe bytes⟩

theorem int32 : Reads (Reader.int32 bad) Writer.int32 fun _ => True := by
  refine (Reads.nat 4).map _ (fun i : Int32 => i.toUInt32.toNat) ?_ ?_
  · intro i _
    exact ⟨i.toUInt32.toNat_lt, by simp⟩
  · intro n hn
    exact ⟨trivial, by simpa using hn⟩

theorem int64 : Reads (Reader.int64 bad) Writer.int64 fun _ => True := by
  refine (Reads.nat 8).map _ (fun i : Int64 => i.toUInt64.toNat) ?_ ?_
  · intro i _
    exact ⟨i.toUInt64.toNat_lt, by simp⟩
  · intro n hn
    exact ⟨trivial, by simpa using hn⟩

theorem replicate (hp : Reads p e W) (n : ℕ) :
    Reads (Reader.replicate p n) (fun l => l.flatMap e) fun l => l.length = n ∧ ∀ a ∈ l, W a := by
  constructor
  · exact hp.complete.replicate n
  · induction n with
    | zero =>
      intro input l rest h
      cases h
      simp
    | succ n ih =>
      intro input l rest h
      obtain ⟨a, mid, ha, htail⟩ := read_bind_eq_ok.1 h
      obtain ⟨tail, mid', htail, hdone⟩ := read_bind_eq_ok.1 htail
      cases hdone
      obtain ⟨hWa, rfl⟩ := hp.sound _ _ _ ha
      obtain ⟨⟨hlen, hWtail⟩, rfl⟩ := ih _ _ _ htail
      refine ⟨⟨by simp [hlen], forall_mem_cons.2 ⟨hWa, hWtail⟩⟩, ?_⟩
      rw [flatMap_cons, append_assoc]

/-- A text that the reader accepts. -/
def Text (limit : ℕ) (accept : UInt8 → Bool) (empty : Bool) (s : String) : Prop :=
  (empty = true ∨ 0 < (utf8 s).length) ∧ (utf8 s).length ≤ limit ∧ (utf8 s).all accept = true

variable {accept : UInt8 → Bool} {limit : ℕ} {empty : Bool}

theorem Text.pos (h : Text limit accept false s) :
    0 < (utf8 s).length := h.1.resolve_left (by decide)

/-- The empty text is accepted as well. -/
theorem Text.mono {accept' : UInt8 → Bool}
    (h : Text limit accept empty s) (hacc : ∀ b, accept b = true → accept' b = true) :
    Text limit accept' empty s := by
  refine ⟨h.1, h.2.1, ?_⟩
  rw [all_eq_true]
  intro b hb
  exact hacc b (all_eq_true.1 h.2.2 b hb)

theorem text (hlim : limit < 2 ^ 16) :
    Reads (Reader.text bad limit accept empty) Writer.text (Text limit accept empty) := by
  have hcut : ∀ s, Text limit accept empty s → (utf8 s).length % 2 ^ 16 = (utf8 s).length :=
    fun s hs => Nat.mod_eq_of_lt (hs.2.1.trans_lt hlim)
  refine (Reads.nat 2).bind (fun s => (utf8 s).length % 2 ^ 16) ?_ fun length _ => ?_
  · intro s _
    exact Nat.mod_lt _ (by decide)
  refine Reads.guard ?_ fun hlen => ?_
  · rintro s ⟨hs, rfl⟩
    rw [hcut s hs]
    have hemp := hs.1
    have hle := hs.2.1
    cases empty with
    | false =>
      simp only [Bool.false_eq_true, false_or] at hemp
      simp only [Bool.not_false, Bool.true_and, beq_iff_eq]
      omega
    | true =>
      simp only [Bool.not_true, Bool.false_and, Bool.false_eq_true, false_or]
      omega
  refine (Reads.take length).last utf8 ?_ fun bytes hby => ?_
  · rintro s ⟨hs, rfl⟩
    exact (hcut s hs).symm
  refine Reads.guard ?_ fun hacc => ?_
  · rintro s ⟨⟨hs, -⟩, rfl⟩
    simp [hs.2.2]
  cases htext : fromUtf8 bytes with
  | none =>
    refine Reads.refuse ?_
    rintro s ⟨-, hs⟩
    rw [fromUtf8_eq_some.2 hs] at htext
    cases htext
  | some s =>
    obtain rfl := fromUtf8_eq_some.1 htext
    refine Reads.pure fun t => ?_
    constructor
    · intro ht
      exact utf8_injective ht.2
    · intro ht
      subst ht
      have hval : Text limit accept empty t := by
        push Not at hlen
        refine ⟨?_, by omega, by simpa using hacc⟩
        cases empty with
        | false =>
          have hne := hlen.1
          simp only [Bool.not_false, Bool.true_and, ne_eq, beq_iff_eq] at hne
          right
          omega
        | true => exact .inl rfl
      exact ⟨⟨hval, (hcut t hval).trans hby⟩, rfl⟩

theorem eq_ok (hp : Reads p e W) : p input = .ok (a, []) ↔ W a ∧ input = e a := by
  constructor
  · intro h
    simpa using hp.sound _ _ _ h
  · rintro ⟨ha, rfl⟩
    simpa using hp.complete a [] ha

end Reads

/-- **Bytes behind their length.** -/
theorem Restores.framed {f : List UInt8 → Reader ε α} (w : α → List UInt8)
    (hmost : most < 2 ^ 32) (hlen : ∀ a, W a → least ≤ (w a).length ∧ (w a).length ≤ most)
    (hf : ∀ bytes, Restores (f bytes) e fun a => W a ∧ w a = bytes) :
    Restores (do
      let length ← Reader.nat bad 4
      if ¬ (least ≤ length ∧ length ≤ most) then throw bad
      else do
        let bytes ← Reader.take bad length
        f bytes)
      (fun a => be 4 ((w a).length % 2 ^ 32) ++ (w a ++ e a)) W := by
  have hcut : ∀ a, W a → (w a).length % 2 ^ 32 = (w a).length := fun a ha =>
    Nat.mod_eq_of_lt ((hlen a ha).2.trans_lt hmost)
  refine (Reads.nat 4).complete.bind (fun a => (w a).length % 2 ^ 32) ?_ fun length _ => ?_
  · intro a _
    exact Nat.mod_lt _ (by decide)
  refine Restores.guard ?_ ?_
  · intro a ha
    have hbounds := hlen a ha.1
    rw [← hcut a ha.1, ha.2] at hbounds
    exact not_not.2 hbounds
  refine (Reads.take length).complete.bind w ?_ fun bytes _ => ?_
  · intro a ha
    exact (hcut a ha.1).symm.trans ha.2
  intro a rest ha
  exact hf bytes a rest ⟨ha.1.1, ha.2⟩

/-! ## Sealed messages -/

/-- A hash function with digests of 32 bytes. -/
structure Sealing where
  digest : List UInt8 → List UInt8
  length_digest : ∀ bytes, (digest bytes).length = 32

namespace Sealing

variable {sealing : Sealing} {message body : List UInt8}

/-- The body followed by its digest. -/
def close (sealing : Sealing) (body : List UInt8) : List UInt8 := body ++ sealing.digest body

/-- The body of a message, if its last 32 bytes are the digest of the others. -/
def open? (sealing : Sealing) (message : List UInt8) : Option (List UInt8) :=
  let body := message.take (message.length - 32)
  if sealing.digest body = message.drop body.length then some body else none

/-- Opens a message, parses its body, and compares the encoding of the result with the message. -/
def decode (sealing : Sealing) (bad : ε) (least most : ℕ) (parse : List UInt8 → Except ε α)
    (encode : α → Except ε (List UInt8)) (message : List UInt8) : Except ε α :=
  if message.length < least ∨ most < message.length then throw bad
  else
    match sealing.open? message with
    | none => throw bad
    | some body => Except.mapError (fun _ => bad) do
      let a ← parse body
      let again ← encode a
      if again ≠ message then throw bad else return a

@[simp] theorem length_close : (sealing.close body).length = body.length + 32 := by
  simp [close, sealing.length_digest]

theorem open_eq_some : sealing.open? message = some body ↔ message = sealing.close body := by
  unfold open? close
  constructor
  · intro h
    simp only at h
    split_ifs at h with hdig
    cases h
    have hlen : (message.take (message.length - 32)).length = message.length - 32 := by simp
    rw [hdig, hlen, take_append_drop]
  · rintro rfl
    simp [sealing.length_digest]

variable {least most : ℕ} {parse : List UInt8 → Except ε α} {encode : α → Except ε (List UInt8)}
  {a : α}

/-- What is decoded is encoded as the message again. -/
theorem encode_of_decode (h : sealing.decode bad least most parse encode message = .ok a) :
    encode a = .ok message := by
  simp only [decode, check_eq_ok] at h
  obtain ⟨-, h⟩ := h
  split at h
  · simp at h
  · simp only [mapError_eq_ok, bind_eq_ok] at h
    obtain ⟨found, -, again, henc, h⟩ := h
    simp only [check_eq_ok, not_not, pure_eq_ok] at h
    obtain ⟨rfl, rfl⟩ := h
    exact henc

/-- An encoding of the right size whose body is parsed as the value is decoded. -/
theorem decode_of_encode (henc : encode a = .ok (sealing.close body))
    (hparse : parse body = .ok a) (hleast : least ≤ body.length + 32)
    (hmost : body.length + 32 ≤ most) :
    sealing.decode bad least most parse encode (sealing.close body) = .ok a := by
  have hopen : sealing.open? (sealing.close body) = some body := open_eq_some.2 rfl
  have hsize : ¬ ((sealing.close body).length < least ∨ most < (sealing.close body).length) := by
    rw [length_close]
    omega
  simp only [decode, if_neg hsize, hopen, mapError_eq_ok, bind_eq_ok]
  exact ⟨a, hparse, _, henc, by simp⟩

end Sealing

/-- Every valid value has an encoding within the limit, from which it is decoded, and nothing but the
encoding of a value is decoded as that value. -/
structure Canonical (valid : α → Prop) (limit : ℕ) (encode : α → Except ε (List UInt8))
    (decode : List UInt8 → Except ε α) : Prop where
  restores : ∀ a, valid a →
    ∃ bytes, encode a = .ok bytes ∧ bytes.length ≤ limit ∧ decode bytes = .ok a
  unique : ∀ bytes a, decode bytes = .ok a → encode a = .ok bytes

/-- **Sealed encodings are canonical** if the reader restores the body of every valid value, and the
bodies have the right size. -/
theorem Sealing.canonical {sealing : Sealing} {valid : α → Prop}
    {parse : List UInt8 → Except ε α} {encode : α → Except ε (List UInt8)} (body : α → List UInt8)
    (henc : ∀ a, valid a → encode a = .ok (sealing.close (body a)))
    (hparse : ∀ a, valid a → parse (body a) = .ok a)
    (hlen : ∀ a, valid a → least ≤ (body a).length + 32 ∧ (body a).length + 32 ≤ most) :
    Canonical valid most encode (sealing.decode bad least most parse encode) := by
  constructor
  · intro a ha
    have hbounds := hlen a ha
    refine ⟨_, henc a ha, ?_, ?_⟩
    · rw [Sealing.length_close]
      exact hbounds.2
    · exact Sealing.decode_of_encode (henc a ha) (hparse a ha) hbounds.1 hbounds.2
  · intro bytes a h
    exact Sealing.encode_of_decode h

def hexDigit (n : ℕ) : UInt8 := UInt8.ofNat (if n < 10 then 48 + n else 87 + n)

/-- The lower case digits of the bytes. -/
def hex (bytes : List UInt8) : String :=
  String.ofList (bytes.flatMap fun b => [Nat.digitChar (b.toNat / 16), Nat.digitChar (b.toNat % 16)])

def unhexDigit (b : UInt8) : Option ℕ :=
  if 48 ≤ b.toNat ∧ b.toNat ≤ 57 then some (b.toNat - 48)
  else if 97 ≤ b.toNat ∧ b.toNat ≤ 102 then some (b.toNat - 87)
  else if 65 ≤ b.toNat ∧ b.toNat ≤ 70 then some (b.toNat - 55)
  else none

/-- The bytes of pairs of digits. A digit without a partner is left over. -/
def unhex : List UInt8 → Option (List UInt8)
  | high :: low :: rest => do
    let h ← unhexDigit high
    let l ← unhexDigit low
    let bytes ← unhex rest
    return UInt8.ofNat (16 * h + l) :: bytes
  | _ => some []

/-- A lower case digit. -/
def isHexDigit (b : UInt8) : Bool :=
  (48 ≤ b.toNat && b.toNat ≤ 57) || (97 ≤ b.toNat && b.toNat ≤ 102)

theorem utf8_hex (bytes : List UInt8) :
    utf8 (hex bytes) = bytes.flatMap fun b => [hexDigit (b.toNat / 16), hexDigit (b.toNat % 16)] := by
  have hdig : ∀ n < 16, String.utf8EncodeChar (Nat.digitChar n) = [hexDigit n] := by decide
  have hutf8 : ∀ cs : List Char, utf8 (String.ofList cs) = cs.flatMap String.utf8EncodeChar := by
    intro cs
    simp [utf8, utf8Encode]
  rw [hex, hutf8, flatMap_assoc]
  refine flatMap_congr fun b _ => ?_
  have hhigh : b.toNat / 16 < 16 := Nat.div_lt_of_lt_mul b.toNat_lt
  have hlow : b.toNat % 16 < 16 := Nat.mod_lt _ (by decide)
  simp [hdig _ hhigh, hdig _ hlow]

@[simp] theorem length_utf8_hex (bytes : List UInt8) : (utf8 (hex bytes)).length = 2 * bytes.length := by
  rw [utf8_hex]
  induction bytes with
  | nil => rfl
  | cons b bytes ih =>
    simp only [flatMap_cons, length_append, length_cons, length_nil, ih]
    omega

theorem isHexDigit_hex (bytes : List UInt8) : (utf8 (hex bytes)).all isHexDigit = true := by
  have hdig : ∀ n < 16, isHexDigit (hexDigit n) = true := by decide
  rw [utf8_hex]
  simp only [all_flatMap, all_cons, all_nil, all_eq_true]
  intro b _
  rw [hdig _ (Nat.div_lt_of_lt_mul b.toNat_lt), hdig _ (Nat.mod_lt _ (by decide))]
  rfl

theorem unhex_hex (bytes : List UInt8) : unhex (utf8 (hex bytes)) = some bytes := by
  have hdig : ∀ n < 16, unhexDigit (hexDigit n) = some n := by decide
  rw [utf8_hex]
  induction bytes with
  | nil => rfl
  | cons b bytes ih =>
    have hhigh : b.toNat / 16 < 16 := Nat.div_lt_of_lt_mul b.toNat_lt
    have hlow : b.toNat % 16 < 16 := Nat.mod_lt _ (by decide)
    simp only [flatMap_cons, cons_append, nil_append, unhex, hdig _ hhigh,
      hdig _ hlow, ih, Option.bind_eq_bind, Option.bind_some]
    rw [Nat.div_add_mod, UInt8.ofNat_toNat]
    rfl

theorem unhexDigit_of_isHexDigit {b : UInt8} (h : isHexDigit b = true) :
    ∃ n < 16, unhexDigit b = some n ∧ hexDigit n = b := by
  simp only [isHexDigit, Bool.or_eq_true, Bool.and_eq_true, decide_eq_true_eq] at h
  rcases h with ⟨hge, hle⟩ | ⟨hge, hle⟩
  · refine ⟨b.toNat - 48, by omega, by simp [unhexDigit, hge, hle], ?_⟩
    have hval : 48 + (b.toNat - 48) = b.toNat := by omega
    rw [hexDigit, if_pos (by omega), hval, UInt8.ofNat_toNat]
  · refine ⟨b.toNat - 87, by omega, ?_, ?_⟩
    · rw [unhexDigit, if_neg (by omega), if_pos ⟨hge, hle⟩]
    · have hval : 87 + (b.toNat - 87) = b.toNat := by omega
      rw [hexDigit, if_neg (by omega), hval, UInt8.ofNat_toNat]

theorem hex_unhex {n : ℕ} {s : String} (hlen : (utf8 s).length = 2 * n)
    (hdig : (utf8 s).all isHexDigit = true) :
    ∃ bytes, unhex (utf8 s) = some bytes ∧ bytes.length = n ∧ hex bytes = s := by
  suffices h : ∀ digits : List UInt8, digits.length = 2 * n → digits.all isHexDigit = true →
      ∃ bytes, unhex digits = some bytes ∧ bytes.length = n ∧ utf8 (hex bytes) = digits by
    obtain ⟨bytes, hby, hcnt, htext⟩ := h (utf8 s) hlen hdig
    exact ⟨bytes, hby, hcnt, utf8_injective htext⟩
  clear hlen hdig
  intro digits
  induction n generalizing digits with
  | zero =>
    intro hlen _
    obtain rfl := length_eq_zero_iff.1 hlen
    exact ⟨[], rfl, rfl, by decide⟩
  | succ n ih =>
    intro hlen hdig
    match digits, hlen, hdig with
    | high :: low :: rest, hlen, hdig =>
      simp only [all_cons, Bool.and_eq_true] at hdig
      obtain ⟨hhigh, hlow, hrest⟩ := hdig
      obtain ⟨x, hx, hread, hwrit⟩ := unhexDigit_of_isHexDigit hhigh
      obtain ⟨y, hy, hreadL, hwrite⟩ := unhexDigit_of_isHexDigit hlow
      obtain ⟨bytes, hby, hcnt, htext⟩ := ih rest (by simp only [length_cons] at hlen; omega) hrest
      have hval : (UInt8.ofNat (16 * x + y)).toNat = 16 * x + y := by
        rw [UInt8.toNat_ofNat']
        exact Nat.mod_eq_of_lt (by omega)
      refine ⟨UInt8.ofNat (16 * x + y) :: bytes, ?_, by simp [hcnt], ?_⟩
      · simp [unhex, hread, hreadL, hby]
      · rw [utf8_hex] at htext ⊢
        have hdiv : (16 * x + y) / 16 = x := by omega
        have hmod : (16 * x + y) % 16 = y := by omega
        simp only [flatMap_cons, hval, hdiv, hmod, hwrit, hwrite, htext, cons_append, nil_append]

end NasaRuntime
