import NasaRuntime.Lib.Codec

/-!
# What an encrypted message is bound to

`modern_v2.rs` of `naweb`: the bytes that a message is authenticated with besides its text. Every
field of a variable length stands behind its length, and what follows them has a fixed size, up to
the status of a response.

**Theorem (`aad_binds`).** Different inputs have different bytes, and those of one input never begin
those of another. An ideal cipher opens a message with the bytes that it was sealed with and no
others, so it is not accepted for another route, tenant, direction or status.
-/

namespace NasaRuntime.Naweb

inductive CryptoDirection
  | request
  | response
deriving DecidableEq

def CryptoDirection.byte : CryptoDirection → UInt8
  | .request => 1
  | .response => 2

/-- A refusal of the kind `Policy`. -/
structure CryptoError where
  reason : String
deriving DecidableEq

structure ModernAadInput where
  direction : CryptoDirection
  kid : String
  tenantScope : String
  keyScope : String
  audience : String
  method : String
  target : String
  rid : Vector UInt8 16
  nonce : Vector UInt8 12
  timestampMs : Int64
  status : Option UInt16
deriving DecidableEq

/-- A text behind its length. -/
def lp (value : String) : List UInt8 := be 4 (utf8 value).length ++ utf8 value

def pushLp (output : List UInt8) (value : String) : Except CryptoError (List UInt8) :=
  if (utf8 value).length < 256 ^ 4 then .ok (output ++ lp value)
  else .error ⟨"modern-aad-field-too-large"⟩

namespace ModernAadInput

/-- What `push_lp` writes, in its order. -/
def texts (input : ModernAadInput) : List String :=
  ["A256GCM", input.kid, input.tenantScope, input.keyScope, input.audience, input.method,
    input.target]

/-- What has a fixed size. -/
def tail (input : ModernAadInput) : List UInt8 :=
  input.rid.toList ++ (input.nonce.toList ++ (Writer.int64 input.timestampMs ++
    input.status.elim [] fun status => be 2 status.toNat))

end ModernAadInput

def buildModernAad (input : ModernAadInput) : Except CryptoError (List UInt8) :=
  if (input.direction = .request ∧ input.status.isSome) ∨
      (input.direction = .response ∧ input.status.isNone) then
    .error ⟨"modern-aad-status-direction"⟩
  else do
    let output := utf8 "nasa-web-crypto" ++ [2, input.direction.byte]
    let output ← input.texts.foldlM pushLp output
    return output ++ input.tail

/-! ## Reading the fields back -/

open List

variable {output output' x y : List UInt8} {values values' : List String} {a b : ModernAadInput}

theorem foldlM_pushLp : values.foldlM pushLp output = .ok output' ↔
    (∀ value ∈ values, (utf8 value).length < 256 ^ 4) ∧ output' = output ++ values.flatMap lp := by
  induction values generalizing output with
  | nil => exact pure_eq_ok.trans (by simp [eq_comm])
  | cons value values ih =>
    rw [foldlM_cons, bind_eq_ok, flatMap_cons, forall_mem_cons, ← append_assoc, and_assoc, ← ih,
      pushLp]
    split_ifs with h
    · simp only [h, true_and, Except.ok.injEq, exists_eq_left']
    · simp only [h, false_and, exists_false]

theorem be_append_inj {w n m : ℕ} (hn : n < 256 ^ w) (hm : m < 256 ^ w)
    (h : be w n ++ x = be w m ++ y) : n = m ∧ x = y := by
  obtain ⟨hbe, hrest⟩ := append_inj h (by simp)
  rw [← ofBe_be hn, hbe, ofBe_be hm]
  exact ⟨rfl, hrest⟩

theorem texts_append_inj (hleng : values.length = values'.length)
    (hv : ∀ value ∈ values, (utf8 value).length < 256 ^ 4)
    (hv' : ∀ value ∈ values', (utf8 value).length < 256 ^ 4)
    (h : values.flatMap lp ++ x = values'.flatMap lp ++ y) : values = values' ∧ x = y := by
  induction values generalizing values' with
  | nil =>
    obtain rfl := length_eq_zero_iff.1 hleng.symm
    exact ⟨rfl, h⟩
  | cons value values ih =>
    obtain ⟨value', values', rfl⟩ := exists_cons_of_length_eq_add_one hleng.symm
    rw [forall_mem_cons] at hv hv'
    simp only [flatMap_cons, lp, append_assoc] at h
    obtain ⟨hlen, h⟩ := be_append_inj hv.1 hv'.1 h
    obtain ⟨htext, h⟩ := append_inj h hlen
    obtain ⟨rfl, hrest⟩ := ih (Nat.succ.inj hleng) hv.2 hv'.2 h
    rw [utf8_injective htext]
    exact ⟨rfl, hrest⟩

theorem tail_append_inj (hstat : a.status.isSome = b.status.isSome)
    (h : a.tail ++ x = b.tail ++ y) :
    a.rid = b.rid ∧ a.nonce = b.nonce ∧ a.timestampMs = b.timestampMs ∧ a.status = b.status ∧
      x = y := by
  simp only [ModernAadInput.tail, append_assoc, Writer.int64] at h
  obtain ⟨hrid, h⟩ := append_inj h (by simp)
  obtain ⟨hnonce, h⟩ := append_inj h (by simp)
  obtain ⟨htime, h⟩ := be_append_inj (UInt64.toNat_lt _) (UInt64.toNat_lt _) h
  refine ⟨Vector.toList_inj.1 hrid, Vector.toList_inj.1 hnonce,
    congrArg UInt64.toInt64 (UInt64.toNat_inj.1 htime), ?_⟩
  revert hstat h
  cases a.status with
  | none => cases b.status <;> simp
  | some status =>
    cases b.status with
    | none => simp
    | some status' =>
      intro _ h
      obtain ⟨hcode, hrest⟩ := be_append_inj (UInt16.toNat_lt _) (UInt16.toNat_lt _) h
      rw [UInt16.toNat_inj.1 hcode]
      exact ⟨rfl, hrest⟩

theorem buildModernAad_eq_ok (h : buildModernAad a = .ok output) :
    (a.status.isSome ↔ a.direction = .response) ∧
      (∀ value ∈ a.texts, (utf8 value).length < 256 ^ 4) ∧
      output = utf8 "nasa-web-crypto" ++ ([2, a.direction.byte] ++ (a.texts.flatMap lp ++ a.tail)) := by
  unfold buildModernAad at h
  split_ifs at h with href
  obtain ⟨written, hwritt, h⟩ := bind_eq_ok.1 h
  obtain ⟨hfits, rfl⟩ := foldlM_pushLp.1 hwritt
  refine ⟨?_, hfits, by simpa using (Except.ok.inj h).symm⟩
  cases hd : a.direction <;> cases hs : a.status <;> simp [hd, hs] at href ⊢

theorem buildModernAad_append_inj (ha : buildModernAad a = .ok output)
    (hb : buildModernAad b = .ok output') (h : output ++ x = output' ++ y) : a = b ∧ x = y := by
  obtain ⟨hstat, hfits, rfl⟩ := buildModernAad_eq_ok ha
  obtain ⟨hstat', hfits', rfl⟩ := buildModernAad_eq_ok hb
  simp only [append_assoc] at h
  obtain ⟨hbyte, h⟩ := append_inj (append_cancel_left h) rfl
  have hdir : a.direction = b.direction := by
    cases hd : a.direction <;> cases hd' : b.direction <;>
      simp [hd, hd', CryptoDirection.byte] at hbyte ⊢
  have hlen : a.texts.length = b.texts.length := rfl
  obtain ⟨htexts, h⟩ := texts_append_inj hlen hfits hfits' h
  rw [hdir, ← hstat'] at hstat
  obtain ⟨hrid, hnonce, htime, hcode, hrest⟩ := tail_append_inj (Bool.eq_iff_iff.2 hstat) h
  simp only [ModernAadInput.texts, cons.injEq, true_and, and_true] at htexts
  refine ⟨?_, hrest⟩
  cases a
  cases b
  simp_all

/-- **Binding.** -/
theorem aad_binds (a b : ModernAadInput) (bytes bytes' : List UInt8)
    (ha : buildModernAad a = .ok bytes) (hb : buildModernAad b = .ok bytes') :
    (bytes = bytes' → a = b) ∧ (bytes <+: bytes' → bytes = bytes') ∧
    -- sealed with the bytes of one, opened with those of the other
    ∀ (K P C : Type) (close : K → List UInt8 → P → C) (opens : K → List UInt8 → C → Option P),
      (∀ key aad aad' plain, (opens key aad' (close key aad plain)).isSome → aad' = aad) →
      ∀ key plain, (opens key bytes' (close key bytes plain)).isSome → a = b := by
  have hinj : bytes = bytes' → a = b := by
    rintro rfl
    exact (buildModernAad_append_inj (x := []) ha hb rfl).1
  refine ⟨hinj, ?_, ?_⟩
  · rintro ⟨rest, rfl⟩
    obtain ⟨-, rfl⟩ := buildModernAad_append_inj ha hb (append_nil _).symm
    exact (append_nil _).symm
  · intro K P C close opens hid key plain hop
    exact hinj (hid key bytes bytes' plain hop).symm

def question : ModernAadInput :=
  ⟨.request, "k1", "t1", "orders", "api", "POST", "/orders", .replicate 16 1, .replicate 12 2, 5, none⟩

def answer : ModernAadInput := { question with direction := .response, status := some 200 }

theorem aad_binds_answer :
    ∃ bytes bytes', buildModernAad question = .ok bytes ∧ buildModernAad answer = .ok bytes' ∧
      bytes ≠ bytes' ∧ ¬ bytes <+: bytes' := by
  obtain ⟨bytes, ha⟩ := exists_ok_of_isOk (x := buildModernAad question) (by decide +kernel)
  obtain ⟨bytes', hb⟩ := exists_ok_of_isOk (x := buildModernAad answer) (by decide +kernel)
  obtain ⟨hinj, hfree, -⟩ := aad_binds _ _ bytes bytes' ha hb
  have hne : bytes ≠ bytes' := fun h => by cases hinj h
  exact ⟨bytes, bytes', ha, hb, hne, fun h => hne (hfree h)⟩

end NasaRuntime.Naweb
