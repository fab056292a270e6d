import Gafam.Relay.Proofs.CredentialsProofs

/-!
# Settings that are sealed

Settings with secrets are stored under a key derived from the secret of the node, as a text: `seal:`, then the IV and
the ciphertext in base64, with a colon between them. Base64 writes and reads no colon, so the first one of a blob stands
between its fields, and a blob that is opened is read as the IV and the ciphertext of a seal.
-/

namespace Gafam.Relay

open Gafam.Go

section

variable (C : Cipher) (jwtSecret : GoString)

/-- `sealSettingsValue`, with the random bytes of its IV. The key is a sum of SHA-256, for which there is no error. -/
def sealSettingsValue (iv : Nonce) (plaintext : GoString) : GoString :=
  let key := C.deriveKey jwtSecret
  str "seal:" ++ base64Encode iv.bytes ++ str ":" ++ base64Encode (C.encrypt key iv.bytes plaintext)

/-- `unsealSettingsValue`, `none` being any of its errors. -/
def unsealSettingsValue (blob : GoString) : Option GoString :=
  if hasPrefix blob "seal:" = false then none
  else
    let rest := blob.drop 5
    match index ":" rest with
    | none => none
    | some idx =>
      let iv := rest.take idx
      let encrypted := rest.drop (idx + 1)
      let key := C.deriveKey jwtSecret
      decryptAESGCM C key encrypted iv

end

/-- AES-GCM without forgeries: under the key a ciphertext is opened if and only if it was made of the plaintext, with
this IV. -/
def Cipher.Ideal (C : Cipher) (key : GoString) (made : GoString → GoString → Prop) : Prop :=
  ∀ iv box plaintext : GoString, iv.length = nonceSize →
    (C.decrypt key iv box = some plaintext ↔ made iv plaintext ∧ box = C.encrypt key iv plaintext)

/-- The two fields of a blob, as base64 reads them. -/
def FieldsRead (blob iv box : GoString) : Prop :=
  ∃ ivText boxText, blob = str "seal:" ++ (ivText ++ 0x3A :: boxText) ∧ base64Decode ivText = some iv ∧
    base64Decode boxText = some box

/-! ## The fields of a blob -/

/-- Base64 reads no colon. -/
theorem base64Groups_colon {s bytes : GoString} (h : base64Groups s = some bytes) : (0x3A : UInt8) ∉ s := by
  have hvalue {c : UInt8} {n : Nat} (hc : base64Value c = some n) : (0x3A : UInt8) ≠ c := by
    have hnone : base64Value 0x3A = none := by decide
    rintro rfl
    rw [hnone] at hc
    cases hc
  have hpad : (0x3A : UInt8) ≠ base64Pad := by decide
  induction s using base64Groups.induct generalizing bytes with
  | case1 => exact List.not_mem_nil
  | case2 a b c d rest ih =>
    simp only [base64Groups, Option.bind_eq_bind, Option.bind_eq_some_iff] at h
    obtain ⟨x, hx, y, hy, h⟩ := h
    split_ifs at h with hcd hd
    · obtain ⟨rfl, rfl, rfl⟩ := hcd
      simp [hvalue hx, hvalue hy, hpad]
    · obtain ⟨z, hz, -⟩ := Option.bind_eq_some_iff.1 h
      obtain ⟨rfl, rfl⟩ := hd
      simp [hvalue hx, hvalue hy, hvalue hz, hpad]
    · obtain ⟨z, hz, h⟩ := Option.bind_eq_some_iff.1 h
      obtain ⟨w, hw, h⟩ := Option.bind_eq_some_iff.1 h
      obtain ⟨more, hmore, -⟩ := Option.bind_eq_some_iff.1 h
      simp [hvalue hx, hvalue hy, hvalue hz, hvalue hw, ih hmore]
  | case3 s hnil hfour =>
    rw [base64Groups] at h
    · cases h
    · exact hnil
    · exact hfour

theorem colon_notMem_of_base64Decode {s bytes : GoString} (h : base64Decode s = some bytes) : (0x3A : UInt8) ∉ s := by
  intro hmem
  exact base64Groups_colon h (List.mem_filter.2 ⟨hmem, by decide⟩)

variable {C : Cipher} {jwtSecret : GoString}

theorem decryptAESGCM_eq_some_iff {key e i p : GoString} :
    decryptAESGCM C key e i = some p ↔ ∃ box iv, base64Decode e = some box ∧ base64Decode i = some iv ∧
      iv.length = nonceSize ∧ C.decrypt key iv box = some p := by
  unfold decryptAESGCM
  simp only [Option.bind_eq_bind, Option.bind_eq_some_iff]
  constructor
  · rintro ⟨box, hbox, iv, hiv, h⟩
    split_ifs at h with hlen
    exact ⟨box, iv, hbox, hiv, not_not.1 hlen, h⟩
  · rintro ⟨box, iv, hbox, hiv, hlen, h⟩
    exact ⟨box, hbox, iv, hiv, by rwa [if_neg (not_not.2 hlen)]⟩

/-- The first colon behind `seal:` stands between the fields. -/
theorem unsealSettingsValue_fields {ivText : GoString} (h : (0x3A : UInt8) ∉ ivText) (boxText : GoString) :
    unsealSettingsValue C jwtSecret (str "seal:" ++ (ivText ++ 0x3A :: boxText)) =
      decryptAESGCM C (C.deriveKey jwtSecret) boxText ivText := by
  have hseal : hasPrefix (str "seal:" ++ (ivText ++ 0x3A :: boxText)) "seal:" = true :=
    List.isPrefixOf_iff_prefix.2 (List.prefix_append _ _)
  have hrest : (str "seal:" ++ (ivText ++ 0x3A :: boxText)).drop 5 = ivText ++ 0x3A :: boxText :=
    List.drop_left' (by decide)
  have hbox : (ivText ++ 0x3A :: boxText).drop (ivText.length + 1) = boxText := by
    rw [List.drop_append]
    simp
  rw [unsealSettingsValue, hseal, if_neg Bool.false_ne_true.symm, hrest]
  simp only [index_colon h, List.take_left, hbox]

/-- A blob that is opened has fields. -/
theorem exists_fields {blob p : GoString} (h : unsealSettingsValue C jwtSecret blob = some p) :
    ∃ ivText boxText, blob = str "seal:" ++ (ivText ++ 0x3A :: boxText) ∧
      decryptAESGCM C (C.deriveKey jwtSecret) boxText ivText = some p := by
  unfold unsealSettingsValue at h
  split_ifs at h with hseal
  obtain ⟨rest, rfl⟩ := List.isPrefixOf_iff_prefix.1 (Bool.not_eq_false _ ▸ hseal)
  rw [List.drop_left' (show (str "seal:").length = 5 by decide)] at h
  dsimp only at h
  cases hindex : index ":" rest with
  | none =>
    rw [hindex] at h
    cases h
  | some idx =>
    obtain ⟨ivText, boxText, rfl, rfl, -⟩ := (index_eq_some_iff (by decide)).1 hindex
    rw [hindex] at h
    have hcolon : str ":" = [0x3A] := by decide
    dsimp only at h
    rw [hcolon, List.append_assoc, List.take_left, List.singleton_append, List.drop_append] at h
    simp only [List.drop_eq_nil_of_le (Nat.le_succ ivText.length), Nat.add_sub_cancel_left] at h
    exact ⟨ivText, boxText, by rw [hcolon, List.append_assoc, List.singleton_append], h⟩

/-! ## What is opened -/

theorem sealSettingsValue_fields (iv : Nonce) (plaintext : GoString) :
    sealSettingsValue C jwtSecret iv plaintext = str "seal:" ++
      (base64Encode iv.bytes ++ 0x3A :: base64Encode (C.encrypt (C.deriveKey jwtSecret) iv.bytes plaintext)) := by
  have hcolon : str ":" = [0x3A] := by decide
  rw [sealSettingsValue, hcolon]
  simp only [List.append_assoc, List.singleton_append]

theorem fieldsRead_seal (iv : Nonce) (plaintext : GoString) :
    FieldsRead (sealSettingsValue C jwtSecret iv plaintext) iv.bytes
      (C.encrypt (C.deriveKey jwtSecret) iv.bytes plaintext) :=
  ⟨_, _, sealSettingsValue_fields iv plaintext, base64Decode_encode _, base64Decode_encode _⟩

/-- A blob is opened if and only if base64 reads its fields as the IV and the ciphertext of a seal, and what is returned
is the plaintext of that seal. So a seal is opened; the first colon behind `seal:` is the one between its fields. -/
theorem unsealSettingsValue_iff {made : GoString → GoString → Prop} (hideal : C.Ideal (C.deriveKey jwtSecret) made) :
    (∀ (iv : Nonce) (plaintext : GoString), made iv.bytes plaintext →
      unsealSettingsValue C jwtSecret (sealSettingsValue C jwtSecret iv plaintext) = some plaintext ∧
        index ":" ((sealSettingsValue C jwtSecret iv plaintext).drop 5) = some (base64Encode iv.bytes).length) ∧
    ∀ blob plaintext : GoString, unsealSettingsValue C jwtSecret blob = some plaintext ↔
      ∃ iv : Nonce, made iv.bytes plaintext ∧
        FieldsRead blob iv.bytes (C.encrypt (C.deriveKey jwtSecret) iv.bytes plaintext) := by
  have hopen (blob plaintext : GoString) : unsealSettingsValue C jwtSecret blob = some plaintext ↔
      ∃ iv : Nonce, made iv.bytes plaintext ∧
        FieldsRead blob iv.bytes (C.encrypt (C.deriveKey jwtSecret) iv.bytes plaintext) := by
    constructor
    · intro h
      obtain ⟨ivText, boxText, hblob, h⟩ := exists_fields h
      obtain ⟨box, iv, hbox, hiv, hlen, h⟩ := decryptAESGCM_eq_some_iff.1 h
      obtain ⟨hmade, rfl⟩ := (hideal iv box plaintext hlen).1 h
      exact ⟨⟨iv, hlen⟩, hmade, ivText, boxText, hblob, hiv, hbox⟩
    · rintro ⟨iv, hmade, ivText, boxText, rfl, hiv, hbox⟩
      rw [unsealSettingsValue_fields (colon_notMem_of_base64Decode hiv)]
      exact decryptAESGCM_eq_some_iff.2
        ⟨_, _, hbox, hiv, iv.length_eq, (hideal _ _ _ iv.length_eq).2 ⟨hmade, rfl⟩⟩
  refine ⟨fun iv plaintext hmade => ⟨?_, ?_⟩, hopen⟩
  · exact (hopen _ _).2 ⟨iv, hmade, fieldsRead_seal iv plaintext⟩
  · rw [sealSettingsValue_fields, List.drop_left' (by decide)]
    exact index_colon (colon_notMem_base64Encode iv.bytes) _

/-- A cipher that puts a tag of sixteen bytes behind the plaintext. -/
def taggedCipher : Cipher :=
  ⟨fun s => (s ++ List.replicate 32 0).take 32, fun key iv text => text ++ (key.take 4 ++ iv), fun key iv box =>
    if (key.take 4 ++ iv).isSuffixOf box then some (box.take (box.length - (key.take 4 ++ iv).length)) else none⟩

theorem taggedCipher_ideal (key : GoString) : taggedCipher.Ideal key fun _ _ => True := by
  intro iv box text _
  show (if (key.take 4 ++ iv).isSuffixOf box then some (box.take (box.length - (key.take 4 ++ iv).length)) else none) =
    some text ↔ True ∧ box = text ++ (key.take 4 ++ iv)
  rw [true_and]
  constructor
  · intro h
    split_ifs at h with htag
    obtain ⟨front, rfl⟩ := List.isSuffixOf_iff_suffix.1 htag
    rw [List.length_append, Nat.add_sub_cancel, List.take_left, Option.some.injEq] at h
    rw [h]
  · rintro rfl
    rw [if_pos (List.isSuffixOf_iff_suffix.2 (List.suffix_append ..)), List.length_append, Nat.add_sub_cancel,
      List.take_left]

theorem unsealSettingsValue_hello :
    unsealSettingsValue taggedCipher (str "secret") (sealSettingsValue taggedCipher (str "secret") zeroNonce "hello") =
      some (str "hello") :=
  ((unsealSettingsValue_iff (taggedCipher_ideal _)).1 zeroNonce "hello" trivial).1

/-- A seal with a line break behind `seal:`. -/
def brokenSeal : GoString :=
  str "seal:" ++ 0x0A :: (sealSettingsValue taggedCipher (str "secret") zeroNonce "hello").drop 5

/-- Base64 skips the line break, so the blob is opened; sealing writes none. -/
theorem brokenSeal_opened :
    taggedCipher.Ideal (taggedCipher.deriveKey (str "secret")) (fun _ _ => True) ∧
      unsealSettingsValue taggedCipher (str "secret") brokenSeal = some (str "hello") ∧
      ∀ (iv : Nonce) (plaintext : GoString), sealSettingsValue taggedCipher (str "secret") iv plaintext ≠ brokenSeal := by
  refine ⟨taggedCipher_ideal _, by decide, fun iv plaintext h => ?_⟩
  have hbreak : ∀ s : GoString, (0x0A : UInt8) ∉ base64Encode s := fun s hmem =>
    base64Encode_forall (p := fun c => c ≠ 0x0A) (by decide) (by decide) s _ hmem rfl
  have hmem : (0x0A : UInt8) ∈ sealSettingsValue taggedCipher (str "secret") iv plaintext :=
    h ▸ List.mem_append_right _ List.mem_cons_self
  rw [sealSettingsValue_fields, List.mem_append, List.mem_append, List.mem_cons] at hmem
  rcases hmem with hmem | hmem | hmem | hmem
  · exact absurd hmem (by decide)
  · exact hbreak _ hmem
  · exact absurd hmem (by decide)
  · exact hbreak _ hmem

end Gafam.Relay
