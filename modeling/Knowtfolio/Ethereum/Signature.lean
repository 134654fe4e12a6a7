import Knowtfolio.Errors
import Knowtfolio.Ethereum.Address

/-!
# Signatures

`server/gateways/ethereum/verify_signature.go`: the text a client signs, and
the check of its signature. What the check accepts is a signature from which
the key of the address is recovered over the signed text (`recoverSigner`,
`verifySignature_eq_ok`). The recovery id is read before the length of the
signature is known, and so the check of a short one panics
(`robustCheck_iff`).
-/

namespace Knowtfolio

/-- `GenerateSignData`. -/
def generateSignData (message : String) (nonce : Hash) : String :=
  message ++ "\n(nonce: " ++ nonce.hex ++ ")"

/-- The text signed for a message: with a nonce, if there is one. -/
def signedData (message : String) (nonce : Option Hash) : String :=
  match nonce with
  | some n => generateSignData message n
  | none => message

/-- `hexutil.Decode`. -/
def hexutilDecode (s : String) : Except Err (List UInt8) :=
  if Hex.utf8 s = [] then .error (.text "empty hex string")
  else match strip0x (Hex.utf8 s) with
    | none => .error (.text "hex string without 0x prefix")
    | some digits => match Hex.decode digits with
      | .ok bytes => .ok bytes
      | .error .invalidByte => .error (.text "invalid hex string")
      | .error .length => .error (.text "hex string of odd length")

/-- The place of the recovery id in a signature. -/
def recoveryIDOffset : ℕ := 64

/-- A recovery id of 27 or more is meant as one of the ids from 0 on. -/
def normalizeRecoveryID (sign : List UInt8) (v : UInt8) : List UInt8 :=
  if 27 ≤ v then sign.set recoveryIDOffset (v - 27) else sign

section

variable [Crypto]

/-- `accounts.TextHash`: what a wallet hashes to sign a text. -/
def textHash (data : List UInt8) : Hash :=
  Crypto.keccak256
    (Hex.utf8 ("\x19Ethereum Signed Message:\n" ++ toString data.length) ++ data)

/-- `VerifySignature`. -/
def verifySignature (addr sign message : String) (nonce : Option Hash) : Except Fault Unit :=
  match hexutilDecode sign with
  | .error e => .error (.err e)
  | .ok decodedSign =>
    -- Reading the byte panics when the signature is shorter.
    match decodedSign[recoveryIDOffset]? with
    | none => .error (.panic "index out of range")
    | some v =>
      let hash := textHash (Hex.utf8 (signedData message nonce))
      match Crypto.sigToPub hash (normalizeRecoveryID decodedSign v) with
      | none => .error (.err (.text "invalid signature"))
      | some pubKey =>
        if addr ≠ (Crypto.pubkeyToAddress pubKey).string then
          .error (.err (.text "`address` didn't match the signer"))
        else .ok ()

/-- The address whose key is recovered from a signature over a text. -/
def recoverSigner (sign data : String) : Option Address :=
  match hexutilDecode sign with
  | .error _ => none
  | .ok decodedSign =>
    match decodedSign[recoveryIDOffset]? with
    | none => none
    | some v => (Crypto.sigToPub (textHash (Hex.utf8 data)) (normalizeRecoveryID decodedSign v)).map
        Crypto.pubkeyToAddress

/-- A signature is refused whatever the address is, or the check compares the spelling of
    its signer. -/
theorem verifySignature_cases (sign message : String) (nonce : Option Hash) :
    (recoverSigner sign (signedData message nonce) = none ∧
      ∃ fault, ∀ addr, verifySignature addr sign message nonce = .error fault) ∨
    ∃ a, recoverSigner sign (signedData message nonce) = some a ∧
      ∀ addr, verifySignature addr sign message nonce =
        if addr ≠ a.string then .error (.err (.text "`address` didn't match the signer"))
        else .ok () := by
  unfold verifySignature recoverSigner
  cases hexutilDecode sign with
  | error e => exact .inl ⟨rfl, _, fun _ => rfl⟩
  | ok decodedSign =>
    cases hv : decodedSign[recoveryIDOffset]? with
    | none => exact .inl (by simp [hv])
    | some v =>
      cases hpub : Crypto.sigToPub (textHash (Hex.utf8 (signedData message nonce)))
          (normalizeRecoveryID decodedSign v) with
      | none => exact .inl (by simp [hv, hpub])
      | some pubKey => exact .inr (by simp [hv, hpub])

/-- A signature is accepted exactly when it recovers to the address that `addr`
    spells. -/
theorem verifySignature_eq_ok {addr sign message : String} {nonce : Option Hash} :
    verifySignature addr sign message nonce = .ok () ↔
      ∃ a, recoverSigner sign (signedData message nonce) = some a ∧ addr = a.string := by
  rcases verifySignature_cases sign message nonce with ⟨hnone, fault, hfault⟩ | ⟨a, ha, hverify⟩
  · simp [hnone, hfault]
  · simp [ha, hverify]

/-! ## Signatures of any length -/

/-- The signature decodes to 65 bytes, of which the last one is a valid recovery id, after
    27 is subtracted if it is at least that. -/
def HasRecoveryID (sign : String) : Prop :=
  ∃ bytes v, hexutilDecode sign = .ok bytes ∧ bytes.length = 65 ∧
    bytes[recoveryIDOffset]? = some v ∧ (if 27 ≤ v then v - 27 else v) ≤ 3

/-- The check of a signature ends without a panic, and accepts none but those with a valid
    recovery id. -/
structure RobustCheck (addr sign message : String) (nonce : Option Hash) : Prop where
  no_panic : ∀ m, verifySignature addr sign message nonce ≠ .error (.panic m)
  accepted : verifySignature addr sign message nonce = .ok () → HasRecoveryID sign

/-- The text is hexadecimal, of fewer than 65 bytes. -/
def IsShortHex (sign : String) : Prop :=
  ∃ x digits, Hex.utf8 sign = 48 :: x :: digits ∧ (x = 120 ∨ x = 88) ∧
    (∀ d ∈ digits, (Hex.value d).isSome = true) ∧ digits.length % 2 = 0 ∧ digits.length < 130

omit [Crypto] in
/-- The prefix is taken off in either case. -/
theorem strip0x_eq_some {s digits : List UInt8} :
    strip0x s = some digits ↔ ∃ x, s = 48 :: x :: digits ∧ (x = 120 ∨ x = 88) := by
  constructor
  · intro h
    unfold strip0x at h
    split at h
    next a b rest =>
      split_ifs at h with hab
      cases h
      exact ⟨b, by rw [hab.1], hab.2⟩
    next => cases h
  · rintro ⟨x, rfl, hx⟩
    simp [strip0x, hx]

omit [Crypto] in
/-- What `hexutil.Decode` accepts is a prefix and digits that decode. -/
theorem hexutilDecode_eq_ok {sign : String} {bytes : List UInt8} :
    hexutilDecode sign = .ok bytes ↔
      ∃ digits, strip0x (Hex.utf8 sign) = some digits ∧ Hex.decode digits = .ok bytes := by
  unfold hexutilDecode
  split_ifs with hempty
  · simp [hempty, strip0x]
  cases strip0x (Hex.utf8 sign) with
  | none => simp
  | some digits =>
    cases hdecode : Hex.decode digits with
    | ok bs => simp [hdecode]
    | error e => cases e <;> simp [hdecode]

omit [Crypto] in
/-- The texts that are decoded to fewer than 65 bytes. -/
theorem isShortHex_iff {sign : String} :
    IsShortHex sign ↔ ∃ bytes, hexutilDecode sign = .ok bytes ∧ bytes.length < 65 := by
  simp only [hexutilDecode_eq_ok, strip0x_eq_some]
  constructor
  · rintro ⟨x, digits, hsign, hx, hdigits, heven, hlt⟩
    have hlength : digits.length = 2 * (digits.length / 2) := by omega
    obtain ⟨bytes, hbytes, hn⟩ := Hex.exists_decode_iff.2 ⟨hdigits, hlength⟩
    exact ⟨bytes, ⟨digits, ⟨x, hsign, hx⟩, hbytes⟩, by omega⟩
  · rintro ⟨bytes, ⟨digits, ⟨x, hsign, hx⟩, hbytes⟩, hlt⟩
    obtain ⟨hdigits, hlength⟩ := Hex.exists_decode_iff.1 ⟨bytes, hbytes, rfl⟩
    exact ⟨x, digits, hsign, hx, hdigits, by omega, by omega⟩

/-- The check panics exactly if the byte of the recovery id is not there. -/
theorem exists_panic_iff {addr sign message : String} {nonce : Option Hash} :
    (∃ m, verifySignature addr sign message nonce = .error (.panic m)) ↔
      ∃ bytes, hexutilDecode sign = .ok bytes ∧ bytes.length < 65 := by
  unfold verifySignature
  cases hexutilDecode sign with
  | error e => simp
  | ok bytes =>
    cases hv : bytes[recoveryIDOffset]? with
    | none =>
      have hlength : bytes.length < 65 := Nat.lt_succ_of_le (List.getElem?_eq_none_iff.1 hv)
      simp [hv, hlength]
    | some v =>
      have hlength : 64 < bytes.length := (List.getElem?_eq_some_iff.1 hv).1
      have hlong : ¬ bytes.length < 65 := by omega
      cases hpub : Crypto.sigToPub (textHash (Hex.utf8 (signedData message nonce)))
          (normalizeRecoveryID bytes v) with
      | none => simp [hv, hpub, hlong]
      | some pubKey =>
        by_cases haddr : addr = (Crypto.pubkeyToAddress pubKey).string <;>
          simp [hv, hpub, hlong, haddr]

omit [Crypto] in
/-- The recovery id is the only byte that changes. -/
theorem normalizeRecoveryID_spec {bytes : List UInt8} {v : UInt8}
    (hv : bytes[recoveryIDOffset]? = some v) :
    (normalizeRecoveryID bytes v).length = bytes.length ∧
      (normalizeRecoveryID bytes v).getD recoveryIDOffset 0 = if 27 ≤ v then v - 27 else v := by
  have hlength : recoveryIDOffset < bytes.length := (List.getElem?_eq_some_iff.1 hv).1
  unfold normalizeRecoveryID
  split_ifs
  · exact ⟨List.length_set, by simp [List.getD, hlength]⟩
  · exact ⟨rfl, by simp [List.getD, hv]⟩

/-- A signature that is accepted has a valid recovery id. -/
theorem hasRecoveryID_of_verifySignature {addr sign message : String} {nonce : Option Hash}
    (h : verifySignature addr sign message nonce = .ok ()) : HasRecoveryID sign := by
  obtain ⟨a, ha, -⟩ := verifySignature_eq_ok.1 h
  unfold recoverSigner at ha
  split at ha
  next => cases ha
  next bytes hbytes =>
    split at ha
    next => cases ha
    next v hv =>
      obtain ⟨pubKey, hpub, -⟩ := Option.map_eq_some_iff.1 ha
      obtain ⟨hlength, hid⟩ := Crypto.sigToPub_valid hpub
      obtain ⟨hlength', hid'⟩ := normalizeRecoveryID_spec hv
      exact ⟨bytes, v, hbytes, hlength'.symm.trans hlength, hv, hid' ▸ hid⟩

/-- The check is robust exactly if the signature is not one in hexadecimal that is too
    short. -/
theorem robustCheck_iff {addr sign message : String} {nonce : Option Hash} :
    RobustCheck addr sign message nonce ↔ ¬ IsShortHex sign := by
  rw [isShortHex_iff, ← @exists_panic_iff _ addr sign message nonce, not_exists]
  exact ⟨fun h => h.no_panic, fun h => ⟨h, hasRecoveryID_of_verifySignature⟩⟩

end

/-- The check of the signature `0x`, of no bytes, panics. -/
theorem not_robustCheck_empty :
    ¬ @RobustCheck (.ofTables [] [] []) "" "0x" "Mint NFT" none := by
  rintro ⟨hpanic, -⟩
  exact hpanic "index out of range" (by decide +kernel)

end Knowtfolio
