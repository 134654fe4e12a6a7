import Knowtfolio.Data.Hex
import Mathlib.Algebra.Group.Defs
import Mathlib.Tactic.SplitIfs

/-!
# Addresses and hashes

`common.Address` and `common.Hash` of go-ethereum, with their spellings. An
address is spelled with the checksum of EIP-55: the case of its letters is
given by a hash of its lower-case digits. Reading a spelling ignores case, so
that reading gives back what was spelled (`hexToAddress_string`), while one
address has many texts that denote it, of which one only is its spelling.

The hash function and the recovery of public keys are those of the crypto
packages (`Crypto`).
-/

namespace Knowtfolio

/-- A string of `n` bytes. -/
structure Bytes (n : ℕ) where
  toList : List UInt8
  length_eq : toList.length = n
  deriving DecidableEq

/-- Bytes are equal if their lists are. -/
theorem Bytes.ext {n : ℕ} {a b : Bytes n} (h : a.toList = b.toList) : a = b := by
  cases a; cases b; cases h; rfl

instance (n : ℕ) : Zero (Bytes n) := ⟨⟨List.replicate n 0, List.length_replicate⟩⟩

/-- `SetBytes`: the last `n` bytes of `b`, or all of them after zeros. -/
def Bytes.ofList (n : ℕ) (b : List UInt8) : Bytes n where
  toList := List.replicate (n - b.length) 0 ++ b.drop (b.length - n)
  length_eq := by simp; omega

@[simp] theorem Bytes.ofList_toList {n : ℕ} (a : Bytes n) : Bytes.ofList n a.toList = a := by
  apply Bytes.ext
  simp [Bytes.ofList, a.length_eq]

/-- `common.Address`. -/
abbrev Address := Bytes 20

/-- The address ending in the byte `n`, of which the other bytes are zero. -/
def Address.ofByte (n : UInt8) : Address := .ofList 20 [n]

/-- `common.Hash`. -/
abbrev Hash := Bytes 32

/-- The public key of an account. -/
abbrev PublicKey := Bytes 64

/-- The crypto package of go-ethereum. `crypto.SigToPub` refuses signatures that
    are not 65 bytes long, or whose recovery id is above 3. -/
class Crypto where
  keccak256 : List UInt8 → Hash
  sigToPub : Hash → List UInt8 → Option PublicKey
  pubkeyToAddress : PublicKey → Address
  sigToPub_valid : ∀ {hash sig key}, sigToPub hash sig = some key →
    sig.length = 65 ∧ sig.getD 64 0 ≤ 3

/-- The crypto package as far as finite tables of hashes and keys tell it. -/
@[reducible] def Crypto.ofTables (hashes : List (List UInt8 × Hash))
    (keys : List ((Hash × List UInt8) × PublicKey)) (addresses : List (PublicKey × Address)) :
    Crypto where
  keccak256 data := (hashes.lookup data).getD 0
  sigToPub hash sig :=
    if sig.length = 65 ∧ sig.getD 64 0 ≤ 3 then keys.lookup (hash, sig) else none
  pubkeyToAddress key := (addresses.lookup key).getD 0
  sigToPub_valid h := by
    split_ifs at h with hsig
    exact hsig

/-! ## Reading -/

/-- `has0xPrefix`, and what follows the prefix. -/
def strip0x : List UInt8 → Option (List UInt8)
  | a :: b :: rest => if a = 48 ∧ (b = 120 ∨ b = 88) then some rest else none
  | _ => none

/-- `common.FromHex`: the bytes of a text, as far as it is hexadecimal. -/
def fromHex (s : String) : List UInt8 :=
  let digits := (strip0x (Hex.utf8 s)).getD (Hex.utf8 s)
  Hex.decodePrefix (if digits.length % 2 = 1 then 48 :: digits else digits)

/-- `common.HexToAddress`. -/
def hexToAddress (s : String) : Address := .ofList 20 (fromHex s)

/-- `common.HexToHash`. -/
def hexToHash (s : String) : Hash := .ofList 32 (fromHex s)

/-! ## Spelling -/

/-- `0x` and the digits of `bs`, those at the places of `upper` in upper case. -/
def spell (upper : ℕ → Bool) (bs : List UInt8) : String :=
  Hex.ascii (48 :: 120 :: Hex.encode upper bs)

/-- How a text of digits is encoded: `0x`, and the digits. -/
theorem utf8_spell (upper : ℕ → Bool) (bs : List UInt8) :
    Hex.utf8 (spell upper bs) = 48 :: 120 :: Hex.encode upper bs := by
  refine Hex.utf8_ascii fun b hb => ?_
  rcases List.mem_cons.1 hb with rfl | hb
  · decide
  rcases List.mem_cons.1 hb with rfl | hb
  · decide
  · exact Hex.encode_lt b hb

/-- Whatever the case of the digits, they are read back. -/
@[simp] theorem fromHex_spell (upper : ℕ → Bool) (bs : List UInt8) :
    fromHex (spell upper bs) = bs := by
  simp [fromHex, utf8_spell, strip0x, Hex.decodePrefix_encode]

/-- `Hash.Hex`. -/
def Hash.hex (h : Hash) : String := spell (fun _ => false) h.toList

@[simp] theorem hexToHash_hex (h : Hash) : hexToHash h.hex = h := by
  rw [hexToHash, Hash.hex, fromHex_spell, Bytes.ofList_toList]

/-- The text of a hash determines it. -/
theorem Hash.hex_injective {h h' : Hash} (hh : h.hex = h'.hex) : h = h' := by
  rw [← hexToHash_hex h, hh, hexToHash_hex]

section

variable [Crypto]

/-- Whether the checksum puts the digit at the place `i` in upper case. -/
def Address.checksumUpper (a : Address) (i : ℕ) : Bool :=
  7 < (Hex.halves (Crypto.keccak256 (Hex.encode (fun _ => false) a.toList)).toList).getD i 0

/-- `Address.String`: the spelling of EIP-55. -/
def Address.string (a : Address) : String := spell a.checksumUpper a.toList

@[simp] theorem hexToAddress_string (a : Address) : hexToAddress a.string = a := by
  rw [hexToAddress, Address.string, fromHex_spell, Bytes.ofList_toList]

/-- The checksummed text of an address determines it. -/
theorem Address.string_injective {a b : Address} (h : a.string = b.string) : a = b := by
  rw [← hexToAddress_string a, h, hexToAddress_string]

@[simp] theorem Address.string_inj {a b : Address} : a.string = b.string ↔ a = b :=
  ⟨Address.string_injective, fun h => h ▸ rfl⟩

/-- A text that is the spelling of the address it denotes. -/
def Checksummed (s : String) : Prop := (hexToAddress s).string = s

instance (s : String) : Decidable (Checksummed s) := inferInstanceAs (Decidable (_ = _))

/-- The text of an address is checksummed. -/
theorem checksummed_string (a : Address) : Checksummed a.string := by
  rw [Checksummed, hexToAddress_string]

/-- The tag `eth_addr` of the validator: `0x` and forty digits, whose letters are all
    in lower case, all in upper case, or in the case of EIP-55. -/
def isEthAddr (s : String) : Bool :=
  let a := hexToAddress s
  s = spell (fun _ => false) a.toList || s = spell (fun _ => true) a.toList || s = a.string

/-- The texts that are accepted as addresses: digits in lower case, in upper case, or with the
    checksum. -/
theorem isEthAddr_iff {s : String} : isEthAddr s = true ↔ ∃ a : Address,
    s = spell (fun _ => false) a.toList ∨ s = spell (fun _ => true) a.toList ∨ s = a.string := by
  have hread : ∀ (upper : ℕ → Bool) (a : Address), hexToAddress (spell upper a.toList) = a :=
    fun upper a => by rw [hexToAddress, fromHex_spell, Bytes.ofList_toList]
  simp only [isEthAddr, Bool.or_eq_true, decide_eq_true_eq, or_assoc]
  constructor
  · exact fun h => ⟨_, h⟩
  · rintro ⟨a, rfl | rfl | rfl⟩
    · exact .inl (by rw [hread])
    · exact .inr (.inl (by rw [hread]))
    · exact .inr (.inr (by rw [hexToAddress_string]))

/-- The text of an address, as the validator lets it through. -/
structure EthAddr where
  text : String
  isEthAddr_text : isEthAddr text = true

end

end Knowtfolio
