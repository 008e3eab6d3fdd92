import Attestation.Compositor.Request
import Attestation.Hex
import Attestation.Proofs.Base64Padding

namespace Attestation.Proofs.NonceText

open Compositor Base64Padding Utf8Encoding

/-- The base64 text of a nonce with padding behind it, which may be of any length. -/
def spelling (nonce : List UInt8) (pads : Nat) : String :=
  String.ofList ((Base64.encode Base64.urlSafe nonce).toList ++ List.replicate pads '=')

theorem toList_spelling (nonce : List UInt8) (pads : Nat) : (spelling nonce pads).toList =
    (Base64.encode Base64.urlSafe nonce).toList ++ List.replicate pads '=' :=
  String.toList_ofList

/-- A nonce is accepted in all of its spellings and in no other text. -/
theorem decodeNonce_eq_ok_iff {s : String} {nonce : List UInt8} :
    decodeNonce s = .ok nonce ↔ nonce ≠ [] ∧ ∃ pads, s = spelling nonce pads := by
  simp only [← String.toList_inj, toList_spelling, ← decode_unpadded_iff, decodeNonce, unpadded]
  cases Base64.decode Base64.urlSafe (Text.Utf8.encode (String.ofList
    (s.toList.reverse.dropWhile (· == '=')).reverse)) with
  | error e => simp only [reduceCtorEq, and_false]
  | ok read =>
    cases read with
    | nil =>
      simp only [Except.ok.injEq, reduceCtorEq, false_iff, not_and]
      intro hne heq
      exact hne heq.symm
    | cons b rest =>
      simp only [Except.ok.injEq, iff_and_self]
      rintro rfl
      exact List.cons_ne_nil b rest

theorem decodeNonce_spelling {nonce : List UInt8} (h : nonce ≠ []) (pads : Nat) :
    decodeNonce (spelling nonce pads) = .ok nonce :=
  decodeNonce_eq_ok_iff.mpr ⟨h, pads, rfl⟩

theorem spelling_ne_empty {nonce : List UInt8} (h : nonce ≠ []) (pads : Nat) :
    spelling nonce pads ≠ "" := by
  intro he
  have hdecode := decodeNonce_spelling h pads
  rw [he] at hdecode
  cases hdecode

def hexDigits (bytes : List UInt8) : List Char :=
  bytes.flatMap fun b => [Nat.digitChar (b.toNat / 16), Nat.digitChar (b.toNat % 16)]

theorem digits_byte : ∀ b : UInt8, [Hex.digit (b >>> 4), Hex.digit (b &&& 0x0F)] =
    [Nat.digitChar (b.toNat / 16), Nat.digitChar (b.toNat % 16)] :=
  forall_byte (by decide)

theorem hex_encode (bytes : List UInt8) : Hex.encode bytes = String.ofList (hexDigits bytes) := by
  rw [Hex.encode, hexDigits]
  exact congrArg String.ofList (congrArg bytes.flatMap (funext digits_byte))

theorem length_hexDigits (bytes : List UInt8) : (hexDigits bytes).length = 2 * bytes.length := by
  induction bytes with
  | nil => rfl
  | cons b bytes ih =>
    rw [hexDigits, List.flatMap_cons, List.length_append, ← hexDigits, ih, List.length_cons]
    simp only [List.length_cons, List.length_nil]
    omega

end Attestation.Proofs.NonceText
