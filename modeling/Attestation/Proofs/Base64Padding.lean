import Attestation.Blob
import Attestation.Proofs.Base64Decoding

namespace Attestation.Proofs.Base64Padding

open Base64 Base64Decoding Base64Encoding Utf8Encoding

theorem decode_eq_ok_iff_encode {v : Variant} (hv : Sound v) (ht : Tight v) {s : String}
    {bytes : List UInt8} :
    decode v (Text.Utf8.encode s) = .ok bytes ↔ s = encode v bytes := by
  rw [decode_eq_ok_iff hv ht, ← bytes_encode hv]
  constructor
  · exact encode_injective
  · exact congrArg Text.Utf8.encode

theorem ofText_eq_ok_iff {v : Variant} {wrap : String → String} {s : String}
    {bytes : List UInt8} :
    Blob.ofText v wrap s = .ok bytes ↔ decode v (Text.Utf8.encode s) = .ok bytes := by
  rw [Blob.ofText]
  cases decode v (Text.Utf8.encode s) with
  | ok read => simp only [Except.ok.injEq]
  | error e => simp only [reduceCtorEq]

def unpadded (cs : List Char) : List Char := (cs.reverse.dropWhile (· == '=')).reverse

theorem unpadded_append (cs : List Char) (k : Nat) :
    unpadded (cs ++ List.replicate k '=') = unpadded cs := by
  have hpads : ∀ c ∈ List.replicate k '=', (c == '=') = true := by
    intro c hc
    rw [List.eq_of_mem_replicate hc]
    rfl
  rw [unpadded, List.reverse_append, List.reverse_replicate, List.dropWhile_append_of_pos hpads,
    unpadded]

theorem exists_pads (cs : List Char) : ∃ k, cs = unpadded cs ++ List.replicate k '=' := by
  refine ⟨(cs.reverse.takeWhile (· == '=')).length, ?_⟩
  have hpads : cs.reverse.takeWhile (· == '=') =
      List.replicate (cs.reverse.takeWhile (· == '=')).length '=' := by
    apply List.eq_replicate_iff.mpr
    refine ⟨rfl, ?_⟩
    intro c hc
    simpa using List.all_eq_true.mp List.all_takeWhile c hc
  have hsplit := List.takeWhile_append_dropWhile (p := (· == '=')) (l := cs.reverse)
  rw [hpads] at hsplit
  have hback := congrArg List.reverse hsplit
  rw [List.reverse_append, List.reverse_replicate, List.reverse_reverse] at hback
  exact hback.symm

theorem unpadded_eq_self {cs : List Char} (h : '=' ∉ cs) : unpadded cs = cs := by
  have hstop : cs.reverse.dropWhile (· == '=') = cs.reverse := by
    cases hr : cs.reverse with
    | nil => rfl
    | cons c rest =>
      have hc : c ≠ '=' := by
        rintro rfl
        exact h (List.mem_reverse.mp (hr ▸ List.mem_cons_self))
      exact List.dropWhile_cons_of_neg (by simpa using hc)
  rw [unpadded, hstop, List.reverse_reverse]

theorem not_mem_encode (bytes : List UInt8) : '=' ∉ (encode urlSafe bytes).toList := by
  rw [encode, String.toList_ofList]
  intro hm
  obtain ⟨b, hb, hchar⟩ := List.mem_map.mp hm
  have hbyte : ∀ b : UInt8, b ≠ padByte → Char.ofNat b.toNat ≠ '=' := forall_byte (by decide)
  exact hbyte b (encodeBytes_unpadded urlSafe_sound rfl bytes b hb) hchar

/-- Without its padding, a text is read as bytes iff it is their text with some padding. -/
theorem decode_unpadded_iff {s : String} {bytes : List UInt8} :
    decode urlSafe (Text.Utf8.encode (String.ofList (unpadded s.toList))) = .ok bytes ↔
      ∃ k, s.toList = (encode urlSafe bytes).toList ++ List.replicate k '=' := by
  rw [decode_eq_ok_iff_encode urlSafe_sound urlSafe_tight, ← String.toList_inj,
    String.toList_ofList]
  constructor
  · intro h
    rw [← h]
    exact exists_pads s.toList
  · rintro ⟨k, hs⟩
    rw [hs, unpadded_append, unpadded_eq_self (not_mem_encode bytes)]

end Attestation.Proofs.Base64Padding
