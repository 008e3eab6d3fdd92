import Attestation.Proofs.Base64Encoding

namespace Attestation.Proofs.Base64Decoding

open Base64 Base64Encoding Utf8Encoding

/-- An alphabet in which no byte stands for a value but the symbol of the value. -/
def Tight (v : Variant) : Prop := ∀ b n, v.value? b = some n → n < 64 ∧ v.symbol n = b

theorem tight_of_table {v : Variant}
    (h : ∀ b, (v.value? b).all (fun n => n < 64 ∧ v.symbol n = b) = true) : Tight v := by
  intro b n hn
  simpa [hn] using h b

theorem standard_tight : Tight standard := tight_of_table (forall_byte (by decide))

theorem urlSafe_tight : Tight urlSafe := tight_of_table (forall_byte (by decide))

theorem or_and (x y m : UInt8) : (x ||| y) &&& m = (x &&& m) ||| (y &&& m) :=
  UInt8.eq_of_toBitVec_eq (by simp [BitVec.and_or_distrib_right])

theorem parts_join {p q r s : UInt8} (hp : p < 64) (hq : q < 64) (hr : r < 64) (hs : s < 64) :
    first (join p q r s).1 = p ∧ second (join p q r s).1 (join p q r s).2.1 = q ∧
      third (join p q r s).2.1 (join p q r s).2.2 = r ∧ fourth (join p q r s).2.2 = s := by
  have p1 := forall_sextet (P := fun p => p <<< 2 >>> 2 = p) (by decide) p hp
  have p2 := forall_sextet (P := fun p => (p <<< 2 &&& 0x03) = 0) (by decide) p hp
  have q1 := forall_sextet (P := fun q => q >>> 4 >>> 2 = 0) (by decide) q hq
  have q2 := forall_sextet (P := fun q => (q >>> 4 &&& 0x03) <<< 4 ||| q <<< 4 >>> 4 = q)
    (by decide) q hq
  have q3 := forall_sextet (P := fun q => (q <<< 4 &&& 0x0F) = 0) (by decide) q hq
  have r1 := forall_sextet (P := fun r => r >>> 2 >>> 4 = 0) (by decide) r hr
  have r2 := forall_sextet (P := fun r => (r >>> 2 &&& 0x0F) <<< 2 ||| r <<< 6 >>> 6 = r)
    (by decide) r hr
  have r3 := forall_sextet (P := fun r => (r <<< 6 &&& 0x3F) = 0) (by decide) r hr
  have s1 := forall_sextet (P := fun s => s >>> 6 = 0) (by decide) s hs
  have s2 := forall_sextet (P := fun s => (s &&& 0x3F) = s) (by decide) s hs
  refine ⟨?_, ?_, ?_, ?_⟩ <;>
    simp only [join, first, second, third, fourth, or_and, UInt8.shiftLeft_or, UInt8.shiftRight_or]
  · rw [p1, q1, UInt8.or_zero]
  · rw [p2, r1, UInt8.or_zero, UInt8.zero_shiftLeft, UInt8.zero_or, q2]
  · rw [q3, s1, UInt8.or_zero, UInt8.zero_shiftLeft, UInt8.zero_or, r2]
  · rw [r3, UInt8.zero_or, s2]

theorem encodeBytes_join (v : Variant) {p q r s : UInt8} (hp : p < 64) (hq : q < 64) (hr : r < 64)
    (hs : s < 64) (rest : List UInt8) :
    encodeBytes v ((join p q r s).1 :: (join p q r s).2.1 :: (join p q r s).2.2 :: rest) =
      v.symbol p :: v.symbol q :: v.symbol r :: v.symbol s :: encodeBytes v rest := by
  obtain ⟨h1, h2, h3, h4⟩ := parts_join hp hq hr hs
  rw [encodeBytes_cons, h1, h2, h3, h4]

theorem encodeBytes_joinThree (v : Variant) {p q r : UInt8} (hp : p < 64) (hq : q < 64)
    (hr : r < 64) (h : (join p q r 0).2.2 = 0) :
    encodeBytes v [(join p q r 0).1, (join p q r 0).2.1] = [p, q, r].map v.symbol ++ pads v 1 := by
  obtain ⟨h1, h2, h3, _⟩ := parts_join hp hq hr (s := 0) (by decide)
  rw [h] at h3
  rw [encodeBytes_pair, h1, h2, h3]

theorem encodeBytes_joinTwo (v : Variant) {p q : UInt8} (hp : p < 64) (hq : q < 64)
    (h : (join p q 0 0).2.1 = 0) :
    encodeBytes v [(join p q 0 0).1] = [p, q].map v.symbol ++ pads v 2 := by
  obtain ⟨h1, h2, _⟩ := parts_join hp hq (r := 0) (s := 0) (by decide) (by decide)
  rw [h] at h2
  rw [encodeBytes_single, h1, h2]

theorem firstBad_eq_none {v : Variant} {offset : Nat} {bs : List UInt8}
    (h : v.firstBad offset bs = none) : ∀ b ∈ bs, (v.value? b).isSome := by
  induction bs generalizing offset with
  | nil => exact nofun
  | cons b bs ih =>
    rw [Variant.firstBad] at h
    split at h
    · rename_i hb
      exact List.forall_mem_cons.mpr ⟨hb, ih h⟩
    · cases h

theorem exists_values {v : Variant} (ht : Tight v) {bs : List UInt8}
    (h : ∀ b ∈ bs, (v.value? b).isSome) :
    ∃ ns, (∀ n ∈ ns, n < 64) ∧ bs = ns.map v.symbol ∧ bs.filterMap v.value? = ns := by
  induction bs with
  | nil => exact ⟨[], nofun, rfl, rfl⟩
  | cons b bs ih =>
    obtain ⟨hb, hbs⟩ := List.forall_mem_cons.mp h
    obtain ⟨n, hn⟩ := Option.isSome_iff_exists.mp hb
    obtain ⟨hlt, hsym⟩ := ht b n hn
    obtain ⟨ns, hns, heq, hval⟩ := ih hbs
    refine ⟨n :: ns, List.forall_mem_cons.mpr ⟨hlt, hns⟩, ?_, ?_⟩
    · rw [List.map_cons, hsym, heq]
    · rw [List.filterMap_cons_some hn, hval]

theorem split_eq_ok {v : Variant} {offset : Nat} {group body : List UInt8} {k : Nat}
    (h : v.split offset group = .ok (body, k)) :
    group = body ++ List.replicate k padByte ∧ ∀ b ∈ body, (v.value? b).isSome := by
  have hfront := List.prefix_iff_eq_append.mp (List.takeWhile_prefix (l := group) (· != padByte))
  unfold Variant.split at h
  simp only at h
  generalize group.takeWhile (· != padByte) = front at h hfront
  generalize group.drop front.length = tail at h hfront
  split at h
  · cases h
  · rename_i hgood
    split at h
    · rename_i htail
      cases h
      rw [List.isEmpty_iff] at htail
      rw [← hfront, htail]
      exact ⟨rfl, firstBad_eq_none hgood⟩
    · split at h
      · cases h
      · rename_i hany
        cases h
        have hpads : tail = List.replicate tail.length padByte := by
          refine List.eq_replicate_iff.mpr ⟨rfl, fun b hb => ?_⟩
          simp only [not_or, List.any_eq_true, not_exists, not_and] at hany
          simpa using hany.2 b hb
        rw [← hpads]
        exact ⟨hfront.symm, firstBad_eq_none hgood⟩

theorem replicate_eq_pads {v : Variant} {n k : Nat} (hroom : n + k ≤ 4)
    (hfull : ¬(v.padded = true ∧ (n + k) % 4 ≠ 0)) (hbare : ¬(¬v.padded = true ∧ k ≠ 0))
    (htwo : 2 ≤ n) : List.replicate k padByte = pads v (4 - n) := by
  cases hp : v.padded with
  | true =>
    have hk : k = 4 - n := by
      have := not_and.mp hfull hp
      omega
    rw [pads, if_pos hp, hk]
  | false =>
    have hk : k = 0 := by simpa [hp] using hbare
    rw [pads, if_neg (by simp [hp]), hk]
    rfl

theorem lastGroup_sound {v : Variant} (ht : Tight v) {offset : Nat} {read group out : List UInt8}
    (hlen : group.length ≤ 4) (h : v.lastGroup offset read group = .ok out) :
    ∃ bytes, group = encodeBytes v bytes ∧ out = bytes.reverse ++ read := by
  unfold Variant.lastGroup at h
  split at h
  · cases h
  · rename_i body k hsplit
    obtain ⟨hgroup, hgood⟩ := split_eq_ok hsplit
    obtain ⟨ns, hns, rfl, hval⟩ := exists_values ht hgood
    rw [hval] at h
    have hroom : ns.length + k ≤ 4 := by simpa [hgroup] using hlen
    split at h
    · cases h
    · rename_i hshort
      split at h
      · cases h
      · rename_i hfull
        split at h
        · cases h
        · rename_i hbare
          rw [List.length_map] at hfull
          have hpads := replicate_eq_pads hroom hfull hbare
          match ns with
          | [] =>
            have hempty : group = [] := by simpa using hshort
            cases h
            exact ⟨[], hempty, rfl⟩
          | [p] => simp [hgroup] at hshort
          | [p, q] =>
            rw [hgroup, hpads (by simp)]
            simp only [List.map_cons, List.map_nil, List.getLast?_cons_cons,
              List.getLast?_singleton] at h
            split at h
            · rename_i hzero
              cases h
              exact ⟨_, (encodeBytes_joinTwo v (hns p (by simp)) (hns q (by simp)) hzero).symm, rfl⟩
            · cases h
          | [p, q, r] =>
            rw [hgroup, hpads (by simp)]
            simp only [List.map_cons, List.map_nil, List.getLast?_cons_cons,
              List.getLast?_singleton] at h
            split at h
            · rename_i hzero
              cases h
              exact ⟨_, (encodeBytes_joinThree v (hns p (by simp)) (hns q (by simp))
                (hns r (by simp)) hzero).symm, rfl⟩
            · cases h
          | [p, q, r, s] =>
            have hjoin := encodeBytes_join v (hns p (by simp)) (hns q (by simp)) (hns r (by simp))
              (hns s (by simp)) []
            have hnone : pads v 0 = [] := by cases hp : v.padded <;> simp [pads, hp]
            rw [hgroup, hpads (by simp), List.length_cons]
            cases h
            exact ⟨_, by rw [hjoin]; simpa [encodeBytes_nil] using hnone, rfl⟩
          | _ :: _ :: _ :: _ :: _ :: _ =>
            simp only [List.length_cons] at hroom
            omega

theorem groups_sound {v : Variant} (ht : Tight v) {offset : Nat} {read text out : List UInt8}
    (h : v.groups offset read text = .ok out) :
    ∃ bytes, text = encodeBytes v bytes ∧ out = bytes.reverse ++ read := by
  induction offset, read, text using Variant.groups.induct v with
  | case1 offset read a b c d e rest p q r s hs hr hq hp x y z hxyz ih =>
    rw [Variant.groups] at h
    simp only [hp, hq, hr, hs, hxyz] at h
    obtain ⟨bytes, htext, rfl⟩ := ih h
    obtain ⟨hlp, rfl⟩ := ht a p hp
    obtain ⟨hlq, rfl⟩ := ht b q hq
    obtain ⟨hlr, rfl⟩ := ht c r hr
    obtain ⟨hls, rfl⟩ := ht d s hs
    have hjoin := encodeBytes_join v hlp hlq hlr hls bytes
    rw [hxyz] at hjoin
    exact ⟨x :: y :: z :: bytes, by rw [hjoin, htext], by simp⟩
  | case2 offset read a b c d e rest hnone =>
    rw [Variant.groups] at h
    split at h
    · rename_i p q r s hp hq hr hs
      exact (hnone p q r s hp hq hr hs).elim
    · cases h
  | case3 offset read group hshort =>
    have hlen : group.length ≤ 4 := by
      rcases group with _ | ⟨a, _ | ⟨b, _ | ⟨c, _ | ⟨d, _ | ⟨e, rest⟩⟩⟩⟩⟩
      case cons.cons.cons.cons.cons => exact (hshort a b c d e rest rfl).elim
      all_goals simp
    rw [groups_short hlen] at h
    exact lastGroup_sound ht hlen h

theorem decode_eq_ok_iff {v : Variant} (hv : Sound v) (ht : Tight v) (text bytes : List UInt8) :
    decode v text = .ok bytes ↔ text = encodeBytes v bytes := by
  constructor
  · intro h
    unfold decode at h
    split at h
    · cases h
    · cases hg : v.groups 0 [] text with
      | error e => simp [hg, Except.map] at h
      | ok out =>
        obtain ⟨bytes', htext, rfl⟩ := groups_sound ht hg
        simp only [hg, Except.map, List.append_nil, List.reverse_reverse, Except.ok.injEq] at h
        rw [htext, h]
  · rintro rfl
    exact decode_encodeBytes hv bytes

end Attestation.Proofs.Base64Decoding
