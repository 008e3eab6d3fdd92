import Attestation.Compositor.Request
import Attestation.Proofs.JsonReading
import Attestation.Proofs.Numerals
import Attestation.Tsm.Attester

namespace Attestation.Proofs.OptionsText

open Compositor Tsm Json JsonReading JsonRecords JsonText JsonValues Numerals Utf8Encoding

theorem inner_text {p q : Place} (hp : p.origin = .text) (h : p.inner = .ok q) :
    p.depth < maxDepth ∧ q.origin = .text ∧ q.depth = p.depth + 1 := by
  unfold Place.inner at h
  split at h
  · cases h
  · rename_i hnot
    cases h
    exact ⟨Nat.lt_of_not_le fun hle => hnot ⟨hp, hle⟩, hp, rfl⟩

/- A value that was read from text is not nested deeper than text may be. -/
mutual

theorem nesting_of_value : ∀ (t : Tree) {p : Place} {v : Value}, p.origin = .text →
    Decoder.value p t = .ok v → nesting v ≤ maxDepth - p.depth
  | .null, _, _, _, h | .bool _, _, _, _, h | .number (some _), _, _, _, h
  | .string (some _), _, _, _, h => by
    simp only [Decoder.value] at h
    cases h
    exact Nat.zero_le _
  | .number none, _, _, _, h | .string none, _, _, _, h | .broken, _, _, _, h => by
    simp [Decoder.value] at h
  | .array ts closed, p, v, hp, h => by
    rw [Decoder.value] at h
    obtain ⟨q, hq, h⟩ := (bind_ok_iff _ _ _).mp h
    obtain ⟨vs, hvs, h⟩ := (bind_ok_iff _ _ _).mp h
    cases ending_eq_ok h
    obtain ⟨hlt, hq, hdepth⟩ := inner_text hp hq
    have hitems := nesting_of_valueItems ts hq hvs nofun
    have hle : nestingItems vs ≤ maxDepth - q.depth := nestingItems_le_iff.mpr hitems
    rw [nesting]
    omega
  | .object ms closed, p, v, hp, h => by
    rw [Decoder.value] at h
    obtain ⟨q, hq, h⟩ := (bind_ok_iff _ _ _).mp h
    obtain ⟨pairs, hpairs, h⟩ := (bind_ok_iff _ _ _).mp h
    cases ending_eq_ok h
    obtain ⟨hlt, hq, hdepth⟩ := inner_text hp hq
    have hmembers := nesting_of_valueMembers ms hq hpairs nofun
    have hle : nestingMembers (Table.ofList pairs) ≤ maxDepth - q.depth :=
      nestingMembers_le_iff.mpr fun m hm => hmembers m (mem_of_mem_ofList hm)
    rw [nesting]
    omega

theorem nesting_of_valueItems : ∀ (ts : List Tree) {p : Place} {done vs : List Value},
    p.origin = .text → Decoder.valueItems p done ts = .ok vs →
    (∀ v ∈ done, nesting v ≤ maxDepth - p.depth) → ∀ v ∈ vs, nesting v ≤ maxDepth - p.depth
  | [], _, _, _, _, h, hdone => by
    rw [Decoder.valueItems] at h
    cases h
    exact fun v hv => hdone v (List.mem_reverse.mp hv)
  | t :: ts, _, _, _, hp, h, hdone => by
    rw [Decoder.valueItems] at h
    obtain ⟨v, hv, h⟩ := (bind_ok_iff _ _ _).mp h
    exact nesting_of_valueItems ts hp h
      (List.forall_mem_cons.mpr ⟨nesting_of_value t hp hv, hdone⟩)

theorem nesting_of_valueMembers : ∀ (ts : List (Option String × Tree)) {p : Place}
    {done ms : List (String × Value)}, p.origin = .text →
    Decoder.valueMembers p done ts = .ok ms →
    (∀ m ∈ done, nesting m.2 ≤ maxDepth - p.depth) → ∀ m ∈ ms, nesting m.2 ≤ maxDepth - p.depth
  | [], _, _, _, _, h, hdone => by
    rw [Decoder.valueMembers] at h
    cases h
    exact fun m hm => hdone m (List.mem_reverse.mp hm)
  | (k, t) :: ts, _, _, _, hp, h, hdone => by
    rw [Decoder.valueMembers] at h
    obtain ⟨k, _, h⟩ := (bind_ok_iff _ _ _).mp h
    obtain ⟨v, hv, h⟩ := (bind_ok_iff _ _ _).mp h
    exact nesting_of_valueMembers ts hp h
      (List.forall_mem_cons.mpr ⟨nesting_of_value t hp hv, hdone⟩)

end

theorem nesting_selection {body : List UInt8} {c : Challenge}
    (h : Decoder.run Challenge.record.decode body = .ok c) {v : Value}
    (hv : c.selection = some v) : nesting v ≤ maxDepth := by
  have hkeeps : KeepsFrom (fun c : Challenge => ∀ v, c.selection = some v → nesting v ≤ maxDepth)
      .text Challenge.record.slots := by
    intro s hs p t c c' hp hc hread v hv
    simp only [Challenge.record, List.mem_cons, List.not_mem_nil, or_false] at hs
    obtain rfl | rfl := hs
    · obtain ⟨x, _, rfl⟩ := (map_ok_iff _ _ _).mp hread
      exact hc v hv
    · obtain ⟨x, hx, rfl⟩ := (map_ok_iff _ _ _).mp hread
      change x = some v at hv
      subst hv
      unfold Decoder.optional at hx
      split at hx
      · cases hx
      · obtain ⟨w, hw, hwv⟩ := (map_ok_iff _ _ _).mp hx
        cases hwv
        exact Nat.le_trans (nesting_of_value t hp hw) (Nat.sub_le _ _)
  obtain ⟨c', hdecode, hend⟩ := (bind_ok_iff _ _ _).mp h
  cases ending_eq_ok hend
  exact decode_keepsFrom Challenge.record (p := ⟨.text, 0⟩) (fun v h => by cases h) hkeeps hdecode
    v hv

theorem membersFrom_memberTreesOf {p : Place} (ms : List (String × Value))
    (h : ∀ m ∈ ms, Roomy p (nesting m.2)) (done : List (String × Value)) :
    Decoder.membersFrom .value p done (Value.memberTreesOf ms) =
      .ok (done.reverse ++ ms.map fun m => (m.1, m.2.sorted)) := by
  induction ms generalizing done with
  | nil => simp [Value.memberTreesOf, Decoder.membersFrom]
  | cons m ms ih =>
    obtain ⟨hm, hms⟩ := List.forall_mem_cons.mp h
    have hvalue := reads_value m.2 p hm
    have hrest := ih hms ((m.1, m.2.sorted) :: done)
    simp [Value.memberTreesOf, Decoder.membersFrom, Decoder.key, bind, Except.bind, hvalue, hrest]

theorem reads_members {ms : List (String × Value)} {n : Nat} (hn : nestingMembers ms ≤ n) :
    Reads (.members .value) (n + 1) (.object ms) (ms.map fun m => (m.1, m.2.sorted)) := by
  intro p hp
  obtain ⟨q, hq, _, hroom⟩ := exists_inner hp
  have hmembers := membersFrom_memberTreesOf (p := q) ms
    (fun m hm => roomy_of_le hroom (nestingMembers_le_iff.mp hn m hm)) []
  simp [Value.toTree, Decoder.members, hq, bind, Except.bind, hmembers, Decoder.ending]

theorem run_members_text {ms : List (String × Value)} (hx : Exact (.object ms))
    (hn : nesting (.object ms) ≤ maxDepth) :
    Decoder.run (.members .value) (Text.Utf8.encode (Value.object ms).text) =
      .ok (ms.map fun m => (m.1, m.2.sorted)) := by
  have htext : Text.Utf8.encode (Value.object ms).text = bytesOf (Value.object ms).render :=
    encode_ofList _
  have hread : Reads (.members .value) (nesting (.object ms)) (.object ms)
      (ms.map fun m => (m.1, m.2.sorted)) := reads_members (Nat.le_refl _)
  rw [htext]
  exact run_text hread hn hx

theorem get?_map (ms : List (String × Value)) (f : Value → Value) (k : String) :
    Value.get? (ms.map fun m => (m.1, f m.2)) k = (Value.get? ms k).map f := by
  simp only [Value.get?, ← List.map_reverse, List.find?_map, Function.comp_def, Option.map_map]

/-- The ways to put a privilege level into the options of an attester: not at all if it is zero,
as an integer, or as text in decimal digits. -/
inductive Spells (level : UInt32) : Option Value → Prop
  | absent (h : level = 0) : Spells level none
  | null (h : level = 0) : Spells level (some .null)
  | integer : Spells level (some (.number (.nat level.toUInt64)))
  | text (s : String) (hne : s ≠ "") (hd : ∀ c ∈ s.toList, c.isDigit = true)
    (hv : Nat.ofDigitChars 10 s.toList 0 = level.toNat) : Spells level (some (.string s))

theorem levelOfValue_text {level : UInt32} {s : String} (hne : s ≠ "")
    (hd : ∀ c ∈ s.toList, c.isDigit = true)
    (hv : Nat.ofDigitChars 10 s.toList 0 = level.toNat) : levelOfValue (.string s) = .ok level := by
  have hcs : s.toList ≠ [] := fun he => hne (String.toList_eq_nil_iff.mp he)
  have hnumeral : Numeral (s.toList ++ []) _ := numeral_of_digits hcs hd nofun
  rw [List.append_nil, hv] at hnumeral
  have hread : Text.natBelow? UInt32.size (Text.trim s) = some level.toNat :=
    natBelow?_trim_iff.mpr ⟨hnumeral, level.toNat_lt_size⟩
  simp only [levelOfValue, hread, UInt32.ofNat_toNat]

theorem level_of_spells {level : UInt32} {v : Value} (h : Spells level (some v)) :
    levelOfValue v.sorted = .ok level := by
  cases h with
  | null h =>
    rw [h]
    rfl
  | integer =>
    have hlt : level.toNat < UInt32.size := level.toNat_lt_size
    have hsize : level.toUInt64.toNat = level.toNat := UInt32.toNat_toUInt64 level
    simp only [Value.sorted, levelOfValue, hsize, if_pos hlt, UInt32.toUInt32_toUInt64]
  | text s hne hd hv => exact levelOfValue_text hne hd hv

/-- The attester reads the privilege level that the options spell. -/
theorem privilegeLevel_text {ms : List (String × Value)} {level : UInt32} (hx : Exact (.object ms))
    (hn : nesting (.object ms) ≤ maxDepth)
    (hl : Spells level (Value.get? ms privilegeLevelOption)) :
    privilegeLevel (Text.Utf8.encode (Value.object ms).text) = .ok level := by
  have hne : Text.Utf8.encode (Value.object ms).text ≠ [] := by
    have htext : Text.Utf8.encode (Value.object ms).text = bytesOf (Value.object ms).render :=
      encode_ofList _
    rw [htext, bytesOf_object]
    nofun
  rw [privilegeLevel, if_neg hne, run_members_text hx hn]
  simp only [get?_map]
  generalize Value.get? ms privilegeLevelOption = v at hl
  cases v with
  | none =>
    cases hl with
    | absent h => rw [h]; rfl
  | some v => exact level_of_spells hl

end Attestation.Proofs.OptionsText
