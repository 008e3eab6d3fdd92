import Attestation.Cmw
import Attestation.Proofs.Base64Padding
import Attestation.Proofs.JsonText

namespace Attestation.Proofs.CmwText

open Cmw Json Utf8Encoding Base64Padding JsonText

/-- Labels as `add` admits them. -/
def Labelled (labels : List String) : Prop :=
  labels.Nodup ∧ ∀ l ∈ labels, l ≠ "" ∧ l ≠ kindLabel

theorem nodup_concat {labels : List String} {l : String} (h : labels.Nodup) :
    (labels ++ [l]).Nodup ↔ l ∉ labels := by
  constructor
  · intro hn hm
    exact (List.nodup_append.mp hn).2.2 l hm l (List.mem_singleton_self l) rfl
  · intro hm
    refine List.nodup_append.mpr ⟨h, List.pairwise_singleton _ _, ?_⟩
    rintro a ha b hb rfl
    rw [List.mem_singleton] at hb
    exact hm (hb ▸ ha)

theorem fresh_of_nodup {labels more : List String} {l : String}
    (h : (labels ++ l :: more).Nodup) : l ∉ labels :=
  fun hm => (List.nodup_append.mp h).2.2 l hm l List.mem_cons_self rfl

theorem labelled_nil : Labelled [] := ⟨List.nodup_nil, fun _ h => absurd h List.not_mem_nil⟩

theorem labelled_concat {labels : List String} {l : String} (h : Labelled labels) :
    Labelled (labels ++ [l]) ↔ (l ≠ "" ∧ l ≠ kindLabel) ∧ l ∉ labels := by
  constructor
  · rintro ⟨hn, hall⟩
    exact ⟨hall l (List.mem_append_right _ (List.mem_singleton_self l)), (nodup_concat h.1).mp hn⟩
  · rintro ⟨hl, hm⟩
    refine ⟨(nodup_concat h.1).mpr hm, ?_⟩
    intro x hx
    obtain hx | hx := List.mem_append.mp hx
    · exact h.2 x hx
    · rw [List.mem_singleton.mp hx]
      exact hl

mutual

def WellFormed : Cmw → Prop
  | .record _ => True
  | .collection _ items => Labelled (items.map (·.1)) ∧ WellFormedItems items

def WellFormedItems : List (String × Cmw) → Prop
  | [] => True
  | (_, c) :: items => WellFormed c ∧ WellFormedItems items

end

mutual

def nesting : Cmw → Nat
  | .record _ => 1
  | .collection _ items => nestingItems items + 1

def nestingItems : List (String × Cmw) → Nat
  | [] => 0
  | (_, c) :: items => max (nesting c) (nestingItems items)

end

theorem nesting_pos (c : Cmw) : 1 ≤ nesting c := by
  cases c <;> simp [nesting]

mutual

theorem exact_toValue : ∀ c : Cmw, Exact c.toValue
  | .record ⟨_, _, indicator⟩ => by
    cases indicator <;>
      simp [toValue, Record.toValue, Exact, ExactItems, Value.ofNat, Number.toInt?]
  | .collection _ items => by simpa [toValue, Exact, ExactMembers] using exact_itemValues items

theorem exact_itemValues : ∀ items : List (String × Cmw), ExactMembers (itemValues items)
  | [] => trivial
  | (_, c) :: items => ⟨exact_toValue c, exact_itemValues items⟩

end

theorem inner_of_lt {p : Place} (h : p.depth < maxDepth) :
    p.inner = .ok { p with depth := p.depth + 1 } := by
  rw [Place.inner, if_neg]
  omega

theorem recordBytes_eq_ok_iff {s : String} {value : List UInt8} : recordBytes s = .ok value ↔
    ∃ k, s.toList = (Base64.encode Base64.urlSafe value).toList ++ List.replicate k '=' :=
  ofText_eq_ok_iff.trans decode_unpadded_iff

theorem recordBytes_encode (value : List UInt8) :
    recordBytes (Base64.encode Base64.urlSafe value) = .ok value :=
  recordBytes_eq_ok_iff.mpr ⟨0, (List.append_nil _).symm⟩

theorem nat_decodes (p : Place) (n : UInt64) :
    Decoder.nat 64 p (.number (some (.nat n))) = .ok n.toNat := by
  have hn := n.toNat_lt_size
  have hin : (0 : Int) ≤ n.toNat ∧ (n.toNat : Int) ≤ ((Nat.pow 2 64 : Nat) : Int) - 1 := by
    have hp : Nat.pow 2 64 = 18446744073709551616 := rfl
    have hs : UInt64.size = 18446744073709551616 := rfl
    omega
  simp only [Decoder.nat, Decoder.int, Number.toInt?, if_pos hin, Except.map, Int.toNat_natCast]

theorem recordOfItems_strings (p : Place) (mediaType encoded : String)
    (indicator : Option UInt64) :
    recordOfItems p (Value.treesOf ([.string mediaType, .string encoded] ++
      (indicator.map Value.ofNat).toList)) true =
      (recordBytes encoded).map fun value => ⟨mediaType, value, indicator⟩ := by
  cases indicator with
  | none =>
    cases hbytes : recordBytes encoded <;>
      simp [recordOfItems, Value.treesOf, Value.toTree, Decoder.string, hbytes, bind, Except.bind,
        pure, Except.pure, Except.map]
  | some n =>
    cases hbytes : recordBytes encoded <;>
      simp [recordOfItems, Value.treesOf, Value.toTree, Value.ofNat, Decoder.string, hbytes,
        nat_decodes, bind, Except.bind, pure, Except.pure, Except.map]

theorem recordOfItems_toValue (p : Place) (r : Record) :
    recordOfItems p (Value.treesOf ([.string r.mediaType,
      .string (Base64.encode Base64.urlSafe r.value)] ++ (r.indicator.map Value.ofNat).toList))
      true = .ok r := by
  rw [recordOfItems_strings, recordBytes_encode]
  rfl

theorem get?_eq_none_iff (c : Collection) (label : String) :
    c.get? label = none ↔ label ∉ c.labels := by
  rw [Collection.get?, Option.map_eq_none_iff, List.find?_eq_none, Collection.labels,
    List.mem_map]
  constructor
  · rintro h ⟨item, hi, rfl⟩
    exact h item hi (decide_eq_true rfl)
  · intro h item hi hd
    exact h ⟨item, hi, of_decide_eq_true hd⟩

theorem append_run (c : Collection) (label : String) (item : Cmw) :
    (Collection.append label item).run c =
      if label = "" ∨ label = kindLabel then
        (.error (.invalidCmw ("reserved or empty label " ++ Text.quoted label)), c)
      else if (c.get? label).isSome then (.error (.duplicateLabel label), c)
      else (.ok (), ⟨c.kind, c.items ++ [(label, item)]⟩) := by
  unfold Collection.append
  by_cases hl : label = "" ∨ label = kindLabel
  · rw [if_pos hl, if_pos hl]
    rfl
  · rw [if_neg hl, if_neg hl]
    by_cases hg : (c.get? label).isSome
    · rw [if_pos hg]
      change (ExceptT.run (if (c.get? label).isSome then _ else _) : StateM Collection _) c = _
      rw [if_pos hg]
      rfl
    · rw [if_neg hg]
      change (ExceptT.run (if (c.get? label).isSome then _ else _) : StateM Collection _) c = _
      rw [if_neg hg]
      rfl

theorem add_eq (c : Collection) (label : String) (item : Cmw) :
    c.add label item =
      if label = "" ∨ label = kindLabel then
        .error (.invalidCmw ("reserved or empty label " ++ Text.quoted label))
      else if (c.get? label).isSome then .error (.duplicateLabel label)
      else .ok ⟨c.kind, c.items ++ [(label, item)]⟩ := by
  rw [Collection.add, append_run]
  by_cases hl : label = "" ∨ label = kindLabel
  · simp only [if_pos hl]
    rfl
  · by_cases hg : (c.get? label).isSome
    · simp only [if_neg hl, if_pos hg]
      rfl
    · simp only [if_neg hl, if_neg hg]
      rfl

theorem add_eq_ok_iff (c c' : Collection) (label : String) (item : Cmw) :
    c.add label item = .ok c' ↔ (label ≠ "" ∧ label ≠ kindLabel) ∧ label ∉ c.labels ∧
      c' = ⟨c.kind, c.items ++ [(label, item)]⟩ := by
  rw [add_eq]
  by_cases hl : label = "" ∨ label = kindLabel
  · simp only [if_pos hl]
    constructor
    · intro h
      cases h
    · rintro ⟨⟨h1, h2⟩, _⟩
      exact absurd hl (not_or.mpr ⟨h1, h2⟩)
  · rw [if_neg hl]
    by_cases hg : c.get? label = none
    · have hn := (get?_eq_none_iff c label).mp hg
      simp [hg, hn, not_or.mp hl, eq_comm]
    · have hs : (c.get? label).isSome := Option.isSome_iff_ne_none.mpr hg
      rw [if_pos hs]
      have hn : label ∈ c.labels := Decidable.of_not_not fun h =>
        hg ((get?_eq_none_iff c label).mpr h)
      simp [hn]

theorem toTree_collection (kind : String) (items : List (String × Cmw)) :
    (Cmw.collection kind items).toValue.toTree =
      .object ((some kindLabel, .string (some kind)) :: Value.memberTreesOf (itemValues items))
        true := by
  simp [toValue, Value.toTree, Value.memberTreesOf]

theorem ofMembers_kind (p : Place) (kind : String) (ms : List (Option String × Tree)) :
    ofMembers p none (.empty "") ((some kindLabel, .string (some kind)) :: ms) true =
      ofMembers p (some kind) (.empty "") ms true := by
  rw [ofMembers]
  simp [Decoder.key, Decoder.string, bind, Except.bind]

theorem ofMembers_item (p : Place) (kind label : String) (c : Collection) (t : Tree) (item : Cmw)
    (ms : List (Option String × Tree)) (hl : label ≠ "" ∧ label ≠ kindLabel)
    (hnew : label ∉ c.labels) (h : ofTree p t = .ok item) :
    ofMembers p (some kind) c ((some label, t) :: ms) true =
      ofMembers p (some kind) ⟨c.kind, c.items ++ [(label, item)]⟩ ms true := by
  have hadd := (add_eq_ok_iff c _ label item).mpr ⟨hl, hnew, rfl⟩
  rw [ofMembers]
  simp [Decoder.key, bind, Except.bind, hl.2, h, addRead, hadd]

mutual

theorem ofTree_toValue : ∀ (c : Cmw), WellFormed c → ∀ p : Place,
    p.depth + nesting c ≤ maxDepth → ofTree p c.toValue.toTree = .ok c
  | .record r, _, p, hd => by
    have hlt : p.depth < maxDepth := by
      simp only [nesting] at hd
      omega
    rw [toValue, Record.toValue, Value.toTree, ofTree, inner_of_lt hlt]
    simp only [bind, Except.bind, recordOfItems_toValue]
    rfl
  | .collection kind items, hc, p, hd => by
    simp only [nesting] at hd
    have hlt : p.depth < maxDepth := by omega
    have hread := ofMembers_itemValues items hc.2 { p with depth := p.depth + 1 } kind (.empty "")
      (by simpa [Collection.labels, Collection.empty] using hc.1) (by simp only; omega)
    rw [toTree_collection, ofTree, inner_of_lt hlt]
    simp only [bind, Except.bind, ofMembers_kind, hread]
    rfl

theorem ofMembers_itemValues : ∀ (items : List (String × Cmw)), WellFormedItems items →
    ∀ (p : Place) (kind : String) (c : Collection), Labelled (c.labels ++ items.map (·.1)) →
    p.depth + nestingItems items ≤ maxDepth →
    ofMembers p (some kind) c (Value.memberTreesOf (itemValues items)) true =
      .ok ⟨kind, c.items ++ items⟩
  | [], _, p, kind, c, _, _ => by
    simp [itemValues, Value.memberTreesOf, ofMembers, withKind]
  | (label, item) :: items, hi, p, kind, c, hl, hd => by
    simp only [nestingItems] at hd
    have hread := ofTree_toValue item hi.1 p (by omega)
    have hlabel := hl.2 label (by simp)
    have hnew : label ∉ c.labels := fresh_of_nodup hl.1
    have hmore := ofMembers_itemValues items hi.2 p kind ⟨c.kind, c.items ++ [(label, item)]⟩
      (by simpa [Collection.labels] using hl) (by omega)
    rw [itemValues, Value.memberTreesOf, ofMembers_item p kind label c _ item _ hlabel hnew hread,
      hmore]
    simp

end

theorem ofJson_toJson (c : Collection) (hc : WellFormed c.toCmw) (hd : nesting c.toCmw ≤ maxDepth) :
    Collection.ofJson (bytesOf c.toJson) = .ok c := by
  have hrun := run_render collectionOfTree c.toValue (exact_toValue c.toCmw)
  have hlt : (⟨.text, 0⟩ : Place).depth < maxDepth := by
    have hpos := nesting_pos c.toCmw
    simp only
    omega
  have hread := ofMembers_itemValues c.items hc.2 ⟨.text, 1⟩ c.kind (.empty "")
    (by simpa [Collection.labels, Collection.empty] using hc.1)
    (by simp only [Collection.toCmw, nesting] at hd; simp only; omega)
  have hvalue : c.toValue.toTree = .object ((some kindLabel, .string (some c.kind)) ::
      Value.memberTreesOf (itemValues c.items)) true := toTree_collection c.kind c.items
  rw [hvalue] at hrun
  simp only [collectionOfTree, inner_of_lt hlt, bind, Except.bind, ofMembers_kind] at hrun
  rw [Nat.zero_add, hread] at hrun
  simp only [Collection.ofJson, Collection.toJson, hrun]
  rfl

end Attestation.Proofs.CmwText
