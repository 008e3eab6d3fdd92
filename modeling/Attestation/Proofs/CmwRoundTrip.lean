import Attestation.Proofs.CmwText
import Attestation.Proofs.JsonRecords
import Attestation.Proofs.JsonValues

namespace Attestation.Proofs.CmwRoundTrip

open Cmw CmwText Json JsonRecords JsonText Utf8Encoding

mutual

/-- The collections that can come about. -/
inductive Arises : Collection → Prop
  | new (kind : String) : Arises (.empty kind)
  | add {c c' : Collection} {label : String} {item : Cmw} (hc : Arises c) (hi : ArisesItem item)
      (h : c.add label item = .ok c') : Arises c'
  | read {data : List UInt8} {c : Collection} (h : Collection.ofJson data = .ok c) : Arises c

inductive ArisesItem : Cmw → Prop
  | record (r : Record) : ArisesItem (.record r)
  | collection {c : Collection} (h : Arises c) : ArisesItem c.toCmw

end

theorem wellFormedItems_iff {items : List (String × Cmw)} :
    WellFormedItems items ↔ ∀ item ∈ items, WellFormed item.2 := by
  induction items with
  | nil => simp [WellFormedItems]
  | cons item items ih => simp [WellFormedItems, ih]

theorem nestingItems_le_iff {items : List (String × Cmw)} {n : Nat} :
    nestingItems items ≤ n ↔ ∀ item ∈ items, nesting item.2 ≤ n := by
  induction items with
  | nil => simp [nestingItems]
  | cons item items ih => rw [nestingItems, Nat.max_le, ih, List.forall_mem_cons]

theorem wellFormed_empty (kind : String) : WellFormed (Collection.empty kind).toCmw :=
  ⟨labelled_nil, trivial⟩

theorem wellFormed_add {c c' : Collection} {label : String} {item : Cmw}
    (hc : WellFormed c.toCmw) (hi : WellFormed item) (h : c.add label item = .ok c') :
    WellFormed c'.toCmw := by
  obtain ⟨hl, hnew, rfl⟩ := (add_eq_ok_iff c c' label item).mp h
  refine ⟨?_, ?_⟩
  · rw [List.map_append]
    exact (labelled_concat hc.1).mpr ⟨hl, hnew⟩
  · exact wellFormedItems_iff.mpr fun x hx => by
      obtain hx | hx := List.mem_append.mp hx
      · exact wellFormedItems_iff.mp hc.2 x hx
      · rw [List.mem_singleton.mp hx]
        exact hi

/-- A collection without fault, with no more nesting than the place allows. -/
structure Sound (p : Place) (c : Cmw) : Prop where
  wellFormed : WellFormed c
  shallow : p.origin = .text → p.depth + nesting c ≤ maxDepth

theorem inner_eq_ok {p q : Place} (h : p.inner = .ok q) :
    q = { p with depth := p.depth + 1 } ∧ (p.origin = .text → p.depth < maxDepth) := by
  unfold Place.inner at h
  split at h
  · cases h
  · rename_i hd
    cases h
    exact ⟨rfl, fun ho => Nat.lt_of_not_le fun hle => hd ⟨ho, hle⟩⟩

structure SoundItems (p : Place) (c : Collection) : Prop where
  labelled : Labelled c.labels
  items : ∀ item ∈ c.items, Sound p item.2

theorem soundItems_empty (p : Place) (kind : String) : SoundItems p (.empty kind) :=
  ⟨labelled_nil, nofun⟩

theorem soundItems_add {p : Place} {c c' : Collection} {label : String} {item : Cmw}
    (hc : SoundItems p c) (hi : Sound p item) (h : addRead c label item = .ok c') :
    SoundItems p c' := by
  unfold addRead at h
  split at h
  · rename_i c'' hadd
    cases h
    obtain ⟨hl, hnew, rfl⟩ := (add_eq_ok_iff c c' label item).mp hadd
    refine ⟨?_, ?_⟩
    · rw [Collection.labels, List.map_append]
      exact (labelled_concat hc.labelled).mpr ⟨hl, hnew⟩
    · intro x hx
      obtain hx | hx := List.mem_append.mp hx
      · exact hc.items x hx
      · rw [List.mem_singleton.mp hx]
        exact hi
  · cases h

theorem sound_collection {p q : Place} {c : Collection} (hq : p.inner = .ok q)
    (h : SoundItems q c) : Sound p c.toCmw := by
  obtain ⟨rfl, hlt⟩ := inner_eq_ok hq
  refine ⟨⟨h.labelled, wellFormedItems_iff.mpr fun x hx => (h.items x hx).wellFormed⟩, ?_⟩
  intro ho
  have hitems : nestingItems c.items ≤ maxDepth - (p.depth + 1) := by
    refine nestingItems_le_iff.mpr fun x hx => ?_
    have := (h.items x hx).shallow ho
    simp only at this
    omega
  have := hlt ho
  simp only [Collection.toCmw, nesting]
  omega

theorem unexpected_ne_ok {α : Type} (expected : String) (t : Tree) (a : α) :
    unexpected expected t ≠ .ok a := by
  unfold unexpected
  split <;> simp

mutual

theorem sound_ofTree : ∀ (t : Tree) (p : Place) (c : Cmw), ofTree p t = .ok c → Sound p c
  | .array items closed, p, c, h => by
    rw [ofTree] at h
    obtain ⟨q, hq, h⟩ := (bind_ok_iff _ _ _).mp h
    obtain ⟨r, _, h⟩ := (bind_ok_iff _ _ _).mp h
    cases h
    refine ⟨trivial, fun ho => ?_⟩
    have := (inner_eq_ok hq).2 ho
    rw [nesting]
    omega
  | .object members closed, p, c, h => by
    rw [ofTree] at h
    obtain ⟨q, hq, h⟩ := (bind_ok_iff _ _ _).mp h
    obtain ⟨c', hread, h⟩ := (bind_ok_iff _ _ _).mp h
    cases h
    exact sound_collection hq
      (sound_ofMembers members q none (.empty "") closed c' (soundItems_empty q "") hread)
  | .null, p, c, h | .bool _, p, c, h | .number _, p, c, h | .string _, p, c, h
  | .broken, p, c, h => by
    rw [ofTree] at h
    · exact absurd h (unexpected_ne_ok _ _ c)
    all_goals simp

theorem sound_ofMembers : ∀ (ms : List (Option String × Tree)) (p : Place) (kind : Option String)
    (c : Collection) (closed : Bool) (c' : Collection), SoundItems p c →
    ofMembers p kind c ms closed = .ok c' → SoundItems p c'
  | [], p, kind, c, closed, c', hc, h => by
    rw [ofMembers] at h
    split at h
    · unfold withKind at h
      split at h
      · cases h
        exact ⟨hc.labelled, hc.items⟩
      · cases h
    · cases h
  | (l, t) :: ms, p, kind, c, closed, c', hc, h => by
    rw [ofMembers] at h
    obtain ⟨label, _, h⟩ := (bind_ok_iff _ _ _).mp h
    split at h
    · split at h
      · cases h
      · obtain ⟨k, _, h⟩ := (bind_ok_iff _ _ _).mp h
        exact sound_ofMembers ms p (some k) c closed c' hc h
    · obtain ⟨item, hitem, h⟩ := (bind_ok_iff _ _ _).mp h
      obtain ⟨c'', hadd, h⟩ := (bind_ok_iff _ _ _).mp h
      exact sound_ofMembers ms p kind c'' closed c'
        (soundItems_add hc (sound_ofTree t p item hitem) hadd) h

end

theorem sound_ofJson {data : List UInt8} {c : Collection} (h : Collection.ofJson data = .ok c) :
    Sound ⟨.text, 0⟩ c.toCmw := by
  unfold Collection.ofJson Decoder.run at h
  split at h
  · rename_i c' hrun
    cases h
    obtain ⟨c', hread, hend⟩ := (bind_ok_iff _ _ _).mp hrun
    obtain rfl := ending_eq_ok hend
    unfold collectionOfTree at hread
    split at hread
    · obtain ⟨q, hq, hread⟩ := (bind_ok_iff _ _ _).mp hread
      exact sound_collection hq
        (sound_ofMembers _ q none (.empty "") _ c' (soundItems_empty q "") hread)
    · exact absurd hread (unexpected_ne_ok _ _ c')
  · cases h

mutual

theorem wellFormed_of_arises : ∀ {c : Collection}, Arises c → WellFormed c.toCmw
  | _, .new kind => wellFormed_empty kind
  | _, .add hc hi h => wellFormed_add (wellFormed_of_arises hc) (wellFormed_of_arisesItem hi) h
  | _, .read h => (sound_ofJson h).wellFormed

theorem wellFormed_of_arisesItem : ∀ {c : Cmw}, ArisesItem c → WellFormed c
  | _, .record _ => trivial
  | _, .collection h => wellFormed_of_arises h

end

mutual

theorem nesting_toValue : ∀ c : Cmw, JsonValues.nesting c.toValue = nesting c
  | .record ⟨_, _, indicator⟩ => by
    cases indicator <;>
      simp [toValue, Record.toValue, JsonValues.nesting, JsonValues.nestingItems, nesting,
        Value.ofNat]
  | .collection _ items => by
    simp [toValue, JsonValues.nesting, JsonValues.nestingMembers, nesting,
      nestingMembers_itemValues items]

theorem nestingMembers_itemValues : ∀ items : List (String × Cmw),
    JsonValues.nestingMembers (itemValues items) = nestingItems items
  | [] => rfl
  | (_, c) :: items => by
    rw [itemValues, JsonValues.nestingMembers, nestingItems, nesting_toValue c,
      nestingMembers_itemValues items]

end

theorem ofMembers_error (p : Place) (kind label : String) (c : Collection) (t : Tree)
    (ms : List (Option String × Tree)) (hl : label ≠ kindLabel)
    (h : ofTree p t = .error .syntaxError) :
    ofMembers p (some kind) c ((some label, t) :: ms) true = .error .syntaxError := by
  rw [ofMembers]
  simp [Decoder.key, bind, Except.bind, hl, h]

theorem inner_error {p : Place} (ho : p.origin = .text) (h : maxDepth ≤ p.depth) :
    p.inner = .error .syntaxError := by
  rw [Place.inner, if_pos ⟨ho, h⟩]

mutual

/-- Text that is nested too deeply is refused where the limit is passed. -/
theorem ofTree_deep : ∀ (c : Cmw), WellFormed c → ∀ p : Place, p.origin = .text →
    p.depth ≤ maxDepth → maxDepth < p.depth + nesting c →
    ofTree p c.toValue.toTree = .error .syntaxError
  | .record r, _, p, ho, _, hd => by
    have hfull : maxDepth ≤ p.depth := by
      simp only [nesting] at hd
      omega
    rw [toValue, Record.toValue, Value.toTree, ofTree, inner_error ho hfull]
    rfl
  | .collection kind items, hc, p, ho, hp, hd => by
    simp only [nesting] at hd
    rw [toTree_collection, ofTree]
    by_cases hfull : maxDepth ≤ p.depth
    · rw [inner_error ho hfull]
      rfl
    · have hlt : p.depth < maxDepth := Nat.lt_of_not_le hfull
      have hread := ofMembers_deep items hc.2 { p with depth := p.depth + 1 } kind (.empty "") ho
        (by simpa [Collection.labels, Collection.empty] using hc.1) hlt (by simp only; omega)
      rw [inner_of_lt hlt]
      simp only [bind, Except.bind, ofMembers_kind, hread]

theorem ofMembers_deep : ∀ (items : List (String × Cmw)), WellFormedItems items →
    ∀ (p : Place) (kind : String) (c : Collection), p.origin = .text →
    Labelled (c.labels ++ items.map (·.1)) → p.depth ≤ maxDepth →
    maxDepth < p.depth + nestingItems items →
    ofMembers p (some kind) c (Value.memberTreesOf (itemValues items)) true =
      .error .syntaxError
  | [], _, p, kind, c, _, _, hp, hd => by
    simp only [nestingItems] at hd
    omega
  | (label, item) :: items, hi, p, kind, c, ho, hl, hp, hd => by
    simp only [nestingItems] at hd
    have hlabel := hl.2 label (by simp)
    rw [itemValues, Value.memberTreesOf]
    by_cases hitem : maxDepth < p.depth + nesting item
    · exact ofMembers_error p kind label c _ _ hlabel.2 (ofTree_deep item hi.1 p ho hp hitem)
    · have hread := ofTree_toValue item hi.1 p (by omega)
      rw [ofMembers_item p kind label c _ item _ hlabel (fresh_of_nodup hl.1) hread]
      exact ofMembers_deep items hi.2 p kind ⟨c.kind, c.items ++ [(label, item)]⟩ ho
        (by simpa [Collection.labels] using hl) hp (by omega)

end

theorem ofJson_deep (c : Collection) (hc : WellFormed c.toCmw)
    (hd : maxDepth < nesting c.toCmw) :
    Collection.ofJson (bytesOf c.toJson) = .error (.json .syntaxError) := by
  have hrun := run_render collectionOfTree c.toValue (exact_toValue c.toCmw)
  have hread := ofMembers_deep c.items hc.2 ⟨.text, 1⟩ c.kind (.empty "") rfl
    (by simpa [Collection.labels, Collection.empty] using hc.1) (by decide)
    (by simp only [Collection.toCmw, nesting] at hd; simp only; omega)
  have hvalue : c.toValue.toTree = .object ((some kindLabel, .string (some c.kind)) ::
      Value.memberTreesOf (itemValues c.items)) true := toTree_collection c.kind c.items
  have hinner : (⟨.text, 0⟩ : Place).inner = .ok ⟨.text, 1⟩ := rfl
  rw [hvalue] at hrun
  simp only [collectionOfTree, hinner, bind, Except.bind, ofMembers_kind, hread] at hrun
  simp only [Collection.ofJson, Collection.toJson, hrun]

/-- What is written spells the collection, and is read back as the collection if it is nested no
deeper than text may be. Deeper text is refused, but what has been read is never so deep. -/
theorem collections_survive (c : Collection) (h : Arises c) :
    Document.read (bytesOf c.toJson) = ⟨c.toValue.toTree, true⟩ ∧
    (JsonValues.nesting c.toValue ≤ 127 → Collection.ofJson (bytesOf c.toJson) = .ok c) ∧
    (127 < JsonValues.nesting c.toValue →
      ∃ fault, Collection.ofJson (bytesOf c.toJson) = .error (.json fault)) ∧
    (∀ data, Collection.ofJson data = .ok c → Collection.ofJson (bytesOf c.toJson) = .ok c) := by
  have hc := wellFormed_of_arises h
  have hnest : JsonValues.nesting c.toValue = nesting c.toCmw := nesting_toValue c.toCmw
  rw [hnest]
  refine ⟨read_render _ (exact_toValue c.toCmw), ofJson_toJson c hc,
    fun hd => ⟨_, ofJson_deep c hc hd⟩, fun data hdata => ofJson_toJson c hc ?_⟩
  have hshallow := (sound_ofJson hdata).shallow rfl
  simp only at hshallow
  omega

/-- Collections inside one another, around an empty one. -/
def nested : Nat → Collection
  | 0 => .empty "core"
  | n + 1 => ⟨"shell", [("inner", (nested n).toCmw)]⟩

theorem arises_nested : ∀ n, Arises (nested n)
  | 0 => .new "core"
  | n + 1 => by
    refine .add (.new "shell") (.collection (arises_nested n))
      ((add_eq_ok_iff _ _ "inner" _).mpr ⟨⟨by decide, by decide⟩, ?_, rfl⟩)
    exact List.not_mem_nil

theorem nesting_nested : ∀ n, JsonValues.nesting (nested n).toValue = n + 1
  | 0 => rfl
  | n + 1 => by
    have hn : nesting (nested n).toCmw = n + 1 :=
      (nesting_toValue (nested n).toCmw).symm.trans (nesting_nested n)
    have hs : nesting (nested (n + 1)).toCmw = max (nesting (nested n).toCmw) 0 + 1 := rfl
    rw [Collection.toValue, nesting_toValue, hs, hn]
    omega

/-- Both sides of the limit. -/
theorem collections_survive_nested :
    (Arises (nested 126) ∧
      Collection.ofJson (bytesOf (nested 126).toJson) = .ok (nested 126)) ∧
    (Arises (nested 127) ∧
      ∃ fault, Collection.ofJson (bytesOf (nested 127).toJson) = .error (.json fault)) :=
  ⟨⟨arises_nested 126, (collections_survive _ (arises_nested 126)).2.1
      (Nat.le_of_eq (nesting_nested 126))⟩,
    arises_nested 127, (collections_survive _ (arises_nested 127)).2.2.1
      (Nat.lt_of_lt_of_eq (by decide) (nesting_nested 127).symm)⟩

end Attestation.Proofs.CmwRoundTrip
