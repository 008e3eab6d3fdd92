import Attestation.Proofs.CmwRoundTrip
import Attestation.Proofs.JsonDocuments

namespace Attestation.Proofs.CmwGrammar

open Cmw CmwText CmwRoundTrip Json JsonDocuments JsonGrammar JsonRecords Utf8Encoding

def SaysBytes (ps : List Piece) (bytes : List UInt8) : Prop :=
  ∃ k, text ps = some (Base64.encode Base64.urlSafe bytes ++ String.ofList (List.replicate k '='))

/-- Digits alone: a sign, a fraction or an exponent makes another number of them. -/
inductive SaysIndicator : Phrase → UInt64 → Prop
  | digits {ds : List Nat} {n : UInt64} (h : Literal.ofDigits ds = n.toNat) :
      SaysIndicator (.number ⟨false, ds, none, none⟩) n

inductive SaysRecord : Phrase → Record → Prop
  | plain {type encoded : List Piece} {mediaType : String} {value : List UInt8}
      (hm : text type = some mediaType) (hv : SaysBytes encoded value) :
      SaysRecord (.array [.string type, .string encoded]) ⟨mediaType, value, none⟩
  | indicated {type encoded : List Piece} {d : Phrase} {mediaType : String} {value : List UInt8}
      {n : UInt64} (hm : text type = some mediaType) (hv : SaysBytes encoded value)
      (hn : SaysIndicator d n) :
      SaysRecord (.array [.string type, .string encoded, d]) ⟨mediaType, value, some n⟩

mutual

inductive SaysItem : Phrase → Cmw → Prop
  | record {d : Phrase} {r : Record} (h : SaysRecord d r) : SaysItem d (.record r)
  | collection {d : Phrase} {c : Collection} (h : SaysCollection d c) : SaysItem d c.toCmw

/-- An object with its kind as one member and with items as the others. -/
inductive SaysCollection : Phrase → Collection → Prop
  | members {before after : List (List Piece × Phrase)} {key name : List Piece} {kind : String}
      {front back : List (String × Cmw)} (hk : text key = some kindLabel)
      (hn : text name = some kind) (hf : SaysItems before front) (hb : SaysItems after back)
      (hl : ((front ++ back).map (·.1)).Nodup) :
      SaysCollection (.object (before ++ (key, .string name) :: after)) ⟨kind, front ++ back⟩

inductive SaysItems : List (List Piece × Phrase) → List (String × Cmw) → Prop
  | nil : SaysItems [] []
  | cons {key : List Piece} {d : Phrase} {ms : List (List Piece × Phrase)} {label : String}
      {c : Cmw} {items : List (String × Cmw)} (hk : text key = some label)
      (hl : label ≠ "" ∧ label ≠ kindLabel) (h : SaysItem d c) (hs : SaysItems ms items) :
      SaysItems ((key, d) :: ms) ((label, c) :: items)

end

theorem string_tree_iff (p : Place) (d : Phrase) (s : String) :
    Decoder.string p d.tree = .ok s ↔ ∃ ps, d = .string ps ∧ text ps = some s := by
  constructor
  · intro h
    unfold Decoder.string at h
    split at h
    · rename_i s' ht
      cases h
      cases d <;> simp only [Phrase.tree, reduceCtorEq, Tree.string.injEq] at ht
      exact ⟨_, rfl, ht⟩
    · exact absurd h (unexpected_ne_ok _ _ s)
  · rintro ⟨ps, rfl, hs⟩
    simp [Phrase.tree, hs, Decoder.string]

section numbers

theorem le_foldl (ds : List Nat) (n : Nat) : n ≤ ds.foldl (fun n d => n * 10 + d) n := by
  induction ds generalizing n with
  | nil => exact Nat.le_refl n
  | cons d ds ih =>
    have := ih (n * 10 + d)
    rw [List.foldl_cons]
    omega

theorem absorb_eq_iff (ds : List Nat) (n m : Nat) (hn : n < UInt64.size) :
    Literal.absorb n ds = (m, []) ↔ ds.foldl (fun n d => n * 10 + d) n = m ∧ m < UInt64.size := by
  induction ds generalizing n with
  | nil =>
    simp only [Literal.absorb, Prod.mk.injEq, and_true, List.foldl_nil]
    constructor
    · rintro rfl
      exact ⟨rfl, hn⟩
    · exact fun h => h.1
  | cons d ds ih =>
    rw [Literal.absorb, List.foldl_cons]
    split
    · rename_i hd
      exact ih (n * 10 + d) hd
    · rename_i hd
      have := le_foldl ds (n * 10 + d)
      constructor
      · intro h
        simp at h
      · intro h
        omega

theorem integer?_nat_iff (negative : Bool) {m : Nat} (hm : m < UInt64.size) (n : UInt64) :
    Literal.integer? negative m = some (.nat n) ↔ negative = false ∧ m = n.toNat := by
  cases negative with
  | false =>
    simp only [Literal.integer?, Bool.false_eq_true, not_false_eq_true, if_true, Option.some.injEq,
      Number.nat.injEq, true_and]
    constructor
    · rintro rfl
      exact (UInt64.toNat_ofNat_of_lt' hm).symm
    · rintro rfl
      exact UInt64.ofNat_toNat
  | true =>
    unfold Literal.integer?
    rw [if_neg (by decide)]
    split <;> simp

theorem value?_nat_iff (l : Literal) (n : UInt64) :
    l.value? = some (.nat n) ↔ ∃ ds, l = ⟨false, ds, none, none⟩ ∧
      Literal.ofDigits ds = n.toNat := by
  obtain ⟨negative, ds, fraction, exponent⟩ := l
  constructor
  · intro h
    cases ha : Literal.absorb 0 ds with
    | mk m excess =>
      simp only [Literal.value?, ha] at h
      split at h
      · obtain ⟨hsum, hm⟩ := (absorb_eq_iff ds 0 m (by decide)).mp ha
        obtain ⟨rfl, hmn⟩ := (integer?_nat_iff negative hm n).mp h
        exact ⟨ds, rfl, hsum.trans hmn⟩
      · simp at h
  · rintro ⟨ds', heq, hsum⟩
    cases heq
    have ha := (absorb_eq_iff ds 0 n.toNat (by decide)).mpr ⟨hsum, n.toNat_lt_size⟩
    simp only [Literal.value?, ha]
    exact (integer?_nat_iff false n.toNat_lt_size n).mpr ⟨rfl, rfl⟩

theorem nat_tree_iff (p : Place) (d : Phrase) (n : Nat) :
    Decoder.nat 64 p d.tree = .ok n ↔ ∃ m : UInt64, SaysIndicator d m ∧ m.toNat = n := by
  constructor
  · intro h
    obtain ⟨i, hi, rfl⟩ := (map_ok_iff _ _ _).mp h
    unfold Decoder.int at hi
    split at hi
    · rename_i m ht
      cases d <;> simp only [Phrase.tree, reduceCtorEq, Tree.number.injEq] at ht
      rename_i l
      split at hi
      · rename_i i' hint
        split at hi
        · rename_i hrange
          cases hi
          cases m with
          | nat m =>
            obtain ⟨ds, rfl, hds⟩ := (value?_nat_iff l m).mp ht
            simp only [Number.toInt?, Option.some.injEq] at hint
            exact ⟨m, .digits hds, by omega⟩
          | negSucc m =>
            simp only [Number.toInt?, Option.some.injEq] at hint
            omega
          | float x => cases hint
        · cases hi
      · exact absurd hi (unexpected_ne_ok _ _ i)
    · exact absurd hi (unexpected_ne_ok _ _ i)
  · rintro ⟨m, ⟨hds⟩, rfl⟩
    rw [Phrase.tree, (value?_nat_iff _ m).mpr ⟨_, rfl, hds⟩]
    exact nat_decodes p m

end numbers

theorem recordBytes_iff (s : String) (bytes : List UInt8) :
    recordBytes s = .ok bytes ↔ ∃ k,
      s = Base64.encode Base64.urlSafe bytes ++ String.ofList (List.replicate k '=') := by
  simp only [recordBytes_eq_ok_iff, ← String.toList_inj, String.toList_append,
    String.toList_ofList]

theorem recordOfItems_two (p : Place) (t e : Tree) (r : Record) :
    recordOfItems p [t, e] true = .ok r ↔ ∃ mediaType encoded value,
      Decoder.string p t = .ok mediaType ∧ Decoder.string p e = .ok encoded ∧
      recordBytes encoded = .ok value ∧ r = ⟨mediaType, value, none⟩ := by
  constructor
  · intro h
    obtain ⟨mediaType, hm, h⟩ := (bind_ok_iff _ _ _).mp h
    obtain ⟨encoded, he, h⟩ := (bind_ok_iff _ _ _).mp h
    obtain ⟨indicator, hi, h⟩ := (bind_ok_iff _ _ _).mp h
    cases hi
    obtain ⟨value, hv, h⟩ := (bind_ok_iff _ _ _).mp h
    cases h
    exact ⟨mediaType, encoded, value, hm, he, hv, rfl⟩
  · rintro ⟨mediaType, encoded, value, hm, he, hv, rfl⟩
    simp [recordOfItems, bind, Except.bind, pure, Except.pure, hm, he, hv]

theorem recordOfItems_three (p : Place) (t e i : Tree) (r : Record) :
    recordOfItems p [t, e, i] true = .ok r ↔ ∃ mediaType encoded n value,
      Decoder.string p t = .ok mediaType ∧ Decoder.string p e = .ok encoded ∧
      Decoder.nat 64 p i = .ok n ∧ recordBytes encoded = .ok value ∧
      r = ⟨mediaType, value, some (UInt64.ofNat n)⟩ := by
  constructor
  · intro h
    obtain ⟨mediaType, hm, h⟩ := (bind_ok_iff _ _ _).mp h
    obtain ⟨encoded, he, h⟩ := (bind_ok_iff _ _ _).mp h
    obtain ⟨indicator, hi, h⟩ := (bind_ok_iff _ _ _).mp h
    obtain ⟨n, hn, rfl⟩ := (map_ok_iff _ _ _).mp hi
    obtain ⟨value, hv, h⟩ := (bind_ok_iff _ _ _).mp h
    cases h
    exact ⟨mediaType, encoded, n, value, hm, he, hn, hv, rfl⟩
  · rintro ⟨mediaType, encoded, n, value, hm, he, hn, hv, rfl⟩
    simp [recordOfItems, bind, Except.bind, pure, Except.pure, Except.map, hm, he, hn, hv]

theorem recordOfItems_iff (p : Place) (ds : List Phrase) (r : Record) :
    recordOfItems p (Phrase.trees ds) true = .ok r ↔ SaysRecord (.array ds) r := by
  match ds with
  | [] =>
    constructor
    · intro h
      cases h
    · intro h
      cases h
  | [type] =>
    constructor
    · intro h
      obtain ⟨_, _, h⟩ := (bind_ok_iff _ _ _).mp h
      cases h
    · intro h
      cases h
  | [type, encoded] =>
    simp only [Phrase.trees, recordOfItems_two, string_tree_iff, recordBytes_iff]
    constructor
    · rintro ⟨mediaType, _, value, ⟨ps, rfl, hm⟩, ⟨qs, rfl, hv⟩, ⟨k, rfl⟩, rfl⟩
      exact .plain hm ⟨k, hv⟩
    · rintro ⟨hm, k, hv⟩
      exact ⟨_, _, _, ⟨_, rfl, hm⟩, ⟨_, rfl, hv⟩, ⟨k, rfl⟩, rfl⟩
  | [type, encoded, d] =>
    simp only [Phrase.trees, recordOfItems_three, string_tree_iff, recordBytes_iff, nat_tree_iff]
    constructor
    · rintro ⟨mediaType, _, _, value, ⟨ps, rfl, hm⟩, ⟨qs, rfl, hv⟩, ⟨n, hn, rfl⟩, ⟨k, rfl⟩, rfl⟩
      rw [UInt64.ofNat_toNat]
      exact .indicated hm ⟨k, hv⟩ hn
    · rintro (_ | ⟨hm, ⟨k, hv⟩, hn⟩)
      exact ⟨_, _, _, _, ⟨_, rfl, hm⟩, ⟨_, rfl, hv⟩, ⟨_, hn, rfl⟩, ⟨k, rfl⟩, by simp⟩
  | type :: encoded :: d :: extra :: more =>
    constructor
    · intro h
      obtain ⟨_, _, h⟩ := (bind_ok_iff _ _ _).mp h
      obtain ⟨_, _, h⟩ := (bind_ok_iff _ _ _).mp h
      obtain ⟨_, _, h⟩ := (bind_ok_iff _ _ _).mp h
      simp only [Phrase.trees, List.tail_cons] at h
      split at h <;> cases h
    · intro h
      cases h

theorem addRead_eq_ok_iff (c c' : Collection) (label : String) (item : Cmw) :
    addRead c label item = .ok c' ↔ (label ≠ "" ∧ label ≠ kindLabel) ∧ label ∉ c.labels ∧
      c' = ⟨c.kind, c.items ++ [(label, item)]⟩ := by
  rw [← add_eq_ok_iff]
  unfold addRead
  split <;> rename_i h <;> simp [h]

theorem inner_iff {p q : Place} (hp : p.origin = .text) :
    p.inner = .ok q ↔ p.depth < maxDepth ∧ q = { p with depth := p.depth + 1 } := by
  constructor
  · intro h
    obtain ⟨rfl, hlt⟩ := inner_eq_ok h
    exact ⟨hlt hp, rfl⟩
  · rintro ⟨hlt, rfl⟩
    exact inner_of_lt hlt

/-- Members among which the kind stands, if it is not known yet, and otherwise does not. -/
inductive Says : Option String → List (List Piece × Phrase) → String → List (String × Cmw) → Prop
  | known {kind : String} {ms : List (List Piece × Phrase)} {items : List (String × Cmw)}
      (h : SaysItems ms items) : Says (some kind) ms kind items
  | among {before after : List (List Piece × Phrase)} {key name : List Piece} {kind : String}
      {front back : List (String × Cmw)} (hk : text key = some kindLabel)
      (hn : text name = some kind) (hf : SaysItems before front) (hb : SaysItems after back) :
      Says none (before ++ (key, .string name) :: after) kind (front ++ back)

theorem saysCollection_iff (ms : List (List Piece × Phrase)) (c : Collection) :
    SaysCollection (.object ms) c ↔ Says none ms c.kind c.items ∧ c.labels.Nodup := by
  constructor
  · rintro ⟨hk, hn, hf, hb, hl⟩
    exact ⟨.among hk hn hf hb, hl⟩
  · rintro ⟨h, hl⟩
    obtain ⟨kind, items⟩ := c
    cases h with
    | among hk hn hf hb => exact .members hk hn hf hb hl

theorem says_nil_iff (known : Option String) (kind : String) (items : List (String × Cmw)) :
    Says known [] kind items ↔ known = some kind ∧ items = [] := by
  constructor
  · intro h
    generalize hms : ([] : List (List Piece × Phrase)) = ms at h
    cases h with
    | known h =>
      subst hms
      cases h
      exact ⟨rfl, rfl⟩
    | among => simp at hms
  · rintro ⟨rfl, rfl⟩
    exact .known .nil

theorem says_cons_iff (known : Option String) (key : List Piece) (d : Phrase)
    (ms : List (List Piece × Phrase)) (kind : String) (items : List (String × Cmw)) :
    Says known ((key, d) :: ms) kind items ↔
      (known = none ∧ text key = some kindLabel ∧ ∃ name, d = .string name ∧
        ∃ k, text name = some k ∧ Says (some k) ms kind items) ∨
      ∃ label item more, text key = some label ∧ (label ≠ "" ∧ label ≠ kindLabel) ∧
        SaysItem d item ∧ Says known ms kind more ∧ items = (label, item) :: more := by
  constructor
  · intro h
    generalize hms : (key, d) :: ms = all at h
    cases h with
    | known h =>
      subst hms
      cases h with
      | cons hk hl h hs => exact .inr ⟨_, _, _, hk, hl, h, .known hs, rfl⟩
    | among hk hn hf hb =>
      cases hf with
      | nil =>
        cases hms
        exact .inl ⟨rfl, hk, _, rfl, _, hn, .known hb⟩
      | cons hkey hl h hs =>
        cases hms
        exact .inr ⟨_, _, _, hkey, hl, h, .among hk hn hs hb, rfl⟩
  · rintro (⟨rfl, hk, name, rfl, k, hn, h⟩ | ⟨label, item, more, hk, hl, h, hs, rfl⟩)
    · cases h with
      | known h => exact .among hk hn .nil h
    · cases hs with
      | known hs => exact .known (.cons hk hl h hs)
      | among hkind hn hf hb => exact .among hkind hn (.cons hk hl h hf) hb

theorem says_kind_iff {key : List Piece} (hk : text key = some kindLabel) (known : Option String)
    (d : Phrase) (ms : List (List Piece × Phrase)) (kind : String) (items : List (String × Cmw)) :
    Says known ((key, d) :: ms) kind items ↔ known = none ∧ ∃ name k, d = .string name ∧
      text name = some k ∧ Says (some k) ms kind items := by
  rw [says_cons_iff]
  constructor
  · rintro (⟨rfl, _, name, rfl, k, hn, h⟩ | ⟨label, item, more, hlabel, hl, _⟩)
    · exact ⟨rfl, name, k, rfl, hn, h⟩
    · rw [hk, Option.some.injEq] at hlabel
      exact absurd hlabel.symm hl.2
  · rintro ⟨rfl, name, k, rfl, hn, h⟩
    exact .inl ⟨rfl, hk, name, rfl, k, hn, h⟩

theorem says_item_iff {key : List Piece} {label : String} (hk : text key = some label)
    (hl : label ≠ kindLabel) (known : Option String) (d : Phrase)
    (ms : List (List Piece × Phrase)) (kind : String) (items : List (String × Cmw)) :
    Says known ((key, d) :: ms) kind items ↔ label ≠ "" ∧ ∃ item more, SaysItem d item ∧
      Says known ms kind more ∧ items = (label, item) :: more := by
  rw [says_cons_iff]
  constructor
  · rintro (⟨_, hkind, _⟩ | ⟨label', item, more, hlabel, hne, h, hs, rfl⟩)
    · rw [hk, Option.some.injEq] at hkind
      exact absurd hkind hl
    · rw [hk, Option.some.injEq] at hlabel
      subst hlabel
      exact ⟨hne.1, item, more, h, hs, rfl⟩
  · rintro ⟨hne, item, more, h, hs, rfl⟩
    exact .inr ⟨label, item, more, hk, ⟨hne, hl⟩, h, hs, rfl⟩

theorem labels_concat {c : Collection} {label : String} {item : Cmw} (hc : c.labels.Nodup)
    (hnew : label ∉ c.labels) :
    (Collection.mk c.kind (c.items ++ [(label, item)])).labels.Nodup := by
  rw [Collection.labels, List.map_append]
  exact (nodup_concat hc).mpr hnew

theorem ofTree_leaf (p : Place) (d : Phrase) (c : Cmw) (ha : ∀ ds, d ≠ .array ds)
    (ho : ∀ ms, d ≠ .object ms) : ofTree p d.tree ≠ .ok c := by
  cases d with
  | array ds => exact absurd rfl (ha ds)
  | object ms => exact absurd rfl (ho ms)
  | _ =>
    rw [Phrase.tree, ofTree]
    · exact unexpected_ne_ok _ _ c
    all_goals simp

theorem nesting_record {ds : List Phrase} {r : Record} (h : SaysRecord (.array ds) r) :
    Phrase.nestingItems ds = 0 := by
  cases h with
  | plain => rfl
  | indicated hm hv hn =>
    cases hn
    rfl

section members

variable (p : Place) (known : Option String) (c c' : Collection) (t : Tree)
  (ms : List (Option String × Tree))

theorem ofMembers_kind_iff : ofMembers p known c ((some kindLabel, t) :: ms) true = .ok c' ↔
    known = none ∧ ∃ k, Decoder.string p t = .ok k ∧ ofMembers p (some k) c ms true = .ok c' := by
  rw [ofMembers]
  cases known with
  | none => simp [Decoder.key, bind_ok_iff]
  | some k => simp [Decoder.key, bind, Except.bind]

theorem ofMembers_item_iff {label : String} (hl : label ≠ kindLabel) :
    ofMembers p known c ((some label, t) :: ms) true = .ok c' ↔
      ∃ item, ofTree p t = .ok item ∧ label ≠ "" ∧ label ∉ c.labels ∧
        ofMembers p known ⟨c.kind, c.items ++ [(label, item)]⟩ ms true = .ok c' := by
  rw [ofMembers]
  simp [Decoder.key, bind_ok_iff, hl, addRead_eq_ok_iff, and_assoc]

end members

mutual

theorem ofTree_iff : ∀ (d : Phrase) (p : Place) (c : Cmw), p.origin = .text →
    (ofTree p d.tree = .ok c ↔ SaysItem d c ∧ p.depth + d.nesting ≤ maxDepth)
  | .null, p, c, _ | .bool _, p, c, _ | .number _, p, c, _ | .string _, p, c, _ => by
    refine iff_of_false (ofTree_leaf p _ c (by simp) (by simp)) ?_
    rintro ⟨h, _⟩
    cases h with
    | record h => cases h
    | collection h => cases h
  | .array ds, p, c, hp => by
    rw [Phrase.tree, ofTree, bind_ok_iff, Phrase.nesting]
    constructor
    · rintro ⟨q, hq, h⟩
      obtain ⟨hlt, rfl⟩ := (inner_iff hp).mp hq
      obtain ⟨r, hr, h⟩ := (bind_ok_iff _ _ _).mp h
      cases h
      have hmeans := (recordOfItems_iff _ ds r).mp hr
      rw [nesting_record hmeans]
      exact ⟨.record hmeans, hlt⟩
    · rintro ⟨h, hd⟩
      cases h with
      | record h =>
        rw [nesting_record h] at hd
        refine ⟨_, (inner_iff hp).mpr ⟨hd, rfl⟩, ?_⟩
        rw [(recordOfItems_iff _ ds _).mpr h]
        rfl
      | collection h => cases h
  | .object ms, p, c, hp => by
    rw [Phrase.tree, ofTree, bind_ok_iff, Phrase.nesting]
    constructor
    · rintro ⟨q, hq, h⟩
      obtain ⟨hlt, rfl⟩ := (inner_iff hp).mp hq
      obtain ⟨c', hc, h⟩ := (bind_ok_iff _ _ _).mp h
      cases h
      obtain ⟨kind, items, hmeans, hl, hd, rfl⟩ :=
        (ofMembers_iff ms { p with depth := p.depth + 1 } none (.empty "") c' hp hlt
          List.nodup_nil).mp hc
      refine ⟨.collection ((saysCollection_iff ms _).mpr ⟨hmeans, hl⟩), ?_⟩
      simp only at hd
      omega
    · rintro ⟨h, hd⟩
      cases h with
      | record h => cases h
      | collection h =>
        obtain ⟨hmeans, hl⟩ := (saysCollection_iff ms _).mp h
        have hlt : p.depth < maxDepth := by omega
        have hread := (ofMembers_iff ms { p with depth := p.depth + 1 } none (.empty "") _ hp hlt
          List.nodup_nil).mpr ⟨_, _, hmeans, hl, by simp only; omega, rfl⟩
        refine ⟨_, (inner_iff hp).mpr ⟨hlt, rfl⟩, ?_⟩
        rw [hread]
        rfl

theorem ofMembers_iff : ∀ (ms : List (List Piece × Phrase)) (p : Place) (known : Option String)
    (c c' : Collection), p.origin = .text → p.depth ≤ maxDepth → c.labels.Nodup →
    (ofMembers p known c (Phrase.memberTrees ms) true = .ok c' ↔
      ∃ kind items, Says known ms kind items ∧ (c.labels ++ items.map (·.1)).Nodup ∧
        p.depth + Phrase.nestingMembers ms ≤ maxDepth ∧ c' = ⟨kind, c.items ++ items⟩)
  | [], p, known, c, c', hp, hd, hc => by
    rw [Phrase.memberTrees, ofMembers, if_pos rfl, Phrase.nestingMembers]
    constructor
    · intro h
      unfold withKind at h
      split at h
      · rename_i kind
        cases h
        exact ⟨kind, [], (says_nil_iff _ _ _).mpr ⟨rfl, rfl⟩, by simpa using hc, hd, by simp⟩
      · cases h
    · rintro ⟨kind, items, h, _, _, rfl⟩
      obtain ⟨rfl, rfl⟩ := (says_nil_iff _ _ _).mp h
      simp [withKind]
  | (key, d) :: ms, p, known, c, c', hp, hd, hc => by
    rw [Phrase.memberTrees, Phrase.nestingMembers]
    cases hkey : text key with
    | none =>
      refine iff_of_false ?_ ?_
      · rw [ofMembers]
        simp [Decoder.key, bind, Except.bind]
      · rintro ⟨kind, items, h, _⟩
        obtain ⟨_, hk, _⟩ | ⟨label, _, _, hk, _⟩ := (says_cons_iff _ _ _ _ _ _).mp h
        · simp [hkey] at hk
        · simp [hkey] at hk
    | some label =>
      by_cases hlabel : label = kindLabel
      · rw [hlabel] at hkey ⊢
        rw [ofMembers_kind_iff]
        constructor
        · rintro ⟨rfl, k, hk, h⟩
          obtain ⟨name, rfl, hname⟩ := (string_tree_iff p d k).mp hk
          obtain ⟨kind, items, hmeans, hl, hdepth, rfl⟩ :=
            (ofMembers_iff ms p (some k) c c' hp hd hc).mp h
          exact ⟨kind, items, (says_kind_iff hkey _ _ _ _ _).mpr ⟨rfl, name, k, rfl, hname, hmeans⟩,
            hl, by simpa [Phrase.nesting] using hdepth, rfl⟩
        · rintro ⟨kind, items, hmeans, hl, hdepth, rfl⟩
          obtain ⟨rfl, name, k, rfl, hname, hmeans⟩ := (says_kind_iff hkey _ _ _ _ _).mp hmeans
          refine ⟨rfl, k, (string_tree_iff p _ k).mpr ⟨name, rfl, hname⟩, ?_⟩
          exact (ofMembers_iff ms p (some k) c _ hp hd hc).mpr
            ⟨kind, items, hmeans, hl, by simpa [Phrase.nesting] using hdepth, rfl⟩
      · rw [ofMembers_item_iff _ _ _ _ _ _ hlabel]
        constructor
        · rintro ⟨item, hitem, hne, hnew, h⟩
          obtain ⟨hmeans, hdeep⟩ := (ofTree_iff d p item hp).mp hitem
          obtain ⟨kind, items, hmore, hl, hdepth, rfl⟩ :=
            (ofMembers_iff ms p known _ c' hp hd (labels_concat hc hnew)).mp h
          refine ⟨kind, (label, item) :: items,
            (says_item_iff hkey hlabel _ _ _ _ _).mpr ⟨hne, item, items, hmeans, hmore, rfl⟩,
            by simpa [Collection.labels] using hl, by omega, by simp⟩
        · rintro ⟨kind, items, hmeans, hl, hdepth, rfl⟩
          obtain ⟨hne, item, more, hitem, hmore, rfl⟩ :=
            (says_item_iff hkey hlabel _ _ _ _ _).mp hmeans
          have hnew : label ∉ c.labels := fresh_of_nodup hl
          refine ⟨item, (ofTree_iff d p item hp).mpr ⟨hitem, by omega⟩, hne, hnew, ?_⟩
          exact (ofMembers_iff ms p known _ _ hp hd (labels_concat hc hnew)).mpr
            ⟨kind, more, hmore, by simpa [Collection.labels] using hl, by omega, by simp⟩

end

theorem saysItem_toCmw (d : Phrase) (c : Collection) : SaysItem d c.toCmw ↔ SaysCollection d c := by
  obtain ⟨kind, items⟩ := c
  constructor
  · intro h
    cases h with
    | collection h => exact h
  · exact .collection

theorem ofTree_array (p : Place) (items : List Tree) (closed : Bool) :
    ofTree p (.array items closed) = (recordOfTree p (.array items closed)).map .record := by
  rw [ofTree, recordOfTree]
  cases p.inner with
  | error e => rfl
  | ok q =>
    cases h : recordOfItems q items closed <;>
      simp [bind, Except.bind, pure, Except.pure, h, Except.map]

theorem ofTree_object (p : Place) (ms : List (Option String × Tree)) (closed : Bool) :
    ofTree p (.object ms closed) =
      (collectionOfTree p (.object ms closed)).map Collection.toCmw := by
  rw [ofTree, collectionOfTree]
  cases p.inner with
  | error e => rfl
  | ok q =>
    cases h : ofMembers q none (.empty "") ms closed <;>
      simp [bind, Except.bind, pure, Except.pure, h, Except.map]

theorem toCmw_injective {c c' : Collection} (h : c.toCmw = c'.toCmw) : c = c' := by
  cases c
  cases c'
  cases h
  rfl

theorem collectionOfTree_iff (d : Phrase) (c : Collection) :
    collectionOfTree ⟨.text, 0⟩ d.tree = .ok c ↔
      SaysCollection d c ∧ d.nesting ≤ maxDepth := by
  cases d with
  | object ms =>
    have hitem := ofTree_iff (.object ms) ⟨.text, 0⟩ c.toCmw rfl
    rw [saysItem_toCmw, Nat.zero_add] at hitem
    rw [← hitem, Phrase.tree, ofTree_object, map_ok_iff]
    constructor
    · exact fun h => ⟨c, h, rfl⟩
    · rintro ⟨c', h, heq⟩
      rw [toCmw_injective heq] at h
      exact h
  | _ =>
    refine iff_of_false ?_ ?_
    · rw [Phrase.tree, collectionOfTree]
      · exact unexpected_ne_ok _ _ c
      all_goals simp
    · rintro ⟨h, _⟩
      cases h

theorem ofJson_eq (data : List UInt8) :
    Collection.ofJson data = (Decoder.run collectionOfTree data).mapError .json := by
  unfold Collection.ofJson
  split <;> rename_i h <;> rw [h] <;> rfl

theorem ofJson_spelled {d : Phrase} {data : List UInt8} (h : Spells d data) (c : Collection) :
    Collection.ofJson data = .ok c ↔ SaysCollection d c ∧ d.nesting ≤ maxDepth := by
  rw [← collectionOfTree_iff, ofJson_eq, run_spelled collectionOfTree h, mapError_ok_iff]

/-- A collection is read from the documents that say it, up to the limit on nesting. Of items, an
array is read as a record is, an object as a collection is, and nothing else is read. -/
theorem collections_as_said (data : List UInt8) :
    (∀ c, Collection.ofJson data = .ok c ↔
      ∃ d, Spells d data ∧ d.nesting ≤ 127 ∧ SaysCollection d c) ∧
    (∀ d, Spells d data → d.nesting ≤ 127 →
      ∀ c, Collection.ofJson data = .ok c ↔ SaysCollection d c) ∧
    (∀ ds, Spells (.array ds) data →
      Decoder.run ofTree data = (Decoder.run recordOfTree data).map .record) ∧
    (∀ ms, Spells (.object ms) data →
      (Decoder.run ofTree data).mapError .json =
        (Collection.ofJson data).map Collection.toCmw) ∧
    (∀ c, Decoder.run ofTree data = .ok c →
      (∃ ds, Spells (.array ds) data) ∨ ∃ ms, Spells (.object ms) data) := by
  refine ⟨fun c => ⟨fun h => ?_, ?_⟩, fun d hd hn c => ?_, fun ds hd => ?_, fun ms hd => ?_,
    fun c h => ?_⟩
  · have hrun : Decoder.run collectionOfTree data = .ok c := by
      rw [ofJson_eq] at h
      exact (mapError_ok_iff _ _ _).mp h
    obtain ⟨d, hd⟩ := exists_spelled hrun
    obtain ⟨hsaid, hn⟩ := (ofJson_spelled hd c).mp h
    exact ⟨d, hd, hn, hsaid⟩
  · rintro ⟨d, hd, hn, hsaid⟩
    exact (ofJson_spelled hd c).mpr ⟨hsaid, hn⟩
  · rw [ofJson_spelled hd]
    exact and_iff_left hn
  · rw [run_spelled _ hd, run_spelled _ hd]
    exact ofTree_array _ _ _
  · rw [ofJson_eq, run_spelled _ hd, run_spelled _ hd, Phrase.tree, ofTree_object]
    cases collectionOfTree ⟨.text, 0⟩ (.object (Phrase.memberTrees ms) true) <;> rfl
  · obtain ⟨d, hd⟩ := exists_spelled h
    rw [run_spelled _ hd] at h
    cases d with
    | array ds => exact .inl ⟨ds, hd⟩
    | object ms => exact .inr ⟨ms, hd⟩
    | _ => exact absurd h (ofTree_leaf _ _ _ (by simp) (by simp))

/-- A collection of one record. -/
def single : Collection := ⟨"kind", [("label", .record ⟨"text/plain", [1], some 7⟩)]⟩

theorem wellFormed_single : WellFormed single.toCmw :=
  ⟨(labelled_concat labelled_nil).mpr ⟨⟨by decide, by decide⟩, List.not_mem_nil⟩, trivial, trivial⟩

theorem collections_as_said_single : ∃ d, Spells d (bytesOf single.toJson) ∧
    (d.nesting ≤ 127 ∧ SaysCollection d single) ∧
    (Collection.ofJson (bytesOf single.toJson) = .ok single ↔ SaysCollection d single) := by
  have hsaid := collections_as_said (bytesOf single.toJson)
  obtain ⟨d, hd, hn, hs⟩ := (hsaid.1 single).mp (ofJson_toJson single wellFormed_single (by decide))
  exact ⟨d, hd, ⟨hn, hs⟩, hsaid.2.1 d hd hn single⟩

end Attestation.Proofs.CmwGrammar
