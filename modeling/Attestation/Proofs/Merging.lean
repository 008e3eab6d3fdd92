import Mathlib.Data.List.Nodup
import Attestation.Compositor
import Attestation.Proofs.CmwText
import Attestation.Proofs.JsonRecords

namespace Attestation.Proofs.Merging

open Compositor Utf8Encoding Base64Encoding CmwText JsonRecords
open Cmw (Collection)

def addItem (c : Collection) (x : Item) : Except Problem Collection :=
  match c.add x.1 (.record x.2) with
  | .ok c => .ok c
  | .error e => .error (.internal e.message)

def records (items : List Item) : List (String × Cmw) := items.map fun x => (x.1, .record x.2)

theorem labels_records (items : List Item) : (records items).map (·.1) = items.map (·.1) := by
  rw [records, List.map_map]
  rfl

theorem merge_eq (items : List Item) :
    merge items = items.foldlM addItem (Collection.empty Envelope.kind) := rfl

theorem addItem_eq_ok_iff {c c' : Collection} {x : Item} :
    addItem c x = .ok c' ↔ (x.1 ≠ "" ∧ x.1 ≠ Cmw.kindLabel) ∧ x.1 ∉ c.labels ∧
      c' = ⟨c.kind, c.items ++ records [x]⟩ := by
  unfold addItem
  rw [show records [x] = [(x.1, .record x.2)] from rfl, ← add_eq_ok_iff]
  cases c.add x.1 (.record x.2) with
  | ok d => exact ⟨fun h => congrArg Except.ok (Except.ok.inj h),
      fun h => congrArg Except.ok (Except.ok.inj h)⟩
  | error e => exact ⟨nofun, nofun⟩

theorem labelled_left {labels rest : List String} (h : Labelled (labels ++ rest)) :
    Labelled labels :=
  ⟨(List.nodup_append.mp h.1).1, fun l hl => h.2 l (List.mem_append_left _ hl)⟩

theorem labelled_perm {labels others : List String} (hp : labels.Perm others)
    (h : Labelled labels) : Labelled others :=
  ⟨hp.nodup_iff.mp h.1, fun l hl => h.2 l (hp.mem_iff.mpr hl)⟩

theorem foldlM_addItem (items : List Item) (c c' : Collection) (hc : Labelled c.labels) :
    items.foldlM addItem c = .ok c' ↔
      Labelled (c.labels ++ items.map (·.1)) ∧ c' = ⟨c.kind, c.items ++ records items⟩ := by
  -- The labels of what has been merged so far stay `Labelled`.
  induction items generalizing c with
  | nil =>
    rw [List.map_nil, List.append_nil, records, List.map_nil, List.append_nil]
    exact ⟨fun h => ⟨hc, (Except.ok.inj h).symm⟩, fun h => congrArg Except.ok h.2.symm⟩
  | cons x items ih =>
    have hlabels : (⟨c.kind, c.items ++ records [x]⟩ : Collection).labels = c.labels ++ [x.1] :=
      List.map_append
    have hrecords : c.items ++ records (x :: items) =
        (c.items ++ records [x]) ++ records items := by
      rw [List.append_assoc]
      rfl
    rw [List.foldlM_cons, bind_ok_iff, List.map_cons, List.append_cons, hrecords]
    constructor
    · rintro ⟨d, hd, h⟩
      obtain ⟨hx, hm, rfl⟩ := addItem_eq_ok_iff.mp hd
      have hone := (labelled_concat hc).mpr ⟨hx, hm⟩
      obtain ⟨hall, rfl⟩ := (ih _ (hlabels ▸ hone)).mp h
      exact ⟨hlabels ▸ hall, rfl⟩
    · rintro ⟨hall, rfl⟩
      have hone := labelled_left hall
      obtain ⟨hx, hm⟩ := (labelled_concat hc).mp hone
      refine ⟨_, addItem_eq_ok_iff.mpr ⟨hx, hm, rfl⟩, (ih _ (hlabels ▸ hone)).mpr ⟨?_, rfl⟩⟩
      rw [hlabels]
      exact hall

theorem merge_eq_ok_iff {items : List Item} {c : Collection} :
    merge items = .ok c ↔
      Labelled (items.map (·.1)) ∧ c = ⟨Envelope.kind, records items⟩ := by
  rw [merge_eq, foldlM_addItem items (Collection.empty Envelope.kind) c labelled_nil]
  rfl

theorem get?_of_mem {c : Collection} (hl : c.labels.Nodup) {label : String} {x : Cmw}
    (hx : (label, x) ∈ c.items) : c.get? label = some x := by
  cases hf : c.items.find? (·.1 = label) with
  | none => exact absurd (decide_eq_true rfl) (List.find?_eq_none.mp hf (label, x) hx)
  | some y =>
    have hy := List.find?_some hf
    have hlabel : y.1 = label := of_decide_eq_true hy
    have heq : y = (label, x) :=
      List.inj_on_of_nodup_map hl (List.mem_of_find?_eq_some hf) hx hlabel
    rw [Collection.get?, hf, heq]
    rfl

theorem addItem_error_congr {c d : Collection} {x y : Item} {p : Problem}
    (hl : c.labels = d.labels) (hx : x.1 = y.1) (h : addItem c x = .error p) :
    addItem d y = .error p := by
  have hsome : (c.get? x.1).isSome = (d.get? y.1).isSome := by
    rw [Bool.eq_iff_iff, ← Option.ne_none_iff_isSome, ← Option.ne_none_iff_isSome, ne_eq, ne_eq,
      get?_eq_none_iff, get?_eq_none_iff, hl, hx]
  rw [addItem, add_eq] at h ⊢
  rw [hx, ← hx, hsome, hx] at h
  by_cases hr : y.1 = "" ∨ y.1 = Cmw.kindLabel
  · rw [if_pos hr] at h ⊢
    exact h
  · rw [if_neg hr] at h ⊢
    by_cases hs : (d.get? y.1).isSome
    · rw [if_pos hs] at h ⊢
      exact h
    · rw [if_neg hs] at h
      cases h

theorem foldlM_addItem_error {xs ys : List Item} {c d : Collection} {p : Problem}
    (hl : c.labels = d.labels) (hxs : xs.map (·.1) = ys.map (·.1))
    (h : xs.foldlM addItem c = .error p) : ys.foldlM addItem d = .error p := by
  induction xs generalizing ys c d with
  | nil => cases h
  | cons x xs ih =>
    obtain ⟨y, ys, rfl, hxy, hrest⟩ := List.map_eq_cons_iff.mp hxs.symm
    rw [List.foldlM_cons] at h ⊢
    cases hc : addItem c x with
    | error q =>
      rw [hc] at h
      rw [addItem_error_congr hl hxy.symm hc]
      exact h
    | ok c' =>
      rw [hc] at h
      obtain ⟨hx, hm, rfl⟩ := addItem_eq_ok_iff.mp hc
      have hd : addItem d y = .ok ⟨d.kind, d.items ++ records [y]⟩ :=
        addItem_eq_ok_iff.mpr ⟨hxy ▸ hx, hl ▸ hxy ▸ hm, rfl⟩
      rw [hd]
      refine ih ?_ hrest.symm h
      rw [Collection.labels, Collection.labels, List.map_append, List.map_append,
        labels_records, labels_records]
      exact congr (congrArg _ hl) (congrArg (fun l => [l]) hxy.symm)

theorem foldlM_addItem_internal {items : List Item} {c : Collection} {p : Problem}
    (h : items.foldlM addItem c = .error p) : ∃ detail, p = .internal detail := by
  induction items generalizing c with
  | nil => cases h
  | cons x items ih =>
    rw [List.foldlM_cons] at h
    cases hc : addItem c x with
    | ok d =>
      rw [hc] at h
      exact ih h
    | error q =>
      rw [hc] at h
      cases h
      unfold addItem at hc
      split at hc
      · cases hc
      · cases hc
        exact ⟨_, rfl⟩

theorem merge_error_internal {items : List Item} {p : Problem} (h : merge items = .error p) :
    ∃ detail, p = .internal detail :=
  foldlM_addItem_internal h

/-- A problem of merging shows nothing but labels. -/
theorem merge_error_congr {xs ys : List Item} {p : Problem} (hxs : xs.map (·.1) = ys.map (·.1))
    (h : merge xs = .error p) : merge ys = .error p :=
  foldlM_addItem_error rfl hxs h

theorem wellFormedItems_records (items : List Item) : WellFormedItems (records items) := by
  induction items with
  | nil => trivial
  | cons x items ih => exact ⟨trivial, ih⟩

theorem nestingItems_records (items : List Item) : nestingItems (records items) ≤ 1 := by
  induction items with
  | nil => exact Nat.zero_le 1
  | cons x items ih => exact Nat.max_le.mpr ⟨Nat.le_refl 1, ih⟩

theorem collection_wrap {items : List Item} {c : Collection} (h : merge items = .ok c)
    (nonce : String) : (Envelope.wrap nonce c).collection = .ok c := by
  obtain ⟨hl, rfl⟩ := merge_eq_ok_iff.mp h
  have hread := ofJson_toJson ⟨Envelope.kind, records items⟩
    ⟨(labels_records items).symm ▸ hl, wellFormedItems_records items⟩
    (Nat.le_trans (Nat.succ_le_succ (nestingItems_records items)) (by decide))
  rw [Envelope.collection, Envelope.wrap, decode_encode standard_sound, encode_ofList]
  exact hread

end Attestation.Proofs.Merging
