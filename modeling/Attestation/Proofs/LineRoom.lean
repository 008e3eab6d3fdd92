import Attestation.Proofs.Messages

namespace Attestation.Proofs.LineRoom

open Json JsonNumbers Messages Plugin Rpc Utf8Encoding
open Json (Value)

mutual

def room : Value → Nat
  | .null => 4
  | .bool _ => 5
  | .number n => n.text.length
  | .string s => 6 * s.length + 2
  | .array vs => roomItems vs + 2
  | .object ms => roomMembers ms + 2

def roomItems : List Value → Nat
  | [] => 0
  | v :: vs => room v + 1 + roomItems vs

def roomMembers : List (String × Value) → Nat
  | [] => 0
  | (k, v) :: ms => 6 * k.length + 4 + room v + roomMembers ms

end

theorem length_escapedChar (c : Char) : (Value.escapedChar c).length ≤ 6 := by
  unfold Value.escapedChar
  split <;> try decide
  split
  · exact Nat.le_refl 6
  · exact Nat.le_of_ble_eq_true rfl

theorem length_renderString (s : String) : (Value.renderString s).length ≤ 6 * s.length + 2 := by
  have hescaped : ∀ cs : List Char, (cs.flatMap Value.escapedChar).length ≤ 6 * cs.length := by
    intro cs
    induction cs with
    | nil => exact Nat.le_refl 0
    | cons c cs ih =>
      have hc := length_escapedChar c
      rw [List.flatMap_cons, List.length_append, List.length_cons]
      omega
  have hs := hescaped s.toList
  rw [String.length_toList] at hs
  rw [Value.renderString, List.length_cons, List.length_append, List.length_singleton]
  omega

mutual

theorem length_render : ∀ v : Value, v.render.length ≤ room v
  | .null => Nat.le_refl 4
  | .bool true => by decide
  | .bool false => by decide
  | .number n => Nat.le_of_eq String.length_toList
  | .string s => by
    rw [Value.render, room]
    exact length_renderString s
  | .array vs => by
    have h := length_renderItems vs
    rw [Value.render, room, List.length_cons, List.length_append, List.length_singleton]
    omega
  | .object ms => by
    have h := length_renderMembers ms
    rw [Value.render, room, List.length_cons, List.length_append, List.length_singleton]
    omega

theorem length_renderItems : ∀ vs : List Value, (Value.renderItems vs).length ≤ roomItems vs
  | [] => Nat.le_refl 0
  | [v] => by
    have h := length_render v
    rw [Value.renderItems, roomItems, roomItems]
    omega
  | v :: w :: vs => by
    have h := length_render v
    have hrest := length_renderItems (w :: vs)
    rw [Value.renderItems, roomItems, List.length_append, List.length_cons]
    · omega
    · nofun

theorem length_renderMembers : ∀ ms : List (String × Value),
    (Value.renderMembers ms).length ≤ roomMembers ms
  | [] => Nat.le_refl 0
  | [(k, v)] => by
    have hk := length_renderString k
    have hv := length_render v
    rw [Value.renderMembers, roomMembers, roomMembers, List.length_append, List.length_cons]
    omega
  | (k, v) :: m :: ms => by
    have hk := length_renderString k
    have hv := length_render v
    have hrest := length_renderMembers (m :: ms)
    rw [Value.renderMembers, roomMembers, List.length_append, List.length_cons, List.length_append,
      List.length_cons]
    · omega
    · nofun

end

theorem roomMembers_insert (k : String) (v : Value) (ms : List (String × Value)) :
    roomMembers (Table.insert k v ms) ≤ 6 * k.length + 4 + room v + roomMembers ms := by
  induction ms with
  | nil => exact Nat.le_refl _
  | cons m ms ih =>
    rw [Table.insert]
    split
    · exact Nat.le_refl _
    · split
      · rw [roomMembers, roomMembers]
        omega
      · rw [roomMembers, roomMembers]
        omega

theorem roomMembers_ofList (pairs : List (String × Value)) :
    roomMembers (Table.ofList pairs) ≤ roomMembers pairs := by
  have hfold : ∀ (pairs ms : List (String × Value)),
      roomMembers (pairs.foldl (fun ms m => Table.insert m.1 m.2 ms) ms) ≤
        roomMembers ms + roomMembers pairs := by
    intro pairs
    induction pairs with
    | nil => exact fun ms => Nat.le_refl _
    | cons m pairs ih =>
      intro ms
      have hone := roomMembers_insert m.1 m.2 ms
      have hrest := ih (Table.insert m.1 m.2 ms)
      rw [List.foldl_cons, roomMembers]
      omega
  have h := hfold pairs []
  rw [roomMembers, Nat.zero_add] at h
  exact h

mutual

theorem room_sorted : ∀ v : Value, room v.sorted ≤ room v
  | .null | .bool _ | .number _ | .string _ => by simp [Value.sorted]
  | .array vs => by
    have h := roomItems_sorted vs
    rw [Value.sorted, room, room]
    omega
  | .object ms => by
    have h := roomMembers_sorted ms
    have hlist := roomMembers_ofList (Value.sortedMembers ms)
    rw [Value.sorted, room, room]
    omega

theorem roomItems_sorted : ∀ vs : List Value, roomItems (Value.sortedItems vs) ≤ roomItems vs
  | [] => Nat.le_refl 0
  | v :: vs => by
    have h := room_sorted v
    have hrest := roomItems_sorted vs
    rw [Value.sortedItems, roomItems, roomItems]
    omega

theorem roomMembers_sorted : ∀ ms : List (String × Value),
    roomMembers (Value.sortedMembers ms) ≤ roomMembers ms
  | [] => Nat.le_refl 0
  | (k, v) :: ms => by
    have h := room_sorted v
    have hrest := roomMembers_sorted ms
    rw [Value.sortedMembers, roomMembers, roomMembers]
    omega

end

theorem length_bytesOf (cs : List Char) : (bytesOf cs).length ≤ 4 * cs.length := by
  induction cs with
  | nil => exact Nat.le_refl 0
  | cons c cs ih =>
    have hc := Char.utf8Size_le_four c
    rw [bytesOf_cons, List.length_append, List.length_cons, String.length_utf8EncodeChar]
    omega

theorem length_decimals {n : Nat} (h : n < UInt64.size) : (toString n).length ≤ 20 := by
  have hdigits : (Nat.toDigits 10 n).length ≤ 20 :=
    (Nat.length_toDigits_le_iff (by decide) (by decide)).mpr (Nat.lt_trans h (by decide))
  rwa [← String.length_toList, Nat.toString_eq_repr, Nat.toList_repr]

/-- The line that answers a question has room where four times that of the answer is, and that of
the frame around it. -/
theorem length_responseLine (a : SubAttester) (x : Question) :
    (responseLine a x).length ≤ 4 * (200 + room (x.query.answerValue (a.answer x.query))) := by
  have hresult : room (resultOf a x.query) ≤ room (x.query.answerValue (a.answer x.query)) :=
    room_sorted _
  have hid : (Number.nat x.id).text.length ≤ 20 := length_decimals x.id.toNat_lt
  have hvalue : room (Response.ofResult x.id (resultOf a x.query)).toValue ≤
      200 + room (resultOf a x.query) := by
    have hversion : Rpc.version.length = 3 := rfl
    have hkeys : "jsonrpc".length = 7 ∧ "id".length = 2 ∧ "result".length = 6 := ⟨rfl, rfl, rfl⟩
    simp only [Response.ofResult, Response.toValue, Option.map_some, Option.map_none,
      Option.getD_some, Option.toList_some, Option.toList_none, List.append_nil, List.cons_append,
      List.nil_append, room, roomMembers, Value.ofNat, hkeys, hversion]
    omega
  have hrender := length_render (Response.ofResult x.id (resultOf a x.query)).toValue
  have hbytes := length_bytesOf (Response.ofResult x.id (resultOf a x.query)).toValue.render
  rw [responseLine_eq]
  omega

end Attestation.Proofs.LineRoom
