import Attestation.Cbor.Decode
import Attestation.Proofs.CborHeads
import Attestation.Proofs.Utf8Encoding

namespace Attestation.Proofs.CborItems

open Cbor CborHeads Utf8Encoding

inductive Item where
  | bytes (bytes : List UInt8)
  | text (s : String)
  | map (members : List (Item × Item))

mutual

inductive Encodes : Item → List UInt8 → Prop
  | bytes {head bytes : List UInt8} (h : SpellsHead 2 bytes.length head) :
      Encodes (.bytes bytes) (head ++ bytes)
  | text {head : List UInt8} {s : String} (h : SpellsHead 3 (Text.Utf8.encode s).length head) :
      Encodes (.text s) (head ++ Text.Utf8.encode s)
  | map {head bs : List UInt8} {ms : List (Item × Item)} (h : SpellsHead 5 ms.length head)
      (hm : EncodesMembers ms bs) : Encodes (.map ms) (head ++ bs)

inductive EncodesMembers : List (Item × Item) → List UInt8 → Prop
  | nil : EncodesMembers [] []
  | cons {k v : Item} {ms : List (Item × Item)} {ks vs bs : List UInt8} (hk : Encodes k ks)
      (hv : Encodes v vs) (hm : EncodesMembers ms bs) :
      EncodesMembers ((k, v) :: ms) (ks ++ (vs ++ bs))

end

theorem ofBytes_bytes {n : Nat} {head : List UInt8} (h : SpellsHead 2 n head)
    (rest : List UInt8) : Head.ofBytes (head ++ rest) = .ok (.bytes (some n), rest) := by
  obtain ⟨low, hread⟩ := ofBytes_head (by decide) h rest
  exact hread

theorem ofBytes_text {n : Nat} {head : List UInt8} (h : SpellsHead 3 n head)
    (rest : List UInt8) : Head.ofBytes (head ++ rest) = .ok (.text (some n), rest) := by
  obtain ⟨low, hread⟩ := ofBytes_head (by decide) h rest
  exact hread

theorem ofBytes_map {n : Nat} {head : List UInt8} (h : SpellsHead 5 n head)
    (rest : List UInt8) : Head.ofBytes (head ++ rest) = .ok (.map (some n), rest) := by
  obtain ⟨low, hread⟩ := ofBytes_head (by decide) h rest
  exact hread

/-- What a decoder makes of an item, whatever follows it. -/
def Reads {α : Type} (d : Decoder α) (depth : Nat) (item : Item) (a : α) : Prop :=
  ∀ bs rest, Encodes item bs → d depth (bs ++ rest) = .ok (a, rest)

theorem content_take {length : Head → Option (Option Nat)} {check : List UInt8 → Bool}
    {bytes : List UInt8} (h : check bytes = true) (rest : List UInt8) :
    content length check (some bytes.length) (bytes ++ rest) = .ok (bytes, rest) := by
  simp [content, take_append, h, bind, Except.bind, pure, Except.pure]

theorem byteContent_take (bytes rest : List UInt8) :
    byteContent (some bytes.length) (bytes ++ rest) = .ok (bytes, rest) :=
  content_take rfl rest

theorem textContent_encode (s : String) (rest : List UInt8) :
    textContent (some (Text.Utf8.encode s).length) (Text.Utf8.encode s ++ rest) =
      .ok (Text.Utf8.encode s, rest) :=
  content_take (by rw [isText, decode?_encode, Option.isSome_some]) rest

theorem reads_text (depth : Nat) (s : String) : Reads text depth (.text s) s := by
  intro bs rest hbs
  cases hbs with
  | text h =>
    rw [List.append_assoc, text, untagged, ofBytes_text h]
    simp [textContent_encode, decode?_encode, bind, Except.bind, pure, Except.pure]

theorem reads_blob (depth : Nat) (bytes : List UInt8) : Reads blob depth (.bytes bytes) bytes := by
  intro bs rest hbs
  cases hbs with
  | bytes h =>
    rw [List.append_assoc, blob, untagged, ofBytes_bytes h]
    simp [byteContent_take, bind, Except.bind, pure, Except.pure]

theorem ofBytes_item {item : Item} {bs : List UInt8} (h : Encodes item bs) (rest : List UInt8) :
    ∃ head more, Head.ofBytes (bs ++ rest) = .ok (head, more) ∧ ∀ n, head ≠ .simple n := by
  cases h with
  | bytes h =>
    rw [List.append_assoc]
    exact ⟨_, _, ofBytes_bytes h _, nofun⟩
  | text h =>
    rw [List.append_assoc]
    exact ⟨_, _, ofBytes_text h _, nofun⟩
  | map h hm =>
    rw [List.append_assoc]
    exact ⟨_, _, ofBytes_map h _, nofun⟩

theorem reads_optional {α : Type} {d : Decoder α} {depth : Nat} {item : Item} {a : α}
    (h : Reads d depth item a) : Reads (Cbor.optional d) depth item (some a) := by
  intro bs rest hbs
  obtain ⟨head, more, hhead, hsimple⟩ := ofBytes_item hbs rest
  have hread := h bs rest hbs
  unfold Cbor.optional
  rw [hhead]
  simp only [bind, Except.bind]
  split
  · rename_i heq
    exact absurd (congrArg Prod.fst heq) (hsimple 22)
  · rename_i heq
    exact absurd (congrArg Prod.fst heq) (hsimple 23)
  · rw [hread]
    rfl

theorem key_text {k : String} (hk : (Text.Utf8.encode k).length ≤ maxKeyLength) {bs : List UInt8}
    (h : Encodes (.text k) bs) (rest : List UInt8) :
    key (bs ++ rest) = .ok (Text.Utf8.encode k, rest) := by
  cases h with
  | text h =>
    rw [List.append_assoc, key, untagged, ofBytes_text h]
    simp [textContent_encode, hk, bind, Except.bind, pure, Except.pure]

variable {α : Type}

inductive Fills (slots : List (Slot α)) (depth : Nat) :
    List String → α → List (Item × Item) → α → Prop
  | nil (seen : List String) (a : α) : Fills slots depth seen a [] a
  | cons {seen : List String} {a a' : α} {k : String} {v : Item} {ms : List (Item × Item)}
      {β : Type} {d : Decoder β} {put : β → α → α} {b : β}
      (hs : slots.find? (Text.Utf8.encode ·.name = Text.Utf8.encode k) = some (.of k d put))
      (hl : (Text.Utf8.encode k).length ≤ maxKeyLength) (hk : k ∉ seen) (hv : Reads d depth v b)
      (h : Fills slots depth (k :: seen) (put b a) ms a') :
      Fills slots depth seen a ((.text k, v) :: ms) a'

theorem countMembers_fills {slots : List (Slot α)} {depth : Nat} {seen : List String} {a a' : α}
    {ms : List (Item × Item)} (h : Fills slots depth seen a ms a') {bs : List UInt8}
    (hbs : EncodesMembers ms bs) (rest : List UInt8) :
    countMembers slots depth ms.length (seen, a) (bs ++ rest) = .ok (a', rest) := by
  induction h generalizing bs with
  | nil seen a =>
    cases hbs
    rfl
  | cons hs hl hk hv _ ih =>
    cases hbs with
    | cons hks hvs hm =>
      have hkey := key_text hl hks
      have hvalue := fun rest => hv _ rest hvs
      rw [List.length_cons, countMembers, member, List.append_assoc, List.append_assoc, hkey]
      simp [hs, Slot.of, hk, hvalue, ih hm, bind, Except.bind, pure, Except.pure]

theorem reads_record {slots : List (Slot α)} {depth : Nat} {initial a : α}
    {ms : List (Item × Item)} (h : Fills slots depth [] initial ms a) :
    Reads (record initial slots) (depth + 1) (.map ms) a := by
  intro bs rest hbs
  cases hbs with
  | map hhead hm =>
    have hmembers := countMembers_fills h hm rest
    rw [List.append_assoc, record, untagged, ofBytes_map hhead]
    simp [hmembers, bind, Except.bind, pure, Except.pure]

theorem run_item {d : Decoder α} {item : Item} {a : α} (h : Reads d maxDepth item a)
    {bs : List UInt8} (hbs : Encodes item bs) (rest : List UInt8) :
    run d (bs ++ rest) = .ok a := by
  rw [run, h bs rest hbs]
  rfl

end Attestation.Proofs.CborItems
