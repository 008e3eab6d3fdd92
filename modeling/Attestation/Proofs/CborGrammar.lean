import Attestation.Proofs.CborHeads
import Attestation.Text.Utf8

namespace Attestation.Proofs.CborGrammar

open Cbor CborHeads

inductive Datum where
  | positive (n : Nat)
  | negative (n : Nat)
  | null
  | bool (b : Bool)
  | bytes (s : List UInt8)
  | text (s : String)
  | array (items : List Datum)
  | map (members : List (Datum × Datum))

namespace Datum

mutual

/-- The number of arrays and maps around the innermost part. -/
def nesting : Datum → Nat
  | .array ds => nestingItems ds + 1
  | .map ms => nestingMembers ms + 1
  | _ => 0

def nestingItems : List Datum → Nat
  | [] => 0
  | d :: ds => max (nesting d) (nestingItems ds)

def nestingMembers : List (Datum × Datum) → Nat
  | [] => 0
  | (k, v) :: ms => max (max (nesting k) (nesting v)) (nestingMembers ms)

end

end Datum

section sequences

variable {β : Type}

inductive Sequence (P : β → List UInt8 → Prop) : List β → List UInt8 → Prop
  | nil : Sequence P [] []
  | cons {x : β} {xs : List β} {bs cs : List UInt8} (h : P x bs) (hs : Sequence P xs cs) :
      Sequence P (x :: xs) (bs ++ cs)

/-- Elements behind a head that counts them, or up to the mark that ends them. -/
inductive Framed (major : Nat) (P : β → List UInt8 → Prop) : List β → List UInt8 → Prop
  | counted {xs : List β} {head bs : List UInt8} (h : SpellsHead major xs.length head)
      (hs : Sequence P xs bs) : Framed major P xs (head ++ bs)
  | ended {xs : List β} {bs : List UInt8} (hs : Sequence P xs bs) :
      Framed major P xs (UInt8.ofNat (32 * major + 31) :: (bs ++ [0xFF]))

end sequences

section strings

inductive SpellsPart (major : Nat) : List UInt8 → List UInt8 → Prop
  | of {head s : List UInt8} (h : SpellsHead major s.length head) :
      SpellsPart major s (head ++ s)

/-- A string in one piece, or in parts that are sound by themselves. -/
inductive SpellsString (major : Nat) (Sound : List UInt8 → Prop) : List UInt8 → List UInt8 → Prop
  | whole {s bs : List UInt8} (hs : Sound s) (h : SpellsPart major s bs) :
      SpellsString major Sound s bs
  | parts {ps : List (List UInt8)} {bs : List UInt8} (hp : ∀ p ∈ ps, Sound p)
      (h : Sequence (SpellsPart major) ps bs) :
      SpellsString major Sound ps.flatten (UInt8.ofNat (32 * major + 31) :: (bs ++ [0xFF]))

def SpellsBytes : List UInt8 → List UInt8 → Prop := SpellsString 2 fun _ => True

def SpellsText (s : String) : List UInt8 → Prop :=
  SpellsString 3 (fun p => ∃ t, p = Text.Utf8.encode t) (Text.Utf8.encode s)

end strings

mutual

/-- The bytes that say a datum. -/
inductive Spells : Datum → List UInt8 → Prop
  | positive {n : Nat} {bs : List UInt8} (h : SpellsHead 0 n bs) : Spells (.positive n) bs
  | negative {n : Nat} {bs : List UInt8} (h : SpellsHead 1 n bs) : Spells (.negative n) bs
  | false : Spells (.bool false) [0xF4]
  | true : Spells (.bool true) [0xF5]
  | null : Spells .null [0xF6]
  | bytes {s bs : List UInt8} (h : SpellsBytes s bs) : Spells (.bytes s) bs
  | text {s : String} {bs : List UInt8} (h : SpellsText s bs) : Spells (.text s) bs
  | array {ds : List Datum} {head bs : List UInt8} (h : SpellsHead 4 ds.length head)
      (hs : Sequence Spells ds bs) : Spells (.array ds) (head ++ bs)
  | openArray {ds : List Datum} {bs : List UInt8} (hs : Sequence Spells ds bs) :
      Spells (.array ds) (0x9F :: (bs ++ [0xFF]))
  | map {ms : List (Datum × Datum)} {head bs : List UInt8} (h : SpellsHead 5 ms.length head)
      (hs : Sequence SpellsMember ms bs) : Spells (.map ms) (head ++ bs)
  | openMap {ms : List (Datum × Datum)} {bs : List UInt8} (hs : Sequence SpellsMember ms bs) :
      Spells (.map ms) (0xBF :: (bs ++ [0xFF]))

inductive SpellsMember : Datum × Datum → List UInt8 → Prop
  | of {k v : Datum} {ks vs : List UInt8} (hk : Spells k ks) (hv : Spells v vs) :
      SpellsMember (k, v) (ks ++ vs)

end

inductive SpellsField : String × Datum → List UInt8 → Prop
  | of {name : String} {d : Datum} {ks vs : List UInt8}
      (hk : SpellsPart 3 (Text.Utf8.encode name) ks) (hv : Spells d vs) :
      SpellsField (name, d) (ks ++ vs)

/-- A map of members under names, in this order. -/
def SpellsRecord : List (String × Datum) → List UInt8 → Prop := Framed 5 SpellsField

end Attestation.Proofs.CborGrammar
