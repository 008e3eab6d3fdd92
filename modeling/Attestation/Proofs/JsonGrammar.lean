import Attestation.Proofs.JsonNumbers

namespace Attestation.Proofs.JsonGrammar

open Json Json.Reader
open JsonNumbers (digitByte)

/-- A byte, written as it is or by an escape of one letter, or a unit written by its digits. -/
inductive Piece where
  | byte (b : UInt8)
  | unit (u : Nat)

def isHigh (u : Nat) : Prop := 0xD800 ≤ u ∧ u ≤ 0xDBFF

def isLow (u : Nat) : Prop := 0xDC00 ≤ u ∧ u ≤ 0xDFFF

instance (u : Nat) : Decidable (isHigh u) := inferInstanceAs (Decidable (_ ∧ _))

instance (u : Nat) : Decidable (isLow u) := inferInstanceAs (Decidable (_ ∧ _))

def pairOf (high low : Nat) : Nat := 0x10000 + (high - 0xD800) * 0x400 + (low - 0xDC00)

def charBytes (n : Nat) : List UInt8 := String.utf8EncodeChar (Char.ofNat n)

mutual

/-- The bytes that pieces stand for. A unit is a character, or the first half of one. -/
def content : List Piece → Option (List UInt8)
  | [] => some []
  | .byte b :: ps => (content ps).map (b :: ·)
  | .unit u :: ps =>
    if isHigh u then pairContent u ps
    else if isLow u then none
    else (content ps).map (charBytes u ++ ·)

def pairContent (u : Nat) : List Piece → Option (List UInt8)
  | .unit l :: ps => if isLow l then (content ps).map (charBytes (pairOf u l) ++ ·) else none
  | _ => none

end

/-- The text of a string, unless its bytes are none. -/
def text (ps : List Piece) : Option String := (content ps).bind Text.Utf8.decode?

inductive Phrase where
  | null
  | bool (b : Bool)
  | number (l : Literal)
  | string (ps : List Piece)
  | array (items : List Phrase)
  | object (members : List (List Piece × Phrase))

namespace Phrase

mutual

/-- The number of arrays and objects around the innermost part. -/
def nesting : Phrase → Nat
  | .array ds => nestingItems ds + 1
  | .object ms => nestingMembers ms + 1
  | _ => 0

def nestingItems : List Phrase → Nat
  | [] => 0
  | d :: ds => max (nesting d) (nestingItems ds)

def nestingMembers : List (List Piece × Phrase) → Nat
  | [] => 0
  | (_, d) :: ms => max (nesting d) (nestingMembers ms)

end

theorem nestingItems_congr {before after : List Phrase} {d d' : Phrase}
    (h : d.nesting = d'.nesting) :
    nestingItems (before ++ d :: after) = nestingItems (before ++ d' :: after) := by
  induction before with
  | nil => rw [List.nil_append, List.nil_append, nestingItems, nestingItems, h]
  | cons _ before ih =>
    rw [List.cons_append, List.cons_append, nestingItems, nestingItems, ih]

theorem nestingMembers_congr {before after : List (List Piece × Phrase)} {key : List Piece}
    {d d' : Phrase} (h : d.nesting = d'.nesting) :
    nestingMembers (before ++ (key, d) :: after) =
      nestingMembers (before ++ (key, d') :: after) := by
  induction before with
  | nil => rw [List.nil_append, List.nil_append, nestingMembers, nestingMembers, h]
  | cons m before ih =>
    rw [List.cons_append, List.cons_append, nestingMembers, nestingMembers, ih]

theorem nestingMembers_perm {ms ms' : List (List Piece × Phrase)} (h : ms.Perm ms') :
    nestingMembers ms = nestingMembers ms' := by
  induction h with
  | nil => rfl
  | cons m _ ih => rw [nestingMembers, nestingMembers, ih]
  | swap m m' ms =>
    simp only [nestingMembers]
    exact Nat.max_left_comm _ _ _
  | trans _ _ ih ih' => exact ih.trans ih'

end Phrase

inductive SpellsPiece : Piece → List UInt8 → Prop
  | plain {b : UInt8} (hq : b ≠ 0x22) (hs : b ≠ 0x5C) (hc : ¬ b < 0x20) :
      SpellsPiece (.byte b) [b]
  | escape {b e : UInt8} (h : escape? e = some b) : SpellsPiece (.byte b) [0x5C, e]
  | unit {a b c d : UInt8} {w x y z : Nat} (ha : hexValue? a = some w) (hb : hexValue? b = some x)
      (hc : hexValue? c = some y) (hd : hexValue? d = some z) :
      SpellsPiece (.unit (((w * 16 + x) * 16 + y) * 16 + z)) [0x5C, 0x75, a, b, c, d]

inductive SpellsPieces : List Piece → List UInt8 → Prop
  | nil : SpellsPieces [] []
  | cons {p : Piece} {ps : List Piece} {bs cs : List UInt8} (hp : SpellsPiece p bs)
      (h : SpellsPieces ps cs) : SpellsPieces (p :: ps) (bs ++ cs)

inductive SpellsString : List Piece → List UInt8 → Prop
  | quoted {ps : List Piece} {bs : List UInt8} (h : SpellsPieces ps bs) :
      SpellsString ps (0x22 :: (bs ++ [0x22]))

def Digits (ds : List Nat) : Prop := ds ≠ [] ∧ ∀ d ∈ ds, d < 10

inductive SpellsFraction : Option (List Nat) → List UInt8 → Prop
  | absent : SpellsFraction none []
  | digits {ds : List Nat} (h : Digits ds) : SpellsFraction (some ds) (0x2E :: ds.map digitByte)

inductive SpellsSign : Bool → List UInt8 → Prop
  | absent : SpellsSign false []
  | plus : SpellsSign false [0x2B]
  | minus : SpellsSign true [0x2D]

inductive SpellsExponent : Option (Bool × List Nat) → List UInt8 → Prop
  | absent : SpellsExponent none []
  | digits {e : UInt8} {down : Bool} {sign : List UInt8} {ds : List Nat} (he : e = 0x65 ∨ e = 0x45)
      (hs : SpellsSign down sign) (h : Digits ds) :
      SpellsExponent (some (down, ds)) (e :: (sign ++ ds.map digitByte))

/-- A number from behind its sign: no zero stands in front of other digits. -/
inductive SpellsUnsigned : Literal → List UInt8 → Prop
  | parts {negative : Bool} {ds : List Nat} {fraction : Option (List Nat)}
      {exponent : Option (Bool × List Nat)} {fs es : List UInt8} (hd : Digits ds)
      (hz : ds.head? = some 0 → ds = [0]) (hf : SpellsFraction fraction fs)
      (he : SpellsExponent exponent es) :
      SpellsUnsigned ⟨negative, ds, fraction, exponent⟩ (ds.map digitByte ++ (fs ++ es))

inductive SpellsNumber : Literal → List UInt8 → Prop
  | plain {l : Literal} {bs : List UInt8} (hn : l.negative = false) (h : SpellsUnsigned l bs) :
      SpellsNumber l bs
  | minus {l : Literal} {bs : List UInt8} (hn : l.negative = true) (h : SpellsUnsigned l bs) :
      SpellsNumber l (0x2D :: bs)

def Gap (g : List UInt8) : Prop := ∀ b ∈ g, isSpace b = true

inductive SpellsKey : List Piece → List UInt8 → Prop
  | padded {ps : List Piece} {g bs g' : List UInt8} (hg : Gap g) (h : SpellsString ps bs)
      (hg' : Gap g') : SpellsKey ps (g ++ (bs ++ g'))

mutual

/-- The texts that say a phrase. -/
inductive Spells : Phrase → List UInt8 → Prop
  | padded {d : Phrase} {g bs g' : List UInt8} (hg : Gap g) (h : SpellsBare d bs) (hg' : Gap g') :
      Spells d (g ++ (bs ++ g'))

inductive SpellsBare : Phrase → List UInt8 → Prop
  | null : SpellsBare .null [0x6E, 0x75, 0x6C, 0x6C]
  | true : SpellsBare (.bool true) [0x74, 0x72, 0x75, 0x65]
  | false : SpellsBare (.bool false) [0x66, 0x61, 0x6C, 0x73, 0x65]
  | number {l : Literal} {bs : List UInt8} (h : SpellsNumber l bs) : SpellsBare (.number l) bs
  | string {ps : List Piece} {bs : List UInt8} (h : SpellsString ps bs) :
      SpellsBare (.string ps) bs
  | emptyArray {g : List UInt8} (hg : Gap g) : SpellsBare (.array []) (0x5B :: (g ++ [0x5D]))
  | array {ds : List Phrase} {bs : List UInt8} (h : SpellsItems ds bs) :
      SpellsBare (.array ds) (0x5B :: (bs ++ [0x5D]))
  | emptyObject {g : List UInt8} (hg : Gap g) : SpellsBare (.object []) (0x7B :: (g ++ [0x7D]))
  | object {ms : List (List Piece × Phrase)} {bs : List UInt8} (h : SpellsMembers ms bs) :
      SpellsBare (.object ms) (0x7B :: (bs ++ [0x7D]))

inductive SpellsItems : List Phrase → List UInt8 → Prop
  | one {d : Phrase} {bs : List UInt8} (h : Spells d bs) : SpellsItems [d] bs
  | more {d : Phrase} {ds : List Phrase} {bs cs : List UInt8} (h : Spells d bs)
      (hs : SpellsItems ds cs) : SpellsItems (d :: ds) (bs ++ 0x2C :: cs)

inductive SpellsMembers : List (List Piece × Phrase) → List UInt8 → Prop
  | one {k : List Piece} {d : Phrase} {ks bs : List UInt8} (hk : SpellsKey k ks)
      (h : Spells d bs) : SpellsMembers [(k, d)] (ks ++ 0x3A :: bs)
  | more {k : List Piece} {d : Phrase} {ms : List (List Piece × Phrase)} {ks bs cs : List UInt8}
      (hk : SpellsKey k ks) (h : Spells d bs) (hs : SpellsMembers ms cs) :
      SpellsMembers ((k, d) :: ms) (ks ++ 0x3A :: (bs ++ 0x2C :: cs))

end

namespace Phrase

mutual

/-- What is known of a phrase when it is read: the value of its numbers, and the text of its
strings. -/
def tree : Phrase → Tree
  | .null => .null
  | .bool b => .bool b
  | .number l => .number l.value?
  | .string ps => .string (text ps)
  | .array ds => .array (trees ds) true
  | .object ms => .object (memberTrees ms) true

def trees : List Phrase → List Tree
  | [] => []
  | d :: ds => d.tree :: trees ds

def memberTrees : List (List Piece × Phrase) → List (Option String × Tree)
  | [] => []
  | (k, d) :: ms => (text k, d.tree) :: memberTrees ms

end

end Phrase

end Attestation.Proofs.JsonGrammar
