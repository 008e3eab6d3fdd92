namespace Attestation.Bcrypt

def arctanFrom (x : Nat) : (fuel k : Nat) → (power : Nat) → Int → Int
  | 0, _, _, sum => sum
  | fuel + 1, k, power, sum =>
    if power = 0 then sum
    else
      let term : Int := (power / (2 * k + 1) : Nat)
      arctanFrom x fuel (k + 1) (power / (x * x)) (if k % 2 = 0 then sum + term else sum - term)

def arctan (x one : Nat) : Int := arctanFrom x (Nat.log2 one + 1) 0 (one / x) 0

def wordCount : Nat := 18 + 4 * 256

/-- The first fractional bits of π, as words; 64 bits more are computed than are used. -/
def piWords : Array UInt32 :=
  let bits := 32 * wordCount
  let one := Nat.pow 2 (bits + 64)
  let pi := (16 * arctan 5 one - 4 * arctan 239 one).toNat
  let fraction := (pi % one) >>> 64
  (Array.range wordCount).map fun i =>
    UInt32.ofNat ((fraction >>> (bits - 32 * (i + 1))) % UInt32.size)

structure Blowfish where
  subkeys : Array UInt32
  boxes : Array UInt32
  deriving Repr, DecidableEq

namespace Blowfish

def initial : Blowfish := ⟨piWords.extract 0 18, piWords.extract 18 wordCount⟩

def mix (boxes : Array UInt32) (x : UInt32) : UInt32 :=
  ((boxes.getD (x >>> 24).toNat 0 + boxes.getD (256 + ((x >>> 16) &&& 0xFF).toNat) 0) ^^^
    boxes.getD (512 + ((x >>> 8) &&& 0xFF).toNat) 0) +
    boxes.getD (768 + (x &&& 0xFF).toNat) 0

def rounds (subkeys boxes : Array UInt32) : (n : Nat) → UInt32 → UInt32 → UInt32 × UInt32
  | 0, l, r => (r ^^^ subkeys.getD 17 0, l ^^^ subkeys.getD 16 0)
  | n + 1, l, r =>
    let l := l ^^^ subkeys.getD (14 - 2 * n) 0
    let r := r ^^^ mix boxes l
    let r := r ^^^ subkeys.getD (15 - 2 * n) 0
    rounds subkeys boxes n (l ^^^ mix boxes r) r

def encrypt (b : Blowfish) (l r : UInt32) : UInt32 × UInt32 := rounds b.subkeys b.boxes 8 l r

/-- A word of a byte string that is read in a circle, the most significant byte first. -/
def circularWord (bytes : Array UInt8) (i : Nat) : UInt32 :=
  let byte (k : Nat) : UInt32 := (bytes.getD ((4 * i + k) % bytes.size) 0).toUInt32
  (byte 0 <<< 24) ||| (byte 1 <<< 16) ||| (byte 2 <<< 8) ||| byte 3

def replaceSubkeys (salt : Array UInt8) : (n : Nat) → Blowfish → UInt32 × UInt32 →
    Blowfish × UInt32 × UInt32
  | 0, b, block => (b, block)
  | n + 1, b, (l, r) =>
    let i := 16 - 2 * n
    let (l, r) := b.encrypt (l ^^^ circularWord salt i) (r ^^^ circularWord salt (i + 1))
    replaceSubkeys salt n
      { b with subkeys := (b.subkeys.setIfInBounds i l).setIfInBounds (i + 1) r } (l, r)

def replaceBoxes (salt : Array UInt8) : (n : Nat) → Blowfish → UInt32 × UInt32 → Blowfish
  | 0, b, _ => b
  | n + 1, ⟨subkeys, boxes⟩, (l, r) =>
    let i := 1022 - 2 * n
    let (l, r) := rounds subkeys boxes 8 (l ^^^ circularWord salt (18 + i))
      (r ^^^ circularWord salt (19 + i))
    replaceBoxes salt n ⟨subkeys, (boxes.setIfInBounds i l).setIfInBounds (i + 1) r⟩ (l, r)

/-- Mixes a key and a salt into the cipher. -/
def expand (salt key : Array UInt8) (b : Blowfish) : Blowfish :=
  let b := { b with subkeys := b.subkeys.mapIdx fun i w => w ^^^ circularWord key i }
  let (b, block) := replaceSubkeys salt 9 b (0, 0)
  replaceBoxes salt 512 b block

def expandKey (key : Array UInt8) (b : Blowfish) : Blowfish := b.expand #[0] key

end Blowfish

end Attestation.Bcrypt
