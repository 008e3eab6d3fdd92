import Attestation.Base64
import Attestation.Bcrypt.Blowfish
import Attestation.Sha256
import Attestation.Text.Numeral
import Attestation.Text.Utf8

namespace Attestation.Bcrypt

structure Hash where
  cost : UInt32
  salt : String
  digest : String
  deriving Repr, DecidableEq

inductive Error where
  | hash (text : String)
  | variant (text : String)
  | cost (text : String)
  deriving Repr, DecidableEq

def Error.message : Error → String
  | .hash t => s!"Invalid hash: {t}"
  | .variant t => s!"Invalid Prefix: {t}"
  | .cost t => s!"Invalid Cost: {t}"

def variants : List String := ["2y", "2b", "2a", "2x"]

def splitBytes? : Nat → List Char → Option (List Char × List Char)
  | 0, cs => some ([], cs)
  | _ + 1, [] => none
  | n + 1, c :: cs =>
    if c.utf8Size ≤ n + 1 then (splitBytes? (n + 1 - c.utf8Size) cs).map fun (a, b) => (c :: a, b)
    else none
termination_by _ cs => cs.length

namespace Hash

/-- Looks at the form only: a prefix, a cost, and 53 symbols of salt and digest. -/
def parse (text : String) : Except Error Hash :=
  match ((text.toList.splitOn '$').filter (!·.isEmpty)).map String.ofList with
  | [variant, cost, tail] =>
    if variant ∉ variants then .error (.variant variant)
    else match Text.natBelow? UInt32.size cost with
      | none => .error (.cost cost)
      | some n =>
        if tail.utf8ByteSize ≠ 53 then .error (.hash text)
        else match splitBytes? 22 tail.toList with
          | none => .error (.hash text)
          | some (salt, digest) =>
            .ok ⟨UInt32.ofNat n, String.ofList salt, String.ofList digest⟩
  | _ => .error (.hash text)

end Hash

def symbolValue? (b : UInt8) : Option UInt8 :=
  if 46 ≤ b ∧ b ≤ 47 then some (b - 46)
  else if 65 ≤ b ∧ b ≤ 90 then some (b - 63)
  else if 97 ≤ b ∧ b ≤ 122 then some (b - 69)
  else if 48 ≤ b ∧ b ≤ 57 then some (b + 6)
  else none

/-- Decodes symbols; unused bits must be zero. -/
def decode? (s : String) : Option (List UInt8) := do
  let values ← (Text.Utf8.encode s).mapM symbolValue?
  (Base64.decode Base64.urlSafe (values.map Base64.urlSafe.symbol)).toOption

def strengthen (key salt : Array UInt8) : Nat → Blowfish → Blowfish
  | 0, b => b
  | n + 1, b => strengthen key salt n ((b.expandKey key).expandKey salt)

def encryptTimes (b : Blowfish) : Nat → UInt32 × UInt32 → UInt32 × UInt32
  | 0, block => block
  | n + 1, (l, r) => encryptTimes b n (b.encrypt l r)

def plaintext : List (UInt32 × UInt32) :=
  [(0x4f727068, 0x65616e42), (0x65686f6c, 0x64657253), (0x63727944, 0x6f756274)]

def crypt (cost : Nat) (salt password : List UInt8) : List UInt8 :=
  let key := password.toArray
  let salt := salt.toArray
  let b := strengthen key salt (Nat.pow 2 cost) (Blowfish.initial.expand salt key)
  ((plaintext.map (encryptTimes b 64)).flatMap
    fun (l, r) => Sha256.wordBytes l ++ Sha256.wordBytes r).take 23

/-- Passwords end with a zero byte and are cut to 72 bytes. -/
def passwordBytes (password : String) : List UInt8 :=
  (Text.Utf8.encode password ++ [0]).take 72

def leastCost : Nat := 4

def greatestCost : Nat := 31

/-- Whether the password has the hash; nothing if the hash cannot be computed. -/
def Hash.verify (h : Hash) (password : String) : Option Bool := do
  let salt ← decode? h.salt
  if h.cost.toNat < leastCost ∨ greatestCost < h.cost.toNat ∨ salt.length ≠ 16 then none
  let expected ← decode? h.digest
  return crypt h.cost.toNat salt (passwordBytes password) == expected

def verify (password hash : String) : Option Bool :=
  match Hash.parse hash with
  | .ok h => h.verify password
  | .error _ => none

end Attestation.Bcrypt
