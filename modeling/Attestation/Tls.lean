import Attestation.Tls.Certificate
import Attestation.Tls.PrivateKey

namespace Attestation.Tls

structure File where
  path : String
  content : Except SystemError (List UInt8)

inductive Error where
  | pem (fault : Pem.Fault)
  | noCertificates (path : String)
  | unusableKey
  | badCertificate
  | mismatch
  deriving Repr, DecidableEq

def Error.message : Error → String
  | .pem fault => fault.message
  | .noCertificates path => s!"TLS cert file contained no certificates: {path}"
  | .unusableKey => "unexpected error: failed to parse private key as RSA, ECDSA, or EdDSA"
  | .badCertificate => "invalid peer certificate: BadEncoding"
  | .mismatch => "keys may not be consistent: KeyMismatch"

structure ServerIdentity where
  chain : List (List UInt8)
  key : PrivateKey
  deriving Repr, DecidableEq

namespace ServerIdentity

def protocols : List String := ["http/1.1"]

def readFile {α : Type} (f : File) (x : List UInt8 → Except Pem.Fault α) : Except Error α :=
  match f.content with
  | .error e => .error (.pem (.unreadable e))
  | .ok bytes => (x bytes).mapError .pem

/-- The certificates are looked at before the key, and the key before the first certificate. -/
def ofFiles (certificates key : File) : Except Error ServerIdentity := do
  match ← readFile certificates (Pem.allOf .certificate) with
  | [] => throw (.noCertificates certificates.path)
  | first :: more =>
    let found ← readFile key (Pem.firstOf PrivateKey.kinds)
    match PrivateKey.ofSection? found with
    | none => throw .unusableKey
    | some k =>
      match Certificate.ofBytes? first with
      | none => throw .badCertificate
      | some c => if c.subjectKey = k.subject then return ⟨first :: more, k⟩ else throw .mismatch

end ServerIdentity

end Attestation.Tls
