import Attestation.Number.Extended
import Attestation.Table

namespace Attestation.Toml

inductive Value where
  | bool (b : Bool)
  | integer (i : Int)
  | real (x : Number.Extended)
  | time (text : String)
  | string (s : String)
  | array (items : List Value)
  | table (members : List (String × Value))
  deriving Repr, BEq, Inhabited

end Attestation.Toml
