import Attestation.Attester.Json

namespace Attestation.Rpc

open Json (Value Decoder Slot)

def version : String := "2.0"

structure Request where
  version : String
  id : UInt64
  method : String
  params : Option Value
  deriving Repr, BEq, Inhabited

structure Error where
  code : Int64
  message : String
  deriving Repr, DecidableEq, Inhabited

/-- A response answers the request with its number; one without a number answers a line that was
no request. -/
structure Response where
  version : String
  id : Option UInt64
  result : Option Value
  error : Option Error
  deriving Repr, BEq, Inhabited

def parseError : Int64 := -32700

def methodNotFound : Int64 := -32601

def invalidParams : Int64 := -32602

def Error.text (e : Error) : String := s!"JSON-RPC error {e.code.toInt}: {e.message}"

def int64Value (i : Int64) : Value :=
  match i.toInt with
  | .ofNat n => .number (.nat (UInt64.ofNat n))
  | .negSucc n => .number (.negSucc ⟨n % 0x8000000000000000, Nat.mod_lt _ (by decide)⟩)

def int64 : Decoder Int64 := fun p t =>
  (Decoder.int "i64" (-0x8000000000000000) 0x7fffffffffffffff p t).map Int64.ofInt

def Request.toValue (r : Request) : Value :=
  .object ([("jsonrpc", .string r.version), ("id", .ofNat r.id), ("method", .string r.method)] ++
    (r.params.map fun v => ("params", v)).toList)

def Request.record : Json.Record Request where
  name := "JsonRpcRequest"
  initial := default
  slots := [
    .mandatory "jsonrpc" .string fun x r => { r with version := x },
    .mandatory "id" (.nat 64) fun x r => { r with id := UInt64.ofNat x },
    .mandatory "method" .string fun x r => { r with method := x },
    .optional "params" (.optional .value) fun x r => { r with params := x }]

def Error.toValue (e : Error) : Value :=
  .object [("code", int64Value e.code), ("message", .string e.message)]

def Error.record : Json.Record Error where
  name := "JsonRpcError"
  initial := default
  slots := [
    .mandatory "code" int64 fun x e => { e with code := x },
    .mandatory "message" .string fun x e => { e with message := x }]

def Response.toValue (r : Response) : Value :=
  .object ([("jsonrpc", .string r.version), ("id", (r.id.map Value.ofNat).getD .null)] ++
    (r.result.map fun v => ("result", v)).toList ++
    (r.error.map fun e => ("error", e.toValue)).toList)

def Response.record : Json.Record Response where
  name := "JsonRpcResponse"
  initial := default
  slots := [
    .mandatory "jsonrpc" .string fun x r => { r with version := x },
    .of .positional "id" (.optional (.nat 64)) fun x r => { r with id := x.map UInt64.ofNat },
    .optional "result" (.optional .value) fun x r => { r with result := x },
    .optional "error" (.optional Error.record.decode) fun x r => { r with error := x }]

def Response.ofResult (id : UInt64) (v : Value) : Response := ⟨Rpc.version, some id, some v, none⟩

def Response.ofError (id : Option UInt64) (code : Int64) (message : String) : Response :=
  ⟨Rpc.version, id, none, some ⟨code, message⟩⟩

end Attestation.Rpc
