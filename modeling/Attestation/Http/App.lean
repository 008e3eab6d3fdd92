import Attestation.Compositor
import Attestation.Http.Authorizer
import Attestation.Settings

namespace Attestation.Http

open Compositor (Composition Registry Runner)

def challengePath : String := "/ratsd/chares"

def subattestersPath : String := "/ratsd/subattesters"

inductive Endpoint where
  | challenge
  | subattesters
  | otherMethod (allowed : String)
  | unknown
  | rootless
  deriving Repr, DecidableEq

/-- The endpoint of a request. What can be got can be asked for by its headers alone. -/
def Request.endpoint (r : Request) : Endpoint :=
  if r.path = challengePath then
    if r.method = "POST" then .challenge else .otherMethod "POST"
  else if r.path = subattestersPath then
    if r.method = "GET" ∨ r.method = "HEAD" then .subattesters else .otherMethod "GET,HEAD"
  else if r.path.toList.head? = some '/' then .unknown
  else .rootless

/-- Sends the answer of an endpoint: with the methods it allows, the length of the body, and
without the body if only the headers are asked for. The answer for an unknown path is sent as it
stands. -/
def Endpoint.send (e : Endpoint) (method : String) (a : Response) : Response :=
  let measured (a : Response) : Response :=
    if method = "HEAD" then a.measured.withoutBody else a.measured
  match e with
  | .unknown => a
  | .otherMethod allowed => measured (a.withHeader "allow" allowed)
  | _ => measured a

structure App (H : Type) where
  authorizer : Authorizer
  settings : Compositor.Settings
  registry : Registry H

def maxBody : Nat := 2 * 1024 * 1024

namespace App

variable {H : Type}

def ofSettings (s : Settings) (registry : Registry H) : Except InvalidUser (App H) :=
  (Authorizer.ofAccess s.access).map fun a => ⟨a, s.composition, registry⟩

def ofProblem (p : Problem) : Response :=
  ⟨p.statusCode, [("content-type", Problem.mediaType)], p.toValue.text⟩

def ofEnvelope (e : Compositor.Envelope) : Response :=
  ⟨200, [("content-type", Compositor.Envelope.mediaType)], e.toValue.text⟩

def ofInfos (infos : List Compositor.AttesterInfo) : Response :=
  ⟨200, [("content-type", "application/json")],
    (Json.Value.array (infos.map Compositor.AttesterInfo.toValue)).text⟩

def refused (p : Problem) : Response :=
  (ofProblem p).withHeader "www-authenticate" "Basic realm=veraison"

def notFound : Response := ⟨404, [], ""⟩

def methodNotAllowed : Response := ⟨405, [], ""⟩

def tooLarge : Response :=
  ⟨413, [("content-type", "text/plain; charset=utf-8")],
    "Failed to buffer the request body: length limit exceeded"⟩

variable {m : Type → Type} [Monad m]

def challenge (run : Runner m H) (app : App H) (r : Request) : m Response :=
  if maxBody < r.body.length then pure tooLarge
  else match Compositor.checkMediaTypes (headerText? r.headers "content-type")
      (headerText? r.headers "accept") with
    | .error p => pure (ofProblem p)
    | .ok () => do
      match ← Compositor.compose run app.settings app.registry r.body with
      | .ok e => return ofEnvelope e
      | .error p => return ofProblem p

/-- Answers a request for the list of attesters; nothing if an attester never tells its options. -/
def subattesters (run : Runner m H) (app : App H) : m (Option Response) := do
  match ← run none (Compositor.subattesters app.registry).run with
  | some (.ok infos) => return some (ofInfos infos)
  | some (.error p) => return some (ofProblem p)
  | none => return none

def serve (run : Runner m H) (app : App H) (r : Request) : m (Option Response) :=
  match r.endpoint with
  | .challenge => some <$> challenge run app r
  | .subattesters => subattesters run app
  | .otherMethod _ => pure (some methodNotAllowed)
  | .unknown | .rootless => pure (some notFound)

/-- Every request is authorized before anything else is done for it. The endpoint decides how the
answer is sent, the refusal of a request included. -/
def respond (run : Runner m H) (app : App H) (r : Request) : m (Option Response) := do
  let answer ← match app.authorizer.authorize r.headers with
    | .ok () => serve run app r
    | .error p => pure (some (refused p))
  return answer.map (r.endpoint.send r.method)

end App

end Attestation.Http
