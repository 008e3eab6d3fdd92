import Attestation.Proofs.FirstFailure

namespace Attestation.Proofs.Admission

open Compositor (Registry Runner)
open Http Scheduling

variable {H : Type} {m : Type → Type} [Monad m]

def isCredentials (h : String × List UInt8) : Bool := h.1.map Char.toLower = "authorization"

/-- Requests that differ in their credentials, if at all. -/
structure Alike (r r' : Request) : Prop where
  method : r.method = r'.method
  target : r.target = r'.target
  body : r.body = r'.body
  headers : r.headers.filter (!isCredentials ·) = r'.headers.filter (!isCredentials ·)

theorem header?_filter {headers : List (String × List UInt8)} {name : String}
    (hn : name ≠ "authorization") :
    header? (headers.filter (!isCredentials ·)) name = header? headers name := by
  have hpass : ∀ h : String × List UInt8, decide (h.1.map Char.toLower = name) = true →
      (!isCredentials h) = true := by
    intro h hname
    have hne : h.1.map Char.toLower ≠ "authorization" := of_decide_eq_true hname ▸ hn
    simp [isCredentials, hne]
  rw [header?, header?, List.find?_filter]
  congr 2
  funext h
  cases hname : decide (h.1.map Char.toLower = name) with
  | false => simp
  | true => simp [hpass h hname]

theorem headerText?_alike {r r' : Request} (h : Alike r r') {name : String}
    (hn : name ≠ "authorization") : headerText? r.headers name = headerText? r'.headers name := by
  rw [headerText?, headerText?, ← header?_filter hn, h.headers, header?_filter hn]

theorem endpoint_alike {r r' : Request} (h : Alike r r') : r.endpoint = r'.endpoint := by
  rw [Request.endpoint, Request.endpoint, Request.path, Request.path, h.target, h.method]

/-- Behind the gate credentials do not count. -/
theorem serve_alike (run : Runner m H) (app : App H) {r r' : Request} (h : Alike r r') :
    App.serve run app r = App.serve run app r' := by
  have htype : headerText? r.headers "content-type" = headerText? r'.headers "content-type" :=
    headerText?_alike h (by decide)
  have haccept : headerText? r.headers "accept" = headerText? r'.headers "accept" :=
    headerText?_alike h (by decide)
  have hchallenge : App.challenge run app r = App.challenge run app r' := by
    rw [App.challenge, App.challenge, h.body, htype, haccept]
  rw [App.serve, App.serve, endpoint_alike h, hchallenge]

theorem serve_ungated (run : Runner m H) (a a' : Authorizer) (s : Compositor.Settings)
    (registry : Registry H) (r : Request) :
    App.serve run ⟨a, s, registry⟩ r = App.serve run ⟨a', s, registry⟩ r := rfl

theorem authorize_error {a : Authorizer} {headers : List (String × List UInt8)} {p : Problem}
    (h : a.authorize headers = .error p) : ∃ detail, p = .unauthorized detail := by
  cases a with
  | everyone => cases h
  | listed table =>
    rw [Authorizer.authorize] at h
    split at h
    · exact ⟨_, (Except.error.inj h).symm⟩
    · split at h
      · exact ⟨_, (Except.error.inj h).symm⟩
      · split at h
        · cases h
        · exact ⟨_, (Except.error.inj h).symm⟩

theorem send_status (e : Endpoint) (method : String) (a : Response) :
    (e.send method a).status = a.status := by
  cases e <;> simp only [Endpoint.send] <;> split <;> rfl

theorem mem_send {e : Endpoint} {method : String} {a : Response} {h : String × String}
    (hm : h ∈ a.headers) : h ∈ (e.send method a).headers := by
  cases e with
  | unknown => exact hm
  | challenge | subattesters | otherMethod _ | rootless =>
    simp only [Endpoint.send]
    split <;> simp [Response.measured, Response.withHeader, Response.withoutBody, hm]

theorem send_body (e : Endpoint) {method : String} (hm : method ≠ "HEAD") (a : Response) :
    (e.send method a).body = a.body := by
  cases e <;> simp [Endpoint.send, hm, Response.measured, Response.withHeader]

/-- The response to a request that is refused. -/
def refusal (r : Request) (p : Problem) : Response := r.endpoint.send r.method (App.refused p)

/-- What such a response says: to whom only asks for headers, all but the problem. -/
structure Refuses (r : Request) (p : Problem) (response : Response) : Prop where
  unauthorized : ∃ detail, p = .unauthorized detail
  status : response.status = 401
  type : ("content-type", Problem.mediaType) ∈ response.headers
  realm : ("www-authenticate", "Basic realm=veraison") ∈ response.headers
  body : r.method ≠ "HEAD" →
    Json.Decoder.run Problem.record.decode (Text.Utf8.encode response.body) = .ok p

theorem refuses_refusal {a : Authorizer} {r : Request} {p : Problem}
    (h : a.authorize r.headers = .error p) : Refuses r p (refusal r p) := by
  obtain ⟨detail, rfl⟩ := authorize_error h
  refine ⟨⟨detail, rfl⟩, send_status _ _ _, mem_send ?_, mem_send ?_, ?_⟩
  · exact List.mem_cons_self
  · exact List.mem_cons_of_mem _ List.mem_cons_self
  · intro hm
    rw [refusal, send_body _ hm]
    exact FirstFailure.read_problem _

theorem respond_admitted (run : Runner m H) {app : App H} {r : Request}
    (h : app.authorizer.authorize r.headers = .ok ()) :
    App.respond run app r =
      App.serve run app r >>= fun answer => pure (answer.map (r.endpoint.send r.method)) := by
  rw [App.respond, h]

variable [LawfulMonad m]

theorem respond_refused (run : Runner m H) {app : App H} {r : Request} {p : Problem}
    (h : app.authorizer.authorize r.headers = .error p) :
    App.respond run app r = pure (some (refusal r p)) := by
  rw [App.respond, h]
  exact pure_bind _ _

/-- The gate is complete. Under a table of users a request that is not admitted is refused without
any call, by a response in which neither the attesters nor the settings have a part; one that is
admitted is answered as it is when everybody is. With or without a note of them, requests are
answered alike when everybody is admitted, and whatever credentials they carry. -/
theorem gate_complete (run : Runner m H) (s : Settings) (registry : Registry H)
    {users : List (String × String)} {a : Authorizer} (ha : Authorizer.ofUsers users = .ok a) :
    ∃ gated ungated noted : App H,
      App.ofSettings { s with access := .basic users } registry = .ok gated ∧
      App.ofSettings { s with access := .none } registry = .ok ungated ∧
      App.ofSettings { s with access := .passthrough } registry = .ok noted ∧
      (∀ r p, a.authorize r.headers = .error p →
        App.respond run gated r = pure (some (refusal r p)) ∧ Refuses r p (refusal r p)) ∧
      (∀ r, a.authorize r.headers = .ok () →
        App.respond run gated r = App.respond run ungated r) ∧
      ∀ r r', Alike r r' →
        App.respond run ungated r = App.respond run ungated r' ∧
          App.respond run noted r' = App.respond run ungated r := by
  refine ⟨⟨a, s.composition, registry⟩, ⟨.everyone, s.composition, registry⟩,
    ⟨.everyone, s.composition, registry⟩, ?_, rfl, rfl, ?_, ?_, ?_⟩
  · rw [App.ofSettings, Authorizer.ofAccess, ha]
    rfl
  · intro r p hp
    exact ⟨respond_refused run hp, refuses_refusal hp⟩
  · intro r hr
    rw [respond_admitted run hr, respond_admitted run rfl, serve_ungated run a .everyone]
  · intro r r' h
    have heq : App.respond run ⟨.everyone, s.composition, registry⟩ r =
        App.respond run ⟨.everyone, s.composition, registry⟩ r' := by
      rw [respond_admitted run rfl, respond_admitted run rfl, serve_alike run _ h,
        endpoint_alike h, h.method]
    exact ⟨heq, heq.symm⟩

/-- A table of one user: a request without credentials is refused, and nobody is called. -/
theorem gate_alice :
    let users := [("alice", "$2b$04$abcdefghijklmnopqrstuuABCDEFGHIJKLMNOPQRSTUVWXYZ01234")]
    let registry := Mock.registry [("a", ⟨"x", [1]⟩)]
    let r : Request := ⟨"GET", subattestersPath, [], []⟩
    let p : Problem := .unauthorized "no Basic Authorization given"
    ∃ gated, App.ofSettings { ({} : Settings) with access := .basic users } registry = .ok gated ∧
      (App.respond (Course.Environment.runner (environment lastFirst fun _ => id)) gated r).run [] =
        (some (refusal r p), []) ∧
      Refuses r p (refusal r p) := by
  intro users registry r p
  have hu : Authorizer.ofUsers users = .ok (.listed users) := by decide +kernel
  obtain ⟨gated, _, _, hgated, _, _, hrefused, _⟩ :=
    gate_complete (Course.Environment.runner (environment lastFirst fun _ => id)) {} registry hu
  obtain ⟨hrespond, hrefuses⟩ := hrefused r p rfl
  refine ⟨gated, hgated, ?_, hrefuses⟩
  rw [hrespond]
  rfl

end Attestation.Proofs.Admission
