import Attestation.Proofs.Admission

namespace Attestation.Proofs.MediaTypes

open Compositor (Envelope Registry Runner checkMediaTypes compose)
open Http Course Scheduling Utf8Encoding
open Text.Utf8 (encode)

/-- A value that is a text. -/
def Legible (value : List UInt8) : Prop := ∀ b ∈ value, isVisible b = true

/-- The media type of responses, or any. -/
def Wanted (value : List UInt8) : Prop := value = encode Envelope.mediaType ∨ value = encode "*/*"

/-- The content type is that of requests. -/
def Typed (headers : List (String × List UInt8)) : Prop :=
  header? headers "content-type" = some (encode Compositor.mediaType)

instance (value : List UInt8) : Decidable (Legible value) :=
  inferInstanceAs (Decidable (∀ b ∈ value, isVisible b = true))

instance (value : List UInt8) : Decidable (Wanted value) :=
  inferInstanceAs (Decidable (value = encode Envelope.mediaType ∨ value = encode "*/*"))

instance (headers : List (String × List UInt8)) : Decidable (Typed headers) :=
  inferInstanceAs (Decidable (header? headers "content-type" = some (encode Compositor.mediaType)))

theorem isVisible_ascii {b : UInt8} (h : isVisible b = true) : b < 0x80 := by
  simp only [isVisible, Bool.or_eq_true, Bool.and_eq_true, decide_eq_true_eq, beq_iff_eq] at h
  obtain ⟨_, h⟩ | rfl := h
  · exact UInt8.lt_trans h (by decide)
  · decide

theorem visibleText?_eq_some_iff {value : List UInt8} {s : String} :
    visibleText? value = some s ↔ Legible value ∧ value = encode s := by
  have hread : Legible value →
      ∃ s, visibleText? value = some s ∧ value = encode s := by
    intro h
    refine ⟨_, if_pos (List.all_eq_true.mpr h), ?_⟩
    rw [encode_ofList, bytesOf_ascii value fun b hb => isVisible_ascii (h b hb)]
  constructor
  · intro h
    have hall : Legible value := by
      rw [visibleText?] at h
      split at h
      · exact List.all_eq_true.mp ‹_›
      · cases h
    obtain ⟨t, ht, hv⟩ := hread hall
    cases ht.symm.trans h
    exact ⟨hall, hv⟩
  · rintro ⟨hall, rfl⟩
    obtain ⟨t, ht, hv⟩ := hread hall
    rw [ht, encode_injective hv]

theorem headerText?_eq_some_iff {headers : List (String × List UInt8)} {name s : String}
    (hs : Legible (encode s)) :
    headerText? headers name = some s ↔ header? headers name = some (encode s) := by
  rw [headerText?, Option.bind_eq_some_iff]
  constructor
  · rintro ⟨value, hv, ht⟩
    rw [hv, (visibleText?_eq_some_iff.mp ht).2]
  · intro h
    exact ⟨encode s, h, visibleText?_eq_some_iff.mpr ⟨hs, rfl⟩⟩

theorem legible_mediaType : Legible (encode Compositor.mediaType) := by decide +kernel

/-- The three outcomes of the check: the content type comes first, and of what is accepted only a
text counts. -/
theorem checkMediaTypes_untyped {headers : List (String × List UInt8)} (h : ¬ Typed headers)
    (accept : Option String) :
    ∃ detail, checkMediaTypes (headerText? headers "content-type") accept =
      .error (.invalidRequest detail) := by
  refine ⟨_, if_pos ?_⟩
  intro heq
  refine h ((headerText?_eq_some_iff legible_mediaType).mp ?_)
  cases hc : headerText? headers "content-type" with
  | none =>
    rw [hc] at heq
    exact absurd heq (by decide)
  | some s =>
    rw [hc] at heq
    exact congrArg some heq

theorem checkMediaTypes_unwanted {headers : List (String × List UInt8)} (h : Typed headers)
    {value : List UInt8} (hv : header? headers "accept" = some value) (hl : Legible value)
    (hw : ¬ Wanted value) :
    ∃ detail, checkMediaTypes (headerText? headers "content-type")
      (headerText? headers "accept") = .error (.notAcceptable detail) := by
  obtain ⟨s, hs⟩ : ∃ s, visibleText? value = some s := ⟨_, if_pos (List.all_eq_true.mpr hl)⟩
  have hwanted : ¬ (s = Envelope.mediaType ∨ s = "*/*") := by
    rintro (rfl | rfl)
    · exact hw (Or.inl (visibleText?_eq_some_iff.mp hs).2)
    · exact hw (Or.inr (visibleText?_eq_some_iff.mp hs).2)
  rw [(headerText?_eq_some_iff legible_mediaType).mpr h, headerText?, hv, Option.bind_some, hs]
  exact ⟨_, if_neg hwanted⟩

theorem checkMediaTypes_wanted {headers : List (String × List UInt8)} (h : Typed headers)
    (hw : ∀ value, header? headers "accept" = some value → Legible value → Wanted value) :
    checkMediaTypes (headerText? headers "content-type") (headerText? headers "accept") =
      .ok () := by
  rw [(headerText?_eq_some_iff legible_mediaType).mpr h]
  cases hs : headerText? headers "accept" with
  | none => rfl
  | some s =>
    obtain ⟨value, hv, ht⟩ := Option.bind_eq_some_iff.mp hs
    obtain ⟨hl, hvalue⟩ := visibleText?_eq_some_iff.mp ht
    have hwanted : s = Envelope.mediaType ∨ s = "*/*" :=
      (hw value hv hl).imp (fun h => encode_injective (hvalue ▸ h))
        (fun h => encode_injective (hvalue ▸ h))
    exact if_pos hwanted

variable {H : Type} {m : Type → Type} [Monad m]

/-- The response to a body that has been composed for. -/
def composedResponse : Except Problem Envelope → Response
  | .ok e => (App.ofEnvelope e).measured
  | .error p => (App.ofProblem p).measured

/-- A problem of this kind is all the response, with this status, without any call, and whatever
the body is. -/
def Rejected (run : Runner m H) (app : App H) (r : Request) (kind : String → Problem)
    (status : UInt16) : Prop :=
  ∃ detail, (App.ofProblem (kind detail)).status = status ∧
    ∀ body : List UInt8, body.length ≤ maxBody →
      App.respond run app { r with body := body } =
        pure (some (App.ofProblem (kind detail)).measured)

variable {run : Runner m H} {app : App H} {r : Request}

theorem method_of_challenge (h : r.endpoint = .challenge) : r.method = "POST" := by
  rw [Request.endpoint] at h
  split at h
  · split at h
    · assumption
    · cases h
  · split at h
    · split at h <;> cases h
    · split at h <;> cases h

theorem send_challenge (h : r.endpoint = .challenge) (a : Response) :
    r.endpoint.send r.method a = a.measured := by
  rw [h, method_of_challenge h]
  rfl

variable [LawfulMonad m]

theorem respond_challenge (hadmitted : app.authorizer.authorize r.headers = .ok ())
    (hendpoint : r.endpoint = .challenge) :
    App.respond run app r =
      App.challenge run app r >>= fun a => pure (some a.measured) := by
  rw [Admission.respond_admitted run hadmitted, App.serve, hendpoint, map_eq_pure_bind, bind_assoc]
  simp only [pure_bind, Option.map_some, ← hendpoint, send_challenge hendpoint]

theorem respond_mistyped (hadmitted : app.authorizer.authorize r.headers = .ok ())
    (hendpoint : r.endpoint = .challenge) {p : Problem}
    (hp : checkMediaTypes (headerText? r.headers "content-type")
      (headerText? r.headers "accept") = .error p) {body : List UInt8}
    (hsize : body.length ≤ maxBody) :
    App.respond run app { r with body := body } = pure (some (App.ofProblem p).measured) := by
  rw [respond_challenge (r := { r with body := body }) hadmitted hendpoint, App.challenge,
    if_neg (Nat.not_lt.mpr hsize), hp]
  exact pure_bind _ _

theorem respond_typed (hadmitted : app.authorizer.authorize r.headers = .ok ())
    (hendpoint : r.endpoint = .challenge)
    (htypes : checkMediaTypes (headerText? r.headers "content-type")
      (headerText? r.headers "accept") = .ok ())
    (hsize : r.body.length ≤ maxBody) :
    App.respond run app r =
      compose run app.settings app.registry r.body >>= fun result =>
        pure (some (composedResponse result)) := by
  rw [respond_challenge hadmitted hendpoint, App.challenge, if_neg (Nat.not_lt.mpr hsize), htypes,
    bind_assoc]
  congr 1
  funext result
  cases result <;> exact pure_bind _ _

/-- A request whose content type is wrong or missing is rejected with 400; one whose content type
is right with 406, if it accepts, by the first header that says so, other media types than that of
responses and any. Both are rejected before the body counts, and before anybody is asked. Every
other request is composed for. A header that is no text does not say what is accepted. -/
theorem media_types_decide (hadmitted : app.authorizer.authorize r.headers = .ok ())
    (hendpoint : r.endpoint = .challenge) (hsize : r.body.length ≤ maxBody) :
    (¬ Typed r.headers → Rejected run app r .invalidRequest 400) ∧
      (Typed r.headers →
        (∀ value, header? r.headers "accept" = some value → Legible value → ¬ Wanted value →
          Rejected run app r .notAcceptable 406) ∧
        ((∀ value, header? r.headers "accept" = some value → Legible value → Wanted value) →
          App.respond run app r =
            compose run app.settings app.registry r.body >>= fun result =>
              pure (some (composedResponse result)))) := by
  refine ⟨?_, fun htyped => ⟨?_, ?_⟩⟩
  · intro h
    obtain ⟨detail, hp⟩ := checkMediaTypes_untyped h (headerText? r.headers "accept")
    exact ⟨detail, rfl, fun _ => respond_mistyped hadmitted hendpoint hp⟩
  · intro value hv hl hw
    obtain ⟨detail, hp⟩ := checkMediaTypes_unwanted htyped hv hl hw
    exact ⟨detail, rfl, fun _ => respond_mistyped hadmitted hendpoint hp⟩
  · intro hw
    exact respond_typed hadmitted hendpoint (checkMediaTypes_wanted htyped hw) hsize

/-- A request for a text is rejected. -/
theorem text_rejected :
    let env := environment lastFirst fun _ => id
    let app : App SubAttester := ⟨.everyone, {}, Mock.registry [("a", ⟨"x", [1]⟩)]⟩
    let r : Request := ⟨"POST", challengePath,
      [("content-type", encode Compositor.mediaType), ("accept", encode "text/plain")], []⟩
    app.authorizer.authorize r.headers = .ok () ∧ r.endpoint = .challenge ∧
      r.body.length ≤ maxBody ∧ Rejected env.runner app r .notAcceptable 406 := by
  intro env app r
  have hendpoint : r.endpoint = .challenge := by decide +kernel
  have htyped : Typed r.headers := by decide +kernel
  refine ⟨rfl, hendpoint, Nat.zero_le _, ?_⟩
  exact ((media_types_decide rfl hendpoint (Nat.zero_le _)).2 htyped).1 (encode "text/plain")
    (by decide +kernel) (by decide +kernel) (by decide +kernel)

/-- A request whose `accept` is one byte beyond ASCII, so neither the media type of responses nor
any. It is composed for all the same: an attester is asked, and the response is an envelope. -/
theorem illegible_accept_composed :
    let env := environment lastFirst fun _ => id
    let app : App SubAttester := ⟨.everyone, {}, Mock.registry [("a", ⟨"x", [1]⟩)]⟩
    let r : Request := ⟨"POST", challengePath,
      [("content-type", encode Compositor.mediaType), ("accept", [0xFF])],
      encode "\x7b\"nonce\":\"AQ\"\x7d"⟩
    let answered := (App.respond env.runner app r).run []
    app.authorizer.authorize r.headers = .ok () ∧ r.endpoint = .challenge ∧
      r.body.length ≤ maxBody ∧ Typed r.headers ∧ header? r.headers "accept" = some [0xFF] ∧
      ¬ Wanted [0xFF] ∧
      (questions answered.2).isEmpty = false ∧ answered.1.map (·.status) = some 200 := by
  decide +kernel

end Attestation.Proofs.MediaTypes
