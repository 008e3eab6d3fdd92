import Attestation.Proofs.InTurn
import Attestation.Proofs.Composing

namespace Attestation.Proofs.CheckOrder

open Compositor Course Scheduling Negotiation Gathering Merging Targets InTurn CmwText JsonRecords
open Json (Value)

variable {H α β : Type}

/-- A check, and what is wrong if it fails: with the request of the client, or behind the daemon. -/
inductive Check where
  | client (fault : Option String)
  | server (fault : Option String)

def Check.problem? : Check → Option Problem
  | .client fault => fault.map .invalidRequest
  | .server fault => fault.map .internal

/-- The problem of the first check that fails. -/
def firstProblem (checks : List Check) : Option Problem := checks.findSome? Check.problem?

def bodyCheck (body : List UInt8) : Check :=
  .client (match Json.Decoder.run Challenge.record.decode body with
    | .ok c => if c.nonce = "" then some "fail to retrieve nonce from the request" else none
    | .error _ => some "fail to retrieve nonce from the request")

def nonceCheck (s : String) : Check :=
  let digits := (s.toList.reverse.dropWhile (· == '=')).reverse
  .client (match Base64.decode Base64.urlSafe (Text.Utf8.encode (String.ofList digits)) with
    | .error e => some s!"fail to decode nonce from the request: {e.message}"
    | .ok [] => some "fail to retrieve nonce from the request"
    | .ok (_ :: _) => none)

def registryCheck (names : List String) : Check :=
  .server (if names = [] then some "no sub-attester available" else none)

/-- The selection is an object, if there is one, and there is one that is not empty if only
selected attesters are asked. -/
def selectionChecks (mode : ListMode) (selection : Option Value) : List Check :=
  [.client (match selection with
      | none | some .null | some (.object _) => none
      | some v => some s!"failed to parse attester selection: expected an object, got {v.text}"),
    .client (if mode = .selected ∧ entries selection = [] then
      some "attester-selection must contain at least one attester" else none)]

def askedType : Option Value → Option Value
  | some (.object options) => Value.get? options contentTypeOption
  | _ => none

/-- An attester offers formats, its options are an object, if there are any, and the content type
in them is text, and one of those that are offered. -/
def offerChecks (name : String) (answer : FormatsAnswer) (entry : Option Value) : List Check :=
  [.server (if answer.status.result = true ∧ answer.formats ≠ [] then none
      else some s!"no supported formats from attester {name}: {answer.status.error}"),
    .client (match entry with
      | none | some .null | some (.object _) => none
      | some _ => some s!"failed to parse options for {name}: expected an object"),
    .client (match askedType entry with
      | none | some (.string _) => none
      | some _ => some
          s!"failed to parse options for {name}: {contentTypeOption} must be a string"),
    .client (match askedType entry with
      | some (.string type) =>
        if answer.formats.any (·.contentType = type) then none
        else some s!"{name} does not support content type {type}"
      | _ => none)]

/-- A target is found, and what it offers at a step fits what is asked of it. -/
def targetChecks (registry : Registry H) (answers : Nat → H → SubAttester) (selection : Selection)
    (name : String) (step : Nat) : List Check :=
  match registry.lookup name with
  | .error e => [.server (some s!"failed to get handle from {name}: {e.message}")]
  | .ok h => offerChecks name (answers step h).formats (Value.get? selection name)

def evidenceCheck (registry : Registry H) (answers : Nat → H → SubAttester) (nonce : List UInt8)
    (selection : Selection) (name : String) (step later : Nat) : Check :=
  .server (match settle registry (answers step) nonce selection name with
    | .error _ => none
    | .ok plan =>
      let answer := (answers later plan.attester).evidence plan.request
      if answer.status.result = true then none
      else some s!"failed to get attestation report from {name}: {answer.status.error}")

def labelChecks (others : List String) (label : String) : List Check :=
  [.server (if label = "" ∨ label = Cmw.kindLabel then
      some (Token.Error.invalidCmw ("reserved or empty label " ++ Text.quoted label)).message
      else none),
    .server (if label ∈ others then some (Token.Error.duplicateLabel label).message else none)]

/-- Whom a request is about, in the order in which they are asked. -/
def targetsOf (mode : ListMode) (registry : Registry H) (selection : Option Value) : List String :=
  match mode with
  | .all => sortNames registry.names
  | .selected => (entries selection).map (·.1)

/-- All that is checked, in order. The targets are asked for their formats at the first steps, and
for evidence at the steps after that. -/
def checklist (mode : ListMode) (registry : Registry H) (answers : Nat → H → SubAttester)
    (body : List UInt8) : List Check :=
  let c := Challenge.ofBody body
  let nonce := (decodeNonce c.nonce).toOption.getD []
  let selection := entries c.selection
  let names := targetsOf mode registry c.selection
  bodyCheck body :: nonceCheck c.nonce :: registryCheck registry.names ::
    selectionChecks mode c.selection ++
    names.zipIdx.flatMap (fun x => targetChecks registry answers selection x.1 x.2) ++
    names.zipIdx.map (fun x =>
      evidenceCheck registry answers nonce selection x.1 x.2 (names.length + x.2)) ++
    names.zipIdx.flatMap (fun x => labelChecks (names.take x.2) x.1)

def problemOf : Except Problem α → Option Problem
  | .error p => some p
  | .ok _ => none

/-- A computation ends with the problem of the first check that fails, and succeeds if none
does. -/
def Decides (checks : List Check) (x : Except Problem α) : Prop :=
  firstProblem checks = problemOf x

theorem decides_ok (a : α) : Decides [] (.ok a) := rfl

/-- The checks of a second computation come after those of the first one. -/
theorem decides_bind {xs ys : List Check} {x : Except Problem α} {f : α → Except Problem β}
    (hx : Decides xs x) (hf : ∀ a, x = .ok a → Decides ys (f a)) :
    Decides (xs ++ ys) (x >>= f) := by
  unfold Decides firstProblem at *
  rw [List.findSome?_append, hx]
  cases x with
  | error p => rfl
  | ok a => exact hf a rfl

theorem decides_map {xs : List Check} {x : Except Problem α} (hx : Decides xs x) (f : α → β) :
    Decides xs (x.map f) := by
  cases x <;> exact hx

theorem decides_cons {c : Check} {xs : List Check} {x : Except Problem α}
    {f : α → Except Problem β} (hx : Decides [c] x) (hf : ∀ a, x = .ok a → Decides xs (f a)) :
    Decides (c :: xs) (x >>= f) :=
  decides_bind hx hf

theorem decides_nonce (s : String) : Decides [nonceCheck s] (decodeNonce s) := by
  unfold nonceCheck decodeNonce
  generalize (s.toList.reverse.dropWhile (· == '=')).reverse = digits
  cases hd : Base64.decode Base64.urlSafe (Text.Utf8.encode (String.ofList digits)) with
  | error e => simp only [hd]; rfl
  | ok nonce => cases nonce <;> (simp only [hd]; rfl)

theorem decides_selection (mode : ListMode) (selection : Option Value) :
    Decides (selectionChecks mode selection) (selectionOf selection >>= effective mode) := by
  match mode, selection with
  | .all, none | .all, some .null | .all, some (.object []) | .all, some (.object (_ :: _))
  | .selected, some (.object (_ :: _))
  | .selected, none | .selected, some .null | .selected, some (.object [])
  | .all, some (.bool _) | .all, some (.number _) | .all, some (.string _)
  | .all, some (.array _) | .selected, some (.bool _) | .selected, some (.number _)
  | .selected, some (.string _) | .selected, some (.array _) => rfl

theorem problem?_bodyCheck (body : List UInt8) :
    (bodyCheck body).problem? =
      if (Challenge.ofBody body).nonce = "" then some missingNonce else none := by
  unfold bodyCheck Challenge.ofBody
  cases Json.Decoder.run Challenge.record.decode body with
  | error f => rfl
  | ok c =>
    change (if c.nonce = "" then some _ else none).map Problem.invalidRequest =
      if c.nonce = "" then _ else _
    split <;> rfl

theorem decides_if {p : Prop} [Decidable p] {c : Check} {q : Problem} {xs : List Check}
    {x : Except Problem α} (hc : c.problem? = if p then some q else none) (hx : Decides xs x) :
    Decides (c :: xs) (if p then .error q else x) := by
  unfold Decides firstProblem at *
  by_cases hp : p
  · rw [if_pos hp] at hc ⊢
    rw [List.findSome?_cons, hc]
    rfl
  · rw [if_neg hp] at hc ⊢
    rw [List.findSome?_cons, hc]
    exact hx

theorem decides_prepare (mode : ListMode) (registry : Registry H) (body : List UInt8) :
    Decides (bodyCheck body :: nonceCheck (Challenge.ofBody body).nonce ::
      registryCheck registry.names :: selectionChecks mode (Challenge.ofBody body).selection)
      (prepare mode registry body) := by
  have hregistry : (registryCheck registry.names).problem? =
      if registry.names = [] then some (.internal "no sub-attester available") else none := by
    rw [registryCheck]
    cases registry.names <;> rfl
  rw [prepare_eq]
  refine decides_if (problem?_bodyCheck body) (decides_cons (decides_nonce _) fun nonce _ => ?_)
  refine decides_if hregistry ?_
  exact decides_map (decides_selection mode _) _

theorem decides_contentType (name : String) (offered : List Format) (first : Format)
    (options : List (String × Value)) : Decides
    [.client (match Value.get? options contentTypeOption with
      | none | some (.string _) => none
      | some _ => some
          s!"failed to parse options for {name}: {contentTypeOption} must be a string"),
    .client (match Value.get? options contentTypeOption with
      | some (.string type) =>
        if offered.any (·.contentType = type) then none
        else some s!"{name} does not support content type {type}"
      | _ => none)] (contentType name offered first options) := by
  unfold contentType
  cases Value.get? options contentTypeOption with
  | none => rfl
  | some v =>
    cases v with
    | string type =>
      simp only
      split <;> rfl
    | null | bool _ | number _ | array _ | object _ => rfl

theorem decides_request (name : String) (nonce : List UInt8) (answer : FormatsAnswer)
    (entry : Option Value) :
    Decides (offerChecks name answer entry) (request name nonce answer entry) := by
  obtain ⟨⟨result, error⟩, formats⟩ := answer
  match result, formats with
  | false, _ | true, [] => rfl
  | true, first :: formats =>
    match entry with
    | none | some .null | some (.bool _) | some (.number _) | some (.string _)
    | some (.array _) => rfl
    | some (.object options) =>
      exact decides_map (decides_contentType name (first :: formats) first options) _

theorem decides_settle (registry : Registry H) (answers : Nat → H → SubAttester)
    (nonce : List UInt8) (selection : Selection) (name : String) (step : Nat) :
    Decides (targetChecks registry answers selection name step)
      (settle registry (answers step) nonce selection name) := by
  unfold targetChecks settle Compositor.lookup
  cases registry.lookup name with
  | error e => rfl
  | ok h => exact decides_map (decides_request name nonce _ _) _

variable {registry : Registry H} {answers : Nat → H → SubAttester} {nonce : List UInt8}
  {selection : Selection}

theorem decides_settleFrom (names : List String) (step : Nat) :
    Decides ((names.zipIdx step).flatMap fun x =>
        targetChecks registry answers selection x.1 x.2)
      (settleFrom registry answers nonce selection step names) := by
  induction names generalizing step with
  | nil => exact decides_ok []
  | cons name names ih =>
    rw [List.zipIdx_cons, List.flatMap_cons, settleFrom]
    refine decides_bind (decides_settle registry answers nonce selection name step) fun plan _ => ?_
    exact decides_map (ih (step + 1)) (plan :: ·)

theorem decides_contribution {name : String} {step later : Nat} {plan : Plan H}
    (h : settle registry (answers step) nonce selection name = .ok plan) :
    Decides [evidenceCheck registry answers nonce selection name step later]
      (contribution plan ((answers later plan.attester).evidence plan.request)) := by
  obtain ⟨hname, _⟩ := settle_eq_ok_iff.mp h
  unfold evidenceCheck contribution
  rw [h, hname]
  simp only
  split <;> rfl

theorem decides_itemsFrom {names : List String} {plans : List (Plan H)} {step : Nat} (count : Nat)
    (h : settleFrom registry answers nonce selection step names = .ok plans) :
    Decides ((names.zipIdx step).map fun x =>
        evidenceCheck registry answers nonce selection x.1 x.2 (count + x.2))
      (itemsFrom answers (count + step) plans) := by
  induction names generalizing step plans with
  | nil =>
    cases h
    exact decides_ok []
  | cons name names ih =>
    obtain ⟨plan, hplan, h⟩ := (bind_ok_iff _ _ _).mp h
    obtain ⟨plans, hrest, h⟩ := (bind_ok_iff _ _ _).mp h
    cases h
    rw [List.zipIdx_cons, List.map_cons, itemsFrom]
    refine decides_cons (decides_contribution hplan) fun x _ => ?_
    exact decides_map (ih hrest) (x :: ·)

theorem decides_addItem (c : Cmw.Collection) (x : Item) :
    Decides (labelChecks c.labels x.1) (addItem c x) := by
  have hseen : (c.get? x.1).isSome = true ↔ x.1 ∈ c.labels := by
    rw [← Option.ne_none_iff_isSome, ne_eq, get?_eq_none_iff, Classical.not_not]
  rw [addItem, add_eq, labelChecks]
  by_cases hl : x.1 = "" ∨ x.1 = Cmw.kindLabel
  · rw [if_pos hl, if_pos hl]
    rfl
  · rw [if_neg hl, if_neg hl]
    by_cases hm : x.1 ∈ c.labels
    · rw [if_pos hm, if_pos (hseen.mpr hm)]
      rfl
    · rw [if_neg hm, if_neg (mt hseen.mp hm)]
      rfl

theorem decides_addItems (items : List Item) (c : Cmw.Collection) :
    Decides (((items.map (·.1)).zipIdx c.labels.length).flatMap fun x =>
        labelChecks ((c.labels ++ items.map (·.1)).take x.2) x.1)
      (items.foldlM addItem c) := by
  induction items generalizing c with
  | nil => exact decides_ok c
  | cons x items ih =>
    rw [List.map_cons, List.zipIdx_cons, List.flatMap_cons, List.foldlM_cons]
    simp only [List.take_left]
    refine decides_bind (decides_addItem c x) fun d hd => ?_
    obtain ⟨_, _, rfl⟩ := addItem_eq_ok_iff.mp hd
    have hlabels : (⟨c.kind, c.items ++ records [x]⟩ : Cmw.Collection).labels =
        c.labels ++ [x.1] := List.map_append
    have hrest := ih ⟨c.kind, c.items ++ records [x]⟩
    rw [hlabels, List.length_append, List.append_assoc] at hrest
    exact hrest

theorem decides_merge (items : List Item) :
    Decides ((items.map (·.1)).zipIdx.flatMap fun x =>
        labelChecks ((items.map (·.1)).take x.2) x.1) (merge items) :=
  decides_addItems items (Cmw.Collection.empty Envelope.kind)

theorem targets_eq {mode : ListMode} {body : List UInt8} {t : Task}
    (h : prepare mode registry body = .ok t) :
    t.targets mode registry = targetsOf mode registry (Challenge.ofBody body).selection := by
  cases mode with
  | all => rfl
  | selected => exact targets_selected h

theorem decides_composed {schedule : Schedule} (hs : schedule.deadline = none) (mode : ListMode)
    (timeout : Nat) (body : List UInt8) :
    Decides (checklist mode registry answers body)
      (composed (environment schedule answers) ⟨mode, .sequential, timeout⟩ registry body).1 := by
  rw [composed_inTurn hs, checklist, List.append_assoc, List.append_assoc]
  refine decides_bind (decides_prepare mode registry body) fun t ht => decides_map ?_ _
  obtain ⟨hnonceText, _, hnonce, _, _, hselection⟩ := prepare_eq_ok_iff.mp ht
  rw [← hnonceText, hnonce, collectionFor, ← targets_eq ht, hselection, counted_getD]
  generalize t.targets mode registry = names
  refine decides_bind (decides_settleFrom names 0) fun plans hplans => ?_
  refine decides_bind (decides_itemsFrom names.length hplans) fun items hitems => ?_
  have hlabels : items.map (·.1) = names := by
    rw [labels_itemsFrom hitems, names_settleFrom hplans]
  rw [← hlabels]
  exact decides_merge items

end Attestation.Proofs.CheckOrder
