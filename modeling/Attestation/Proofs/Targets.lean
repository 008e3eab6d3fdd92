import Attestation.Proofs.JsonReading
import Attestation.Proofs.SelectionOrder

namespace Attestation.Proofs.Targets

open Compositor JsonRecords SelectionOrder
open Json (Value)

variable {H : Type}

def Admissible : ListMode → Option Value → Prop
  | .all, none | .all, some .null | .all, some (.object _) => True
  | .selected, some (.object (_ :: _)) => True
  | _, _ => False

/-- The names in a selection and what it says about each of them. -/
def entries : Option Value → Selection
  | some (.object members) => members
  | _ => []

/-- Whom a request is about. -/
def IsTarget (mode : ListMode) (registry : Registry H) (selection : Option Value)
    (name : String) : Prop :=
  match mode with
  | .all => name ∈ registry.names
  | .selected => name ∈ (entries selection).map (·.1)

/-- A selection with no entries counts as none. -/
def counted : Selection → Option Selection
  | [] => none
  | members => some members

theorem counted_getD (s : Selection) : (counted s).getD [] = s := by
  cases s <;> rfl

theorem effective_eq_ok_iff {mode : ListMode} {selection : Option Value} {s : Option Selection} :
    (selectionOf selection >>= effective mode) = .ok s ↔
      Admissible mode selection ∧ s = counted (entries selection) := by
  have hok : ∀ {x y : Option Selection}, (Except.ok x : Except Problem _) = .ok y ↔ y = x :=
    fun {x y} => ⟨fun h => (Except.ok.inj h).symm, fun h => congrArg Except.ok h.symm⟩
  match mode, selection with
  | .all, none | .all, some .null | .all, some (.object []) | .all, some (.object (_ :: _))
  | .selected, some (.object (_ :: _)) => exact hok.trans (iff_of_eq (true_and _)).symm
  | .selected, none | .selected, some .null | .selected, some (.object [])
  | .all, some (.bool _) | .all, some (.number _) | .all, some (.string _)
  | .all, some (.array _) | .selected, some (.bool _) | .selected, some (.number _)
  | .selected, some (.string _) | .selected, some (.array _) => exact ⟨nofun, nofun⟩

theorem prepare_eq (mode : ListMode) (registry : Registry H) (body : List UInt8) :
    prepare mode registry body =
      if (Challenge.ofBody body).nonce = "" then .error missingNonce
      else decodeNonce (Challenge.ofBody body).nonce >>= fun nonce =>
        if registry.names = [] then .error (.internal "no sub-attester available")
        else (selectionOf (Challenge.ofBody body).selection >>= effective mode) >>= fun selection =>
          .ok ⟨(Challenge.ofBody body).nonce, nonce, selection⟩ := by
  unfold prepare
  generalize Challenge.ofBody body = c
  by_cases hc : c.nonce = ""
  · simp only [if_pos hc]
    rfl
  · simp only [if_neg hc]
    cases decodeNonce c.nonce with
    | error p => rfl
    | ok nonce =>
      cases registry.names with
      | nil => rfl
      | cons name names => cases selectionOf c.selection <;> rfl

theorem prepare_eq_ok_iff {mode : ListMode} {registry : Registry H} {body : List UInt8} {t : Task} :
    prepare mode registry body = .ok t ↔
      t.nonceText = (Challenge.ofBody body).nonce ∧ t.nonceText ≠ "" ∧
        decodeNonce t.nonceText = .ok t.nonce ∧ registry.names ≠ [] ∧
        Admissible mode (Challenge.ofBody body).selection ∧
        t.selection = counted (entries (Challenge.ofBody body).selection) := by
  rw [prepare_eq]
  obtain ⟨nonceText, nonce, selection⟩ := t
  generalize Challenge.ofBody body = c
  constructor
  · intro h
    split at h
    · cases h
    · rename_i hne
      obtain ⟨n, hn, h⟩ := (bind_ok_iff _ _ _).mp h
      split at h
      · cases h
      · rename_i hnames
        obtain ⟨s, hs, h⟩ := (bind_ok_iff _ _ _).mp h
        cases h
        obtain ⟨ha, rfl⟩ := effective_eq_ok_iff.mp hs
        exact ⟨rfl, hne, hn, hnames, ha, rfl⟩
  · rintro ⟨rfl, hne, hn, hnames, ha, rfl⟩
    rw [if_neg hne]
    refine (bind_ok_iff _ _ _).mpr ⟨nonce, hn, ?_⟩
    rw [if_neg hnames]
    exact (bind_ok_iff _ _ _).mpr ⟨_, effective_eq_ok_iff.mpr ⟨ha, rfl⟩, rfl⟩

theorem ofBody_eq_iff {body : List UInt8} {c : Challenge} (hc : c.nonce ≠ "") :
    Challenge.ofBody body = c ↔ Json.Decoder.run Challenge.record.decode body = .ok c := by
  unfold Challenge.ofBody
  cases Json.Decoder.run Challenge.record.decode body with
  | ok d => exact ⟨fun h => congrArg Except.ok h, fun h => Except.ok.inj h⟩
  | error f =>
    constructor
    · rintro rfl
      exact absurd rfl hc
    · nofun

theorem decodeNonce_ne_nil {s : String} {nonce : List UInt8} (h : decodeNonce s = .ok nonce) :
    nonce ≠ [] := by
  unfold decodeNonce at h
  simp only at h
  split at h
  · cases h
  · cases h
  · rename_i hne _
    cases h
    exact hne

theorem ascending_entries (body : List UInt8) :
    Ascending (entries (Challenge.ofBody body).selection) := by
  have h := ordered_ofBody body
  cases hs : (Challenge.ofBody body).selection with
  | none => exact List.Pairwise.nil
  | some v =>
    cases v with
    | object members => exact h members hs
    | null | bool _ | number _ | string _ | array _ => exact List.Pairwise.nil

theorem targets_selected {registry : Registry H} {body : List UInt8} {t : Task}
    (h : prepare .selected registry body = .ok t) :
    t.targets .selected registry = (entries (Challenge.ofBody body).selection).map (·.1) := by
  obtain ⟨_, _, _, _, ha, hs⟩ := prepare_eq_ok_iff.mp h
  unfold Task.targets
  rw [hs]
  generalize (Challenge.ofBody body).selection = selection at ha
  match selection, ha with
  | some (.object (_ :: _)), _ => rfl

/-- The targets of a task are those of its request. -/
theorem mem_targets_iff {mode : ListMode} {registry : Registry H} {body : List UInt8} {t : Task}
    (h : prepare mode registry body = .ok t) (name : String) :
    name ∈ t.targets mode registry ↔
      IsTarget mode registry (Challenge.ofBody body).selection name := by
  cases mode with
  | all => exact (sortNames_perm registry.names).mem_iff
  | selected =>
    rw [targets_selected h]
    rfl

theorem targets_ascending {mode : ListMode} {registry : Registry H} {body : List UInt8} {t : Task}
    (hnames : registry.names.Nodup) (h : prepare mode registry body = .ok t) :
    (t.targets mode registry).Pairwise (· < ·) := by
  cases mode with
  | all => exact sortNames_ascending hnames
  | selected =>
    rw [targets_selected h]
    exact ascending_entries body

theorem targets_nodup {mode : ListMode} {registry : Registry H} {body : List UInt8} {t : Task}
    (hnames : registry.names.Nodup) (h : prepare mode registry body = .ok t) :
    (t.targets mode registry).Nodup :=
  (targets_ascending hnames h).imp String.ne_of_lt

section text

open JsonReading JsonText JsonValues Utf8Encoding

theorem run_challenge (text : String) {v : Value} (hx : Exact v) (hnull : v ≠ .null)
    (hn : nesting v < Json.maxDepth) :
    Json.Decoder.run Challenge.record.decode
        (bytesOf (Value.object [("nonce", .string text), ("attester-selection", v)]).render) =
      .ok ⟨text, some v.sorted⟩ := by
  have htext := reads_mono (reads_string text) (Nat.zero_le (nesting v))
  have hselection := reads_some (reads_value v) hnull
  have hread : Reads Challenge.record.decode (nesting v + 1)
      (.object [("nonce", .string text), ("attester-selection", v)]) ⟨text, some v.sorted⟩ :=
    reads_record
      (.cons rfl (by decide) htext (.cons rfl (by decide) hselection (.nil _ _))) rfl
  exact run_text hread hn ⟨trivial, hx, trivial⟩

theorem ofBody_of_run {body : List UInt8} {c : Challenge}
    (h : Json.Decoder.run Challenge.record.decode body = .ok c) : Challenge.ofBody body = c := by
  rw [Challenge.ofBody, h]

/-- A request that selects two attesters, one of them with a format of its own. -/
def pairRequest : List UInt8 := bytesOf (Value.object [
  ("nonce", .string "AQ"),
  ("attester-selection", .object [("b", .null), ("a", .object [("content-type", .string "x")])])]
  ).render

def pairTask : Task :=
  ⟨"AQ", [1], some [("a", .object [("content-type", .string "x")]), ("b", .null)]⟩

theorem run_pairRequest : Json.Decoder.run Challenge.record.decode pairRequest = .ok
    ⟨"AQ", some (.object [("a", .object [("content-type", .string "x")]), ("b", .null)])⟩ :=
  run_challenge "AQ" ⟨trivial, ⟨trivial, trivial⟩, trivial⟩ nofun (by decide)

theorem prepare_pairRequest {registry : Registry H} (h : registry.names ≠ []) :
    prepare .selected registry pairRequest = .ok pairTask := by
  have hnames : registry.names.isEmpty = false := by simpa using h
  unfold prepare
  rw [ofBody_of_run run_pairRequest, hnames]
  rfl

end text

end Attestation.Proofs.Targets
