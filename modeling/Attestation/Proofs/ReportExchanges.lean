import Attestation.Proofs.Numerals
import Attestation.Proofs.Worlds
import Attestation.Tsm.Configfs

namespace Attestation.Proofs.ReportExchanges

open Tsm Tsm.Configfs Tsm.Configfs.Exchange Numerals Worlds
open Text.Utf8 (encode decodeLossy)

abbrev Event := Worlds.Event Action.Reply

variable {n : UInt64} {a : Attribute} {log : List Event}

theorem runs_bind_ok_iff {α β : Type} {x : Step α} {f : α → Step β} {b : β} :
    Runs (x >>= f).run log (.ok b) ↔
      ∃ a log₁ log₂, log = log₁ ++ log₂ ∧ Runs x.run log₁ (.ok a) ∧
        Runs (f a).run log₂ (.ok b) := by
  rw [runs_part_bind_iff]
  refine or_iff_right ?_
  rintro ⟨e, he, -⟩
  cases he

theorem runs_pure_ok_iff {α : Type} {b c : α} :
    Runs (pure b : Step α).run log (.ok c) ↔ log = [] ∧ b = c := by
  refine Iff.trans runs_done_iff ?_
  rw [Except.ok.injEq]

theorem runs_write_ok_iff {value : List UInt8} :
    Runs (writeAttribute n a value).run log (.ok ()) ↔ log = [⟨.write n a value, .ok ()⟩] := by
  constructor
  · intro h
    obtain ⟨reply, rest, rfl, hnext⟩ := runs_ask_iff.mp h
    cases reply with
    | error e =>
      obtain ⟨-, he⟩ := runs_done_iff.mp hnext
      cases he
    | ok u =>
      obtain ⟨rfl, -⟩ := runs_done_iff.mp hnext
      rfl
  · rintro rfl
    exact .ask (.done _)

theorem runs_read_ok_iff {value : List UInt8} :
    Runs (readAttribute n a).run log (.ok value) ↔ log = [⟨.read n a, .ok value⟩] := by
  constructor
  · intro h
    obtain ⟨reply, rest, rfl, hnext⟩ := runs_ask_iff.mp h
    cases reply with
    | error e =>
      obtain ⟨-, he⟩ := runs_done_iff.mp hnext
      cases he
    | ok found =>
      obtain ⟨rfl, he⟩ := runs_done_iff.mp hnext
      cases he
      rfl
  · rintro rfl
    exact .ask (.done _)

inductive Found : Option (List UInt8) → Except SystemError (List UInt8) → Prop
  | there (value : List UInt8) : Found (some value) (.ok value)
  | missing : Found none (.error .notFound)

theorem found_error_iff {value : Option (List UInt8)} {e : SystemError} :
    Found value (.error e) ↔ value = none ∧ e = .notFound := by
  constructor
  · rintro ⟨⟩
    exact ⟨rfl, rfl⟩
  · rintro ⟨rfl, rfl⟩
    exact .missing

theorem found_ok_iff {value : Option (List UInt8)} {content : List UInt8} :
    Found value (.ok content) ↔ value = some content := by
  constructor
  · rintro ⟨⟩
    rfl
  · rintro rfl
    exact .there content

theorem runs_readOptional_ok_iff {value : Option (List UInt8)} :
    Runs (readOptional n a).run log (.ok value) ↔
      ∃ reply, Found value reply ∧ log = [⟨.read n a, reply⟩] := by
  constructor
  · intro h
    obtain ⟨reply, rest, rfl, hnext⟩ := runs_ask_iff.mp h
    cases reply with
    | ok found =>
      obtain ⟨rfl, he⟩ := runs_done_iff.mp hnext
      cases he
      exact ⟨_, .there found, rfl⟩
    | error e =>
      obtain ⟨rfl, he⟩ := runs_done_iff.mp hnext
      by_cases hm : e = .notFound
      · subst e
        cases he
        exact ⟨_, .missing, rfl⟩
      · rw [if_neg hm] at he
        cases he
  · rintro ⟨reply, hf, rfl⟩
    cases hf with
    | there value => exact .ask (.done _)
    | missing => exact .ask (.done _)

theorem generationOf_eq_ok_iff {value : List UInt8} {v : UInt64} :
    generationOf value = .ok v ↔ Numeral (decodeLossy value).toList v.toNat := by
  constructor
  · intro h
    unfold generationOf at h
    simp only at h
    split at h
    · rename_i n hn
      cases h
      obtain ⟨hnumeral, hlt⟩ := natBelow?_trim_iff.mp hn
      rwa [UInt64.toNat_ofNat_of_lt' hlt]
    · cases h
  · intro h
    have hread := natBelow?_trim_iff.mpr ⟨h, v.toNat_lt_size⟩
    simp only [generationOf, hread, UInt64.ofNat_toNat]

theorem runs_readGeneration_ok_iff {v : UInt64} :
    Runs (readGeneration n).run log (.ok v) ↔
      ∃ value, generationOf value = .ok v ∧ log = [⟨.read n .generation, .ok value⟩] := by
  refine Iff.trans runs_bind_ok_iff ?_
  constructor
  · rintro ⟨value, log₁, log₂, rfl, hread, hnext⟩
    obtain ⟨rfl, hv⟩ := runs_done_iff.mp hnext
    rw [runs_read_ok_iff.mp hread]
    exact ⟨value, hv, rfl⟩
  · rintro ⟨value, hv, rfl⟩
    exact ⟨value, _, [], rfl, runs_read_ok_iff.mpr rfl, hv ▸ .done _⟩

def writeLevel (n : UInt64) (r : ReportRequest) : Step Unit :=
  if 0 < r.privilegeLevel then
    writeAttribute n .privlevel (encode (toString r.privilegeLevel.toNat))
  else pure ()

def readAux (n : UInt64) (r : ReportRequest) : Step (Option (List UInt8)) :=
  if r.wantsAuxBlob then readOptional n .auxblob else pure none

def conclude (expected got : UInt64) (report : Report) : Step Report :=
  if got ≠ expected then throw (.generationChanged expected got) else pure report

/-- The exchange in its steps. -/
theorem withEntry_eq (n : UInt64) (r : ReportRequest) :
    withEntry n r = (do
      writeLevel n r
      writeAttribute n .inblob r.inBlob
      let expected ← readGeneration n
      let outBlob ← readAttribute n .outblob
      let auxBlob ← readAux n r
      let manifestBlob ← readOptional n .manifestblob
      let provider ← readAttribute n .provider
      let serviceProvider ← readOptional n .serviceProvider
      let got ← readGeneration n
      conclude expected got {
        provider := decodeLossy provider
        serviceProvider := serviceProvider.map decodeLossy
        outBlob := outBlob
        auxBlob := auxBlob.getD []
        manifestBlob := manifestBlob }) := by
  have hconclude : ∀ expected got report, conclude expected got report =
      if got ≠ expected then throw (.generationChanged expected got) >>= fun () => pure report
      else pure report := fun _ _ _ => rfl
  unfold withEntry writeLevel readAux
  simp only [hconclude]
  split <;> split <;> rfl

variable {r : ReportRequest}

def levelWrites (n : UInt64) (r : ReportRequest) : List Event :=
  if 0 < r.privilegeLevel then
    [⟨.write n .privlevel (encode (toString r.privilegeLevel.toNat)), .ok ()⟩]
  else []

/-- A request, as it is written into its entry. -/
def writes (n : UInt64) (r : ReportRequest) : List Event :=
  levelWrites n r ++ [⟨.write n .inblob r.inBlob, .ok ()⟩]

theorem runs_writeLevel_ok_iff :
    Runs (writeLevel n r).run log (.ok ()) ↔ log = levelWrites n r := by
  unfold writeLevel levelWrites
  split
  · exact runs_write_ok_iff
  · exact runs_pure_ok_iff.trans (and_iff_left rfl)

theorem runs_readAux_ok {value : Option (List UInt8)}
    (h : Runs (readAux n r).run log (.ok value)) :
    ∀ e ∈ log, e.question = .read n .auxblob := by
  unfold readAux at h
  split at h
  · obtain ⟨reply, -, rfl⟩ := runs_readOptional_ok_iff.mp h
    intro e he
    cases List.mem_singleton.mp he
    rfl
  · obtain ⟨rfl, -⟩ := runs_pure_ok_iff.mp h
    exact fun e he => absurd he List.not_mem_nil

theorem runs_conclude_ok_iff {expected got : UInt64} {report rep : Report} :
    Runs (conclude expected got report).run log (.ok rep) ↔
      log = [] ∧ got = expected ∧ report = rep := by
  unfold conclude
  split
  · rename_i hne
    constructor
    · intro h
      obtain ⟨-, he⟩ := runs_done_iff.mp h
      cases he
    · exact fun h => absurd h.2.1 hne
  · rename_i heq
    rw [runs_pure_ok_iff, and_iff_right (Decidable.not_not.mp heq)]

/-- An exchange that ends with a report: the request is written, the generation looked at, the
rest read, and the generation is still the same. -/
theorem runs_withEntry_ok {rep : Report} (h : Runs (withEntry n r).run log (.ok rep)) :
    ∃ first last v reads,
      log = writes n r ++ ⟨.read n .generation, .ok first⟩ :: ⟨.read n .outblob, .ok rep.outBlob⟩ ::
        (reads ++ [⟨.read n .generation, .ok last⟩]) ∧
      (∀ e ∈ reads, ∃ a, e.question = .read n a) ∧
      generationOf first = .ok v ∧ generationOf last = .ok v := by
  rw [withEntry_eq] at h
  obtain ⟨⟨⟩, _, _, rfl, hlevel, h⟩ := runs_bind_ok_iff.mp h
  obtain ⟨⟨⟩, _, _, rfl, hin, h⟩ := runs_bind_ok_iff.mp h
  obtain ⟨expected, _, _, rfl, hexpected, h⟩ := runs_bind_ok_iff.mp h
  obtain ⟨outBlob, _, _, rfl, hout, h⟩ := runs_bind_ok_iff.mp h
  obtain ⟨auxBlob, aux, _, rfl, haux, h⟩ := runs_bind_ok_iff.mp h
  obtain ⟨manifestBlob, _, _, rfl, hmanifest, h⟩ := runs_bind_ok_iff.mp h
  obtain ⟨provider, _, _, rfl, hprovider, h⟩ := runs_bind_ok_iff.mp h
  obtain ⟨serviceProvider, _, _, rfl, hservice, h⟩ := runs_bind_ok_iff.mp h
  obtain ⟨got, _, _, rfl, hgot, h⟩ := runs_bind_ok_iff.mp h
  obtain ⟨rfl, rfl, rfl⟩ := runs_conclude_ok_iff.mp h
  obtain ⟨first, hfirst, rfl⟩ := runs_readGeneration_ok_iff.mp hexpected
  obtain ⟨last, hlast, rfl⟩ := runs_readGeneration_ok_iff.mp hgot
  obtain ⟨manifest, -, rfl⟩ := runs_readOptional_ok_iff.mp hmanifest
  obtain ⟨service, -, rfl⟩ := runs_readOptional_ok_iff.mp hservice
  obtain rfl := runs_read_ok_iff.mp hprovider
  refine ⟨first, last, got, aux ++ [⟨.read n .manifestblob, manifest⟩,
    ⟨.read n .provider, .ok provider⟩, ⟨.read n .serviceProvider, service⟩], ?_, ?_, hfirst, hlast⟩
  · rw [runs_writeLevel_ok_iff.mp hlevel, runs_write_ok_iff.mp hin, runs_read_ok_iff.mp hout,
      writes]
    simp
  · intro e he
    obtain he | he := List.mem_append.mp he
    · exact ⟨_, runs_readAux_ok haux e he⟩
    · simp only [List.mem_cons, List.not_mem_nil, or_false] at he
      obtain rfl | rfl | rfl := he <;> exact ⟨_, rfl⟩

theorem runs_report_ok {s : Site} {rep : Report} (h : Runs (report s r) log (.ok rep)) :
    ∃ n exchange, log = ⟨.look, true⟩ :: ⟨.take, n⟩ :: ⟨.create n, .ok ()⟩ ::
        (exchange ++ [⟨.remove n, ()⟩]) ∧
      Runs (withEntry n r).run exchange (.ok rep) := by
  obtain ⟨found, _, rfl, hfound⟩ := runs_ask_iff.mp h
  cases found with
  | false =>
    obtain ⟨-, he⟩ := runs_done_iff.mp hfound
    cases he
  | true =>
    obtain ⟨n, _, rfl, htaken⟩ := runs_ask_iff.mp hfound
    obtain ⟨created, _, rfl, hcreated⟩ := runs_ask_iff.mp htaken
    cases created with
    | error e =>
      obtain ⟨-, he⟩ := runs_done_iff.mp hcreated
      cases he
    | ok u =>
      obtain ⟨result, exchange, _, rfl, hexchange, hend⟩ := runs_bind_iff.mp hcreated
      obtain ⟨_, _, rfl, hremoved⟩ := runs_ask_iff.mp hend
      obtain ⟨rfl, rfl⟩ := runs_done_iff.mp hremoved
      exact ⟨n, exchange, rfl, hexchange⟩

end Attestation.Proofs.ReportExchanges
