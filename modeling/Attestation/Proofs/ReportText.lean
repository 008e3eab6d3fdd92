import Attestation.Proofs.JsonReading
import Attestation.Report

namespace Attestation.Proofs.ReportText

open Json JsonReading JsonText JsonValues Utf8Encoding Base64Encoding

theorem reads_base64 (bytes : List UInt8) : Reads Blob.ofJson 0 (Blob.toJson bytes) bytes := by
  intro p _
  rw [Blob.toJson, Value.toTree, Blob.ofJson]
  simp only [Blob.ofText, decode_encode standard_sound]

theorem fills_blobs (seen : List String)
    (hseen : "outblob" ∉ seen ∧ "auxblob" ∉ seen ∧ "manifestblob" ∉ seen) (provider : String)
    (serviceProvider : Option String) (outBlob auxBlob : List UInt8)
    (manifestBlob : Option (List UInt8)) :
    ∃ seen', Fills Report.record 0 seen ⟨provider, serviceProvider, [], [], none⟩
      ([("outblob", Blob.toJson outBlob), ("auxblob", Blob.toJson auxBlob)] ++
        (manifestBlob.map fun b => ("manifestblob", Blob.toJson b)).toList) seen'
      ⟨provider, serviceProvider, outBlob, auxBlob, manifestBlob⟩ := by
  obtain ⟨hout, haux, hmanifest⟩ := hseen
  have haux' : "auxblob" ∉ "outblob" :: seen := List.not_mem_cons_of_ne_of_not_mem (by decide) haux
  cases manifestBlob with
  | none =>
    exact ⟨_, .cons rfl hout (reads_base64 outBlob)
      (.cons rfl haux' (reads_base64 auxBlob) (.nil _ _))⟩
  | some b =>
    have hmanifest' : "manifestblob" ∉ "auxblob" :: "outblob" :: seen :=
      List.not_mem_cons_of_ne_of_not_mem (by decide)
        (List.not_mem_cons_of_ne_of_not_mem (by decide) hmanifest)
    have hb : Reads (.optional Blob.ofJson) 0 (Blob.toJson b) (some b) :=
      reads_some (reads_base64 b) nofun
    exact ⟨_, .cons rfl hout (reads_base64 outBlob)
      (.cons rfl haux' (reads_base64 auxBlob) (.cons rfl hmanifest' hb (.nil _ _)))⟩

theorem reads_report (r : Report) : Reads Report.record.decode 1 r.toValue r := by
  obtain ⟨provider, serviceProvider, outBlob, auxBlob, manifestBlob⟩ := r
  cases serviceProvider with
  | none =>
    obtain ⟨_, hblobs⟩ := fills_blobs ["provider"] (by decide) provider none outBlob auxBlob
      manifestBlob
    exact reads_record (.cons rfl (by decide) (reads_string provider) hblobs) rfl
  | some s =>
    have hs : Reads (.optional Decoder.string) 0 (.string s) (some s) :=
      reads_some (reads_string s) nofun
    obtain ⟨_, hblobs⟩ := fills_blobs ["service_provider", "provider"] (by decide) provider
      (some s) outBlob auxBlob manifestBlob
    exact reads_record
      (.cons rfl (by decide) (reads_string provider) (.cons rfl (by decide) hs hblobs)) rfl

theorem shallow_report (r : Report) : Shallow 1 r.toValue := by
  refine shallow_object ?_
  have hblob : ∀ bytes, Shallow 0 (Blob.toJson bytes) := fun _ => shallow_string 0 _
  cases r.serviceProvider <;> cases r.manifestBlob <;> simp [shallow_string, hblob]

theorem ofJson_toJson {r : Report} {cs : List Char} (h : r.toJson = .ok cs) :
    Report.ofJson (bytesOf cs) = .ok r := by
  cases hv : r.valid with
  | error e => simp [Report.toJson, hv, bind, Except.bind] at h
  | ok u =>
    simp only [Report.toJson, hv, bind, Except.bind, pure, Except.pure, Except.ok.injEq] at h
    subst h
    have hrun := run_text (reads_report r) (by decide) (shallow_report r).exact
    simp only [Report.ofJson, hrun, hv]
    rfl

end Attestation.Proofs.ReportText
