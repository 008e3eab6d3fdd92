import Attestation.Plugin.Client
import Attestation.Proofs.Trimming

namespace Attestation.Proofs.Handshakes

open Plugin Plugin.Handshake Numerals Trimming
open Text (isBlank trim natBelow? unsigned)

/-- Digits of a number of 32 bits, possibly behind a plus sign. -/
inductive Version : List Char → UInt32 → Prop
  | digits {sign ds : List Char} {n : UInt32} (hs : sign = [] ∨ sign = ['+']) (hne : ds ≠ [])
      (hd : ∀ c ∈ ds, c.isDigit = true) (hn : Nat.ofDigitChars 10 ds 0 = n.toNat) :
      Version (sign ++ ds) n

def barred (core app type codec : List Char) : List Char :=
  core ++ '|' :: (app ++ '|' :: (type ++ '|' :: codec))

/-- The lines that say a handshake: two versions, the kind of plugin and the codec. -/
inductive Introduces : List Char → Handshake → Prop
  | fields {cs core app type codec : List Char} {m n : UInt32}
      (ht : Trimmed cs (barred core app type codec)) (hcore : Version core m)
      (happ : Version app n) (htype : '|' ∉ type) (hcodec : '|' ∉ codec) :
      Introduces cs ⟨m, n, String.ofList type, String.ofList codec⟩

/-- A handshake that a line can say. -/
structure Plain (h : Handshake) : Prop where
  pluginType : '|' ∉ h.pluginType.toList
  codec : '|' ∉ h.codec.toList
  ending : ∀ c ∈ h.codec.toList.getLast?, isBlank c = false

section versions

theorem version?_eq_some_iff {field : List Char} {n : UInt32} :
    version? field = some n ↔ Version field n := by
  have hsize := n.toNat_lt_size
  rw [version?, Option.map_eq_some_iff]
  constructor
  · rintro ⟨m, hm, rfl⟩
    obtain ⟨hne, hd, hvalue, hlt⟩ := natBelow?_eq_some_iff.mp hm
    rw [String.toList_ofList] at hne hd hvalue
    obtain ⟨sign, hs, hfield⟩ := exists_sign field
    rw [hfield]
    apply Version.digits hs hne hd
    rw [hvalue, UInt32.toNat_ofNat_of_lt' hlt]
  · rintro ⟨hs, hne, hd, hn⟩
    rename_i sign ds
    have hunsigned : unsigned (sign ++ ds) = ds := by
      obtain rfl | rfl := hs
      · exact unsigned_of_digits hd
      · rfl
    refine ⟨n.toNat, ?_, UInt32.ofNat_toNat⟩
    apply natBelow?_eq_some_iff.mpr
    rw [String.toList_ofList, hunsigned]
    exact ⟨hne, hd, hn, hsize⟩

theorem version_toDigits (n : UInt32) : Version (Nat.toDigits 10 n.toNat) n := by
  have hdigit : ∀ c ∈ Nat.toDigits 10 n.toNat, c.isDigit = true := by
    intro c hc
    exact Nat.isDigit_of_mem_toDigits (by decide) (by decide) hc
  have hversion :=
    Version.digits (.inl rfl) Nat.toDigits_ne_nil hdigit Nat.ofDigitChars_ten_toDigits
  rwa [List.nil_append] at hversion

theorem version_chars {cs : List Char} {n : UInt32} (h : Version cs n) :
    ∀ c ∈ cs, c = '+' ∨ c.isDigit = true := by
  obtain ⟨hs, -, hd, -⟩ := h
  intro c hc
  obtain hc | hc := List.mem_append.mp hc
  · obtain rfl | rfl := hs
    · cases hc
    · exact .inl (List.mem_singleton.mp hc)
  · exact .inr (hd c hc)

theorem version_ne_nil {cs : List Char} {n : UInt32} (h : Version cs n) : cs ≠ [] := by
  obtain ⟨-, hne, -, -⟩ := h
  exact List.append_ne_nil_of_right_ne_nil _ hne

theorem version_unbarred {cs : List Char} {n : UInt32} (h : Version cs n) : '|' ∉ cs := by
  intro hc
  obtain hbar | hbar := version_chars h _ hc
  · exact absurd hbar (by decide)
  · exact absurd hbar (by decide)

theorem version_first {cs rest : List Char} {n : UInt32} (h : Version cs n) :
    ∀ c ∈ (cs ++ rest).head?, isBlank c = false := by
  obtain ⟨b, cs', rfl⟩ := List.exists_cons_of_ne_nil (version_ne_nil h)
  intro c hc
  cases hc
  obtain rfl | hdigit := version_chars h _ List.mem_cons_self
  · decide
  · exact isBlank_of_isDigit hdigit

end versions

section fields

theorem not_mem_of_mem_splitOn {cs field : List Char} (h : field ∈ cs.splitOn '|') :
    '|' ∉ field := by
  induction cs generalizing field with
  | nil =>
    rw [List.splitOn_nil, List.mem_singleton] at h
    rw [h]
    exact List.not_mem_nil
  | cons c cs ih =>
    rw [List.splitOn_eq_splitOnP, List.splitOnP_cons_eq_if_modifyHead,
      ← List.splitOn_eq_splitOnP] at h
    by_cases hc : c = '|'
    · rw [if_pos (by simpa using hc)] at h
      obtain rfl | h := List.mem_cons.mp h
      · exact List.not_mem_nil
      · exact ih h
    · rw [if_neg (by simpa using hc)] at h
      cases hsplit : cs.splitOn '|' with
      | nil =>
        rw [hsplit] at h
        cases h
      | cons first rest =>
        rw [hsplit] at h ih
        obtain rfl | h := List.mem_cons.mp h
        · intro hbar
          obtain hbar | hbar := List.mem_cons.mp hbar
          · exact hc hbar.symm
          · exact ih List.mem_cons_self hbar
        · exact ih (List.mem_cons_of_mem _ h)

theorem fields_eq_iff {cs core app type codec : List Char} :
    fields cs = [core, app, type, codec] ↔ cs = barred core app type codec ∧
      '|' ∉ core ∧ '|' ∉ app ∧ '|' ∉ type ∧ '|' ∉ codec := by
  have hjoin : ['|'].intercalate [core, app, type, codec] = barred core app type codec := by
    simp [List.intercalate, List.intersperse, barred]
  constructor
  · intro h
    have hbars : ∀ field ∈ [core, app, type, codec], '|' ∉ field := by
      rw [← h]
      intro field hfield
      exact not_mem_of_mem_splitOn hfield
    have hcs : ['|'].intercalate (fields cs) = cs := List.intercalate_splitOn '|'
    rw [h, hjoin] at hcs
    refine ⟨hcs.symm, ?_⟩
    simpa using hbars
  · rintro ⟨rfl, hcore, happ, htype, hcodec⟩
    rw [← hjoin]
    apply List.splitOn_intercalate
    · simpa using ⟨hcore, happ, htype, hcodec⟩
    · exact List.cons_ne_nil _ _

theorem parse?_eq_some_iff {line : String} {h : Handshake} :
    parse? line = some h ↔ Introduces line.toList h := by
  constructor
  · intro hparse
    rw [parse?] at hparse
    split at hparse
    · rename_i core app type codec hfields
      simp only [Option.bind_eq_bind, Option.bind_eq_some_iff, Option.pure_def,
        Option.some.injEq] at hparse
      obtain ⟨m, hm, n, hn, rfl⟩ := hparse
      obtain ⟨hbody, -, -, htype, hcodec⟩ := fields_eq_iff.mp hfields
      have htrim := trimmed_trim line
      rw [hbody] at htrim
      exact .fields htrim (version?_eq_some_iff.mp hm) (version?_eq_some_iff.mp hn) htype hcodec
    · cases hparse
  · intro hsays
    generalize hcs : line.toList = cs at hsays
    obtain ⟨ht, hcore, happ, htype, hcodec⟩ := hsays
    rename_i core app type codec m n
    subst hcs
    have hfields : fields (trim line).toList = [core, app, type, codec] := by
      apply fields_eq_iff.mpr
      exact ⟨trimmed_iff.mp ht, version_unbarred hcore, version_unbarred happ, htype, hcodec⟩
    rw [parse?, hfields]
    simp [version?_eq_some_iff.mpr hcore, version?_eq_some_iff.mpr happ]

end fields

section lines

theorem line_chars (h : Handshake) : h.line.toList = barred (Nat.toDigits 10 h.coreVersion.toNat)
    (Nat.toDigits 10 h.appVersion.toNat) h.pluginType.toList h.codec.toList := by
  simp [line, barred, toString]

theorem getLast?_barred (core app type codec : List Char) :
    (barred core app type codec).getLast? = some (codec.getLast?.getD '|') := by
  simp [barred, List.getLast?_append, List.getLast?_cons]

theorem introduces_line {h : Handshake} (hp : Plain h) : Introduces h.line.toList h := by
  have hcore := version_toDigits h.coreVersion
  have happ := version_toDigits h.appVersion
  have htrimmed : Trimmed h.line.toList (barred (Nat.toDigits 10 h.coreVersion.toNat)
      (Nat.toDigits 10 h.appVersion.toNat) h.pluginType.toList h.codec.toList) := by
    rw [line_chars]
    apply trimmed_self
    · exact version_first hcore
    · intro c hc
      rw [getLast?_barred, Option.mem_some_iff] at hc
      cases hlast : h.codec.toList.getLast? with
      | none =>
        rw [hlast] at hc
        subst hc
        decide
      | some d =>
        rw [hlast] at hc
        subst hc
        exact hp.ending d hlast
  have hsays := Introduces.fields htrimmed hcore happ hp.pluginType hp.codec
  rwa [String.ofList_toList, String.ofList_toList] at hsays

theorem plain_of_introduces {cs : List Char} {h : Handshake} (hs : Introduces cs h) : Plain h := by
  obtain ⟨ht, -, -, htype, hcodec⟩ := hs
  refine ⟨?_, ?_, ?_⟩
  · rwa [String.toList_ofList]
  · rwa [String.toList_ofList]
  · intro c hc
    rw [String.toList_ofList] at hc
    apply ht.last
    rw [getLast?_barred, Option.mem_def.mp hc]
    exact rfl

theorem parse?_line_iff (h : Handshake) : parse? h.line = some h ↔ Plain h := by
  constructor
  · intro hparse
    exact plain_of_introduces (parse?_eq_some_iff.mp hparse)
  · intro hp
    exact parse?_eq_some_iff.mpr (introduces_line hp)

end lines

section verdicts

/-- Another kind of plugin than the daemon starts, or one with another codec. -/
def Foreign (h : Handshake) : Prop :=
  h.pluginType ≠ current.pluginType ∨ h.codec ≠ current.codec

/-- The kind and the codec of the daemon, with another version. -/
structure OtherVersion (h : Handshake) : Prop where
  familiar : ¬ Foreign h
  version : h.coreVersion ≠ current.coreVersion ∨ h.appVersion ≠ current.appVersion

theorem sameKind_iff (h : Handshake) : h.sameKind current = true ↔ ¬ Foreign h := by
  simp [sameKind, Foreign]

theorem sameVersion_iff (h : Handshake) : h.sameVersion current = true ↔
    ¬ (h.coreVersion ≠ current.coreVersion ∨ h.appVersion ≠ current.appVersion) := by
  simp [sameVersion]

theorem not_foreign_current : ¬ Foreign current := by
  rintro (hkind | hcodec)
  · exact hkind rfl
  · exact hcodec rfl

theorem not_otherVersion_current : ¬ OtherVersion current := by
  rintro ⟨-, hcore | happ⟩
  · exact hcore rfl
  · exact happ rfl

theorem eq_current {h : Handshake} (hkind : ¬ Foreign h) (hversion : ¬ OtherVersion h) :
    h = current := by
  have hsame : ¬ (h.coreVersion ≠ current.coreVersion ∨ h.appVersion ≠ current.appVersion) :=
    fun hother => hversion ⟨hkind, hother⟩
  unfold Foreign at hkind
  simp only [ne_eq, not_or, Decidable.not_not] at hkind hsame
  obtain ⟨core, app, type, codec⟩ := h
  obtain ⟨rfl, rfl⟩ := hkind
  obtain ⟨rfl, rfl⟩ := hsame
  rfl

/-- What the daemon makes of the handshake that a line says, if it says one. -/
inductive Verdict (path : String) : Option Handshake → Except Error Unit → Prop
  | accepted : Verdict path (some current) (.ok ())
  | incompatible {h : Handshake} (ho : OtherVersion h) :
      Verdict path (some h) (.error (.incompatibleVersion path current h))
  | foreign {h : Handshake} (hf : Foreign h) :
      Verdict path (some h) (.error (.unknownPlugin s!"{path} serves {h.pluginType}/{h.codec}"))
  | unsaid : Verdict path none (.error (.unknownPlugin s!"{path} is not a ratsd plugin"))

theorem verdict_verify (path line : String) : Verdict path (parse? line) (verify path line) := by
  rw [verify]
  cases parse? line with
  | none => exact .unsaid
  | some h =>
    -- The kind is looked at first, whatever the versions are.
    by_cases hkind : h.sameKind current = true
    · have hfamiliar := (sameKind_iff h).mp hkind
      by_cases hversion : h.sameVersion current = true
      · have hcurrent : h = current := by
          apply eq_current hfamiliar
          intro hother
          exact (sameVersion_iff h).mp hversion hother.version
        subst hcurrent
        exact .accepted
      · have hother : OtherVersion h := by
          refine ⟨hfamiliar, ?_⟩
          rwa [sameVersion_iff, Decidable.not_not] at hversion
        simp only [hkind, hversion]
        exact .incompatible hother
    · have hforeign : Foreign h := by
        rwa [sameKind_iff, Classical.not_not] at hkind
      simp only [hkind]
      exact .foreign hforeign

variable {path line : String} {read : Option Handshake} {result : Except Error Unit}

theorem verdict_ok_iff (hv : Verdict path read result) : result = .ok () ↔ read = some current := by
  cases hv with
  | accepted => simp
  | incompatible ho =>
    refine iff_of_false (by simp) ?_
    rintro ⟨⟩
    exact not_otherVersion_current ho
  | foreign hf =>
    refine iff_of_false (by simp) ?_
    rintro ⟨⟩
    exact not_foreign_current hf
  | unsaid => simp

theorem verdict_incompatible_iff (hv : Verdict path read result) (place : String)
    (expected h : Handshake) : result = .error (.incompatibleVersion place expected h) ↔
      place = path ∧ expected = current ∧ read = some h ∧ OtherVersion h := by
  cases hv with
  | accepted =>
    refine iff_of_false (by simp) ?_
    rintro ⟨-, -, ⟨⟩, ho⟩
    exact not_otherVersion_current ho
  | incompatible ho =>
    constructor
    · rintro ⟨⟩
      exact ⟨rfl, rfl, rfl, ho⟩
    · rintro ⟨rfl, rfl, ⟨⟩, -⟩
      rfl
  | foreign hf =>
    refine iff_of_false (by simp) ?_
    rintro ⟨-, -, ⟨⟩, ho⟩
    exact ho.familiar hf
  | unsaid => simp

theorem verdict_unknown_iff (hv : Verdict path read result) :
    (∃ text, result = .error (.unknownPlugin text)) ↔ ∀ h, read = some h → Foreign h := by
  cases hv with
  | accepted =>
    refine iff_of_false (by simp) ?_
    intro hall
    exact not_foreign_current (hall current rfl)
  | incompatible ho =>
    refine iff_of_false (by simp) ?_
    intro hall
    exact ho.familiar (hall _ rfl)
  | foreign hf =>
    refine iff_of_true ⟨_, rfl⟩ ?_
    rintro _ ⟨⟩
    exact hf
  | unsaid =>
    refine iff_of_true ⟨_, rfl⟩ ?_
    rintro _ ⟨⟩

end verdicts

/-- A handshake is read back from its line iff a line can say it. A line is read as the handshake
that it says, which can be said again; it is accepted iff that is the daemon's own, incompatible iff
only a version differs, and unknown otherwise. -/
theorem lines_introduce :
    (∀ h : Handshake, Plain h → parse? h.line = some h) ∧
    (∀ line h, parse? line = some h → Plain h ∧ parse? h.line = some h) ∧
    (∀ line h, parse? line = some h ↔ Introduces line.toList h) ∧
    ∀ path line,
      (verify path line = .ok () ↔ parse? line = some current) ∧
      (∀ place expected h, verify path line = .error (.incompatibleVersion place expected h) ↔
        place = path ∧ expected = current ∧ parse? line = some h ∧ OtherVersion h) ∧
      ((∃ text, verify path line = .error (.unknownPlugin text)) ↔
        ∀ h, parse? line = some h → Foreign h) := by
  refine ⟨?_, ?_, ?_, ?_⟩
  · intro h hp
    exact (parse?_line_iff h).mpr hp
  · intro line h hparse
    have hp : Plain h := plain_of_introduces (parse?_eq_some_iff.mp hparse)
    exact ⟨hp, (parse?_line_iff h).mpr hp⟩
  · intro line h
    exact parse?_eq_some_iff
  · intro path line
    have hv := verdict_verify path line
    exact ⟨verdict_ok_iff hv, verdict_incompatible_iff hv, verdict_unknown_iff hv⟩

/-- A line with a plus sign, zeros in front and an empty field. -/
theorem lines_introduce_padded :
    (parse? " +007|0| kind|\n" = some ⟨7, 0, " kind", ""⟩ ∧
      parse? (Handshake.mk 7 0 " kind" "").line = some ⟨7, 0, " kind", ""⟩) ∧
    (Foreign ⟨7, 0, " kind", ""⟩ ∧
      ∃ text, verify "p" " +007|0| kind|\n" = .error (.unknownPlugin text)) := by
  have hparse : parse? " +007|0| kind|\n" = some ⟨7, 0, " kind", ""⟩ := by decide
  have hforeign : Foreign ⟨7, 0, " kind", ""⟩ := .inl (by decide)
  obtain ⟨-, hread, -, hverify⟩ := lines_introduce
  refine ⟨⟨hparse, (hread _ _ hparse).2⟩, hforeign, ?_⟩
  apply (hverify "p" _).2.2.mpr
  intro h hh
  cases hparse.symm.trans hh
  exact hforeign

end Attestation.Proofs.Handshakes
