import Attestation.Proofs.CborReading
import Attestation.Proofs.JsonRecords
import Attestation.Report
import Mathlib.Data.List.Nodup

namespace Attestation.Proofs.LenientReports

open Cbor CborGrammar CborHeads CborReading JsonRecords

def fieldNames : List String :=
  ["provider", "service_provider", "outblob", "auxblob", "manifestblob"]

def blobNames : List String := ["outblob", "auxblob", "manifestblob"]

def present (r : Report) : List String :=
  ["provider"] ++ (r.serviceProvider.map fun _ => "service_provider").toList ++
  ["outblob", "auxblob"] ++ (r.manifestBlob.map fun _ => "manifestblob").toList

inductive SaysBlob : Datum → List UInt8 → Prop
  | string (s : List UInt8) : SaysBlob (.bytes s) s
  | array (s : List UInt8) : SaysBlob (.array (s.map fun b => .positive b.toNat)) s

/-- What may stand under the name of a field of a report. -/
inductive SaysField (r : Report) : String → Datum → Prop
  | provider : SaysField r "provider" (.text r.provider)
  | serviceProvider {s : String} (hs : r.serviceProvider = some s) :
      SaysField r "service_provider" (.text s)
  | outBlob {d : Datum} (hd : SaysBlob d r.outBlob) : SaysField r "outblob" d
  | auxBlob {d : Datum} (hd : SaysBlob d r.auxBlob) : SaysField r "auxblob" d
  | manifestBlob {d : Datum} {b : List UInt8} (hb : r.manifestBlob = some b)
      (hd : SaysBlob d b) : SaysField r "manifestblob" d

/-- Members that tell a report: each field that it has once, and what else is not too large. -/
structure Tells (ms : List (String × Datum)) (r : Report) : Prop where
  once : ((ms.map (·.1)).filter (· ∈ fieldNames)).Perm (present r)
  fields : ∀ m ∈ ms, m.1 ∈ fieldNames → SaysField r m.1 m.2
  others : ∀ m ∈ ms, m.1 ∉ fieldNames →
    (Text.Utf8.encode m.1).length ≤ maxKeyLength ∧ m.2.nesting < maxDepth

/-- Data that are no blob: texts, and arrays with an element that is the number of no byte. -/
inductive NoBlob : Datum → Prop
  | text (s : String) : NoBlob (.text s)
  | array {ds : List Datum} {d : Datum} (hm : d ∈ ds) (hd : ∀ b : UInt8, d ≠ .positive b.toNat) :
      NoBlob (.array ds)

/-- Members that tell no report, whatever else is among them. -/
inductive Spoiled (ms : List (String × Datum)) : Prop
  | twice {name : String} (hn : name ∈ fieldNames) (h : 2 ≤ (ms.map (·.1)).count name)
  | blob {name : String} {d : Datum} (hn : name ∈ blobNames) (hm : (name, d) ∈ ms)
      (hd : NoBlob d)

section filling

def fill (name : String) (d : Datum) (r : Report) : Except Error Report :=
  if name = "provider" then (textOf d).map fun x => { r with provider := x }
  else if name = "service_provider" then
    (optionalOf textOf d).map fun x => { r with serviceProvider := x }
  else if name = "outblob" then (blobOf d).map fun x => { r with outBlob := x }
  else if name = "auxblob" then (blobOf d).map fun x => { r with auxBlob := x }
  else (optionalOf blobOf d).map fun x => { r with manifestBlob := x }

theorem fills_report (depth : Nat) : Fills Report.cborSlots (depth + 1) fill := by
  simp only [Fills, Report.cborSlots, List.forall_mem_cons, List.not_mem_nil, false_implies,
    implies_true, and_true]
  refine ⟨fun r => ?_, fun r => ?_, fun r => ?_, fun r => ?_, fun r => ?_⟩
  · exact gives_slot (gives_text _) r
  · exact gives_slot (gives_optional (gives_text _)) r
  · exact gives_slot (gives_blob _) r
  · exact gives_slot (gives_blob _) r
  · exact gives_slot (gives_optional (gives_blob _)) r

theorem unnamed_iff {name : String} :
    (∀ s ∈ Report.cborSlots, s.name ≠ name) ↔ name ∉ fieldNames := by
  simp [Report.cborSlots, fieldNames, Slot.of, eq_comm]

theorem octets_numbers (s : List UInt8) :
    (s.map fun b => Datum.positive b.toNat).mapM octetOf = .ok s := by
  induction s with
  | nil => rfl
  | cons b s ih =>
    have hb : octetOf (.positive b.toNat) = .ok b := by
      rw [octetOf, if_pos b.toNat_lt, UInt8.ofNat_toNat]
    rw [List.map_cons, List.mapM_cons, hb, ih]
    rfl

theorem octets_of_saysBlob {d : Datum} {b : List UInt8} (h : SaysBlob d b) : blobOf d = .ok b := by
  cases h with
  | string => rfl
  | array => exact octets_numbers b

theorem some_octets_of_saysBlob {d : Datum} {b : List UInt8} (h : SaysBlob d b) :
    optionalOf blobOf d = .ok (some b) := by
  have hblob := octets_of_saysBlob h
  cases h with
  | string => rfl
  | array =>
    simp only [optionalOf, hblob]
    rfl

theorem number_of_octet {d : Datum} {b : UInt8} (h : octetOf d = .ok b) :
    d = .positive b.toNat := by
  cases d with
  | positive n =>
    rw [octetOf] at h
    split at h
    · rename_i hn
      cases h
      rw [UInt8.toNat_ofNat_of_lt' hn]
    · cases h
  | _ => cases h

theorem mapM_ok {α β : Type} {f : α → Except Error β} {xs : List α} {ys : List β}
    (h : xs.mapM f = .ok ys) : ∀ x ∈ xs, ∃ y, f x = .ok y := by
  induction xs generalizing ys with
  | nil => nofun
  | cons x xs ih =>
    rw [List.mapM_cons] at h
    obtain ⟨y, hy, h⟩ := (bind_ok_iff _ _ _).mp h
    obtain ⟨ys, hys, -⟩ := (bind_ok_iff _ _ _).mp h
    exact List.forall_mem_cons.mpr ⟨⟨y, hy⟩, ih hys⟩

theorem blobOf_noBlob {d : Datum} (h : NoBlob d) (b : List UInt8) : blobOf d ≠ .ok b := by
  intro hb
  cases h with
  | text s => cases hb
  | array hm hd =>
    obtain ⟨x, hx⟩ := mapM_ok hb _ hm
    exact hd x (number_of_octet hx)

theorem optionalOf_noBlob {d : Datum} (h : NoBlob d) (o : Option (List UInt8)) :
    optionalOf blobOf d ≠ .ok o := by
  have hmap : optionalOf blobOf d = (blobOf d).map some := by cases h <;> rfl
  intro ho
  obtain ⟨b, hb, -⟩ := (map_ok_iff _ _ _).mp (hmap.symm.trans ho)
  exact blobOf_noBlob h b hb

theorem fill_noBlob {name : String} {d : Datum} (hn : name ∈ blobNames) (hd : NoBlob d)
    (r r' : Report) : fill name d r ≠ .ok r' := by
  simp only [blobNames, List.mem_cons, List.not_mem_nil, or_false] at hn
  intro h
  obtain rfl | rfl | rfl := hn
  · obtain ⟨b, hb, -⟩ := (map_ok_iff _ _ _).mp h
    exact blobOf_noBlob hd b hb
  · obtain ⟨b, hb, -⟩ := (map_ok_iff _ _ _).mp h
    exact blobOf_noBlob hd b hb
  · obtain ⟨o, ho, -⟩ := (map_ok_iff _ _ _).mp h
    exact optionalOf_noBlob hd o ho

def restrict (r : Report) (names : List String) : Report where
  provider := if "provider" ∈ names then r.provider else ""
  serviceProvider := if "service_provider" ∈ names then r.serviceProvider else none
  outBlob := if "outblob" ∈ names then r.outBlob else []
  auxBlob := if "auxblob" ∈ names then r.auxBlob else []
  manifestBlob := if "manifestblob" ∈ names then r.manifestBlob else none

theorem fill_field {r : Report} {name : String} {d : Datum} (h : SaysField r name d)
    (seen : List String) : fill name d (restrict r seen) = .ok (restrict r (name :: seen)) := by
  cases h with
  | provider => simp [fill, textOf, restrict, Except.map]
  | serviceProvider hs => simp [fill, optionalOf, textOf, restrict, Except.map, hs]
  | outBlob hd => simp [fill, octets_of_saysBlob hd, restrict, Except.map]
  | auxBlob hd => simp [fill, octets_of_saysBlob hd, restrict, Except.map]
  | manifestBlob hb hd => simp [fill, some_octets_of_saysBlob hd, restrict, Except.map, hb]

theorem restrict_present {r : Report} {names : List String} (h : ∀ n ∈ present r, n ∈ names) :
    restrict r names = r := by
  obtain ⟨provider, serviceProvider, outBlob, auxBlob, manifestBlob⟩ := r
  cases serviceProvider <;> cases manifestBlob <;> simp_all [present, restrict]

theorem mem_fieldNames {r : Report} {name : String} {d : Datum} (h : SaysField r name d) :
    name ∈ fieldNames := by
  cases h <;> decide

end filling

section members

variable {depth : Nat} {ms : List (String × Datum)}

def named (ms : List (String × Datum)) : List String := (ms.map (·.1)).filter (· ∈ fieldNames)

theorem put_field {r : Report} {m : String × Datum} (h : SaysField r m.1 m.2)
    {seen : List String} (hseen : m.1 ∉ seen) :
    put Report.cborSlots depth fill (seen, restrict r seen) m =
      .ok (m.1 :: seen, restrict r (m.1 :: seen)) := by
  have hshort : ∀ name ∈ fieldNames, ¬ maxKeyLength < (Text.Utf8.encode name).length := by decide
  have hm := mem_fieldNames h
  rw [put, if_neg (hshort _ hm), if_neg (mt unnamed_iff.mp (not_not.mpr hm)), if_neg hseen,
    fill_field h]
  rfl

theorem put_other {m : String × Datum} (hm : m.1 ∉ fieldNames)
    (hshort : (Text.Utf8.encode m.1).length ≤ maxKeyLength) (hshallow : m.2.nesting ≤ depth)
    (x : List String × Report) : put Report.cborSlots depth fill x m = .ok x := by
  rw [put, if_neg (Nat.not_lt.mpr hshort), if_pos (unnamed_iff.mpr hm), within_of_le hshallow]
  rfl

theorem foldlM_told {r : Report} {seen : List String} (hnodup : (named ms ++ seen).Nodup)
    (hfields : ∀ m ∈ ms, m.1 ∈ fieldNames → SaysField r m.1 m.2)
    (hothers : ∀ m ∈ ms, m.1 ∉ fieldNames →
      (Text.Utf8.encode m.1).length ≤ maxKeyLength ∧ m.2.nesting ≤ depth) :
    ∃ seen', ms.foldlM (put Report.cborSlots depth fill) (seen, restrict r seen) =
      .ok (seen', restrict r seen') ∧ ∀ n ∈ named ms ++ seen, n ∈ seen' := by
  induction ms generalizing seen with
  | nil => exact ⟨seen, rfl, fun n hn => hn⟩
  | cons m ms ih =>
    obtain ⟨hfield, hfields⟩ := List.forall_mem_cons.mp hfields
    obtain ⟨hother, hothers⟩ := List.forall_mem_cons.mp hothers
    by_cases hm : m.1 ∈ fieldNames
    · have hnamed : named (m :: ms) = m.1 :: named ms := by simp [named, hm]
      rw [hnamed, List.cons_append] at hnodup ⊢
      obtain ⟨hnew, hrest⟩ := List.nodup_cons.mp hnodup
      obtain ⟨seen', hread, hseen'⟩ := @ih (m.1 :: seen)
        (List.nodup_middle.mpr (List.nodup_cons.mpr ⟨hnew, hrest⟩)) hfields hothers
      refine ⟨seen', ?_, fun n hn => hseen' n (List.perm_middle.symm.subset hn)⟩
      rw [List.foldlM_cons, put_field (hfield hm) fun h => hnew (List.mem_append_right _ h)]
      exact hread
    · have hnamed : named (m :: ms) = named ms := by simp [named, hm]
      rw [hnamed] at hnodup ⊢
      obtain ⟨hshort, hshallow⟩ := hother hm
      obtain ⟨seen', hread, hseen'⟩ := ih hnodup hfields hothers
      refine ⟨seen', ?_, hseen'⟩
      rw [List.foldlM_cons, put_other hm hshort hshallow]
      exact hread

theorem foldlM_ok {x y : List String × Report}
    (h : ms.foldlM (put Report.cborSlots depth fill) x = .ok y) :
    (∀ n ∈ named ms, n ∉ x.1) ∧ (named ms).Nodup ∧
      ∀ m ∈ ms, m.1 ∈ fieldNames → ∃ r r', fill m.1 m.2 r = .ok r' := by
  induction ms generalizing x with
  | nil => exact ⟨nofun, List.nodup_nil, nofun⟩
  | cons m ms ih =>
    rw [List.foldlM_cons] at h
    obtain ⟨x', hm, h⟩ := (bind_ok_iff _ _ _).mp h
    obtain ⟨hnew, hnodup, hfills⟩ := ih h
    rw [put] at hm
    split at hm
    · cases hm
    split at hm
    · rename_i hunnamed
      have hname := unnamed_iff.mp hunnamed
      have hnamed : named (m :: ms) = named ms := by simp [named, hname]
      obtain ⟨_, _, rfl⟩ := (map_ok_iff _ _ _).mp hm
      rw [hnamed]
      exact ⟨hnew, hnodup, List.forall_mem_cons.mpr ⟨fun h => absurd h hname, hfills⟩⟩
    · rename_i hunnamed
      have hname := not_not.mp (mt unnamed_iff.mpr hunnamed)
      have hnamed : named (m :: ms) = m.1 :: named ms := by simp [named, hname]
      split at hm
      · cases hm
      · rename_i hseen
        obtain ⟨r', hr', rfl⟩ := (map_ok_iff _ _ _).mp hm
        rw [hnamed]
        refine ⟨?_, ?_, List.forall_mem_cons.mpr ⟨fun _ => ⟨x.2, r', hr'⟩, hfills⟩⟩
        · exact List.forall_mem_cons.mpr
            ⟨hseen, fun n hn hx => hnew n hn (List.mem_cons_of_mem _ hx)⟩
        · exact List.nodup_cons.mpr ⟨fun hm => hnew _ hm List.mem_cons_self, hnodup⟩

end members

theorem ofCbor_record {ms : List (String × Datum)} {bs : List UInt8} (hb : SpellsRecord ms bs)
    (rest : List UInt8) : run (record Report.empty Report.cborSlots) (bs ++ rest) =
      (ms.foldlM (put Report.cborSlots 255 fill) ([], Report.empty)).map (·.2) := by
  rw [run, maxDepth, record_fields (fills_report 254) hb rest]
  cases ms.foldlM (put Report.cborSlots 255 fill) ([], Report.empty) <;> rfl

theorem present_nodup (r : Report) : (present r).Nodup := by
  unfold present
  cases r.serviceProvider <;> cases r.manifestBlob <;> simp

theorem foldlM_tells {ms : List (String × Datum)} {r : Report} (h : Tells ms r) :
    ∃ seen, ms.foldlM (put Report.cborSlots 255 fill) ([], Report.empty) = .ok (seen, r) := by
  have hnodup : (named ms ++ []).Nodup := by
    rw [List.append_nil]
    exact h.once.nodup_iff.mpr (present_nodup r)
  obtain ⟨seen, hread, hseen⟩ := @foldlM_told 255 _ _ _ hnodup h.fields fun m hm hn =>
    ⟨(h.others m hm hn).1, Nat.le_of_lt_succ (h.others m hm hn).2⟩
  have hpresent : restrict r seen = r := restrict_present fun n hn =>
    hseen n (List.mem_append_left _ (h.once.symm.subset hn))
  rw [hpresent] at hread
  exact ⟨seen, hread⟩

theorem foldlM_spoiled {ms : List (String × Datum)} (h : Spoiled ms) (y : List String × Report) :
    ms.foldlM (put Report.cborSlots 255 fill) ([], Report.empty) ≠ .ok y := by
  intro hy
  obtain ⟨-, hnodup, hfills⟩ := foldlM_ok hy
  cases h with
  | @twice name hn h =>
    have hcount := List.nodup_iff_count_le_one.mp hnodup name
    rw [named, List.count_filter (by simpa using hn)] at hcount
    omega
  | @blob name d hn hm hd =>
    have hname : name ∈ fieldNames := by
      have hsub : ∀ n ∈ blobNames, n ∈ fieldNames := by decide
      exact hsub name hn
    obtain ⟨r, r', hr⟩ := hfills _ hm hname
    exact fill_noBlob hn hd r r' hr

/-- A valid report is read from any map that tells it, whatever follows the map. From a map that
repeats the name of a field, or has something else in the place of a blob, nothing is decoded. -/
theorem lenient_reading {ms : List (String × Datum)} {bs : List UInt8} (hb : SpellsRecord ms bs)
    (rest : List UInt8) :
    (∀ r : Report, r.valid = .ok () → Tells ms r → Report.ofCbor (bs ++ rest) = .ok r) ∧
    (Spoiled ms → ∃ e, Report.ofCbor (bs ++ rest) = .error (.cborDecode e)) := by
  refine ⟨fun r hv ht => ?_, fun hs => ?_⟩
  · obtain ⟨seen, hread⟩ := foldlM_tells ht
    rw [Report.ofCbor, ofCbor_record hb, hread]
    simp only [Except.map, hv]
  · rw [Report.ofCbor, ofCbor_record hb]
    cases hread : ms.foldlM (put Report.cborSlots 255 fill) ([], Report.empty) with
    | error e => exact ⟨e, rfl⟩
    | ok y => exact absurd hread (foldlM_spoiled hs y)

/-- A map of open length with its fields in another order, strings in parts, an array for a blob and
a member that is not known; and a map with a text for a blob. -/
theorem lenient_reading_reordered :
    let name (s : String) : List UInt8 :=
      [UInt8.ofNat (32 * 3 + (Text.Utf8.encode s).length)] ++ Text.Utf8.encode s
    let auxBlob := name "auxblob" ++ (0x9F :: (([0x18, 3] ++ []) ++ [0xFF]))
    let unknown := name "x" ++ ([0x81] ++ (([0xA1] ++ (([0xF6] ++ [0x25]) ++ [])) ++ []))
    let outBlob := name "outblob" ++
      (0x5F :: ((([0x41] ++ [1]) ++ (([0x58, 1] ++ [2]) ++ [])) ++ [0xFF]))
    let provider := name "provider" ++ (0x7F :: ((name "s" ++ (name "ev" ++ [])) ++ [0xFF]))
    let told := 0xBF :: ((auxBlob ++ (unknown ++ (outBlob ++ (provider ++ [])))) ++ [0xFF])
    let spoiled := [0xA1] ++ ((name "outblob" ++ name "a") ++ [])
    Report.ofCbor (told ++ [0x00]) = .ok ⟨"sev", none, [1, 2], [3], none⟩ ∧
      ∃ e, Report.ofCbor (spoiled ++ []) = .error (.cborDecode e) := by
  intro name auxBlob unknown outBlob provider told spoiled
  have hname : ∀ s, (Text.Utf8.encode s).length < 24 →
      SpellsPart 3 (Text.Utf8.encode s) (name s) := fun s hs => .of (.short hs)
  have hauxBlob : SpellsField ("auxblob", .array [.positive 3]) auxBlob :=
    .of (hname _ (by decide))
      (.openArray (.cons (.positive (@SpellsHead.long 0 3 0 [3] (by decide) rfl rfl)) .nil))
  have hunknown : SpellsField ("x", .array [.map [(.null, .negative 5)]]) unknown :=
    .of (hname _ (by decide)) (.array (.short (by decide))
      (.cons (.map (.short (by decide))
        (.cons (.of .null (.negative (.short (by decide)))) .nil)) .nil))
  have houtBlob : SpellsField ("outblob", .bytes [1, 2]) outBlob :=
    .of (hname _ (by decide)) (.bytes (@SpellsString.parts 2 _ [[1], [2]] _ (fun _ _ => trivial)
      (.cons (.of (.short (by decide)))
        (.cons (.of (@SpellsHead.long 2 1 0 [1] (by decide) rfl rfl)) .nil))))
  have hparts : ∀ p ∈ ["s", "ev"].map Text.Utf8.encode, ∃ t, p = Text.Utf8.encode t := by
    simp only [List.forall_mem_map]
    exact fun t _ => ⟨t, rfl⟩
  have hprovider : SpellsField ("provider", .text "sev") provider :=
    .of (hname _ (by decide))
      (.text (@SpellsString.parts 3 _ (["s", "ev"].map Text.Utf8.encode) _ hparts
        (.cons (hname _ (by decide)) (.cons (hname _ (by decide)) .nil))))
  have htold : SpellsRecord [("auxblob", .array [.positive 3]),
      ("x", .array [.map [(.null, .negative 5)]]), ("outblob", .bytes [1, 2]),
      ("provider", .text "sev")] told :=
    .ended (.cons hauxBlob (.cons hunknown (.cons houtBlob (.cons hprovider .nil))))
  have hspoiled : SpellsRecord [("outblob", .text "a")] spoiled :=
    .counted (.short (by decide)) (.cons (.of (hname _ (by decide))
      (.text (.whole ⟨"a", rfl⟩ (hname "a" (by decide))))) .nil)
  refine ⟨(lenient_reading htold [0x00]).1 _ rfl ⟨?_, ?_, ?_⟩, (lenient_reading hspoiled []).2
    (.blob List.mem_cons_self List.mem_cons_self (.text "a"))⟩
  · decide
  · simp only [List.forall_mem_cons]
    exact ⟨fun _ => .auxBlob (.array [3]), fun h => absurd h (by decide),
      fun _ => .outBlob (.string [1, 2]), fun _ => .provider, nofun⟩
  · simp only [List.forall_mem_cons]
    exact ⟨fun h => absurd (by decide) h, fun _ => ⟨by decide, by decide⟩,
      fun h => absurd (by decide) h, fun h => absurd (by decide) h, nofun⟩

end Attestation.Proofs.LenientReports
