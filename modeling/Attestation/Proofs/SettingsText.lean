import Attestation.Proofs.RecordParts
import Attestation.Proofs.ServiceText

namespace Attestation.Proofs.SettingsText

open Compositor Json FirstFailure JsonDocuments JsonGrammar JsonMeaning JsonReading JsonText
  JsonValues RecordFields RecordMembers RecordParts ServiceText Utf8Encoding
open Settings (usersOf)
open SelectionOrder (Ascending)

variable {α : Type}

section records

structure Writes (n : Nat) (a : α) (f : RecordField α) (m : String × Value) : Prop where
  name : m.1 = f.name
  reads : Reads f.decode n m.2 (f.get a)

/-- An object whose members, in any order and with others among them, are those of a value as far as
they have not been removed. -/
structure Remnant (members : List (String × Value)) (removed : List String)
    (ms : List (List Piece × Phrase)) : Prop where
  named : Named ms
  rest : ((known (members.map (·.1)) ms).map fun m => (m.1, m.2.tree)).Perm
    ((members.filter (·.1 ∉ removed)).map fun m => (m.1, m.2.toTree))

variable {r : Record α} {fs : List (RecordField α)} {n : Nat} {a a' : α}
  {members : List (String × Value)} {removed : List String} {ms : List (List Piece × Phrase)}
  {p : Place}

theorem names_of_writes (hw : List.Forall₂ (Writes n a) fs members) :
    members.map (·.1) = names fs := by
  induction hw with
  | nil => rfl
  | cons h _ ih => rw [List.map_cons, h.name, ih]; rfl

theorem exists_member {f : RecordField α} (hw : List.Forall₂ (Writes n a) fs members)
    (hfm : f ∈ fs) : ∃ v, (f.name, v) ∈ members ∧ Reads f.decode n v (f.get a) := by
  induction hw with
  | nil => cases hfm
  | @cons g m fs members h _ ih =>
    obtain rfl | hfm := List.mem_cons.mp hfm
    · exact ⟨m.2, h.name ▸ List.mem_cons_self, h.reads⟩
    · obtain ⟨v, hv, hread⟩ := ih hfm
      exact ⟨v, List.mem_cons_of_mem _ hv, hread⟩

theorem reads_fields (hf : Lawful fs) (hr : r.slots = fs.map (·.slot))
    (hw : List.Forall₂ (Writes n a) fs members) : Reads r.decode (n + 1) (.object members) a := by
  have hnodup : (members.map (·.1)).Nodup := names_of_writes hw ▸ hf.nodup
  intro p hp
  refine (decode_value_object_iff hf hr hnodup).mpr ⟨roomy_of_le hp (by omega), fun f hfm => ?_⟩
  obtain ⟨v, hv, hread⟩ := exists_member hw hfm
  rw [find?_of_nodup hnodup hv]
  exact .given (hread _ (roomy_inner_iff.mpr hp))

theorem remnant_of_trees {trees : List (String × Tree)} (h : Phrase.memberTrees ms = named trees) :
    Named ms ∧ ∀ names : List String, (known names ms).map (fun m => (m.1, m.2.tree)) =
      trees.filter (·.1 ∈ names) := by
  induction ms generalizing trees with
  | nil =>
    cases trees with
    | nil => exact ⟨nofun, fun _ => rfl⟩
    | cons _ _ => cases h
  | cons m ms ih =>
    obtain ⟨key, d⟩ := m
    cases trees with
    | nil => cases h
    | cons t trees =>
      obtain ⟨hm, hrest⟩ := List.cons.inj h
      obtain ⟨hkey, htree⟩ := Prod.mk.inj hm
      obtain ⟨hnamed, hknown⟩ := ih hrest
      refine ⟨List.forall_mem_cons.mpr ⟨⟨_, hkey⟩, hnamed⟩, fun names => ?_⟩
      by_cases ht : t.1 ∈ names
      · have hm : known? names (key, d) = some (t.1, d) := by simp [known?, hkey, ht]
        rw [known, List.filterMap_cons_some hm, List.filter_cons_of_pos (by simpa using ht),
          ← hknown names, List.map_cons, htree]
        rfl
      · have hm : known? names (key, d) = none := by simp [known?, hkey, ht]
        rw [known, List.filterMap_cons_none hm, List.filter_cons_of_neg (by simpa using ht),
          ← hknown names]
        rfl

theorem exists_remnant {rest : List (String × Value)} (hx : Exact (.object rest))
    (h : (rest.filter (·.1 ∈ members.map (·.1))).Perm (members.filter (·.1 ∉ removed))) :
    ∃ ms, Spells (.object ms) (bytesOf (Value.object rest).render) ∧
      Remnant members removed ms := by
  obtain ⟨d, hd, htree⟩ := (read_iff _ _).mp (read_render _ hx)
  cases d with
  | object ms =>
    have hms := (Tree.object.inj htree).1
    rw [memberTreesOf_eq_named] at hms
    obtain ⟨hnamed, hknown⟩ := remnant_of_trees hms
    refine ⟨ms, hd, hnamed, ?_⟩
    rw [hknown, List.filter_map]
    exact h.map _
  | _ => cases htree

/-- A member that is left is found with its value, and one that was removed is not found. -/
theorem find?_remnant (h : Remnant members removed ms) (hn : (members.map (·.1)).Nodup)
    {k : String} {v : Value} (hv : (k, v) ∈ members) :
    (Table.find? (known (members.map (·.1)) ms) k).map Phrase.tree =
      if k ∈ removed then none else some v.toTree := by
  have hrest : ((members.filter (·.1 ∉ removed)).map (·.1)).Nodup :=
    hn.sublist (List.filter_sublist.map _)
  have hnodup : (((members.filter (·.1 ∉ removed)).map fun m => (m.1, m.2.toTree)).map
      (·.1)).Nodup := by rwa [List.map_map]
  rw [← find?_map, ← find?_perm h.rest.symm hnodup, find?_map]
  split
  · rename_i hk
    have hnone : Table.find? (members.filter (·.1 ∉ removed)) k = none := by
      refine Tables.find?_eq_none_iff.mpr fun m hm => ?_
      rintro rfl
      exact of_decide_eq_true (List.mem_filter.mp hm).2 hk
    rw [hnone]
    rfl
  · rename_i hk
    rw [find?_of_nodup hrest (List.mem_filter.mpr ⟨hv, decide_eq_true hk⟩)]
    rfl

theorem decode_remnant (hf : Lawful fs) (hr : r.slots = fs.map (·.slot))
    (hopt : ∀ f ∈ fs, f.need = .optional) (hw : List.Forall₂ (Writes n a) fs members)
    (h : Remnant members removed ms)
    (hget : ∀ f ∈ fs, f.get a' = f.get (if f.name ∈ removed then r.initial else a))
    (hp : Roomy p (n + 1)) : r.decode p (Phrase.object ms).tree = .ok a' := by
  have hnames := names_of_writes hw
  have hnodup : (members.map (·.1)).Nodup := hnames ▸ hf.nodup
  refine (decode_object_parts_iff hf hr).mpr ⟨roomy_of_le hp (by omega), h.named, ?_, ?_⟩
  · have hrest := (h.rest.map (·.1)).nodup_iff.mpr (by
      rw [List.map_map]
      exact hnodup.sublist (List.filter_sublist.map _))
    rwa [List.map_map, hnames] at hrest
  · intro f hfm
    obtain ⟨v, hv, hread⟩ := exists_member hw hfm
    have hgot := hget f hfm
    rw [← hnames, find?_remnant h hnodup hv]
    split
    · rename_i hk
      rw [if_pos hk] at hgot
      exact .left (by simp [RecordField.free, hopt f hfm]) hgot
    · rename_i hk
      rw [if_neg hk] at hgot
      exact .given (hgot ▸ hread _ (roomy_inner_iff.mpr hp))

end records

section fields

def settingsFields : List (RecordField Settings) := [
  ⟨"listen_addr", .optional, .string, fun x s => { s with listenAddress := x }, (·.listenAddress),
    fun _ _ => rfl⟩,
  ⟨"protocol", .optional, Protocol.decode, fun x s => { s with protocol := x }, (·.protocol),
    fun _ _ => rfl⟩,
  ⟨"cert", .optional, .optional Settings.path, fun x s => { s with certificate := x },
    (·.certificate), fun _ _ => rfl⟩,
  ⟨"cert_key", .optional, .optional Settings.path, fun x s => { s with certificateKey := x },
    (·.certificateKey), fun _ _ => rfl⟩,
  ⟨"plugin_dir", .optional, Settings.path, fun x s => { s with pluginDirectory := x },
    (·.pluginDirectory), fun _ _ => rfl⟩,
  ⟨"list_options", .optional, ListMode.decode, fun x s => { s with listMode := x }, (·.listMode),
    fun _ _ => rfl⟩,
  ⟨"secure_loader", .optional, .bool, fun x s => { s with secureLoader := x }, (·.secureLoader),
    fun _ _ => rfl⟩,
  ⟨"plugins", .optional, mapped (.members .string) Table.ofList,
    fun x s => { s with plugins := x }, (·.plugins), fun _ _ => rfl⟩,
  ⟨"fan_out", .optional, FanOut.decode, fun x s => { s with fanOut := x }, (·.fanOut),
    fun _ _ => rfl⟩,
  ⟨"request_timeout_secs", .optional, mapped (.nat 64) UInt64.ofNat,
    fun x s => { s with requestTimeout := x }, (·.requestTimeout), fun _ _ => rfl⟩,
  ⟨"handshake_timeout_secs", .optional, mapped (.nat 64) UInt64.ofNat,
    fun x s => { s with handshakeTimeout := x }, (·.handshakeTimeout), fun _ _ => rfl⟩,
  ⟨"auth", .optional, Access.decode, fun x s => { s with access := x }, (·.access),
    fun _ _ => rfl⟩,
  ⟨"logging", .optional, Logging.Settings.record.decode, fun x s => { s with logging := x },
    (·.logging), fun _ _ => rfl⟩]

theorem settings_slots : Settings.record.slots = settingsFields.map (·.slot) := by
  have hplugins := of_comp .optional "plugins" (.members .string) Table.ofList
    fun x (s : Settings) => { s with plugins := x }
  have hrequest := of_comp .optional "request_timeout_secs" (.nat 64) UInt64.ofNat
    fun x (s : Settings) => { s with requestTimeout := x }
  have hhandshake := of_comp .optional "handshake_timeout_secs" (.nat 64) UInt64.ofNat
    fun x (s : Settings) => { s with handshakeTimeout := x }
  simp [Settings.record, settingsFields, RecordField.slot, Slot.optional, hplugins, hrequest,
    hhandshake]

theorem lawful_settings : Lawful settingsFields where
  nodup := by decide
  apart := by simp [settingsFields]
  whole a a' h := by
    simp [settingsFields] at h
    cases a
    cases a'
    simp_all

theorem optional_settings : ∀ f ∈ settingsFields, f.need = .optional := by
  simp [settingsFields]

theorem reads_uint64 (n : UInt64) : Reads (mapped (.nat 64) UInt64.ofNat) 0 (.ofNat n) n := by
  intro p hp
  rw [mapped, reads_nat 64 n n.toNat_lt p hp]
  exact congrArg Except.ok UInt64.ofNat_toNat

theorem reads_plugins {plugins : List (String × String)} (h : Ascending plugins) :
    Reads (mapped (.members .string) Table.ofList) 1
      (.object (plugins.map fun x => (x.1, .string x.2))) plugins := by
  intro p hp
  rw [mapped, reads_table .string plugins reads_string p hp]
  exact congrArg Except.ok (ofList_ascending h)

/-- Tables have their names in ascending order, each of them once. -/
structure Tabled (s : Settings) : Prop where
  plugins : Ascending s.plugins
  users : Ascending (usersOf s.access)

variable {s : Settings}

theorem writes_settings (h : Tabled s) :
    List.Forall₂ (Writes 3 s) settingsFields s.toMembers := by
  -- most members are no arrays or objects, and may stand anywhere
  have flat {β : Type} {d : Decoder β} {v : Value} {b : β} (hread : Reads d 0 v b) :
      Reads d 3 v b := reads_mono hread (by decide)
  have hplugins := reads_mono (reads_plugins h.plugins) (by decide : 1 ≤ 3)
  have hlogging := reads_mono (reads_logging s.logging) (by decide : 1 ≤ 3)
  exact .cons ⟨rfl, flat (reads_string _)⟩ <| .cons ⟨rfl, flat (reads_protocol _)⟩ <|
    .cons ⟨rfl, flat (reads_optionalPath _)⟩ <| .cons ⟨rfl, flat (reads_optionalPath _)⟩ <|
    .cons ⟨rfl, flat (reads_path _)⟩ <| .cons ⟨rfl, flat (reads_listMode _)⟩ <|
    .cons ⟨rfl, flat (reads_bool _)⟩ <| .cons ⟨rfl, hplugins⟩ <|
    .cons ⟨rfl, flat (reads_fanOut _)⟩ <| .cons ⟨rfl, flat (reads_uint64 _)⟩ <|
    .cons ⟨rfl, flat (reads_uint64 _)⟩ <| .cons ⟨rfl, reads_access h.users⟩ <|
    .cons ⟨rfl, hlogging⟩ .nil

theorem reads_settings (h : Tabled s) : Reads Settings.record.decode 4 s.toValue s :=
  reads_fields lawful_settings settings_slots (writes_settings h)

theorem shallow_settings (s : Settings) : Shallow 4 s.toValue := by
  have hplugins := shallow_mono (shallow_table .string s.plugins (shallow_string 0))
    (by decide : 1 ≤ 3)
  have hlogging := shallow_mono (shallow_logging s.logging) (by decide : 1 ≤ 3)
  refine shallow_object ?_
  simp [Settings.toMembers, Protocol.toValue, ListMode.toValue, FanOut.toValue, shallow_string,
    shallow_bool, shallow_ofNat, shallow_optionalText, shallow_access, hlogging]
  exact hplugins

/-- Whichever a member is read from: the settings, or the defaults if it has been removed. -/
def chosen (removed : List String) (s : Settings) (name : String) : Settings :=
  if name ∈ removed then {} else s

/-- Settings with the defaults in place of the members that have been removed. -/
def without (removed : List String) (s : Settings) : Settings where
  listenAddress := (chosen removed s "listen_addr").listenAddress
  protocol := (chosen removed s "protocol").protocol
  certificate := (chosen removed s "cert").certificate
  certificateKey := (chosen removed s "cert_key").certificateKey
  pluginDirectory := (chosen removed s "plugin_dir").pluginDirectory
  listMode := (chosen removed s "list_options").listMode
  secureLoader := (chosen removed s "secure_loader").secureLoader
  plugins := (chosen removed s "plugins").plugins
  fanOut := (chosen removed s "fan_out").fanOut
  requestTimeout := (chosen removed s "request_timeout_secs").requestTimeout
  handshakeTimeout := (chosen removed s "handshake_timeout_secs").handshakeTimeout
  access := (chosen removed s "auth").access
  logging := (chosen removed s "logging").logging

theorem get_without (removed : List String) (s : Settings) :
    ∀ f ∈ settingsFields, f.get (without removed s) = f.get (chosen removed s f.name) := by
  simp [settingsFields, without]

theorem run_remnant {removed : List String} {ms : List (List Piece × Phrase)} {data : List UInt8}
    (h : Tabled s) (hd : Spells (.object ms) data) (hr : Remnant s.toMembers removed ms) :
    Decoder.run Settings.record.decode data = .ok (without removed s) := by
  rw [run_spelled _ hd]
  exact decode_remnant lawful_settings settings_slots optional_settings (writes_settings h) hr
    (get_without removed s) fun _ => by decide

end fields

section documents

/-- A value is read back from its text, and from the tree of its text wherever that comes from. -/
structure Survives (d : Decoder α) (v : Value) (a : α) : Prop where
  text : Decoder.run d (Text.Utf8.encode v.text) = .ok a
  tree : ∀ o, d ⟨o, 0⟩ v.toTree = .ok a

theorem survives_of_reads {d : Decoder α} {n : Nat} {v : Value} {a : α} (h : Reads d n v a)
    (hv : Shallow n v) (hn : n ≤ maxDepth) : Survives d v a where
  text := by
    have htext : Text.Utf8.encode v.text = bytesOf v.render := encode_ofList _
    rw [htext]
    exact run_text h hn hv.exact
  tree o := h _ fun _ => by simpa using hn

/-- What the service writes, it reads back as it was. Where members of the settings have been
removed, it reads the settings with the defaults in their place, whatever the order of the members
that are left and whatever members stand among them. -/
theorem documents_read_back :
    (∀ p : Problem, Survives Problem.record.decode p.toValue p) ∧
    (∀ e : Envelope, Survives Envelope.record.decode e.toValue e) ∧
    (∀ i : AttesterInfo, Survives AttesterInfo.record.decode i.toValue i) ∧
    (∀ a : Access, Ascending (usersOf a) → Survives Access.decode a.toValue a) ∧
    (∀ l : Logging.Settings, Survives Logging.Settings.record.decode l.toValue l) ∧
    ∀ s : Settings, Tabled s → Survives Settings.record.decode s.toValue s ∧
      ∀ (removed : List String) (ms : List (List Piece × Phrase)) (data : List UInt8),
        Spells (.object ms) data → Remnant s.toMembers removed ms →
        Decoder.run Settings.record.decode data = .ok (without removed s) :=
  ⟨fun p => survives_of_reads (reads_problem p) (shallow_problem p) (by decide),
    fun e => survives_of_reads (reads_envelope e) (shallow_envelope e) (by decide),
    fun i => survives_of_reads (reads_info i) (shallow_info i) (by decide),
    fun a h => survives_of_reads (reads_access h) (shallow_access a) (by decide),
    fun l => survives_of_reads (reads_logging l) (shallow_logging l) (by decide),
    fun s h => ⟨survives_of_reads (reads_settings h) (shallow_settings s) (by decide),
      fun _ _ _ hd hr => run_remnant h hd hr⟩⟩

/-- Three members are left, in another order and with one among them that is not known. -/
theorem documents_read_back_reordered :
    let s : Settings :=
      { protocol := .https, certificate := some "c.pem", fanOut := .sequential,
        requestTimeout := 18446744073709551615, plugins := [("a", "00"), ("b", "01")],
        access := .basic [("u", "h"), ("v", "")] }
    let removed := ["listen_addr", "cert", "cert_key", "plugin_dir", "list_options",
      "secure_loader", "plugins", "fan_out", "handshake_timeout_secs", "logging"]
    let data := bytesOf ("\x7b\"auth\":\x7b\"type\":\"basic\",\"users\":\x7b".toList ++
      "\"u\":\x7b\"password\":\"h\"\x7d,\"v\":\x7b\"password\":\"\"\x7d\x7d\x7d,".toList ++
      "\"request_timeout_secs\":18446744073709551615,\"x\":[true],".toList ++
      "\"protocol\":\"https\"\x7d".toList)
    (Tabled s ∧ ∃ ms, Spells (.object ms) data ∧ Remnant s.toMembers removed ms) ∧
      Survives Settings.record.decode s.toValue s ∧
      Survives Access.decode s.access.toValue s.access ∧
      Decoder.run Settings.record.decode data = .ok
        { protocol := .https, requestTimeout := 18446744073709551615,
          access := .basic [("u", "h"), ("v", "")] } := by
  intro s removed data
  have htabled : Tabled s := ⟨by decide, by decide⟩
  let rest : List (String × Value) := [("auth", s.access.toValue),
    ("request_timeout_secs", .ofNat s.requestTimeout), ("x", .array [.bool true]),
    ("protocol", s.protocol.toValue)]
  have hdata : data = bytesOf (Value.object rest).render := by decide +kernel
  have hexact : Exact (.object rest) := by
    refine exactMembers_iff.mpr ?_
    have haccess := (shallow_access s.access).exact
    simp [rest, haccess, Exact, ExactItems, Value.ofNat, Protocol.toValue,
      Number.toInt?]
  have hrest : (rest.filter (·.1 ∈ s.toMembers.map (·.1))).Perm
      (s.toMembers.filter (·.1 ∉ removed)) :=
    List.reverse_perm [("protocol", s.protocol.toValue),
      ("request_timeout_secs", .ofNat s.requestTimeout), ("auth", s.access.toValue)]
  obtain ⟨ms, hd, hr⟩ := exists_remnant hexact hrest
  rw [← hdata] at hd
  obtain ⟨-, -, -, haccess, -, hsettings⟩ := documents_read_back
  obtain ⟨hwhole, hpart⟩ := hsettings s htabled
  exact ⟨⟨htabled, ms, hd, hr⟩, hwhole, haccess s.access htabled.users, hpart removed ms data hd hr⟩

end documents

end Attestation.Proofs.SettingsText
