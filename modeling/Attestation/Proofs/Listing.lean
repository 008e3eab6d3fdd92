import Attestation.Proofs.EvidenceServing
import Attestation.Proofs.MemberOrder
import Attestation.Proofs.NameOrder
import Attestation.Proofs.OptionsPassing
import Attestation.Proofs.Processes

namespace Attestation.Proofs.Listing

open Composing Compositor Course Discovery JsonDocuments JsonGrammar Loading MemberOrder Negotiation
  OptionsPassing Plugin PrivilegeLevels Processes Scheduling SelectionOrder Tables Trials
open JsonStrings (plain_of_all)
open Worlds (Runs play_runs)

variable {H β : Type} {registry : Registry H} {attesters : List (String × H)}

section registries

/-- A registry of attesters that have told their names: each of them is found by its name, and
nothing by another one. -/
structure Enrolls (registry : Registry H) (attesters : List (String × H)) : Prop where
  names : registry.names.Perm (attesters.map (·.1))
  nodup : registry.names.Nodup
  known : ∀ x ∈ attesters, registry.lookup x.1 = .ok x.2
  unknown : ∀ name, name ∉ registry.names → registry.lookup name = .error (.notFound name)

theorem enrolls_perm {attesters' : List (String × H)} (h : Enrolls registry attesters)
    (hperm : attesters.Perm attesters') : Enrolls registry attesters' where
  names := h.names.trans (hperm.map _)
  nodup := h.nodup
  known x hx := h.known x (hperm.mem_iff.mpr hx)
  unknown := h.unknown

theorem enrolls_table {ms : List (String × β)} (hl : Ascending ms) (f : String → β → H)
    (hnames : registry.names = ms.map (·.1))
    (hfound : ∀ name v, Table.find? ms name = some v → registry.lookup name = .ok (f name v))
    (hmissing : ∀ name, Table.find? ms name = none →
      registry.lookup name = .error (.notFound name)) :
    Enrolls registry (ms.map fun m => (m.1, f m.1 m.2)) where
  names := by
    rw [hnames, List.map_map]
    exact List.Perm.refl _
  nodup := hnames ▸ nodup_of_ascending hl
  known x hx := by
    obtain ⟨m, hm, rfl⟩ := List.mem_map.mp hx
    exact hfound m.1 m.2 (find?_of_mem hl hm)
  unknown name hname := by
    refine hmissing name (find?_eq_none_iff.mpr fun m hm h => hname ?_)
    rw [hnames, ← h]
    exact List.mem_map_of_mem hm

end registries

section loads

variable {l : Loader} {loaded plugins : Plugins} {c : Candidate} {cs : List Candidate}
  {log closing : List Loading.Event} {steps : List Step}

/-- The name that a plugin tells when it is asked for its identity, and the path of the plugin. -/
def identification? : Loading.Event → Option (String × String)
  | ⟨.identify path, a⟩ =>
    if a.status.result then a.identity.map fun i => (i.name, path) else none
  | _ => none

/-- Who has told which name. -/
def identified (log : List Loading.Event) : List (String × String) := log.filterMap identification?

theorem identified_append (log₁ log₂ : List Loading.Event) :
    identified (log₁ ++ log₂) = identified log₁ ++ identified log₂ := List.filterMap_append

theorem identified_approval {result : Except Error Unit} (h : Approval l c log result) :
    identified log = [] := by
  cases h <;> rfl

theorem identified_registered {p : Loaded} (h : Attempt l loaded c log (.ok p)) :
    identified log = [(p.identity.name, p.path)] := by
  cases h with
  | @registered log g a i h _ ha _ =>
    obtain ⟨hresult, hidentity⟩ := identityOf_ok ha
    have htold : identification? ⟨.identify c.path, a⟩ = some (i.name, c.path) := by
      rw [identification?, if_pos hresult, hidentity]
      rfl
    rw [identified_append, identified_approval h, List.nil_append, identified_append]
    exact List.filterMap_cons_some htold

theorem identified_skipped {text : String}
    (h : Attempt l loaded c log (.error (.unknownPlugin text))) : identified log = [] := by
  cases h with
  | refused h => exact identified_approval h
  | greeting h _ =>
    rw [identified_append, identified_approval h]
    rfl
  | identity _ _ ha => cases (identityOf_error ha).1

def addressed (plugins : Plugins) : List (String × String) := plugins.map fun m => (m.1, m.2.path)

theorem loads_identified (h : Loads l loaded cs steps closing (.ok plugins))
    (hl : Ascending loaded) : Ascending plugins ∧ closing = [] ∧
      (addressed plugins).Perm (identified (steps.flatMap Step.log) ++ addressed loaded) := by
  generalize hresult : Except.ok plugins = result at h
  -- What has been told in a step joins what is loaded for the steps behind it.
  induction h with
  | finished loaded =>
    cases hresult
    exact ⟨hl, rfl, List.Perm.refl _⟩
  | @registered loaded c cs log closing p steps result h hs ih =>
    obtain ⟨hplugins, hclosing, hperm⟩ := ih (ascending_insert _ _ hl) hresult
    have hinsert : (addressed (Table.insert p.identity.name p loaded)).Perm
        ((p.identity.name, p.path) :: addressed loaded) :=
      (insert_perm (attempt_new (runs_loadOne h)).2).map _
    refine ⟨hplugins, hclosing, ?_⟩
    rw [List.flatMap_cons, identified_append, identified_registered (runs_loadOne h)]
    exact (hperm.trans (hinsert.append_left _)).trans List.perm_middle
  | @skipped loaded c cs log closing text steps result h hs ih =>
    obtain ⟨hplugins, hclosing, hperm⟩ := ih hl hresult
    refine ⟨hplugins, hclosing, ?_⟩
    rw [List.flatMap_cons, identified_append, identified_skipped (runs_loadOne h)]
    exact hperm
  | failed _ _ => cases hresult

theorem discover_identified (h : Runs l.discover log (.ok plugins)) :
    Ascending plugins ∧ (addressed plugins).Perm (identified log) := by
  obtain ⟨-, -, hresult⟩ | ⟨-, ⟨e, -, hresult⟩ | ⟨entries, steps, closing, rfl, hs⟩⟩ :=
    runs_discover h
  · cases hresult
  · cases hresult
  · obtain ⟨hl, rfl, hperm⟩ := loads_identified hs List.Pairwise.nil
    rw [List.append_nil]
    exact ⟨hl, hperm.trans (.of_eq (List.append_nil _))⟩

theorem enrolls_discovered {uses : List Use} {log' : List Loading.Event}
    {answers : List (Except Error Loaded)} {m : Manager} (h : Runs l.discover log (.ok plugins))
    (hserve : Runs (serve (Manager.ofPlugins plugins) uses) log' (answers, m)) :
    Enrolls m.registry (identified log) := by
  have hserves := runs_serve hserve
  obtain ⟨hl, hperm⟩ := discover_identified h
  have hlookup : ∀ name, m.registry.lookup name =
      ((Manager.ofPlugins plugins).lookup name).map (·.path) :=
    fun name => congrArg (Except.map Loaded.path) (hserves.lookup name)
  refine enrolls_perm (enrolls_table hl (fun _ p => p.path) hserves.names ?_ ?_) hperm
  · intro name p hfind
    rw [hlookup, lookup_iff.mpr hfind]
    rfl
  · intro name hfind
    have hplugins : (Manager.ofPlugins plugins).plugins = plugins := rfl
    rw [hlookup, Manager.lookup, hplugins, hfind]
    rfl

end loads

section files

variable {data : List UInt8} {table : Mock.Attesters}

theorem enrolls_canned (h : Mock.ofJson data = .ok table) :
    Enrolls (Mock.registry table) (table.map fun m => (m.1, Mock.subAttester m.1 m.2)) := by
  obtain ⟨d, entries, -, -, -, rfl⟩ := EvidenceFiles.ofJson_iff.mp h
  refine enrolls_table (ascending_ofList entries) Mock.subAttester rfl ?_ ?_
  · intro name canned hfind
    simp only [Mock.registry, Mock.lookup, hfind]
  · intro name hfind
    simp only [Mock.registry, Mock.lookup, hfind]

theorem tells_canned {name : String} {a : SubAttester}
    (h : (Mock.registry table).lookup name = .ok a) : Tells a.identity ⟨name, "mock"⟩ := by
  simp only [Mock.registry, Mock.lookup] at h
  split at h
  · cases h
    exact ⟨rfl, rfl⟩
  · cases h

end files

section lists

variable {env : Environment H} {names : List String}

/-- Every attester answers when it is asked for its options, though it may answer with a failure,
or with other options each time. -/
def Answering (env : Environment H) : Prop := ∀ step h, ∃ a, env step (.query h .options) = some a

theorem answering_environment {s : Schedule} (hs : s.deadline = none)
    (answers : Nat → H → SubAttester) : Answering (environment s answers) :=
  fun step h => ⟨(answers step h).options, environment_eq hs answers step _⟩

/-- The list of attesters, and the questions behind it: each one once, by the bytes of the names,
with the options that the attester has answered. -/
structure Lists (attesters : List (String × H)) (infos : List AttesterInfo)
    (log : List (Course.Event H)) : Prop where
  names : (infos.map (·.name)).Perm (attesters.map (·.1))
  ascending : infos.Pairwise fun i j => Text.Utf8.encode i.name < Text.Utf8.encode j.name
  options : List.Forall₂ (fun i e => ∃ h a, (i.name, h) ∈ attesters ∧
    e = ⟨.query h .options, some a⟩ ∧ i.options = a.options) infos log

theorem infos_run {name : String} {h : H} (hl : registry.lookup name = .ok h) :
    (infos registry (name :: names)).run = .ask (.query h .options) fun a =>
      (infos registry names).run >>= fun rest =>
        .done (rest.map (⟨name, a.options⟩ :: ·)) := by
  rw [infos, lookup_eq_ok_iff.mpr hl]
  refine congrArg (Dialogue.ask (Call.query h .options)) (funext fun a => ?_)
  refine congrArg (Dialogue.bind (infos registry names).run) (funext fun rest => ?_)
  cases rest <;> rfl

theorem play_infos (h : Enrolls registry attesters) (henv : Answering env)
    (hnames : ∀ name ∈ names, name ∈ attesters.map (·.1)) (step : Nat) :
    ∃ is log, env.play step (infos registry names).run = (some (.ok is), log) ∧
      is.map (·.name) = names ∧
      List.Forall₂ (fun i e => ∃ h a, (i.name, h) ∈ attesters ∧
        e = ⟨.query h .options, some a⟩ ∧ i.options = a.options) is log := by
  induction names generalizing step with
  | nil => exact ⟨[], [], rfl, rfl, .nil⟩
  | cons name names ih =>
    obtain ⟨hname, hrest⟩ := List.forall_mem_cons.mp hnames
    obtain ⟨⟨name, attester⟩, hmem, rfl⟩ := List.mem_map.mp hname
    obtain ⟨a, ha⟩ := henv step attester
    obtain ⟨is, log, hplay, his, hall⟩ := ih hrest (step + 1)
    refine ⟨⟨name, a.options⟩ :: is, ⟨.query attester .options, some a⟩ :: log, ?_, ?_, ?_⟩
    · rw [infos_run (h.known _ hmem), Environment.play_ask_some ha, Environment.play_bind, hplay]
      simp only [Environment.play_done, List.append_nil]
      rfl
    · rw [List.map_cons, his]
    · exact .cons ⟨attester, a, hmem, rfl, rfl⟩ hall

theorem lists_of_enrolls (h : Enrolls registry attesters) (henv : Answering env) :
    ∃ is log, env.play 0 (subattesters registry).run = (some (.ok is), log) ∧
      Lists attesters is log := by
  have hperm : (sortNames registry.names).Perm (attesters.map (·.1)) :=
    (sortNames_perm _).trans h.names
  obtain ⟨is, log, hplay, his, hall⟩ := play_infos h henv (fun _ => hperm.mem_iff.mp) 0
  have hascending := sortNames_ascending h.nodup
  rw [← his] at hperm hascending
  exact ⟨is, log, hplay, hperm, (List.pairwise_map.mp hascending).imp NameOrder.encode_lt, hall⟩

/-- A registry of attesters, all of which can be listed. -/
structure Listed (registry : Registry H) (attesters : List (String × H)) : Prop
    extends Enrolls registry attesters where
  lists : ∀ env : Environment H, Answering env →
    ∃ infos log, env.play 0 (subattesters registry).run = (some (.ok infos), log) ∧
      Lists attesters infos log

theorem listed_of_enrolls (h : Enrolls registry attesters) : Listed registry attesters where
  toEnrolls := h
  lists _ henv := lists_of_enrolls h henv

end lists

section orders

variable {r₁ r₂ : Registry H} {names : List String}

/-- Registries of the same attesters, which give the names in different orders. -/
structure Alike (r₁ r₂ : Registry H) : Prop where
  names : r₁.names.Perm r₂.names
  lookup : ∀ name, r₁.lookup name = r₂.lookup name

theorem sortNames_congr (h : r₁.names.Perm r₂.names) :
    sortNames r₁.names = sortNames r₂.names := by
  have hperm : (sortNames r₁.names).Perm (sortNames r₂.names) :=
    ((sortNames_perm _).trans h).trans (sortNames_perm _).symm
  exact hperm.eq_of_pairwise (fun _ _ _ _ => String.le_antisymm) (sortNames_sorted _)
    (sortNames_sorted _)

theorem lookup_congr (h : Alike r₁ r₂) (name : String) :
    Compositor.lookup r₁ name = Compositor.lookup r₂ name := by
  rw [Compositor.lookup, Compositor.lookup, h.lookup]

theorem infos_congr (h : Alike r₁ r₂) : infos r₁ names = infos r₂ names := by
  induction names with
  | nil => rfl
  | cons name names ih => rw [infos, infos, lookup_congr h, ih]

theorem negotiateAll_congr (h : Alike r₁ r₂) (nonce : List UInt8) (selection : Selection) :
    negotiateAll r₁ nonce selection names = negotiateAll r₂ nonce selection names := by
  induction names with
  | nil => rfl
  | cons name names ih =>
    rw [negotiateAll, negotiateAll, negotiate, negotiate, lookup_congr h, ih]

theorem subattesters_congr (h : Alike r₁ r₂) : subattesters r₁ = subattesters r₂ := by
  rw [subattesters, subattesters, sortNames_congr h.names, infos_congr h]

theorem prepare_congr (h : Alike r₁ r₂) (mode : ListMode) {body₁ body₂ : List UInt8}
    (hbody : Challenge.ofBody body₁ = Challenge.ofBody body₂) :
    prepare mode r₁ body₁ = prepare mode r₂ body₂ := by
  have hnames : r₁.names = [] ↔ r₂.names = [] := by
    rw [← List.length_eq_zero_iff, h.names.length_eq, List.length_eq_zero_iff]
  simp only [Targets.prepare_eq, hbody, hnames]

theorem collect_congr (h : Alike r₁ r₂) (mode : ListMode) (fanOut : FanOut) (t : Task) :
    collect mode fanOut r₁ t = collect mode fanOut r₂ t := by
  have htargets : t.targets mode r₁ = t.targets mode r₂ := by
    unfold Task.targets
    rw [sortNames_congr h.names]
  rw [collect, collect, htargets, negotiateAll_congr h]

variable {m : Type → Type} [Monad m]

theorem compose_congr (h : Alike r₁ r₂) {body₁ body₂ : List UInt8}
    (hbody : Challenge.ofBody body₁ = Challenge.ofBody body₂) (run : Runner m H)
    (s : Compositor.Settings) : compose run s r₁ body₁ = compose run s r₂ body₂ := by
  unfold compose
  rw [prepare_congr h s.listMode hbody]
  cases prepare s.listMode r₂ body₂ with
  | error p => rfl
  | ok t => simp only [collect_congr h]

end orders

/-- After a load, whatever is looked up and closed, and for the attesters of any evidence file, each
name is there once and finds the attester that has told it, and no other name finds anything. The
list of such attesters always comes about: each of them once, in ascending order of the bytes of
the names, with the options that it has answered. The order in which a registry gives the names,
and that of the members of objects in a request, makes no difference to the list nor to what is
composed, whoever runs it. -/
theorem attesters_listed :
    (∀ (l : Loader) log plugins uses log' answers m, Runs l.discover log (.ok plugins) →
      Runs (serve (Manager.ofPlugins plugins) uses) log' (answers, m) →
      Listed m.registry (identified log)) ∧
    (∀ data table, Mock.ofJson data = .ok table →
      Listed (Mock.registry table) (table.map fun m => (m.1, Mock.subAttester m.1 m.2)) ∧
        ∀ name a, (Mock.registry table).lookup name = .ok a → Tells a.identity ⟨name, "mock"⟩) ∧
    ∀ (H : Type) (r₁ r₂ : Registry H), Alike r₁ r₂ →
      subattesters r₁ = subattesters r₂ ∧
        ∀ d₁ d₂ body₁ body₂, Reordered d₁ d₂ → Spells d₁ body₁ → Spells d₂ body₂ →
          ∀ (m : Type → Type) [Monad m] (run : Runner m H) (s : Compositor.Settings),
            compose run s r₁ body₁ = compose run s r₂ body₂ := by
  refine ⟨?_, ?_, ?_⟩
  · intro l log plugins uses log' answers m h hserve
    exact listed_of_enrolls (enrolls_discovered h hserve)
  · intro data table h
    exact ⟨listed_of_enrolls (enrolls_canned h), fun name a => tells_canned⟩
  · intro H r₁ r₂ h
    refine ⟨subattesters_congr h, ?_⟩
    intro d₁ d₂ body₁ body₂ hd hbody₁ hbody₂ m _ run s
    exact compose_congr h (ofBody_reordered hd hbody₁ hbody₂) run s

section examples

def both (key : List UInt8) (d : Phrase) (key' : List UInt8) (d' : Phrase) : Phrase :=
  .object [(key.map .byte, d), (key'.map .byte, d')]

theorem reorders_both (key key' : List UInt8) (d d' : Phrase)
    (h : text (key.map .byte) ≠ text (key'.map .byte)) :
    Reorders (both key d key' d') (both key' d' key d) :=
  .members (.swap ..) (by simpa using h)

theorem reorders_second (key : List UInt8) (d : Phrase) (key' : List UInt8) {d' d'' : Phrase}
    (h : Reorders d' d'') : Reorders (both key d key' d') (both key d key' d'') :=
  @Reorders.member [_] [] _ _ _ h

def selecting (selection : Phrase) : Phrase :=
  both (Text.Utf8.encode "nonce") (.string ([0x41, 0x51].map .byte))
    (Text.Utf8.encode "attester-selection") selection

def selectingText (selection : List UInt8) : List UInt8 :=
  pairText (Text.Utf8.encode "nonce") [0x22, 0x41, 0x51, 0x22]
    (Text.Utf8.encode "attester-selection") selection

theorem spells_selecting {selection : Phrase} {bs : List UInt8} (h : SpellsBare selection bs) :
    Spells (selecting selection) (selectingText bs) := by
  have hnonce : SpellsBare (.string ([0x41, 0x51].map .byte)) [0x22, 0x41, 0x51, 0x22] :=
    .string (spellsString_plain (plain_of_all (by decide)))
  exact spells_bare (bare_pair (plain_of_all (by decide)) hnonce (plain_of_all (by decide)) h)

/-- The selection `{"a":{"x":1,"y":2},"b":null}`, and one with its members the other way round. -/
def forth : Phrase :=
  both [0x61] (both [0x78] (.number ⟨false, [1], none, none⟩) [0x79]
    (.number ⟨false, [2], none, none⟩)) [0x62] .null

def back : Phrase :=
  both [0x62] .null [0x61] (both [0x79] (.number ⟨false, [2], none, none⟩) [0x78]
    (.number ⟨false, [1], none, none⟩))

def forthText : List UInt8 :=
  selectingText (pairText [0x61] (pairText [0x78] [0x31] [0x79] [0x32]) [0x62]
    [0x6E, 0x75, 0x6C, 0x6C])

def backText : List UInt8 :=
  selectingText (pairText [0x62] [0x6E, 0x75, 0x6C, 0x6C] [0x61]
    (pairText [0x79] [0x32] [0x78] [0x31]))

theorem spells_forth : Spells (selecting forth) forthText :=
  spells_selecting (bare_pair (plain_of_all (by decide))
    (bare_pair (plain_of_all (by decide)) (bare_digit (by decide)) (plain_of_all (by decide))
      (bare_digit (by decide))) (plain_of_all (by decide)) .null)

theorem spells_back : Spells (selecting back) backText :=
  spells_selecting (bare_pair (plain_of_all (by decide)) .null (plain_of_all (by decide))
    (bare_pair (plain_of_all (by decide)) (bare_digit (by decide)) (plain_of_all (by decide))
      (bare_digit (by decide))))

theorem reordered_back : Reordered (selecting forth) (selecting back) := by
  have hselection : Reorders (selecting forth) (selecting (both [0x62] .null [0x61] _)) :=
    reorders_second _ _ _ (reorders_both [0x61] [0x62] _ _ (by decide))
  exact (Relation.ReflTransGen.single hselection).tail (reorders_second _ _ _
    (reorders_second _ _ _ (reorders_both [0x78] [0x79] _ _ (by decide))))

/-- Attesters that declare an option but fail to. -/
def faltering (a : SubAttester) : SubAttester :=
  { a with options := ⟨.failure "busy", [⟨"x", .integer⟩]⟩ }

theorem attesters_listed_pair :
    let table : Mock.Attesters := [("a", ⟨"y", []⟩), ("b", ⟨"z", [2, 3]⟩)]
    let registry := Mock.registry table
    let backwards : Registry SubAttester := ⟨["b", "a"], registry.lookup⟩
    (∃ log log' answers m, Runs (Loader.ofLocation "p").discover log (.ok pair) ∧
      Runs (serve (Manager.ofPlugins pair) [.close, .lookup "p/b.plugin", .close]) log'
        (answers, m) ∧
      Listed m.registry (identified log)) ∧
    Mock.ofJson EvidenceServing.repeatedFile = .ok table ∧
    (∃ a, registry.lookup "b" = .ok a ∧ Tells a.identity ⟨"b", "mock"⟩) ∧
    (∃ infos log,
      (steady lastFirst faltering).play 0 (subattesters registry).run = (some (.ok infos), log) ∧
        Lists (table.map fun m => (m.1, Mock.subAttester m.1 m.2)) infos log) ∧
    subattesters registry = subattesters backwards ∧
    composed (steady lastFirst id) ⟨.all, .sequential, 0⟩ registry forthText =
      composed (steady lastFirst id) ⟨.all, .sequential, 0⟩ backwards backText := by
  intro table registry backwards
  obtain ⟨hload, hfile, horders⟩ := attesters_listed
  have hdiscover := play_runs peaceful (Loader.ofLocation "p").discover
  rw [peaceful_pair] at hdiscover
  have huses := play_runs peaceful
    (serve (Manager.ofPlugins pair) [.close, .lookup "p/b.plugin", .close])
  have hread : Mock.ofJson EvidenceServing.repeatedFile = .ok table := rfl
  have halike : Alike registry backwards := ⟨.swap .., fun _ => rfl⟩
  obtain ⟨hlist, hcompose⟩ := horders _ registry backwards halike
  obtain ⟨hlisted, htells⟩ := hfile _ _ hread
  refine ⟨⟨_, _, _, _, hdiscover, huses, hload _ _ _ _ _ _ _ hdiscover huses⟩, hread, ?_, ?_, hlist,
    ?_⟩
  · exact ⟨_, rfl, htells "b" _ rfl⟩
  · exact hlisted.lists _ (answering_environment rfl _)
  · have hsame := hcompose _ _ _ _ reordered_back spells_forth spells_back _
      (steady lastFirst id).runner ⟨.all, .sequential, 0⟩
    exact congrArg (StateT.run · []) hsame

end examples

end Attestation.Proofs.Listing
