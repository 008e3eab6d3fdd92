import Attestation.Proofs.Candidates
import Attestation.Proofs.Settling
import Attestation.Proofs.Tables

namespace Attestation.Proofs.Discovery

open Plugin Worlds Loading Trials Candidates SelectionOrder Tables Settling

variable {w : World} {l : Loader} {cs : List Candidate} {ps : List Loaded}

section loading

variable {loaded : Plugins} {steps : List Step} {closing : List Event}
  {result : Except Error Plugins}

def entry (p : Loaded) : String × Loaded := (nameOf p, p)

theorem nodup_of_ascending {β : Type} {ms : List (String × β)} (h : Ascending ms) :
    (ms.map (·.1)).Nodup := h.imp String.ne_of_lt

theorem insert_entries (p : Loaded) (ps : List Loaded)
    (hf : Table.find? loaded p.identity.name = none) :
    (ps.map entry ++ Table.insert p.identity.name p loaded).Perm
      ((p :: ps).map entry ++ loaded) :=
  ((insert_perm hf).append_left _).trans List.perm_middle

/-- How a file ends a load, beside the plugins that are loaded. -/
inductive Clash (w : World) (l : Loader) (loaded : Plugins) (c : Candidate) : Error → Prop
  | fails {e : Error} (h : Fails w l c e) : Clash w l loaded c e
  | duplicate {i : Identity} {first : Loaded} (h : Reports w l c i)
      (hm : (i.name, first) ∈ loaded) :
      Clash w l loaded c (.duplicateName i.name first.path c.path)

/-- What becomes of files beside the plugins that are loaded before them, and which are started. -/
inductive Outcome (w : World) (l : Loader) (loaded : Plugins) :
    List Candidate → List String → Except Error Plugins → Prop
  | registers {cs : List Candidate} {ps : List Loaded} {plugins : Plugins}
      (h : Reported w l cs ps) (hp : plugins.Perm (ps.map entry ++ loaded))
      (hl : Ascending plugins) : Outcome w l loaded cs (cs.map (·.path)) (.ok plugins)
  | ends {before after : List Candidate} {c : Candidate} {ps : List Loaded} {e : Error}
      {last : List String} (h : Reported w l before ps)
      (hn : ((ps.map entry ++ loaded).map (·.1)).Nodup)
      (hc : Clash w l (ps.map entry ++ loaded) c e)
      (hlast : (Trusted w l c ∧ last = [c.path]) ∨ (¬ Trusted w l c ∧ last = [])) :
      Outcome w l loaded (before ++ c :: after) (before.map (·.path) ++ last) (.error e)

theorem outcome_reports {c : Candidate} {i : Identity} {started : List String}
    (hi : Reports w l c i) (hf : Table.find? loaded i.name = none)
    (h : Outcome w l (Table.insert i.name ⟨c.path, i⟩ loaded) cs started result) :
    Outcome w l loaded (c :: cs) (c.path :: started) result := by
  cases h with
  | @registers _ ps plugins h hp hl =>
    exact .registers (.reports hi h) (hp.trans (insert_entries ⟨c.path, i⟩ ps hf)) hl
  | @ends before after c' ps e last h hn hc hlast =>
    have hperm := insert_entries ⟨c.path, i⟩ ps hf
    have hclash : Clash w l ((⟨c.path, i⟩ :: ps).map entry ++ loaded) c' e := by
      cases hc with
      | fails h => exact .fails h
      | duplicate h hm => exact .duplicate h (hperm.mem_iff.mp hm)
    change Outcome w l loaded (c :: before ++ c' :: after) ((c :: before).map (·.path) ++ last) _
    exact .ends (.reports hi h) ((hperm.map _).nodup_iff.mp hn) hclash hlast

theorem outcome_skipped {c : Candidate} {started : List String} (hskip : Skipped w l c)
    (h : Outcome w l loaded cs started result) :
    Outcome w l loaded (c :: cs) (c.path :: started) result := by
  cases h with
  | registers h hp hl => exact .registers (.skipped hskip h) hp hl
  | @ends before after c' ps e last h hn hc hlast =>
    change Outcome w l loaded (c :: before ++ c' :: after) ((c :: before).map (·.path) ++ last) _
    exact .ends (.skipped hskip h) hn hc hlast

/-- A load registers what is reported, or ends at the first file that does not settle. -/
theorem loads_settle (h : Loads l loaded cs steps closing result)
    (hw : Agrees w (steps.flatMap Step.log)) (hl : Ascending loaded) :
    Outcome w l loaded cs (starts (steps.flatMap Step.log)) result := by
  -- What later files report is new beside what a step has registered before them.
  induction h with
  | finished loaded => exact .registers .nil (List.Perm.refl _) hl
  | @registered loaded c cs log closing p steps result h hs ih =>
    obtain ⟨hlog, hrest⟩ := agrees_append.mp hw
    have hattempt := runs_loadOne h
    cases attempt_comes hattempt hlog with
    | reports hi hf =>
      have hstarts : starts log = [c.path] := attempt_started hattempt hlog hi.trusted
      rw [List.flatMap_cons, starts_append, hstarts]
      exact outcome_reports hi hf (ih hrest (ascending_insert _ _ hl))
  | @skipped loaded c cs log closing text steps result h hs ih =>
    obtain ⟨hlog, hrest⟩ := agrees_append.mp hw
    have hattempt := runs_loadOne h
    have hskip : Skipped w l c := comes_unknown (attempt_comes hattempt hlog)
    have hstarts : starts log = [c.path] := attempt_started hattempt hlog hskip.trusted
    rw [List.flatMap_cons, starts_append, hstarts]
    exact outcome_skipped hskip (ih hrest hl)
  | @failed loaded c cs log e h he =>
    rw [List.flatMap_singleton] at hw ⊢
    have hattempt := runs_loadOne h
    have hclash : Clash w l loaded c e := by
      cases attempt_comes hattempt hw with
      | skipped _ => exact absurd rfl (he _)
      | duplicate hi hf => exact .duplicate hi (mem_of_find? hf)
      | fails h => exact .fails h
    change Outcome w l loaded ([] ++ c :: cs) (([] : List Candidate).map (·.path) ++ starts log) _
    exact .ends .nil (nodup_of_ascending hl) hclash (attempt_starts hattempt hw)

theorem loads_keep (h : Loads l loaded cs steps closing result) :
    (∀ s ∈ steps, ∀ name p, Table.find? loaded name = some p → Table.find? s.loaded name = some p) ∧
      steps.Pairwise fun s s' => ∀ name p, Table.find? s.loaded name = some p →
        Table.find? s'.loaded name = some p := by
  induction h with
  | finished loaded => exact ⟨nofun, List.Pairwise.nil⟩
  | @registered loaded c cs log closing p steps result h hs ih =>
    have hinsert : ∀ name q, Table.find? loaded name = some q →
        Table.find? (Table.insert p.identity.name p loaded) name = some q := by
      intro name q hq
      rw [find?_insert, if_neg]
      · exact hq
      · rintro rfl
        cases (attempt_new (runs_loadOne h)).2.symm.trans hq
    have hlater : ∀ s ∈ steps, ∀ name q, Table.find? loaded name = some q →
        Table.find? s.loaded name = some q :=
      fun s hm name q hq => ih.1 s hm name q (hinsert name q hq)
    exact ⟨List.forall_mem_cons.mpr ⟨fun _ _ hq => hq, hlater⟩,
      List.pairwise_cons.mpr ⟨hlater, ih.2⟩⟩
  | skipped h hs ih =>
    exact ⟨List.forall_mem_cons.mpr ⟨fun _ _ hq => hq, ih.1⟩, List.pairwise_cons.mpr ih⟩
  | failed h he =>
    exact ⟨List.forall_mem_cons.mpr ⟨fun _ _ hq => hq, nofun⟩, List.pairwise_singleton _ _⟩

theorem starts_closing (h : Loads l loaded cs steps closing result) : starts closing = [] := by
  induction h with
  | finished _ => rfl
  | registered _ _ ih | skipped _ _ ih => exact ih
  | @failed loaded _ _ _ _ _ _ =>
    rw [starts, List.filterMap_map]
    exact List.filterMap_eq_nil_iff.mpr fun _ _ => rfl

theorem loads_subject (h : Loads l loaded cs steps closing result) {e : Event}
    (he : e ∈ steps.flatMap Step.log) :
    subject e.question ∈ cs.map (·.path) ∧ ∀ path, e.question ≠ .list path := by
  induction h with
  | finished _ => cases he
  | registered h hs ih | skipped h hs ih =>
    rw [List.flatMap_cons] at he
    obtain he | he := List.mem_append.mp he
    · obtain ⟨hsubject, hlist⟩ := attempt_subject (runs_loadOne h) he
      exact ⟨hsubject ▸ List.mem_cons_self, hlist⟩
    · exact ⟨List.mem_cons_of_mem _ (ih he).1, (ih he).2⟩
  | failed h he' =>
    obtain ⟨hsubject, hlist⟩ := attempt_subject (runs_loadOne h) (by simpa using he)
    exact ⟨hsubject ▸ List.mem_cons_self, hlist⟩

theorem loads_consistent (h : Loads l loaded cs steps closing result)
    (hn : (cs.map (·.path)).Nodup) : Consistent (steps.flatMap Step.log) := by
  induction h with
  | finished _ => exact nofun
  | registered h hs ih | skipped h hs ih =>
    obtain ⟨hnew, hn⟩ := List.nodup_cons.mp hn
    rw [List.flatMap_cons]
    apply consistent_append (attempt_consistent (runs_loadOne h)) (ih hn)
    intro e he e' he' heq
    have hmem := (loads_subject hs he').1
    rw [← heq, (attempt_subject (runs_loadOne h) he).1] at hmem
    exact absurd hmem hnew
  | failed h _ => simpa using attempt_consistent (runs_loadOne h)

theorem closing_stops (h : Loads l loaded cs steps closing result) {e : Event}
    (he : e ∈ closing) : ∃ path, e = stopped path := by
  induction h with
  | finished _ => cases he
  | registered _ _ ih | skipped _ _ ih => exact ih he
  | failed _ _ =>
    obtain ⟨m, -, rfl⟩ := List.mem_map.mp he
    exact ⟨m.2.path, rfl⟩

end loading

section directories

instance (a : Action) : Nonempty a.Reply := by
  cases a with
  | list | read => exact ⟨.ok []⟩
  | start => exact ⟨.ok ()⟩
  | greet => exact ⟨.late⟩
  | identify => exact ⟨⟨⟨false, ""⟩, none⟩⟩
  | stop => exact ⟨()⟩

theorem discover_agrees {log : List Event} {result : Except Error Plugins}
    (h : Runs l.discover log result)
    (hn : ∀ entries, ⟨.list l.location, .ok entries⟩ ∈ log → (entries.map (·.name)).Nodup) :
    ∃ w, Agrees w log := by
  apply exists_agrees
  obtain ⟨-, rfl, -⟩ | ⟨-, ⟨e, rfl, -⟩ | ⟨entries, steps, closing, rfl, hs⟩⟩ := runs_discover h
  · exact nofun
  · simp [Consistent]
  have hpaths : ((Candidate.ofEntries l.location entries).map (·.path)).Nodup :=
    (List.pairwise_map.mpr (ofEntries_ascending (hn entries List.mem_cons_self))).imp
      String.ne_of_lt
  have hsteps := loads_consistent hs hpaths
  have hstops : ∀ e ∈ closing, ∀ e' : Event, e'.question = e.question → e' = e := by
    intro e he e' heq
    obtain ⟨path, rfl⟩ := closing_stops hs he
    exact eq_stopped heq
  apply consistent_cons
  · exact consistent_append (loads_consistent hs hpaths)
      (fun e _ e' he' heq => hstops e' he' e heq) fun e _ e' he' heq => hstops e' he' e heq
  · intro e he
    obtain he | he := List.mem_append.mp he
    · exact (loads_subject hs he).2 _
    · obtain ⟨path, rfl⟩ := closing_stops hs he
      exact nofun

/-- The place at which a load ends: all files before it settle. -/
structure EndsAt (w : World) (l : Loader) (cs before : List Candidate) (c : Candidate)
    (e : Error) : Prop where
  place : ∃ after, cs = before ++ c :: after
  settled : AllSettle w l before
  refuses : Refuses w l before c e

theorem endsAt_unique {before before' : List Candidate} {c c' : Candidate} {e e' : Error}
    (h : EndsAt w l cs before c e) (h' : EndsAt w l cs before' c' e') :
    before = before' ∧ c = c' ∧ e = e' := by
  obtain ⟨after, hcs⟩ := h.place
  obtain ⟨after', hcs'⟩ := h'.place
  obtain ⟨rfl, rfl, -⟩ := first_unsettled (hcs.symm.trans hcs') h.settled h'.settled
    (refuses_settles h.refuses) (refuses_settles h'.refuses)
  exact ⟨rfl, rfl, refuses_unique h.settled h.refuses h'.refuses⟩

/-- The plugins that a load registers: one for each file that is not passed over, and under each
name the one that has reported it. -/
structure Registers (w : World) (l : Loader) (cs : List Candidate) (plugins : Plugins) : Prop where
  entries : ∃ ps, Reported w l cs ps ∧ plugins.Perm (ps.map entry)
  ascending : Ascending plugins
  lookup : ∀ name p, (Manager.ofPlugins plugins).lookup name = .ok p ↔
    p.identity.name = name ∧ ∃ c ∈ cs, Reports w l c p.identity ∧ p.path = c.path

theorem lookup_iff {plugins : Plugins} {name : String} {p : Loaded} :
    (Manager.ofPlugins plugins).lookup name = .ok p ↔ Table.find? plugins name = some p := by
  have hplugins : (Manager.ofPlugins plugins).plugins = plugins := rfl
  rw [Manager.lookup, hplugins]
  cases Table.find? plugins name <;> simp

theorem registers_of_perm {plugins : Plugins} (h : Reported w l cs ps)
    (hp : plugins.Perm (ps.map entry)) (hl : Ascending plugins) : Registers w l cs plugins := by
  refine ⟨⟨ps, h, hp⟩, hl, fun name p => ?_⟩
  calc (Manager.ofPlugins plugins).lookup name = .ok p
    _ ↔ Table.find? plugins name = some p := lookup_iff
    _ ↔ (name, p) ∈ plugins := ⟨mem_of_find?, find?_of_mem hl⟩
    _ ↔ (name, p) ∈ ps.map entry := hp.mem_iff
    _ ↔ p.identity.name = name ∧ p ∈ ps := by
      simp only [List.mem_map, entry, nameOf, Prod.mk.injEq]
      grind
    _ ↔ _ := and_congr_right fun _ => mem_reported_iff h

theorem refuses_of_clash {c : Candidate} {e : Error} (h : Reported w l cs ps)
    (hc : Clash w l (ps.map entry) c e) : Refuses w l cs c e := by
  cases hc with
  | fails hc => exact .fails hc
  | @duplicate i first hi hm =>
    obtain ⟨p, hp, heq⟩ := List.mem_map.mp hm
    obtain ⟨hname, rfl⟩ := Prod.mk.inj heq
    obtain ⟨c', hc', hreports, hpath⟩ := (mem_reported_iff h).mp hp
    rw [hpath]
    exact .duplicate hi hc' hreports hname

def Keeps (l : Loader) (cs : List Candidate) (result : Except Error Plugins) (log : List Event) :
    Prop :=
  ∃ first steps closing, log = first :: (steps.flatMap Step.log ++ closing) ∧
    Loads l [] cs steps closing result ∧
    steps.Pairwise fun s s' => ∀ name p, Table.find? s.loaded name = some p →
      Table.find? s'.loaded name = some p

/-- What a load does with the files that it takes for plugins. -/
structure Discovers (w : World) (l : Loader) (cs : List Candidate)
    (result : Except Error Plugins) (log : List Event) : Prop where
  accepts : (∃ plugins, result = .ok plugins) ↔ AllSettle w l cs
  registers : ∀ plugins, result = .ok plugins →
    Registers w l cs plugins ∧ starts log = cs.map (·.path)
  refuses : ∀ e, result = .error e ↔ ∃ before c, EndsAt w l cs before c e
  stops : ∀ before c e, EndsAt w l cs before c e →
    (Trusted w l c ∧ starts log = (before ++ [c]).map (·.path)) ∨
      (¬ Trusted w l c ∧ starts log = before.map (·.path))
  keeps : Keeps l cs result log

variable {log : List Event}

theorem discovers_of_registers {plugins : Plugins} (h : Registers w l cs plugins)
    (hsettle : AllSettle w l cs) (hstarts : starts log = cs.map (·.path))
    (hkeeps : Keeps l cs (.ok plugins) log) : Discovers w l cs (.ok plugins) log := by
  have hno : ∀ before c e, ¬ EndsAt w l cs before c e := by
    rintro before c e ⟨⟨after, rfl⟩, -, hrefuses⟩
    exact refuses_settles hrefuses (hsettle before c after rfl)
  exact {
    accepts := ⟨fun _ => hsettle, fun _ => ⟨plugins, rfl⟩⟩
    registers := by
      rintro plugins' heq
      cases heq
      exact ⟨h, hstarts⟩
    refuses := fun e => ⟨nofun, fun ⟨before, c, hends⟩ => absurd hends (hno before c e)⟩
    stops := fun before c e hends => absurd hends (hno before c e)
    keeps := hkeeps }

theorem discovers_of_endsAt {before : List Candidate} {c : Candidate} {e : Error}
    {last : List String} (h : EndsAt w l cs before c e)
    (hstarts : starts log = before.map (·.path) ++ last)
    (hlast : (Trusted w l c ∧ last = [c.path]) ∨ (¬ Trusted w l c ∧ last = []))
    (hkeeps : Keeps l cs (.error e) log) : Discovers w l cs (.error e) log := by
  have hunsettled : ¬ AllSettle w l cs := by
    intro hsettle
    obtain ⟨after, rfl⟩ := h.place
    exact refuses_settles h.refuses (hsettle before c after rfl)
  exact {
    accepts := ⟨nofun, fun hsettle => absurd hsettle hunsettled⟩
    registers := nofun
    refuses := by
      intro e'
      constructor
      · intro heq
        cases heq
        exact ⟨before, c, h⟩
      · rintro ⟨before', c', h'⟩
        rw [(endsAt_unique h h').2.2]
    stops := by
      intro before' c' e' h'
      obtain ⟨rfl, rfl, -⟩ := endsAt_unique h h'
      rw [hstarts, List.map_append]
      obtain ⟨ht, rfl⟩ | ⟨ht, rfl⟩ := hlast
      · exact Or.inl ⟨ht, rfl⟩
      · exact Or.inr ⟨ht, List.append_nil _⟩
    keeps := hkeeps }

theorem loads_discover {first : Event} {steps : List Step} {closing : List Event}
    {result : Except Error Plugins} (h : Loads l [] cs steps closing result)
    (hw : Agrees w (steps.flatMap Step.log)) (hfirst : starts [first] = []) :
    Discovers w l cs result (first :: (steps.flatMap Step.log ++ closing)) := by
  have hlog : starts (first :: (steps.flatMap Step.log ++ closing)) =
      starts (steps.flatMap Step.log) := by
    rw [← List.singleton_append, starts_append, starts_append, hfirst, starts_closing h,
      List.nil_append, List.append_nil]
  have hkeeps : Keeps l cs result (first :: (steps.flatMap Step.log ++ closing)) :=
    ⟨first, steps, closing, rfl, h, (loads_keep h).2⟩
  have houtcome := loads_settle h hw List.Pairwise.nil
  rw [← hlog] at houtcome
  generalize hstarts : starts (first :: (steps.flatMap Step.log ++ closing)) = started
    at houtcome
  cases houtcome with
  | @registers _ ps plugins hps hp hl =>
    rw [List.append_nil] at hp
    have hn := (hp.map (·.1)).nodup_iff.mp (nodup_of_ascending hl)
    rw [List.map_map] at hn
    exact discovers_of_registers (registers_of_perm hps hp hl) (allSettle_iff.mpr ⟨ps, hps, hn⟩)
      hstarts hkeeps
  | @ends before after c ps e last hps hn hc hlast =>
    rw [List.append_nil, List.map_map] at hn
    rw [List.append_nil] at hc
    exact discovers_of_endsAt ⟨⟨after, rfl⟩, allSettle_iff.mpr ⟨ps, hps, hn⟩,
      refuses_of_clash hps hc⟩ hstarts hlast hkeeps

theorem discovers_listed (hlocation : l.location ≠ "") {entries : List Entry}
    (hlist : w (.list l.location) = .ok entries) :
    Discovers w l (Candidate.ofEntries l.location entries) (play w l.discover).1
      (play w l.discover).2 := by
  have hw := play_agrees w l.discover
  obtain ⟨hempty, -⟩ | ⟨-, ⟨e, hlog, -⟩ | ⟨entries', steps, closing, hlog, hs⟩⟩ :=
    runs_discover (play_runs w l.discover)
  · exact absurd hempty hlocation
  · rw [hlog, agrees_cons] at hw
    cases hw.1.trans hlist
  · rw [hlog, agrees_cons] at hw
    cases hw.1.trans hlist
    rw [hlog]
    exact loads_discover hs (agrees_append.mp hw.2).1 rfl

theorem discover_unlisted (hlocation : l.location ≠ "") {e : SystemError}
    (hlist : w (.list l.location) = .error e) :
    play w l.discover = (.error (.io e.text), [⟨.list l.location, .error e⟩]) := by
  have hw := play_agrees w l.discover
  obtain ⟨hempty, -⟩ | ⟨-, ⟨e', hlog, hresult⟩ | ⟨entries, steps, closing, hlog, -⟩⟩ :=
    runs_discover (play_runs w l.discover)
  · exact absurd hempty hlocation
  · rw [hlog, agrees_cons] at hw
    cases hw.1.trans hlist
    exact Prod.ext hresult hlog
  · rw [hlog, agrees_cons] at hw
    cases hw.1.trans hlist

theorem discover_nowhere (hlocation : l.location = "") :
    play w l.discover = (.error .notInitialized, []) := by
  obtain ⟨-, hlog, hresult⟩ | ⟨hno, -⟩ := runs_discover (play_runs w l.discover)
  · exact Prod.ext hresult hlog
  · exact absurd hlocation hno

/-- Without a directory that can be listed nothing is done; otherwise the plugins of the directory
are loaded in the order of their paths, and the load succeeds iff they all settle. The worlds stand
for all that the files can do. -/
theorem discover_settles (l : Loader) :
    (∀ log result, Runs l.discover log result →
      (∀ entries, ⟨.list l.location, .ok entries⟩ ∈ log → (entries.map (·.name)).Nodup) →
      ∃ w, play w l.discover = (result, log)) ∧
    ∀ w : World,
      (l.location = "" → play w l.discover = (.error .notInitialized, [])) ∧
      (l.location ≠ "" → ∀ e, w (.list l.location) = .error e →
        play w l.discover = (.error (.io e.text), [⟨.list l.location, .error e⟩])) ∧
      (l.location ≠ "" → ∀ entries, w (.list l.location) = .ok entries →
        (∀ c, c ∈ Candidate.ofEntries l.location entries ↔
          ∃ e ∈ entries, IsCandidate l.location e c) ∧
        ((entries.map (·.name)).Nodup →
          (Candidate.ofEntries l.location entries).Pairwise fun a b => a.path < b.path) ∧
        Discovers w l (Candidate.ofEntries l.location entries) (play w l.discover).1
          (play w l.discover).2) := by
  constructor
  · intro log result h hn
    obtain ⟨w, hw⟩ := discover_agrees h hn
    exact ⟨w, play_eq_of_runs h hw⟩
  · intro w
    exact ⟨discover_nowhere, fun hlocation _ => discover_unlisted hlocation,
      fun hlocation _ hlist => ⟨fun _ => mem_ofEntries_iff, ofEntries_ascending,
        discovers_listed hlocation hlist⟩⟩

/-- Among the plugins of this directory are one that ends at once and two that share a name. -/
def crowd : List Entry :=
  [⟨"c.plugin", true⟩, ⟨"README", true⟩, ⟨"a.plugin", true⟩, ⟨"b.plugin", true⟩]

def crowded : World
  | .list _ => .ok crowd
  | .read _ => .ok []
  | .start _ => .ok ()
  | .greet path _ =>
    if path = "p/a.plugin" then .ended else .frame (.line "1|1|subattester|jsonrpc")
  | .identify _ => ⟨⟨true, ""⟩, some ⟨"tsm", "1"⟩⟩
  | .stop _ => ()

theorem candidates_crowd : Candidate.ofEntries "p" crowd =
    [⟨"a.plugin", "a", "p/a.plugin"⟩, ⟨"b.plugin", "b", "p/b.plugin"⟩,
      ⟨"c.plugin", "c", "p/c.plugin"⟩] := by
  have hfiles : crowd.filterMap (Candidate.ofEntry? "p") =
      [⟨"c.plugin", "c", "p/c.plugin"⟩, ⟨"a.plugin", "a", "p/a.plugin"⟩,
        ⟨"b.plugin", "b", "p/b.plugin"⟩] := by decide +kernel
  rw [Candidate.ofEntries, hfiles]
  simp [List.mergeSort, List.MergeSort.Internal.splitInTwo]

theorem discover_crowd : (play crowded (Loader.ofLocation "p").discover).1 =
    .error (.duplicateName "tsm" "p/b.plugin" "p/c.plugin") := by
  have hload : (play crowded (Loader.ofLocation "p").discover).1 =
    (play crowded ((Loader.ofLocation "p").loadAll [] (Candidate.ofEntries "p" crowd))).1 := rfl
  rw [hload, candidates_crowd]
  decide +kernel

theorem discover_settles_crowd :
    (Loader.ofLocation "p").location ≠ "" ∧ crowded (.list "p") = .ok crowd ∧
      (crowd.map (·.name)).Nodup ∧
      ((Candidate.ofEntries "p" crowd).Pairwise fun a b => a.path < b.path) ∧
      Discovers crowded (.ofLocation "p") (Candidate.ofEntries "p" crowd)
        (.error (.duplicateName "tsm" "p/b.plugin" "p/c.plugin"))
        (play crowded (Loader.ofLocation "p").discover).2 := by
  have hn : (crowd.map (·.name)).Nodup := by decide
  obtain ⟨-, horder, hdiscovers⟩ := ((discover_settles (.ofLocation "p")).2 crowded).2.2
    (by decide) crowd rfl
  rw [discover_crowd] at hdiscovers
  exact ⟨by decide, rfl, hn, horder hn, hdiscovers⟩

end directories

end Attestation.Proofs.Discovery
