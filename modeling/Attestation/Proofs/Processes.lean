import Attestation.Proofs.Discovery

namespace Attestation.Proofs.Processes

open Plugin Worlds Loading Trials Tables Discovery

section accounting

def aliveAfter (live : List String) (e : Event) : Option (List String) :=
  match e with
  | ⟨.start path, .ok _⟩ => some (path :: live)
  | ⟨.stop path, _⟩ => if path ∈ live then some (live.erase path) else none
  | _ => some live

def alive (live : List String) (log : List Event) : Option (List String) :=
  log.foldlM aliveAfter live

variable {live : List String}

theorem alive_append (log more : List Event) :
    alive live (log ++ more) = (alive live log).bind (alive · more) := List.foldlM_append

theorem alive_trans {live' live'' : List String} {log more : List Event}
    (h : alive live log = some live') (h' : alive live' more = some live'') :
    alive live (log ++ more) = some live'' := by
  rw [alive_append, h]
  exact h'

theorem alive_stops {paths : List String} (h : live.Perm paths) :
    alive live (paths.map stopped) = some [] := by
  induction paths generalizing live with
  | nil =>
    obtain rfl := h.eq_nil
    rfl
  | cons path paths ih =>
    have hmem : path ∈ live := h.mem_iff.mpr List.mem_cons_self
    have hrest : (live.erase path).Perm paths := by
      simpa using h.erase path
    have hstop : alive live [stopped path] = some (live.erase path) := by
      simp [alive, stopped, aliveAfter, hmem]
    exact alive_trans hstop (ih hrest)

end accounting

section steps

variable {l : Loader} {loaded : Plugins} {c : Candidate} {log : List Event} {live : List String}

theorem alive_approval {result : Except Error Unit} (h : Approval l c log result) :
    alive live log = some live := by
  cases h <;> rfl

theorem alive_introduction (g : Greeting) :
    alive live (introduction l c g) = some (c.path :: live) := rfl

theorem alive_stop (path : String) : alive (path :: live) [⟨.stop path, ()⟩] = some live := by
  simp [alive, aliveAfter]

theorem attempt_registered {p : Loaded} (h : Attempt l loaded c log (.ok p)) :
    alive live log = some (p.path :: live) := by
  cases h with
  | registered h _ _ _ => exact alive_trans (alive_approval h) rfl

theorem attempt_released {e : Error} (h : Attempt l loaded c log (.error e)) :
    alive live log = some live := by
  cases h with
  | refused h => exact alive_approval h
  | spawn h => exact alive_trans (alive_approval h) rfl
  | greeting h _ | identity h _ _ | duplicate h _ _ _ =>
    exact alive_trans (alive_approval h)
      (alive_trans (alive_introduction _) (alive_stop c.path))

end steps

section loads

variable {l : Loader} {loaded : Plugins} {cs : List Candidate} {steps : List Step}
  {closing : List Event} {result : Except Error Plugins} {live : List String}

def paths (plugins : Plugins) : List String := plugins.map (·.2.path)

/-- What is alive when a step returns: the process of the plugin that it registers, beside what was
alive before it. -/
inductive Returns (live : List String) (s : Step) : List String → Prop
  | registered {p : Loaded} (h : s.outcome = .ok p) (hp : p.path = s.candidate.path)
      (hlog : alive live s.log = some (p.path :: live)) : Returns live s (p.path :: live)
  | unregistered {e : Error} (h : s.outcome = .error e) (hlog : alive live s.log = some live) :
      Returns live s live

/-- Before each step the plugins that are registered are alive and nothing else is, and the step
keeps it so. -/
inductive Balanced (l : Loader) : List String → List Step → Prop
  | nil (live : List String) : Balanced l live []
  | cons {live live' : List String} {s : Step} {steps : List Step}
      (hrun : Runs (l.loadOne s.loaded s.candidate).run s.log s.outcome)
      (hlive : live.Perm (paths s.loaded)) (hs : Returns live s live')
      (h : Balanced l live' steps) : Balanced l live (s :: steps)

theorem paths_insert {p : Loaded} (h : Table.find? loaded p.identity.name = none) :
    (paths (Table.insert p.identity.name p loaded)).Perm (p.path :: paths loaded) :=
  (insert_perm h).map _

/-- What is alive when a load has come to its end. -/
inductive Remains : Except Error Plugins → List String → Prop
  | ok {plugins : Plugins} {live : List String} (h : live.Perm (paths plugins)) :
      Remains (.ok plugins) live
  | error (e : Error) : Remains (.error e) []

theorem loads_balanced (h : Loads l loaded cs steps closing result)
    (hlive : live.Perm (paths loaded)) : Balanced l live steps ∧
      ∃ live', alive live (steps.flatMap Step.log ++ closing) = some live' ∧
        Remains result live' := by
  -- What is alive goes by what is registered, up to the order: the last one started is in front.
  induction h generalizing live with
  | finished loaded => exact ⟨.nil live, live, rfl, .ok hlive⟩
  | @registered loaded c cs log closing p steps result h hs ih =>
    have hlog : alive live log = some (p.path :: live) := attempt_registered (runs_loadOne h)
    obtain ⟨hpath, hnew⟩ := attempt_new (runs_loadOne h)
    have hmore : (p.path :: live).Perm (paths (Table.insert p.identity.name p loaded)) :=
      (hlive.cons p.path).trans (paths_insert hnew).symm
    obtain ⟨hbalanced, live', hlater, hremains⟩ := ih hmore
    refine ⟨.cons h hlive (.registered rfl hpath hlog) hbalanced, live', ?_, hremains⟩
    rw [List.flatMap_cons, List.append_assoc]
    exact alive_trans hlog hlater
  | @skipped loaded c cs log closing text steps result h hs ih =>
    have hlog : alive live log = some live := attempt_released (runs_loadOne h)
    obtain ⟨hbalanced, live', hlater, hremains⟩ := ih hlive
    refine ⟨.cons h hlive (.unregistered rfl hlog) hbalanced, live', ?_, hremains⟩
    rw [List.flatMap_cons, List.append_assoc]
    exact alive_trans hlog hlater
  | @failed loaded c cs log e h he =>
    have hlog : alive live log = some live := attempt_released (runs_loadOne h)
    refine ⟨.cons h hlive (.unregistered rfl hlog) (.nil _), [], ?_, .error _⟩
    have hstops := alive_stops hlive
    rw [paths, List.map_map] at hstops
    rw [List.flatMap_singleton]
    exact alive_trans hlog hstops

/-- The processes of a load: those that it has started in its steps, one for each registered plugin
when a step returns, and those that are alive at its end. -/
structure Reclaims (l : Loader) (log : List Event) (result : Except Error Plugins) : Prop where
  steps : ∃ opening steps closing, log = opening ++ (steps.flatMap Step.log ++ closing) ∧
    alive [] opening = some [] ∧ starts opening = [] ∧ starts closing = [] ∧ Balanced l [] steps
  remains : ∃ live, alive [] log = some live ∧ Remains result live

theorem discover_reclaims {log : List Event} (h : Runs l.discover log result) :
    Reclaims l log result := by
  obtain ⟨-, rfl, rfl⟩ | ⟨-, ⟨e, rfl, rfl⟩ | ⟨entries, steps, closing, rfl, hs⟩⟩ := runs_discover h
  · exact ⟨⟨[], [], [], rfl, rfl, rfl, rfl, .nil []⟩, [], rfl, .error _⟩
  · exact ⟨⟨[_], [], [], rfl, rfl, rfl, rfl, .nil []⟩, [], rfl, .error _⟩
  · obtain ⟨hbalanced, live, hlive, hremains⟩ := loads_balanced hs (List.Perm.refl [])
    exact ⟨⟨[_], steps, closing, rfl, rfl, rfl, starts_closing hs, hbalanced⟩, live,
      hlive, hremains⟩

end loads

section uses

inductive Use where
  | close
  | lookup (name : String)

/-- Uses of the plugins, one after the other, with the answers to the look-ups. -/
def serve (m : Manager) : List Use → Load (List (Except Error Loaded) × Manager)
  | [] => return ([], m)
  | .close :: uses => do serve (← m.close) uses
  | .lookup name :: uses => do
    let (answers, m') ← serve m uses
    return (m.lookup name :: answers, m')

def lookups (uses : List Use) : List String :=
  uses.filterMap fun
    | .close => none
    | .lookup name => some name

variable {plugins : Plugins} {uses : List Use} {log : List Event}
  {answers : List (Except Error Loaded)} {m m' : Manager}

/-- The plugins after uses: what is registered, and which of them have been closed. -/
structure Serves (plugins : Plugins) (uses : List Use) (log : List Event)
    (answers : List (Except Error Loaded)) (m : Manager) : Prop where
  names : m.names = (Manager.ofPlugins plugins).names
  lookup : ∀ name, m.lookup name = (Manager.ofPlugins plugins).lookup name
  answers : answers = (lookups uses).map (Manager.ofPlugins plugins).lookup
  closed : .close ∈ uses → ∃ killed : List String, killed.Perm (paths plugins) ∧
    log = killed.map stopped
  running : .close ∉ uses → log = []

theorem runs_lookup {name : String} (h : Runs (serve m (.lookup name :: uses)) log (answers, m')) :
    ∃ rest, answers = m.lookup name :: rest ∧ Runs (serve m uses) log (rest, m') := by
  obtain ⟨⟨rest, m''⟩, log₁, log₂, rfl, hrest, hdone⟩ := runs_bind_iff.mp h
  obtain ⟨rfl, heq⟩ := runs_done_iff.mp hdone
  cases heq
  rw [List.append_nil]
  exact ⟨rest, rfl, hrest⟩

theorem runs_serve_closed (hm : m.running = []) (h : Runs (serve m uses) log (answers, m')) :
    log = [] ∧ m' = m ∧ answers = (lookups uses).map m.lookup := by
  induction uses generalizing log answers with
  | nil =>
    obtain ⟨rfl, heq⟩ := runs_done_iff.mp h
    cases heq
    exact ⟨rfl, rfl, rfl⟩
  | cons use uses ih =>
    cases use with
    | close =>
      obtain ⟨m₁, log₁, log₂, rfl, hclose, hrest⟩ := runs_bind_iff.mp h
      obtain ⟨rfl, rfl⟩ := runs_close_idle hm hclose
      exact ih hrest
    | lookup name =>
      obtain ⟨rest, rfl, hrest⟩ := runs_lookup h
      obtain ⟨rfl, rfl, rfl⟩ := ih hrest
      exact ⟨rfl, rfl, rfl⟩

theorem runs_serve (h : Runs (serve (Manager.ofPlugins plugins) uses) log (answers, m)) :
    Serves plugins uses log answers m := by
  induction uses generalizing log answers with
  | nil =>
    obtain ⟨rfl, heq⟩ := runs_done_iff.mp h
    cases heq
    exact ⟨rfl, fun _ => rfl, rfl, nofun, fun _ => rfl⟩
  | cons use uses ih =>
    cases use with
    | close =>
      obtain ⟨m₁, log₁, log₂, rfl, hclose, hrest⟩ := runs_bind_iff.mp h
      obtain ⟨rfl, rfl⟩ := runs_close_running rfl hclose
      obtain ⟨rfl, rfl, rfl⟩ := runs_serve_closed rfl hrest
      rw [List.append_nil]
      exact ⟨rfl, fun _ => rfl, rfl, fun _ => ⟨_, List.Perm.refl _, rfl⟩,
        fun hno => absurd List.mem_cons_self hno⟩
    | lookup name =>
      obtain ⟨rest, rfl, hrest⟩ := runs_lookup h
      have hserves := ih hrest
      have hclose : .close ∈ Use.lookup name :: uses ↔ .close ∈ uses := by simp
      exact ⟨hserves.names, hserves.lookup, congrArg (_ :: ·) hserves.answers,
        fun hmem => hserves.closed (hclose.mp hmem),
        fun hno => hserves.running fun hmem => hno (hclose.mpr hmem)⟩

end uses

/-- No process is left behind: when a step of a load returns, only the plugins that are registered
are alive, and behind a load that fails none is. Closing, once or more and among look-ups, kills
each plugin once and leaves the registry as it is. -/
theorem no_process_left (l : Loader) :
    (∀ log result, Runs l.discover log result → Reclaims l log result) ∧
    ∀ log plugins uses log' answers m, Runs l.discover log (.ok plugins) →
      Runs (serve (Manager.ofPlugins plugins) uses) log' (answers, m) →
      Serves plugins uses log' answers m ∧
        (.close ∈ uses → alive [] (log ++ log') = some []) := by
  refine ⟨fun log result => discover_reclaims, ?_⟩
  intro log plugins uses log' answers m h hserve
  have hserves := runs_serve hserve
  refine ⟨hserves, fun hclose => ?_⟩
  obtain ⟨live, hlive, hremains⟩ := (discover_reclaims h).remains
  obtain ⟨killed, hkilled, rfl⟩ := hserves.closed hclose
  cases hremains with
  | ok hperm => exact alive_trans hlive (alive_stops (hperm.trans hkilled.symm))

/-- The plugins of the directory with names of their own. -/
def peaceful : World
  | .identify path => ⟨⟨true, ""⟩, some ⟨path, "1"⟩⟩
  | a => crowded a

def pair : Plugins :=
  [("p/b.plugin", ⟨"p/b.plugin", ⟨"p/b.plugin", "1"⟩⟩),
    ("p/c.plugin", ⟨"p/c.plugin", ⟨"p/c.plugin", "1"⟩⟩)]

theorem peaceful_pair : (play peaceful (Loader.ofLocation "p").discover).1 = .ok pair := by
  have hload : (play peaceful (Loader.ofLocation "p").discover).1 =
    (play peaceful ((Loader.ofLocation "p").loadAll [] (Candidate.ofEntries "p" crowd))).1 := rfl
  rw [hload, candidates_crowd]
  decide

theorem no_process_left_pair :
    Reclaims (.ofLocation "p") (play crowded (Loader.ofLocation "p").discover).2
      (.error (.duplicateName "tsm" "p/b.plugin" "p/c.plugin")) ∧
    Runs (Loader.ofLocation "p").discover (play peaceful (Loader.ofLocation "p").discover).2
      (.ok pair) ∧
    ∃ log answers m, Runs (serve (Manager.ofPlugins pair) [.close, .lookup "p/b.plugin", .close])
        log (answers, m) ∧
      Serves pair [.close, .lookup "p/b.plugin", .close] log answers m ∧
      alive [] ((play peaceful (Loader.ofLocation "p").discover).2 ++ log) = some [] := by
  obtain ⟨hreclaims, hserves⟩ := no_process_left (.ofLocation "p")
  have hfails := play_runs crowded (Loader.ofLocation "p").discover
  rw [discover_crowd] at hfails
  have hloads := play_runs peaceful (Loader.ofLocation "p").discover
  rw [peaceful_pair] at hloads
  have huses := play_runs peaceful
    (serve (Manager.ofPlugins pair) [.close, .lookup "p/b.plugin", .close])
  obtain ⟨hserve, hclosed⟩ := hserves _ _ _ _ _ _ hloads huses
  exact ⟨hreclaims _ _ hfails, hloads, _, _, _, huses, hserve, hclosed List.mem_cons_self⟩

end Attestation.Proofs.Processes
