import Attestation.Plugin.Loader
import Attestation.Proofs.Worlds

namespace Attestation.Proofs.Loading

open Plugin Worlds

abbrev Event := Worlds.Event Action.Reply

variable {l : Loader} {loaded : Plugins} {c : Candidate} {log : List Event}

inductive Approval (l : Loader) (c : Candidate) : List Event → Except Error Unit → Prop
  | plain (h : l.checksums = none) : Approval l c [] (.ok ())
  | unregistered {table : Checksums} (h : l.checksums = some table)
      (hf : Table.find? table c.stem = none) :
      Approval l c [] (.error (.unregistered c.stem c.path))
  | unreadable {table : Checksums} {digest : List UInt8} {e : SystemError}
      (h : l.checksums = some table) (hf : Table.find? table c.stem = some digest) :
      Approval l c [⟨.read c.path, .error e⟩] (.error (.io e.text))
  | mismatch {table : Checksums} {digest content : List UInt8} (h : l.checksums = some table)
      (hf : Table.find? table c.stem = some digest) (hd : Sha256.hash content ≠ digest) :
      Approval l c [⟨.read c.path, .ok content⟩] (.error (.checksumMismatch c.stem c.path))
  | trusted {table : Checksums} {digest content : List UInt8} (h : l.checksums = some table)
      (hf : Table.find? table c.stem = some digest) (hd : Sha256.hash content = digest) :
      Approval l c [⟨.read c.path, .ok content⟩] (.ok ())

theorem runs_approve {result : Except Error Unit} (h : Runs (l.approve c).run log result) :
    Approval l c log result := by
  unfold Loader.approve at h
  split at h
  · rename_i hsecure
    obtain ⟨rfl, rfl⟩ := runs_done_iff.mp h
    exact .plain hsecure
  · rename_i table hsecure
    split at h
    · rename_i hf
      obtain ⟨rfl, rfl⟩ := runs_done_iff.mp h
      exact .unregistered hsecure hf
    · rename_i digest hf
      obtain ⟨r, rest, rfl, hnext⟩ := runs_ask_iff.mp h
      cases r with
      | error e =>
        obtain ⟨rfl, rfl⟩ := runs_done_iff.mp hnext
        exact .unreadable hsecure hf
      | ok content =>
        obtain ⟨rfl, rfl⟩ := runs_done_iff.mp hnext
        by_cases hd : Sha256.hash content = digest
        · have hcheck : table.check c.stem c.path content = .ok () := by
            simp only [Checksums.check, hf, if_pos hd]
          exact hcheck ▸ .trusted hsecure hf hd
        · have hcheck : table.check c.stem c.path content =
              .error (.checksumMismatch c.stem c.path) := by
            simp only [Checksums.check, hf, if_neg hd]
          exact hcheck ▸ .mismatch hsecure hf hd

theorem runs_request {a : Action} {result : Except Error a.Reply}
    (h : Runs (request a).run log result) : ∃ r, log = [⟨a, r⟩] ∧ result = .ok r := by
  obtain ⟨r, rest, rfl, hnext⟩ := runs_ask_iff.mp h
  obtain ⟨rfl, rfl⟩ := runs_done_iff.mp hnext
  exact ⟨r, rfl, rfl⟩

theorem runs_request_bind {α : Type} {a : Action} {f : a.Reply → Stage α} {result : Except Error α}
    (h : Runs (request a >>= f).run log result) :
    ∃ r rest, log = ⟨a, r⟩ :: rest ∧ Runs (f r).run rest result := by
  obtain ⟨e, rfl, hask⟩ | ⟨r, log₁, log₂, rfl, hask, hnext⟩ := runs_part_bind_iff.mp h
  · obtain ⟨r, -, hr⟩ := runs_request hask
    cases hr
  · obtain ⟨r', rfl, hr⟩ := runs_request hask
    cases hr
    exact ⟨r, log₂, rfl, hnext⟩

theorem runs_orStop {α : Type} {path : String} {x result : Except Error α}
    (h : Runs (Loader.orStop path x).run log result) :
    result = x ∧
      ((∃ a, x = .ok a) ∧ log = [] ∨ (∃ e, x = .error e) ∧ log = [⟨.stop path, ()⟩]) := by
  cases x with
  | ok a =>
    obtain ⟨rfl, rfl⟩ := runs_done_iff.mp h
    exact ⟨rfl, Or.inl ⟨⟨a, rfl⟩, rfl⟩⟩
  | error e =>
    obtain ⟨r, rest, rfl, hnext⟩ := runs_ask_iff.mp h
    obtain ⟨rfl, rfl⟩ := runs_done_iff.mp hnext
    exact ⟨rfl, Or.inr ⟨⟨e, rfl⟩, rfl⟩⟩

theorem runs_orStop_bind {α β : Type} {path : String} {x : Except Error α} {f : α → Stage β}
    {result : Except Error β} (h : Runs (Loader.orStop path x >>= f).run log result) :
    (∃ e, x = .error e ∧ result = .error e ∧ log = [⟨.stop path, ()⟩]) ∨
      ∃ a, x = .ok a ∧ Runs (f a).run log result := by
  obtain ⟨e, rfl, hstop⟩ | ⟨a, log₁, log₂, rfl, hgo, hnext⟩ := runs_part_bind_iff.mp h
  · obtain ⟨he, ⟨⟨a, ha⟩, -⟩ | ⟨-, rfl⟩⟩ := runs_orStop hstop
    · cases he.trans ha
    · exact Or.inl ⟨e, he.symm, rfl, rfl⟩
  · obtain ⟨ha, ⟨-, rfl⟩ | ⟨⟨e, he⟩, -⟩⟩ := runs_orStop hgo
    · exact Or.inr ⟨a, ha.symm, hnext⟩
    · cases ha.trans he

def introduction (l : Loader) (c : Candidate) (g : Greeting) : List Event :=
  [⟨.start c.path, .ok ()⟩, ⟨.greet c.path l.handshakeTimeout, g⟩]

/-- How one step of a load ends, beside the plugins that are loaded. -/
inductive Attempt (l : Loader) (loaded : Plugins) (c : Candidate) :
    List Event → Except Error Loaded → Prop
  | refused {log : List Event} {e : Error} (h : Approval l c log (.error e)) :
      Attempt l loaded c log (.error e)
  | spawn {log : List Event} {e : SystemError} (h : Approval l c log (.ok ())) :
      Attempt l loaded c (log ++ [⟨.start c.path, .error e⟩]) (.error (.spawn c.path e.text))
  | greeting {log : List Event} {g : Greeting} {e : Error} (h : Approval l c log (.ok ()))
      (hg : g.check c.path = .error e) :
      Attempt l loaded c (log ++ (introduction l c g ++ [⟨.stop c.path, ()⟩])) (.error e)
  | identity {log : List Event} {g : Greeting} {a : IdentityAnswer} {e : Error}
      (h : Approval l c log (.ok ())) (hg : g.check c.path = .ok ())
      (ha : Loader.identityOf c.path a = .error e) :
      Attempt l loaded c
        (log ++ (introduction l c g ++ [⟨.identify c.path, a⟩, ⟨.stop c.path, ()⟩]))
        (.error e)
  | duplicate {log : List Event} {g : Greeting} {a : IdentityAnswer} {i : Identity}
      {first : Loaded} (h : Approval l c log (.ok ())) (hg : g.check c.path = .ok ())
      (ha : Loader.identityOf c.path a = .ok i) (hf : Table.find? loaded i.name = some first) :
      Attempt l loaded c
        (log ++ (introduction l c g ++ [⟨.identify c.path, a⟩, ⟨.stop c.path, ()⟩]))
        (.error (.duplicateName i.name first.path c.path))
  | registered {log : List Event} {g : Greeting} {a : IdentityAnswer} {i : Identity}
      (h : Approval l c log (.ok ())) (hg : g.check c.path = .ok ())
      (ha : Loader.identityOf c.path a = .ok i) (hf : Table.find? loaded i.name = none) :
      Attempt l loaded c (log ++ (introduction l c g ++ [⟨.identify c.path, a⟩])) (.ok ⟨c.path, i⟩)

theorem runs_loadOne {result : Except Error Loaded}
    (h : Runs (l.loadOne loaded c).run log result) : Attempt l loaded c log result := by
  obtain ⟨e, rfl, hrefused⟩ | ⟨u, log, more, rfl, happroved, hnext⟩ := runs_part_bind_iff.mp h
  · exact .refused (runs_approve hrefused)
  have happroval := runs_approve happroved
  obtain ⟨started, more, rfl, hstart⟩ := runs_request_bind hnext
  cases started with
  | error e =>
    obtain ⟨rfl, rfl⟩ := runs_done_iff.mp hstart
    exact .spawn happroval
  | ok u =>
    obtain ⟨g, more, rfl, hgreet⟩ := runs_request_bind hstart
    obtain ⟨e, hg, rfl, rfl⟩ | ⟨u, hg, hidentify⟩ := runs_orStop_bind hgreet
    · exact .greeting happroval hg
    obtain ⟨a, more, rfl, hanswer⟩ := runs_request_bind hidentify
    obtain ⟨e, ha, rfl, rfl⟩ | ⟨i, ha, hunique⟩ := runs_orStop_bind hanswer
    · exact .identity happroval hg ha
    obtain ⟨rfl, hlog⟩ := runs_orStop hunique
    cases hf : Table.find? loaded i.name with
    | some first =>
      simp only [Loader.unique, hf] at hlog ⊢
      obtain ⟨⟨p, hp⟩, -⟩ | ⟨-, rfl⟩ := hlog
      · cases hp
      · exact .duplicate happroval hg ha hf
    | none =>
      simp only [Loader.unique, hf] at hlog ⊢
      obtain ⟨-, rfl⟩ | ⟨⟨e, he⟩, -⟩ := hlog
      · exact .registered happroval hg ha hf
      · cases he

def subject : Action → String
  | .list path | .read path | .start path | .greet path _ | .identify path | .stop path => path

theorem attempt_subject {result : Except Error Loaded} (h : Attempt l loaded c log result)
    {e : Event} (he : e ∈ log) : subject e.question = c.path ∧ ∀ path, e.question ≠ .list path := by
  cases h with
  | refused h => cases h <;> grind [subject]
  | spawn h | greeting h _ | identity h _ _ | duplicate h _ _ _ | registered h _ _ _ =>
    cases h <;> grind [subject, introduction]

/-- A step puts no question twice. -/
theorem attempt_consistent {result : Except Error Loaded} (h : Attempt l loaded c log result) :
    Consistent log := by
  intro e he e' he' heq
  cases h with
  | refused h => cases h <;> grind
  | spawn h | greeting h _ | identity h _ _ | duplicate h _ _ _ | registered h _ _ _ =>
    cases h <;> grind [introduction]

theorem attempt_new {p : Loaded} (h : Attempt l loaded c log (.ok p)) :
    p.path = c.path ∧ Table.find? loaded p.identity.name = none := by
  cases h with
  | registered _ _ _ hf => exact ⟨rfl, hf⟩

def stopped (path : String) : Event := ⟨.stop path, ()⟩

theorem eq_stopped {e : Event} {path : String} (h : e.question = .stop path) :
    e = stopped path := by
  cases e
  cases h
  rfl

theorem runs_close_running {m : Manager} {paths : List String} (hm : m.running = paths)
    {m' : Manager} (h : Runs (paths.foldlM Manager.shutdown m) log m') :
    log = paths.map stopped ∧ m' = { m with running := [] } := by
  induction paths generalizing m log with
  | nil =>
    obtain ⟨rfl, rfl⟩ := runs_done_iff.mp h
    exact ⟨rfl, hm ▸ rfl⟩
  | cons path paths ih =>
    rw [List.foldlM_cons] at h
    obtain ⟨m₁, log₁, log₂, rfl, hstop, hrest⟩ := runs_bind_iff.mp h
    rw [Manager.shutdown, if_pos (hm ▸ List.mem_cons_self)] at hstop
    obtain ⟨u, rest, rfl, hnext⟩ := runs_ask_iff.mp hstop
    obtain ⟨rfl, rfl⟩ := runs_done_iff.mp hnext
    have herase : m.running.erase path = paths := by rw [hm, List.erase_cons_head]
    obtain ⟨rfl, rfl⟩ := ih herase hrest
    exact ⟨rfl, rfl⟩

theorem runs_close_idle {m : Manager} {paths : List String} (hm : m.running = []) {m' : Manager}
    (h : Runs (paths.foldlM Manager.shutdown m) log m') : log = [] ∧ m' = m := by
  induction paths generalizing log with
  | nil =>
    obtain ⟨rfl, rfl⟩ := runs_done_iff.mp h
    exact ⟨rfl, rfl⟩
  | cons path paths ih =>
    rw [List.foldlM_cons] at h
    obtain ⟨m₁, log₁, log₂, rfl, hstop, hrest⟩ := runs_bind_iff.mp h
    rw [Manager.shutdown, if_neg (hm ▸ List.not_mem_nil)] at hstop
    obtain ⟨rfl, rfl⟩ := runs_done_iff.mp hstop
    exact ih hrest

structure Step where
  loaded : Plugins
  candidate : Candidate
  log : List Event
  outcome : Except Error Loaded

/-- The steps of a load, what it does behind them, and its result. -/
inductive Loads (l : Loader) :
    Plugins → List Candidate → List Step → List Event → Except Error Plugins → Prop
  | finished (loaded : Plugins) : Loads l loaded [] [] [] (.ok loaded)
  | registered {loaded : Plugins} {c : Candidate} {cs : List Candidate} {log closing : List Event}
      {p : Loaded} {steps : List Step} {result : Except Error Plugins}
      (h : Runs (l.loadOne loaded c).run log (.ok p))
      (hs : Loads l (Table.insert p.identity.name p loaded) cs steps closing result) :
      Loads l loaded (c :: cs) (⟨loaded, c, log, .ok p⟩ :: steps) closing result
  | skipped {loaded : Plugins} {c : Candidate} {cs : List Candidate} {log closing : List Event}
      {text : String} {steps : List Step} {result : Except Error Plugins}
      (h : Runs (l.loadOne loaded c).run log (.error (.unknownPlugin text)))
      (hs : Loads l loaded cs steps closing result) :
      Loads l loaded (c :: cs) (⟨loaded, c, log, .error (.unknownPlugin text)⟩ :: steps) closing
        result
  | failed {loaded : Plugins} {c : Candidate} {cs : List Candidate} {log : List Event} {e : Error}
      (h : Runs (l.loadOne loaded c).run log (.error e)) (he : ∀ text, e ≠ .unknownPlugin text) :
      Loads l loaded (c :: cs) [⟨loaded, c, log, .error e⟩]
        (loaded.map fun m => stopped m.2.path) (.error e)

theorem runs_loadAll {cs : List Candidate} {result : Except Error Plugins}
    (h : Runs (l.loadAll loaded cs) log result) :
    ∃ steps closing, log = steps.flatMap Step.log ++ closing ∧
      Loads l loaded cs steps closing result := by
  induction cs generalizing loaded log with
  | nil =>
    obtain ⟨rfl, rfl⟩ := runs_done_iff.mp h
    exact ⟨[], [], rfl, .finished loaded⟩
  | cons c cs ih =>
    obtain ⟨outcome, log₁, log₂, rfl, hone, hrest⟩ := runs_bind_iff.mp h
    have hpast : ∀ {loaded' : Plugins}, Runs (l.loadAll loaded' cs) log₂ result →
        ∃ steps closing, log₁ ++ log₂ =
          (⟨loaded, c, log₁, outcome⟩ :: steps).flatMap Step.log ++ closing ∧
          Loads l loaded' cs steps closing result := by
      intro loaded' hrest
      obtain ⟨steps, closing, rfl, hs⟩ := ih hrest
      exact ⟨steps, closing, by simp, hs⟩
    split at hrest
    · obtain ⟨steps, closing, hlog, hs⟩ := hpast hrest
      exact ⟨_, closing, hlog, .registered hone hs⟩
    · obtain ⟨steps, closing, hlog, hs⟩ := hpast hrest
      exact ⟨_, closing, hlog, .skipped hone hs⟩
    · rename_i e he
      obtain ⟨m, log₃, log₄, rfl, hclose, hend⟩ := runs_bind_iff.mp hrest
      obtain ⟨rfl, rfl⟩ := runs_done_iff.mp hend
      obtain ⟨rfl, -⟩ := runs_close_running rfl hclose
      refine ⟨_, _, ?_, .failed hone fun text ht => he text (ht ▸ rfl)⟩
      simp [Manager.ofPlugins, Function.comp_def]

theorem runs_discover {result : Except Error Plugins} (h : Runs l.discover log result) :
    (l.location = "" ∧ log = [] ∧ result = .error .notInitialized) ∨
      l.location ≠ "" ∧
        ((∃ e, log = [⟨.list l.location, .error e⟩] ∧ result = .error (.io e.text)) ∨
          ∃ entries steps closing,
            log = ⟨.list l.location, .ok entries⟩ :: (steps.flatMap Step.log ++ closing) ∧
            Loads l [] (Candidate.ofEntries l.location entries) steps closing result) := by
  obtain ⟨found, log₁, log₂, rfl, hfind, hload⟩ := runs_bind_iff.mp h
  by_cases hlocation : l.location = ""
  · rw [Loader.candidates, if_pos hlocation] at hfind
    obtain ⟨rfl, rfl⟩ := runs_done_iff.mp hfind
    obtain ⟨rfl, rfl⟩ := runs_done_iff.mp hload
    exact Or.inl ⟨hlocation, rfl, rfl⟩
  · rw [Loader.candidates, if_neg hlocation] at hfind
    refine Or.inr ⟨hlocation, ?_⟩
    obtain ⟨r, rest, rfl, hnext⟩ := runs_ask_iff.mp hfind
    cases r with
    | error e =>
      obtain ⟨rfl, rfl⟩ := runs_done_iff.mp hnext
      obtain ⟨rfl, rfl⟩ := runs_done_iff.mp hload
      exact Or.inl ⟨e, rfl, rfl⟩
    | ok entries =>
      obtain ⟨rfl, rfl⟩ := runs_done_iff.mp hnext
      obtain ⟨steps, closing, rfl, hs⟩ := runs_loadAll hload
      exact Or.inr ⟨entries, steps, closing, rfl, hs⟩

end Attestation.Proofs.Loading
