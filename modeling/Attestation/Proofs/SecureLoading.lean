import Attestation.Proofs.Digests
import Attestation.Proofs.Discovery

namespace Attestation.Proofs.SecureLoading

open Plugin JsonRecords Worlds Loading Trials Candidates Digests Discovery Settling

/-- Each start of a file follows at once on a read of it, with a content that is good for it. -/
def Checked (Good : String → List UInt8 → Prop) (log : List Event) : Prop :=
  ∀ log₁ e log₂ path, log = log₁ ++ e :: log₂ → e.question = .start path →
    ∃ log₀ content, log₁ = log₀ ++ [⟨.read path, .ok content⟩] ∧ Good path content

section checked

variable {Good Good' : String → List UInt8 → Prop} {log : List Event}

theorem checked_of_unstarted (h : starts log = []) : Checked Good log := by
  rintro log₁ e log₂ path rfl he
  exact absurd he (unstarted h (List.mem_append_right _ List.mem_cons_self) path)

theorem checked_append {more : List Event} (h : Checked Good log) (h' : Checked Good more) :
    Checked Good (log ++ more) := by
  intro log₁ e log₂ path heq he
  obtain ⟨mid, rfl, hmid⟩ | ⟨mid, rfl, hmid⟩ := List.append_eq_append_iff.mp heq
  · obtain ⟨log₀, content, rfl, hgood⟩ := h' mid e log₂ path hmid he
    exact ⟨log ++ log₀, content, (List.append_assoc ..).symm, hgood⟩
  · cases mid with
    | nil =>
      -- The second part does not begin with a start, as nothing is read before it there.
      obtain ⟨log₀, content, hnil, -⟩ := h' [] e log₂ path hmid.symm he
      simp at hnil
    | cons e' mid =>
      cases hmid
      exact h log₁ e mid path rfl he

theorem checked_start {path : String} {content : List UInt8} {reply : Except SystemError Unit}
    (hg : Good path content) (h : starts log = []) :
    Checked Good (⟨.read path, .ok content⟩ :: ⟨.start path, reply⟩ :: log) := by
  intro log₁ e log₂ path' heq he
  match log₁ with
  | [] =>
    cases heq
    cases he
  | [_] =>
    cases heq
    cases he
    exact ⟨[], content, rfl, hg⟩
  | _ :: _ :: log₁ =>
    cases heq
    exact absurd he (unstarted h (List.mem_append_right _ List.mem_cons_self) path')

theorem checked_mono (h : Checked Good log)
    (hg : ∀ path content, Good path content → Good' path content) : Checked Good' log := by
  intro log₁ e log₂ path heq he
  obtain ⟨log₀, content, hlog, hgood⟩ := h log₁ e log₂ path heq he
  exact ⟨log₀, content, hlog, hg path content hgood⟩

end checked

section files

variable {l : Loader} {table : Checksums} {loaded : Plugins} {c : Candidate} {log : List Event}

theorem attempt_checked (hsecure : l.checksums = some table) {result : Except Error Loaded}
    (h : Attempt l loaded c log result) :
    Checked (fun path content => path = c.path ∧
      Table.find? table c.stem = some (Sha256.hash content)) log := by
  have happroved : ∀ {approval rest : List Event} {reply : Except SystemError Unit},
      Approval l c approval (.ok ()) → starts rest = [] →
      Checked (fun path content => path = c.path ∧
        Table.find? table c.stem = some (Sha256.hash content))
        (approval ++ ⟨.start c.path, reply⟩ :: rest) := by
    intro approval rest reply ha hrest
    cases ha with
    | plain h => cases h.symm.trans hsecure
    | trusted h hf hd =>
      cases h.symm.trans hsecure
      exact checked_start ⟨rfl, hd ▸ hf⟩ hrest
  cases h with
  | refused h =>
    apply checked_of_unstarted
    cases h <;> rfl
  | spawn h => exact happroved h rfl
  | greeting h _ | identity h _ _ | duplicate h _ _ _ | registered h _ _ _ => exact happroved h rfl

theorem loads_checked (hsecure : l.checksums = some table) {cs : List Candidate}
    {steps : List Step} {closing : List Event} {result : Except Error Plugins}
    (h : Loads l loaded cs steps closing result) :
    Checked (fun path content => ∃ c ∈ cs, path = c.path ∧
      Table.find? table c.stem = some (Sha256.hash content)) (steps.flatMap Step.log) := by
  induction h with
  | finished _ => exact checked_of_unstarted rfl
  | registered h _ ih | skipped h _ ih =>
    rw [List.flatMap_cons]
    apply checked_append
    · exact checked_mono (attempt_checked hsecure (runs_loadOne h))
        fun _ _ hgood => ⟨_, List.mem_cons_self, hgood⟩
    · exact checked_mono ih fun _ _ ⟨c, hc, hgood⟩ => ⟨c, List.mem_cons_of_mem _ hc, hgood⟩
  | failed h _ =>
    rw [List.flatMap_singleton]
    exact checked_mono (attempt_checked hsecure (runs_loadOne h))
      fun _ _ hgood => ⟨_, List.mem_cons_self, hgood⟩

end files

section registering

variable {w : World} {l₀ l : Loader} {pairs : List (String × String)} {c : Candidate} {e : Error}

/-- A file whose content does not have the digest that is registered for its stem, with the error
of a load that comes to it. -/
inductive Untrusted (w : World) (pairs : List (String × String)) (c : Candidate) : Error → Prop
  | unregistered (h : c.stem ∉ pairs.map (·.1)) : Untrusted w pairs c (.unregistered c.stem c.path)
  | unreadable {e : SystemError} (h : c.stem ∈ pairs.map (·.1)) (hr : w (.read c.path) = .error e) :
      Untrusted w pairs c (.io e.text)
  | mismatch {content : List UInt8} (h : c.stem ∈ pairs.map (·.1))
      (hr : w (.read c.path) = .ok content) (hd : ¬ Registered pairs c.stem (Sha256.hash content)) :
      Untrusted w pairs c (.checksumMismatch c.stem c.path)

theorem setChecksums_iff : l₀.setChecksums pairs = .ok l ↔
    ∃ table, Checksums.ofPairs pairs = .ok table ∧ { l₀ with checksums := some table } = l :=
  map_ok_iff _ _ _

theorem trusted_iff (h : l₀.setChecksums pairs = .ok l) : Trusted w l c ↔
    ∃ content, w (.read c.path) = .ok content ∧ Registered pairs c.stem (Sha256.hash content) := by
  obtain ⟨table, htable, rfl⟩ := setChecksums_iff.mp h
  have hfound := (find?_ofPairs htable c.stem).2
  constructor
  · intro ht
    obtain ⟨content, digest, hr, hf, rfl⟩ := ht table rfl
    exact ⟨content, hr, (hfound _).mp hf⟩
  · rintro ⟨content, hr, hd⟩ table' htable'
    cases htable'
    exact ⟨content, _, hr, (hfound _).mpr hd, rfl⟩

theorem distrusted_of_untrusted (h : l₀.setChecksums pairs = .ok l) (hc : Untrusted w pairs c e) :
    Distrusted w l c e := by
  obtain ⟨table, htable, rfl⟩ := setChecksums_iff.mp h
  obtain ⟨hnone, hsome⟩ := find?_ofPairs htable c.stem
  have hfound : c.stem ∈ pairs.map (·.1) → ∃ digest, Table.find? table c.stem = some digest :=
    fun hmem => Option.ne_none_iff_exists'.mp fun hf => hnone.mp hf hmem
  cases hc with
  | unregistered hmem => exact .unregistered rfl (hnone.mpr hmem)
  | unreadable hmem hr =>
    obtain ⟨digest, hf⟩ := hfound hmem
    exact .unreadable rfl hf hr
  | mismatch hmem hr hd =>
    obtain ⟨digest, hf⟩ := hfound hmem
    refine .mismatch rfl hf hr ?_
    rintro rfl
    exact hd ((hsome _).mp hf)

end registering

section barring

variable {w : World} {l : Loader} {cs before after : List Candidate} {c : Candidate} {e : Error}
  {result : Except Error Plugins} {log : List Event}

/-- A load does not get past a file: it ends there, or at an earlier one, and starts neither it nor
a later one. -/
structure Bars (w : World) (l : Loader) (before : List Candidate) (c : Candidate) (e : Error)
    (result : Except Error Plugins) (log : List Event) : Prop where
  here : AllSettle w l before → result = .error e
  earlier : ¬ AllSettle w l before →
    ∃ before' c' e', EndsAt w l before before' c' e' ∧ result = .error e'
  unstarted : c.path ∉ starts log
  started : starts log <+: before.map (·.path)

/-- A load of files that do not all settle ends at one of them, whatever follows. -/
theorem endsAt_earlier (hcs : cs = before ++ c :: after) (hb : ¬ AllSettle w l before)
    (h : Discovers w l cs result log) :
    ∃ before' c' e' later, before = before' ++ c' :: later ∧ EndsAt w l cs before' c' e' ∧
      result = .error e' := by
  have hno : ¬ AllSettle w l cs := fun hall => hb (allSettle_of_append (hcs ▸ hall))
  cases hresult : result with
  | ok plugins => exact absurd (h.accepts.mp ⟨plugins, hresult⟩) hno
  | error e' =>
    obtain ⟨before', c', hends⟩ := (h.refuses e').mp hresult
    obtain ⟨after', hplace⟩ := hends.place
    obtain ⟨later, rfl, -⟩ | ⟨later, rfl, hlater⟩ :=
      List.append_eq_append_iff.mp (hcs.symm.trans hplace)
    · exact absurd (allSettle_of_append hends.settled) hb
    · cases later with
      | nil => exact absurd (by simpa using hends.settled) hb
      | cons d later =>
        cases hlater
        exact ⟨before', c', e', later, rfl, hends, rfl⟩

theorem bars_of_distrusted (hcs : cs = before ++ c :: after) (h : Discovers w l cs result log)
    (hc : Distrusted w l c e) (hpath : c.path ∉ starts log) : Bars w l before c e result log := by
  by_cases hb : AllSettle w l before
  · have hends : EndsAt w l cs before c e := ⟨⟨after, hcs⟩, hb, .fails (.distrusted hc)⟩
    have hstarts : starts log = before.map (·.path) := by
      obtain ⟨ht, -⟩ | ⟨-, hstarts⟩ := h.stops before c e hends
      · exact absurd ht (not_trusted_of_distrusted hc)
      · exact hstarts
    exact ⟨fun _ => (h.refuses e).mpr ⟨before, c, hends⟩, fun hno => absurd hb hno, hpath,
      hstarts ▸ List.prefix_refl _⟩
  · obtain ⟨before', c', e', later, rfl, hends, hresult⟩ := endsAt_earlier hcs hb h
    refine ⟨fun hall => absurd hall hb, fun _ => ?_, hpath, ?_⟩
    · exact ⟨before', c', e', ⟨⟨later, rfl⟩, hends.settled, hends.refuses⟩, hresult⟩
    · rw [List.map_append]
      obtain ⟨-, hstarts⟩ | ⟨-, hstarts⟩ := h.stops before' c' e' hends
      · rw [hstarts, List.map_append]
        exact (List.prefix_append_right_inj _).mpr ⟨later.map (·.path), rfl⟩
      · rw [hstarts]
        exact List.prefix_append _ _

end barring

section starting

variable {w : World} {l₀ l : Loader} {pairs : List (String × String)}

theorem discover_checked {table : Checksums} (hsecure : l.checksums = some table) (w : World) :
    Checked (fun path content => ∃ entries, w (.list l.location) = .ok entries ∧
      ∃ c ∈ Candidate.ofEntries l.location entries, path = c.path ∧
        Table.find? table c.stem = some (Sha256.hash content)) (play w l.discover).2 := by
  have hw := play_agrees w l.discover
  obtain ⟨-, hlog, -⟩ | ⟨-, ⟨e, hlog, -⟩ | ⟨entries, steps, closing, hlog, hs⟩⟩ :=
    runs_discover (play_runs w l.discover)
  · rw [hlog]
    exact checked_of_unstarted rfl
  · rw [hlog]
    exact checked_of_unstarted rfl
  · rw [hlog] at hw ⊢
    rw [← List.singleton_append]
    apply checked_append (checked_of_unstarted rfl)
    apply checked_append _ (checked_of_unstarted (starts_closing hs))
    exact checked_mono (loads_checked hsecure hs)
      fun _ _ hgood => ⟨entries, ((agrees_cons.mp hw).1).symm, hgood⟩

theorem read_before_start (h : l₀.setChecksums pairs = .ok l) {log₁ log₂ : List Event} {e : Event}
    {path : String} (hlog : (play w l.discover).2 = log₁ ++ e :: log₂)
    (he : e.question = .start path) :
    ∃ entries c content log₀, w (.list l.location) = .ok entries ∧
      c ∈ Candidate.ofEntries l.location entries ∧ c.path = path ∧
      log₁ = log₀ ++ [⟨.read path, .ok content⟩] ∧ w (.read path) = .ok content ∧
      Registered pairs c.stem (Sha256.hash content) := by
  obtain ⟨table, htable, rfl⟩ := setChecksums_iff.mp h
  obtain ⟨log₀, content, rfl, entries, hentries, c, hc, rfl, hf⟩ :=
    discover_checked rfl w log₁ e log₂ path hlog he
  have hw := play_agrees w (Loader.discover { l₀ with checksums := some table })
  rw [hlog, List.append_assoc, List.singleton_append] at hw
  have hread := (agrees_cons.mp (agrees_append.mp hw).2).1
  exact ⟨entries, c, content, log₀, hentries, hc, rfl, rfl, hread.symm,
    ((find?_ofPairs htable c.stem).2 _).mp hf⟩

theorem trusted_of_started (h : l₀.setChecksums pairs = .ok l) {entries : List Entry}
    (hlist : w (.list l.location) = .ok entries) {c : Candidate}
    (hc : c ∈ Candidate.ofEntries l.location entries)
    (hstart : c.path ∈ starts (play w l.discover).2) : Trusted w l c := by
  obtain ⟨e, he, hpath⟩ := mem_starts_iff.mp hstart
  obtain ⟨log₁, log₂, hlog⟩ := List.append_of_mem he
  obtain ⟨entries', c', content, log₀, hlist', hc', hsame, -, hread, hd⟩ :=
    read_before_start h hlog hpath
  cases hlist.symm.trans hlist'
  obtain ⟨e, -, hcandidate⟩ := mem_ofEntries_iff.mp hc
  obtain ⟨e', -, hcandidate'⟩ := mem_ofEntries_iff.mp hc'
  rw [stem_of_path hcandidate' hcandidate hsame] at hd
  exact (trusted_iff h).mpr ⟨content, hread, hd⟩

/-- In secure mode no file is started but one whose content, which is read just before, has the
digest that is registered for its stem. A file that does not have it is not passed over but ends
the load, unless that ends before. The files do not change in a world. -/
theorem untrusted_never_started (h : l₀.setChecksums pairs = .ok l) (w : World) :
    (∀ log₁ e log₂ path, (play w l.discover).2 = log₁ ++ e :: log₂ → e.question = .start path →
      ∃ entries c content log₀, w (.list l.location) = .ok entries ∧
        c ∈ Candidate.ofEntries l.location entries ∧ c.path = path ∧
        log₁ = log₀ ++ [⟨.read path, .ok content⟩] ∧ w (.read path) = .ok content ∧
        Registered pairs c.stem (Sha256.hash content)) ∧
    (l.location ≠ "" → ∀ entries, w (.list l.location) = .ok entries →
      ∀ before c after e, Candidate.ofEntries l.location entries = before ++ c :: after →
        Untrusted w pairs c e →
        Bars w l before c e (play w l.discover).1 (play w l.discover).2) := by
  refine ⟨fun log₁ e log₂ path => read_before_start h, fun hlocation entries hlist => ?_⟩
  intro before c after e hcs hc
  have hdistrusted := distrusted_of_untrusted h hc
  apply bars_of_distrusted hcs (discovers_listed hlocation hlist) hdistrusted
  intro hstart
  have hmem : c ∈ Candidate.ofEntries l.location entries :=
    hcs ▸ List.mem_append_right _ List.mem_cons_self
  exact not_trusted_of_distrusted hdistrusted (trusted_of_started h hlist hmem hstart)

/-- The checksum of an empty file, for one of the files of a directory. -/
def listed : List (String × String) :=
  [("a", " E3B0C44298FC1C149AFBF4C8996FB92427AE41E4649B934CA495991B7852B855")]

def guarded : Loader := ⟨"p", Loader.defaultTimeout, some [("a", Sha256.hash [])]⟩

theorem guards_listed : (Loader.ofLocation "p").setChecksums listed = .ok guarded := by
  decide +kernel

theorem starts_guarded : starts (play crowded guarded.discover).2 = ["p/a.plugin"] := by
  have hload : (play crowded guarded.discover).2 = ⟨.list "p", .ok crowd⟩ ::
    (play crowded (guarded.loadAll [] (Candidate.ofEntries "p" crowd))).2 := rfl
  rw [hload, candidates_crowd]
  decide +kernel

theorem untrusted_never_started_crowd :
    (Loader.ofLocation "p").setChecksums listed = .ok guarded ∧
      starts (play crowded guarded.discover).2 = ["p/a.plugin"] ∧
      (∃ content, crowded (.read "p/a.plugin") = .ok content) ∧
      crowded (.list "p") = .ok crowd ∧
      Untrusted crowded listed ⟨"b.plugin", "b", "p/b.plugin"⟩ (.unregistered "b" "p/b.plugin") ∧
      Bars crowded guarded [⟨"a.plugin", "a", "p/a.plugin"⟩] ⟨"b.plugin", "b", "p/b.plugin"⟩
        (.unregistered "b" "p/b.plugin") (play crowded guarded.discover).1
        (play crowded guarded.discover).2 := by
  obtain ⟨hstarted, hbars⟩ := untrusted_never_started guards_listed crowded
  have hmem : "p/a.plugin" ∈ starts (play crowded guarded.discover).2 :=
    starts_guarded ▸ List.mem_singleton_self _
  obtain ⟨e, he, hpath⟩ := mem_starts_iff.mp hmem
  obtain ⟨log₁, log₂, hlog⟩ := List.append_of_mem he
  obtain ⟨_, _, content, _, _, _, _, _, hread, _⟩ := hstarted log₁ e log₂ _ hlog hpath
  have huntrusted : Untrusted crowded listed ⟨"b.plugin", "b", "p/b.plugin"⟩
      (.unregistered "b" "p/b.plugin") := .unregistered (by decide)
  exact ⟨guards_listed, starts_guarded, ⟨content, hread⟩, rfl, huntrusted,
    hbars (by decide) crowd rfl _ _ _ _ candidates_crowd huntrusted⟩

end starting

end Attestation.Proofs.SecureLoading
