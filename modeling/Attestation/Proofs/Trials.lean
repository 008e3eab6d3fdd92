import Attestation.Proofs.Loading

namespace Attestation.Proofs.Trials

open Plugin Worlds Loading

abbrev World := Worlds.World Action.Reply

/-- What is shown by a program that is no plugin of this kind. -/
inductive Foreign : Greeting → Prop
  | ended : Foreign .ended
  | undecodable : Foreign (.frame .undecodable)
  | tooLong : Foreign (.frame .tooLong)
  | unrelated {line : String} (h : Handshake.parse? line = none) : Foreign (.frame (.line line))
  | other {line : String} {k : Handshake} (h : Handshake.parse? line = some k)
      (hk : ¬ (k.pluginType = Handshake.current.pluginType ∧
        k.codec = Handshake.current.codec)) : Foreign (.frame (.line line))

inductive Compatible : Greeting → Prop
  | current {line : String} (h : Handshake.parse? line = some .current) :
      Compatible (.frame (.line line))

inductive Outdated : Greeting → Handshake → Prop
  | version {line : String} {k : Handshake} (h : Handshake.parse? line = some k)
      (hk : k.pluginType = Handshake.current.pluginType ∧ k.codec = Handshake.current.codec)
      (hv : ¬ (k.coreVersion = Handshake.current.coreVersion ∧
        k.appVersion = Handshake.current.appVersion)) : Outdated (.frame (.line line)) k

/-- A successful answer with an identity. -/
def Tells (a : IdentityAnswer) (i : Identity) : Prop := a.status.result = true ∧ a.identity = some i

def complaint (a : IdentityAnswer) : String :=
  if a.status.error = "" then "no identity returned" else a.status.error

section outcomes

variable (w : World) (l : Loader) (c : Candidate)

def Trusted : Prop := ∀ table, l.checksums = some table → ∃ content digest,
  w (.read c.path) = .ok content ∧ Table.find? table c.stem = some digest ∧
    Sha256.hash content = digest

/-- A file that is started. -/
structure Starts : Prop where
  trusted : Trusted w l c
  started : w (.start c.path) = .ok ()

def greetingOf : Greeting := w (.greet c.path l.handshakeTimeout)

structure Skipped : Prop extends Starts w l c where
  foreign : Foreign (greetingOf w l c)

structure Reports (i : Identity) : Prop extends Starts w l c where
  compatible : Compatible (greetingOf w l c)
  tells : Tells (w (.identify c.path)) i

inductive Distrusted : Error → Prop
  | unregistered {table : Checksums} (h : l.checksums = some table)
      (hf : Table.find? table c.stem = none) : Distrusted (.unregistered c.stem c.path)
  | unreadable {table : Checksums} {digest : List UInt8} {e : SystemError}
      (h : l.checksums = some table) (hf : Table.find? table c.stem = some digest)
      (hr : w (.read c.path) = .error e) : Distrusted (.io e.text)
  | mismatch {table : Checksums} {digest content : List UInt8} (h : l.checksums = some table)
      (hf : Table.find? table c.stem = some digest) (hr : w (.read c.path) = .ok content)
      (hd : Sha256.hash content ≠ digest) : Distrusted (.checksumMismatch c.stem c.path)

/-- All else that can become of a file, with the error. -/
inductive Fails : Error → Prop
  | distrusted {e : Error} (h : Distrusted w l c e) : Fails e
  | spawn {e : SystemError} (ht : Trusted w l c) (hs : w (.start c.path) = .error e) :
      Fails (.spawn c.path e.text)
  | late (hs : Starts w l c) (hg : greetingOf w l c = .late) : Fails (.handshakeTimeout c.path)
  | outdated {k : Handshake} (hs : Starts w l c) (hg : Outdated (greetingOf w l c) k) :
      Fails (.incompatibleVersion c.path .current k)
  | silent (hs : Starts w l c) (hg : Compatible (greetingOf w l c))
      (ha : ¬ ∃ i, Tells (w (.identify c.path)) i) :
      Fails (.identity c.path (complaint (w (.identify c.path))))

end outcomes

theorem greeting_cases (path : String) (g : Greeting) :
    (Compatible g ∧ g.check path = .ok ()) ∨
      (Foreign g ∧ ∃ text, g.check path = .error (.unknownPlugin text)) ∨
      (g = .late ∧ g.check path = .error (.handshakeTimeout path)) ∨
      ∃ k, Outdated g k ∧ g.check path = .error (.incompatibleVersion path .current k) := by
  match g with
  | .late => exact Or.inr (Or.inr (Or.inl ⟨rfl, rfl⟩))
  | .ended => exact Or.inr (Or.inl ⟨.ended, _, rfl⟩)
  | .frame .undecodable => exact Or.inr (Or.inl ⟨.undecodable, _, rfl⟩)
  | .frame .tooLong => exact Or.inr (Or.inl ⟨.tooLong, _, rfl⟩)
  | .frame (.line line) =>
    have hcheck : Greeting.check path (.frame (.line line)) = verify path line := rfl
    rw [hcheck, verify]
    cases hp : Handshake.parse? line with
    | none => exact Or.inr (Or.inl ⟨.unrelated hp, _, rfl⟩)
    | some k =>
      by_cases hk : k.pluginType = Handshake.current.pluginType ∧
          k.codec = Handshake.current.codec
      · have hkind : k.sameKind .current = true := by simp [Handshake.sameKind, hk]
        by_cases hv : k.coreVersion = Handshake.current.coreVersion ∧
            k.appVersion = Handshake.current.appVersion
        · have hversion : k.sameVersion .current = true := by simp [Handshake.sameVersion, hv]
          have hcurrent : k = .current := by
            cases k
            simp_all [Handshake.current]
          exact Or.inl ⟨.current (hcurrent ▸ hp), by simp [hkind, hversion]⟩
        · have hversion : k.sameVersion .current = false := by
            simpa [Handshake.sameVersion] using hv
          exact Or.inr (Or.inr (Or.inr ⟨k, .version hp hk hv, by simp [hkind, hversion]⟩))
      · have hkind : k.sameKind .current = false := by simpa [Handshake.sameKind] using hk
        exact Or.inr (Or.inl ⟨.other hp hk, _, by simp only [hkind]; rfl⟩)

theorem compatible_of_check {path : String} {g : Greeting} (h : g.check path = .ok ()) :
    Compatible g := by
  obtain ⟨hg, -⟩ | ⟨-, text, hc⟩ | ⟨-, hc⟩ | ⟨k, -, hc⟩ := greeting_cases path g
  · exact hg
  · cases h.symm.trans hc
  · cases h.symm.trans hc
  · cases h.symm.trans hc

section exclusion

variable {w : World} {l : Loader} {c : Candidate} {e e' : Error} {i i' : Identity}

theorem not_trusted_of_distrusted (h : Distrusted w l c e) : ¬ Trusted w l c := by
  intro ht
  cases h <;> grind [Trusted]

theorem distrusted_unique (h : Distrusted w l c e) (h' : Distrusted w l c e') : e = e' := by
  cases h <;> cases h' <;> grind

theorem foreign_compatible {g : Greeting} (h : Foreign g) (h' : Compatible g) : False := by
  cases h' with
  | current hp => cases h <;> grind

theorem outdated_compatible {g : Greeting} {k : Handshake} (h : Outdated g k)
    (h' : Compatible g) : False := by
  cases h' with
  | current hp => cases h; grind

theorem foreign_outdated {g : Greeting} {k : Handshake} (h : Foreign g) (h' : Outdated g k) :
    False := by
  cases h' with
  | version hp hk hv => cases h <;> grind

theorem outdated_unique {g : Greeting} {k k' : Handshake} (h : Outdated g k)
    (h' : Outdated g k') : k = k' := by
  cases h
  cases h'
  grind

theorem skipped_reports (h : Skipped w l c) (h' : Reports w l c i) : False :=
  foreign_compatible h.foreign h'.compatible

theorem reports_unique (h : Reports w l c i) (h' : Reports w l c i') : i = i' :=
  Option.some.inj (h.tells.2.symm.trans h'.tells.2)

theorem fails_skipped (h : Fails w l c e) (h' : Skipped w l c) : False := by
  cases h with
  | distrusted h => exact not_trusted_of_distrusted h h'.trusted
  | spawn _ hs => cases hs.symm.trans h'.started
  | late _ hg => cases hg ▸ h'.foreign
  | outdated _ hg => exact foreign_outdated h'.foreign hg
  | silent _ hg _ => exact foreign_compatible h'.foreign hg

theorem fails_reports (h : Fails w l c e) (h' : Reports w l c i) : False := by
  cases h with
  | distrusted h => exact not_trusted_of_distrusted h h'.trusted
  | spawn _ hs => cases hs.symm.trans h'.started
  | late _ hg => cases hg ▸ h'.compatible
  | outdated _ hg => exact outdated_compatible hg h'.compatible
  | silent _ _ ha => exact ha ⟨i, h'.tells⟩

theorem fails_unique (h : Fails w l c e) (h' : Fails w l c e') : e = e' := by
  cases h with
  | distrusted h =>
    cases h' with
    | distrusted h' => exact distrusted_unique h h'
    | spawn ht _ => exact absurd ht (not_trusted_of_distrusted h)
    | late hs _ | outdated hs _ | silent hs _ _ =>
      exact absurd hs.trusted (not_trusted_of_distrusted h)
  | spawn ht hs =>
    cases h' with
    | distrusted h' => exact absurd ht (not_trusted_of_distrusted h')
    | spawn _ hs' =>
      cases hs.symm.trans hs'
      rfl
    | late hs' _ | outdated hs' _ | silent hs' _ _ => cases hs.symm.trans hs'.started
  | late hs hg =>
    cases h' with
    | distrusted h' => exact absurd hs.trusted (not_trusted_of_distrusted h')
    | spawn _ hs' => cases hs.started.symm.trans hs'
    | late _ _ => rfl
    | outdated _ hg' => cases hg ▸ hg'
    | silent _ hg' _ => cases hg ▸ hg'
  | outdated hs hg =>
    cases h' with
    | distrusted h' => exact absurd hs.trusted (not_trusted_of_distrusted h')
    | spawn _ hs' => cases hs.started.symm.trans hs'
    | late _ hg' => cases hg' ▸ hg
    | outdated _ hg' => rw [outdated_unique hg hg']
    | silent _ hg' _ => exact (outdated_compatible hg hg').elim
  | silent hs hg ha =>
    cases h' with
    | distrusted h' => exact absurd hs.trusted (not_trusted_of_distrusted h')
    | spawn _ hs' => cases hs.started.symm.trans hs'
    | late _ hg' => cases hg' ▸ hg
    | outdated _ hg' => exact (outdated_compatible hg' hg).elim
    | silent _ _ _ => rfl

end exclusion

section attempts

variable {w : World} {l : Loader} {loaded : Plugins} {c : Candidate} {log : List Event}
  {e : Error}

/-- The files that are started, or that it is tried to start. -/
def starts (log : List Event) : List String :=
  log.filterMap fun e =>
    match e.question with
    | .start path => some path
    | _ => none

@[simp] theorem starts_append (log₁ log₂ : List Event) :
    starts (log₁ ++ log₂) = starts log₁ ++ starts log₂ := List.filterMap_append

theorem mem_starts_iff {path : String} :
    path ∈ starts log ↔ ∃ e ∈ log, e.question = .start path := by
  rw [starts, List.mem_filterMap]
  constructor
  · rintro ⟨e, he, hpath⟩
    refine ⟨e, he, ?_⟩
    split at hpath
    · rename_i heq
      cases hpath
      exact heq
    · cases hpath
  · rintro ⟨e, he, hpath⟩
    exact ⟨e, he, by rw [hpath]⟩

theorem unstarted (h : starts log = []) {e : Event} (hm : e ∈ log) (path : String) :
    e.question ≠ .start path := by
  intro he
  have hmem : path ∈ starts log := mem_starts_iff.mpr ⟨e, hm, he⟩
  rw [h] at hmem
  cases hmem

theorem approval_trusted (h : Approval l c log (.ok ())) (hw : Agrees w log) :
    Trusted w l c ∧ starts log = [] := by
  cases h with
  | plain h =>
    refine ⟨fun table ht => ?_, rfl⟩
    cases h.symm.trans ht
  | @trusted table digest content h hf hd =>
    refine ⟨fun table' ht => ?_, rfl⟩
    cases h.symm.trans ht
    exact ⟨content, digest, ((agrees_cons.mp hw).1).symm, hf, hd⟩

theorem approval_distrusted (h : Approval l c log (.error e)) (hw : Agrees w log) :
    Distrusted w l c e ∧ starts log = [] := by
  cases h with
  | unregistered h hf => exact ⟨.unregistered h hf, rfl⟩
  | unreadable h hf => exact ⟨.unreadable h hf (agrees_cons.mp hw).1.symm, rfl⟩
  | mismatch h hf hd => exact ⟨.mismatch h hf (agrees_cons.mp hw).1.symm hd, rfl⟩

theorem identityOf_ok {path : String} {a : IdentityAnswer} {i : Identity}
    (h : Loader.identityOf path a = .ok i) : Tells a i := by
  unfold Loader.identityOf at h
  split at h
  · rename_i hr hi
    cases h
    exact ⟨hr, hi⟩
  · cases h

theorem identityOf_error {path : String} {a : IdentityAnswer}
    (h : Loader.identityOf path a = .error e) :
    e = .identity path (complaint a) ∧ ¬ ∃ i, Tells a i := by
  unfold Loader.identityOf at h
  split at h
  · cases h
  · rename_i hno
    cases h
    refine ⟨rfl, ?_⟩
    rintro ⟨i, hr, hi⟩
    exact hno i hr hi

theorem introduction_agrees {g : Greeting} {rest : List Event}
    (hw : Agrees w (introduction l c g ++ rest)) :
    w (.start c.path) = .ok () ∧ greetingOf w l c = g ∧ Agrees w rest := by
  obtain ⟨hintro, hrest⟩ := agrees_append.mp hw
  obtain ⟨hstart, hgreet⟩ := agrees_cons.mp hintro
  exact ⟨hstart.symm, (agrees_cons.mp hgreet).1.symm, hrest⟩

/-- What a step of a load that tries a file comes to. -/
inductive Comes (w : World) (l : Loader) (loaded : Plugins) (c : Candidate) :
    Except Error Loaded → Prop
  | skipped {text : String} (h : Skipped w l c) : Comes w l loaded c (.error (.unknownPlugin text))
  | reports {i : Identity} (h : Reports w l c i) (hf : Table.find? loaded i.name = none) :
      Comes w l loaded c (.ok ⟨c.path, i⟩)
  | duplicate {i : Identity} {first : Loaded} (h : Reports w l c i)
      (hf : Table.find? loaded i.name = some first) :
      Comes w l loaded c (.error (.duplicateName i.name first.path c.path))
  | fails {e : Error} (h : Fails w l c e) : Comes w l loaded c (.error e)

theorem attempt_comes {result : Except Error Loaded} (h : Attempt l loaded c log result)
    (hw : Agrees w log) : Comes w l loaded c result := by
  cases h with
  | refused h => exact .fails (.distrusted (approval_distrusted h hw).1)
  | spawn h =>
    obtain ⟨hlog, hstart⟩ := agrees_append.mp hw
    exact .fails (.spawn (approval_trusted h hlog).1 (agrees_cons.mp hstart).1.symm)
  | @greeting _ g _ h hg =>
    obtain ⟨hlog, hrest⟩ := agrees_append.mp hw
    obtain ⟨hstart, hgreet, -⟩ := introduction_agrees hrest
    have hs : Starts w l c := ⟨(approval_trusted h hlog).1, hstart⟩
    obtain ⟨-, hc⟩ | ⟨hforeign, text, hc⟩ | ⟨hlate, hc⟩ | ⟨k, hk, hc⟩ := greeting_cases c.path g
    · cases hg.symm.trans hc
    · cases hg.symm.trans hc
      exact .skipped ⟨hs, hgreet ▸ hforeign⟩
    · cases hg.symm.trans hc
      exact .fails (.late hs (hgreet.trans hlate))
    · cases hg.symm.trans hc
      exact .fails (.outdated hs (hgreet ▸ hk))
  | @identity _ g a _ h hg ha =>
    obtain ⟨hlog, hrest⟩ := agrees_append.mp hw
    obtain ⟨hstart, hgreet, hanswer⟩ := introduction_agrees hrest
    have hs : Starts w l c := ⟨(approval_trusted h hlog).1, hstart⟩
    obtain ⟨rfl, hno⟩ := identityOf_error ha
    obtain rfl : a = w (.identify c.path) := (agrees_cons.mp hanswer).1
    exact .fails (.silent hs (hgreet ▸ compatible_of_check hg) hno)
  | @duplicate _ g a i first h hg ha hf =>
    obtain ⟨hlog, hrest⟩ := agrees_append.mp hw
    obtain ⟨hstart, hgreet, hanswer⟩ := introduction_agrees hrest
    have hs : Starts w l c := ⟨(approval_trusted h hlog).1, hstart⟩
    obtain rfl : a = w (.identify c.path) := (agrees_cons.mp hanswer).1
    exact .duplicate ⟨hs, hgreet ▸ compatible_of_check hg, identityOf_ok ha⟩ hf
  | @registered _ g a i h hg ha hf =>
    obtain ⟨hlog, hrest⟩ := agrees_append.mp hw
    obtain ⟨hstart, hgreet, hanswer⟩ := introduction_agrees hrest
    have hs : Starts w l c := ⟨(approval_trusted h hlog).1, hstart⟩
    obtain rfl : a = w (.identify c.path) := (agrees_cons.mp hanswer).1
    exact .reports ⟨hs, hgreet ▸ compatible_of_check hg, identityOf_ok ha⟩ hf

theorem attempt_starts {result : Except Error Loaded} (h : Attempt l loaded c log result)
    (hw : Agrees w log) :
    (Trusted w l c ∧ starts log = [c.path]) ∨ (¬ Trusted w l c ∧ starts log = []) := by
  cases h with
  | refused h =>
    obtain ⟨hd, hlog⟩ := approval_distrusted h hw
    exact Or.inr ⟨not_trusted_of_distrusted hd, hlog⟩
  | spawn h | greeting h _ | identity h _ _ | duplicate h _ _ _ | registered h _ _ _ =>
    obtain ⟨ht, hlog⟩ := approval_trusted h (agrees_append.mp hw).1
    refine Or.inl ⟨ht, ?_⟩
    rw [starts_append, hlog]
    rfl

theorem attempt_started {result : Except Error Loaded} (h : Attempt l loaded c log result)
    (hw : Agrees w log) (ht : Trusted w l c) : starts log = [c.path] := by
  obtain ⟨-, hstarts⟩ | ⟨hno, -⟩ := attempt_starts h hw
  · exact hstarts
  · exact absurd ht hno

theorem comes_unknown {text : String} (h : Comes w l loaded c (.error (.unknownPlugin text))) :
    Skipped w l c := by
  cases h with
  | skipped h => exact h
  | fails h =>
    cases h with
    | distrusted h => cases h

end attempts

end Attestation.Proofs.Trials
