import Attestation.Plugin.Session
import Attestation.Proofs.Framing
import Attestation.Proofs.Messages

namespace Attestation.Proofs.SharedChannel

open Framing LineText Messages Plugin Rpc Utf8Encoding
open Json (Value)
open Plugin.Session (Move firstLine? step run)

variable {a : SubAttester} {path : String} {s s' : Session}

/-- The question of a call. -/
def question (s : Session) (i : Nat) : Question :=
  (s.calls[i]?.map (·.question)).getD ⟨0, .identity⟩

@[irreducible]
def lineOf (x : Question) : List UInt8 := requestLine x.id x.query

def request (s : Session) (i : Nat) : List UInt8 := lineOf (question s i)

def response (a : SubAttester) (s : Session) (i : Nat) : List UInt8 := responseLine a (question s i)

theorem whole_request (s : Session) (i : Nat) : (0x0A : UInt8) ∉ request s i := by
  rw [request, lineOf]
  exact not_mem_requestLine (question s i) (by decide)

theorem whole_response (a : SubAttester) (s : Session) (i : Nat) :
    (0x0A : UInt8) ∉ response a s i := by
  rw [response]
  exact not_mem_responseLine a (question s i) (by decide)

def Overlong (a : SubAttester) (s : Session) : Prop :=
  ∃ i < s.calls.length, maxLine < (response a s i).length

/-- A call that has come to the point where its request is handed over, or was given up. -/
def Submitted (s : Session) (i : Nat) : Prop :=
  ∃ p, s.phase? i = some p ∧ p ≠ .queued ∧ p ≠ .holding

theorem phase?_advance (s : Session) (i j : Nat) (p : Phase) :
    (s.advance i p).phase? j = if i = j then (s.phase? j).map fun _ => p else s.phase? j := by
  simp only [Session.phase?, Session.advance, List.getElem?_modify]
  split
  · cases s.calls[j]? <;> rfl
  · cases s.calls[j]? <;> rfl

@[simp] theorem question_advance (s : Session) (i j : Nat) (p : Phase) :
    question (s.advance i p) j = question s j := by
  simp only [question, Session.advance, List.getElem?_modify]
  cases s.calls[j]? with
  | none => rfl
  | some c =>
    by_cases h : i = j
    · simp [h]
    · simp [h]

theorem question_of_get {i : Nat} {x : Question} {p : Phase} (h : s.calls[i]? = some ⟨x, p⟩) :
    question s i = x := by
  rw [question, h]
  rfl

theorem phase?_of_get {i : Nat} {x : Question} {p : Phase} (h : s.calls[i]? = some ⟨x, p⟩) :
    s.phase? i = some p := by
  rw [Session.phase?, h]
  rfl

theorem lt_of_phase? {i : Nat} {p : Phase} (h : s.phase? i = some p) : i < s.calls.length := by
  obtain ⟨c, hc, _⟩ := Option.map_eq_some_iff.mp h
  exact (List.getElem?_eq_some_iff.mp hc).1

theorem lt_of_submitted {i : Nat} (h : Submitted s i) : i < s.calls.length := by
  obtain ⟨p, hp, _⟩ := h
  exact lt_of_phase? hp

/-- What has been handed over: whole lines on the way to the plugin, and on the way back. -/
structure Flow (a : SubAttester) (s : Session) (taken pending unheard : List Nat) : Prop where
  once : (taken ++ pending ++ unheard).Nodup
  submitted : ∀ i ∈ taken ++ pending ++ unheard, Submitted s i
  heard : s.heard = (taken ++ pending).map (request s)
  requests : s.requests ++ s.unsent = joined (unheard.map (request s))
  responses : Holds s.channel s.responses (pending.map (response a s))
  ongoing : s.channel.ended = false
  fault : s.channel.failed = true → Overlong a s

/-- The value answers a request that carries the number of the call, and the response to it has
been taken. -/
def Answered (a : SubAttester) (s : Session) (taken : List Nat) (i : Nat) (v : Value) : Prop :=
  ∃ j ∈ taken, j < s.calls.length ∧ (question s j).id = (question s i).id ∧
    v = resultOf a (question s j).query

/-- What the calls have come to. -/
structure Progress (a : SubAttester) (path : String) (s : Session) (taken : List Nat) : Prop where
  next : s.nextId = UInt64.ofNat (s.calls.length + 1)
  numbered : ∀ i < s.calls.length, (question s i).id = UInt64.ofNat (i + 1)
  present : ∀ i, s.holder = some i → i < s.calls.length
  holder : ∀ i p, s.phase? i = some p → (p.holds = true ↔ s.holder = some i)
  answered : ∀ i v, s.phase? i = some (.done (.ok v)) → Answered a s taken i v
  failed : ∀ i e, s.phase? i = some (.done (.error e)) →
    (e = tooLong ∨ e = closedOutput path) ∧ Overlong a s

theorem overlong_advance {i : Nat} {p : Phase} (h : Overlong a s) : Overlong a (s.advance i p) := by
  obtain ⟨j, hj, hlong⟩ := h
  refine ⟨j, ?_, ?_⟩
  · rw [Session.advance, List.length_modify]
    exact hj
  · rw [response, question_advance]
    exact hlong

theorem answered_advance {taken : List Nat} {i j : Nat} {p : Phase} {v : Value}
    (h : Answered a s taken j v) : Answered a (s.advance i p) taken j v := by
  obtain ⟨k, hk, hlt, hid, hv⟩ := h
  refine ⟨k, hk, ?_, ?_, ?_⟩
  · rw [Session.advance, List.length_modify]
    exact hlt
  · rw [question_advance, question_advance]
    exact hid
  · rw [question_advance]
    exact hv

theorem submitted_advance {i j : Nat} {p : Phase} (hp : p ≠ .queued ∧ p ≠ .holding)
    (h : Submitted s j) : Submitted (s.advance i p) j := by
  obtain ⟨q, hq, hne⟩ := h
  by_cases hij : i = j
  · exact ⟨p, by rw [phase?_advance, if_pos hij, hq]; rfl, hp⟩
  · exact ⟨q, by rw [phase?_advance, if_neg hij, hq], hne⟩

variable {taken pending unheard : List Nat}

theorem flow_advance {i : Nat} {p : Phase} (h : Flow a s taken pending unheard)
    (hs : ∀ j ∈ taken ++ pending ++ unheard, Submitted (s.advance i p) j) :
    Flow a (s.advance i p) taken pending unheard := by
  have hrequest : request (s.advance i p) = request s := by
    funext j
    rw [request, request, question_advance]
  have hresponse : response a (s.advance i p) = response a s := by
    funext j
    rw [response, response, question_advance]
  refine ⟨h.once, hs, ?_, ?_, ?_, h.ongoing, fun hf => overlong_advance (h.fault hf)⟩
  · rw [hrequest]
    exact h.heard
  · rw [hrequest]
    exact h.requests
  · rw [hresponse]
    exact h.responses

theorem progress_advance {i : Nat} {p q : Phase} {holder : Option Nat}
    (h : Progress a path s taken) (hi : s.phase? i = some q)
    (hmine : p.holds = true ↔ holder = some i)
    (hothers : ∀ j, j ≠ i → (s.holder = some j ↔ holder = some j))
    (hok : ∀ v, p = .done (.ok v) → Answered a s taken i v)
    (herror : ∀ e, p = .done (.error e) → (e = tooLong ∨ e = closedOutput path) ∧ Overlong a s) :
    Progress a path { s.advance i p with holder := holder } taken := by
  have hphase : ∀ j r, (s.advance i p).phase? j = some r →
      (j = i ∧ r = p) ∨ (j ≠ i ∧ s.phase? j = some r) := by
    intro j r hr
    rw [phase?_advance] at hr
    split at hr
    · rename_i hij
      subst hij
      rw [hi] at hr
      exact Or.inl ⟨rfl, (Option.some.inj hr).symm⟩
    · rename_i hij
      exact Or.inr ⟨fun he => hij he.symm, hr⟩
  have hlen : (s.advance i p).calls.length = s.calls.length := List.length_modify ..
  refine ⟨?_, ?_, ?_, ?_, ?_, ?_⟩
  · change s.nextId = UInt64.ofNat ((s.advance i p).calls.length + 1)
    rw [hlen]
    exact h.next
  · intro j hj
    change (question (s.advance i p) j).id = _
    rw [question_advance]
    exact h.numbered j (hlen ▸ hj)
  · intro j hj
    change j < (s.advance i p).calls.length
    rw [hlen]
    by_cases hij : j = i
    · exact hij ▸ lt_of_phase? hi
    · exact h.present j ((hothers j hij).mpr hj)
  · intro j r hr
    obtain ⟨rfl, rfl⟩ | ⟨hij, hr⟩ := hphase j r hr
    · exact hmine
    · exact (h.holder j r hr).trans (hothers j hij)
  · intro j v hv
    obtain ⟨rfl, hp⟩ | ⟨_, hv⟩ := hphase j _ hv
    · exact answered_advance (hok v hp.symm)
    · exact answered_advance (h.answered j v hv)
  · intro j e he
    obtain ⟨rfl, hp⟩ | ⟨_, he⟩ := hphase j _ he
    · exact (herror e hp.symm).imp_right overlong_advance
    · exact (h.failed j e he).imp_right overlong_advance

theorem progress_congr (h : Progress a path s taken) (hc : s'.calls = s.calls)
    (hn : s'.nextId = s.nextId) (hh : s'.holder = s.holder) : Progress a path s' taken := by
  have hphase : s'.phase? = s.phase? := by
    funext i
    rw [Session.phase?, Session.phase?, hc]
  have hquestion : question s' = question s := by
    funext i
    rw [question, question, hc]
  have hlong : Overlong a s → Overlong a s' := by
    rintro ⟨i, hi, hlong⟩
    exact ⟨i, hc ▸ hi, by rwa [response, hquestion]⟩
  refine ⟨?_, ?_, ?_, ?_, ?_, ?_⟩
  · rw [hn, hc]
    exact h.next
  · rw [hc, hquestion]
    exact h.numbered
  · rw [hc, hh]
    exact h.present
  · rw [hphase, hh]
    exact h.holder
  · rw [hphase]
    intro i v hv
    obtain ⟨j, hj, hlt, hid, hv⟩ := h.answered i v hv
    exact ⟨j, hj, hc ▸ hlt, by rw [hquestion, hid], by rw [hquestion, hv]⟩
  · rw [hphase]
    intro i e he
    exact (h.failed i e he).imp_right hlong

theorem progress_onward {i : Nat} {p q : Phase} (h : Progress a path s taken)
    (hi : s.phase? i = some q) (hholds : p.holds = q.holds) (hdone : ∀ outcome, p ≠ .done outcome) :
    Progress a path (s.advance i p) taken := by
  have hmine : p.holds = true ↔ s.holder = some i := by
    rw [hholds]
    exact h.holder i q hi
  have hsame : Progress a path { s.advance i p with holder := s.holder } taken :=
    progress_advance h hi hmine (fun _ _ => Iff.rfl) (fun _ hp => absurd hp (hdone _))
      fun _ hp => absurd hp (hdone _)
  exact progress_congr hsame rfl rfl rfl

theorem progress_taken {more : List Nat} (h : Progress a path s taken) :
    Progress a path s (taken ++ more) :=
  ⟨h.next, h.numbered, h.present, h.holder,
    fun i v hv =>
      (h.answered i v hv).imp fun _ hj => hj.imp_left (List.mem_append_left _), h.failed⟩

def Consistent (a : SubAttester) (path : String) (s : Session) : Prop :=
  ∃ taken pending unheard, Flow a s taken pending unheard ∧ Progress a path s taken

theorem consistent_start (a : SubAttester) (path : String) : Consistent a path .start := by
  refine ⟨[], [], [], ⟨List.nodup_nil, nofun, rfl, rfl, rfl, rfl, nofun⟩, rfl, nofun, nofun,
    ?_, ?_, ?_⟩
  · rintro i p ⟨⟩
  · rintro i v ⟨⟩
  · rintro i e ⟨⟩

theorem submitted_other {i j : Nat} {p q : Phase} (h : Submitted s j) (hi : s.phase? i = some q)
    (hq : q = .queued ∨ q = .holding) : i ≠ j ∧ Submitted (s.advance i p) j := by
  obtain ⟨r, hr, hne⟩ := h
  have hij : i ≠ j := by
    rintro rfl
    cases hi.symm.trans hr
    exact hq.elim hne.1 hne.2
  exact ⟨hij, r, by rw [phase?_advance, if_neg hij, hr], hne⟩

def withCall (s : Session) (q : Query) : Session :=
  { s with
    nextId := s.nextId + 1
    calls := s.calls ++ [⟨⟨s.nextId, q⟩, .queued⟩] }

theorem length_withCall (s : Session) (q : Query) :
    (withCall s q).calls.length = s.calls.length + 1 := by
  rw [withCall, List.length_append, List.length_singleton]

theorem get_withCall {q : Query} {i : Nat} (hi : i < s.calls.length) :
    (withCall s q).calls[i]? = s.calls[i]? := List.getElem?_append_left hi

theorem get_withCall_last (s : Session) (q : Query) :
    (withCall s q).calls[s.calls.length]? = some ⟨⟨s.nextId, q⟩, .queued⟩ :=
  List.getElem?_concat_length

theorem question_withCall {q : Query} {i : Nat} (hi : i < s.calls.length) :
    question (withCall s q) i = question s i := by
  rw [question, get_withCall hi, question]

theorem phase?_withCall {q : Query} {i : Nat} {p : Phase}
    (h : (withCall s q).phase? i = some p) :
    p = .queued ∧ i = s.calls.length ∨ i < s.calls.length ∧ s.phase? i = some p := by
  have hlt := lt_of_phase? h
  rw [length_withCall] at hlt
  by_cases he : i = s.calls.length
  · subst he
    rw [Session.phase?, get_withCall_last] at h
    exact Or.inl ⟨(Option.some.inj h).symm, rfl⟩
  · have hi : i < s.calls.length := by omega
    rw [Session.phase?, get_withCall hi] at h
    exact Or.inr ⟨hi, h⟩

theorem overlong_withCall {q : Query} (h : Overlong a s) : Overlong a (withCall s q) := by
  obtain ⟨i, hi, hlong⟩ := h
  refine ⟨i, ?_, ?_⟩
  · rw [length_withCall]
    omega
  · rwa [response, question_withCall hi]

theorem flow_withCall (h : Flow a s taken pending unheard) (q : Query) :
    Flow a (withCall s q) taken pending unheard := by
  have hold : ∀ i ∈ taken ++ pending ++ unheard, question (withCall s q) i = question s i :=
    fun i hi => question_withCall (lt_of_submitted (h.submitted i hi))
  have hrequest : ∀ i ∈ taken ++ pending ++ unheard,
      request s i = request (withCall s q) i := fun i hi => by
    rw [request, request, hold i hi]
  have hresponse : ∀ i ∈ pending, response a s i = response a (withCall s q) i := fun i hi => by
    rw [response, response, hold i (List.mem_append_left _ (List.mem_append_right _ hi))]
  refine ⟨h.once, ?_, ?_, ?_, ?_, h.ongoing, fun hf => overlong_withCall (h.fault hf)⟩
  · intro i hi
    obtain ⟨p, hp, hne⟩ := h.submitted i hi
    refine ⟨p, ?_, hne⟩
    rw [Session.phase?, get_withCall (lt_of_phase? hp)]
    exact hp
  · rw [← List.map_congr_left fun i hi => hrequest i (List.mem_append_left _ hi)]
    exact h.heard
  · rw [← List.map_congr_left fun i hi => hrequest i (List.mem_append_right _ hi)]
    exact h.requests
  · rw [← List.map_congr_left hresponse]
    exact h.responses

theorem progress_withCall (h : Progress a path s taken) (q : Query) :
    Progress a path (withCall s q) taken := by
  refine ⟨?_, ?_, ?_, ?_, ?_, ?_⟩
  · rw [length_withCall]
    change s.nextId + 1 = _
    rw [h.next, ← UInt64.ofNat_one, ← UInt64.ofNat_add]
  · intro i hi
    rw [length_withCall] at hi
    by_cases he : i = s.calls.length
    · subst he
      rw [question_of_get (get_withCall_last s q)]
      exact h.next
    · have hlt : i < s.calls.length := by omega
      rw [question_withCall hlt]
      exact h.numbered i hlt
  · intro i hi
    have hlt := h.present i hi
    rw [length_withCall]
    omega
  · intro i p hi
    obtain ⟨rfl, rfl⟩ | ⟨_, hi⟩ := phase?_withCall hi
    · exact ⟨nofun, fun hh => absurd (h.present _ hh) (Nat.lt_irrefl _)⟩
    · exact h.holder i p hi
  · intro i v hi
    obtain ⟨hv, _⟩ | ⟨hlt, hi⟩ := phase?_withCall hi
    · cases hv
    · obtain ⟨j, hj, hjlt, hid, hv⟩ := h.answered i v hi
      refine ⟨j, hj, ?_, ?_, ?_⟩
      · rw [length_withCall]
        omega
      · rw [question_withCall hlt, question_withCall hjlt, hid]
      · rw [question_withCall hjlt, hv]
  · intro i e hi
    obtain ⟨he, _⟩ | ⟨_, hi⟩ := phase?_withCall hi
    · cases he
    · exact (h.failed i e hi).imp_right overlong_withCall

theorem flow_holder (h : Flow a s taken pending unheard) (holder : Option Nat) :
    Flow a { s with holder := holder } taken pending unheard :=
  ⟨h.once, h.submitted, h.heard, h.requests, h.responses, h.ongoing, h.fault⟩

theorem consistent_lock {i : Nat} (h : Consistent a path s) (hi : s.phase? i = some .queued)
    (hh : s.holder = none) :
    Consistent a path { s.advance i .holding with holder := some i } := by
  obtain ⟨taken, pending, unheard, hf, hp⟩ := h
  have hadvance := flow_advance (p := .holding) hf fun j hj =>
    (submitted_other (hf.submitted j hj) hi (Or.inl rfl)).2
  refine ⟨taken, pending, unheard, flow_holder hadvance _, ?_⟩
  refine progress_advance hp hi (iff_of_true rfl rfl) ?_ nofun nofun
  intro j hj
  rw [hh]
  exact iff_of_false nofun fun he => hj (Option.some.inj he).symm

theorem consistent_submit {i : Nat} {x : Question} (h : Consistent a path s)
    (hi : s.calls[i]? = some ⟨x, .holding⟩) :
    Consistent a path { s.advance i .sending with
      unsent := s.unsent ++ (requestLine x.id x.query ++ [0x0A]) } := by
  obtain ⟨taken, pending, unheard, hf, hp⟩ := h
  have hphase := phase?_of_get hi
  have hother := fun j hj => submitted_other (p := .sending) (hf.submitted j hj) hphase (Or.inr rfl)
  have hadvance := flow_advance (p := .sending) hf fun j hj => (hother j hj).2
  have hline : request (s.advance i .sending) i = requestLine x.id x.query := by
    rw [request, question_advance, question_of_get hi, lineOf]
  refine ⟨taken, pending, unheard ++ [i], ⟨?_, ?_, hadvance.heard, ?_, hadvance.responses,
    hadvance.ongoing, hadvance.fault⟩, ?_⟩
  · rw [← List.append_assoc]
    refine List.nodup_append.mpr ⟨hf.once, List.pairwise_singleton _ _, ?_⟩
    intro j hj k hk
    rw [List.mem_singleton.mp hk]
    exact fun he => (hother j hj).1 he.symm
  · rw [← List.append_assoc]
    intro j hj
    obtain hj | hj := List.mem_append.mp hj
    · exact (hother j hj).2
    · rw [List.mem_singleton.mp hj]
      refine ⟨.sending, ?_, nofun, nofun⟩
      have hset := phase?_advance s i i .sending
      rwa [if_pos rfl, hphase] at hset
  · change s.requests ++ (s.unsent ++ (requestLine x.id x.query ++ [0x0A])) =
      joined ((unheard ++ [i]).map (request (s.advance i .sending)))
    rw [← List.append_assoc, List.map_append, joined_append, ← hadvance.requests,
      List.map_singleton, hline]
    simp [Session.advance]
  · have hsame : Progress a path (s.advance i .sending) taken :=
      progress_onward hp hphase rfl nofun
    exact progress_congr hsame rfl rfl rfl

theorem consistent_send (h : Consistent a path s) (n : Nat) :
    Consistent a path
      { s with requests := s.requests ++ s.unsent.take n, unsent := s.unsent.drop n } := by
  obtain ⟨taken, pending, unheard, hf, hp⟩ := h
  refine ⟨taken, pending, unheard, ⟨hf.once, hf.submitted, hf.heard, ?_, hf.responses, hf.ongoing,
    hf.fault⟩, progress_congr hp rfl rfl rfl⟩
  change s.requests ++ s.unsent.take n ++ s.unsent.drop n = _
  rw [List.append_assoc, List.take_append_drop]
  exact hf.requests

theorem consistent_sent {i : Nat} (h : Consistent a path s) (hi : s.phase? i = some .sending) :
    Consistent a path (s.advance i .reading) := by
  obtain ⟨taken, pending, unheard, hf, hp⟩ := h
  refine ⟨taken, pending, unheard, flow_advance hf fun j hj =>
    submitted_advance ⟨nofun, nofun⟩ (hf.submitted j hj), progress_onward hp hi rfl nofun⟩

theorem consistent_receive {n : Nat} (h : Consistent a path s) :
    Consistent a path { s with
      responses := s.responses.drop n
      channel := s.channel.receive (some (s.responses.take n)) } := by
  obtain ⟨taken, pending, unheard, hf, hp⟩ := h
  refine ⟨taken, pending, unheard, ⟨hf.once, hf.submitted, hf.heard, hf.requests, ?_, hf.ongoing,
    hf.fault⟩, progress_congr hp rfl rfl rfl⟩
  refine holds_receive ?_
  rw [List.take_append_drop]
  exact hf.responses

theorem splitOnto_done (done : List Text.Line) (begun bytes : List UInt8) :
    Text.splitOnto done begun bytes = done.reverse ++ Text.splitOnto [] begun bytes := by
  induction bytes generalizing done begun with
  | nil =>
    rw [Text.splitOnto, Text.splitOnto]
    split <;> simp
  | cons b bytes ih =>
    rw [Text.splitOnto, Text.splitOnto]
    split
    · rw [ih, ih [_]]
      simp
    · exact ih done (b :: begun)

theorem splitOnto_begun (begun bytes : List UInt8) (h : (0x0A : UInt8) ∉ bytes) :
    ∀ l ∈ Text.splitOnto [] begun bytes, l.ended = false := by
  induction bytes generalizing begun with
  | nil =>
    intro l hl
    rw [Text.splitOnto] at hl
    split at hl
    · cases hl
    · rw [List.mem_singleton.mp hl]
  | cons b bytes ih =>
    have hb : ¬ b = 0x0A := fun he => h (he ▸ List.mem_cons_self)
    rw [Text.splitOnto, if_neg hb]
    exact ih _ fun hm => h (List.mem_cons_of_mem _ hm)

theorem firstLine?_line {l : List UInt8} (hl : (0x0A : UInt8) ∉ l) (rest : List UInt8) :
    firstLine? (l ++ 0x0A :: rest) = some (⟨l, true⟩, rest) := by
  have hdrop := (cut_line l rest).2
  rw [firstLine?, Text.splitLines, splitOnto_line [] [] l rest hl, splitOnto_done]
  simp only [List.reverse_nil, List.nil_append, List.reverse_cons, List.singleton_append, if_true,
    Text.Line.raw, List.length_append, List.length_singleton, hdrop]

theorem firstLine?_eq_some {bytes rest : List UInt8} {line : Text.Line}
    (h : firstLine? bytes = some (line, rest)) :
    ∃ l, line = ⟨l, true⟩ ∧ (0x0A : UInt8) ∉ l ∧ bytes = l ++ 0x0A :: rest := by
  by_cases hm : (0x0A : UInt8) ∈ bytes
  · obtain ⟨l, more, rfl, hl⟩ := List.eq_append_cons_of_mem hm
    rw [firstLine?_line hl] at h
    cases h
    exact ⟨l, rfl, hl, rfl⟩
  · have hall := splitOnto_begun [] bytes hm
    rw [firstLine?, Text.splitLines] at h
    split at h
    · rename_i l ls hs
      rw [hall l (hs ▸ List.mem_cons_self)] at h
      cases h
    · cases h

theorem answers_request (a : SubAttester) (s : Session) (i : Nat) {lines : List (List Char)}
    (h : answers a [⟨request s i, true⟩] = (lines, .ok ())) :
    lines.flatMap (fun cs => Text.Utf8.encode (String.ofList cs)) = joined [response a s i] := by
  rw [request, lineOf, answers_cons] at h
  rw [← (Prod.mk.inj h).1, response, answers, List.flatMap_cons, List.flatMap_nil, encode_ofList,
    line_dispatch, joined_cons, joined_nil, List.append_nil]

theorem consistent_hear {line : Text.Line} {rest : List UInt8} {lines : List (List Char)}
    (h : Consistent a path s) (hl : firstLine? s.requests = some (line, rest))
    (ha : answers a [line] = (lines, .ok ())) :
    Consistent a path { s with
      requests := rest
      heard := s.heard ++ [line.bytes]
      responses := s.responses ++
        lines.flatMap fun cs => Text.Utf8.encode (String.ofList cs) } := by
  obtain ⟨taken, pending, unheard, hf, hp⟩ := h
  obtain ⟨l, rfl, hwhole, hrequests⟩ := firstLine?_eq_some hl
  have hout := hf.requests
  rw [hrequests, List.append_assoc, List.cons_append] at hout
  cases unheard with
  | nil => simp at hout
  | cons i unheard =>
    rw [List.map_cons, joined_cons] at hout
    obtain ⟨hline, hrest⟩ := line_unique hwhole (whole_request s i) hout
    rw [hline] at ha ⊢
    have hmove : taken ++ (pending ++ [i]) ++ unheard = taken ++ pending ++ i :: unheard := by
      simp
    have hlines := answers_request a s i ha
    refine ⟨taken, pending ++ [i], unheard, ⟨hmove ▸ hf.once, hmove ▸ hf.submitted, ?_, hrest, ?_,
      hf.ongoing, hf.fault⟩, progress_congr hp rfl rfl rfl⟩
    · change s.heard ++ [request s i] = _
      have hmap : (taken ++ pending ++ [i]).map (request s) =
          (taken ++ pending).map (request s) ++ [request s i] := List.map_append
      rw [hf.heard, ← List.append_assoc, ← hmap]
      rfl
    · rw [hlines, List.map_append]
      exact holds_write hf.responses

theorem eq_of_id {i j : Nat} (h : Progress a path s taken) (hcount : s.calls.length ≤ UInt64.size)
    (hi : i < s.calls.length) (hj : j < s.calls.length)
    (hid : (question s i).id = (question s j).id) : i = j := by
  rw [h.numbered i hi, h.numbered j hj, ← UInt64.toNat_inj, UInt64.toNat_ofNat',
    UInt64.toNat_ofNat'] at hid
  have hsize : UInt64.size = 18446744073709551616 := rfl
  omega

theorem whole_responses (a : SubAttester) (s : Session) (l : List Nat) :
    Whole (l.map (response a s)) := by
  intro line hline
  obtain ⟨i, _, rfl⟩ := List.mem_map.mp hline
  exact whole_response a s i

theorem progress_release {i : Nat} {p q : Phase} (h : Progress a path s taken)
    (hi : s.phase? i = some q) (hq : q.holds = true) (hp : p.holds = false)
    (hok : ∀ v, p = .done (.ok v) → Answered a s taken i v)
    (herror : ∀ e, p = .done (.error e) → (e = tooLong ∨ e = closedOutput path) ∧ Overlong a s) :
    Progress a path { s.advance i p with holder := none } taken := by
  have hholder : s.holder = some i := (h.holder i q hi).mp hq
  refine progress_advance h hi (iff_of_false (by simp [hp]) nofun) ?_ hok herror
  intro j hj
  rw [hholder]
  exact iff_of_false (fun he => hj (Option.some.inj he).symm) nofun

theorem flow_channel {channel : Channel} (h : Flow a s taken pending unheard)
    (hh : Holds channel s.responses (pending.map (response a s))) (he : channel.ended = false)
    (hf : channel.failed = true → Overlong a s) :
    Flow a { s with channel := channel } taken pending unheard :=
  ⟨h.once, h.submitted, h.heard, h.requests, hh, he, hf⟩

theorem flow_take {channel : Channel} {j : Nat} (h : Flow a s taken (j :: pending) unheard)
    (hh : Holds channel s.responses (pending.map (response a s))) (he : channel.ended = false)
    (hf : channel.failed = true → Overlong a s) :
    Flow a { s with channel := channel } (taken ++ [j]) pending unheard := by
  have hmove : taken ++ [j] ++ pending = taken ++ j :: pending := by
    rw [List.append_assoc, List.singleton_append]
  refine ⟨?_, ?_, ?_, h.requests, hh, he, hf⟩
  · rw [hmove]
    exact h.once
  · rw [hmove]
    exact h.submitted
  · rw [hmove]
    exact h.heard

theorem consistent_taken {i : Nat} {x : Question} {channel : Channel} {verdict : Verdict}
    (hi : s.calls[i]? = some ⟨x, .reading⟩)
    (hf : Flow a { s with channel := channel } taken pending unheard)
    (hp : Progress a path s taken)
    (hok : ∀ v, verdict = .settled (.ok v) → Answered a s taken i v)
    (herror : ∀ e, verdict = .settled (.error e) →
      (e = tooLong ∨ e = closedOutput path) ∧ Overlong a s) :
    Consistent a path (s.judged i channel verdict) := by
  cases verdict with
  | skip => exact ⟨taken, pending, unheard, hf, progress_congr hp rfl rfl rfl⟩
  | settled outcome =>
    have hadvance := flow_advance (p := .done outcome) (i := i) hf fun j hj =>
      submitted_advance ⟨nofun, nofun⟩ (hf.submitted j hj)
    have hrelease := progress_release (p := .done outcome) hp (phase?_of_get hi) rfl rfl
      (fun v hv => hok v (by cases hv; rfl)) (fun e he => herror e (by cases he; rfl))
    exact ⟨taken, pending, unheard, flow_holder hadvance none,
      progress_congr hrelease rfl rfl rfl⟩

theorem consistent_take {i : Nat} {x : Question} {f : Option Frame} {channel : Channel}
    (h : Consistent a path s) (hi : s.calls[i]? = some ⟨x, .reading⟩)
    (ha : s.channel.attempt = some (f, channel)) :
    Consistent a path (s.judged i channel (judge path x.id f)) := by
  obtain ⟨taken, pending, unheard, hf, hp⟩ := h
  obtain ⟨hgo, ⟨rfl, hfault, hclear, hh⟩ | ⟨l, rest, frame, hlines, rfl, hcut, hfailed, hh⟩⟩ :=
    attempt_holds (whole_responses a s pending) hf.responses hf.ongoing ha
  · -- The end that seems to follow a fault.
    have hlong := hf.fault hfault
    refine consistent_taken hi (flow_channel hf hh hgo (by simp [hclear])) hp nofun ?_
    rintro e ⟨⟩
    exact ⟨Or.inr rfl, hlong⟩
  · obtain ⟨j, pending, rfl, rfl, rfl⟩ := List.map_eq_cons_iff.mp hlines
    have hj := lt_of_submitted (hf.submitted j (by simp))
    cases hcut with
    | line hfits =>
      have hjudge := judge_responseLine a (question s j) path x.id
      rw [← response] at hjudge
      have htext : channel.failed = false := by
        rw [hfailed, response, ofLine_responseLine]
        rfl
      refine consistent_taken hi (flow_take hf hh hgo (by simp [htext])) (progress_taken hp) ?_ ?_
      · intro v hv
        rw [hjudge] at hv
        split at hv
        · rename_i hid
          cases hv
          refine ⟨j, List.mem_append_right _ List.mem_cons_self, hj, ?_, rfl⟩
          rw [hid, question_of_get hi]
        · cases hv
      · intro e he
        rw [hjudge] at he
        split at he <;> cases he
    | tooLong hlong =>
      have hover : Overlong a s := ⟨j, hj, hlong⟩
      refine consistent_taken hi (flow_take hf hh hgo fun _ => hover) (progress_taken hp) nofun ?_
      rintro e ⟨⟩
      exact ⟨Or.inl rfl, hover⟩

theorem consistent_withdraw {i : Nat} (h : Consistent a path s) (hi : s.phase? i = some .queued) :
    Consistent a path (s.advance i .cancelled) := by
  obtain ⟨taken, pending, unheard, hf, hp⟩ := h
  exact ⟨taken, pending, unheard, flow_advance hf fun j hj =>
    submitted_advance ⟨nofun, nofun⟩ (hf.submitted j hj), progress_onward hp hi rfl nofun⟩

theorem consistent_cancel {i : Nat} {p : Phase} (h : Consistent a path s)
    (hi : s.phase? i = some p) (hp : p.holds = true) :
    Consistent a path { s.advance i .cancelled with holder := none } := by
  obtain ⟨taken, pending, unheard, hf, hprog⟩ := h
  have hadvance := flow_advance (p := .cancelled) (i := i) hf fun j hj =>
    submitted_advance ⟨nofun, nofun⟩ (hf.submitted j hj)
  exact ⟨taken, pending, unheard, flow_holder hadvance none,
    progress_release hprog hi hp rfl nofun nofun⟩

theorem consistent_step {m : Move} (h : Consistent a path s)
    (hs : step a path s m = some s') : Consistent a path s' := by
  cases m with
  | call q =>
    cases hs
    obtain ⟨taken, pending, unheard, hf, hp⟩ := h
    exact ⟨taken, pending, unheard, flow_withCall hf q, progress_withCall hp q⟩
  | lock i =>
    simp only [step] at hs
    split at hs
    · rename_i hi hh
      cases hs
      exact consistent_lock h hi hh
    · cases hs
  | submit i =>
    simp only [step] at hs
    split at hs
    · rename_i hi
      cases hs
      exact consistent_submit h hi
    · cases hs
  | send i n =>
    simp only [step] at hs
    split at hs
    · cases hs
      exact consistent_send h n
    · cases hs
      exact consistent_send h n
    · cases hs
  | sent i =>
    simp only [step] at hs
    split at hs
    · rename_i hi _
      cases hs
      exact consistent_sent h hi
    · cases hs
  | hear =>
    simp only [step] at hs
    split at hs
    · rename_i hl
      split at hs
      · rename_i ha
        cases hs
        exact consistent_hear h hl ha
      · cases hs
    · cases hs
  | receive i n =>
    simp only [step] at hs
    split at hs
    · rename_i hpart
      cases hs
      rw [← hpart]
      exact consistent_receive h
    · cases hs
  | take i =>
    simp only [step] at hs
    split at hs
    · rename_i hi ha
      cases hs
      exact consistent_take h hi ha
    · cases hs
  | cancel i =>
    simp only [step] at hs
    split at hs
    · rename_i hi
      cases hs
      exact consistent_withdraw h hi
    · rename_i hi
      split at hs
      · rename_i hp
        cases hs
        exact consistent_cancel h hi hp
      · cases hs
    · cases hs

/-- Whatever has happened, what has gone through the channel are the requests that were handed
over. -/
theorem consistent_run {moves : List Move} (h : Consistent a path s)
    (hr : moves.foldlM (step a path) s = some s') : Consistent a path s' := by
  induction moves generalizing s with
  | nil =>
    cases hr
    exact h
  | cons m moves ih =>
    rw [List.foldlM_cons] at hr
    obtain ⟨t, hs, hr⟩ := Option.bind_eq_some_iff.mp hr
    exact ih (consistent_step h hs) hr

end Attestation.Proofs.SharedChannel
