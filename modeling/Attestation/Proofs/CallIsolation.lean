import Attestation.Mock
import Attestation.Proofs.SharedChannel
import Mathlib.Data.List.Perm.Subperm

namespace Attestation.Proofs.CallIsolation

open Framing LineText Messages Plugin Rpc SharedChannel
open Json (Value)
open Plugin.Session (Move run step)

variable {a : SubAttester} {path : String} {s : Session}

def GivenUp (c : SharedCall) : Prop := c.phase = .cancelled ∨ ∃ e, c.phase = .done (.error e)

/-- What a frame is to the call that takes it: the response to its own request, which it returns,
or that to the request of a call that was given up, which it drops. A line that is too long is
neither. -/
inductive Taken (a : SubAttester) (path : String) (s : Session) (i : Nat) (c : SharedCall)
    (rest : Channel) : Frame → Prop
  | own
    (h : step a path s (.take i) =
      some (s.judged i rest (.settled (.ok (resultOf a c.question.query))))) :
    Taken a path s i c rest (.ofLine (responseLine a c.question))
  | stale (d : SharedCall) (hd : d ∈ s.calls) (hup : GivenUp d)
    (h : step a path s (.take i) = some { s with channel := rest }) :
    Taken a path s i c rest (.ofLine (responseLine a d.question))
  | tooLong (h : Overlong a s) : Taken a path s i c rest .tooLong

/-- Each call has a conversation of its own. -/
structure Apart (a : SubAttester) (path : String) (s : Session) : Prop where
  /-- A result is what the plugin answers to the request line of the call, which it has read. -/
  own : s.calls.length ≤ UInt64.size → ∀ c ∈ s.calls, ∀ v, c.phase = .done (.ok v) →
    requestLine c.question.id c.question.query ∈ s.heard ∧
      dispatch a (requestLine c.question.id c.question.query) = .ofResult c.question.id v
  taken : s.calls.length ≤ UInt64.size → ∀ i (c : SharedCall) frame rest,
    s.calls[i]? = some c → c.phase = .reading →
    s.channel.attempt = some (some frame, rest) → Taken a path s i c rest frame
  /-- The plugin reads the requests line by line, none of them twice. -/
  once : ∃ heard waiting : List SharedCall, (heard ++ waiting).Subperm s.calls ∧
    s.heard = heard.map (fun c => requestLine c.question.id c.question.query) ∧
    s.requests ++ s.unsent =
      joined (waiting.map fun c => requestLine c.question.id c.question.query)
  /-- One call at a time has the channel. -/
  alone : ∀ i j p q, s.phase? i = some p → s.phase? j = some q →
    p.holds = true → q.holds = true → i = j
  /-- A call fails only where some response is too long for a line. -/
  failed : ∀ c ∈ s.calls, ∀ e, c.phase = .done (.error e) →
    (e = tooLong ∨ e = closedOutput path) ∧ Overlong a s

def callAt (s : Session) (i : Nat) : SharedCall :=
  s.calls[i]?.getD ⟨⟨0, .identity⟩, .cancelled⟩

theorem question_callAt (s : Session) (i : Nat) : (callAt s i).question = question s i := by
  rw [callAt, question]
  cases s.calls[i]? <;> rfl

theorem question_of_call {i : Nat} {c : SharedCall} (h : s.calls[i]? = some c) :
    question s i = c.question := question_of_get h

theorem phase?_of_call {i : Nat} {c : SharedCall} (h : s.calls[i]? = some c) :
    s.phase? i = some c.phase := phase?_of_get h

theorem subperm_calls {order : List Nat} (hn : order.Nodup)
    (hlt : ∀ i ∈ order, i < s.calls.length) :
    (order.map (callAt s)).Subperm s.calls := by
  obtain ⟨places, hperm, hsub⟩ : order.Subperm (List.range s.calls.length) :=
    List.subperm_of_subset hn fun i hi => List.mem_range.mpr (hlt i hi)
  have hall : (List.range s.calls.length).map (callAt s) = s.calls := by
    refine List.ext_getElem (by simp) fun i _ hi => ?_
    simp [callAt, hi]
  exact ⟨places.map (callAt s), hperm.map _, hall ▸ hsub.map _⟩

variable {taken pending unheard : List Nat}

theorem lines_callAt (order : List Nat) :
    (order.map (callAt s)).map (fun c => requestLine c.question.id c.question.query) =
      order.map (SharedChannel.request s) := by
  rw [List.map_map]
  refine List.map_congr_left fun i _ => ?_
  rw [Function.comp_apply, question_callAt, SharedChannel.request, lineOf]

theorem answered_own (hp : Progress a path s taken)
    (hcount : s.calls.length ≤ UInt64.size) {i : Nat} {v : Value}
    (h : s.phase? i = some (.done (.ok v))) : i ∈ taken ∧ v = resultOf a (question s i).query := by
  obtain ⟨j, hj, hlt, hid, hv⟩ := hp.answered i v h
  obtain rfl := eq_of_id hp hcount hlt (lt_of_phase? h) hid
  exact ⟨hj, hv⟩

theorem givenUp_of_pending (hf : Flow a s taken pending unheard) (hp : Progress a path s taken)
    (hcount : s.calls.length ≤ UInt64.size) {i j : Nat} {c : SharedCall} (hi : s.calls[i]? = some c)
    (hread : c.phase = .reading) (hj : j ∈ pending) (hij : j ≠ i) :
    ∃ d, s.calls[j]? = some d ∧ GivenUp d := by
  obtain ⟨p, hphase, hqueued, hholding⟩ := hf.submitted j (by simp [hj])
  obtain ⟨d, hd, rfl⟩ := Option.map_eq_some_iff.mp hphase
  have hmine : s.holder = some i :=
    (hp.holder i _ (phase?_of_call hi)).mp (by rw [hread]; rfl)
  have hfree : d.phase.holds ≠ true := fun hholds => by
    have := (hp.holder j _ hphase).mp hholds
    rw [hmine] at this
    exact hij (Option.some.inj this).symm
  refine ⟨d, hd, ?_⟩
  cases hd' : d.phase with
  | queued => exact absurd hd' hqueued
  | holding => exact absurd hd' hholding
  | sending | reading => exact absurd (by rw [hd']; rfl) hfree
  | cancelled => exact Or.inl hd'
  | done outcome =>
    cases outcome with
    | error e => exact Or.inr ⟨e, hd'⟩
    | ok v =>
      have htaken := (answered_own hp hcount (hd' ▸ hphase)).1
      have hnodup := (List.nodup_append.mp (List.nodup_append.mp hf.once).1).2.2
      exact absurd rfl (hnodup j htaken j hj)

/-- A call that reads takes the response to its own request, or drops that of a call that was
given up. -/
theorem taken_of_attempt (hf : Flow a s taken pending unheard) (hp : Progress a path s taken)
    (hcount : s.calls.length ≤ UInt64.size) {i : Nat} {c : SharedCall} {frame : Frame}
    {rest : Channel} (hi : s.calls[i]? = some c) (hread : c.phase = .reading)
    (ha : s.channel.attempt = some (some frame, rest)) : Taken a path s i c rest frame := by
  obtain ⟨x, p⟩ := c
  obtain rfl : p = .reading := hread
  have hstep : step a path s (.take i) =
      some (s.judged i rest (judge path x.id (some frame))) := by
    simp only [step, hi, ha]
  obtain ⟨_, ⟨he, _⟩ | ⟨l, _, _, hlines, hframe, hcut, _⟩⟩ :=
    attempt_holds (whole_responses a s pending) hf.responses hf.ongoing ha
  · cases he
  · cases hframe
    obtain ⟨j, later, rfl, rfl, _⟩ := List.map_eq_cons_iff.mp hlines
    have hj := lt_of_submitted (hf.submitted j (by simp))
    cases hcut with
    | tooLong hlong => exact .tooLong ⟨j, hj, hlong⟩
    | line =>
      rw [response] at hstep ⊢
      rw [judge_responseLine] at hstep
      by_cases hij : j = i
      · rw [hij, question_of_call hi] at hstep ⊢
        rw [if_pos rfl] at hstep
        exact .own hstep
      · have hne : (question s j).id ≠ x.id := fun hid => by
          rw [← question_of_get hi] at hid
          exact hij (eq_of_id hp hcount hj (lt_of_phase? (phase?_of_get hi)) hid)
        rw [if_neg hne] at hstep
        obtain ⟨d, hd, hup⟩ :=
          givenUp_of_pending hf hp hcount hi rfl List.mem_cons_self hij
        rw [question_of_call hd]
        exact .stale d (List.mem_of_getElem? hd) hup hstep

/-- Whatever the calls do, and wherever they are given up, none of them gets the answer to another
one. -/
theorem calls_keep_apart {a : SubAttester} {path : String} {moves : List Move} {s : Session}
    (h : run a path moves = some s) : Apart a path s := by
  obtain ⟨taken, pending, unheard, hf, hp⟩ := consistent_run (consistent_start a path) h
  refine ⟨?_, ?_, ?_, ?_, ?_⟩
  · intro hcount c hc v hv
    obtain ⟨i, hi⟩ := List.mem_iff_getElem?.mp hc
    obtain ⟨htaken, hresult⟩ := answered_own hp hcount (hv ▸ phase?_of_call hi)
    rw [question_of_call hi] at hresult
    rw [dispatch_requestLine, hresult, hf.heard]
    refine ⟨List.mem_map.mpr ⟨i, List.mem_append_left _ htaken, ?_⟩, rfl⟩
    rw [SharedChannel.request, lineOf, question_of_call hi]
  · intro hcount i c frame rest hi hread ha
    exact taken_of_attempt hf hp hcount hi hread ha
  · refine ⟨(taken ++ pending).map (callAt s), unheard.map (callAt s), ?_, ?_, ?_⟩
    · rw [← List.map_append]
      exact subperm_calls hf.once fun i hi => lt_of_submitted (hf.submitted i hi)
    · rw [lines_callAt]
      exact hf.heard
    · rw [lines_callAt]
      exact hf.requests
  · intro i j p q hi hj hip hjq
    have hholder := (hp.holder i p hi).mp hip
    rw [(hp.holder j q hj).mp hjq] at hholder
    exact (Option.some.inj hholder).symm
  · intro c hc e he
    obtain ⟨i, hi⟩ := List.mem_iff_getElem?.mp hc
    exact hp.failed i e (he ▸ phase?_of_call hi)

section cancelling

variable {i n : Nat} {x y : Question} {rest : List UInt8}

theorem step_send (hi : s.phase? i = some .sending) (hn : s.unsent.length ≤ n) :
    step a path s (.send i n) =
      some { s with requests := s.requests ++ s.unsent, unsent := [] } := by
  simp only [step, hi, List.take_of_length_le hn, List.drop_eq_nil_of_le hn]

theorem step_submit (hi : s.calls[i]? = some ⟨x, .holding⟩) :
    step a path s (.submit i) =
      some { s.advance i .sending with unsent := s.unsent ++ (lineOf x ++ [0x0A]) } := by
  simp only [step, hi, lineOf]

theorem step_hear (h : s.requests = lineOf x ++ 0x0A :: rest) :
    step a path s .hear = some { s with
      requests := rest
      heard := s.heard ++ [lineOf x]
      responses := s.responses ++ (responseLine a x ++ [0x0A]) } := by
  rw [lineOf] at h ⊢
  have hline := firstLine?_line (not_mem_requestLine x (by decide : (0x0A : UInt8) < 0x20)) rest
  have hbytes : [(dispatch a (requestLine x.id x.query)).line].flatMap
      (fun cs => Text.Utf8.encode (String.ofList cs)) = responseLine a x ++ [0x0A] := by
    rw [List.flatMap_singleton, Utf8Encoding.encode_ofList, line_dispatch]
  simp only [step, h, hline, answers_line, hbytes]

theorem step_receive (hi : s.phase? i = some .reading) (hne : s.responses ≠ [])
    (hn : s.responses.length ≤ n) :
    step a path s (.receive i n) = some { s with
      responses := []
      channel := s.channel.receive (some s.responses) } := by
  obtain ⟨b, part, hb⟩ := List.exists_cons_of_ne_nil hne
  rw [hb] at hn ⊢
  simp only [step, hi, hb, List.take_of_length_le hn, List.drop_eq_nil_of_le hn]

theorem step_take (hi : s.calls[i]? = some ⟨x, .reading⟩)
    (hc : s.channel = ⟨responseLine a y ++ 0x0A :: rest, false, false, true, false⟩)
    (hfit : (responseLine a y).length ≤ maxLine) :
    step a path s (.take i) = some (s.judged i ⟨rest, false, false, true, false⟩
      (if y.id = x.id then .settled (.ok (resultOf a y.query)) else .skip)) := by
  have hbuffer : s.channel.buffer = responseLine a y ++ 0x0A :: rest := by rw [hc]
  have hattempt := Framing.attempt_line (by rw [hc]) (by rw [hc]) (by rw [hc]) hbuffer
    (not_mem_responseLine a y (by decide)) hfit
  have hfault : (Frame.ofLine (responseLine a y)).isFault = false := by
    rw [ofLine_responseLine]
    rfl
  rw [hfault, hc] at hattempt
  simp only [step, hi, hc, hattempt, judge_responseLine]

/-- The second of two calls finds the channel as the first one has left it, given up while it
waited for its response. -/
def afterCancelling (q r : Query) (n : Nat) : List Move :=
  [.call q, .call r, .lock 0, .submit 0, .send 0 n, .sent 0, .cancel 0, .lock 1, .submit 1,
    .send 1 n, .sent 1, .hear, .hear, .receive 1 n, .take 1, .take 1]

theorem moves_cons {m : Move} {moves : List Move} {s s' : Session}
    (h : step a path s m = some s') :
    (m :: moves).foldlM (step a path) s = moves.foldlM (step a path) s' := by
  rw [List.foldlM_cons, h]
  rfl

/-- A call that was given up leaves the channel usable: its response is taken and dropped. -/
theorem run_afterCancelling (a : SubAttester) (path : String) (q r : Query) {n : Nat}
    (hq : (responseLine a ⟨1, q⟩).length ≤ maxLine) (hr : (responseLine a ⟨2, r⟩).length ≤ maxLine)
    (hn : (lineOf ⟨1, q⟩).length < n ∧ (lineOf ⟨2, r⟩).length < n)
    (hm : (responseLine a ⟨1, q⟩).length + (responseLine a ⟨2, r⟩).length + 2 ≤ n) :
    run a path (afterCancelling q r n) = some
      ⟨3, [⟨⟨1, q⟩, .cancelled⟩, ⟨⟨2, r⟩, .done (.ok (resultOf a r))⟩], none, [], [],
        [lineOf ⟨1, q⟩, lineOf ⟨2, r⟩], [], ⟨[], false, false, true, false⟩⟩ := by
  let channel : Channel := ⟨[], false, false, true, false⟩
  let handed : Session := ⟨3, [⟨⟨1, q⟩, .sending⟩, ⟨⟨2, r⟩, .queued⟩], some 0,
    [] ++ (lineOf ⟨1, q⟩ ++ [0x0A]), [], [], [], channel⟩
  let next : Session := ⟨3, [⟨⟨1, q⟩, .cancelled⟩, ⟨⟨2, r⟩, .sending⟩], some 1,
    [] ++ (lineOf ⟨2, r⟩ ++ [0x0A]), lineOf ⟨1, q⟩ ++ [0x0A], [], [], channel⟩
  let reading : List SharedCall := [⟨⟨1, q⟩, .cancelled⟩, ⟨⟨2, r⟩, .reading⟩]
  let answered : Session := ⟨3, reading, some 1, [], [], [lineOf ⟨1, q⟩, lineOf ⟨2, r⟩],
    responseLine a ⟨1, q⟩ ++ 0x0A :: (responseLine a ⟨2, r⟩ ++ [0x0A]), channel⟩
  have hsend₁ : step a path handed (.send 0 n) =
      some { handed with requests := lineOf ⟨1, q⟩ ++ [0x0A], unsent := [] } := by
    rw [step_send rfl (by simp [handed]; omega)]
    rfl
  have hsend₂ : step a path next (.send 1 n) = some { next with
      requests := lineOf ⟨1, q⟩ ++ 0x0A :: (lineOf ⟨2, r⟩ ++ [0x0A])
      unsent := [] } := by
    rw [step_send rfl (by simp [next]; omega)]
    simp [next]
  have hhear₁ : step a path ⟨3, reading, some 1, [],
      lineOf ⟨1, q⟩ ++ 0x0A :: (lineOf ⟨2, r⟩ ++ [0x0A]), [], [], channel⟩ .hear =
      some ⟨3, reading, some 1, [], lineOf ⟨2, r⟩ ++ [0x0A], [lineOf ⟨1, q⟩],
        responseLine a ⟨1, q⟩ ++ [0x0A], channel⟩ := step_hear rfl
  have hhear₂ : step a path ⟨3, reading, some 1, [], lineOf ⟨2, r⟩ ++ [0x0A], [lineOf ⟨1, q⟩],
        responseLine a ⟨1, q⟩ ++ [0x0A], channel⟩ .hear = some answered := by
    rw [@step_hear a path _ ⟨2, r⟩ [] rfl]
    simp [answered]
  have hreceive : step a path answered (.receive 1 n) = some { answered with
      responses := []
      channel := ⟨responseLine a ⟨1, q⟩ ++ 0x0A :: (responseLine a ⟨2, r⟩ ++ [0x0A]), false, false,
        true, false⟩ } := by
    rw [step_receive rfl (by simp [answered]) (by simp [answered]; omega)]
    rfl
  rw [run, afterCancelling, moves_cons rfl, moves_cons rfl, moves_cons rfl]
  refine (moves_cons (step_submit rfl)).trans ?_
  refine (moves_cons hsend₁).trans ?_
  rw [moves_cons rfl, moves_cons rfl, moves_cons rfl]
  refine (moves_cons (step_submit rfl)).trans ?_
  refine (moves_cons hsend₂).trans ?_
  rw [moves_cons rfl]
  refine (moves_cons hhear₁).trans ?_
  refine (moves_cons hhear₂).trans ?_
  refine (moves_cons hreceive).trans ?_
  -- The response to the call that was given up is taken by the other one, and dropped.
  refine (moves_cons (step_take rfl rfl hq)).trans ?_
  refine (moves_cons (step_take rfl rfl hr)).trans ?_
  rfl

/-- Nothing is left over of the call that was given up, and the other one has the answer to its own
question. -/
theorem calls_keep_apart_after_cancelling :
    let a := Mock.subAttester "a" ⟨"x", [1, 2]⟩
    ∃ s v, run a "p" (afterCancelling .formats .options 1000) = some s ∧ Apart a "p" s ∧
      s.calls = [⟨⟨1, .formats⟩, .cancelled⟩, ⟨⟨2, .options⟩, .done (.ok v)⟩] ∧
      s.heard.length = 2 ∧ s.responses = [] ∧ s.channel.buffer = [] ∧
      answerOf .options (.ok v) = OptionsAnswer.success [] := by
  intro a
  have hq : (responseLine a ⟨1, .formats⟩).length ≤ 400 := by
    rw [responseLine_eq]
    decide +kernel
  have hr : (responseLine a ⟨2, .options⟩).length ≤ 400 := by
    rw [responseLine_eq]
    decide +kernel
  have hn : (lineOf ⟨1, .formats⟩).length < 1000 ∧ (lineOf ⟨2, .options⟩).length < 1000 := by
    decide +kernel
  have hmax : 400 ≤ maxLine := by decide
  have hrun := run_afterCancelling a "p" .formats .options (hq.trans hmax) (hr.trans hmax) hn
    (Nat.add_le_add_right (Nat.add_le_add hq hr) 2 |>.trans (by decide))
  exact ⟨_, _, hrun, calls_keep_apart hrun, rfl, rfl, rfl, rfl, answerOf_resultOf a .options⟩

end cancelling

end Attestation.Proofs.CallIsolation
