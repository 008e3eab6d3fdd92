import Attestation.Mock
import Attestation.Proofs.ServingChildren

namespace Attestation.Proofs.Transparency

open Framing LineText Messages Plugin Rpc ServingChildren Utf8Encoding

/-- All responses have room in a line. -/
def Fits (a : SubAttester) (xs : List Question) : Prop :=
  ∀ x ∈ xs, (responseLine a x).length ≤ maxLine

variable {a : SubAttester} {pipe : Pipe} {xs : List Question} {n : Nat} {c c' : Child}
  {x : Question}

/-- A line that is read as it stands. -/
structure Readable (l : List UInt8) : Prop where
  whole : (0x0A : UInt8) ∉ l
  fits : l.length ≤ maxLine
  text : (Frame.ofLine l).isFault = false

theorem readable_handshake : Readable handshakeBytes := by
  have hline : Handshake.current.line = "1|1|subattester|jsonrpc" := rfl
  refine ⟨?_, ?_, ?_⟩
  · rw [handshakeBytes, hline]
    decide
  · rw [handshakeBytes, hline]
    decide
  · rw [handshakeBytes, hline]
    rfl

theorem readable_responseLine (h : (responseLine a x).length ≤ maxLine) :
    Readable (responseLine a x) :=
  ⟨not_mem_responseLine a x (by decide), h, by rw [ofLine_responseLine]; rfl⟩

theorem readable_linesOf (h : Fits a xs) : ∀ l ∈ linesOf a xs, Readable l := by
  intro l hl
  obtain rfl | hl := List.mem_cons.mp hl
  · exact readable_handshake
  · obtain ⟨x, hx, rfl⟩ := List.mem_map.mp hl
    exact readable_responseLine (h x hx)

theorem readable_of_drop {l : List UInt8} {rest : List (List UInt8)} (hf : Fits a xs)
    (hd : (linesOf a xs).drop n = l :: rest) : Readable l := by
  refine readable_linesOf hf l (List.mem_of_mem_drop (i := n) ?_)
  rw [hd]
  exact List.mem_cons_self

theorem length_linesOf (a : SubAttester) (xs : List Question) :
    (linesOf a xs).length = xs.length + 1 := by
  simp [linesOf]

/-- The channel to a process is in step: what comes next are the lines that have not been read. -/
structure InStep (a : SubAttester) (xs : List Question) (n : Nat) (c : Child) : Prop where
  alive : Alive c
  aligned : Aligned c.channel
  output : c.channel.buffer ++ carried c.arrivals = joined ((linesOf a xs).drop n)
  bound : n ≤ xs.length + 1

theorem next_inStep {l : List UInt8} {rest : List (List UInt8)} (h : InStep a xs n c)
    (hd : (linesOf a xs).drop n = l :: rest) (hl : Readable l) (now : Nat) :
    ∃ time c', c.next now = some (time, some (.ofLine l), c') ∧ InStep a xs (n + 1) c' := by
  have hout := h.output
  rw [hd, joined_cons] at hout
  obtain ⟨time, channel, left, hnext, halign, hgo, hrest⟩ :=
    next_line hl.whole hl.fits hl.text c.arrivals [] now h.aligned h.alive.ongoing hout
  rw [List.append_nil, List.append_nil] at hnext
  refine ⟨time, { c with channel := channel, arrivals := left }, ?_,
    ⟨⟨h.alive.unstopped, h.alive.unfinished, hgo⟩, halign, ?_, ?_⟩⟩
  · rw [Child.next, visible_of_alive h.alive, hnext]
    rfl
  · rw [← List.drop_drop, hd, List.drop_one, List.tail_cons]
    exact hrest
  · have hlen : n < (linesOf a xs).length := by
      apply Nat.lt_of_not_le
      intro hle
      rw [List.drop_eq_nil_of_le hle] at hd
      cases hd
    rw [length_linesOf] at hlen
    exact hlen

theorem inStep_send (h : InStep a xs n c) (hs : Attached a pipe xs c) (now : Nat) (q : Query) :
    InStep a (xs ++ [⟨c.nextId, q⟩]) n (c.send now q).2 := by
  have hdrop : (linesOf a (xs ++ [⟨c.nextId, q⟩])).drop n =
      (linesOf a xs).drop n ++ [responseLine a ⟨c.nextId, q⟩] := by
    rw [linesOf_concat, List.drop_append_of_le_length]
    rw [length_linesOf]
    exact h.bound
  refine ⟨(attached_send hs now q).alive, ?_, ?_, ?_⟩
  · rw [send_attached hs]
    exact h.aligned
  · rw [send_attached hs, hdrop, joined_append, ← h.output, List.append_assoc]
    simp only [carried_append, carried_arrivalsOf]
  · rw [List.length_append]
    have hbound := h.bound
    omega

theorem serving_inStep (h : Serving a pipe xs n c) (hf : Fits a xs) : InStep a xs n c := by
  induction h with
  | started path now =>
    rw [start_eq_child]
    refine ⟨⟨rfl, rfl, ongoing_arrivalsFrom _ _⟩, aligned_start, ?_, Nat.zero_le _⟩
    change carried _ = _
    rw [carried_arrivalsFrom, pipe.whole, written_eq, List.drop_zero]
  | sent hs now q ih =>
    exact inStep_send (ih fun y hy => hf y (List.mem_append_left _ hy)) (serving_attached hs) now q
  | @read xs n c c' now time f _ hr ih =>
    have hstep := ih hf
    cases hd : (linesOf a xs).drop n with
    | nil =>
      -- There is nothing left to read.
      have hout := hstep.output
      rw [hd] at hout
      have hnone := next_nothing c.arrivals now hstep.aligned hstep.alive.ongoing hout
      rw [Child.next, visible_of_alive hstep.alive, hnone] at hr
      cases hr
    | cons l rest =>
      obtain ⟨time, c'', hnext, hafter⟩ := next_inStep hstep hd (readable_of_drop hf hd) now
      rw [hnext] at hr
      cases hr
      exact hafter

theorem serving_introduced (h : Serving a pipe xs 0 c) (hf : Fits a xs) (path : String)
    (now : Nat) :
    ∃ time line c', c.next now = some (time, some (.line line), c') ∧ verify path line = .ok () ∧
      Serving a pipe xs 1 c' := by
  obtain ⟨time, c', hnext, _⟩ := next_inStep (serving_inStep h hf) rfl readable_handshake now
  have hline : Frame.ofLine handshakeBytes = .line Handshake.current.line := by rfl
  have hparse : Handshake.parse? Handshake.current.line = some .current := by decide +kernel
  have hread := hnext
  rw [hline] at hread
  refine ⟨time, _, c', hread, ?_, Serving.read h hnext⟩
  rw [verify, hparse]
  rfl

/-- A call reads past the responses to other calls, up to its own one. -/
theorem settle_serving (stale later : List Question) (hids : ∀ y ∈ stale, y.id ≠ x.id)
    (hf : Fits a xs) (h : Serving a pipe xs n c)
    (hd : (linesOf a xs).drop n = (stale ++ x :: later).map (responseLine a)) {fuel : Nat}
    (hfuel : stale.length < fuel) (now : Nat) :
    ∃ time c', c.settle x.id fuel now = some (time, .ok (resultOf a x.query), c') ∧
      Serving a pipe xs (n + stale.length + 1) c' := by
  induction stale generalizing n c fuel now with
  | nil =>
    obtain ⟨fuel, rfl⟩ : ∃ k, fuel = k + 1 := ⟨fuel - 1, by omega⟩
    obtain ⟨time, c', hnext, _⟩ :=
      next_inStep (serving_inStep h hf) hd (readable_of_drop hf hd) now
    refine ⟨time, c', ?_, Serving.read h hnext⟩
    rw [Child.settle, hnext]
    simp only [judge_responseLine, if_true]
  | cons y stale ih =>
    obtain ⟨fuel, rfl⟩ : ∃ k, fuel = k + 1 := ⟨fuel - 1, by omega⟩
    obtain ⟨hy, hids⟩ := List.forall_mem_cons.mp hids
    obtain ⟨time, c', hnext, _⟩ :=
      next_inStep (serving_inStep h hf) hd (readable_of_drop hf hd) now
    have hrest : (linesOf a xs).drop (n + 1) = (stale ++ x :: later).map (responseLine a) := by
      rw [← List.drop_drop, hd, List.drop_one]
      rfl
    have hless : stale.length < fuel := Nat.lt_of_succ_lt_succ hfuel
    obtain ⟨last, c'', hsettle, hafter⟩ := ih hids (Serving.read h hnext) hrest hless time
    refine ⟨last, c'', ?_, ?_⟩
    · rw [Child.settle, hnext]
      simp only [judge_responseLine, if_neg hy, hsettle]
    · rw [List.length_cons, show n + (stale.length + 1) + 1 = n + 1 + stale.length + 1 by omega]
      exact hafter

theorem length_le_joined (lines : List (List UInt8)) : lines.length ≤ (joined lines).length := by
  induction lines with
  | nil => exact Nat.le_refl 0
  | cons l lines ih =>
    rw [joined_cons, List.length_append, List.length_cons, List.length_cons]
    omega

theorem carried_lt_frameBound (c : Child) :
    c.channel.buffer.length + (carried c.arrivals).length + 2 < c.frameBound := by
  have hsum : ∀ (arrivals : List Arrival) (k : Nat), k + (carried arrivals).length ≤
      arrivals.foldl (fun n x => n + 2 + (x.2.getD []).length) k := by
    intro arrivals
    induction arrivals with
    | nil => exact fun k => Nat.le_refl _
    | cons x arrivals ih =>
      intro k
      have hrest := ih (k + 2 + (x.2.getD []).length)
      rw [List.foldl_cons, carried, List.flatMap_cons, List.length_append]
      rw [carried] at hrest
      omega
  have hbound := hsum c.arrivals (c.channel.buffer.length + 3)
  rw [Child.frameBound]
  omega

theorem lt_frameBound (h : InStep a xs n c) : (linesOf a xs).length - n < c.frameBound := by
  have hlines := length_le_joined ((linesOf a xs).drop n)
  rw [← h.output, List.length_append, List.length_drop] at hlines
  have hbound := carried_lt_frameBound c
  omega

/-- The call of a question that has just been sent gets the result of the sub-attester. -/
theorem settle_sent (hs : Serving a pipe xs n c) (hn : 0 < n) (q : Query)
    (hf : Fits a (xs ++ [⟨c.nextId, q⟩])) (hroom : xs.length < n - 1 + UInt64.size) (now : Nat) :
    ∃ time after, (c.send now q).2.settle c.nextId (c.send now q).2.frameBound now =
        some (time, .ok (resultOf a q), after) ∧
      Serving a pipe (xs ++ [⟨c.nextId, q⟩]) (xs.length + 2) after := by
  have hsent := Serving.sent hs now q
  have hstep := serving_inStep hsent hf
  have hbound := (serving_inStep hs fun y hy => hf y (List.mem_append_left _ hy)).bound
  obtain ⟨n, rfl⟩ : ∃ k, n = k + 1 := ⟨n - 1, by omega⟩
  rw [Nat.add_sub_cancel] at hroom
  -- The responses that are still to be read, to calls that were given up, carry other numbers.
  have hids := fresh_id (serving_attached hs) hroom
  have hdrop : (linesOf a (xs ++ [⟨c.nextId, q⟩])).drop (n + 1) =
      List.map (responseLine a) (xs.drop n ++ [⟨c.nextId, q⟩]) := by
    rw [linesOf, List.drop_succ_cons, ← List.map_drop, List.drop_append_of_le_length (by omega)]
  have hfuel := lt_frameBound hstep
  rw [length_linesOf, List.length_append, List.length_singleton] at hfuel
  have hstale : (xs.drop n).length < (c.send now q).2.frameBound := by
    rw [List.length_drop]
    omega
  obtain ⟨time, after, hsettle, hafter⟩ :=
    @settle_serving _ _ _ _ _ ⟨c.nextId, q⟩ (xs.drop n) [] hids hf hsent hdrop _ hstale now
  refine ⟨time, after, hsettle, ?_⟩
  rw [List.length_drop] at hafter
  rwa [show n + 1 + (xs.length - n) + 1 = xs.length + 2 by omega] at hafter

section hosts

variable {h : Host} {path : String}

theorem child?_setChild (hc : h.child? path = some c) (c' : Child) :
    (h.setChild path c').child? path = some c' := by
  rw [Host.child?, Host.setChild, List.find?_map]
  obtain ⟨m, hm, -⟩ := Option.map_eq_some_iff.mp hc
  have hpath : m.1 = path := by simpa using List.find?_some hm
  have hsame : ((fun m : String × Child => decide (m.1 = path)) ∘
      fun m => if m.1 = path then (path, c') else m) = fun m => decide (m.1 = path) := by
    funext m
    by_cases h : m.1 = path <;> simp [h]
  rw [hsame, hm]
  simp [hpath]

theorem setChild_setChild (h : Host) (path : String) (c c' : Child) :
    (h.setChild path c).setChild path c' = h.setChild path c' := by
  rw [Host.setChild, Host.setChild, Host.setChild, List.map_map]
  congr 2
  funext m
  by_cases h : m.1 = path <;> simp [h]

theorem send_child (hc : h.child? path = some c) (now : Nat) (q : Query) :
    Host.send now path q h = ((c.send now q).1, h.setChild path (c.send now q).2) := by
  rw [Host.send, hc]

theorem receive_child (hc : h.child? path = some c) {id : UInt64} {now time : Nat} {q : Query}
    {outcome : Except Plugin.Error Json.Value} {after : Child}
    (hr : c.settle id c.frameBound now = some (time, outcome, after)) :
    Host.receive path q ⟨id, now, none⟩ h =
      some (time, answerOf q outcome, h.setChild path after) := by
  rw [Host.receive]
  simp only [hc, hr, Option.map_some]

theorem receive_sent (hc : h.child? path = some c) (hs : Serving a pipe xs n c) (hn : 0 < n)
    (q : Query) (hf : Fits a (xs ++ [⟨c.nextId, q⟩])) (hroom : xs.length < n - 1 + UInt64.size)
    (now : Nat) :
    let sent := Host.send now path q h
    ∃ time after, Host.receive path q sent.1 sent.2 =
        some (time, a.answer q, h.setChild path after) ∧
      (c.send now q).2.settle c.nextId (c.send now q).2.frameBound now =
        some (time, .ok (resultOf a q), after) ∧
      Serving a pipe (xs ++ [⟨c.nextId, q⟩]) (xs.length + 2) after := by
  obtain ⟨time, after, hsettle, hafter⟩ := settle_sent hs hn q hf hroom now
  have hreceive := receive_child (q := q) (child?_setChild hc (c.send now q).2) hsettle
  have hsent : (c.send now q).1 = ⟨c.nextId, now, none⟩ := by
    rw [send_attached (serving_attached hs)]
  rw [answerOf_resultOf, setChild_setChild] at hreceive
  refine ⟨time, after, ?_, hsettle, hafter⟩
  rw [send_child hc, hsent]
  exact hreceive

/-- A pipe in which whatever is written arrives in two parts. -/
def inTwo : Pipe where
  parts _ _ bytes := [(3, bytes.take 5), (1, bytes.drop 5)]
  whole _ _ bytes := by simp

end hosts

end Attestation.Proofs.Transparency
