import Attestation.Plugin.Host
import Attestation.Proofs.Framing
import Attestation.Proofs.Messages

namespace Attestation.Proofs.ServingChildren

open Framing LineText Messages Plugin Rpc Utf8Encoding

/-- All that a plugin writes when these questions are put to it. -/
def written (a : SubAttester) (xs : List Question) : List UInt8 :=
  (serve a (inputOf xs)).1.flatMap bytesOf

/-- The states of a child whose process serves a sub-attester: these questions have been sent to
it, and so many frames have been read, in whichever calls. -/
inductive Serving (a : SubAttester) (pipe : Pipe) : List Question → Nat → Child → Prop
  | started (path : String) (now : Nat) :
      Serving a pipe [] 0 (.start path (Process.ofServer (Server.start a pipe now)))
  | sent {xs : List Question} {n : Nat} {c : Child} (h : Serving a pipe xs n c) (now : Nat)
      (q : Query) : Serving a pipe (xs ++ [⟨c.nextId, q⟩]) n (c.send now q).2
  | read {xs : List Question} {n : Nat} {c c' : Child} {now time : Nat} {f : Option Frame}
      (h : Serving a pipe xs n c) (hr : c.next now = some (time, f, c')) :
      Serving a pipe xs (n + 1) c'

variable {a : SubAttester} {pipe : Pipe} {xs : List Question} {n : Nat} {c c' : Child}

section processes

def arrivalsFrom (now : Nat) (parts : List (Nat × List UInt8)) : List Arrival :=
  parts.map fun x => (now + x.1, some x.2)

theorem carried_append (xs ys : List Arrival) : carried (xs ++ ys) = carried xs ++ carried ys :=
  List.flatMap_append

theorem carried_arrivalsFrom (now : Nat) (parts : List (Nat × List UInt8)) :
    carried (arrivalsFrom now parts) = parts.flatMap (·.2) := by
  rw [carried, arrivalsFrom, List.flatMap_map]
  rfl

theorem ongoing_arrivalsFrom (now : Nat) (parts : List (Nat × List UInt8)) :
    Ongoing (arrivalsFrom now parts) := by
  intro x hx
  obtain ⟨part, -, rfl⟩ := List.mem_map.mp hx
  exact Option.some_ne_none part.2

theorem follow_parts (c : Child) (p : Process) (now : Nat) (parts : List (Nat × List UInt8)) :
    c.follow (p, parts.map fun (delay, part) => (now + delay, .output part)) =
      { c with process := p, arrivals := c.arrivals ++ arrivalsFrom now parts } := by
  induction parts generalizing c with
  | nil => simp [Child.follow, arrivalsFrom]
  | cons part parts ih =>
    have hnext := ih (c.observe (now + part.1) (.output part.2))
    simp only [Child.follow, Child.observe] at hnext
    simp only [Child.follow, List.map_cons, List.foldl_cons, Child.observe, hnext, arrivalsFrom,
      List.append_assoc, List.singleton_append]

def serverAt (a : SubAttester) (pipe : Pipe) (xs : List Question) : Server :=
  ⟨a, pipe, written a xs, false⟩

theorem written_eq (a : SubAttester) (xs : List Question) :
    written a xs = joined (linesOf a xs) := (serve_inputOf a xs).1

theorem linesOf_concat (a : SubAttester) (xs : List Question) (x : Question) :
    linesOf a (xs ++ [x]) = linesOf a xs ++ [responseLine a x] := by
  simp [linesOf]

theorem written_concat (a : SubAttester) (xs : List Question) (x : Question) :
    written a (xs ++ [x]) = written a xs ++ joined [responseLine a x] := by
  rw [written_eq, written_eq, linesOf_concat, joined_append]

theorem write_eq (s : Server) (now : Nat) (lines : List (List Char)) :
    s.write now lines = ({ s with written := s.written ++ lines.flatMap bytesOf },
      (s.pipe.parts s.written now (lines.flatMap bytesOf)).map fun (delay, part) =>
        (now + delay, .output part)) := by
  have hbytes : lines.flatMap (fun line => Text.Utf8.encode (.ofList line)) =
      lines.flatMap bytesOf := congrArg (lines.flatMap ·) (funext encode_ofList)
  rw [Server.write, hbytes]

theorem start_eq (a : SubAttester) (pipe : Pipe) (now : Nat) :
    Server.start a pipe now = (serverAt a pipe [],
      (pipe.parts [] now (written a [])).map fun (delay, part) => (now + delay, .output part)) := by
  rw [Server.start, write_eq]
  rfl

theorem deliver_request (a : SubAttester) (pipe : Pipe) (xs : List Question) (x : Question)
    (now : Nat) :
    (serverAt a pipe xs).deliver now (requestLine x.id x.query) = (serverAt a pipe (xs ++ [x]),
      (pipe.parts (written a xs) now (joined [responseLine a x])).map fun (delay, part) =>
        (now + delay, .output part)) := by
  have hbytes : [(dispatch a (requestLine x.id x.query)).line].flatMap bytesOf =
      joined [responseLine a x] := by
    rw [List.flatMap_singleton, line_dispatch, joined_cons, joined_nil]
  have hwrite := write_eq (serverAt a pipe xs) now [(dispatch a (requestLine x.id x.query)).line]
  rw [hbytes] at hwrite
  simp only [Server.deliver, serverAt, answers_line] at hwrite ⊢
  rw [hwrite, written_concat]
  rfl

end processes

section channels

variable {channel channel' : Channel} {arrivals left : List Arrival} {now time : Nat}
  {f : Option Frame}

theorem next_suffix (h : channel.next now arrivals = some (time, f, channel', left)) :
    left <:+ arrivals := by
  induction arrivals generalizing channel now with
  | nil =>
    rw [Channel.next] at h
    obtain ⟨_, -, h⟩ := Option.map_eq_some_iff.mp h
    cases h
    exact List.suffix_rfl
  | cons x arrivals ih =>
    rw [Channel.next] at h
    split at h
    · cases h
      exact List.suffix_rfl
    · exact (ih h).trans (List.suffix_cons x arrivals)

theorem next_time {last : Nat} (h : channel.next now arrivals = some (time, f, channel', left))
    (hnow : now ≤ last) (hlast : ∀ x ∈ arrivals, x.1 ≤ last) : time ≤ last := by
  induction arrivals generalizing channel now with
  | nil =>
    rw [Channel.next] at h
    obtain ⟨_, -, h⟩ := Option.map_eq_some_iff.mp h
    cases h
    exact hnow
  | cons x arrivals ih =>
    obtain ⟨hx, hlast⟩ := List.forall_mem_cons.mp hlast
    rw [Channel.next] at h
    split at h
    · cases h
      exact hnow
    · exact ih h (Nat.max_le.mpr ⟨hnow, hx⟩) hlast

end channels

section states

structure Alive (c : Child) : Prop where
  unstopped : c.stopped = none
  unfinished : c.exited = none
  ongoing : Ongoing c.arrivals

/-- A child to whose process these questions were sent, each under its number. -/
structure Attached (a : SubAttester) (pipe : Pipe) (xs : List Question) (c : Child) : Prop where
  alive : Alive c
  process : c.process = .server (serverAt a pipe xs)
  nextId : c.nextId = UInt64.ofNat (xs.length + 1)
  numbered : ∀ i x, xs[i]? = some x → x.id = UInt64.ofNat (i + 1)

theorem visible_of_alive (h : Alive c) : c.visible = c.arrivals := by
  rw [Child.visible, h.unstopped]

def arrivalsOf (a : SubAttester) (pipe : Pipe) (xs : List Question) (now : Nat) (x : Question) :
    List Arrival :=
  arrivalsFrom (now + latency)
    (pipe.parts (written a xs) (now + latency) (joined [responseLine a x]))

theorem ongoing_arrivalsOf (now : Nat) (x : Question) : Ongoing (arrivalsOf a pipe xs now x) :=
  ongoing_arrivalsFrom _ _

theorem carried_arrivalsOf (now : Nat) (x : Question) :
    carried (arrivalsOf a pipe xs now x) = joined [responseLine a x] := by
  rw [arrivalsOf, carried_arrivalsFrom, pipe.whole]

theorem start_eq_child (a : SubAttester) (pipe : Pipe) (path : String) (now : Nat) :
    Child.start path (Process.ofServer (Server.start a pipe now)) =
      ⟨path, .server (serverAt a pipe []), arrivalsFrom now (pipe.parts [] now (written a [])), [],
        false, none, none, 1, .start⟩ := by
  rw [start_eq, Child.start, Process.ofServer, follow_parts]
  rfl

theorem send_attached (h : Attached a pipe xs c) (now : Nat) (q : Query) :
    c.send now q = (⟨c.nextId, now, none⟩,
      { c with
        nextId := c.nextId + 1
        process := .server (serverAt a pipe (xs ++ [⟨c.nextId, q⟩]))
        arrivals := c.arrivals ++ arrivalsOf a pipe xs now ⟨c.nextId, q⟩ }) := by
  have hgoes : ¬ Child.ended { c with nextId := c.nextId + 1 } now = true := by
    simp [Child.ended, h.alive.unstopped, h.alive.unfinished]
  have hdeliver := deliver_request a pipe xs ⟨c.nextId, q⟩ (now + latency)
  unfold Child.send
  dsimp only
  rw [if_neg hgoes]
  simp only [h.process, Process.deliver, hdeliver, Process.ofServer, follow_parts]
  rfl

theorem attached_send (h : Attached a pipe xs c) (now : Nat) (q : Query) :
    Attached a pipe (xs ++ [⟨c.nextId, q⟩]) (c.send now q).2 := by
  rw [send_attached h]
  refine ⟨⟨h.alive.unstopped, h.alive.unfinished, ?_⟩, rfl, ?_, ?_⟩
  · exact List.forall_mem_append.mpr ⟨h.alive.ongoing, ongoing_arrivalsOf now _⟩
  · rw [List.length_append, List.length_singleton, UInt64.ofNat_add, ← h.nextId]
    rfl
  · intro i x hx
    rw [List.getElem?_append] at hx
    split at hx
    · exact h.numbered i x hx
    · obtain ⟨hi, rfl⟩ := List.getElem?_eq_some_iff.mp hx
      simp only [List.length_singleton] at hi
      have hlast : i = xs.length := by omega
      simp [hlast, h.nextId]

theorem next_attached {now time : Nat} {f : Option Frame} (h : Attached a pipe xs c)
    (hr : c.next now = some (time, f, c')) : Attached a pipe xs c' := by
  rw [Child.next, visible_of_alive h.alive] at hr
  obtain ⟨⟨_, _, channel, left⟩, hnext, hr⟩ := Option.map_eq_some_iff.mp hr
  cases hr
  have hleft := next_suffix hnext
  exact ⟨⟨h.alive.unstopped, h.alive.unfinished, fun x hx => h.alive.ongoing x (hleft.mem hx)⟩,
    h.process, h.nextId, h.numbered⟩

/-- As long as it is not stopped, a process that serves goes on serving. -/
theorem serving_attached (h : Serving a pipe xs n c) : Attached a pipe xs c := by
  induction h with
  | started path now =>
    rw [start_eq_child]
    exact ⟨⟨rfl, rfl, ongoing_arrivalsFrom _ _⟩, rfl, rfl, nofun⟩
  | sent _ now q ih => exact attached_send ih now q
  | read _ hr ih => exact next_attached ih hr

/-- Numbers come again only behind all others. -/
theorem fresh_id (h : Attached a pipe xs c) {k : Nat} (hk : xs.length < k + UInt64.size) :
    ∀ y ∈ xs.drop k, y.id ≠ c.nextId := by
  intro y hy
  obtain ⟨i, hi⟩ := List.mem_iff_getElem?.mp hy
  rw [List.getElem?_drop] at hi
  have hlt : k + i < xs.length := (List.getElem?_eq_some_iff.mp hi).1
  have hsize : UInt64.size = 18446744073709551616 := rfl
  rw [h.numbered _ y hi, h.nextId, ne_eq, ← UInt64.toNat_inj, UInt64.toNat_ofNat',
    UInt64.toNat_ofNat']
  omega

end states

end Attestation.Proofs.ServingChildren
