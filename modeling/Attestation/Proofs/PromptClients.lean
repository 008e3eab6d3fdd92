import Attestation.Proofs.AttentiveWorlds
import Attestation.Proofs.Transparency

namespace Attestation.Proofs.PromptClients

open AttentiveWorlds Compositor Messages Plugin Rpc ServingChildren Transparency

/-- Everything arrives within so many milliseconds. -/
def Prompt (pipe : Pipe) (delay : Nat) : Prop :=
  ∀ before now bytes, ∀ x ∈ pipe.parts before now bytes, x.1 ≤ delay

variable {a : SubAttester} {pipe : Pipe} {xs : List Question} {n now last delay : Nat}
  {c after : Child}

theorem next_within {time : Nat} {f : Option Frame} (ha : Attached a pipe xs c)
    (h : c.next now = some (time, f, after)) (hnow : now ≤ last)
    (hlast : ∀ x ∈ c.arrivals, x.1 ≤ last) : time ≤ last ∧ ∀ x ∈ after.arrivals, x.1 ≤ last := by
  rw [Child.next, visible_of_alive ha.alive] at h
  obtain ⟨⟨_, _, channel, left⟩, hchannel, heq⟩ := Option.map_eq_some_iff.mp h
  cases heq
  exact ⟨next_time hchannel hnow hlast, fun x hx => hlast x ((next_suffix hchannel).mem hx)⟩

theorem settle_within {id : UInt64} {fuel time : Nat} {outcome : Except Plugin.Error Json.Value}
    (ha : Attached a pipe xs c) (h : c.settle id fuel now = some (time, outcome, after))
    (hnow : now ≤ last) (hlast : ∀ x ∈ c.arrivals, x.1 ≤ last) :
    time ≤ last ∧ ∀ x ∈ after.arrivals, x.1 ≤ last := by
  induction fuel generalizing c now with
  | zero => cases h
  | succ fuel ih =>
    rw [Child.settle] at h
    cases hnext : c.next now with
    | none =>
      rw [hnext] at h
      cases h
    | some x =>
      obtain ⟨later, f, c'⟩ := x
      obtain ⟨hlater, hleft⟩ := next_within ha hnext hnow hlast
      rw [hnext] at h
      cases hjudge : judge c'.path id f with
      | skip =>
        simp only [hjudge] at h
        exact ih (next_attached ha hnext) h hlater hleft
      | settled outcome =>
        simp only [hjudge] at h
        cases h
        exact ⟨hlater, hleft⟩

theorem arrivals_start (hpipe : Prompt pipe delay) (path : String) (now : Nat) :
    ∀ x ∈ (Child.start path (Process.ofServer (Server.start a pipe now))).arrivals,
      x.1 ≤ now + delay := by
  rw [start_eq_child]
  intro x hx
  obtain ⟨part, hpart, rfl⟩ := List.mem_map.mp hx
  exact Nat.add_le_add_left (hpipe _ _ _ part hpart) now

theorem arrivals_send (hpipe : Prompt pipe delay) (ha : Attached a pipe xs c)
    (hlast : ∀ x ∈ c.arrivals, x.1 ≤ now + (latency + delay)) (q : Query) :
    ∀ x ∈ (c.send now q).2.arrivals, x.1 ≤ now + (latency + delay) := by
  rw [send_attached ha]
  refine List.forall_mem_append.mpr ⟨hlast, fun x hx => ?_⟩
  obtain ⟨part, hpart, rfl⟩ := List.mem_map.mp hx
  have hdelay := hpipe _ _ _ part hpart
  simp only
  omega

/-- A client attends to its questions when the pipe is fast enough for the deadline. -/
theorem attends_client {h : Host} {path : String} {deadline : Nat} {qs : List Query}
    (hpipe : Prompt pipe delay) (hc : h.child? path = some c) (hs : Serving a pipe xs n c)
    (hn : 0 < n) (hroom : xs.length < n - 1 + UInt64.size) (hf : Fits a xs)
    (hqs : ∀ q ∈ qs, ∀ id, (responseLine a ⟨id, q⟩).length ≤ maxLine)
    (hlast : ∀ x ∈ c.arrivals, x.1 ≤ now + (latency + delay))
    (hdeadline : now + qs.length * (latency + delay) ≤ deadline) :
    Attends Host.world (some deadline) path a qs now h := by
  -- Whatever is on its way has arrived within one latency and delay, so each question takes no
  -- longer, and the next one is sent with nothing later than that.
  induction qs generalizing h xs n c now with
  | nil => exact .done now h
  | cons q qs ih =>
    obtain ⟨hq, hqs⟩ := List.forall_mem_cons.mp hqs
    rw [List.length_cons, Nat.succ_mul] at hdeadline
    have hfits : Fits a (xs ++ [⟨c.nextId, q⟩]) :=
      List.forall_mem_append.mpr ⟨hf, List.forall_mem_singleton.mpr (hq c.nextId)⟩
    have hattached := serving_attached hs
    obtain ⟨time, after, hreceive, hsettle, hafter⟩ := receive_sent hc hs hn q hfits hroom now
    obtain ⟨htime, harrivals⟩ := settle_within (attached_send hattached now q) hsettle (by omega)
      (arrivals_send hpipe hattached hlast q)
    have hlength : List.length (xs ++ [⟨c.nextId, q⟩]) = xs.length + 1 := by simp
    have hsize : 0 < UInt64.size := by decide
    refine .asked hreceive (decide_eq_true (by omega)) ?_
    refine ih (child?_setChild hc after) hafter (by omega) (by omega) hfits hqs
      (fun x hx => ?_) (by omega)
    have hx := harrivals x hx
    omega

end Attestation.Proofs.PromptClients
