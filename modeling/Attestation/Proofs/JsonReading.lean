import Attestation.Blob
import Attestation.Proofs.Base64Encoding
import Attestation.Proofs.JsonRecords
import Attestation.Proofs.JsonValues

namespace Attestation.Proofs.JsonReading

open Json Base64Encoding JsonRecords JsonText JsonValues Utf8Encoding

variable {α β γ : Type}

/-- A value is read as this, wherever so many arrays and objects may stand inside one another. -/
def Reads (d : Decoder α) (n : Nat) (v : Value) (a : α) : Prop :=
  ∀ p, Roomy p n → d p v.toTree = .ok a

theorem reads_mono {d : Decoder α} {m n : Nat} {v : Value} {a : α} (h : Reads d m v a)
    (hle : m ≤ n) : Reads d n v a :=
  fun p hp => h p (roomy_of_le hp hle)

theorem reads_string (s : String) : Reads Decoder.string 0 (.string s) s := by
  intro p _
  simp [Value.toTree, Decoder.string]

theorem reads_bool (b : Bool) : Reads Decoder.bool 0 (.bool b) b := by
  intro p _
  simp [Value.toTree, Decoder.bool]

theorem reads_nat (bits : Nat) (n : UInt64) (h : n.toNat < Nat.pow 2 bits) :
    Reads (Decoder.nat bits) 0 (.ofNat n) n.toNat := by
  intro p _
  have hin : (0 : Int) ≤ n.toNat ∧ (n.toNat : Int) ≤ ((Nat.pow 2 bits : Nat) : Int) - 1 := by
    omega
  simp only [Value.ofNat, Value.toTree, Decoder.nat, Decoder.int, Number.toInt?, if_pos hin,
    Except.map, Int.toNat_natCast]

theorem reads_value (v : Value) : Reads Decoder.value (nesting v) v v.sorted :=
  fun p hp => value_toTree v p hp

theorem reads_blob (bytes : List UInt8) : Reads Blob.ofJsonText 0 (Blob.toJson bytes) bytes := by
  intro p hp
  rw [Blob.toJson, Blob.ofJsonText, reads_string _ p hp]
  simp only [bind, Except.bind, Blob.ofText, decode_encode standard_sound]

theorem reads_some {d : Decoder α} {n : Nat} {v : Value} {a : α} (h : Reads d n v a)
    (hv : v ≠ .null) : Reads (.optional d) n v (some a) := by
  intro p hp
  have hread := h p hp
  unfold Decoder.optional
  split
  · rename_i ht
    cases v <;> simp_all [Value.toTree]
  · rw [hread]
    rfl

theorem itemsFrom_treesOf {d : Decoder α} {p : Place} (f : β → Value) (g : β → α) (xs : List β)
    (h : ∀ x ∈ xs, d p (f x).toTree = .ok (g x)) (i : Nat) (done : List α) :
    Decoder.itemsFrom d p i done (Value.treesOf (xs.map f)) =
      .ok (done.reverse ++ xs.map g) := by
  induction xs generalizing i done with
  | nil => simp [Value.treesOf, Decoder.itemsFrom]
  | cons x xs ih =>
    have hx := h x List.mem_cons_self
    have hxs := ih (fun y hy => h y (List.mem_cons_of_mem _ hy)) (i + 1) (g x :: done)
    simp [Value.treesOf, Decoder.itemsFrom, hx, hxs]

theorem reads_list {d : Decoder α} {n : Nat} (f : β → Value) (g : β → α) (xs : List β)
    (h : ∀ x ∈ xs, Reads d n (f x) (g x)) :
    Reads (.list d) (n + 1) (.array (xs.map f)) (xs.map g) := by
  intro p hp
  obtain ⟨q, hq, _, hroom⟩ := exists_inner hp
  have hitems := itemsFrom_treesOf f g xs (fun x hx => h x hx q hroom) 0 []
  simp [Value.toTree, Decoder.list, hq, bind, Except.bind, hitems, Decoder.ending]

/-- Members that fill slots of a record which are still open. -/
inductive Fills (r : Record α) (n : Nat) :
    List String → α → List (String × Value) → List String → α → Prop
  | nil (seen : List String) (a : α) : Fills r n seen a [] seen a
  | cons {seen seen' : List String} {a a' : α} {k : String} {v : Value}
      {ms : List (String × Value)} {β : Type} {need : Need} {d : Decoder β} {put : β → α → α}
      {b : β} (hs : r.slots.find? (·.name = k) = some (.of need k d put)) (hk : k ∉ seen)
      (hv : Reads d n v b) (h : Fills r n (k :: seen) (put b a) ms seen' a') :
      Fills r n seen a ((k, v) :: ms) seen' a'

theorem fromMembers_fills {r : Record α} {n : Nat} {seen seen' : List String} {a a' : α}
    {ms : List (String × Value)} (h : Fills r n seen a ms seen' a') (p : Place)
    (hp : Roomy p n) :
    r.fromMembers p seen a (Value.memberTreesOf ms) = .ok (seen', a') := by
  induction h with
  | nil seen a => simp [Value.memberTreesOf, Record.fromMembers]
  | cons hs hk hv _ ih =>
    rw [Value.memberTreesOf, Record.fromMembers]
    simp only [Decoder.key, bind, Except.bind, hs, if_neg hk, Slot.of, hv p hp, Except.map, ih]

theorem reads_record {r : Record α} {n : Nat} {ms : List (String × Value)} {seen : List String}
    {a : α} (h : Fills r n [] r.initial ms seen a) (hm : r.missing? seen = none) :
    Reads r.decode (n + 1) (.object ms) a := by
  intro p hp
  obtain ⟨q, hq, _, hroom⟩ := exists_inner hp
  simp only [Value.toTree, Record.decode, hq, bind, Except.bind, fromMembers_fills h q hroom,
    Decoder.ending, if_true, hm]
  rfl

theorem run_text {d : Decoder α} {n : Nat} {v : Value} {a : α} (h : Reads d n v a)
    (hn : n ≤ maxDepth) (hv : Exact v) : Decoder.run d (bytesOf v.render) = .ok a := by
  rw [run_render d v hv]
  exact h _ fun _ => by simpa using hn

theorem ofValue_reads {d : Decoder α} {n : Nat} {v : Value} {a : α} (h : Reads d n v a) :
    Decoder.ofValue d v = .ok a :=
  h _ (roomy_value 0 n)

end Attestation.Proofs.JsonReading
