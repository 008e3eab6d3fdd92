import Attestation.Proofs.AnswerText
import Attestation.Proofs.FirstFailure
import Attestation.Settings

namespace Attestation.Proofs.ServiceText

open Compositor Json AnswerText JsonReading JsonRecords JsonValues
open Settings (optionalText usersOf)
open SelectionOrder (Ascending)

variable {α β : Type}

section parts

theorem reads_choice {variants : List (String × α)} {name : String} {a : α}
    (h : variants.find? (·.1 = name) = some (name, a)) :
    Reads (.choice variants) 0 (.string name) a := by
  intro p _
  simp only [Value.toTree, Decoder.choice, Decoder.variant, h]

theorem membersFrom_treesOf {d : Decoder α} {p : Place} (f : α → Value) (xs : List (String × α))
    (h : ∀ x ∈ xs, d p (f x.2).toTree = .ok x.2) (done : List (String × α)) :
    Decoder.membersFrom d p done (Value.memberTreesOf (xs.map fun x => (x.1, f x.2))) =
      .ok (done.reverse ++ xs) := by
  induction xs generalizing done with
  | nil => simp [Value.memberTreesOf, Decoder.membersFrom]
  | cons x xs ih =>
    obtain ⟨hx, hxs⟩ := List.forall_mem_cons.mp h
    have hrest := ih hxs ((x.1, x.2) :: done)
    simp [Value.memberTreesOf, Decoder.membersFrom, Decoder.key, bind, Except.bind, hx, hrest]

/-- A table is read back in its order if all its values are. -/
theorem reads_table {d : Decoder α} {n : Nat} (f : α → Value) (xs : List (String × α))
    (h : ∀ x, Reads d n (f x) x) :
    Reads (.members d) (n + 1) (.object (xs.map fun x => (x.1, f x.2))) xs := by
  intro p hp
  obtain ⟨q, hq, _, hroom⟩ := exists_inner hp
  have hmembers := membersFrom_treesOf f xs (fun x _ => h x.2 q hroom) []
  simp [Value.toTree, Decoder.members, hq, bind, Except.bind, hmembers, Decoder.ending]

theorem shallow_table {n : Nat} (f : α → Value) (xs : List (String × α))
    (h : ∀ x, Shallow n (f x)) : Shallow (n + 1) (.object (xs.map fun x => (x.1, f x.2))) := by
  refine shallow_object fun m hm => ?_
  obtain ⟨x, -, rfl⟩ := List.mem_map.mp hm
  exact h x.2

theorem reads_path (s : String) : Reads Settings.path 0 (.string s) s := fun _ _ => rfl

theorem reads_optionalPath (o : Option String) :
    Reads (.optional Settings.path) 0 (optionalText o) o := by
  cases o with
  | none => exact fun _ _ => rfl
  | some s => exact reads_some (reads_path s) nofun

theorem shallow_optionalText (n : Nat) (o : Option String) : Shallow n (optionalText o) := by
  cases o with
  | none => exact ⟨trivial, Nat.zero_le n⟩
  | some s => exact shallow_string n s

theorem reads_protocol (p : Protocol) : Reads Protocol.decode 0 p.toValue p := by
  cases p <;> exact reads_choice rfl

theorem reads_listMode (m : ListMode) : Reads ListMode.decode 0 m.toValue m := by
  cases m <;> exact reads_choice rfl

theorem reads_fanOut (f : FanOut) : Reads FanOut.decode 0 f.toValue f := by
  cases f <;> exact reads_choice rfl

end parts

theorem reads_envelope (e : Envelope) : Reads Envelope.record.decode 1 e.toValue e :=
  reads_record (.cons rfl (by decide) (reads_string e.profile)
    (.cons rfl (by decide) (reads_string e.nonce)
      (.cons rfl (by decide) (reads_string e.cmw) (.nil _ _)))) rfl

theorem shallow_envelope (e : Envelope) : Shallow 1 e.toValue := by
  refine shallow_object ?_
  simp [shallow_string]

section infos

theorem reads_descriptor (o : OptionDescriptor) :
    Reads OptionDescriptor.record.decode 1 o.toValue o :=
  reads_record (.cons rfl (by decide) (reads_string o.name)
    (.cons rfl (by decide) (reads_dataType o.dataType) (.nil _ _))) rfl

theorem shallow_descriptor (o : OptionDescriptor) : Shallow 1 o.toValue := by
  refine shallow_object ?_
  simp [DataType.toValue, shallow_string]

theorem reads_info (i : AttesterInfo) : Reads AttesterInfo.record.decode 3 i.toValue i := by
  have hoptions : Reads (.list OptionDescriptor.record.decode) 2
      (.array (i.options.map OptionDescriptor.toValue)) i.options := by
    have hread := reads_list OptionDescriptor.toValue id i.options fun o _ => reads_descriptor o
    rwa [List.map_id] at hread
  exact reads_record (.cons rfl (by decide) (reads_mono (reads_string i.name) (by decide))
    (.cons rfl (by decide) hoptions (.nil _ _))) rfl

theorem shallow_info (i : AttesterInfo) : Shallow 3 i.toValue := by
  refine shallow_object ?_
  have hoptions : Shallow 2 (.array (i.options.map OptionDescriptor.toValue)) :=
    shallow_array (List.forall_mem_map.mpr fun o _ => shallow_descriptor o)
  simp [shallow_string, hoptions]

end infos

section logging

theorem reads_logFormat (f : Logging.Format) : Reads Logging.Format.decode 0 f.toValue f := by
  cases f <;> exact reads_choice rfl

theorem reads_logging (s : Logging.Settings) :
    Reads Logging.Settings.record.decode 1 s.toValue s :=
  reads_record (.cons rfl (by decide) (reads_string s.level)
    (.cons rfl (by decide) (reads_logFormat s.format) (.nil _ _))) rfl

theorem shallow_logging (s : Logging.Settings) : Shallow 1 s.toValue := by
  refine shallow_object ?_
  simp [Logging.Format.toValue, shallow_string]

end logging

section access

def userValue (hash : String) : Value := .object [("password", .string hash)]

def usersValue (users : List (String × String)) : Value :=
  .object (users.map fun u => (u.1, userValue u.2))

theorem reads_user (hash : String) : Reads Access.userRecord.decode 1 (userValue hash) hash :=
  reads_record (.cons rfl (by decide) (reads_string hash) (.nil _ _)) rfl

theorem shallow_users (users : List (String × String)) : Shallow 2 (usersValue users) :=
  shallow_table userValue users fun hash => shallow_object (by simp [shallow_string])

theorem reads_content {users : List (String × String)} (h : Ascending users) :
    Reads Access.basicRecord.decode 3 (.object [("users", usersValue users)]) users := by
  have hread : Reads Access.basicRecord.decode 3 (.object [("users", usersValue users)])
      (Table.ofList users) :=
    reads_record (.cons rfl (by decide) (reads_table userValue users reads_user) (.nil _ _)) rfl
  rwa [ofList_ascending h] at hread

theorem tagAmong_users {q : Place} (users : List (String × String)) (hq : Roomy q 2) :
    Access.tagAmong q none [] (Value.memberTreesOf (Access.basic users).toMembers) =
      .ok (some .basic, [(some "users", (usersValue users).toTree)]) := by
  have hvalue : Decoder.value q (usersValue users).toTree = .ok (usersValue users).sorted :=
    value_toTree _ q (roomy_of_le hq (shallow_users users).nesting_le)
  have hset := (mapError_ok_iff _ Fault.atTop _).mpr hvalue
  refine (bind_ok_iff _ _ _).mpr ⟨"type", rfl, ?_⟩
  refine (bind_ok_iff _ _ _).mpr ⟨"users", rfl, ?_⟩
  exact (bind_ok_iff _ _ _).mpr ⟨_, hset, rfl⟩

theorem reads_access {a : Access} (h : Ascending (usersOf a)) :
    Reads Access.decode 3 a.toValue a := by
  intro p hp
  obtain ⟨q, hq, _, hroom⟩ := exists_inner hp
  refine (bind_ok_iff _ _ _).mpr ⟨q, hq, ?_⟩
  cases a with
  | none | passthrough => rfl
  | basic users =>
    have hcontent := reads_content h { p with origin := .setAside } nofun
    refine (bind_ok_iff _ _ _).mpr ⟨_, tagAmong_users users hroom, ?_⟩
    refine (bind_ok_iff _ _ _).mpr ⟨some .basic, rfl, ?_⟩
    exact (mapError_ok_iff _ _ _).mpr ((map_ok_iff _ _ _).mpr ⟨users, hcontent, rfl⟩)

theorem shallow_access (a : Access) : Shallow 3 a.toValue := by
  refine shallow_object ?_
  cases a with
  | none | passthrough => simp [Access.toMembers, shallow_string]
  | basic users =>
    have hmembers : (Access.basic users).toMembers =
      [("type", .string "basic"), ("users", usersValue users)] := rfl
    simp [hmembers, shallow_string, shallow_users]

end access

end Attestation.Proofs.ServiceText
