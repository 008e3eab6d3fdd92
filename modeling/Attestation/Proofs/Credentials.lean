import Attestation.Proofs.Base64Text
import Attestation.Proofs.JsonMeaning
import Attestation.Proofs.MediaTypes
import Attestation.Proofs.Trimming
import Attestation.Proofs.Utf8Decoding
import Mathlib

namespace Attestation.Proofs.Credentials

open Admission Base64Text Http MediaTypes Text Trimming Utf8Encoding
open Text.Utf8 (encode)

/-- The value of the first header with credentials. -/
inductive FirstValue : List (String × List UInt8) → List UInt8 → Prop
  | of {before after : List (String × List UInt8)} {name : String} {value : List UInt8}
      (hn : isCredentials (name, value) = true) (hb : ∀ h ∈ before, isCredentials h = false) :
      FirstValue (before ++ (name, value) :: after) value

/-- A value of credentials for a user and a password. The colon that ends the user is the first
one. -/
structure Names (value : List UInt8) (user password : String) : Prop where
  legible : Legible value
  spelled : ∃ scheme encoded : List Char, value = bytesOf (scheme ++ ' ' :: encoded) ∧
    scheme.map Char.toLower = "basic".toList ∧
    Trimmed encoded (standardText (encode (user ++ ":" ++ password)))
  user : ':' ∉ user.toList

def Presents (headers : List (String × List UInt8)) (user password : String) : Prop :=
  ∃ value, FirstValue headers value ∧ Names value user password

/-- The last hash of a user counts. -/
def HasHash (users : List (String × String)) (user hash : String) : Prop :=
  ∃ before after, users = before ++ (user, hash) :: after ∧ ∀ m ∈ after, m.1 ≠ user

/-- Why a request is refused. -/
inductive Refused (users : List (String × String)) (headers : List (String × List UInt8)) :
    String → Prop
  | unread (h : ∀ user password, ¬Presents headers user password) :
      Refused users headers "no Basic Authorization given"
  | unknown {user password : String} (h : Presents headers user password)
      (hu : ∀ m ∈ users, m.1 ≠ user) : Refused users headers s!"no such user: {user}"
  | wrong {user password hash : String} (h : Presents headers user password)
      (hu : HasHash users user hash) (hv : Bcrypt.verify password hash ≠ some true) :
      Refused users headers "wrong username or password"

section spelling

variable {headers : List (String × List UInt8)} {user password : String}

theorem header?_eq_some_iff {value : List UInt8} :
    header? headers "authorization" = some value ↔ FirstValue headers value := by
  change (headers.find? isCredentials).map (·.2) = some value ↔ _
  rw [Option.map_eq_some_iff]
  constructor
  · rintro ⟨⟨name, value⟩, hfound, rfl⟩
    obtain ⟨hn, before, after, rfl, hb⟩ := List.find?_eq_some_iff_append.mp hfound
    exact .of hn fun h hm => (Bool.not_eq_true' _).mp (hb h hm)
  · rintro ⟨hn, hb⟩
    exact ⟨_, List.find?_eq_some_iff_append.mpr
      ⟨hn, _, _, rfl, fun h hm => (Bool.not_eq_true' _).mpr (hb h hm)⟩, rfl⟩

theorem splitFirst?_cons (c d : Char) (cs : List Char) :
    Authorizer.splitFirst? c (d :: cs) =
      if d = c then some ([], cs)
      else (Authorizer.splitFirst? c cs).map fun p => (d :: p.1, p.2) := by
  by_cases hd : d = c
  · simp [Authorizer.splitFirst?, hd]
  · have hskip : (d != c) = true := bne_iff_ne.mpr hd
    simp only [Authorizer.splitFirst?, List.dropWhile_cons, List.takeWhile_cons, hskip, if_neg hd,
      if_true]
    cases cs.dropWhile (· != c) <;> rfl

theorem splitFirst?_eq_some_iff {c : Char} {cs front back : List Char} :
    Authorizer.splitFirst? c cs = some (front, back) ↔ cs = front ++ c :: back ∧ c ∉ front := by
  induction cs generalizing front with
  | nil => simp [Authorizer.splitFirst?]
  | cons d cs ih =>
    rw [splitFirst?_cons]
    by_cases hd : d = c
    · rw [if_pos hd, hd]
      constructor
      · rintro ⟨⟩
        exact ⟨rfl, List.not_mem_nil⟩
      · rintro ⟨heq, hc⟩
        cases front with
        | nil => cases heq; rfl
        | cons e front =>
          cases heq
          exact absurd List.mem_cons_self hc
    · rw [if_neg hd, Option.map_eq_some_iff]
      constructor
      · rintro ⟨⟨front, back⟩, h, ⟨⟩⟩
        obtain ⟨rfl, hc⟩ := ih.mp h
        exact ⟨rfl, List.not_mem_cons_of_ne_of_not_mem (Ne.symm hd) hc⟩
      · rintro ⟨heq, hc⟩
        cases front with
        | nil =>
          cases heq
          exact absurd rfl hd
        | cons e front =>
          cases heq
          exact ⟨_, ih.mpr ⟨rfl, fun hm => hc (List.mem_cons_of_mem _ hm)⟩, rfl⟩

theorem mem_digits {symbols : List Char} {k n : Nat} {c : Char}
    (h : c ∈ digits symbols k n) : c ∈ symbols ∨ c = '=' := by
  induction k generalizing n with
  | zero => cases h
  | succ k ih =>
    rw [digits, List.mem_append, List.mem_singleton] at h
    obtain h | rfl := h
    · exact ih h
    · rw [List.getD_eq_getElem?_getD]
      cases hget : symbols[n % 64]? with
      | none => exact .inr rfl
      | some c => exact .inl (List.mem_of_getElem? hget)

theorem mem_groups {symbols fill : List Char} (hfill : ∀ c ∈ fill, c = '=') {bytes : List UInt8}
    {c : Char} (h : c ∈ groups symbols fill bytes) : c ∈ symbols ∨ c = '=' := by
  fun_induction groups symbols fill bytes with
  | case1 => cases h
  | case2 a =>
    obtain h | h := List.mem_append.mp h
    · obtain h | h := List.mem_append.mp h
      · exact mem_digits h
      · exact .inr (hfill c h)
    · exact .inr (hfill c h)
  | case3 a b =>
    obtain h | h := List.mem_append.mp h
    · exact mem_digits h
    · exact .inr (hfill c h)
  | case4 _ _ _ _ ih =>
    obtain h | h := List.mem_append.mp h
    · exact mem_digits h
    · exact ih h

theorem forall_of_all {P : Char → Prop} [DecidablePred P] {cs : List Char}
    (h : cs.all (fun c => decide (P c)) = true) : ∀ c ∈ cs, P c :=
  fun c hc => of_decide_eq_true (List.all_eq_true.mp h c hc)

theorem mem_standardText {bytes : List UInt8} {c : Char} (h : c ∈ standardText bytes) :
    c.toNat < 0x80 ∧ isVisible (UInt8.ofNat c.toNat) = true ∧ isBlank c = false := by
  have hsymbol : c ∈ standardSymbols ++ ['='] := by
    rw [List.mem_append, List.mem_singleton]
    exact mem_groups (fun c hc => List.mem_singleton.mp hc) h
  exact forall_of_all (P := fun c => c.toNat < 0x80 ∧ isVisible (UInt8.ofNat c.toNat) = true ∧
    isBlank c = false) (by decide) c hsymbol

theorem legible_ascii {cs : List Char}
    (h : ∀ c ∈ cs, c.toNat < 0x80 ∧ isVisible (UInt8.ofNat c.toNat) = true) :
    Legible (bytesOf cs) := by
  intro b hb
  obtain ⟨c, hc, hb⟩ := List.mem_flatMap.mp hb
  obtain ⟨hlt, hv⟩ := h c hc
  rw [encodeChar_ascii hlt, List.mem_singleton] at hb
  rw [hb]
  exact hv

theorem trimmed_standardText (bytes : List UInt8) :
    Trimmed (standardText bytes) (standardText bytes) :=
  trimmed_self (fun _ hc => (mem_standardText (List.mem_of_mem_head? hc)).2.2)
    fun _ hc => (mem_standardText (List.mem_of_mem_getLast? hc)).2.2

theorem toOption_eq_some_iff {ε α : Type} {x : Except ε α} {a : α} :
    x.toOption = some a ↔ x = .ok a := by
  cases x with
  | error e => exact ⟨nofun, nofun⟩
  | ok b => exact ⟨fun h => congrArg Except.ok (Option.some.inj h), by rintro ⟨⟩; rfl⟩

theorem pair_iff {encoded : List Char} :
    ((Base64.decode Base64.standard (encode (trim (String.ofList encoded)))).toOption.bind
      fun bytes => (Utf8.decode? bytes).bind fun decoded =>
        (Authorizer.splitFirst? ':' decoded.toList).bind fun p =>
          some (String.ofList p.1, String.ofList p.2)) = some (user, password) ↔
      Trimmed encoded (standardText (encode (user ++ ":" ++ password))) ∧ ':' ∉ user.toList := by
  have htext (bytes : List UInt8) :
      Base64.decode Base64.standard (encode (trim (String.ofList encoded))) = .ok bytes ↔
        Trimmed encoded (standardText bytes) := by
    rw [Base64Padding.decode_eq_ok_iff_encode Base64Encoding.standard_sound
      Base64Decoding.standard_tight, ← String.toList_inj, encode_standard, ← trimmed_iff,
      String.toList_ofList]
  simp only [Option.bind_eq_some_iff, toOption_eq_some_iff, htext, Utf8Decoding.decode?_eq_some_iff]
  constructor
  · rintro ⟨_, htrimmed, decoded, rfl, ⟨front, back⟩, hsplit, ⟨⟩⟩
    obtain ⟨hdecoded, hc⟩ := splitFirst?_eq_some_iff.mp hsplit
    have hpair : decoded = String.ofList front ++ ":" ++ String.ofList back := by
      rw [← String.toList_inj, hdecoded]
      simp
    rw [String.toList_ofList, ← hpair]
    exact ⟨htrimmed, hc⟩
  · rintro ⟨htrimmed, hc⟩
    refine ⟨_, htrimmed, _, rfl, (user.toList, password.toList), ?_, ?_⟩
    · exact splitFirst?_eq_some_iff.mpr ⟨by simp, hc⟩
    · rw [String.ofList_toList, String.ofList_toList]

theorem not_mem_scheme {scheme : List Char} (h : scheme.map Char.toLower = "basic".toList) :
    ' ' ∉ scheme := by
  intro hm
  have hlower : ' ' ∈ "basic".toList := h ▸ List.mem_map.mpr ⟨' ', hm, by decide⟩
  revert hlower
  decide

theorem credentials?_eq_some_iff :
    Authorizer.credentials? headers = some (user, password) ↔ Presents headers user password := by
  have hvalue (s : String) : headerText? headers "authorization" = some s ↔
      ∃ value, FirstValue headers value ∧ Legible value ∧ value = encode s := by
    simp only [headerText?, Option.bind_eq_some_iff, header?_eq_some_iff, visibleText?_eq_some_iff]
  simp only [Authorizer.credentials?, bind, Option.bind_eq_some_iff, Prod.exists, hvalue,
    splitFirst?_eq_some_iff]
  constructor
  · rintro ⟨s, ⟨_, hfirst, hl, rfl⟩, scheme, encoded, ⟨hs, -⟩, h⟩
    split at h
    · cases h
    · rename_i hscheme
      obtain ⟨htrimmed, huser⟩ := pair_iff.mp h
      refine ⟨_, hfirst, hl, ⟨scheme, encoded, ?_, Decidable.of_not_not hscheme, htrimmed⟩, huser⟩
      rw [encode, hs, bytesOf]
  · rintro ⟨value, hfirst, hl, ⟨scheme, encoded, rfl, hscheme, htrimmed⟩, huser⟩
    refine ⟨String.ofList (scheme ++ ' ' :: encoded), ⟨_, hfirst, hl, (encode_ofList _).symm⟩,
      scheme, encoded, ⟨String.toList_ofList, not_mem_scheme hscheme⟩, ?_⟩
    rw [if_neg (not_not_intro hscheme)]
    exact pair_iff.mpr ⟨htrimmed, huser⟩

/-- The value of credentials as clients write it. -/
def basicValue (user password : String) : List UInt8 :=
  bytesOf ("Basic ".toList ++ standardText (encode (user ++ ":" ++ password)))

theorem names_basicValue (h : ':' ∉ user.toList) :
    Names (basicValue user password) user password where
  legible := by
    refine legible_ascii fun c hc => ?_
    obtain hc | hc := List.mem_append.mp hc
    · exact forall_of_all
        (P := fun c => c.toNat < 0x80 ∧ isVisible (UInt8.ofNat c.toNat) = true) (by decide) c hc
    · exact ⟨(mem_standardText hc).1, (mem_standardText hc).2.1⟩
  spelled := ⟨"Basic".toList, standardText (encode (user ++ ":" ++ password)), rfl, by decide,
    trimmed_standardText _⟩
  user := h

end spelling

section verdict

variable {users : List (String × String)} {a : Authorizer}
  {headers : List (String × List UInt8)}

theorem ofUsers_eq_ok (h : Authorizer.ofUsers users = .ok a) :
    a = .listed (Table.ofList users) := by
  unfold Authorizer.ofUsers at h
  split at h
  · cases h
  · exact (Except.ok.inj h).symm

theorem hasHash_iff {user hash : String} :
    Table.find? (Table.ofList users) user = some hash ↔ HasHash users user hash := by
  rw [Tables.find?_ofList]
  exact JsonMeaning.find?_reverse_eq_some_iff

theorem unknown_iff {user : String} :
    Table.find? (Table.ofList users) user = none ↔ ∀ m ∈ users, m.1 ≠ user := by
  rw [Tables.find?_ofList, Tables.find?_eq_none_iff]
  simp only [List.mem_reverse]

theorem authorize_admitted {user password hash : String} (h : Presents headers user password)
    (hu : HasHash users user hash) (hv : Bcrypt.verify password hash = some true) :
    (Authorizer.listed (Table.ofList users)).authorize headers = .ok () := by
  rw [Authorizer.authorize, credentials?_eq_some_iff.mpr h]
  simp only [hasHash_iff.mpr hu, hv, if_true]

theorem authorize_refused {detail : String} (h : Refused users headers detail) :
    (Authorizer.listed (Table.ofList users)).authorize headers =
      .error (.unauthorized detail) := by
  cases h with
  | unread h =>
    have hnone : Authorizer.credentials? headers = none :=
      Option.eq_none_iff_forall_ne_some.mpr fun p hp => h _ _ (credentials?_eq_some_iff.mp hp)
    rw [Authorizer.authorize, hnone]
  | unknown h hu =>
    rw [Authorizer.authorize, credentials?_eq_some_iff.mpr h]
    simp only [unknown_iff.mpr hu]
  | wrong h hu hv =>
    rw [Authorizer.authorize, credentials?_eq_some_iff.mpr h]
    simp only [hasHash_iff.mpr hu, if_neg hv]

theorem admitted_or_refused (users : List (String × String))
    (headers : List (String × List UInt8)) :
    (∃ user password hash, Presents headers user password ∧ HasHash users user hash ∧
      Bcrypt.verify password hash = some true) ∨ ∃ detail, Refused users headers detail := by
  cases hc : Authorizer.credentials? headers with
  | none =>
    refine .inr ⟨_, .unread fun user password h => ?_⟩
    cases hc.symm.trans (credentials?_eq_some_iff.mpr h)
  | some p =>
    have hp : Presents headers p.1 p.2 := credentials?_eq_some_iff.mp hc
    cases hu : Table.find? (Table.ofList users) p.1 with
    | none => exact .inr ⟨_, .unknown hp (unknown_iff.mp hu)⟩
    | some hash =>
      have hhash := hasHash_iff.mp hu
      by_cases hv : Bcrypt.verify p.2 hash = some true
      · exact .inl ⟨_, _, _, hp, hhash, hv⟩
      · exact .inr ⟨_, .wrong hp hhash hv⟩

end verdict

/-- A request is admitted iff its credentials are those of a user, and refused for the first of
three reasons otherwise. What clients write for a user and a password is read as them. -/
theorem credentials_decide {users : List (String × String)} {a : Authorizer}
    (ha : Authorizer.ofUsers users = .ok a) (headers : List (String × List UInt8)) :
    (a.authorize headers = .ok () ↔ ∃ user password hash, Presents headers user password ∧
      HasHash users user hash ∧ Bcrypt.verify password hash = some true) ∧
    (∀ p, a.authorize headers = .error p ↔
      ∃ detail, p = .unauthorized detail ∧ Refused users headers detail) ∧
    ∀ user password, ':' ∉ user.toList → FirstValue headers (basicValue user password) →
      ∀ u p, Presents headers u p ↔ u = user ∧ p = password := by
  cases ofUsers_eq_ok ha
  refine ⟨⟨fun h => ?_, ?_⟩, fun p => ⟨fun h => ?_, ?_⟩, fun user password hu hfirst u p => ?_⟩
  · obtain hadmitted | ⟨detail, hd⟩ := admitted_or_refused users headers
    · exact hadmitted
    · cases (authorize_refused hd).symm.trans h
  · rintro ⟨user, password, hash, hp, hu, hv⟩
    exact authorize_admitted hp hu hv
  · obtain ⟨user, password, hash, hp, hu, hv⟩ | ⟨detail, hd⟩ := admitted_or_refused users headers
    · cases (authorize_admitted hp hu hv).symm.trans h
    · cases (authorize_refused hd).symm.trans h
      exact ⟨detail, rfl, hd⟩
  · rintro ⟨detail, rfl, hd⟩
    exact authorize_refused hd
  · have hpair : Presents headers user password := ⟨_, hfirst, names_basicValue hu⟩
    constructor
    · intro h
      have heq := (credentials?_eq_some_iff.mpr h).symm.trans (credentials?_eq_some_iff.mpr hpair)
      cases heq
      exact ⟨rfl, rfl⟩
    · rintro ⟨rfl, rfl⟩
      exact hpair

theorem firstValue_singleton (value : List UInt8) :
    FirstValue [("Authorization", value)] value := by
  have hname : "Authorization".map Char.toLower = "authorization" := by cbv
  exact @FirstValue.of [] [] "Authorization" value (decide_eq_true hname) fun _ hm =>
    absurd hm List.not_mem_nil

/-- A password with a colon and a blank in it, of a user who is not known. -/
theorem credentials_decide_colon :
    let users := [("carol", "$2b$04$abcdefghijklmnopqrstuuLZYjhNQAOdpbzt4WxWlUHjv1wsyH5DG")]
    let headers := [("Authorization", basicValue "erin" "a:b ü")]
    (Authorizer.ofUsers users = .ok (.listed users) ∧ ':' ∉ "erin".toList ∧
      FirstValue headers (basicValue "erin" "a:b ü")) ∧
      (∀ user password, Presents headers user password ↔ user = "erin" ∧ password = "a:b ü") ∧
      (Authorizer.listed users).authorize headers =
        .error (.unauthorized "no such user: erin") := by
  intro users headers
  have hu : Authorizer.ofUsers users = .ok (.listed users) := by cbv
  have hcolon : ':' ∉ "erin".toList := by decide
  obtain ⟨-, hrefused, hnames⟩ := credentials_decide hu headers
  have hpair := hnames "erin" "a:b ü" hcolon (firstValue_singleton _)
  exact ⟨⟨hu, hcolon, firstValue_singleton _⟩, hpair, (hrefused _).mpr
    ⟨_, rfl, .unknown ((hpair "erin" "a:b ü").mpr ⟨rfl, rfl⟩)
      (List.forall_mem_singleton.mpr (by decide))⟩⟩

end Attestation.Proofs.Credentials
