import Attestation.Proofs.Base64Text
import Attestation.Proofs.Credentials
import Attestation.Settings

namespace Attestation.Proofs.PasswordHashes

open Base64 Base64Decoding Base64Encoding Base64Text Bcrypt Credentials Http Utf8Encoding
open Text.Utf8 (encode)

def alphabet : List Char :=
  "./ABCDEFGHIJKLMNOPQRSTUVWXYZabcdefghijklmnopqrstuvwxyz0123456789".toList

/-- A text of symbols, of which the value of the last one is a multiple of a number. -/
structure Coded (k : Nat) (s : String) : Prop where
  symbols : ∀ c ∈ s.toList, c ∈ alphabet
  last : ∀ c ∈ s.toList.getLast?, alphabet.idxOf c % k = 0

/-- A hash that a password can be checked against. Of the last symbol of the salt four bits are not
used, of the last one of the digest two. -/
structure Checkable (h : Hash) : Prop where
  cost : 4 ≤ h.cost.toNat ∧ h.cost.toNat ≤ 31
  salt : Coded 16 h.salt
  digest : Coded 4 h.digest

section groups

/-- Values of six bits that make whole bytes: the bits that are left over in the last group are
zero. -/
def Whole : List UInt8 → Prop
  | [] => True
  | [_] => False
  | [_, q] => q.toNat % 16 = 0
  | [_, _, r] => r.toNat % 4 = 0
  | _ :: _ :: _ :: _ :: rest => Whole rest

variable {ns : List UInt8}

theorem whole_append {front back : List UInt8} (h : front.length % 4 = 0) :
    Whole (front ++ back) ↔ Whole back := by
  fun_induction Whole front with
  | case1 => rfl
  | case2 | case3 | case4 => simp at h
  | case5 p q r s rest ih =>
    refine ih ?_
    simp only [List.length_cons] at h
    omega

theorem encodeBytes_urlSafe_single (a : UInt8) :
    encodeBytes urlSafe [a] = [first a, second a 0].map urlSafe.symbol := by
  rw [encodeBytes_single]
  exact List.append_nil _

theorem encodeBytes_urlSafe_pair (a b : UInt8) :
    encodeBytes urlSafe [a, b] = [first a, second a b, third b 0].map urlSafe.symbol := by
  rw [encodeBytes_pair]
  exact List.append_nil _

theorem length_encodeBytes_urlSafe (bytes : List UInt8) :
    (encodeBytes urlSafe bytes).length = (bytes.length * 4 + 2) / 3 := by
  induction bytes using groups_induction with
  | nil => rfl
  | single a => simp [encodeBytes_urlSafe_single]
  | pair a b => simp [encodeBytes_urlSafe_pair]
  | group a b c rest ih =>
    rw [encodeBytes_cons]
    simp only [List.length_cons, ih]
    omega

theorem eq_of_map_symbol {ms : List UInt8} (hn : ∀ n ∈ ns, n < 64) (hm : ∀ m ∈ ms, m < 64)
    (h : ns.map urlSafe.symbol = ms.map urlSafe.symbol) : ns = ms := by
  rw [← value_symbols urlSafe_sound ns hn, h, value_symbols urlSafe_sound ms hm]

theorem whole_of_encode (bytes : List UInt8) (hn : ∀ n ∈ ns, n < 64)
    (h : ns.map urlSafe.symbol = encodeBytes urlSafe bytes) : Whole ns := by
  induction bytes using groups_induction generalizing ns with
  | nil =>
    cases List.map_eq_nil_iff.mp h
    exact trivial
  | single a =>
    rw [encodeBytes_urlSafe_single] at h
    cases eq_of_map_symbol hn (by simp [first_lt, second_lt]) h
    rw [Whole, second_toNat]
    simp
  | pair a b =>
    rw [encodeBytes_urlSafe_pair] at h
    cases eq_of_map_symbol hn (by simp [first_lt, second_lt, third_lt]) h
    rw [Whole, third_toNat]
    simp
  | group a b c rest ih =>
    rw [encodeBytes_cons] at h
    obtain ⟨p, _, rfl, -, h⟩ := List.map_eq_cons_iff.mp h
    obtain ⟨q, _, rfl, -, h⟩ := List.map_eq_cons_iff.mp h
    obtain ⟨r, _, rfl, -, h⟩ := List.map_eq_cons_iff.mp h
    obtain ⟨s, rest, rfl, -, h⟩ := List.map_eq_cons_iff.mp h
    simp only [List.forall_mem_cons] at hn
    exact @ih rest hn.2.2.2.2 h

theorem exists_encode (hn : ∀ n ∈ ns, n < 64) (hw : Whole ns) :
    ∃ bytes, ns.map urlSafe.symbol = encodeBytes urlSafe bytes := by
  fun_induction Whole ns with
  | case1 => exact ⟨[], rfl⟩
  | case2 => cases hw
  | case3 p q =>
    simp only [List.forall_mem_cons] at hn
    have hq := forall_sextet (P := fun q => q.toNat % 16 = 0 → (join 0 q 0 0).2.1 = 0) (by decide)
      q hn.2.1 hw
    exact ⟨_, (encodeBytes_joinTwo urlSafe hn.1 hn.2.1 hq).symm⟩
  | case4 p q r =>
    simp only [List.forall_mem_cons] at hn
    have hr := forall_sextet (P := fun r => r.toNat % 4 = 0 → (join 0 0 r 0).2.2 = 0) (by decide)
      r hn.2.2.1 hw
    exact ⟨_, (encodeBytes_joinThree urlSafe hn.1 hn.2.1 hn.2.2.1 hr).symm⟩
  | case5 p q r s rest ih =>
    simp only [List.forall_mem_cons] at hn
    obtain ⟨hp, hq, hr, hs, hrest⟩ := hn
    obtain ⟨bytes, hbytes⟩ := ih hrest hw
    refine ⟨_, .trans ?_ (encodeBytes_join urlSafe hp hq hr hs bytes).symm⟩
    simp only [List.map_cons, hbytes]

end groups

section symbols

def symbolIndex (c : Char) : UInt8 := UInt8.ofNat (alphabet.idxOf c)

theorem symbol_of_value : ∀ b, (symbolValue? b).all
    (fun n => decide (alphabet[n.toNat]? = some (Char.ofNat b.toNat))) = true :=
  forall_byte (by decide)

theorem value_of_symbol : ∀ m < 4, ∀ n < 16,
    symbolValue? (UInt8.ofNat (alphabet.getD (16 * m + n) ' ').toNat) =
      some (UInt8.ofNat (16 * m + n)) := by
  decide

theorem alphabet_ascii : ∀ c ∈ alphabet, c.toNat < 0x80 := forall_of_all (by decide)

theorem symbolValue?_high : ∀ b : UInt8, 0x80 ≤ b → symbolValue? b = none :=
  forall_byte (by decide)

theorem toNat_symbolIndex {c : Char} (h : c ∈ alphabet) :
    (symbolIndex c).toNat = alphabet.idxOf c := by
  have hlt : alphabet.idxOf c < 64 := List.idxOf_lt_length_of_mem h
  exact Nat.mod_eq_of_lt (Nat.lt_trans hlt (by decide))

theorem symbolIndex_lt {c : Char} (h : c ∈ alphabet) : symbolIndex c < 64 := by
  rw [UInt8.lt_iff_toNat_lt, toNat_symbolIndex h]
  exact List.idxOf_lt_length_of_mem h

theorem symbolValue?_ascii {c : Char} (hc : c.toNat < 0x80) :
    symbolValue? (UInt8.ofNat c.toNat) =
      if c ∈ alphabet then some (symbolIndex c) else none := by
  split
  · rename_i hm
    have hlt : alphabet.idxOf c < 64 := List.idxOf_lt_length_of_mem hm
    have hvalue := value_of_symbol (alphabet.idxOf c / 16) (by omega) (alphabet.idxOf c % 16)
      (Nat.mod_lt _ (by decide))
    rwa [Nat.div_add_mod, List.getD_eq_getElem?_getD, List.getElem?_eq_getElem hlt,
      Option.getD_some, List.getElem_idxOf hlt] at hvalue
  · rename_i hm
    cases hv : symbolValue? (UInt8.ofNat c.toNat) with
    | none => rfl
    | some n =>
      have hsymbol := symbol_of_value (UInt8.ofNat c.toNat)
      have hback : (UInt8.ofNat c.toNat).toNat = c.toNat :=
        Nat.mod_eq_of_lt (Nat.lt_trans hc (by decide))
      rw [hv, Option.all_some, decide_eq_true_eq, hback, Char.ofNat_toNat] at hsymbol
      exact absurd (List.mem_of_getElem? hsymbol) hm

theorem mapM_char (c : Char) : (String.utf8EncodeChar c).mapM symbolValue? =
    if c ∈ alphabet then some [symbolIndex c] else none := by
  by_cases hc : c.toNat < 0x80
  · rw [encodeChar_ascii hc, List.mapM_cons, symbolValue?_ascii hc]
    split <;> rfl
  · have hhigh := encodeChar_high (Nat.le_of_not_lt hc)
    rw [if_neg fun h => hc (alphabet_ascii c h)]
    cases hbytes : String.utf8EncodeChar c with
    | nil => exact absurd hbytes String.utf8EncodeChar_ne_nil
    | cons b bs =>
      rw [hbytes] at hhigh
      rw [List.mapM_cons, symbolValue?_high b (hhigh b List.mem_cons_self)]
      rfl

theorem mapM_bytesOf {cs : List Char} {ns : List UInt8} :
    (bytesOf cs).mapM symbolValue? = some ns ↔
      (∀ c ∈ cs, c ∈ alphabet) ∧ ns = cs.map symbolIndex := by
  induction cs generalizing ns with
  | nil => simp
  | cons c cs ih =>
    rw [bytesOf_cons, List.mapM_append, mapM_char, List.forall_mem_cons]
    by_cases hc : c ∈ alphabet
    · have hbind : ((some [symbolIndex c]).bind fun front =>
          ((bytesOf cs).mapM symbolValue?).bind fun back => some (front ++ back)) = some ns ↔
            ∃ back, (∀ c ∈ cs, c ∈ alphabet) ∧ back = cs.map symbolIndex ∧
              symbolIndex c :: back = ns := by
        simp only [Option.bind_some, Option.bind_eq_some_iff, ih, and_assoc, List.singleton_append,
          Option.some.injEq]
      rw [if_pos hc]
      refine hbind.trans ⟨?_, ?_⟩
      · rintro ⟨_, hcs, rfl, rfl⟩
        exact ⟨⟨hc, hcs⟩, rfl⟩
      · rintro ⟨⟨-, hcs⟩, rfl⟩
        exact ⟨_, hcs, rfl, rfl⟩
    · rw [if_neg hc]
      exact ⟨nofun, fun h => absurd h.1.1 hc⟩

def values (s : String) : List UInt8 := s.toList.map symbolIndex

theorem decode?_eq_some_iff {s : String} {bytes : List UInt8} :
    Bcrypt.decode? s = some bytes ↔ (∀ c ∈ s.toList, c ∈ alphabet) ∧
      (values s).map urlSafe.symbol = encodeBytes urlSafe bytes := by
  have hvalues (ns : List UInt8) : (encode s).mapM symbolValue? = some ns ↔
      (∀ c ∈ s.toList, c ∈ alphabet) ∧ ns = values s := mapM_bytesOf
  simp only [Bcrypt.decode?, bind, Option.bind_eq_some_iff, hvalues, toOption_eq_some_iff,
    decode_eq_ok_iff urlSafe_sound urlSafe_tight]
  constructor
  · rintro ⟨_, ⟨hs, rfl⟩, h⟩
    exact ⟨hs, h⟩
  · rintro ⟨hs, h⟩
    exact ⟨_, ⟨hs, rfl⟩, h⟩

theorem values_lt {s : String} (hs : ∀ c ∈ s.toList, c ∈ alphabet) : ∀ n ∈ values s, n < 64 := by
  intro n hn
  obtain ⟨c, hc, rfl⟩ := List.mem_map.mp hn
  exact symbolIndex_lt (hs c hc)

theorem exists_lastGroup (cs : List Char) : ∃ front back, cs = front ++ back ∧
    back.length = cs.length % 4 ∧
    (Whole (cs.map symbolIndex) ↔ Whole (back.map symbolIndex)) := by
  have hfront : ((cs.take (cs.length / 4 * 4)).map symbolIndex).length % 4 = 0 := by
    rw [List.length_map, List.length_take]
    omega
  refine ⟨_, cs.drop (cs.length / 4 * 4), (List.take_append_drop _ cs).symm, ?_, ?_⟩
  · rw [List.length_drop]
    omega
  · have happend := @whole_append _ ((cs.drop (cs.length / 4 * 4)).map symbolIndex) hfront
    rwa [← List.map_append, List.take_append_drop] at happend

/-- How many symbols are in the last group, and what the value of the last one is a multiple of if
the bits that are left over are zero. -/
inductive LastGroup : Nat → Nat → Prop
  | two : LastGroup 2 16
  | three : LastGroup 3 4

theorem whole_values_iff {s : String} {k : Nat} (hs : ∀ c ∈ s.toList, c ∈ alphabet)
    (hk : LastGroup (s.toList.length % 4) k) :
    Whole (values s) ↔ ∀ c ∈ s.toList.getLast?, alphabet.idxOf c % k = 0 := by
  obtain ⟨front, back, heq, hback, hwhole⟩ := exists_lastGroup s.toList
  have hvalue (d : Char) (hd : d ∈ s.toList) : (symbolIndex d).toNat = alphabet.idxOf d :=
    toNat_symbolIndex (hs d hd)
  rw [← hback] at hk
  rw [values, hwhole]
  rw [heq] at hvalue ⊢
  generalize hn : back.length = n at hk
  cases hk with
  | two =>
    obtain ⟨c, d, rfl⟩ := List.length_eq_two.mp hn
    simp [Whole, hvalue d (by simp)]
  | three =>
    obtain ⟨b, c, d, rfl⟩ := List.length_eq_three.mp hn
    simp [Whole, hvalue d (by simp)]

theorem exists_decode?_iff {s : String} : (∃ bytes, Bcrypt.decode? s = some bytes) ↔
    (∀ c ∈ s.toList, c ∈ alphabet) ∧ Whole (values s) := by
  simp only [decode?_eq_some_iff]
  constructor
  · rintro ⟨bytes, hs, h⟩
    exact ⟨hs, whole_of_encode bytes (values_lt hs) h⟩
  · rintro ⟨hs, hw⟩
    obtain ⟨bytes, h⟩ := exists_encode (values_lt hs) hw
    exact ⟨bytes, hs, h⟩

end symbols

section parsing

theorem utf8ByteSize_eq (s : String) : s.utf8ByteSize = (encode s).length := by
  rw [← String.size_toByteArray, ← String.ofList_toList (s := s), String.toByteArray_ofList,
    List.utf8Encode, List.size_toByteArray, encode_ofList]
  rfl

theorem splitBytes?_eq_some {n : Nat} {cs front back : List Char}
    (h : splitBytes? n cs = some (front, back)) :
    cs = front ++ back ∧ (bytesOf front).length = n := by
  fun_induction splitBytes? n cs generalizing front with
  | case1 cs =>
    cases h
    exact ⟨rfl, rfl⟩
  | case2 n => cases h
  | case3 n c cs hc ih =>
    obtain ⟨⟨front, back⟩, hsplit, ⟨⟩⟩ := Option.map_eq_some_iff.mp h
    obtain ⟨rfl, hlength⟩ := ih hsplit
    refine ⟨rfl, ?_⟩
    rw [bytesOf_cons, List.length_append, String.length_utf8EncodeChar, hlength]
    omega
  | case4 n c cs hc => cases h

theorem length_of_parse {text : String} {h : Hash} (hp : Hash.parse text = .ok h) :
    (encode h.salt).length = 22 ∧ (encode h.digest).length = 31 := by
  unfold Hash.parse at hp
  split at hp
  · rename_i variant cost tail _
    split at hp
    · cases hp
    split at hp
    · cases hp
    split at hp
    · cases hp
    rename_i hsize
    split at hp
    · cases hp
    rename_i salt digest hsplit
    cases hp
    obtain ⟨htail, hsalt⟩ := splitBytes?_eq_some hsplit
    have hall : (bytesOf tail.toList).length = 53 := by
      rw [Decidable.not_not, utf8ByteSize_eq] at hsize
      exact hsize
    rw [htail, bytesOf_append, List.length_append, hsalt] at hall
    rw [encode_ofList, encode_ofList]
    exact ⟨hsalt, by omega⟩
  · cases hp

theorem length_bytesOf_ascii {cs : List Char} (h : ∀ c ∈ cs, c.toNat < 0x80) :
    (bytesOf cs).length = cs.length := by
  induction cs with
  | nil => rfl
  | cons c cs ih =>
    obtain ⟨hc, hcs⟩ := List.forall_mem_cons.mp h
    rw [bytesOf_cons, encodeChar_ascii hc, List.length_append, ih hcs, List.length_singleton,
      List.length_cons, Nat.add_comm]

theorem length_of_symbols {s : String} {n : Nat} (hl : (encode s).length = n)
    (hs : ∀ c ∈ s.toList, c ∈ alphabet) : s.toList.length = n :=
  (length_bytesOf_ascii fun c hc => alphabet_ascii c (hs c hc)).symm.trans hl

theorem exists_decode?_iff_coded {s : String} {n k : Nat} (hl : (encode s).length = n)
    (hk : LastGroup (n % 4) k) : (∃ bytes, Bcrypt.decode? s = some bytes) ↔ Coded k s := by
  have hlast (hs : ∀ c ∈ s.toList, c ∈ alphabet) :
      Whole (values s) ↔ ∀ c ∈ s.toList.getLast?, alphabet.idxOf c % k = 0 :=
    whole_values_iff hs (by rwa [length_of_symbols hl hs])
  rw [exists_decode?_iff]
  exact ⟨fun h => ⟨h.1, (hlast h.1).mp h.2⟩, fun h => ⟨h.symbols, (hlast h.symbols).mpr h.last⟩⟩

theorem length_of_decode? {s : String} {bytes : List UInt8} (hl : (encode s).length = 22)
    (h : Bcrypt.decode? s = some bytes) : bytes.length = 16 := by
  obtain ⟨hs, heq⟩ := decode?_eq_some_iff.mp h
  have hlength := congrArg List.length heq
  rw [List.length_map, values, List.length_map, length_encodeBytes_urlSafe,
    length_of_symbols hl hs] at hlength
  omega

theorem verify_iff {text : String} {h : Hash} (hp : Hash.parse text = .ok h) (password : String) :
    (∃ b, Bcrypt.verify password text = some b) ↔ Checkable h := by
  obtain ⟨hsalt, hdigest⟩ := length_of_parse hp
  have hsalt_iff := exists_decode?_iff_coded hsalt .two
  have hdigest_iff := exists_decode?_iff_coded hdigest .three
  have hverify : Bcrypt.verify password text = h.verify password := by rw [Bcrypt.verify, hp]
  rw [hverify, Hash.verify]
  constructor
  · rintro ⟨b, hb⟩
    obtain ⟨salt, hs, hb⟩ := Option.bind_eq_some_iff.mp hb
    split at hb
    · cases hb
    rename_i hcost
    obtain ⟨digest, hd, -⟩ := Option.bind_eq_some_iff.mp hb
    simp only [leastCost, greatestCost, not_or, Nat.not_lt] at hcost
    exact ⟨⟨hcost.1, hcost.2.1⟩, hsalt_iff.mp ⟨salt, hs⟩, hdigest_iff.mp ⟨digest, hd⟩⟩
  · rintro ⟨⟨hleast, hgreatest⟩, hs, hd⟩
    obtain ⟨salt, hs⟩ := hsalt_iff.mpr hs
    obtain ⟨digest, hd⟩ := hdigest_iff.mpr hd
    have hcost : ¬(h.cost.toNat < leastCost ∨ greatestCost < h.cost.toNat ∨ salt.length ≠ 16) := by
      simp only [leastCost, greatestCost, length_of_decode? hsalt hs]
      omega
    refine ⟨crypt h.cost.toNat salt (passwordBytes password) == digest, ?_⟩
    simp only [hs, hd, bind, Option.bind_some, if_neg hcost, pure]

end parsing

section settings

variable {users : List (String × String)}

theorem checkPasswords_iff : Settings.checkPasswords users = .ok () ↔
    ∀ u ∈ users, ∃ h, Hash.parse u.2 = .ok h := by
  induction users with
  | nil => exact ⟨fun _ => nofun, fun _ => rfl⟩
  | cons u users ih =>
    obtain ⟨user, text⟩ := u
    rw [Settings.checkPasswords, List.forall_mem_cons]
    cases Hash.parse text with
    | error e => simp
    | ok h => simp [ih]

theorem invalidUser?_eq_none_iff : Authorizer.invalidUser? users = none ↔
    ∀ u ∈ users, ∃ h, Hash.parse u.2 = .ok h := by
  induction users with
  | nil => exact ⟨fun _ => nofun, fun _ => rfl⟩
  | cons u users ih =>
    obtain ⟨user, text⟩ := u
    rw [Authorizer.invalidUser?, List.forall_mem_cons]
    cases Hash.parse text with
    | error e => simp
    | ok h => simp [ih]

theorem checkPasswords_of_validate {s : Settings} (h : s.validate = .ok ()) :
    Settings.checkPasswords (Settings.usersOf s.access) = .ok () := by
  unfold Settings.validate at h
  repeat
    split at h
    · cases h
  exact h

theorem validate_default (access : Access) :
    Settings.validate { access := access } =
      Settings.checkPasswords (Settings.usersOf access) := by
  have hblank : Text.blank "localhost:8895" = false := by decide
  simp [Settings.validate, hblank]

end settings

/-- What the looks at the start ask of the hash of a user, and what the login asks in addition. A
user whose hash has the form but cannot be computed with is never admitted, and is told that the
password is wrong. -/
theorem hashes_looked_at {s : Settings} {users : List (String × String)}
    (hs : s.access = .basic users) (hv : s.validate = .ok ()) :
    ∃ a, Authorizer.ofAccess s.access = .ok a ∧ ∀ user text, HasHash users user text →
      ∃ h, Hash.parse text = .ok h ∧
        (∀ password, (∃ b, Bcrypt.verify password text = some b) ↔ Checkable h) ∧
        (¬Checkable h → ∀ headers password, Presents headers user password →
          a.authorize headers = .error (.unauthorized "wrong username or password")) := by
  have hforms : ∀ u ∈ users, ∃ h, Hash.parse u.2 = .ok h := by
    have hpasswords := checkPasswords_of_validate hv
    rw [hs] at hpasswords
    exact checkPasswords_iff.mp hpasswords
  have hof : Authorizer.ofAccess s.access = .ok (.listed (Table.ofList users)) := by
    rw [hs, Authorizer.ofAccess, Authorizer.ofUsers, invalidUser?_eq_none_iff.mpr hforms]
  refine ⟨_, hof, fun user text hu => ?_⟩
  obtain ⟨before, after, heq, -⟩ := id hu
  obtain ⟨h, hp⟩ := hforms (user, text) (by simp [heq])
  refine ⟨h, hp, verify_iff hp, fun hnot headers password hpresents => ?_⟩
  refine authorize_refused (.wrong hpresents hu fun htrue => ?_)
  exact hnot ((verify_iff hp password).mp ⟨true, htrue⟩)

def cheapest : Hash := ⟨4, "abcdefghijklmnopqrstuu", "LZYjhNQAOdpbzt4WxWlUHjv1wsyH5DG"⟩

def tooCheap : Hash := { cheapest with cost := 3 }

def cheapestText : String := "$2b$04$abcdefghijklmnopqrstuuLZYjhNQAOdpbzt4WxWlUHjv1wsyH5DG"

def tooCheapText : String := "$2b$03$abcdefghijklmnopqrstuuLZYjhNQAOdpbzt4WxWlUHjv1wsyH5DG"

theorem parse_cheapest : Hash.parse cheapestText = .ok cheapest := by cbv

theorem parse_tooCheap : Hash.parse tooCheapText = .ok tooCheap := by cbv

theorem checkable_cheapest : Checkable cheapest where
  cost := by decide
  salt := ⟨forall_of_all (by decide), by rintro _ ⟨⟩; decide⟩
  digest := ⟨forall_of_all (by decide), by rintro _ ⟨⟩; decide⟩

theorem not_checkable_tooCheap : ¬Checkable tooCheap := fun h => absurd h.cost (by decide)

/-- A hash with a verdict for every password, and one whose cost is too low for any. -/
theorem hashes_looked_at_two :
    let users := [("alice", cheapestText), ("dave", tooCheapText)]
    let s : Settings := { access := .basic users }
    (s.access = .basic users ∧ s.validate = .ok ()) ∧
      (∀ password, ∃ b, Bcrypt.verify password cheapestText = some b) ∧
      ∃ a, Authorizer.ofAccess s.access = .ok a ∧ ∀ password,
        a.authorize [("Authorization", basicValue "dave" password)] =
          .error (.unauthorized "wrong username or password") := by
  intro users s
  have hforms : ∀ u ∈ users, ∃ h, Hash.parse u.2 = .ok h :=
    List.forall_mem_cons.mpr ⟨⟨_, parse_cheapest⟩,
      List.forall_mem_singleton.mpr ⟨_, parse_tooCheap⟩⟩
  have hv : s.validate = .ok () := (validate_default _).trans (checkPasswords_iff.mpr hforms)
  have halice : HasHash users "alice" cheapestText :=
    ⟨[], [("dave", tooCheapText)], rfl, List.forall_mem_singleton.mpr (by decide)⟩
  have hdave : HasHash users "dave" tooCheapText :=
    ⟨[("alice", cheapestText)], [], rfl, fun m hm => absurd hm List.not_mem_nil⟩
  obtain ⟨a, ha, hall⟩ := @hashes_looked_at s users rfl hv
  refine ⟨⟨rfl, hv⟩, ?_, a, ha, ?_⟩
  · obtain ⟨h, hp, hverdict, -⟩ := hall "alice" cheapestText halice
    obtain rfl : cheapest = h := Except.ok.inj (parse_cheapest.symm.trans hp)
    exact fun password => (hverdict password).mpr checkable_cheapest
  · obtain ⟨h, hp, -, hrefused⟩ := hall "dave" tooCheapText hdave
    obtain rfl : tooCheap = h := Except.ok.inj (parse_tooCheap.symm.trans hp)
    exact fun password => hrefused not_checkable_tooCheap _ password
      ⟨_, firstValue_singleton _, names_basicValue (by decide)⟩

/-- Nothing at the start tells that no password will ever be checked against this hash. -/
theorem low_cost_accepted :
    let s : Settings := { access := .basic [("dave", tooCheapText)] }
    s.validate = .ok () ∧
      Authorizer.ofAccess s.access = .ok (.listed [("dave", tooCheapText)]) ∧
      ∀ password, Bcrypt.verify password tooCheapText = none := by
  intro s
  have hforms : ∀ u ∈ [("dave", tooCheapText)], ∃ h, Hash.parse u.2 = .ok h :=
    List.forall_mem_singleton.mpr ⟨_, parse_tooCheap⟩
  refine ⟨(validate_default _).trans (checkPasswords_iff.mpr hforms), ?_, fun password => ?_⟩
  · rw [Authorizer.ofAccess, Authorizer.ofUsers, invalidUser?_eq_none_iff.mpr hforms]
    rfl
  · refine Option.eq_none_iff_forall_ne_some.mpr fun b hb => ?_
    exact not_checkable_tooCheap ((verify_iff parse_tooCheap password).mp ⟨b, hb⟩)

end Attestation.Proofs.PasswordHashes
