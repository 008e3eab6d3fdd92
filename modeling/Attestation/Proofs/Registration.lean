import Attestation.Plugin.Loader
import Attestation.Proofs.Digests
import Attestation.Proofs.NonceText
import Attestation.Proofs.Trimming

namespace Attestation.Proofs.Registration

open Plugin JsonRecords NonceText SelectionOrder Tables Trimming
open Text (trim)

section digits

def IsHex (c : Char) : Prop :=
  ('0' ≤ c ∧ c ≤ '9') ∨ ('a' ≤ c ∧ c ≤ 'f') ∨ ('A' ≤ c ∧ c ≤ 'F')

theorem isHex_iff (c : Char) : IsHex c ↔ (48 ≤ c.toNat ∧ c.toNat ≤ 57) ∨
    (97 ≤ c.toNat ∧ c.toNat ≤ 102) ∨ (65 ≤ c.toNat ∧ c.toNat ≤ 70) := by
  simp only [IsHex, Char.le_def, UInt32.le_iff_toNat_le]
  exact Iff.rfl

theorem isSome_value? {c : Char} (hc : c.toNat < 0x80) :
    (Hex.value? (UInt8.ofNat c.toNat)).isSome = true ↔ IsHex c := by
  have hbyte : (UInt8.ofNat c.toNat).toNat = c.toNat := by
    rw [UInt8.toNat_ofNat']
    omega
  rw [isHex_iff, Hex.value?]
  simp only [UInt8.le_iff_toNat_le, hbyte]
  by_cases hdigit : 48 ≤ c.toNat ∧ c.toNat ≤ 57
  · simp [hdigit]
  · by_cases hlower : 97 ≤ c.toNat ∧ c.toNat ≤ 102
    · simp [hdigit, hlower]
    · by_cases hupper : 65 ≤ c.toNat ∧ c.toNat ≤ 70
      · simp [hdigit, hlower, hupper]
      · simp [hdigit, hlower, hupper]

theorem isHex_iff_value (c : Char) : IsHex c ↔ ∃ v < 16, c.toLower = Hex.digit v := by
  constructor
  · intro h
    have hascii : c.toNat < 0x80 := by
      rw [isHex_iff] at h
      omega
    obtain ⟨v, hv⟩ := Option.isSome_iff_exists.mp ((isSome_value? hascii).mpr h)
    obtain ⟨-, hlt, hlower⟩ := Digests.value?_some hv
    refine ⟨v, hlt, ?_⟩
    rw [← hlower, Digests.lower, UInt8.toNat_ofNat', Nat.mod_eq_of_lt (by omega),
      Char.ofNat_toNat]
  · rintro ⟨v, hv, h⟩
    have hdigit : ∀ n < 16, (Hex.digit (UInt8.ofNat n)).toNat < 0x80 := by decide
    have hlower : c.toLower.toNat < 0x80 := by
      rw [h, ← UInt8.ofNat_toNat (x := v)]
      exact hdigit v.toNat hv
    have hascii := Digests.toLower_ascii hlower
    apply (isSome_value? hascii).mp
    rw [Digests.value?_of_lower hascii hv h]
    rfl

theorem exists_bytes (n : Nat) {ds : List Char} (hlen : ds.length = 2 * n)
    (hd : ∀ c ∈ ds, IsHex c) : ∃ bytes : List UInt8, bytes.length = n ∧
      ds.map Char.toLower = bytes.flatMap Digests.pair := by
  induction n generalizing ds with
  | zero =>
    have hnil : ds = [] := List.length_eq_zero_iff.mp hlen
    subst hnil
    exact ⟨[], rfl, rfl⟩
  | succ n ih =>
    match ds with
    | [] | [_] =>
      simp only [List.length_nil, List.length_cons] at hlen
      omega
    | hi :: lo :: ds =>
      simp only [List.forall_mem_cons] at hd
      obtain ⟨h, hh, hhi⟩ := (isHex_iff_value hi).mp hd.1
      obtain ⟨l, hl, hlo⟩ := (isHex_iff_value lo).mp hd.2.1
      have hrest : ds.length = 2 * n := by
        simp only [List.length_cons] at hlen
        omega
      obtain ⟨bytes, hsize, hbytes⟩ := ih hrest hd.2.2
      refine ⟨(h * 16 + l) :: bytes, by rw [List.length_cons, hsize], ?_⟩
      rw [List.map_cons, List.map_cons, hhi, hlo, hbytes, List.flatMap_cons,
        Digests.pair_join hh hl]
      rfl

end digits

section texts

/-- Sixty-four hexadecimal digits, with blanks around them. -/
def IsDigest (text : String) : Prop :=
  ∃ ds, Trimmed text.toList ds ∧ ds.length = 64 ∧ ∀ c ∈ ds, IsHex c

/-- The bytes that the digits of a text stand for, the high digit of each byte first. -/
def Says (text : String) (digest : List UInt8) : Prop :=
  ∃ ds, Trimmed text.toList ds ∧ ds.map Char.toLower = hexDigits digest ∧ digest.length = 32

theorem says_iff {text : String} {digest : List UInt8} :
    Says text digest ↔ Digests.Spells text digest := by
  have hlower : (trim text).toLower = Hex.encode digest ↔
      (trim text).toList.map Char.toLower = hexDigits digest := by
    rw [hex_encode, ← String.toList_inj, String.toList_ofList]
    exact Eq.congr_left String.toList_map
  constructor
  · rintro ⟨ds, ht, hd, hs⟩
    rw [← trimmed_iff.mp ht] at hd
    exact ⟨hlower.mpr hd, hs⟩
  · rintro ⟨hd, hs⟩
    exact ⟨_, trimmed_trim text, hlower.mp hd, hs⟩

theorem hexDigits_eq (bytes : List UInt8) : hexDigits bytes = bytes.flatMap Digests.pair := by
  have hencode := hex_encode bytes
  rw [Digests.encode_eq, String.ofList_inj] at hencode
  exact hencode.symm

theorem isDigest_iff {text : String} : IsDigest text ↔ ∃ digest, Says text digest := by
  constructor
  · rintro ⟨ds, ht, hlen, hd⟩
    obtain ⟨bytes, hsize, hbytes⟩ := exists_bytes 32 hlen hd
    rw [← hexDigits_eq] at hbytes
    exact ⟨bytes, ds, ht, hbytes, hsize⟩
  · rintro ⟨digest, ds, ht, hd, hs⟩
    rw [hexDigits_eq] at hd
    refine ⟨ds, ht, ?_, ?_⟩
    · rw [← List.length_map Char.toLower, hd, Digests.length_pairs, hs]
    · intro c hc
      have hmem : c.toLower ∈ digest.flatMap Digests.pair := hd ▸ List.mem_map_of_mem hc
      obtain ⟨b, -, hb⟩ := List.mem_flatMap.mp hmem
      obtain ⟨hhigh, hlow, -⟩ := Digests.split_byte b
      apply (isHex_iff_value c).mpr
      rw [Digests.pair] at hb
      obtain hb | hb := List.mem_pair.mp hb
      · exact ⟨_, hhigh, hb⟩
      · exact ⟨_, hlow, hb⟩

theorem digest_error {name text : String} {e : Error} (h : Checksums.digest name text = .error e) :
    ¬ IsDigest text ∧ ∃ reason, e = .invalidChecksum name reason := by
  constructor
  · intro hd
    obtain ⟨digest, hsays⟩ := isDigest_iff.mp hd
    cases h.symm.trans (Digests.digest_eq_ok_iff.mpr (says_iff.mp hsays))
  · unfold Checksums.digest at h
    split at h
    · cases h
      exact ⟨_, rfl⟩
    · split at h
      · cases h
      · cases h
        exact ⟨_, rfl⟩

theorem isDigest_of_digest {name text : String} {digest : List UInt8}
    (h : Checksums.digest name text = .ok digest) : IsDigest text :=
  isDigest_iff.mpr ⟨digest, says_iff.mpr (Digests.digest_eq_ok_iff.mp h)⟩

end texts

section tables

variable {pairs : List (String × String)} {table : Checksums}

def reading (m : String × String) : Except Error (String × List UInt8) := do
  return (m.1, ← Checksums.digest m.1 m.2)

/-- The first pair whose text is no digest ends the reading of the table. -/
theorem mapM_error {e : Error} (h : pairs.mapM reading = .error e) :
    ∃ before name text after, pairs = before ++ (name, text) :: after ∧
      (∀ m ∈ before, IsDigest m.2) ∧ Checksums.digest name text = .error e := by
  induction pairs with
  | nil => cases h
  | cons m pairs ih =>
    obtain ⟨name, text⟩ := m
    rw [List.mapM_cons, reading] at h
    cases hd : Checksums.digest name text with
    | error e' =>
      rw [hd] at h
      cases h
      exact ⟨[], name, text, pairs, rfl, by simp, hd⟩
    | ok digest =>
      rw [hd] at h
      cases hrest : pairs.mapM reading with
      | ok ds =>
        rw [hrest] at h
        cases h
      | error e' =>
        rw [hrest] at h
        cases h
        obtain ⟨before, name', text', after, rfl, hbefore, hbad⟩ := ih hrest
        refine ⟨(name, text) :: before, name', text', after, rfl, ?_, hbad⟩
        exact List.forall_mem_cons.mpr ⟨isDigest_of_digest hd, hbefore⟩

/-- The loader with a table in the place of the one that it had, if it had one. -/
def secured (l : Loader) (table : Checksums) : Loader := { l with checksums := some table }

theorem setChecksums_eq (l : Loader) (pairs : List (String × String)) :
    l.setChecksums pairs =
      (pairs.mapM reading).map fun digests => secured l (Table.ofList digests) := by
  rw [Loader.setChecksums, Checksums.ofPairs]
  change Except.map _ (pairs.mapM reading >>= fun digests => pure (Table.ofList digests)) = _
  cases pairs.mapM reading with
  | error e => rfl
  | ok digests => rfl

/-- Takes the pairs in turn, beside the digests so far. The loader is touched behind the last. -/
def register (digests : Checksums) : List (String × String) → ExceptT Error (StateM Loader) Unit
  | [] => modify fun l => secured l digests
  | (name, text) :: pairs => do
    let digest ← ExceptT.mk (return Checksums.digest name text)
    register (Table.insert name digest digests) pairs

theorem register_run (digests : Checksums) (pairs : List (String × String)) (l : Loader) :
    (register digests pairs).run l = match pairs.mapM reading with
      | .ok ds => (.ok (), secured l (ds.foldl (fun ms m => Table.insert m.1 m.2 ms) digests))
      | .error e => (.error e, l) := by
  induction pairs generalizing digests with
  | nil => rfl
  | cons m pairs ih =>
    obtain ⟨name, text⟩ := m
    have hrest := fun digest => ih (Table.insert name digest digests)
    rw [List.mapM_cons, register, reading]
    cases hd : Checksums.digest name text with
    | error e => rfl
    | ok digest =>
      cases hm : pairs.mapM reading with
      | error e =>
        rw [hm] at hrest
        exact hrest digest
      | ok ds =>
        rw [hm] at hrest
        exact hrest digest

/-- Pair by pair, the loader is changed as a whole or not at all. -/
theorem register_eq (l : Loader) (pairs : List (String × String)) :
    (register [] pairs).run l = match l.setChecksums pairs with
      | .ok l' => (.ok (), l')
      | .error e => (.error e, l) := by
  rw [register_run, setChecksums_eq]
  cases pairs.mapM reading with
  | error e => rfl
  | ok digests => rfl

theorem mem_table_iff (h : Checksums.ofPairs pairs = .ok table) (name : String)
    (digest : List UInt8) : (name, digest) ∈ table ↔ ∃ before text after,
      pairs = before ++ (name, text) :: after ∧ (∀ m ∈ after, m.1 ≠ name) ∧ Says text digest := by
  have hascending : Ascending table := by
    obtain ⟨digests, rfl, -⟩ := Digests.ofPairs_reads h
    exact ascending_ofList digests
  have hfound : (name, digest) ∈ table ↔ Table.find? table name = some digest :=
    ⟨find?_of_mem hascending, mem_of_find?⟩
  rw [hfound, (Digests.find?_ofPairs h name).2]
  simp only [says_iff]
  exact Iff.rfl

theorem setChecksums_ok {l l' : Loader} (h : l.setChecksums pairs = .ok l') :
    (∀ m ∈ pairs, IsDigest m.2) ∧ ∃ table, Checksums.ofPairs pairs = .ok table ∧
      l' = secured l table := by
  obtain ⟨table, htable, hl⟩ := (map_ok_iff _ _ _).mp h
  refine ⟨?_, table, htable, hl.symm⟩
  obtain ⟨digests, -, hreads⟩ := Digests.ofPairs_reads htable
  clear h htable
  induction hreads with
  | nil => simp
  | @cons m d pairs digests hread _ ih =>
    obtain ⟨-, hspells⟩ := hread
    exact List.forall_mem_cons.mpr ⟨isDigest_iff.mpr ⟨d.2, says_iff.mpr hspells⟩, ih⟩

theorem setChecksums_error {l : Loader} {e : Error} (h : l.setChecksums pairs = .error e) :
    ∃ before name text after reason, pairs = before ++ (name, text) :: after ∧
      (∀ m ∈ before, IsDigest m.2) ∧ ¬ IsDigest text ∧ e = .invalidChecksum name reason := by
  rw [setChecksums_eq] at h
  cases hm : pairs.mapM reading with
  | ok digests =>
    rw [hm] at h
    cases h
  | error e' =>
    rw [hm] at h
    cases h
    obtain ⟨before, name, text, after, hpairs, hbefore, hbad⟩ := mapM_error hm
    obtain ⟨hnot, reason, hreason⟩ := digest_error hbad
    exact ⟨before, name, text, after, reason, hpairs, hbefore, hnot, hreason⟩

end tables

/-- Checksums are registered iff every text is a digest. The loader then has the digests of the last
text for each name, and no others; otherwise the first bad pair is named and the loader is as it
was, though the pairs are taken one by one. -/
theorem checksums_registered (l : Loader) (pairs : List (String × String)) :
    ((∃ l', l.setChecksums pairs = .ok l') ↔ ∀ m ∈ pairs, IsDigest m.2) ∧
    (∀ l', l.setChecksums pairs = .ok l' → ∃ table, l' = secured l table ∧ l'.isSecure = true ∧
      Ascending table ∧ ∀ name digest, (name, digest) ∈ table ↔ ∃ before text after,
        pairs = before ++ (name, text) :: after ∧ (∀ m ∈ after, m.1 ≠ name) ∧
          Says text digest) ∧
    (∀ e, l.setChecksums pairs = .error e → ∃ before name text after reason,
      pairs = before ++ (name, text) :: after ∧ (∀ m ∈ before, IsDigest m.2) ∧
        ¬ IsDigest text ∧ e = .invalidChecksum name reason) ∧
    (register [] pairs).run l = match l.setChecksums pairs with
      | .ok l' => (.ok (), l')
      | .error e => (.error e, l) := by
  refine ⟨⟨?_, ?_⟩, ?_, ?_, register_eq l pairs⟩
  · rintro ⟨l', h⟩
    exact (setChecksums_ok h).1
  · intro hall
    cases h : l.setChecksums pairs with
    | ok l' => exact ⟨l', rfl⟩
    | error e =>
      obtain ⟨before, name, text, after, reason, rfl, -, hnot, -⟩ := setChecksums_error h
      have hmem : (name, text) ∈ before ++ (name, text) :: after :=
        List.mem_append_right _ List.mem_cons_self
      exact absurd (hall _ hmem) hnot
  · intro l' h
    obtain ⟨-, table, htable, rfl⟩ := setChecksums_ok h
    refine ⟨table, rfl, rfl, ?_, mem_table_iff htable⟩
    obtain ⟨digests, rfl, -⟩ := Digests.ofPairs_reads htable
    exact ascending_ofList digests
  · intro e h
    exact setChecksums_error h

/-- A text of sixty-four equal digits. -/
def uniform (c : Char) : String := String.ofList (List.replicate 64 c)

theorem isDigest_uniform {c : Char} (hc : IsHex c) (hb : Text.isBlank c = false) :
    IsDigest (uniform c) := by
  have hall : ∀ d ∈ List.replicate 64 c, d = c := fun d hd => List.eq_of_mem_replicate hd
  refine ⟨List.replicate 64 c, ?_, List.length_replicate, ?_⟩
  · rw [uniform, String.toList_ofList]
    apply trimmed_self
    · intro d hd
      rw [hall d (List.mem_of_mem_head? hd)]
      exact hb
    · intro d hd
      rw [hall d (List.mem_of_mem_getLast? hd)]
      exact hb
  · intro d hd
    rw [hall d hd]
    exact hc

/-- Two texts for one name, and a bad pair behind a good one. -/
theorem checksums_registered_twice :
    (∃ l', (Loader.ofLocation "plugins").setChecksums [("a", uniform '0'), ("a", uniform 'F')] =
      .ok l' ∧ l'.isSecure = true) ∧
    (register [] [("a", uniform '0'), ("b", "zz")]).run (Loader.ofLocation "plugins") =
      (.error (.invalidChecksum "b" "Invalid character 'z' at position 0"),
        Loader.ofLocation "plugins") := by
  constructor
  · have hall : ∀ m ∈ [("a", uniform '0'), ("a", uniform 'F')], IsDigest m.2 := by
      have hzero : IsDigest (uniform '0') := isDigest_uniform (.inl (by decide)) (by decide)
      have hupper : IsDigest (uniform 'F') := isDigest_uniform (.inr (.inr (by decide))) (by decide)
      simpa using ⟨hzero, hupper⟩
    obtain ⟨hiff, hok, -, -⟩ := checksums_registered (Loader.ofLocation "plugins")
      [("a", uniform '0'), ("a", uniform 'F')]
    obtain ⟨l', hl⟩ := hiff.mpr hall
    obtain ⟨-, -, hsecure, -⟩ := hok l' hl
    exact ⟨l', hl, hsecure⟩
  · rw [(checksums_registered _ _).2.2.2]
    rfl

end Attestation.Proofs.Registration
