import Attestation.Proofs.JsonMeaning
import Attestation.Proofs.Numerals
import Attestation.Tsm.Attester

namespace Attestation.Proofs.PrivilegeLevels

open CmwGrammar Json JsonDocuments JsonGrammar JsonMeaning JsonNumbers JsonRecords Numerals Tsm
open JsonStrings (Plain plain_of_all)

/-- The level that the last member with the name of the option stands for. -/
inductive Level : Option Phrase → Nat → Prop
  | absent : Level none 0
  | null : Level (some .null) 0
  | integer {ds : List Nat} : Level (some (.number ⟨false, ds, none, none⟩)) (Literal.ofDigits ds)
  | numeral {ps : List Piece} {s : String} {n : Nat} (hs : text ps = some s)
      (hn : Numeral s.toList n) : Level (some (.string ps)) n

/-- Values of the option that stand for no level. -/
inductive Improper : Phrase → Prop
  | bool (b : Bool) : Improper (.bool b)
  | array (ds : List Phrase) : Improper (.array ds)
  | object (ms : List (List Piece × Phrase)) : Improper (.object ms)
  | negative {l : Literal} (h : l.negative = true) : Improper (.number l)
  | fractional {l : Literal} (h : l.fraction.isSome) : Improper (.number l)
  | exponential {l : Literal} (h : l.exponent.isSome) : Improper (.number l)
  | large {l : Literal} (h : UInt32.size ≤ Literal.ofDigits l.whole) : Improper (.number l)
  | string {ps : List Piece}
      (h : ∀ s n, text ps = some s → Numeral s.toList n → UInt32.size ≤ n) : Improper (.string ps)

theorem level_none_iff {n : Nat} : Level none n ↔ n = 0 := by
  constructor
  · rintro ⟨⟩
    rfl
  · rintro rfl
    exact .absent

theorem level_null_iff {n : Nat} : Level (some .null) n ↔ n = 0 := by
  constructor
  · rintro ⟨⟩
    rfl
  · rintro rfl
    exact .null

theorem level_number_iff {l : Literal} {n : Nat} :
    Level (some (.number l)) n ↔
      l = ⟨false, l.whole, none, none⟩ ∧ Literal.ofDigits l.whole = n := by
  constructor
  · rintro ⟨⟩
    exact ⟨rfl, rfl⟩
  · rintro ⟨hl, rfl⟩
    rw [hl]
    exact .integer

theorem level_string_iff {ps : List Piece} {n : Nat} :
    Level (some (.string ps)) n ↔ ∃ s, text ps = some s ∧ Numeral s.toList n := by
  constructor
  · intro h
    cases h with
    | numeral hs hn => exact ⟨_, hs, hn⟩
  · rintro ⟨s, hs, hn⟩
    exact .numeral hs hn

theorem not_level_of_improper {d : Phrase} (h : Improper d) (n : UInt32) :
    ¬ Level (some d) n.toNat := by
  have hsize : n.toNat < UInt32.size := n.toNat_lt_size
  intro hl
  cases h with
  | bool b => cases hl
  | array ds => cases hl
  | object ms => cases hl
  | negative h =>
    rw [(level_number_iff.mp hl).1] at h
    cases h
  | fractional h =>
    rw [(level_number_iff.mp hl).1] at h
    cases h
  | exponential h =>
    rw [(level_number_iff.mp hl).1] at h
    cases h
  | large h =>
    rw [(level_number_iff.mp hl).2] at h
    omega
  | string h =>
    obtain ⟨s, hs, hn⟩ := level_string_iff.mp hl
    have := h s _ hs hn
    omega

theorem toUInt32_eq_iff {m : UInt64} {n : UInt32} (hm : m.toNat < UInt32.size) :
    m.toUInt32 = n ↔ m.toNat = n.toNat := by
  rw [← UInt32.toNat_inj, UInt64.toNat_toUInt32, Nat.mod_eq_of_lt hm]

theorem levelOfValue_nat_iff {m : UInt64} {n : UInt32} :
    levelOfValue (.number (.nat m)) = .ok n ↔ m.toNat = n.toNat := by
  have hsize : n.toNat < UInt32.size := n.toNat_lt_size
  rw [levelOfValue]
  split
  · rename_i hm
    rw [Except.ok.injEq, toUInt32_eq_iff hm]
  · rename_i hm
    exact ⟨nofun, fun h => absurd (h ▸ hsize) hm⟩

theorem levelOfValue_string_iff {s : String} {n : UInt32} :
    levelOfValue (.string s) = .ok n ↔ Numeral s.toList n.toNat := by
  rw [levelOfValue]
  constructor
  · intro h
    split at h
    · rename_i k hk
      obtain ⟨hnumeral, hlt⟩ := natBelow?_trim_iff.mp hk
      cases h
      rwa [UInt32.toNat_ofNat_of_lt' hlt]
    · cases h
  · intro h
    rw [natBelow?_trim_iff.mpr ⟨h, n.toNat_lt_size⟩]
    simp only [UInt32.ofNat_toNat]

def levelOf : Option Value → Except String UInt32
  | none => .ok 0
  | some v => levelOfValue v

theorem levelOf_some (v : Value) : levelOf (some v) = levelOfValue v := rfl

theorem ok_zero_iff {n : UInt32} : (Except.ok 0 : Except String UInt32) = .ok n ↔ n.toNat = 0 := by
  rw [Except.ok.injEq, ← UInt32.toNat_inj, eq_comm]
  rfl

theorem levelOfValue_number_iff {l : Literal} {x : Number} (hl : l.value? = some x) {n : UInt32} :
    levelOfValue (.number x) = .ok n ↔ Level (some (.number l)) n.toNat := by
  rw [level_number_iff]
  cases x with
  | nat m =>
    obtain ⟨ds, rfl, hds⟩ := (value?_nat_iff l m).mp hl
    rw [levelOfValue_nat_iff, ← hds]
    exact (and_iff_right rfl).symm
  | negSucc m | float m =>
    refine iff_of_false nofun ?_
    rintro ⟨he, hn⟩
    have hnat := (value?_nat_iff l n.toUInt64).mpr ⟨_, he, hn⟩
    cases hnat.symm.trans hl

/-- The level is read as the last member stands for it, and as that number. -/
theorem levelOf_iff {o : Option Phrase} {v : Option Value} (h : Option.Rel Means o v)
    {n : UInt32} : levelOf v = .ok n ↔ Level o n.toNat := by
  cases h with
  | none => exact ok_zero_iff.trans level_none_iff.symm
  | some h =>
    cases h with
    | null => exact ok_zero_iff.trans level_null_iff.symm
    | number hl =>
      rw [levelOf_some]
      exact levelOfValue_number_iff hl
    | string hs =>
      rw [levelOf_some, levelOfValue_string_iff, level_string_iff, hs]
      simp
    | bool b => exact ⟨nofun, nofun⟩
    | array h => exact ⟨nofun, nofun⟩
    | object h hl => exact ⟨nofun, nofun⟩

theorem privilegeLevel_of_members {raw : List UInt8} (hne : raw ≠ [])
    {pairs : List (String × Value)} (hrun : Decoder.run (.members .value) raw = .ok pairs) :
    privilegeLevel raw = levelOf (Value.get? pairs privilegeLevelOption) := by
  simp only [privilegeLevel, if_neg hne, hrun]
  cases Value.get? pairs privilegeLevelOption <;> rfl

theorem levelOf_error {v : Option Value} {e : String} (h : levelOf v = .error e) :
    ∃ shown, e = invalidLevel shown := by
  cases v with
  | none => cases h
  | some v =>
    rw [levelOf_some] at h
    unfold levelOfValue at h
    split at h
    · cases h
    · split at h
      · cases h
      · exact ⟨_, (Except.error.inj h).symm⟩
    · split at h
      · cases h
      · exact ⟨_, (Except.error.inj h).symm⟩
    · exact ⟨_, (Except.error.inj h).symm⟩

theorem privilegeLevel_eq_ok_iff {raw : List UInt8} (hne : raw ≠ []) {n : UInt32} :
    privilegeLevel raw = .ok n ↔ ∃ pairs, Decoder.run (.members .value) raw = .ok pairs ∧
      levelOf (Value.get? pairs privilegeLevelOption) = .ok n := by
  cases hrun : Decoder.run (.members .value) raw with
  | error e =>
    rw [privilegeLevel, if_neg hne, hrun]
    exact ⟨nofun, nofun⟩
  | ok pairs =>
    rw [privilegeLevel_of_members hne hrun]
    simp only [Except.ok.injEq, exists_eq_left']

theorem privilegeLevel_spelled {ms : List (List Piece × Phrase)} {raw : List UInt8}
    {o : Option Phrase} (hs : Spells (.object ms) raw) (hl : Last ms privilegeLevelOption o)
    {n : UInt32} : privilegeLevel raw = .ok n ↔
      (Phrase.object ms).nesting ≤ maxDepth ∧ Readable (.object ms) ∧ Level o n.toNat := by
  have hne : raw ≠ [] := List.length_pos_iff.mp (length_spells hs)
  rw [privilegeLevel_eq_ok_iff hne]
  constructor
  · rintro ⟨pairs, hrun, hlevel⟩
    obtain ⟨hn, hmeans⟩ := (run_members_spelled hs).mp hrun
    exact ⟨hn, readable_of_meansMembers hmeans, (levelOf_iff (get?_last hmeans hl)).mp hlevel⟩
  · rintro ⟨hn, hread, hlevel⟩
    obtain ⟨pairs, hmeans⟩ := exists_meansMembers ms hread
    exact ⟨pairs, (run_members_spelled hs).mpr ⟨hn, hmeans⟩,
      (levelOf_iff (get?_last hmeans hl)).mpr hlevel⟩

/-- An integer, as it is written in the shortest way. -/
def literal (i : Int) : Literal := ⟨decide (i < 0), decimals i.natAbs, none, none⟩

theorem ofDigits_decimals (n : Nat) : Literal.ofDigits (decimals n) = n := by
  induction n using Nat.strongRecOn with
  | ind n ih =>
    by_cases hn : n < 10
    · simp [decimals_of_lt hn, Literal.ofDigits]
    · have hdiv : Literal.ofDigits (decimals (n / 10)) = n / 10 := ih (n / 10) (by omega)
      rw [Literal.ofDigits] at hdiv
      rw [decimals_of_le (by omega), Literal.ofDigits, List.foldl_append, hdiv, List.foldl_cons,
        List.foldl_nil]
      omega

theorem level_literal_iff {i : Int} {n : Nat} : Level (some (.number (literal i))) n ↔ i = n := by
  rw [level_number_iff]
  simp only [literal, Literal.mk.injEq, decide_eq_false_iff_not, and_true, ofDigits_decimals]
  omega

theorem numeral_int_iff {i : Int} {n : Nat} : Numeral (toString i).toList n ↔ i = n := by
  cases i with
  | ofNat k =>
    have hnumeral : Numeral (toString (Int.ofNat k)).toList k := by
      change Numeral (Nat.repr k).toList k
      rw [Nat.toList_repr, ← List.append_nil (Nat.toDigits 10 k)]
      exact numeral_toDigits k nofun
    constructor
    · exact fun h => congrArg Int.ofNat (numeral_unique hnumeral h)
    · intro h
      obtain rfl : k = n := Int.ofNat.inj h
      exact hnumeral
  | negSucc k =>
    have htext : (toString (Int.negSucc k)).toList = '-' :: Nat.toDigits 10 (k + 1) := by
      change ("-" ++ Nat.repr (k + 1)).toList = _
      rw [String.toList_append, Nat.toList_repr]
      rfl
    rw [htext]
    exact iff_of_false not_numeral_minus (by omega)

section forms

variable {before after : List (List Piece × Phrase)} {key : List Piece} {d d' : Phrase}

theorem readable_congr (h : Readable d ↔ Readable d') :
    Readable (.object (before ++ (key, d) :: after)) ↔
      Readable (.object (before ++ (key, d') :: after)) := by
  simp only [Readable, readableMembers_append, ReadableMembers, h]

theorem privilegeLevel_congr {raw raw' : List UInt8} (hk : text key = some privilegeLevelOption)
    (ha : ∀ m ∈ after, text m.1 ≠ some privilegeLevelOption)
    (hs : Spells (.object (before ++ (key, d) :: after)) raw)
    (hs' : Spells (.object (before ++ (key, d') :: after)) raw') (hn : d.nesting = d'.nesting)
    (hl : ∀ n : UInt32, Level (some d) n.toNat ↔ Level (some d') n.toNat)
    (hr : ∀ n : UInt32, Level (some d) n.toNat → (Readable d ↔ Readable d')) (n : UInt32) :
    privilegeLevel raw = .ok n ↔ privilegeLevel raw' = .ok n := by
  rw [privilegeLevel_spelled hs (.there rfl hk ha), privilegeLevel_spelled hs' (.there rfl hk ha),
    ← hl n, Phrase.nesting, Phrase.nesting, Phrase.nestingMembers_congr hn]
  refine and_congr_right fun _ => and_congr_left fun hlevel => ?_
  exact readable_congr (hr n hlevel)

end forms

theorem readable_literal {i : Int} {n : UInt32} (h : i = n.toNat) :
    Readable (.number (literal i)) := by
  obtain ⟨hl, hn⟩ := level_number_iff.mp (level_literal_iff.mpr h)
  have hvalue := (value?_nat_iff (literal i) n.toUInt64).mpr ⟨_, hl, hn⟩
  exact Option.isSome_of_eq_some hvalue

/-- Nothing is said about the level, only that it is refused. -/
def Refused (raw : List UInt8) : Prop := ∃ e, privilegeLevel raw = .error e

theorem refused_iff {raw : List UInt8} : Refused raw ↔ ∀ n, privilegeLevel raw ≠ .ok n := by
  rw [Refused]
  cases privilegeLevel raw with
  | error e => exact iff_of_true ⟨e, rfl⟩ nofun
  | ok n => exact iff_of_false nofun fun h => h n rfl

theorem exists_object {raw : List UInt8} (hne : raw ≠ []) {n : UInt32}
    (h : privilegeLevel raw = .ok n) : ∃ ms, Spells (.object ms) raw := by
  obtain ⟨pairs, hrun, _⟩ := (privilegeLevel_eq_ok_iff hne).mp h
  obtain ⟨ms, hs, _⟩ := run_members_iff.mp hrun
  exact ⟨ms, hs⟩

theorem privilegeLevel_iff {raw : List UInt8} {n : UInt32} :
    privilegeLevel raw = .ok n ↔ raw = [] ∧ n = 0 ∨ ∃ ms o, Spells (.object ms) raw ∧
      (Phrase.object ms).nesting ≤ maxDepth ∧ Readable (.object ms) ∧
      Last ms privilegeLevelOption o ∧ Level o n.toNat := by
  constructor
  · intro h
    by_cases hne : raw = []
    · subst hne
      exact .inl ⟨rfl, (Except.ok.inj h).symm⟩
    · obtain ⟨ms, hs⟩ := exists_object hne h
      obtain ⟨o, hl⟩ := exists_last ms privilegeLevelOption
      obtain ⟨hn, hr, hlevel⟩ := (privilegeLevel_spelled hs hl).mp h
      exact .inr ⟨ms, o, hs, hn, hr, hl, hlevel⟩
  · rintro (⟨rfl, rfl⟩ | ⟨ms, o, hs, hn, hr, hl, hlevel⟩)
    · rfl
    · exact (privilegeLevel_spelled hs hl).mpr ⟨hn, hr, hlevel⟩

section texts

/-- The text of an object of one member. -/
def single (key value : List UInt8) : List UInt8 :=
  0x7B :: (((0x22 :: (key ++ [0x22])) ++ 0x3A :: value) ++ [0x7D])

theorem bare_single {key value : List UInt8} {d : Phrase} (hk : ∀ b ∈ key, Plain b)
    (h : SpellsBare d value) : SpellsBare (.object [(key.map .byte, d)]) (single key value) :=
  .object (.one (spellsKey_plain hk) (spells_bare h))

theorem spells_single {key value : List UInt8} {d : Phrase} (hk : ∀ b ∈ key, Plain b)
    (h : SpellsBare d value) : Spells (.object [(key.map .byte, d)]) (single key value) :=
  spells_bare (bare_single hk h)

theorem bare_digit {d : Nat} (h : d < 10) :
    SpellsBare (.number ⟨false, [d], none, none⟩) [digitByte d] := by
  have hdigits : Digits [d] := ⟨nofun, by simpa using h⟩
  exact .number (.plain rfl (.parts hdigits (fun h => by simpa using h) .absent .absent))

/-- Arrays inside one another. -/
def nested : Nat → Phrase
  | 0 => .array []
  | n + 1 => .array [nested n]

def nestedText : Nat → List UInt8
  | 0 => [0x5B, 0x5D]
  | n + 1 => 0x5B :: (nestedText n ++ [0x5D])

theorem spells_nested (n : Nat) : SpellsBare (nested n) (nestedText n) := by
  induction n with
  | zero => exact @SpellsBare.emptyArray [] nofun
  | succ n ih => exact .array (.one (spells_bare ih))

theorem nesting_nested (n : Nat) : (nested n).nesting = n + 1 := by
  induction n with
  | zero => rfl
  | succ n ih =>
    rw [nested, Phrase.nesting, Phrase.nestingItems, Phrase.nestingItems, ih]
    rfl

end texts

/-- The level that options ask for, by their text alone: objects count up to a nesting of 127, if
their numbers are none that is too large and their strings are texts. An integer and its decimal
digits in a string ask for the same, and what is no level is refused. -/
theorem level_as_asked (raw : List UInt8) :
    (∀ n, privilegeLevel raw = .ok n ↔
      raw = [] ∧ n = 0 ∨ ∃ ms o, Spells (.object ms) raw ∧ (Phrase.object ms).nesting ≤ 127 ∧
        Readable (.object ms) ∧ Last ms "privilege_level" o ∧ Level o n.toNat) ∧
    (∀ (i : Int) (other : List UInt8) (before after : List (List Piece × Phrase))
        (key ps : List Piece), text key = some "privilege_level" →
      (∀ m ∈ after, text m.1 ≠ some "privilege_level") → text ps = some (toString i) →
      Spells (.object (before ++ (key, .number (literal i)) :: after)) raw →
      Spells (.object (before ++ (key, .string ps) :: after)) other →
      ∀ n, privilegeLevel raw = .ok n ↔ privilegeLevel other = .ok n) ∧
    (∀ ms d, Spells (.object ms) raw → Last ms "privilege_level" (some d) → Improper d →
      Refused raw) ∧
    (raw ≠ [] → (∀ ms, ¬ Spells (.object ms) raw) → Refused raw) := by
  refine ⟨fun n => privilegeLevel_iff, fun i other before after key ps hk ha hps hs hs' => ?_,
    fun ms d hs hl hd => refused_iff.mpr fun n h => ?_,
    fun hne hnot => refused_iff.mpr fun n h => ?_⟩
  · have hstring : ∀ n, Level (some (.string ps)) n ↔ i = n := by
      intro n
      rw [level_string_iff, hps]
      simpa using numeral_int_iff
    refine privilegeLevel_congr hk ha hs hs' rfl (fun n => ?_) fun n hlevel => ?_
    · rw [level_literal_iff, hstring]
    · exact iff_of_true (readable_literal (level_literal_iff.mp hlevel))
        (Option.isSome_of_eq_some hps)
  · exact not_level_of_improper hd n ((privilegeLevel_spelled hs hl).mp h).2.2
  · obtain ⟨ms, hs⟩ := exists_object hne h
    exact hnot ms hs

/-- The level seven as a number and in a string, a level that is none, and no object. -/
theorem level_as_asked_seven :
    privilegeLevel (single (Text.Utf8.encode "privilege_level") [0x37]) = .ok 7 ∧
    privilegeLevel (single (Text.Utf8.encode "privilege_level") [0x22, 0x37, 0x22]) = .ok 7 ∧
    Refused (single (Text.Utf8.encode "privilege_level") [0x74, 0x72, 0x75, 0x65]) ∧
    Refused [0x5B, 0x5D] := by
  have hplain : ∀ b ∈ Text.Utf8.encode "privilege_level", Plain b :=
    plain_of_all (by decide)
  have hname : text ((Text.Utf8.encode "privilege_level").map .byte) = some "privilege_level" := by
    decide
  have hliteral : literal 7 = ⟨false, [7], none, none⟩ := by decide
  have hnumber : SpellsBare (.number (literal 7)) [0x37] := by
    rw [hliteral]
    exact bare_digit (by decide)
  have hstring : SpellsBare (.string ([0x37].map .byte)) [0x22, 0x37, 0x22] :=
    .string (spellsString_plain (plain_of_all (by decide)))
  have hseven : text ([0x37].map .byte) = some (toString (7 : Int)) := by decide
  have hlast : ∀ d : Phrase, Last [((Text.Utf8.encode "privilege_level").map .byte, d)]
      "privilege_level" (some d) := fun d => .there (List.nil_append _).symm hname nofun
  have hread : Readable (.number (literal 7)) := readable_literal (n := 7) rfl
  have hlevel : Level (some (.number (literal 7))) 7 := level_literal_iff.mpr rfl
  have hok := ((level_as_asked _).1 7).mpr (.inr ⟨_, _, spells_single hplain hnumber, by decide,
    ⟨Option.isSome_of_eq_some hname, hread, trivial⟩, hlast _, hlevel⟩)
  refine ⟨hok, ?_, ?_, (level_as_asked _).2.2.2 nofun fun ms h => ?_⟩
  · exact ((level_as_asked _).2.1 7 _ [] [] _ _ hname nofun hseven
      (spells_single hplain hnumber) (spells_single hplain hstring) 7).mp hok
  · exact (level_as_asked _).2.2.1 _ _ (spells_single hplain .true) (hlast _) (.bool true)
  · have harray : Document.read [0x5B, 0x5D] = ⟨.array [] true, true⟩ := rfl
    cases harray.symm.trans (read_spelled h)

/-- Options that ask for a level, whether or not a reader takes all that stands in them. -/
def Asks (raw : List UInt8) (n : Nat) : Prop :=
  raw = [] ∧ n = 0 ∨ ∃ ms o, Spells (.object ms) raw ∧ Last ms "privilege_level" o ∧ Level o n

theorem asks_zero {key value : List UInt8} {d : Phrase} (hp : ∀ b ∈ key, Plain b)
    (h : SpellsBare d value) (hk : text (key.map .byte) ≠ some "privilege_level") :
    Asks (single key value) 0 :=
  .inr ⟨_, none, spells_single hp h, .absent (by simpa using hk), .absent⟩

theorem refused_single {key value : List UInt8} {d : Phrase} (hp : ∀ b ∈ key, Plain b)
    (h : SpellsBare d value) (hd : ¬ (d.nesting < maxDepth ∧ Readable d)) :
    Refused (single key value) := by
  refine refused_iff.mpr fun n hn => hd ?_
  obtain ⟨o, hl⟩ := exists_last [(key.map .byte, d)] privilegeLevelOption
  obtain ⟨hdeep, ⟨_, hr, _⟩, _⟩ := (privilegeLevel_spelled (spells_single hp h) hl).mp hn
  have hlt : d.nesting + 1 ≤ maxDepth := by
    simpa [Phrase.nesting, Phrase.nestingMembers] using hdeep
  exact ⟨hlt, hr⟩

/-- The text `{"x":1e999}`. -/
def hugeNumber : List UInt8 := single [0x78] [0x31, 0x65, 0x39, 0x39, 0x39]

/-- The text `{"x":"\ud800"}`. -/
def halfCharacter : List UInt8 := single [0x78] [0x22, 0x5C, 0x75, 0x64, 0x38, 0x30, 0x30, 0x22]

/-- The text `{"x":[[[...]]]}` with 127 brackets. -/
def deepArray : List UInt8 := single [0x78] (nestedText 126)

/-- The text `{"privilege_level":-0}`. -/
def minusZero : List UInt8 := single (Text.Utf8.encode "privilege_level") [0x2D, 0x30]

theorem spells_hugeNumber :
    SpellsBare (.number ⟨false, [1], none, some (false, [9, 9, 9])⟩)
      [0x31, 0x65, 0x39, 0x39, 0x39] := by
  have hone : Digits [1] := ⟨nofun, by decide⟩
  have hnines : Digits [9, 9, 9] := ⟨nofun, by decide⟩
  exact .number (.plain rfl (.parts hone (by decide) .absent
    (.digits (.inl rfl) .absent hnines)))

theorem spells_halfCharacter :
    SpellsBare (.string [.unit 0xD800]) [0x22, 0x5C, 0x75, 0x64, 0x38, 0x30, 0x30, 0x22] :=
  .string (.quoted (.cons (.unit (w := 13) (x := 8) (y := 0) (z := 0) rfl rfl rfl rfl) .nil))

theorem spells_minusZero : SpellsBare (.number ⟨true, [0], none, none⟩) [0x2D, 0x30] := by
  have hzero : Digits [0] := ⟨nofun, by decide⟩
  exact .number (.minus rfl (.parts hzero (fun _ => rfl) .absent .absent))

/-- Objects without the option that are refused for the sake of another member, and the level zero
with a sign. -/
theorem asked_and_refused :
    (¬ ∀ raw n, privilegeLevel raw = .ok n ↔ Asks raw n.toNat) ∧
    (∀ raw ∈ [hugeNumber, halfCharacter, deepArray], Asks raw 0 ∧ Refused raw) ∧
    (∃ key, text key = some "privilege_level" ∧
      Spells (.object [(key, .number ⟨true, [0], none, none⟩)]) minusZero) ∧
    Refused minusZero := by
  have hplain : ∀ b ∈ [0x78], Plain b := plain_of_all (by decide)
  have hx : text ([0x78].map .byte) ≠ some "privilege_level" := by decide
  have hnumber : Literal.value? ⟨false, [1], none, some (false, [9, 9, 9])⟩ = none := by decide
  have hhuge : Asks hugeNumber 0 ∧ Refused hugeNumber := by
    refine ⟨asks_zero hplain spells_hugeNumber hx, refused_single hplain spells_hugeNumber ?_⟩
    simp [Readable, hnumber]
  have hstring : text [.unit 0xD800] = none := by decide
  have hhalf : Asks halfCharacter 0 ∧ Refused halfCharacter := by
    refine ⟨asks_zero hplain spells_halfCharacter hx,
      refused_single hplain spells_halfCharacter ?_⟩
    simp [Readable, hstring]
  have hdeep : Asks deepArray 0 ∧ Refused deepArray := by
    refine ⟨asks_zero hplain (spells_nested 126) hx, refused_single hplain (spells_nested 126) ?_⟩
    rw [nesting_nested]
    exact fun h => absurd h.1 (by decide)
  have hname : text ((Text.Utf8.encode "privilege_level").map .byte) = some "privilege_level" := by
    decide
  have hoption : ∀ b ∈ Text.Utf8.encode "privilege_level", Plain b :=
    plain_of_all (by decide)
  have hzero := spells_single hoption spells_minusZero
  refine ⟨fun h => ?_, ?_, ⟨_, hname, hzero⟩, refused_iff.mpr fun n hn => ?_⟩
  · obtain ⟨e, he⟩ := hhuge.2
    have hok := (h hugeNumber 0).mpr hhuge.1
    cases he.symm.trans hok
  · simp only [List.forall_mem_cons]
    exact ⟨hhuge, hhalf, hdeep, nofun⟩
  · have hlevel := ((privilegeLevel_spelled hzero (.there (List.nil_append _).symm hname nofun)).mp
      hn).2.2
    exact not_level_of_improper (.negative rfl) n hlevel

end Attestation.Proofs.PrivilegeLevels
