import Attestation.Proofs.JsonRecords
import Attestation.Proofs.JsonText
import Attestation.Proofs.JsonTokens

namespace Attestation.Proofs.JsonDocuments

open Json Json.Reader JsonGrammar JsonTokens
open JsonNumbers (digitByte)
open JsonText (lead items_close members_close value_array value_object value_digit)

theorem ends_nil : Ends [] := nofun

theorem ends_cons {b : UInt8} (hb : b = 0x2C ∨ b = 0x5D ∨ b = 0x7D) (rest : List UInt8) :
    Ends (b :: rest) := by
  intro c hc
  cases hc
  obtain rfl | rfl | rfl := hb <;> decide

theorem ends_gap {g rest : List UInt8} (hg : Gap g) (hr : Ends rest) : Ends (g ++ rest) := by
  have hspace : ∀ b, isSpace b = true → isDigit b = false ∧ b ≠ 0x2E ∧ b ≠ 0x65 ∧ b ≠ 0x45 :=
    Utf8Encoding.forall_byte (by decide)
  cases g with
  | nil => exact hr
  | cons b g =>
    intro c hc
    cases hc
    exact hspace b (hg b List.mem_cons_self)

section gaps

variable {g : List UInt8}

theorem value_gap (hg : Gap g) (fuel : Nat) (bytes : List UInt8) :
    Reader.value fuel (g ++ bytes) = Reader.value fuel bytes := by
  cases fuel with
  | zero => rfl
  | succ fuel => rw [Reader.value, Reader.value, skipSpace_gap hg]

theorem items_gap (hg : Gap g) (fuel : Nat) (done : List Tree) (bytes : List UInt8) :
    items fuel done (g ++ bytes) = items fuel done bytes := by
  cases fuel with
  | zero => rfl
  | succ fuel => rw [items, items, skipSpace_gap hg]

theorem members_gap (hg : Gap g) (fuel : Nat) (done : List (Option String × Tree))
    (bytes : List UInt8) : members fuel done (g ++ bytes) = members fuel done bytes := by
  cases fuel with
  | zero => rfl
  | succ fuel => rw [members, members, skipSpace_gap hg]

theorem value_skipSpace (fuel : Nat) (bytes : List UInt8) :
    Reader.value fuel (skipSpace bytes) = Reader.value fuel bytes := by
  obtain ⟨g, hg, heq⟩ := exists_gap bytes
  have h := value_gap hg fuel (skipSpace bytes)
  rw [← heq] at h
  exact h.symm

end gaps

theorem value_begins {fuel : Nat} {bytes more : List UInt8} {t : Tree}
    (h : Reader.value fuel bytes = (t, some more)) :
    ∃ b bs, skipSpace bytes = b :: bs ∧ b ≠ 0x5D := by
  cases fuel with
  | zero => simp [Reader.value] at h
  | succ fuel =>
    cases hs : skipSpace bytes with
    | nil => simp [Reader.value, hs] at h
    | cons b bs =>
      refine ⟨b, bs, rfl, ?_⟩
      rintro rfl
      simp [Reader.value, hs, isDigit] at h

theorem items_item {fuel : Nat} {done : List Tree} {bytes more : List UInt8} {t : Tree}
    (h : Reader.value fuel bytes = (t, some more)) :
    items (fuel + 1) done (lead done ++ bytes) = items fuel (t :: done) more := by
  have hskip : Reader.value fuel (skipSpace bytes) = (t, some more) := by
    rw [value_skipSpace, h]
  cases done with
  | nil =>
    obtain ⟨b, bs, hs, hb⟩ := value_begins h
    rw [hs] at hskip
    change items (fuel + 1) [] bytes = _
    rw [items, hs]
    simp only [if_neg hb, List.isEmpty_nil, afterComma?, if_true, hskip]
  | cons d done =>
    have hcomma : afterComma? (d :: done).isEmpty (0x2C :: bytes) = some (skipSpace bytes) := rfl
    change items (fuel + 1) (d :: done) (0x2C :: bytes) = _
    rw [items, skipSpace_cons rfl]
    simp only [hcomma, hskip]
    rfl

theorem string_spelled {ps : List Piece} {bs : List UInt8} (h : SpellsString ps bs)
    (rest : List UInt8) : ∃ cs, bs ++ rest = 0x22 :: cs ∧
      string .start .plain cs = some (text ps, rest) := by
  obtain ⟨hps⟩ := h
  exact ⟨_, rfl, (string_iff _ _ _).mpr ⟨ps, _, hps, List.append_assoc _ [0x22] rest, rfl⟩⟩

theorem key_spelled {k : List Piece} {ks : List UInt8} (hk : SpellsKey k ks) (rest : List UInt8) :
    ∃ cs g, Gap g ∧ skipSpace (ks ++ rest) = 0x22 :: cs ∧
      string .start .plain cs = some (text k, g ++ rest) := by
  obtain ⟨hg, h, hg'⟩ := hk
  rename_i g bs g'
  obtain ⟨cs, hcs, hread⟩ := string_spelled h (g' ++ rest)
  refine ⟨cs, g', hg', ?_, hread⟩
  rw [List.append_assoc, List.append_assoc, skipSpace_gap hg, hcs, skipSpace_cons rfl]

theorem members_member {fuel : Nat} {done : List (Option String × Tree)} {k : List Piece}
    {ks bytes more : List UInt8} {t : Tree} (hk : SpellsKey k ks)
    (h : Reader.value fuel bytes = (t, some more)) :
    members (fuel + 1) done (lead done ++ (ks ++ 0x3A :: bytes)) =
      members fuel ((text k, t) :: done) more := by
  obtain ⟨cs, g, hg, hs, hread⟩ := key_spelled hk (0x3A :: bytes)
  have hkey : key? (0x22 :: cs) = some (text k, g ++ 0x3A :: bytes) := by
    rw [key?, if_pos rfl, hread]
  have hcolon : afterColon? (g ++ 0x3A :: bytes) = some bytes := by
    rw [afterColon?, skipSpace_gap hg, skipSpace_cons rfl]
    rfl
  cases done with
  | nil =>
    change members (fuel + 1) [] (ks ++ 0x3A :: bytes) = _
    have hcomma : afterComma? true (0x22 :: cs) = some (0x22 :: cs) := rfl
    have hb : ¬ ((0x22 : UInt8) = 0x7D) := by decide
    rw [members, hs]
    simp only [if_neg hb, List.isEmpty_nil, hcomma, Option.bind_some, hkey, hcolon,
      Option.map_some, h]
  | cons d done =>
    have hcomma : afterComma? (d :: done).isEmpty (0x2C :: (ks ++ 0x3A :: bytes)) =
        some (0x22 :: cs) := by
      rw [← hs]
      rfl
    have hb : ¬ ((0x2C : UInt8) = 0x7D) := by decide
    change members (fuel + 1) (d :: done) (0x2C :: (ks ++ 0x3A :: bytes)) = _
    rw [members, skipSpace_cons rfl]
    simp only [if_neg hb, hcomma, Option.bind_some, hkey, hcolon, Option.map_some, h]

theorem number_spelled {l : Literal} {bs : List UInt8} (h : SpellsNumber l bs) (fuel : Nat)
    {rest : List UInt8} (hr : Ends rest) :
    Reader.value (fuel + 1) (bs ++ rest) = (.number l.value?, some rest) := by
  cases h with
  | plain hn h =>
    have hread := literal_spelled h hr
    obtain ⟨hds, hz, hf, he⟩ := h
    obtain ⟨d, more, rfl⟩ := List.exists_cons_of_ne_nil hds.1
    simp only [List.map_cons, List.cons_append] at hread ⊢
    subst hn
    rw [value_digit (hds.2 d List.mem_cons_self), number, hread]
  | minus hn h =>
    have hread := literal_spelled h hr
    rw [hn] at hread
    rw [List.cons_append, Reader.value, skipSpace_cons rfl]
    change number true _ = _
    rw [number, hread]

theorem length_number {l : Literal} {bs : List UInt8} (h : SpellsNumber l bs) : 0 < bs.length := by
  cases h with
  | plain hn h =>
    obtain ⟨hds, hz, hf, he⟩ := h
    have := List.length_pos_iff.mpr hds.1
    simp only [List.length_append, List.length_map]
    omega
  | minus hn h => exact Nat.succ_pos _

theorem length_bare {d : Phrase} {bs : List UInt8} (h : SpellsBare d bs) : 0 < bs.length := by
  cases h with
  | number h => exact length_number h
  | string h =>
    obtain ⟨h⟩ := h
    exact Nat.succ_pos _
  | _ => exact Nat.succ_pos _

theorem length_spells {d : Phrase} {bs : List UInt8} (h : Spells d bs) : 0 < bs.length := by
  obtain ⟨hg, h, hg'⟩ := h
  have := length_bare h
  simp only [List.length_append]
  omega

mutual

theorem value_spelled : ∀ {d : Phrase} {bs : List UInt8}, SpellsBare d bs →
    ∀ (fuel : Nat) (rest : List UInt8), bs.length ≤ fuel → Ends rest →
    Reader.value fuel (bs ++ rest) = (d.tree, some rest)
  | _, _, h, 0, rest, hf, _ => absurd (length_bare h) (Nat.not_lt.mpr hf)
  | _, _, .null, fuel + 1, rest, _, _ => rfl
  | _, _, .true, fuel + 1, rest, _, _ => rfl
  | _, _, .false, fuel + 1, rest, _, _ => rfl
  | _, _, .number h, fuel + 1, rest, _, hr => number_spelled h fuel hr
  | _, _, .string h, fuel + 1, rest, _, _ => by
    obtain ⟨cs, hcs, hread⟩ := string_spelled h rest
    rw [hcs, Reader.value, skipSpace_cons rfl]
    simp only [hread]
    rfl
  | _, _, .emptyArray hg, 1, rest, hf, _ => by
    simp at hf
  | _, _, .emptyArray hg, fuel + 2, rest, hf, _ => by
    rw [List.cons_append, value_array, List.append_assoc, items_gap hg]
    exact items_close fuel [] rest
  | _, _, .array h, fuel + 1, rest, hf, _ => by
    simp only [List.length_cons, List.length_append, List.length_nil] at hf
    rw [List.cons_append, value_array, List.append_assoc]
    exact items_spelled h fuel [] rest (by omega)
  | _, _, .emptyObject hg, 1, rest, hf, _ => by
    simp at hf
  | _, _, .emptyObject hg, fuel + 2, rest, hf, _ => by
    rw [List.cons_append, value_object, List.append_assoc, members_gap hg]
    exact members_close fuel [] rest
  | _, _, .object h, fuel + 1, rest, hf, _ => by
    simp only [List.length_cons, List.length_append, List.length_nil] at hf
    rw [List.cons_append, value_object, List.append_assoc]
    exact members_spelled h fuel [] rest (by omega)

theorem padded_spelled : ∀ {d : Phrase} {bs : List UInt8}, Spells d bs →
    ∀ (fuel : Nat) (rest : List UInt8), bs.length ≤ fuel → Ends rest →
    ∃ g, Gap g ∧ Reader.value fuel (bs ++ rest) = (d.tree, some (g ++ rest))
  | _, _, .padded hg h hg', fuel, rest, hf, hr => by
    rename_i d g bs g'
    simp only [List.length_append] at hf
    refine ⟨g', hg', ?_⟩
    rw [List.append_assoc, List.append_assoc, value_gap hg,
      value_spelled h fuel (g' ++ rest) (by omega) (ends_gap hg' hr)]

theorem items_spelled : ∀ {ds : List Phrase} {bs : List UInt8}, SpellsItems ds bs →
    ∀ (fuel : Nat) (done : List Tree) (rest : List UInt8), bs.length + 1 ≤ fuel →
    items fuel done (lead done ++ (bs ++ 0x5D :: rest)) =
      (.array (done.reverse ++ Phrase.trees ds) true, some rest)
  | _, _, _, 0, _, _, hf => by omega
  | _, _, .one h, fuel + 1, done, rest, hf => by
    have hpos := length_spells h
    obtain ⟨g, hg, hread⟩ := padded_spelled h fuel (0x5D :: rest) (by omega)
      (ends_cons (by decide) rest)
    obtain ⟨n, rfl⟩ : ∃ n, fuel = n + 1 := ⟨fuel - 1, by omega⟩
    rw [items_item hread, items_gap hg, items_close]
    simp [Phrase.trees]
  | _, _, .more h hs, fuel + 1, done, rest, hf => by
    rename_i d ds bs cs
    simp only [List.length_append, List.length_cons] at hf
    obtain ⟨g, hg, hread⟩ := padded_spelled h fuel (0x2C :: (cs ++ 0x5D :: rest)) (by omega)
      (ends_cons (by decide) _)
    have hmore := items_spelled hs fuel (d.tree :: done) rest (by omega)
    rw [List.append_assoc, List.cons_append, items_item hread, items_gap hg]
    simpa [Phrase.trees, lead] using hmore

theorem members_spelled : ∀ {ms : List (List Piece × Phrase)} {bs : List UInt8},
    SpellsMembers ms bs → ∀ (fuel : Nat) (done : List (Option String × Tree)) (rest : List UInt8),
    bs.length + 1 ≤ fuel → members fuel done (lead done ++ (bs ++ 0x7D :: rest)) =
      (.object (done.reverse ++ Phrase.memberTrees ms) true, some rest)
  | _, _, _, 0, _, _, hf => by omega
  | _, _, .one hk h, fuel + 1, done, rest, hf => by
    simp only [List.length_append, List.length_cons] at hf
    obtain ⟨g, hg, hread⟩ := padded_spelled h fuel (0x7D :: rest) (by omega)
      (ends_cons (by decide) rest)
    obtain ⟨n, rfl⟩ : ∃ n, fuel = n + 1 := ⟨fuel - 1, by omega⟩
    rw [List.append_assoc, List.cons_append, members_member hk hread, members_gap hg,
      members_close]
    simp [Phrase.memberTrees]
  | _, _, .more hk h hs, fuel + 1, done, rest, hf => by
    rename_i k d ms ks bs cs
    simp only [List.length_append, List.length_cons] at hf
    obtain ⟨g, hg, hread⟩ := padded_spelled h fuel (0x2C :: (cs ++ 0x7D :: rest)) (by omega)
      (ends_cons (by decide) _)
    have hmore := members_spelled hs fuel ((text k, d.tree) :: done) rest (by omega)
    rw [List.append_assoc, List.cons_append, List.append_assoc, List.cons_append,
      members_member hk hread, members_gap hg]
    simpa [Phrase.memberTrees, lead] using hmore

end

theorem read_spelled {d : Phrase} {data : List UInt8} (h : Spells d data) :
    Document.read data = ⟨d.tree, true⟩ := by
  obtain ⟨g, hg, hread⟩ := padded_spelled h (2 * data.length + 2) [] (by omega) ends_nil
  rw [List.append_nil] at hread
  have hend : skipSpace (g ++ []) = [] := skipSpace_gap hg []
  rw [Document.read, hread]
  simp only [hend, List.isEmpty_nil]

inductive ItemsEnd : List Phrase → List UInt8 → Prop
  | close {g : List UInt8} (hg : Gap g) : ItemsEnd [] (g ++ [0x5D])
  | more {ds : List Phrase} {g cs : List UInt8} (hg : Gap g) (hs : SpellsItems ds cs) :
      ItemsEnd ds (g ++ 0x2C :: (cs ++ [0x5D]))

inductive MembersEnd : List (List Piece × Phrase) → List UInt8 → Prop
  | close {g : List UInt8} (hg : Gap g) : MembersEnd [] (g ++ [0x7D])
  | more {ms : List (List Piece × Phrase)} {g cs : List UInt8} (hg : Gap g)
      (hs : SpellsMembers ms cs) : MembersEnd ms (g ++ 0x2C :: (cs ++ [0x7D]))

theorem itemsEnd_item {d : Phrase} {ds : List Phrase} {g bs cs : List UInt8} (hg : Gap g)
    (h : SpellsBare d bs) (hend : ItemsEnd ds cs) :
    ∃ es, SpellsItems (d :: ds) es ∧ g ++ (bs ++ cs) = es ++ [0x5D] := by
  cases hend with
  | close hg' => exact ⟨_, .one (.padded hg h hg'), by simp⟩
  | more hg' hs => exact ⟨_, .more (.padded hg h hg') hs, by simp⟩

theorem membersEnd_member {k : List Piece} {d : Phrase} {ms : List (List Piece × Phrase)}
    {ks g bs cs : List UInt8} (hk : SpellsKey k ks) (hg : Gap g) (h : SpellsBare d bs)
    (hend : MembersEnd ms cs) :
    ∃ es, SpellsMembers ((k, d) :: ms) es ∧ ks ++ 0x3A :: (g ++ (bs ++ cs)) = es ++ [0x7D] := by
  cases hend with
  | close hg' => exact ⟨_, .one hk (.padded hg h hg'), by simp⟩
  | more hg' hs => exact ⟨_, .more hk (.padded hg h hg') hs, by simp⟩

theorem afterComma?_first {bytes body : List UInt8} (h : afterComma? true bytes = some body) :
    body = bytes := by
  simpa [afterComma?] using h.symm

theorem afterComma?_next {bytes body : List UInt8} (h : afterComma? false bytes = some body) :
    ∃ g, Gap g ∧ bytes = 0x2C :: (g ++ body) := by
  unfold afterComma? at h
  split at h
  · contradiction
  · split at h
    · rename_i b rest
      split at h
      · rename_i hb
        cases h
        obtain ⟨g, hg, heq⟩ := exists_gap rest
        exact ⟨g, hg, by rw [hb, ← heq]⟩
      · cases h
    · cases h

theorem key?_sound {bytes rest : List UInt8} {k : Option String}
    (h : key? bytes = some (k, rest)) :
    ∃ ps bs, SpellsString ps bs ∧ k = text ps ∧ bytes = bs ++ rest := by
  unfold key? at h
  split at h
  · split at h
    · rename_i hb
      obtain ⟨ps, bs, hps, hbytes, hk⟩ := (string_iff _ _ _).mp h
      exact ⟨ps, _, .quoted hps, hk, by rw [hb, hbytes]; simp⟩
    · cases h
  · cases h

theorem afterColon?_sound {bytes rest : List UInt8} (h : afterColon? bytes = some rest) :
    ∃ g, Gap g ∧ bytes = g ++ 0x3A :: rest := by
  obtain ⟨g, hg, heq⟩ := exists_gap bytes
  unfold afterColon? at h
  split at h
  · rename_i hs
    split at h
    · rename_i hb
      cases h
      exact ⟨g, hg, by rw [heq, hs, hb]⟩
    · cases h
  · cases h

theorem number_sound {negative : Bool} {bytes rest : List UInt8} {t : Tree}
    (h : number negative bytes = (t, some rest)) :
    ∃ l bs, SpellsUnsigned l bs ∧ l.negative = negative ∧ t = .number l.value? ∧
      bytes = bs ++ rest := by
  unfold number at h
  split at h
  · rename_i l rest' hl
    cases h
    obtain ⟨bs, hbs, hn, hbytes⟩ := literal_sound hl
    exact ⟨l, bs, hbs, hn, rfl, hbytes⟩
  · cases h

theorem word_sound {w bytes rest : List UInt8} {t t' : Tree}
    (h : word w t bytes = (t', some rest)) : t = t' ∧ bytes = w ++ rest := by
  unfold word at h
  split at h
  · rename_i rest' hw
    cases h
    exact ⟨rfl, (afterWord?_eq_some_iff _ _ _).mp hw⟩
  · cases h

/-- What has been read with some fuel is what the grammar spells. -/
structure Sound (fuel : Nat) : Prop where
  value : ∀ {bytes t rest}, Reader.value fuel bytes = (t, some rest) →
    ∃ d g bs, Gap g ∧ SpellsBare d bs ∧ d.tree = t ∧ bytes = g ++ (bs ++ rest)
  array : ∀ {bytes t rest}, items fuel [] bytes = (t, some rest) →
    ∃ ds bs, SpellsBare (.array ds) (0x5B :: bs) ∧ t = .array (Phrase.trees ds) true ∧
      bytes = bs ++ rest
  items : ∀ {done bytes t rest}, done ≠ [] → items fuel done bytes = (t, some rest) →
    ∃ ds bs, ItemsEnd ds bs ∧ t = .array (done.reverse ++ Phrase.trees ds) true ∧
      bytes = bs ++ rest
  object : ∀ {bytes t rest}, members fuel [] bytes = (t, some rest) →
    ∃ ms bs, SpellsBare (.object ms) (0x7B :: bs) ∧ t = .object (Phrase.memberTrees ms) true ∧
      bytes = bs ++ rest
  members : ∀ {done bytes t rest}, done ≠ [] → members fuel done bytes = (t, some rest) →
    ∃ ms bs, MembersEnd ms bs ∧ t = .object (done.reverse ++ Phrase.memberTrees ms) true ∧
      bytes = bs ++ rest

theorem sound_zero : Sound 0 := by
  constructor <;> simp [Reader.value, items, members]

section step

variable {fuel : Nat}

theorem Sound.item (ih : Sound fuel) {done : List Tree} {g body more rest : List UInt8}
    {t t' : Tree} (hg : Gap g) (hv : Reader.value fuel body = (t, some more))
    (hi : Reader.items fuel (t :: done) more = (t', some rest)) :
    ∃ ds es, SpellsItems ds es ∧ t' = .array (done.reverse ++ Phrase.trees ds) true ∧
      g ++ body = es ++ 0x5D :: rest := by
  obtain ⟨d, g', bs, hg', hd, rfl, rfl⟩ := ih.value hv
  obtain ⟨ds, cs, hend, rfl, rfl⟩ := ih.items (List.cons_ne_nil _ _) hi
  obtain ⟨es, hes, heq⟩ := itemsEnd_item (gap_append hg hg') hd hend
  refine ⟨d :: ds, es, hes, by simp [Phrase.trees], ?_⟩
  have := congrArg (· ++ rest) heq
  simpa using this

theorem Sound.member (ih : Sound fuel) {done : List (Option String × Tree)}
    {g body colon vbytes more rest : List UInt8} {k : Option String} {t t' : Tree} (hg : Gap g)
    (hk : key? body = some (k, colon)) (hc : afterColon? colon = some vbytes)
    (hv : Reader.value fuel vbytes = (t, some more))
    (hi : Reader.members fuel ((k, t) :: done) more = (t', some rest)) :
    ∃ ms es, SpellsMembers ms es ∧ t' = .object (done.reverse ++ Phrase.memberTrees ms) true ∧
      g ++ body = es ++ 0x7D :: rest := by
  obtain ⟨ps, ks, hks, rfl, rfl⟩ := key?_sound hk
  obtain ⟨gc, hgc, rfl⟩ := afterColon?_sound hc
  obtain ⟨d, g', bs, hg', hd, rfl, rfl⟩ := ih.value hv
  obtain ⟨ms, cs, hend, rfl, rfl⟩ := ih.members (List.cons_ne_nil _ _) hi
  obtain ⟨es, hes, heq⟩ := membersEnd_member (.padded hg hks hgc) hg' hd hend
  refine ⟨(ps, d) :: ms, es, hes, by simp [Phrase.memberTrees], ?_⟩
  have := congrArg (· ++ rest) heq
  simpa using this

theorem Sound.array_succ (ih : Sound fuel) {bytes rest : List UInt8} {t : Tree}
    (h : Reader.items (fuel + 1) [] bytes = (t, some rest)) :
    ∃ ds bs, SpellsBare (.array ds) (0x5B :: bs) ∧ t = .array (Phrase.trees ds) true ∧
      bytes = bs ++ rest := by
  obtain ⟨g, hg, heq⟩ := exists_gap bytes
  rw [Reader.items] at h
  split at h
  · cases h
  · rename_i b r hs
    split at h
    · rename_i hb
      cases h
      exact ⟨[], g ++ [0x5D], .emptyArray hg, rfl, by rw [heq, hs, hb]; simp⟩
    · split at h
      · cases h
      · rename_i body hbody
        split at h
        · rename_i t' more hv
          obtain rfl := afterComma?_first hbody
          obtain ⟨ds, es, hes, rfl, hbytes⟩ := ih.item hg hv h
          exact ⟨ds, es ++ [0x5D], .array hes, rfl, by rw [heq, hs, hbytes]; simp⟩
        · cases h

theorem Sound.items_succ (ih : Sound fuel) {done : List Tree} {bytes rest : List UInt8} {t : Tree}
    (hdone : done ≠ []) (h : Reader.items (fuel + 1) done bytes = (t, some rest)) :
    ∃ ds bs, ItemsEnd ds bs ∧ t = .array (done.reverse ++ Phrase.trees ds) true ∧
      bytes = bs ++ rest := by
  obtain ⟨g, hg, heq⟩ := exists_gap bytes
  rw [Reader.items] at h
  split at h
  · cases h
  · rename_i b r hs
    split at h
    · rename_i hb
      cases h
      exact ⟨[], _, .close hg, by simp [Phrase.trees], by rw [heq, hs, hb]; simp⟩
    · split at h
      · cases h
      · rename_i body hbody
        split at h
        · rename_i t' more hv
          rw [List.isEmpty_eq_false_iff.mpr hdone] at hbody
          obtain ⟨gc, hgc, hcomma⟩ := afterComma?_next hbody
          obtain ⟨ds, es, hes, rfl, hbytes⟩ := ih.item hgc hv h
          exact ⟨ds, _, .more hg hes, rfl, by rw [heq, hs, hcomma, hbytes]; simp⟩
        · cases h

theorem Sound.object_succ (ih : Sound fuel) {bytes rest : List UInt8} {t : Tree}
    (h : Reader.members (fuel + 1) [] bytes = (t, some rest)) :
    ∃ ms bs, SpellsBare (.object ms) (0x7B :: bs) ∧ t = .object (Phrase.memberTrees ms) true ∧
      bytes = bs ++ rest := by
  obtain ⟨g, hg, heq⟩ := exists_gap bytes
  rw [Reader.members] at h
  split at h
  · cases h
  · rename_i b r hs
    split at h
    · rename_i hb
      cases h
      exact ⟨[], g ++ [0x7D], .emptyObject hg, rfl, by rw [heq, hs, hb]; simp⟩
    · split at h
      · cases h
      · rename_i k colon hkey
        obtain ⟨body, hbody, hk⟩ := Option.bind_eq_some_iff.mp hkey
        split at h
        · cases h
        · rename_i t' more hv
          obtain ⟨vbytes, hcolon, hv⟩ := Option.map_eq_some_iff.mp hv
          obtain rfl := afterComma?_first hbody
          obtain ⟨ms, es, hes, rfl, hbytes⟩ := ih.member hg hk hcolon hv h
          exact ⟨ms, es ++ [0x7D], .object hes, rfl, by rw [heq, hs, hbytes]; simp⟩
        · cases h

theorem Sound.members_succ (ih : Sound fuel) {done : List (Option String × Tree)}
    {bytes rest : List UInt8} {t : Tree} (hdone : done ≠ [])
    (h : Reader.members (fuel + 1) done bytes = (t, some rest)) :
    ∃ ms bs, MembersEnd ms bs ∧ t = .object (done.reverse ++ Phrase.memberTrees ms) true ∧
      bytes = bs ++ rest := by
  obtain ⟨g, hg, heq⟩ := exists_gap bytes
  rw [Reader.members] at h
  split at h
  · cases h
  · rename_i b r hs
    split at h
    · rename_i hb
      cases h
      exact ⟨[], _, .close hg, by simp [Phrase.memberTrees], by rw [heq, hs, hb]; simp⟩
    · split at h
      · cases h
      · rename_i k colon hkey
        obtain ⟨body, hbody, hk⟩ := Option.bind_eq_some_iff.mp hkey
        split at h
        · cases h
        · rename_i t' more hv
          obtain ⟨vbytes, hcolon, hv⟩ := Option.map_eq_some_iff.mp hv
          rw [List.isEmpty_eq_false_iff.mpr hdone] at hbody
          obtain ⟨gc, hgc, hcomma⟩ := afterComma?_next hbody
          obtain ⟨ms, es, hes, rfl, hbytes⟩ := ih.member hgc hk hcolon hv h
          exact ⟨ms, _, .more hg hes, rfl, by rw [heq, hs, hcomma, hbytes]; simp⟩
        · cases h

theorem Sound.value_succ (ih : Sound fuel) {bytes rest : List UInt8} {t : Tree}
    (h : Reader.value (fuel + 1) bytes = (t, some rest)) :
    ∃ d g bs, Gap g ∧ SpellsBare d bs ∧ d.tree = t ∧ bytes = g ++ (bs ++ rest) := by
  obtain ⟨g, hg, heq⟩ := exists_gap bytes
  rw [Reader.value] at h
  split at h
  · cases h
  · rename_i b r hs
    rw [hs] at heq
    suffices hbare : ∃ d bs, SpellsBare d bs ∧ d.tree = t ∧ b :: r = bs ++ rest by
      obtain ⟨d, bs, hd, ht, hbytes⟩ := hbare
      exact ⟨d, g, bs, hg, hd, ht, by rw [heq, hbytes]⟩
    split at h
    · rename_i hb
      obtain ⟨ms, bs, hms, rfl, rfl⟩ := ih.object h
      exact ⟨_, _, hms, rfl, by rw [hb]; rfl⟩
    split at h
    · rename_i hb
      obtain ⟨ds, bs, hds, rfl, rfl⟩ := ih.array h
      exact ⟨_, _, hds, rfl, by rw [hb]; rfl⟩
    split at h
    · rename_i hb
      split at h
      · rename_i s rest' hstring
        cases h
        obtain ⟨ps, bs, hps, rfl, rfl⟩ := (string_iff _ _ _).mp hstring
        exact ⟨.string ps, _, .string (.quoted hps), rfl, by rw [hb]; simp⟩
      · cases h
    split at h
    · rename_i hb
      obtain ⟨rfl, rfl⟩ := word_sound h
      exact ⟨.null, _, .null, rfl, by rw [hb]; rfl⟩
    split at h
    · rename_i hb
      obtain ⟨rfl, rfl⟩ := word_sound h
      exact ⟨.bool true, _, .true, rfl, by rw [hb]; rfl⟩
    split at h
    · rename_i hb
      obtain ⟨rfl, rfl⟩ := word_sound h
      exact ⟨.bool false, _, .false, rfl, by rw [hb]; rfl⟩
    split at h
    · rename_i hb
      obtain ⟨l, bs, hl, hn, rfl, rfl⟩ := number_sound h
      exact ⟨.number l, _, .number (.minus hn hl), rfl, by rw [hb]; rfl⟩
    split at h
    · obtain ⟨l, bs, hl, hn, rfl, hbytes⟩ := number_sound h
      exact ⟨.number l, bs, .number (.plain hn hl), rfl, hbytes⟩
    · cases h

end step

theorem sound (fuel : Nat) : Sound fuel := by
  induction fuel with
  | zero => exact sound_zero
  | succ fuel ih =>
    exact ⟨ih.value_succ, ih.array_succ, ih.items_succ, ih.object_succ, ih.members_succ⟩

theorem read_iff (data : List UInt8) (t : Tree) :
    Document.read data = ⟨t, true⟩ ↔ ∃ d, Spells d data ∧ d.tree = t := by
  constructor
  · intro h
    unfold Document.read at h
    split at h
    · rename_i t' rest hv
      simp only [Document.mk.injEq, List.isEmpty_iff] at h
      obtain ⟨rfl, hrest⟩ := h
      obtain ⟨d, g, bs, hg, hd, rfl, rfl⟩ := (sound _).value hv
      obtain ⟨g', hg', heq⟩ := exists_gap rest
      rw [hrest, List.append_nil] at heq
      subst heq
      exact ⟨d, .padded hg hd hg', rfl⟩
    · cases h
  · rintro ⟨d, hd, rfl⟩
    exact read_spelled hd

theorem spells_bare {d : Phrase} {bs : List UInt8} (h : SpellsBare d bs) : Spells d bs := by
  have hpadded := @Spells.padded d [] bs [] nofun h nofun
  rwa [List.nil_append, List.append_nil] at hpadded

theorem spellsString_plain {bs : List UInt8} (h : ∀ b ∈ bs, JsonStrings.Plain b) :
    SpellsString (bs.map .byte) (0x22 :: (bs ++ [0x22])) := by
  refine .quoted ?_
  induction bs with
  | nil => exact .nil
  | cons b bs ih =>
    obtain ⟨⟨hq, hs, hc⟩, h⟩ := List.forall_mem_cons.mp h
    exact .cons (.plain hq hs hc) (ih h)

theorem spellsKey_plain {bs : List UInt8} (h : ∀ b ∈ bs, JsonStrings.Plain b) :
    SpellsKey (bs.map .byte) (0x22 :: (bs ++ [0x22])) := by
  have hkey := @SpellsKey.padded _ [] _ [] nofun (spellsString_plain h) nofun
  rwa [List.nil_append, List.append_nil] at hkey

theorem run_spelled {α : Type} (dec : Decoder α) {d : Phrase} {data : List UInt8}
    (h : Spells d data) : Decoder.run dec data = dec ⟨.text, 0⟩ d.tree := by
  rw [Decoder.run, read_spelled h]
  cases hd : dec ⟨.text, 0⟩ d.tree <;> simp [bind, Except.bind, Decoder.ending]

theorem exists_spelled {α : Type} {dec : Decoder α} {data : List UInt8} {a : α}
    (h : Decoder.run dec data = .ok a) : ∃ d, Spells d data := by
  obtain ⟨a', _, hend⟩ := (JsonRecords.bind_ok_iff _ _ _).mp h
  have hended : (Document.read data).ended = true := by
    cases he : (Document.read data).ended with
    | true => rfl
    | false => simp [he, Decoder.ending] at hend
  obtain ⟨d, hd, _⟩ := (read_iff data (Document.read data).tree).mp (by rw [← hended])
  exact ⟨d, hd⟩

end Attestation.Proofs.JsonDocuments
