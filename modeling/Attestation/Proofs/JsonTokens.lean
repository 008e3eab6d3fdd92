import Attestation.Proofs.JsonGrammar
import Attestation.Proofs.JsonStrings

namespace Attestation.Proofs.JsonTokens

open Json Json.Reader JsonGrammar
open JsonNumbers (digitByte digits_digitBytes)

theorem gap_append {g g' : List UInt8} (hg : Gap g) (hg' : Gap g') : Gap (g ++ g') := by
  intro b hb
  obtain hb | hb := List.mem_append.mp hb
  · exact hg b hb
  · exact hg' b hb

theorem skipSpace_gap {g : List UInt8} (hg : Gap g) (bytes : List UInt8) :
    skipSpace (g ++ bytes) = skipSpace bytes :=
  List.dropWhile_append_of_pos hg

theorem exists_gap (bytes : List UInt8) : ∃ g, Gap g ∧ bytes = g ++ skipSpace bytes := by
  refine ⟨bytes.takeWhile isSpace, fun b hb => ?_, List.takeWhile_append_dropWhile.symm⟩
  exact List.all_eq_true.mp List.all_takeWhile b hb

theorem skipSpace_cons {b : UInt8} (hb : isSpace b = false) (bs : List UInt8) :
    skipSpace (b :: bs) = b :: bs := by
  simp [skipSpace, hb]

section strings

/-- The draft of a string behind a further piece. -/
def take (d : Draft) : Piece → Draft
  | .byte b => d.push b
  | .unit u => d.pushUnit u

theorem string_unit (d : Draft) {a b c e : UInt8} {w x y z : Nat} (ha : hexValue? a = some w)
    (hb : hexValue? b = some x) (hc : hexValue? c = some y) (he : hexValue? e = some z)
    (rest : List UInt8) :
    string d (.number 4 0) (a :: b :: c :: e :: rest) =
      string (d.pushUnit (((w * 16 + x) * 16 + y) * 16 + z)) .plain rest := by
  simp [string, ha, hb, hc, he]

theorem string_piece {p : Piece} {bs : List UInt8} (h : SpellsPiece p bs) (d : Draft)
    (rest : List UInt8) : string d .plain (bs ++ rest) = string (take d p) .plain rest := by
  cases h with
  | plain hq hs hc => simp [string, hq, hs, hc, take]
  | @escape b e h =>
    have hu : e ≠ 0x75 := by
      rintro rfl
      simp [escape?] at h
    simp [string, hu, h, take]
  | unit ha hb hc he =>
    have hunit := string_unit d ha hb hc he rest
    simp only [List.cons_append, List.nil_append]
    rw [string, if_neg (by decide), if_pos rfl, string, if_pos rfl, hunit, take]

theorem string_pieces {ps : List Piece} {bs : List UInt8} (h : SpellsPieces ps bs) (d : Draft)
    (rest : List UInt8) : string d .plain (bs ++ rest) = string (ps.foldl take d) .plain rest := by
  induction h generalizing d with
  | nil => rfl
  | cons hp _ ih => rw [List.append_assoc, string_piece hp, ih, List.foldl_cons]

theorem string_number_cases {d : Draft} {left value : Nat} {bytes : List UInt8}
    {result : Option String × List UInt8}
    (h : string d (.number (left + 1) value) bytes = some result) :
    ∃ b w more, bytes = b :: more ∧ hexValue? b = some w ∧
      (if left = 0 then string (d.pushUnit (value * 16 + w)) .plain more
        else string d (.number left (value * 16 + w)) more) = some result := by
  cases bytes with
  | nil => simp [string] at h
  | cons b more =>
    cases hw : hexValue? b with
    | none => simp [string, hw] at h
    | some w => exact ⟨b, w, more, rfl, hw, by simpa [string, hw] using h⟩

theorem string_escape_cases {d : Draft} {bytes : List UInt8}
    {result : Option String × List UInt8} (h : string d .escape bytes = some result) :
    ∃ p bs more, SpellsPiece p (0x5C :: bs) ∧ bytes = bs ++ more ∧
      string (take d p) .plain more = some result := by
  cases bytes with
  | nil => simp [string] at h
  | cons e more =>
    rw [string] at h
    split at h
    · rename_i hu
      subst e
      obtain ⟨a, w, more, rfl, ha, h⟩ := string_number_cases h
      obtain ⟨b, x, more, rfl, hb, h⟩ := string_number_cases h
      obtain ⟨c, y, more, rfl, hc, h⟩ := string_number_cases h
      obtain ⟨z, v, more, rfl, hz, h⟩ := string_number_cases h
      refine ⟨_, [0x75, a, b, c, z], more, SpellsPiece.unit ha hb hc hz, rfl, ?_⟩
      simpa [take] using h
    · split at h
      · rename_i b hb
        exact ⟨.byte b, [e], more, .escape hb, rfl, h⟩
      · cases h

theorem string_sound (d : Draft) (bytes rest : List UInt8) (s : Option String)
    (h : string d .plain bytes = some (s, rest)) :
    ∃ ps bs, SpellsPieces ps bs ∧ bytes = bs ++ 0x22 :: rest ∧ s = (ps.foldl take d).finish? := by
  induction hn : bytes.length using Nat.strongRecOn generalizing d bytes with
  | ind n ih =>
    subst n
    cases bytes with
    | nil => simp [string] at h
    | cons b more =>
      rw [string] at h
      split at h
      · rename_i hq
        cases h
        exact ⟨[], [], .nil, by rw [hq]; rfl, rfl⟩
      · rename_i hq
        split at h
        · rename_i hs
          obtain ⟨p, bs, more, hp, rfl, hmore⟩ := string_escape_cases h
          have hlen : more.length < (b :: (bs ++ more)).length := by
            rw [List.length_cons, List.length_append]
            omega
          obtain ⟨ps, cs, hps, rfl, rfl⟩ := ih _ hlen _ more hmore rfl
          exact ⟨p :: ps, (0x5C :: bs) ++ cs, .cons hp hps, by rw [hs]; simp, rfl⟩
        · rename_i hs
          split at h
          · cases h
          · rename_i hc
            obtain ⟨ps, cs, hps, rfl, rfl⟩ := ih _ (by simp) _ more h rfl
            exact ⟨.byte b :: ps, [b] ++ cs, .cons (.plain hq hs hc) hps, rfl, rfl⟩

theorem take_unsound {d : Draft} (hd : d.sound = false) (p : Piece) : (take d p).sound = false := by
  cases p with
  | byte b => simp [take, Draft.push, hd]
  | unit u =>
    simp only [take, Draft.pushUnit]
    repeat' split
    all_goals simp [Draft.pushChar, hd]

theorem finish?_unsound (ps : List Piece) {d : Draft} (hd : d.sound = false) :
    (ps.foldl take d).finish? = none := by
  induction ps generalizing d with
  | nil => simp [Draft.finish?, hd]
  | cons p ps ih => exact ih (take_unsound hd p)

section units

variable {d : Draft} {u : Nat}

theorem pushUnit_high (hh : d.half = none) (hu : isHigh u) :
    d.pushUnit u = { d with half := some u } := by
  unfold isHigh at hu
  simp only [Draft.pushUnit, hh, if_pos hu]

theorem pushUnit_low (hh : d.half = none) (hu : ¬ isHigh u) (hl : isLow u) :
    d.pushUnit u = { d with sound := false } := by
  unfold isHigh at hu
  unfold isLow at hl
  simp only [Draft.pushUnit, hh, if_neg hu, if_pos hl]

theorem pushUnit_char (hh : d.half = none) (hu : ¬ isHigh u) (hl : ¬ isLow u) :
    d.pushUnit u = d.pushChar u := by
  unfold isHigh at hu
  unfold isLow at hl
  simp only [Draft.pushUnit, hh, if_neg hu, if_neg hl]

theorem pushUnit_pair {h : Nat} (hh : d.half = some h) (hl : isLow u) :
    d.pushUnit u = d.pushChar (pairOf h u) := by
  unfold isLow at hl
  unfold pairOf
  simp only [Draft.pushUnit, hh, if_pos hl]

theorem pushUnit_alone {h : Nat} (hh : d.half = some h) (hl : ¬ isLow u) :
    d.pushUnit u = { d with half := none, sound := false } := by
  unfold isLow at hl
  simp only [Draft.pushUnit, hh, if_neg hl]

end units

theorem sound_pushChar (d : Draft) (n : Nat) : (d.pushChar n).sound = d.sound := rfl

theorem half_pushChar (d : Draft) (n : Nat) : (d.pushChar n).half = none := rfl

theorem finish_pushChar {d : Draft} {ps : List Piece} (n : Nat)
    (h : ((ps.foldl take (d.pushChar n)).finish? =
      (content ps).bind fun bs => Text.Utf8.decode? ((d.pushChar n).bytes.reverse ++ bs))) :
    (ps.foldl take (d.pushChar n)).finish? =
      ((content ps).map (charBytes n ++ ·)).bind fun bs =>
        Text.Utf8.decode? (d.bytes.reverse ++ bs) := by
  rw [h, Option.bind_map]
  simp [Draft.pushChar, charBytes, Function.comp_def]

/-- What a draft becomes with further pieces, whether or not half a character stands last in it. -/
theorem finish?_both (ps : List Piece) :
    (∀ d : Draft, d.sound = true → d.half = none → (ps.foldl take d).finish? =
      (content ps).bind fun bs => Text.Utf8.decode? (d.bytes.reverse ++ bs)) ∧
    (∀ (d : Draft) (u : Nat), d.sound = true → d.half = some u → (ps.foldl take d).finish? =
      (pairContent u ps).bind fun bs => Text.Utf8.decode? (d.bytes.reverse ++ bs)) := by
  induction ps with
  | nil =>
    refine ⟨fun d hs hh => ?_, fun d u _ hh => ?_⟩
    · simp [content, Draft.finish?, hs, hh]
    · simp [pairContent, Draft.finish?, hh]
  | cons p ps ih =>
    obtain ⟨ihwhole, ihpair⟩ := ih
    cases p with
    | byte b =>
      refine ⟨fun d hs hh => ?_, fun d u _ hh => ?_⟩
      · rw [List.foldl_cons, take, content, ihwhole (d.push b) (by simp [Draft.push, hs, hh]) rfl,
          Option.bind_map]
        simp only [Draft.push, Function.comp_def, List.reverse_cons, List.append_assoc,
          List.cons_append, List.nil_append]
      · rw [List.foldl_cons, finish?_unsound ps (by simp [take, Draft.push, hh])]
        simp [pairContent]
    | unit l =>
      refine ⟨fun d hs hh => ?_, fun d u hs hh => ?_⟩
      · rw [List.foldl_cons, take, content]
        by_cases hu : isHigh l
        · rw [if_pos hu, pushUnit_high hh hu]
          exact ihpair _ l hs rfl
        · rw [if_neg hu]
          by_cases hl : isLow l
          · rw [if_pos hl, pushUnit_low hh hu hl, finish?_unsound ps rfl, Option.bind_none]
          · rw [if_neg hl, pushUnit_char hh hu hl]
            exact finish_pushChar l (ihwhole (d.pushChar l) hs (half_pushChar d l))
      · rw [List.foldl_cons, take, pairContent]
        by_cases hl : isLow l
        · rw [if_pos hl, pushUnit_pair hh hl]
          have hsound : (d.pushChar (pairOf u l)).sound = true := by rw [sound_pushChar, hs]
          exact finish_pushChar _ (ihwhole _ hsound (half_pushChar d _))
        · rw [if_neg hl, pushUnit_alone hh hl, finish?_unsound ps rfl, Option.bind_none]

theorem string_iff (bytes rest : List UInt8) (s : Option String) :
    string .start .plain bytes = some (s, rest) ↔
      ∃ ps bs, SpellsPieces ps bs ∧ bytes = bs ++ 0x22 :: rest ∧ s = text ps := by
  have hfinish : ∀ ps, (ps.foldl take .start).finish? = text ps := fun ps =>
    (finish?_both ps).1 .start rfl rfl
  constructor
  · intro h
    obtain ⟨ps, bs, hps, hbytes, rfl⟩ := string_sound _ _ _ _ h
    exact ⟨ps, bs, hps, hbytes, hfinish ps⟩
  · rintro ⟨ps, bs, hps, rfl, rfl⟩
    rw [string_pieces hps, string, if_pos rfl, hfinish]

end strings

section numbers

def Ends (rest : List UInt8) : Prop :=
  ∀ b ∈ rest.head?, isDigit b = false ∧ b ≠ 0x2E ∧ b ≠ 0x65 ∧ b ≠ 0x45

theorem digits_sound {bytes rest : List UInt8} {ds : List Nat} (h : digits bytes = (ds, rest)) :
    bytes = ds.map digitByte ++ rest ∧ ∀ d ∈ ds, d < 10 := by
  have hdigit : ∀ b, isDigit b = true → (b - 48).toNat < 10 ∧ digitByte (b - 48).toNat = b :=
    Utf8Encoding.forall_byte (by decide)
  have hbyte : ∀ b ∈ bytes.takeWhile isDigit, (b - 48).toNat < 10 ∧ digitByte (b - 48).toNat = b :=
    fun b hb => hdigit b (List.all_eq_true.mp List.all_takeWhile b hb)
  cases h
  constructor
  · have hback : (bytes.takeWhile isDigit).map (digitByte ∘ fun b => (b - 48).toNat) =
        bytes.takeWhile isDigit :=
      (List.map_congr_left fun b hb => (hbyte b hb).2).trans (List.map_id _)
    rw [List.map_map, hback, List.takeWhile_append_dropWhile]
  · intro d hd
    obtain ⟨b, hb, rfl⟩ := List.mem_map.mp hd
    exact (hbyte b hb).1

theorem fraction_sound {bytes rest : List UInt8} {f : Option (List Nat)}
    (h : fraction bytes = some (f, rest)) : ∃ fs, SpellsFraction f fs ∧ bytes = fs ++ rest := by
  unfold fraction at h
  split at h
  · split at h
    · rename_i hpoint
      split at h
      · cases h
      · rename_i ds rest' hne hd
        cases h
        obtain ⟨rfl, hds⟩ := digits_sound hd
        exact ⟨_, .digits ⟨hne, hds⟩, by rw [hpoint]; rfl⟩
    · cases h
      exact ⟨[], .absent, rfl⟩
  · cases h
    exact ⟨[], .absent, rfl⟩

theorem sign_sound {bytes rest : List UInt8} {down : Bool} (h : sign bytes = (down, rest)) :
    ∃ ss, SpellsSign down ss ∧ bytes = ss ++ rest := by
  unfold sign at h
  split at h
  · split at h
    · rename_i hb
      cases h
      exact ⟨[0x2D], .minus, by rw [hb]; rfl⟩
    · split at h
      · rename_i hb
        cases h
        exact ⟨[0x2B], .plus, by rw [hb]; rfl⟩
      · cases h
        exact ⟨[], .absent, rfl⟩
  · cases h
    exact ⟨[], .absent, rfl⟩

theorem exponent_sound {bytes rest : List UInt8} {e : Option (Bool × List Nat)}
    (h : exponent bytes = some (e, rest)) : ∃ es, SpellsExponent e es ∧ bytes = es ++ rest := by
  unfold exponent at h
  split at h
  · split at h
    · rename_i hb
      split at h
      rename_i down more hsign
      obtain ⟨ss, hs, rfl⟩ := sign_sound hsign
      split at h
      · cases h
      · rename_i ds rest' hne hd
        cases h
        obtain ⟨rfl, hds⟩ := digits_sound hd
        exact ⟨_, .digits hb hs ⟨hne, hds⟩, by simp⟩
    · cases h
      exact ⟨[], .absent, rfl⟩
  · cases h
    exact ⟨[], .absent, rfl⟩

theorem whole_sound {bytes rest : List UInt8} {ds : List Nat} (h : whole bytes = some (ds, rest)) :
    bytes = ds.map digitByte ++ rest ∧ Digits ds ∧ (ds.head? = some 0 → ds = [0]) := by
  unfold whole at h
  split at h
  · cases h
  · cases h
  · rename_i ds' rest' hne hz hd
    cases h
    obtain ⟨rfl, hds⟩ := digits_sound hd
    refine ⟨rfl, ⟨hne, hds⟩, fun hhead => ?_⟩
    cases ds with
    | nil => cases hhead
    | cons d more =>
      cases hhead
      cases more with
      | nil => rfl
      | cons e more => exact (hz e more rfl).elim

theorem literal_sound {negative : Bool} {bytes rest : List UInt8} {l : Literal}
    (h : literal negative bytes = some (l, rest)) :
    ∃ bs, SpellsUnsigned l bs ∧ l.negative = negative ∧ bytes = bs ++ rest := by
  simp only [literal, Option.bind_eq_bind, Option.bind_eq_some_iff] at h
  obtain ⟨⟨ds, r1⟩, hw, ⟨f, r2⟩, hf, ⟨e, r3⟩, he, h⟩ := h
  cases h
  obtain ⟨rfl, hds, hz⟩ := whole_sound hw
  obtain ⟨fs, hfs, rfl⟩ := fraction_sound hf
  obtain ⟨es, hes, rfl⟩ := exponent_sound he
  exact ⟨_, .parts hds hz hfs hes, rfl, by simp⟩

theorem digitByte_cases : ∀ d < 10, isDigit (digitByte d) = true ∧ digitByte d ≠ 0x2D ∧
    digitByte d ≠ 0x2B ∧ isSpace (digitByte d) = false := by
  decide

theorem sign_spelled {down : Bool} {ss : List UInt8} (h : SpellsSign down ss) {ds : List Nat}
    (hds : Digits ds) (rest : List UInt8) :
    sign (ss ++ (ds.map digitByte ++ rest)) = (down, ds.map digitByte ++ rest) := by
  cases h with
  | absent =>
    obtain ⟨d, more, rfl⟩ := List.exists_cons_of_ne_nil hds.1
    obtain ⟨_, hm, hp, _⟩ := digitByte_cases d (hds.2 d List.mem_cons_self)
    rw [List.nil_append, List.map_cons, List.cons_append, sign, if_neg hm, if_neg hp]
  | plus => rfl
  | minus => rfl

theorem exponent_spelled {e : Option (Bool × List Nat)} {es : List UInt8}
    (h : SpellsExponent e es) {rest : List UInt8} (hr : Ends rest) :
    exponent (es ++ rest) = some (e, rest) := by
  cases h with
  | absent =>
    cases rest with
    | nil => rfl
    | cons b rest =>
      obtain ⟨_, _, he, hE⟩ := hr b rfl
      rw [List.nil_append, exponent, if_neg (not_or.mpr ⟨he, hE⟩)]
  | @digits e down ss ds he hs hds =>
    have hsign := sign_spelled hs hds rest
    have hdigits := digits_digitBytes ds hds.2 rest fun b hb => (hr b hb).1
    obtain ⟨d, more, rfl⟩ := List.exists_cons_of_ne_nil hds.1
    rw [List.cons_append, List.append_assoc, exponent, if_pos he, hsign]
    simp only [hdigits]

theorem fraction_spelled {f : Option (List Nat)} {fs : List UInt8} (h : SpellsFraction f fs)
    {rest : List UInt8} (hr : ∀ b ∈ rest.head?, isDigit b = false ∧ b ≠ 0x2E) :
    fraction (fs ++ rest) = some (f, rest) := by
  cases h with
  | absent =>
    cases rest with
    | nil => rfl
    | cons b rest => rw [List.nil_append, fraction, if_neg (hr b rfl).2]
  | @digits ds hds =>
    have hdigits := digits_digitBytes ds hds.2 rest fun b hb => (hr b hb).1
    obtain ⟨d, more, rfl⟩ := List.exists_cons_of_ne_nil hds.1
    rw [List.cons_append, fraction, if_pos rfl, hdigits]

theorem whole_spelled {ds : List Nat} (hds : Digits ds) (hz : ds.head? = some 0 → ds = [0])
    {rest : List UInt8} (hr : ∀ b ∈ rest.head?, isDigit b = false) :
    whole (ds.map digitByte ++ rest) = some (ds, rest) := by
  rw [whole, digits_digitBytes ds hds.2 rest hr]
  obtain ⟨d, more, rfl⟩ := List.exists_cons_of_ne_nil hds.1
  cases d with
  | zero =>
    rw [hz rfl]
    rfl
  | succ d => rfl

theorem head_exponent {e : Option (Bool × List Nat)} {es : List UInt8} (h : SpellsExponent e es)
    {rest : List UInt8} (hr : Ends rest) :
    ∀ b ∈ (es ++ rest).head?, isDigit b = false ∧ b ≠ 0x2E := by
  cases h with
  | absent => exact fun b hb => ⟨(hr b hb).1, (hr b hb).2.1⟩
  | digits he hs hds =>
    intro b hb
    cases hb
    obtain rfl | rfl := he <;> decide

theorem head_fraction {f : Option (List Nat)} {fs : List UInt8} (h : SpellsFraction f fs)
    {rest : List UInt8} (hr : ∀ b ∈ rest.head?, isDigit b = false) :
    ∀ b ∈ (fs ++ rest).head?, isDigit b = false := by
  cases h with
  | absent => exact hr
  | digits hds =>
    intro b hb
    cases hb
    rfl

theorem literal_spelled {l : Literal} {bs : List UInt8} (h : SpellsUnsigned l bs)
    {rest : List UInt8} (hr : Ends rest) :
    literal l.negative (bs ++ rest) = some (l, rest) := by
  obtain ⟨hds, hz, hf, he⟩ := h
  have hexp := head_exponent he hr
  have hfrac := head_fraction hf fun b hb => (hexp b hb).1
  rw [List.append_assoc, List.append_assoc]
  simp [literal, whole_spelled hds hz hfrac, fraction_spelled hf hexp, exponent_spelled he hr]

end numbers

theorem afterWord?_eq_some_iff (w bytes rest : List UInt8) :
    afterWord? w bytes = some rest ↔ bytes = w ++ rest := by
  induction w generalizing bytes with
  | nil => simp [afterWord?]
  | cons c w ih =>
    cases bytes with
    | nil => simp [afterWord?]
    | cons b bytes =>
      rw [afterWord?]
      by_cases hb : c = b
      · simp [hb, ih]
      · simp [hb, Ne.symm hb]

end Attestation.Proofs.JsonTokens
