import Attestation.Json.Decode
import Attestation.Proofs.JsonNumbers
import Attestation.Proofs.JsonStrings

namespace Attestation.Proofs.JsonText

open Json Json.Reader Utf8Encoding JsonNumbers JsonStrings

mutual

def Exact : Value → Prop
  | .number n => n.toInt?.isSome
  | .array vs => ExactItems vs
  | .object ms => ExactMembers ms
  | _ => True

def ExactItems : List Value → Prop
  | [] => True
  | v :: vs => Exact v ∧ ExactItems vs

def ExactMembers : List (String × Value) → Prop
  | [] => True
  | (_, v) :: ms => Exact v ∧ ExactMembers ms

end

def Begins (b : UInt8) : Prop := isSpace b = false ∧ b ≠ 0x5D ∧ b ≠ 0x7D

theorem begins_digit : ∀ d < 10, Begins (digitByte d) := by
  unfold Begins
  decide

theorem bytesOf_renderString (s : String) :
    bytesOf (Value.renderString s) =
      0x22 :: bytesOf (s.toList.flatMap Value.escapedChar ++ ['"']) := by
  rw [Value.renderString, bytesOf_cons]
  rfl

theorem begins_nat (n : Nat) :
    ∃ d bs, bytesOf (Nat.toDigits 10 n) = digitByte d :: bs ∧ d < 10 := by
  have hlt := decimals_lt n
  rw [bytesOf_toDigits]
  cases hd : decimals n with
  | nil => simp [decimals] at hd
  | cons d ds => exact ⟨d, ds.map digitByte, rfl, hlt d (by simp [hd])⟩

theorem begins_render (v : Value) (hv : Exact v) :
    ∃ b bs, bytesOf v.render = b :: bs ∧ Begins b := by
  cases v with
  | null => exact ⟨0x6E, [0x75, 0x6C, 0x6C], rfl, by unfold Begins; decide⟩
  | bool b =>
    cases b with
    | true => exact ⟨0x74, [0x72, 0x75, 0x65], rfl, by unfold Begins; decide⟩
    | false => exact ⟨0x66, [0x61, 0x6C, 0x73, 0x65], rfl, by unfold Begins; decide⟩
  | number n =>
    cases n with
    | nat n =>
      have htext : (Number.nat n).text.toList = Nat.toDigits 10 n.toNat := by simp [Number.text]
      obtain ⟨d, bs, hd, hlt⟩ := begins_nat n.toNat
      exact ⟨digitByte d, bs, by rw [Value.render, htext, hd], begins_digit d hlt⟩
    | negSucc n =>
      have htext := (number_negSucc n [] (by simp [Delimited])).1
      exact ⟨0x2D, _, by rw [Value.render, htext, bytesOf_cons]; rfl, by unfold Begins; decide⟩
    | float x => simp [Exact, Number.toInt?] at hv
  | string s => exact ⟨0x22, _, bytesOf_renderString s, by unfold Begins; decide⟩
  | array vs =>
    exact ⟨0x5B, _, by rw [Value.render, bytesOf_cons]; rfl, by unfold Begins; decide⟩
  | object ms =>
    exact ⟨0x7B, _, by rw [Value.render, bytesOf_cons]; rfl, by unfold Begins; decide⟩

theorem skipSpace_begins {b : UInt8} (hb : isSpace b = false) (bs : List UInt8) :
    skipSpace (b :: bs) = b :: bs := by
  simp [skipSpace, hb]

theorem value_text (fuel : Nat) (s : String) (rest : List UInt8) :
    Reader.value (fuel + 1) (bytesOf (Value.renderString s) ++ rest) =
      (.string (some s), some rest) := by
  rw [bytesOf_renderString, List.cons_append, Reader.value, skipSpace_begins rfl]
  simp only [string_text]
  rfl

def lead {α : Type} (done : List α) : List UInt8 := if done.isEmpty then [] else [0x2C]

theorem afterComma_lead {α : Type} (done : List α) {b : UInt8} (hb : isSpace b = false)
    (bs : List UInt8) : afterComma? done.isEmpty (lead done ++ b :: bs) = some (b :: bs) := by
  cases done with
  | nil => rfl
  | cons d done =>
    change some (skipSpace (b :: bs)) = _
    rw [skipSpace_begins hb]

theorem lead_begins {α : Type} (done : List α) {b : UInt8} (hb : Begins b) (bs : List UInt8) :
    ∃ c cs, lead done ++ b :: bs = c :: cs ∧ Begins c := by
  cases done with
  | nil => exact ⟨b, bs, rfl, hb⟩
  | cons d done => exact ⟨0x2C, b :: bs, rfl, by unfold Begins; decide⟩

theorem items_close (fuel : Nat) (done : List Tree) (rest : List UInt8) :
    items (fuel + 1) done (0x5D :: rest) = (.array done.reverse true, some rest) := by
  rw [items, skipSpace_begins rfl]
  rfl

theorem items_step (fuel : Nat) (done : List Tree) (text more : List UInt8) (t : Tree)
    (htext : ∃ b bs, text = b :: bs ∧ Begins b)
    (h : Reader.value fuel (text ++ more) = (t, some more)) :
    items (fuel + 1) done (lead done ++ (text ++ more)) = items fuel (t :: done) more := by
  obtain ⟨b, bs, rfl, hb⟩ := htext
  have hcomma := afterComma_lead done hb.1 (bs ++ more)
  obtain ⟨c, cs, hlead, hc⟩ := lead_begins done hb (bs ++ more)
  rw [List.cons_append] at h ⊢
  rw [hlead] at hcomma ⊢
  rw [items, skipSpace_begins hc.1]
  simp only [if_neg hc.2.1, hcomma, h]

theorem members_close (fuel : Nat) (done : List (Option String × Tree)) (rest : List UInt8) :
    members (fuel + 1) done (0x7D :: rest) = (.object done.reverse true, some rest) := by
  rw [members, skipSpace_begins rfl]
  rfl

theorem members_step (fuel : Nat) (done : List (Option String × Tree)) (k : String)
    (text more : List UInt8) (t : Tree)
    (h : Reader.value fuel (text ++ more) = (t, some more)) :
    members (fuel + 1) done
      (lead done ++ (bytesOf (Value.renderString k) ++ 0x3A :: (text ++ more))) =
        members fuel ((some k, t) :: done) more := by
  have hkey := string_text k (0x3A :: (text ++ more))
  rw [bytesOf_renderString, List.cons_append]
  generalize bytesOf (k.toList.flatMap Value.escapedChar ++ ['"']) ++ 0x3A :: (text ++ more) = bs
    at hkey ⊢
  have hb : Begins 0x22 := by unfold Begins; decide
  have hcomma := afterComma_lead done hb.1 bs
  obtain ⟨c, cs, hlead, hc⟩ := lead_begins done hb bs
  rw [hlead] at hcomma ⊢
  rw [members, skipSpace_begins hc.1]
  have hcolon : afterColon? (0x3A :: (text ++ more)) = some (text ++ more) := by
    rw [afterColon?, skipSpace_begins rfl]
    rfl
  have hread : (afterComma? done.isEmpty (c :: cs)).bind key? =
      some (some k, 0x3A :: (text ++ more)) := by
    rw [hcomma, Option.bind_some, key?, if_pos rfl, hkey]
  simp only [if_neg hc.2.2, hread, hcolon, Option.map_some, h]

theorem word_null (fuel : Nat) (rest : List UInt8) :
    Reader.value (fuel + 1) (bytesOf Value.null.render ++ rest) = (.null, some rest) := rfl

theorem word_bool (fuel : Nat) (b : Bool) (rest : List UInt8) :
    Reader.value (fuel + 1) (bytesOf (Value.bool b).render ++ rest) = (.bool b, some rest) := by
  cases b <;> rfl

theorem value_digit {d : Nat} (hd : d < 10) (fuel : Nat) (bs : List UInt8) :
    Reader.value (fuel + 1) (digitByte d :: bs) = number false (digitByte d :: bs) := by
  have hfirst : ∀ d < 10, isSpace (digitByte d) = false ∧ digitByte d ≠ 0x7B ∧
      digitByte d ≠ 0x5B ∧ digitByte d ≠ 0x22 ∧ digitByte d ≠ 0x6E ∧ digitByte d ≠ 0x74 ∧
      digitByte d ≠ 0x66 ∧ digitByte d ≠ 0x2D ∧ isDigit (digitByte d) = true := by
    decide
  obtain ⟨hs, h1, h2, h3, h4, h5, h6, h7, h8⟩ := hfirst d hd
  rw [Reader.value, skipSpace_begins hs]
  simp only [if_neg h1, if_neg h2, if_neg h3, if_neg h4, if_neg h5, if_neg h6, if_neg h7, h8,
    if_true]

theorem value_number (fuel : Nat) (n : Number) (hn : n.toInt?.isSome) (rest : List UInt8)
    (hr : Delimited rest) :
    Reader.value (fuel + 1) (bytesOf (Value.number n).render ++ rest) =
      (.number (some n), some rest) := by
  rw [Value.render]
  cases n with
  | nat n =>
    have htext : (Number.nat n).text.toList = Nat.toDigits 10 n.toNat := by simp [Number.text]
    have hread := number_nat n rest hr
    obtain ⟨d, bs, hd, hlt⟩ := begins_nat n.toNat
    rw [htext, hd, List.cons_append] at hread ⊢
    rw [value_digit hlt, hread]
  | negSucc n =>
    obtain ⟨htext, hread⟩ := number_negSucc n rest hr
    rw [htext, bytesOf_cons]
    change Reader.value (fuel + 1) (0x2D :: (bytesOf (Nat.toDigits 10 (n.val + 1)) ++ rest)) = _
    rw [Reader.value, skipSpace_begins rfl]
    exact hread
  | float x => simp [Number.toInt?] at hn

theorem delimited_cons {b : UInt8} (hb : b = 0x2C ∨ b = 0x5D ∨ b = 0x7D) (rest : List UInt8) :
    Delimited (b :: rest) := by
  intro c hc
  cases hc
  exact hb

theorem value_array (fuel : Nat) (bs : List UInt8) :
    Reader.value (fuel + 1) (0x5B :: bs) = items fuel [] bs := by
  rw [Reader.value, skipSpace_begins rfl]
  rfl

theorem value_object (fuel : Nat) (bs : List UInt8) :
    Reader.value (fuel + 1) (0x7B :: bs) = members fuel [] bs := by
  rw [Reader.value, skipSpace_begins rfl]
  rfl

theorem bytesOf_array (vs : List Value) :
    bytesOf (Value.array vs).render = 0x5B :: (bytesOf (Value.renderItems vs) ++ [0x5D]) := by
  rw [Value.render, bytesOf_cons, bytesOf_append]
  rfl

theorem bytesOf_items (v w : Value) (vs : List Value) :
    bytesOf (Value.renderItems (v :: w :: vs)) =
      bytesOf v.render ++ 0x2C :: bytesOf (Value.renderItems (w :: vs)) := by
  change bytesOf (v.render ++ ',' :: Value.renderItems (w :: vs)) = _
  rw [bytesOf_append, bytesOf_cons]
  rfl

theorem bytesOf_object (ms : List (String × Value)) :
    bytesOf (Value.object ms).render = 0x7B :: (bytesOf (Value.renderMembers ms) ++ [0x7D]) := by
  rw [Value.render, bytesOf_cons, bytesOf_append]
  rfl

theorem bytesOf_member (k : String) (v : Value) :
    bytesOf (Value.renderMembers [(k, v)]) =
      bytesOf (Value.renderString k) ++ 0x3A :: bytesOf v.render := by
  rw [Value.renderMembers, bytesOf_append, bytesOf_cons]
  rfl

theorem bytesOf_members (k : String) (v : Value) (m : String × Value)
    (ms : List (String × Value)) :
    bytesOf (Value.renderMembers ((k, v) :: m :: ms)) = bytesOf (Value.renderString k) ++
      0x3A :: (bytesOf v.render ++ 0x2C :: bytesOf (Value.renderMembers (m :: ms))) := by
  change bytesOf (Value.renderString k ++ ':' ::
    (v.render ++ ',' :: Value.renderMembers (m :: ms))) = _
  rw [bytesOf_append, bytesOf_cons, bytesOf_append, bytesOf_cons]
  rfl

theorem exists_fuel {v : Value} (hv : Exact v) {fuel : Nat}
    (h : (bytesOf v.render).length ≤ fuel) : ∃ n, fuel = n + 1 := by
  obtain ⟨b, bs, hb, _⟩ := begins_render v hv
  rw [hb, List.length_cons] at h
  exact ⟨fuel - 1, by omega⟩

mutual

/-- Reading stops behind the value, if there is as much fuel as text. -/
theorem value_render : ∀ (v : Value), Exact v → ∀ (fuel : Nat) (rest : List UInt8),
    (bytesOf v.render).length ≤ fuel → Delimited rest →
    Reader.value fuel (bytesOf v.render ++ rest) = (v.toTree, some rest)
  | .null, hv, fuel, rest, hf, _ => by
    obtain ⟨n, rfl⟩ := exists_fuel hv hf
    exact word_null n rest
  | .bool b, hv, fuel, rest, hf, _ => by
    obtain ⟨n, rfl⟩ := exists_fuel hv hf
    exact word_bool n b rest
  | .number m, hv, fuel, rest, hf, hr => by
    obtain ⟨n, rfl⟩ := exists_fuel hv hf
    exact value_number n m hv rest hr
  | .string s, hv, fuel, rest, hf, _ => by
    obtain ⟨n, rfl⟩ := exists_fuel hv hf
    exact value_text n s rest
  | .array vs, hv, fuel, rest, hf, _ => by
    obtain ⟨n, rfl⟩ := exists_fuel hv hf
    rw [bytesOf_array] at hf ⊢
    simp only [List.length_cons, List.length_append, List.length_nil] at hf
    rw [List.cons_append, List.append_assoc, value_array]
    simpa [lead, Value.toTree] using items_render vs hv n [] rest (by omega)
  | .object ms, hv, fuel, rest, hf, _ => by
    obtain ⟨n, rfl⟩ := exists_fuel hv hf
    rw [bytesOf_object] at hf ⊢
    simp only [List.length_cons, List.length_append, List.length_nil] at hf
    rw [List.cons_append, List.append_assoc, value_object]
    simpa [lead, Value.toTree] using members_render ms hv n [] rest (by omega)

theorem items_render : ∀ (vs : List Value), ExactItems vs → ∀ (fuel : Nat) (done : List Tree)
    (rest : List UInt8), (bytesOf (Value.renderItems vs)).length + 1 ≤ fuel →
    items fuel done ((if vs = [] then [] else lead done) ++
      (bytesOf (Value.renderItems vs) ++ 0x5D :: rest)) =
      (.array (done.reverse ++ Value.treesOf vs) true, some rest)
  | _, _, 0, _, _, hf => by omega
  | [], _, fuel + 1, done, rest, _ => by
    simpa [Value.renderItems, Value.treesOf] using items_close fuel done rest
  | [v], hv, fuel + 1, done, rest, hf => by
    simp only [Value.renderItems] at hf ⊢
    have hread := value_render v hv.1 fuel (0x5D :: rest) (by omega)
      (delimited_cons (by decide) rest)
    obtain ⟨n, rfl⟩ := exists_fuel hv.1 (Nat.le_of_succ_le_succ hf)
    rw [if_neg (by simp), items_step (n + 1) done _ _ _ (begins_render v hv.1) hread]
    simpa [Value.treesOf] using items_close n (v.toTree :: done) rest
  | v :: w :: vs, hv, fuel + 1, done, rest, hf => by
    rw [bytesOf_items, List.length_append, List.length_cons] at hf
    have hread := value_render v hv.1 fuel
      (0x2C :: (bytesOf (Value.renderItems (w :: vs)) ++ 0x5D :: rest)) (by omega)
      (delimited_cons (by decide) _)
    have hmore := items_render (w :: vs) hv.2 fuel (v.toTree :: done) rest (by omega)
    rw [if_neg (by simp), bytesOf_items, List.append_assoc, List.cons_append,
      items_step fuel done _ _ _ (begins_render v hv.1) hread]
    simpa [Value.treesOf, lead] using hmore

theorem members_render : ∀ (ms : List (String × Value)), ExactMembers ms → ∀ (fuel : Nat)
    (done : List (Option String × Tree)) (rest : List UInt8),
    (bytesOf (Value.renderMembers ms)).length + 1 ≤ fuel →
    members fuel done ((if ms = [] then [] else lead done) ++
      (bytesOf (Value.renderMembers ms) ++ 0x7D :: rest)) =
      (.object (done.reverse ++ Value.memberTreesOf ms) true, some rest)
  | _, _, 0, _, _, hf => by omega
  | [], _, fuel + 1, done, rest, _ => by
    simpa [Value.renderMembers, Value.memberTreesOf] using members_close fuel done rest
  | [(k, v)], hv, fuel + 1, done, rest, hf => by
    rw [bytesOf_member, List.length_append, List.length_cons] at hf
    have hread := value_render v hv.1 fuel (0x7D :: rest) (by omega)
      (delimited_cons (by decide) rest)
    obtain ⟨n, rfl⟩ : ∃ n, fuel = n + 1 := ⟨fuel - 1, by omega⟩
    rw [if_neg (by simp), bytesOf_member, List.append_assoc, List.cons_append,
      members_step (n + 1) done k _ _ _ hread]
    simpa [Value.memberTreesOf] using members_close n ((some k, v.toTree) :: done) rest
  | (k, v) :: m :: ms, hv, fuel + 1, done, rest, hf => by
    rw [bytesOf_members, List.length_append, List.length_cons, List.length_append,
      List.length_cons] at hf
    have hread := value_render v hv.1 fuel
      (0x2C :: (bytesOf (Value.renderMembers (m :: ms)) ++ 0x7D :: rest)) (by omega)
      (delimited_cons (by decide) _)
    have hmore := members_render (m :: ms) hv.2 fuel ((some k, v.toTree) :: done) rest (by omega)
    rw [if_neg (by simp), bytesOf_members, List.append_assoc, List.cons_append, List.append_assoc,
      List.cons_append, members_step fuel done k _ _ _ hread]
    simpa [Value.memberTreesOf, lead] using hmore

end

theorem read_render (v : Value) (hv : Exact v) :
    Document.read (bytesOf v.render) = ⟨v.toTree, true⟩ := by
  have h := value_render v hv (2 * (bytesOf v.render).length + 2) [] (by omega)
    (by simp [Delimited])
  rw [List.append_nil] at h
  rw [Document.read, h]
  rfl

theorem run_render {α : Type} (d : Decoder α) (v : Value) (hv : Exact v) :
    Decoder.run d (bytesOf v.render) = d ⟨.text, 0⟩ v.toTree := by
  rw [Decoder.run, read_render v hv]
  cases h : d ⟨.text, 0⟩ v.toTree <;> simp [bind, Except.bind, Decoder.ending]

end Attestation.Proofs.JsonText
