import Attestation.Cbor.Decode
import Attestation.Proofs.CborGrammar
import Attestation.Proofs.CborItems

namespace Attestation.Proofs.CborReading

open Cbor CborGrammar CborHeads CborItems Utf8Encoding

variable {α β : Type}

section heads

theorem ofBytes_positive {n : Nat} {head : List UInt8} (h : SpellsHead 0 n head)
    (rest : List UInt8) : Head.ofBytes (head ++ rest) = .ok (.positive n, rest) := by
  obtain ⟨low, hread⟩ := ofBytes_head (by decide) h rest
  exact hread

theorem ofBytes_negative {n : Nat} {head : List UInt8} (h : SpellsHead 1 n head)
    (rest : List UInt8) : Head.ofBytes (head ++ rest) = .ok (.negative n, rest) := by
  obtain ⟨low, hread⟩ := ofBytes_head (by decide) h rest
  exact hread

theorem ofBytes_array {n : Nat} {head : List UInt8} (h : SpellsHead 4 n head)
    (rest : List UInt8) : Head.ofBytes (head ++ rest) = .ok (.array (some n), rest) := by
  obtain ⟨low, hread⟩ := ofBytes_head (by decide) h rest
  exact hread

end heads

section sequences

variable {P : β → List UInt8 → Prop} {xs : List β} {bs : List UInt8}

def Starts (P : β → List UInt8 → Prop) : Prop :=
  ∀ x bs rest, P x bs → ∃ head more, Head.ofBytes (bs ++ rest) = .ok (head, more) ∧ head ≠ .stop

theorem length_sequence (hP : Starts P) (h : Sequence P xs bs) : xs.length ≤ bs.length := by
  induction h with
  | nil => exact Nat.le_refl _
  | @cons x xs bs cs h hs ih =>
    have hpos : 0 < bs.length := by
      obtain ⟨head, more, hread, -⟩ := hP x bs [] h
      cases bs with
      | nil => cases hread
      | cons b bs => exact Nat.succ_pos _
    rw [List.length_cons, List.length_append]
    omega

end sequences

section strings

structure Strings (major : Nat) (make : Option Nat → Head)
    (length : Head → Option (Option Nat)) : Prop where
  counted : ∀ {n head}, SpellsHead major n head → ∀ rest,
    Head.ofBytes (head ++ rest) = .ok (make (some n), rest)
  opened : ∀ rest, Head.ofBytes (UInt8.ofNat (32 * major + 31) :: rest) = .ok (make none, rest)
  length_make : ∀ n, length (make n) = some n
  ne_stop : ∀ n, make n ≠ .stop

theorem strings_bytes : Strings 2 .bytes bytesLength :=
  ⟨ofBytes_bytes, fun _ => rfl, fun _ => rfl, fun _ => nofun⟩

theorem strings_text : Strings 3 .text textLength :=
  ⟨ofBytes_text, fun _ => rfl, fun _ => rfl, fun _ => nofun⟩

variable {major : Nat} {make : Option Nat → Head} {length : Head → Option (Option Nat)}
  {check : List UInt8 → Bool}

theorem starts_part (hk : Strings major make length) : Starts (SpellsPart major) := by
  rintro s _ rest ⟨h⟩
  rw [List.append_assoc]
  exact ⟨_, _, hk.counted h _, hk.ne_stop _⟩

theorem chunks_spelled (hk : Strings major make length) {ps : List (List UInt8)}
    {bs : List UInt8} (h : Sequence (SpellsPart major) ps bs) (hp : ∀ p ∈ ps, check p = true)
    (read : List (List UInt8)) (rest : List UInt8) {fuel : Nat} (hf : ps.length < fuel) :
    chunks length check fuel 1 read (bs ++ 0xFF :: rest) =
      .ok (read.reverse.flatten ++ ps.flatten, rest) := by
  induction h generalizing read fuel with
  | nil =>
    cases fuel with
    | zero => cases hf
    | succ fuel =>
      have hstop : Head.ofBytes (0xFF :: rest) = .ok (.stop, rest) := rfl
      rw [List.nil_append, chunks, hstop]
      simp [bind, Except.bind, pure, Except.pure]
  | @cons p ps bs cs h hs ih =>
    obtain ⟨hchunk, hp⟩ := List.forall_mem_cons.mp hp
    cases fuel with
    | zero => cases hf
    | succ fuel =>
      obtain ⟨hhead⟩ := h
      have hmore := ih hp (p :: read) (Nat.lt_of_succ_lt_succ hf)
      simp only [List.append_assoc] at hmore ⊢
      rw [chunks, hk.counted hhead]
      simp only [bind, Except.bind, if_neg (hk.ne_stop _), hk.length_make, take_append, hchunk,
        if_true, hmore]
      simp

theorem string_spelled (hk : Strings major make length) {Sound : List UInt8 → Prop}
    (hcheck : ∀ p, Sound p → check p = true) {s bs : List UInt8}
    (h : SpellsString major Sound s bs) (rest : List UInt8) :
    ∃ n more, Head.ofBytes (bs ++ rest) = .ok (make n, more) ∧
      content length check n more = .ok (s, rest) := by
  cases h with
  | whole hs h =>
    obtain ⟨h⟩ := h
    rw [List.append_assoc]
    exact ⟨_, _, hk.counted h _, content_take (hcheck s hs) rest⟩
  | @parts ps bs hp h =>
    have hlength := length_sequence (starts_part hk) h
    rw [List.cons_append, List.append_assoc]
    refine ⟨_, _, hk.opened _, ?_⟩
    exact chunks_spelled hk h (fun p hm => hcheck p (hp p hm)) [] rest
      (by rw [List.length_append]; omega)

theorem isText_encode {p : List UInt8} (h : ∃ t, p = Text.Utf8.encode t) : isText p = true := by
  obtain ⟨t, rfl⟩ := h
  rw [isText, decode?_encode, Option.isSome_some]

end strings

section data

/-- The bytes behind a head, to the end of the elements. -/
inductive Extent (P : β → List UInt8 → Prop) (xs : List β) (rest : List UInt8) :
    Option Nat → List UInt8 → Prop
  | counted {bs : List UInt8} (hs : Sequence P xs bs) :
      Extent P xs rest (some xs.length) (bs ++ rest)
  | ended {bs : List UInt8} (hs : Sequence P xs bs) : Extent P xs rest none (bs ++ 0xFF :: rest)

inductive Opens (rest : List UInt8) : Datum → Head → List UInt8 → Prop
  | positive (n : Nat) : Opens rest (.positive n) (.positive n) rest
  | negative (n : Nat) : Opens rest (.negative n) (.negative n) rest
  | null : Opens rest .null (.simple 22) rest
  | bool (b : Bool) : Opens rest (.bool b) (.simple (if b then 21 else 20)) rest
  | bytes {s more : List UInt8} {n : Option Nat} (h : byteContent n more = .ok (s, rest)) :
      Opens rest (.bytes s) (.bytes n) more
  | text {s : String} {more : List UInt8} {n : Option Nat}
      (h : textContent n more = .ok (Text.Utf8.encode s, rest)) :
      Opens rest (.text s) (.text n) more
  | array {ds : List Datum} {more : List UInt8} {n : Option Nat}
      (h : Extent Spells ds rest n more) : Opens rest (.array ds) (.array n) more
  | map {ms : List (Datum × Datum)} {more : List UInt8} {n : Option Nat}
      (h : Extent SpellsMember ms rest n more) : Opens rest (.map ms) (.map n) more

theorem opens_spelled {d : Datum} {bs : List UInt8} (h : Spells d bs) (rest : List UInt8) :
    ∃ head more, Head.ofBytes (bs ++ rest) = .ok (head, more) ∧ Opens rest d head more := by
  cases h with
  | positive h => exact ⟨_, _, ofBytes_positive h rest, .positive _⟩
  | negative h => exact ⟨_, _, ofBytes_negative h rest, .negative _⟩
  | false => exact ⟨_, _, rfl, .bool false⟩
  | true => exact ⟨_, _, rfl, .bool true⟩
  | null => exact ⟨_, _, rfl, .null⟩
  | bytes h =>
    obtain ⟨n, more, hhead, hcontent⟩ := string_spelled strings_bytes (fun _ _ => rfl) h rest
    exact ⟨_, _, hhead, .bytes hcontent⟩
  | text h =>
    obtain ⟨n, more, hhead, hcontent⟩ := string_spelled strings_text (fun _ => isText_encode) h rest
    exact ⟨_, _, hhead, .text hcontent⟩
  | array h hs =>
    rw [List.append_assoc]
    exact ⟨_, _, ofBytes_array h _, .array (.counted hs)⟩
  | openArray hs =>
    rw [List.cons_append, List.append_assoc]
    exact ⟨_, _, rfl, .array (.ended hs)⟩
  | map h hs =>
    rw [List.append_assoc]
    exact ⟨_, _, ofBytes_map h _, .map (.counted hs)⟩
  | openMap hs =>
    rw [List.cons_append, List.append_assoc]
    exact ⟨_, _, rfl, .map (.ended hs)⟩

theorem Opens.ne_stop {rest more : List UInt8} {d : Datum} {head : Head}
    (h : Opens rest d head more) : head ≠ .stop := by
  cases h <;> nofun

theorem starts_spells : Starts Spells := by
  intro d bs rest h
  obtain ⟨head, more, hhead, hopens⟩ := opens_spelled h rest
  exact ⟨head, more, hhead, hopens.ne_stop⟩

theorem starts_member : Starts SpellsMember := by
  rintro _ _ rest ⟨hk, hv⟩
  rw [List.append_assoc]
  exact starts_spells _ _ _ hk

theorem untagged_spelled {d : Datum} {bs : List UInt8} (h : Spells d bs) (rest : List UInt8) :
    ∃ head more, untagged (bs ++ rest) = .ok (head, more) ∧ Opens rest d head more := by
  obtain ⟨head, more, hhead, hopens⟩ := opens_spelled h rest
  refine ⟨head, more, ?_, hopens⟩
  rw [untagged, hhead]
  cases hopens <;> rfl

end data

section elements

variable {P : β → List UInt8 → Prop} {item : List UInt8 → Except Error (α × List UInt8)}
  {f : β → Except Error α} {xs : List β}

/-- A reader of elements gives what is said by their bytes. -/
def Gives (P : β → List UInt8 → Prop) (item : List UInt8 → Except Error (α × List UInt8))
    (f : β → Except Error α) : Prop :=
  ∀ x bs rest, P x bs → item (bs ++ rest) = (f x).map (·, rest)

theorem count_gives (hi : Gives P item f) {bs : List UInt8} (h : Sequence P xs bs)
    (read : List α) (rest : List UInt8) :
    count item xs.length read (bs ++ rest) =
      (xs.mapM f).map fun as => (read.reverse ++ as, rest) := by
  induction h generalizing read with
  | nil => simp [count, Except.map, pure, Except.pure]
  | @cons x xs bs cs h hs ih =>
    rw [List.length_cons, count, List.append_assoc, hi x bs _ h, List.mapM_cons]
    cases f x with
    | error e => rfl
    | ok a =>
      simp only [Except.map, bind, Except.bind, ih]
      cases xs.mapM f <;> simp [pure, Except.pure]

theorem untilStop_gives (hP : Starts P) (hi : Gives P item f) {bs : List UInt8}
    (h : Sequence P xs bs) (read : List α) (rest : List UInt8) {fuel : Nat}
    (hf : xs.length < fuel) : untilStop item fuel read (bs ++ 0xFF :: rest) =
      (xs.mapM f).map fun as => (read.reverse ++ as, rest) := by
  induction h generalizing read fuel with
  | nil =>
    cases fuel with
    | zero => cases hf
    | succ fuel =>
      have hstop : Head.ofBytes (0xFF :: rest) = .ok (.stop, rest) := rfl
      rw [List.nil_append, untilStop, hstop]
      simp [bind, Except.bind, Except.map, pure, Except.pure]
  | @cons x xs bs cs h hs ih =>
    cases fuel with
    | zero => cases hf
    | succ fuel =>
      have hmore := fun a => ih (a :: read) (Nat.lt_of_succ_lt_succ hf)
      rw [List.append_assoc]
      obtain ⟨head, more, hhead, hstop⟩ := hP x bs (cs ++ 0xFF :: rest) h
      rw [untilStop, hhead, List.mapM_cons]
      simp only [bind, Except.bind]
      split
      · rename_i heq
        cases heq
        exact absurd rfl hstop
      · rw [hi x bs _ h]
        cases f x with
        | error e => rfl
        | ok a =>
          simp only [Except.map, hmore]
          cases xs.mapM f <;> simp [pure, Except.pure]

theorem items_gives (hP : Starts P) (hi : Gives P item f) {n : Option Nat}
    {more rest : List UInt8} (h : Extent P xs rest n more) :
    items item n more = (xs.mapM f).map (·, rest) := by
  cases h with
  | counted hs => exact count_gives hi hs [] rest
  | ended hs =>
    have hlength := length_sequence hP hs
    exact untilStop_gives hP hi hs [] rest (by rw [List.length_append]; omega)

end elements

section decoders

def octetOf : Datum → Except Error UInt8
  | .positive n => if n < 256 then .ok (UInt8.ofNat n) else .error .mismatch
  | _ => .error .mismatch

def textOf : Datum → Except Error String
  | .text s => .ok s
  | _ => .error .mismatch

def blobOf : Datum → Except Error (List UInt8)
  | .bytes s => .ok s
  | .array ds => ds.mapM octetOf
  | _ => .error .mismatch

def optionalOf (f : Datum → Except Error α) : Datum → Except Error (Option α)
  | .null => .ok none
  | d => (f d).map some

def within (depth nesting : Nat) : Except Error Unit :=
  if nesting ≤ depth then .ok () else .error .tooDeep

theorem gives_octet : Gives Spells octet octetOf := by
  intro d bs rest h
  obtain ⟨head, more, hhead, hopens⟩ := opens_spelled h rest
  have hint : integerHead (bs ++ rest) = .ok (head, more) := by
    rw [integerHead, hhead]
    cases hopens <;> rfl
  rw [octet, hint]
  cases hopens with
  | positive n =>
    simp only [bind, Except.bind, octetOf]
    split <;> rfl
  | _ => rfl

theorem gives_text (depth : Nat) : Gives Spells (text depth) textOf := by
  intro d bs rest h
  obtain ⟨head, more, hhead, hopens⟩ := untagged_spelled h rest
  rw [text, hhead]
  cases hopens with
  | text h => simp [bind, Except.bind, h, decode?_encode, textOf, Except.map, pure, Except.pure]
  | _ => rfl

theorem gives_blob (depth : Nat) : Gives Spells (blob (depth + 1)) blobOf := by
  intro d bs rest h
  obtain ⟨head, more, hhead, hopens⟩ := untagged_spelled h rest
  rw [blob, hhead]
  cases hopens with
  | bytes h => exact h
  | array h => exact items_gives starts_spells gives_octet h
  | _ => rfl

theorem gives_optional {d : Decoder α} {depth : Nat} {f : Datum → Except Error α}
    (hd : Gives Spells (d depth) f) : Gives Spells (Cbor.optional d depth) (optionalOf f) := by
  intro x bs rest h
  have hread := hd x bs rest h
  obtain ⟨head, more, hhead, hopens⟩ := opens_spelled h rest
  rw [Cbor.optional, hhead]
  cases hopens with
  | null => rfl
  | bool b =>
    simp only [bind, Except.bind, hread, optionalOf]
    cases b <;> cases f _ <;> rfl
  | _ =>
    simp only [bind, Except.bind, hread, optionalOf]
    cases f _ <;> rfl

theorem nestingItems_le_iff {ds : List Datum} {depth : Nat} :
    Datum.nestingItems ds ≤ depth ↔ ∀ d ∈ ds, d.nesting ≤ depth := by
  induction ds with
  | nil => simp [Datum.nestingItems]
  | cons d ds ih => rw [Datum.nestingItems, Nat.max_le, ih, List.forall_mem_cons]

theorem nestingMembers_le_iff {ms : List (Datum × Datum)} {depth : Nat} :
    Datum.nestingMembers ms ≤ depth ↔ ∀ m ∈ ms, max m.1.nesting m.2.nesting ≤ depth := by
  induction ms with
  | nil => simp [Datum.nestingMembers]
  | cons m ms ih => rw [Datum.nestingMembers, Nat.max_le, ih, List.forall_mem_cons]

theorem within_of_le {depth n : Nat} (h : n ≤ depth) : within depth n = .ok () := if_pos h

theorem within_of_lt {depth n : Nat} (h : depth < n) : within depth n = .error .tooDeep :=
  if_neg (Nat.not_le.mpr h)

theorem within_succ (depth n : Nat) : within (depth + 1) (n + 1) = within depth n := by
  simp only [within, Nat.add_le_add_iff_right]

theorem mapM_within {size : β → Nat} {depth total : Nat} {xs : List β}
    (h : total ≤ depth ↔ ∀ x ∈ xs, size x ≤ depth) :
    (xs.mapM fun x => within depth (size x)).map (fun _ => ()) = within depth total := by
  induction xs generalizing total with
  | nil =>
    have htotal : total ≤ depth := h.mpr nofun
    rw [within_of_le htotal]
    rfl
  | cons x xs ih =>
    rw [List.forall_mem_cons] at h
    rw [List.mapM_cons]
    obtain hx | hx := Nat.lt_or_ge depth (size x)
    · have htotal : depth < total := Nat.not_le.mp fun ht => Nat.not_le.mpr hx (h.mp ht).1
      rw [within_of_lt hx, within_of_lt htotal]
      rfl
    · have hrest := ih (h.trans (and_iff_right hx))
      rw [within_of_le hx, ← hrest]
      cases xs.mapM fun x => within depth (size x) <;> rfl

theorem gives_member {depth : Nat} (h : Gives Spells (skip depth) fun d => within depth d.nesting) :
    Gives SpellsMember (fun b => skip depth b >>= fun (_, rest) => skip depth rest)
      fun m => within depth (max m.1.nesting m.2.nesting) := by
  rintro _ _ rest ⟨hk, hv⟩
  rename_i k v ks vs
  simp only [List.append_assoc, h k ks _ hk]
  obtain hlt | hle := Nat.lt_or_ge depth k.nesting
  · rw [within_of_lt hlt, within_of_lt (Nat.lt_of_lt_of_le hlt (Nat.le_max_left ..))]
    rfl
  · have hmax : within depth (max k.nesting v.nesting) = within depth v.nesting := by
      simp only [within, Nat.max_le, hle, true_and]
    rw [within_of_le hle, hmax]
    exact h v vs rest hv

theorem gives_skip (depth : Nat) : Gives Spells (skip depth) fun d => within depth d.nesting := by
  induction depth using Nat.strongRecOn with
  | ind depth ih =>
    intro d bs rest h
    obtain ⟨head, more, hhead, hopens⟩ := opens_spelled h rest
    have hleaf : within depth 0 = .ok () := within_of_le (Nat.zero_le depth)
    rw [skip.eq_def]
    simp only [hhead, bind, Except.bind]
    cases hopens with
    | bool b => cases b <;> simp [hleaf, Datum.nesting, Except.map, pure, Except.pure]
    | bytes h | text h => simp [h, hleaf, Datum.nesting, Except.map, pure, Except.pure]
    | @array ds more n h =>
      cases depth with
      | zero => rfl
      | succ depth =>
        have hitems := items_gives starts_spells (ih depth (Nat.lt_succ_self _)) h
        rw [Datum.nesting, within_succ, ← mapM_within nestingItems_le_iff]
        simp only [hitems]
        cases ds.mapM fun d => within depth d.nesting <;> rfl
    | @map ms more n h =>
      cases depth with
      | zero => rfl
      | succ depth =>
        have hitems := items_gives starts_member (gives_member (ih depth (Nat.lt_succ_self _))) h
        rw [Datum.nesting, within_succ, ← mapM_within nestingMembers_le_iff]
        simp only [bind, Except.bind] at hitems
        simp only [hitems]
        cases ms.mapM fun m => within depth (max m.1.nesting m.2.nesting) <;> rfl
    | _ => simp [hleaf, Datum.nesting, Except.map, pure, Except.pure]

theorem key_part {name : String} {ks : List UInt8}
    (h : SpellsPart 3 (Text.Utf8.encode name) ks) (rest : List UInt8) :
    key (ks ++ rest) = if (Text.Utf8.encode name).length ≤ maxKeyLength then
      .ok (Text.Utf8.encode name, rest) else .error .mismatch := by
  obtain ⟨h⟩ := h
  rw [List.append_assoc, key, untagged, ofBytes_text h]
  simp only [bind, Except.bind, pure, Except.pure, textContent_encode]

end decoders

section records

variable {slots : List (Slot α)} {depth : Nat} {fill : String → Datum → α → Except Error α}
  {ms : List (String × Datum)} {bs : List UInt8}

/-- What the slots of a record make of data under their names. -/
def Fills (slots : List (Slot α)) (depth : Nat) (fill : String → Datum → α → Except Error α) :
    Prop :=
  ∀ s ∈ slots, ∀ a, Gives Spells (fun bytes => s.read depth bytes a) fun d => fill s.name d a

def put (slots : List (Slot α)) (depth : Nat) (fill : String → Datum → α → Except Error α)
    (x : List String × α) (m : String × Datum) : Except Error (List String × α) :=
  if maxKeyLength < (Text.Utf8.encode m.1).length then .error .mismatch
  else if ∀ s ∈ slots, s.name ≠ m.1 then (within depth m.2.nesting).map fun _ => x
  else if m.1 ∈ x.1 then .error .mismatch
  else (fill m.1 m.2 x.2).map fun a => (m.1 :: x.1, a)

theorem starts_field : Starts SpellsField := by
  rintro _ _ rest ⟨⟨h⟩, -⟩
  simp only [List.append_assoc]
  exact ⟨_, _, ofBytes_text h _, nofun⟩

theorem gives_slot {name : String} {d : Decoder β} {f : Datum → Except Error β} {store : β → α → α}
    (hd : Gives Spells (d depth) f) (a : α) :
    Gives Spells (fun bytes => (Slot.of name d store).read depth bytes a)
      fun x => (f x).map (store · a) := by
  intro x bs rest h
  simp only [Slot.of, hd x bs rest h, bind, Except.bind]
  cases f x <;> rfl

theorem find?_name (slots : List (Slot α)) (name : String) :
    slots.find? (Text.Utf8.encode ·.name = Text.Utf8.encode name) = none ∧
      (∀ s ∈ slots, s.name ≠ name) ∨
    ∃ s ∈ slots, slots.find? (Text.Utf8.encode ·.name = Text.Utf8.encode name) = some s ∧
      s.name = name := by
  cases hf : slots.find? (Text.Utf8.encode ·.name = Text.Utf8.encode name) with
  | none =>
    refine .inl ⟨rfl, fun s hs hname => ?_⟩
    simpa [hname] using List.find?_eq_none.mp hf s hs
  | some s =>
    have hname := List.find?_some hf
    exact .inr ⟨s, List.mem_of_find?_eq_some hf, rfl, encode_injective (of_decide_eq_true hname)⟩

theorem member_field (hs : Fills slots depth fill) (x : List String × α) {m : String × Datum}
    (h : SpellsField m bs) (rest : List UInt8) :
    member slots depth x.1 x.2 (bs ++ rest) = (put slots depth fill x m).map (·, rest) := by
  obtain ⟨hk, hv⟩ := h
  rename_i name d ks vs
  rw [List.append_assoc, member, key_part hk, put]
  obtain hlong | hshort := Nat.lt_or_ge maxKeyLength (Text.Utf8.encode name).length
  · rw [if_neg (Nat.not_le.mpr hlong), if_pos hlong]
    rfl
  rw [if_pos hshort, if_neg (Nat.not_lt.mpr hshort)]
  obtain ⟨hf, hname⟩ | ⟨s, hmem, hf, rfl⟩ := find?_name slots name
  · rw [if_pos hname]
    simp only [bind, Except.bind, hf, gives_skip depth d vs rest hv]
    cases within depth d.nesting <;> rfl
  · rw [if_neg fun hnone => hnone s hmem rfl]
    simp only [bind, Except.bind, hf]
    by_cases hseen : s.name ∈ x.1
    · rw [if_pos hseen, if_pos hseen]
      rfl
    · rw [if_neg hseen, if_neg hseen]
      simp only [hs s hmem x.2 d vs rest hv]
      cases fill s.name d x.2 <;> rfl

theorem countMembers_fields (hs : Fills slots depth fill) (h : Sequence SpellsField ms bs)
    (x : List String × α) (rest : List UInt8) :
    countMembers slots depth ms.length x (bs ++ rest) =
      (ms.foldlM (put slots depth fill) x).map fun y => (y.2, rest) := by
  induction h generalizing x with
  | nil => rfl
  | @cons m ms bs cs h _ ih =>
    rw [List.length_cons, countMembers, List.append_assoc, member_field hs x h, List.foldlM_cons]
    cases put slots depth fill x m with
    | error e => rfl
    | ok y => exact ih y

theorem membersUntilStop_fields (hs : Fills slots depth fill) (h : Sequence SpellsField ms bs)
    (x : List String × α) (rest : List UInt8) {fuel : Nat} (hf : ms.length < fuel) :
    membersUntilStop slots depth fuel x (bs ++ 0xFF :: rest) =
      (ms.foldlM (put slots depth fill) x).map fun y => (y.2, rest) := by
  induction h generalizing x fuel with
  | nil =>
    cases fuel with
    | zero => cases hf
    | succ fuel => rfl
  | @cons m ms bs cs h _ ih =>
    cases fuel with
    | zero => cases hf
    | succ fuel =>
      rw [List.append_assoc]
      obtain ⟨head, more, hhead, hstop⟩ := starts_field m bs (cs ++ 0xFF :: rest) h
      rw [membersUntilStop, hhead, List.foldlM_cons]
      simp only [bind, Except.bind]
      split
      · rename_i heq
        cases heq
        exact absurd rfl hstop
      · rw [member_field hs x h]
        cases put slots depth fill x m with
        | error e => rfl
        | ok y => exact ih y (Nat.lt_of_succ_lt_succ hf)

theorem record_fields {initial : α} (hs : Fills slots depth fill) (h : SpellsRecord ms bs)
    (rest : List UInt8) : record initial slots (depth + 1) (bs ++ rest) =
      (ms.foldlM (put slots depth fill) ([], initial)).map fun y => (y.2, rest) := by
  cases h with
  | counted h hf =>
    rw [List.append_assoc, record, untagged, ofBytes_map h]
    exact countMembers_fields hs hf _ rest
  | ended hf =>
    have hlength := length_sequence starts_field hf
    rw [List.cons_append, List.append_assoc]
    exact membersUntilStop_fields hs hf _ rest (by rw [List.length_append]; omega)

end records

end Attestation.Proofs.CborReading
