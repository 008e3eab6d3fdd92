import Attestation.Proofs.RequestLines

namespace Attestation.Proofs.ResponseLines

open CmwGrammar CmwRoundTrip Json JsonDocuments JsonGrammar JsonMeaning JsonRecords JsonValues
  RecordFields RecordParts RequestLines Rpc

section integers

/-- An integer of 64 bits with a sign, in digits only. Zero with a sign is no integer. -/
inductive SaysInteger : Phrase → Int64 → Prop
  | plain {ds : List Nat} {i : Int64} (h : (Literal.ofDigits ds : Int) = i.toInt) :
      SaysInteger (.number ⟨false, ds, none, none⟩) i
  | minus {ds : List Nat} {i : Int64} (hne : Literal.ofDigits ds ≠ 0)
      (h : -(Literal.ofDigits ds : Int) = i.toInt) :
      SaysInteger (.number ⟨true, ds, none, none⟩) i

theorem integer?_negSucc_iff (negative : Bool) (k : Nat) (m : Fin 0x8000000000000000) :
    Literal.integer? negative k = some (.negSucc m) ↔ negative = true ∧ k = m + 1 := by
  cases negative with
  | false => simp [Literal.integer?]
  | true =>
    unfold Literal.integer?
    rw [if_neg (by decide)]
    split
    · simp only [Option.some.injEq, Number.negSucc.injEq, Fin.ext_iff, true_and]
      omega
    · have hm := m.isLt
      simp only [Option.map_eq_some_iff, reduceCtorEq, and_false, exists_false, true_and, false_iff]
      omega

theorem value?_negSucc_iff (l : Literal) (m : Fin 0x8000000000000000) :
    l.value? = some (.negSucc m) ↔ ∃ ds, l = ⟨true, ds, none, none⟩ ∧
      Literal.ofDigits ds = m + 1 := by
  obtain ⟨negative, ds, fraction, exponent⟩ := l
  constructor
  · intro h
    cases ha : Literal.absorb 0 ds with
    | mk k excess =>
      simp only [Literal.value?, ha] at h
      split at h
      · obtain ⟨hsum, -⟩ := (absorb_eq_iff ds 0 k (by decide)).mp ha
        obtain ⟨rfl, hk⟩ := (integer?_negSucc_iff negative k m).mp h
        exact ⟨ds, rfl, hsum.trans hk⟩
      · simp at h
  · rintro ⟨ds', heq, hsum⟩
    cases heq
    have hm := m.isLt
    have hsize : m.val + 1 < UInt64.size := by
      rw [UInt64.size]
      omega
    have ha := (absorb_eq_iff ds 0 (m + 1) (by decide)).mpr ⟨hsum, hsize⟩
    simp only [Literal.value?, ha]
    exact (integer?_negSucc_iff true _ m).mpr ⟨rfl, rfl⟩

theorem int_tree_iff {name : String} {low high i : Int} {p : Place} {d : Phrase} :
    Decoder.int name low high p d.tree = .ok i ↔
      ∃ l n, d = .number l ∧ l.value? = some n ∧ n.toInt? = some i ∧ low ≤ i ∧ i ≤ high := by
  constructor
  · intro h
    unfold Decoder.int at h
    split at h
    · rename_i n ht
      cases d <;> simp only [Phrase.tree, reduceCtorEq, Tree.number.injEq] at ht
      rename_i l
      split at h
      · rename_i j hint
        split at h
        · rename_i hrange
          cases h
          exact ⟨l, n, rfl, ht, hint, hrange⟩
        · cases h
      · exact absurd h (unexpected_ne_ok _ _ i)
    · exact absurd h (unexpected_ne_ok _ _ i)
  · rintro ⟨l, n, rfl, hl, hint, hrange⟩
    simp only [Decoder.int, Phrase.tree, hl, hint, if_pos hrange]

theorem int64_tree_iff {p : Place} {d : Phrase} {i : Int64} :
    int64 p d.tree = .ok i ↔ SaysInteger d i := by
  rw [int64, map_ok_iff]
  constructor
  · rintro ⟨j, h, rfl⟩
    obtain ⟨l, n, rfl, hl, hint, hlow, hhigh⟩ := int_tree_iff.mp h
    have hj : (Int64.ofInt j).toInt = j := Int64.toInt_ofInt_of_le hlow (by omega)
    cases n with
    | nat n =>
      obtain ⟨ds, rfl, hds⟩ := (value?_nat_iff l n).mp hl
      cases hint
      exact .plain (by rw [hj, hds])
    | negSucc m =>
      obtain ⟨ds, rfl, hds⟩ := (value?_negSucc_iff l m).mp hl
      cases hint
      refine .minus (by omega) ?_
      rw [hj, hds]
      omega
    | float x => cases hint
  · intro h
    have hlow := i.le_toInt
    have hhigh := i.toInt_lt
    refine ⟨i.toInt, int_tree_iff.mpr ?_, i.ofInt_toInt⟩
    cases h with
    | @plain ds _ h =>
      have hsize : Literal.ofDigits ds < UInt64.size := by
        rw [UInt64.size]
        omega
      have hnat := UInt64.toNat_ofNat_of_lt' hsize
      refine ⟨_, .nat (UInt64.ofNat (Literal.ofDigits ds)), rfl,
        (value?_nat_iff _ _).mpr ⟨ds, rfl, hnat.symm⟩, ?_, hlow, by omega⟩
      rw [Number.toInt?, hnat, h]
    | @minus ds _ hne h =>
      refine ⟨_, .negSucc ⟨Literal.ofDigits ds - 1, by omega⟩, rfl,
        (value?_negSucc_iff _ _).mpr ⟨ds, rfl, by simp only; omega⟩, ?_, hlow, by omega⟩
      rw [Number.toInt?, ← h]
      simp only [Option.some.injEq]
      omega

end integers

section errors

def errorNames : List String := ["code", "message"]

inductive SaysError : Phrase → Rpc.Error → Prop
  | parts {d code : Phrase} {message : List Piece} {e : Rpc.Error}
      (h : Parts errorNames d [some code, some (.string message)]) (hc : SaysInteger code e.code)
      (hm : text message = some e.message) : SaysError d e

inductive SaysFailure : Option Phrase → Option Rpc.Error → Prop
  | missing : SaysFailure none none
  | null : SaysFailure (some .null) none
  | given {d : Phrase} {e : Rpc.Error} (h : SaysError d e) : SaysFailure (some d) (some e)

def errorFields : List (RecordField Rpc.Error) := [
  ⟨"code", .mandatory, int64, fun x e => { e with code := x }, (·.code), fun _ _ => rfl⟩,
  ⟨"message", .mandatory, .string, fun x e => { e with message := x }, (·.message),
    fun _ _ => rfl⟩]

theorem lawful_error : Lawful errorFields where
  nodup := by decide
  apart := by simp [errorFields]
  whole a a' h := by
    simp [errorFields] at h
    obtain ⟨hcode, hmessage⟩ := h
    cases a
    cases a'
    simp_all

theorem error_tree_iff {d : Phrase} {e : Rpc.Error} :
    Error.record.decode ⟨.text, 1⟩ d.tree = .ok e ↔ SaysError d e := by
  have hroom : Roomy ⟨.text, 1⟩ 1 := fun _ => by decide
  rw [decode_parts_iff lawful_error rfl (by decide), and_iff_right hroom]
  constructor
  · rintro ⟨os, hparts, hholds⟩
    simp only [errorFields, List.forall₂_cons_left_iff, List.forall₂_nil_left_iff] at hholds
    obtain ⟨_, _, h₁, ⟨_, _, h₂, rfl, rfl⟩, rfl⟩ := hholds
    obtain ⟨_, rfl, hcode⟩ := (holds_mandatory_iff rfl).mp h₁
    obtain ⟨_, rfl, hmessage⟩ := (holds_mandatory_iff rfl).mp h₂
    obtain ⟨_, rfl, hm⟩ := (string_tree_iff ⟨.text, 2⟩ _ _).mp hmessage
    exact .parts hparts (int64_tree_iff.mp hcode) hm
  · rintro ⟨hparts, hc, hm⟩
    have hmessage := (string_tree_iff ⟨.text, 2⟩ _ _).mpr ⟨_, rfl, hm⟩
    refine ⟨_, hparts, .cons ?_ (.cons ?_ .nil)⟩
    · exact (holds_mandatory_iff rfl).mpr ⟨_, rfl, int64_tree_iff.mpr hc⟩
    · exact (holds_mandatory_iff rfl).mpr ⟨_, rfl, hmessage⟩

theorem ne_null_of_error {d : Phrase} {e : Rpc.Error} (h : SaysError d e) : d ≠ .null := by
  rintro rfl
  cases h with
  | parts h => cases h

theorem failure_iff {o : Option Phrase} {e : Option Rpc.Error} :
    ((∃ d, o = some d ∧ Decoder.optional Error.record.decode ⟨.text, 1⟩ d.tree = .ok e) ∨
      o = none ∧ e = none) ↔ SaysFailure o e := by
  constructor
  · rintro (⟨d, rfl, hread⟩ | ⟨rfl, rfl⟩)
    · obtain ⟨rfl, rfl⟩ | ⟨-, _, rfl, herror⟩ := optional_tree_iff.mp hread
      · exact .null
      · exact .given (error_tree_iff.mp herror)
    · exact .missing
  · intro h
    cases h with
    | missing => exact .inr ⟨rfl, rfl⟩
    | null => exact .inl ⟨_, rfl, rfl⟩
    | given h =>
      exact .inl ⟨_, rfl, optional_tree_iff.mpr
        (.inr ⟨ne_null_of_error h, _, rfl, error_tree_iff.mpr h⟩)⟩

end errors

section responses

def responseNames : List String := ["jsonrpc", "id", "result", "error"]

/-- The number of the request that is answered. It may be missing in an object, but not in an
array. -/
inductive SaysId (isList : Bool) : Option Phrase → Option UInt64 → Prop
  | missing (h : isList = false) : SaysId isList none none
  | null : SaysId isList (some .null) none
  | given {d : Phrase} {id : UInt64} (h : SaysIndicator d id) : SaysId isList (some d) (some id)

inductive SaysResponse : Phrase → Response → Prop
  | parts {d : Phrase} {version : List Piece} {id result error : Option Phrase} {r : Response}
      (h : Parts responseNames d [some (.string version), id, result, error])
      (hv : text version = some r.version) (hi : SaysId (listed d) id r.id)
      (hr : MemberMeans result r.result) (hn : ∀ d ∈ result, d.nesting < maxDepth)
      (he : SaysFailure error r.error) : SaysResponse d r

def ResponseText (data : List UInt8) (r : Response) : Prop := ∃ d, Spells d data ∧ SaysResponse d r

def responseFields : List (RecordField Response) := [
  ⟨"jsonrpc", .mandatory, .string, fun x r => { r with version := x }, (·.version),
    fun _ _ => rfl⟩,
  ⟨"id", .positional, mapped (.optional (.nat 64)) (Option.map UInt64.ofNat),
    fun x r => { r with id := x }, (·.id), fun _ _ => rfl⟩,
  ⟨"result", .optional, .optional .value, fun x r => { r with result := x }, (·.result),
    fun _ _ => rfl⟩,
  ⟨"error", .optional, .optional Error.record.decode, fun x r => { r with error := x }, (·.error),
    fun _ _ => rfl⟩]

theorem response_slots : Response.record.slots = responseFields.map (·.slot) := by
  have hid := of_comp .positional "id" (.optional (.nat 64)) (Option.map UInt64.ofNat)
    fun x (r : Response) => { r with id := x }
  simp [Response.record, responseFields, RecordField.slot, Slot.mandatory, Slot.optional, hid]

theorem lawful_response : Lawful responseFields where
  nodup := by decide
  apart := by simp [responseFields]
  whole a a' h := by
    simp [responseFields] at h
    obtain ⟨hversion, hid, hresult, herror⟩ := h
    cases a
    cases a'
    simp_all

theorem id_iff {isList : Bool} {o : Option Phrase} {id : Option UInt64} :
    ((∃ d, o = some d ∧ mapped (.optional (.nat 64)) (Option.map UInt64.ofNat) ⟨.text, 1⟩ d.tree =
        .ok id) ∨ o = none ∧ isList = false ∧ id = none) ↔ SaysId isList o id := by
  constructor
  · rintro (⟨d, rfl, hread⟩ | ⟨rfl, hlist, rfl⟩)
    · obtain ⟨n, hn, rfl⟩ := (map_ok_iff _ _ _).mp hread
      obtain ⟨rfl, rfl⟩ | ⟨-, _, rfl, hnat⟩ := optional_tree_iff.mp hn
      · exact .null
      · obtain ⟨m, hm, rfl⟩ := (nat_tree_iff _ d _).mp hnat
        rw [Option.map_some, UInt64.ofNat_toNat]
        exact .given hm
    · exact .missing hlist
  · intro h
    cases h with
    | missing hlist => exact .inr ⟨rfl, hlist, rfl⟩
    | null => exact .inl ⟨_, rfl, rfl⟩
    | @given d id h =>
      have hread := (nat_tree_iff ⟨.text, 1⟩ d id.toNat).mpr ⟨id, h, rfl⟩
      have hne : d ≠ .null := by
        rintro rfl
        cases h
      refine .inl ⟨d, rfl, (map_ok_iff _ _ _).mpr ⟨some id.toNat,
        optional_tree_iff.mpr (.inr ⟨hne, _, rfl, hread⟩), ?_⟩⟩
      rw [Option.map_some, UInt64.ofNat_toNat]

theorem run_response_iff {data : List UInt8} {r : Response} :
    Decoder.run Response.record.decode data = .ok r ↔ ResponseText data r := by
  rw [run_parts_iff lawful_response response_slots]
  constructor
  · rintro ⟨d, os, hd, hparts, hholds⟩
    simp only [responseFields, List.forall₂_cons_left_iff, List.forall₂_nil_left_iff] at hholds
    obtain ⟨_, _, h₁, ⟨_, _, h₂, ⟨_, _, h₃, ⟨_, _, h₄, rfl, rfl⟩, rfl⟩, rfl⟩, rfl⟩ := hholds
    obtain ⟨_, rfl, hversion⟩ := (holds_mandatory_iff rfl).mp h₁
    obtain ⟨_, rfl, hv⟩ := (string_tree_iff ⟨.text, 1⟩ _ _).mp hversion
    obtain ⟨hr, hn⟩ := member_iff.mp ((holds_optional_iff rfl).mp h₃)
    exact ⟨d, hd, .parts hparts hv (id_iff.mp ((holds_positional_iff rfl).mp h₂)) hr hn
      (failure_iff.mp ((holds_optional_iff rfl).mp h₄))⟩
  · rintro ⟨d, hd, hparts, hv, hi, hr, hn, he⟩
    have hversion := (string_tree_iff ⟨.text, 1⟩ _ _).mpr ⟨_, rfl, hv⟩
    refine ⟨d, _, hd, hparts, .cons ?_ (.cons ?_ (.cons ?_ (.cons ?_ .nil)))⟩
    · exact (holds_mandatory_iff rfl).mpr ⟨_, rfl, hversion⟩
    · exact (holds_positional_iff rfl).mpr (id_iff.mpr hi)
    · exact (holds_optional_iff rfl).mpr (member_iff.mpr ⟨hr, hn⟩)
    · exact (holds_optional_iff rfl).mpr (failure_iff.mpr he)

end responses

end Attestation.Proofs.ResponseLines
