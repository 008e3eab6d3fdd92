import Attestation.Proofs.LineText
import Attestation.Proofs.Utf8Decoding
import Mathlib.Data.List.TakeWhile

namespace Attestation.Proofs.InputLines

open LineText Text Utf8Decoding Utf8Encoding
open Text.Utf8 (decode? encode)

/-- The lines of a text. A line feed ends a line; what stands behind the last one is a line too. -/
inductive Lines : List UInt8 → List Line → Prop
  | none : Lines [] []
  | last {l : List UInt8} (h : (0x0A : UInt8) ∉ l) (hne : l ≠ []) : Lines l [⟨l, false⟩]
  | ended {l rest : List UInt8} {lines : List Line} (h : (0x0A : UInt8) ∉ l)
      (hrest : Lines rest lines) : Lines (l ++ 0x0A :: rest) (⟨l, true⟩ :: lines)

theorem splitOnto_last (done : List Line) (begun l : List UInt8) (h : (0x0A : UInt8) ∉ l)
    (hne : begun.reverse ++ l ≠ []) :
    splitOnto done begun l = done.reverse ++ [⟨begun.reverse ++ l, false⟩] := by
  induction l generalizing begun with
  | nil =>
    rw [List.append_nil] at hne ⊢
    rw [splitOnto, if_neg fun hb => hne (by rw [hb]; rfl), List.reverse_cons]
  | cons b l ih =>
    have hb : ¬ b = 0x0A := fun he => h (he ▸ List.mem_cons_self)
    rw [splitOnto, if_neg hb, ih _ (fun hm => h (List.mem_cons_of_mem _ hm)) (by simp)]
    simp

theorem splitOnto_lines {input : List UInt8} {lines : List Line} (h : Lines input lines)
    (done : List Line) : splitOnto done [] input = done.reverse ++ lines := by
  induction h generalizing done with
  | none => simp [splitOnto]
  | last h hne => exact splitOnto_last done [] _ h hne
  | ended h _ ih =>
    rw [splitOnto_line done [] _ _ h, ih]
    simp

theorem exists_lines (input : List UInt8) : ∃ lines, Lines input lines := by
  induction hn : input.length using Nat.strongRecOn generalizing input with
  | ind n ih =>
    by_cases hm : (0x0A : UInt8) ∈ input
    · obtain ⟨l, rest, rfl, hl⟩ := List.eq_append_cons_of_mem hm
      obtain ⟨lines, hlines⟩ := ih rest.length (by simp at hn; omega) rest rfl
      exact ⟨_, Lines.ended hl hlines⟩
    · by_cases hne : input = []
      · exact ⟨[], hne ▸ Lines.none⟩
      · exact ⟨_, Lines.last hm hne⟩

theorem lines_iff {input : List UInt8} {lines : List Line} :
    Lines input lines ↔ splitLines input = lines := by
  have hsplit : ∀ {lines}, Lines input lines → splitLines input = lines := fun h =>
    splitOnto_lines h []
  constructor
  · exact hsplit
  · rintro rfl
    obtain ⟨lines, h⟩ := exists_lines input
    rwa [hsplit h]

def IsText (l : Line) : Prop := ∃ s, encode s = l.raw

def IsBlank (l : Line) : Prop := ∃ s, encode s = l.content ∧ trim s = ""

theorem encode_snoc (s : String) {b : UInt8} (hb : b < 0x80) :
    encode (String.ofList (s.toList ++ [Char.ofNat b.toNat])) = encode s ++ [b] := by
  have hascii := bytesOf_ascii [b] (by simpa using hb)
  rw [List.map_singleton] at hascii
  rw [encode_ofList, bytesOf_append, hascii]
  rfl

/-- A byte of ASCII at the end makes no text of what is none, nor the other way round. -/
theorem text_snoc {bytes : List UInt8} {b : UInt8} (hb : b < 0x80) :
    (∃ s, encode s = bytes ++ [b]) ↔ ∃ s, encode s = bytes := by
  constructor
  · rintro ⟨s, hs⟩
    rw [encode] at hs
    obtain ⟨cs, c, hcs⟩ := (List.eq_nil_or_concat s.toList).resolve_left fun hnil => by
      rw [hnil] at hs
      simp at hs
    rw [hcs, List.concat_eq_append, List.flatMap_append] at hs
    simp only [List.flatMap_cons, List.flatMap_nil, List.append_nil] at hs
    by_cases ha : c.toNat < 0x80
    · rw [encodeChar_ascii ha] at hs
      exact ⟨String.ofList cs, by rw [encode_ofList]; exact (List.append_inj' hs rfl).1⟩
    · -- The last byte of any other character is not ASCII.
      obtain ⟨init, last, hlast⟩ :=
        (List.eq_nil_or_concat (String.utf8EncodeChar c)).resolve_left String.utf8EncodeChar_ne_nil
      have hhigh := encodeChar_high (c := c) (by omega) last (by rw [hlast]; simp)
      rw [hlast, List.concat_eq_append, ← List.append_assoc] at hs
      have hsame := (List.append_inj' hs rfl).2
      simp only [List.cons.injEq, and_true] at hsame
      rw [UInt8.le_iff_toNat_le] at hhigh
      rw [UInt8.lt_iff_toNat_lt, ← hsame] at hb
      omega
  · rintro ⟨s, rfl⟩
    exact ⟨_, encode_snoc s hb⟩

theorem text_content (l : Line) : (∃ s, encode s = l.content) ↔ IsText l := by
  obtain ⟨bytes, ended⟩ := l
  unfold IsText Line.content Line.raw
  cases ended with
  | false => exact Iff.rfl
  | true =>
    simp only [if_true, text_snoc (b := 0x0A) (by decide)]
    unfold dropReturn
    split
    · rename_i hr
      obtain ⟨init, rfl⟩ := List.getLast?_eq_some_iff.mp hr
      rw [List.dropLast_concat]
      exact (text_snoc (by decide)).symm
    · exact Iff.rfl

theorem decode?_content {l : Line} {s : String} (h : decode? l.content = some s) : IsText l :=
  (text_content l).mp ⟨s, decode?_eq_some_iff.mp h⟩

theorem not_isText {l : Line} (h : decode? l.content = none) : ¬ IsText l := by
  intro ht
  obtain ⟨s, hs⟩ := (text_content l).mpr ht
  rw [decode?_eq_some_iff.mpr hs] at h
  cases h

theorem dropBlanks_eq_nil {cs : List Char} : dropBlanks cs = [] ↔ cs.all isBlank = true := by
  rw [dropBlanks, List.dropWhile_eq_nil_iff, List.all_eq_true]

theorem trim_eq_empty {s : String} : trim s = "" ↔ blank s = true := by
  rw [trim, String.ofList_eq_empty_iff, dropBlanksEnd, List.reverse_eq_nil_iff, dropBlanks_eq_nil,
    List.all_reverse, blank]
  constructor
  · intro h
    cases hd : dropBlanks s.toList with
    | nil => exact dropBlanks_eq_nil.mp hd
    | cons c cs =>
      -- The first character that is left is not blank.
      have hc := List.head?_dropWhile_not isBlank s.toList
      unfold dropBlanks at hd h
      rw [hd] at hc h
      simp_all
  · intro h
    rw [dropBlanks_eq_nil.mpr h]
    rfl

theorem isBlank_iff {l : Line} {s : String} (h : decode? l.content = some s) :
    IsBlank l ↔ blank s = true := by
  unfold IsBlank
  simp only [← decode?_eq_some_iff, h, Option.some.injEq]
  constructor
  · rintro ⟨_, rfl, ht⟩
    exact trim_eq_empty.mp ht
  · intro hb
    exact ⟨s, rfl, trim_eq_empty.mpr hb⟩

instance : DecidablePred IsText := fun l =>
  decidable_of_iff ((decode? l.content).isSome = true) <| by
    rw [Option.isSome_iff_exists, ← text_content]
    simp only [decode?_eq_some_iff]

instance : DecidablePred IsBlank := fun l =>
  decidable_of_iff ((decode? l.content).any blank = true) <| by
    cases h : decode? l.content with
    | none =>
      have hnot : ¬ IsBlank l := fun ⟨s, hs, _⟩ => not_isText h ((text_content l).mp ⟨s, hs⟩)
      simp [hnot]
    | some s => rw [Option.any_some, isBlank_iff h]

end Attestation.Proofs.InputLines
