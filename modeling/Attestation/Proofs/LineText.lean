import Attestation.Proofs.JsonText
import Attestation.Text.Blank
import Attestation.Text.Lines

namespace Attestation.Proofs.LineText

open Json JsonText JsonNumbers Utf8Encoding
open Text (Line dropReturn splitLines splitOnto)

def Printable (cs : List Char) : Prop := ∀ c ∈ cs, 0x20 ≤ c.toNat

-- Named, because the search may also come upon an instance that goes through all characters.
instance (cs : List Char) : Decidable (Printable cs) := List.decidableBAll _ cs

theorem printable_append {cs ds : List Char} :
    Printable (cs ++ ds) ↔ Printable cs ∧ Printable ds := by
  unfold Printable
  constructor
  · intro h
    exact ⟨fun c hc => h c (List.mem_append_left _ hc),
      fun c hc => h c (List.mem_append_right _ hc)⟩
  · rintro ⟨hc, hd⟩ c hm
    obtain hm | hm := List.mem_append.mp hm
    · exact hc c hm
    · exact hd c hm

theorem printable_cons {c : Char} {cs : List Char} :
    Printable (c :: cs) ↔ 0x20 ≤ c.toNat ∧ Printable cs := by
  unfold Printable
  exact List.forall_mem_cons

theorem digitChar_printable : ∀ k < 16, 0x20 ≤ (Nat.digitChar k).toNat := by
  decide

theorem printable_escapedChar (c : Char) : Printable (Value.escapedChar c) := by
  unfold Value.escapedChar
  split
  all_goals try decide
  split
  · rename_i hc
    have hhigh := digitChar_printable (c.toNat / 16) (by omega)
    have hlow := digitChar_printable (c.toNat % 16) (by omega)
    intro d hd
    simp only [Value.unicodeEscape, List.mem_cons, List.not_mem_nil, or_false] at hd
    obtain rfl | rfl | rfl | rfl | rfl | rfl := hd
    · decide
    · decide
    · decide
    · decide
    · exact hhigh
    · exact hlow
  · rename_i hc
    intro d hd
    rw [List.mem_singleton] at hd
    subst d
    omega

theorem printable_renderString (s : String) : Printable (Value.renderString s) := by
  rw [Value.renderString, printable_cons, printable_append]
  refine ⟨by decide, ?_, by decide⟩
  intro c hc
  obtain ⟨d, _, hd⟩ := List.mem_flatMap.mp hc
  exact printable_escapedChar d c hd

theorem printable_toDigits (n : Nat) : Printable (Nat.toDigits 10 n) := by
  intro c hc
  have hdigit := Nat.isDigit_of_mem_toDigits (by decide) (by decide) hc
  have hlow : ('0' : Char).toNat ≤ c.toNat := (Char.isDigit_iff_toNat.mp hdigit).1
  exact Nat.le_trans (by decide) hlow

theorem printable_number (n : Number) (hn : n.toInt?.isSome) : Printable n.text.toList := by
  cases n with
  | nat n =>
    have htext : (Number.nat n).text.toList = Nat.toDigits 10 n.toNat := by simp [Number.text]
    rw [htext]
    exact printable_toDigits n.toNat
  | negSucc n =>
    rw [(number_negSucc n [] (by simp [Delimited])).1, printable_cons]
    exact ⟨by decide, printable_toDigits _⟩
  | float x => simp [Number.toInt?] at hn

mutual

theorem printable_render : ∀ v : Value, Exact v → Printable v.render
  | .null, _ | .bool true, _ | .bool false, _ => by decide
  | .number n, h => printable_number n h
  | .string s, _ => printable_renderString s
  | .array vs, h => by
    rw [Value.render, printable_cons, printable_append]
    exact ⟨by decide, printable_renderItems vs h, by decide⟩
  | .object ms, h => by
    rw [Value.render, printable_cons, printable_append]
    exact ⟨by decide, printable_renderMembers ms h, by decide⟩

theorem printable_renderItems : ∀ vs : List Value, ExactItems vs →
    Printable (Value.renderItems vs)
  | [], _ => nofun
  | [v], h => printable_render v h.1
  | v :: w :: vs, h => by
    rw [Value.renderItems, printable_append, printable_cons]
    · exact ⟨printable_render v h.1, by decide, printable_renderItems (w :: vs) h.2⟩
    · nofun

theorem printable_renderMembers : ∀ ms : List (String × Value), ExactMembers ms →
    Printable (Value.renderMembers ms)
  | [], _ => nofun
  | [(k, v)], h => by
    rw [Value.renderMembers, printable_append, printable_cons]
    exact ⟨printable_renderString k, by decide, printable_render v h.1⟩
  | (k, v) :: m :: ms, h => by
    rw [Value.renderMembers, printable_append, printable_cons, printable_append, printable_cons]
    · exact ⟨printable_renderString k, by decide, printable_render v h.1, by decide,
        printable_renderMembers (m :: ms) h.2⟩
    · nofun

end

theorem not_mem_bytesOf {cs : List Char} (h : Printable cs) {b : UInt8} (hb : b < 0x20) :
    b ∉ bytesOf cs := by
  intro hm
  obtain ⟨c, hc, hm⟩ := List.mem_flatMap.mp hm
  have hlow := h c hc
  rw [UInt8.lt_iff_toNat_lt] at hb
  have h20 : (0x20 : UInt8).toNat = 0x20 := rfl
  by_cases ha : c.toNat < 0x80
  · rw [encodeChar_ascii ha, List.mem_singleton] at hm
    rw [hm, UInt8.toNat_ofNat'] at hb
    omega
  · have hhigh := UInt8.le_iff_toNat_le.mp (encodeChar_high (by omega) b hm)
    have h80 : (0x80 : UInt8).toNat = 0x80 := rfl
    omega

theorem dropReturn_of_not_mem {bytes : List UInt8} (h : (0x0D : UInt8) ∉ bytes) :
    dropReturn bytes = bytes := by
  unfold dropReturn
  rw [if_neg]
  intro hl
  exact h (List.mem_of_getLast? hl)

theorem trim_enclosed {c d : Char} {cs : List Char} (hc : Text.isBlank c = false)
    (hd : Text.isBlank d = false) :
    Text.trim (String.ofList (c :: (cs ++ [d]))) = String.ofList (c :: (cs ++ [d])) := by
  have hfront : Text.dropBlanks (c :: (cs ++ [d])) = c :: (cs ++ [d]) := by
    rw [Text.dropBlanks, List.dropWhile_cons_of_neg (by simp [hc])]
  have hback : Text.dropBlanksEnd (c :: (cs ++ [d])) = c :: (cs ++ [d]) := by
    have hrev : (c :: (cs ++ [d])).reverse = d :: (cs.reverse ++ [c]) := by simp
    rw [Text.dropBlanksEnd, hrev, Text.dropBlanks, List.dropWhile_cons_of_neg (by simp [hd])]
    simp
  rw [Text.trim, String.toList_ofList, hfront, hback]

theorem trim_object (ms : List (String × Value)) :
    Text.trim (Value.object ms).text = (Value.object ms).text := by
  rw [Value.text, Value.render]
  exact trim_enclosed rfl rfl

theorem not_blank_object (ms : List (String × Value)) :
    Text.blank (Value.object ms).text = false := by
  rw [Text.blank, Value.text, Value.render, String.toList_ofList]
  rfl

/-- Lines, each with a line feed behind it. -/
def joined (lines : List (List UInt8)) : List UInt8 := lines.flatMap (· ++ [0x0A])

@[simp] theorem joined_nil : joined [] = [] := rfl

@[simp] theorem joined_cons (l : List UInt8) (lines : List (List UInt8)) :
    joined (l :: lines) = l ++ 0x0A :: joined lines := by
  rw [joined, List.flatMap_cons, List.append_assoc]
  rfl

@[simp] theorem joined_append (lines more : List (List UInt8)) :
    joined (lines ++ more) = joined lines ++ joined more := List.flatMap_append

/-- There is one way only to cut a text behind its first line. -/
theorem line_unique {l m rest more : List UInt8} (hl : (0x0A : UInt8) ∉ l)
    (hm : (0x0A : UInt8) ∉ m) (h : l ++ 0x0A :: rest = m ++ 0x0A :: more) :
    l = m ∧ rest = more := by
  induction l generalizing m with
  | nil =>
    cases m with
    | nil => exact ⟨rfl, (List.cons.inj h).2⟩
    | cons b m => exact absurd ((List.cons.inj h).1 ▸ List.mem_cons_self) hm
  | cons a l ih =>
    cases m with
    | nil => exact absurd ((List.cons.inj h).1 ▸ List.mem_cons_self) hl
    | cons b m =>
      obtain ⟨rfl, htail⟩ := List.cons.inj h
      obtain ⟨rfl, rfl⟩ := ih (fun hmem => hl (List.mem_cons_of_mem _ hmem))
        (fun hmem => hm (List.mem_cons_of_mem _ hmem)) htail
      exact ⟨rfl, rfl⟩

theorem splitOnto_line (done : List Line) (begun l rest : List UInt8) (h : (0x0A : UInt8) ∉ l) :
    splitOnto done begun (l ++ 0x0A :: rest) =
      splitOnto (⟨begun.reverse ++ l, true⟩ :: done) [] rest := by
  induction l generalizing begun with
  | nil => rw [List.nil_append, splitOnto, if_pos rfl, List.append_nil]
  | cons b l ih =>
    have hb : ¬ b = 0x0A := fun he => h (he ▸ List.mem_cons_self)
    rw [List.cons_append, splitOnto, if_neg hb, ih _ fun hm => h (List.mem_cons_of_mem _ hm),
      List.reverse_cons, List.append_assoc]
    rfl

theorem splitOnto_joined (done : List Line) (lines : List (List UInt8))
    (h : ∀ l ∈ lines, (0x0A : UInt8) ∉ l) :
    splitOnto done [] (joined lines) = done.reverse ++ lines.map (⟨·, true⟩) := by
  induction lines generalizing done with
  | nil => simp [splitOnto]
  | cons l lines ih =>
    rw [joined_cons, splitOnto_line done [] l _ (h l List.mem_cons_self),
      ih _ fun m hm => h m (List.mem_cons_of_mem _ hm)]
    simp

theorem splitLines_joined (lines : List (List UInt8)) (h : ∀ l ∈ lines, (0x0A : UInt8) ∉ l) :
    splitLines (joined lines) = lines.map (⟨·, true⟩) :=
  splitOnto_joined [] lines h

end Attestation.Proofs.LineText
