import Attestation.Text.Blank
import Attestation.Text.Numeral

namespace Attestation.Proofs.Numerals

open Text

theorem digit_bounds {c : Char} (h : c.isDigit = true) : 48 ≤ c.toNat ∧ c.toNat ≤ 57 := by
  simpa [Char.isDigit, UInt32.le_iff_toNat_le] using h

theorem isDecimalDigit_eq (c : Char) : isDecimalDigit c = c.isDigit := rfl

theorem isBlank_of_isDigit {c : Char} (h : c.isDigit = true) : isBlank c = false := by
  obtain ⟨hlow, hhigh⟩ := digit_bounds h
  simp only [isBlank, Bool.or_eq_false_iff, Bool.and_eq_false_iff, decide_eq_false_iff_not,
    beq_eq_false_iff_ne]
  omega

theorem digitsValue_eq (ds : List Char) : digitsValue ds = Nat.ofDigitChars 10 ds 0 := by
  rw [digitsValue, Nat.ofDigitChars]
  congr 1
  funext n d
  rw [Nat.mul_comm]

def Blanks (cs : List Char) : Prop := ∀ c ∈ cs, isBlank c = true

theorem dropBlanks_append {front cs : List Char} (hf : Blanks front)
    (hcs : ∀ c ∈ cs.head?, isBlank c = false) : dropBlanks (front ++ cs) = cs := by
  induction front with
  | nil =>
    cases cs with
    | nil => rfl
    | cons c cs => exact List.dropWhile_cons_of_neg (by simp [hcs c rfl])
  | cons b front ih =>
    obtain ⟨hb, hf⟩ := List.forall_mem_cons.mp hf
    rw [List.cons_append, dropBlanks, List.dropWhile_cons_of_pos hb]
    exact ih hf

theorem exists_front (cs : List Char) : ∃ front, Blanks front ∧ cs = front ++ dropBlanks cs :=
  ⟨cs.takeWhile isBlank, List.all_eq_true.mp List.all_takeWhile,
    List.takeWhile_append_dropWhile.symm⟩

theorem exists_padding (s : String) :
    ∃ front back, Blanks front ∧ Blanks back ∧ s.toList = front ++ ((trim s).toList ++ back) := by
  obtain ⟨front, hf, hfront⟩ := exists_front s.toList
  obtain ⟨back, hb, hback⟩ := exists_front (dropBlanks s.toList).reverse
  refine ⟨front, back.reverse, hf, fun c hc => hb c (List.mem_reverse.mp hc), ?_⟩
  rw [trim, String.toList_ofList, dropBlanksEnd, ← List.reverse_append, ← hback,
    List.reverse_reverse]
  exact hfront

theorem trim_padded {s : String} {front cs back : List Char} (hs : s.toList = front ++ (cs ++ back))
    (hf : Blanks front) (hb : Blanks back) (hne : cs ≠ []) (hcs : ∀ c ∈ cs, isBlank c = false) :
    trim s = String.ofList cs := by
  have hhead : ∀ c ∈ (cs ++ back).head?, isBlank c = false := by
    obtain ⟨c, cs, rfl⟩ := List.exists_cons_of_ne_nil hne
    rintro _ ⟨⟩
    exact hcs c List.mem_cons_self
  have hlast : ∀ c ∈ cs.reverse.head?, isBlank c = false :=
    fun c hc => hcs c (List.mem_reverse.mp (List.mem_of_mem_head? hc))
  have hback : Blanks back.reverse := fun c hc => hb c (List.mem_reverse.mp hc)
  rw [trim, hs, dropBlanks_append hf hhead, dropBlanksEnd, List.reverse_append,
    dropBlanks_append hback hlast, List.reverse_reverse]

theorem unsigned_of_digits {cs : List Char} (h : ∀ c ∈ cs, c.isDigit = true) :
    unsigned cs = cs := by
  unfold unsigned
  split
  · exact absurd (h '+' List.mem_cons_self) (by decide)
  · rfl

/-- The digits of a number behind an optional plus sign, between blanks. -/
inductive Numeral : List Char → Nat → Prop
  | padded {front sign ds back : List Char} (hf : Blanks front) (hs : sign = [] ∨ sign = ['+'])
      (hne : ds ≠ []) (hd : ∀ c ∈ ds, c.isDigit = true) (hb : Blanks back) :
      Numeral (front ++ (sign ++ ds ++ back)) (Nat.ofDigitChars 10 ds 0)

theorem natBelow?_eq_some_iff {bound n : Nat} {s : String} :
    natBelow? bound s = some n ↔ unsigned s.toList ≠ [] ∧
      (∀ c ∈ unsigned s.toList, c.isDigit = true) ∧
      Nat.ofDigitChars 10 (unsigned s.toList) 0 = n ∧ n < bound := by
  unfold natBelow?
  simp only [digitsValue_eq, List.all_eq_true, isDecimalDigit_eq]
  constructor
  · intro h
    split at h
    · rename_i hall
      cases h
      exact ⟨hall.1, hall.2.1, rfl, hall.2.2⟩
    · cases h
  · rintro ⟨hne, hd, rfl, hn⟩
    exact if_pos ⟨hne, hd, hn⟩

theorem exists_sign (cs : List Char) :
    ∃ sign, (sign = [] ∨ sign = ['+']) ∧ cs = sign ++ unsigned cs := by
  unfold unsigned
  split
  · exact ⟨['+'], .inr rfl, rfl⟩
  · exact ⟨[], .inl rfl, rfl⟩

/-- A trimmed text is read as a number iff it is a numeral of it. -/
theorem natBelow?_trim_iff {bound n : Nat} {s : String} :
    natBelow? bound (trim s) = some n ↔ Numeral s.toList n ∧ n < bound := by
  rw [natBelow?_eq_some_iff]
  constructor
  · rintro ⟨hne, hd, rfl, hn⟩
    obtain ⟨front, back, hf, hb, hs⟩ := exists_padding s
    obtain ⟨sign, hsign, hsplit⟩ := exists_sign (trim s).toList
    rw [hsplit] at hs
    rw [hs]
    exact ⟨.padded hf hsign hne hd hb, hn⟩
  · rintro ⟨h, hn⟩
    generalize hs : s.toList = cs at h
    obtain ⟨hf, hsign, hne, hd, hb⟩ := h
    rename_i front sign ds back
    have hblank : ∀ c ∈ sign ++ ds, isBlank c = false := by
      intro c hc
      obtain hc | hc := List.mem_append.mp hc
      · obtain rfl | rfl := hsign
        · cases hc
        · cases List.mem_singleton.mp hc
          decide
      · exact isBlank_of_isDigit (hd c hc)
    have htrim := trim_padded hs hf hb (List.append_ne_nil_of_right_ne_nil sign hne) hblank
    have hunsigned : unsigned (sign ++ ds) = ds := by
      obtain rfl | rfl := hsign
      · exact unsigned_of_digits hd
      · rfl
    rw [htrim, String.toList_ofList, hunsigned]
    exact ⟨hne, hd, rfl, hn⟩

theorem numeral_of_digits {ds back : List Char} (hne : ds ≠ []) (hd : ∀ c ∈ ds, c.isDigit = true)
    (hb : Blanks back) : Numeral (ds ++ back) (Nat.ofDigitChars 10 ds 0) :=
  @Numeral.padded [] [] ds back nofun (.inl rfl) hne hd hb

theorem numeral_toDigits (n : Nat) {back : List Char} (hb : Blanks back) :
    Numeral (Nat.toDigits 10 n ++ back) n := by
  have hdigit : ∀ c ∈ Nat.toDigits 10 n, c.isDigit = true := fun c hc =>
    Nat.isDigit_of_mem_toDigits (by decide) (by decide) hc
  have hnumeral := numeral_of_digits Nat.toDigits_ne_nil hdigit hb
  rwa [Nat.ofDigitChars_ten_toDigits] at hnumeral

theorem numeral_chars {cs : List Char} {n : Nat} (h : Numeral cs n) :
    ∀ c ∈ cs, isBlank c = true ∨ c = '+' ∨ c.isDigit = true := by
  obtain ⟨hf, hs, _, hd, hb⟩ := h
  intro c hc
  obtain hc | hc := List.mem_append.mp hc
  · exact .inl (hf c hc)
  obtain hc | hc := List.mem_append.mp hc
  · obtain hc | hc := List.mem_append.mp hc
    · obtain rfl | rfl := hs
      · cases hc
      · exact .inr (.inl (List.mem_singleton.mp hc))
    · exact .inr (.inr (hd c hc))
  · exact .inl (hb c hc)

theorem not_numeral_minus {cs : List Char} {n : Nat} : ¬ Numeral ('-' :: cs) n := by
  intro h
  exact absurd (numeral_chars h '-' List.mem_cons_self) (by decide)

theorem numeral_unique {cs : List Char} {m n : Nat} (hm : Numeral cs m) (hn : Numeral cs n) :
    m = n := by
  have hread : ∀ k, Numeral cs k → k < m + n + 1 →
      natBelow? (m + n + 1) (trim (String.ofList cs)) = some k := by
    intro k hk hlt
    refine natBelow?_trim_iff.mpr ⟨?_, hlt⟩
    rwa [String.toList_ofList]
  exact Option.some.inj ((hread m hm (by omega)).symm.trans (hread n hn (by omega)))

end Attestation.Proofs.Numerals
