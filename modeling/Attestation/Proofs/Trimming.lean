import Attestation.Proofs.Numerals

namespace Attestation.Proofs.Trimming

open Text Numerals

/-- A part with nothing but blanks around it, and with no blank at its own ends. -/
structure Trimmed (cs body : List Char) : Prop where
  padding : ∃ front back, Blanks front ∧ Blanks back ∧ cs = front ++ (body ++ back)
  first : ∀ c ∈ body.head?, isBlank c = false
  last : ∀ c ∈ body.getLast?, isBlank c = false

theorem dropBlanks_blanks {cs : List Char} (h : Blanks cs) : dropBlanks cs = [] := by
  have hdrop := @dropBlanks_append cs [] h (by simp)
  rwa [List.append_nil] at hdrop

theorem head_dropBlanks (cs : List Char) : ∀ c ∈ (dropBlanks cs).head?, isBlank c = false := by
  induction cs with
  | nil =>
    intro c hc
    cases hc
  | cons b cs ih =>
    by_cases hb : isBlank b = true
    · rw [dropBlanks, List.dropWhile_cons_of_pos hb]
      exact ih
    · rw [dropBlanks, List.dropWhile_cons_of_neg hb]
      intro c hc
      cases hc
      simpa using hb

theorem trimmed_trim (s : String) : Trimmed s.toList (trim s).toList := by
  obtain ⟨front, hf, hfront⟩ := exists_front s.toList
  obtain ⟨back, hb, hback⟩ := exists_front (dropBlanks s.toList).reverse
  have hbody : (trim s).toList = (dropBlanks (dropBlanks s.toList).reverse).reverse := by
    rw [trim, String.toList_ofList, dropBlanksEnd]
  have hmiddle : dropBlanks s.toList = (trim s).toList ++ back.reverse := by
    rw [hbody, ← List.reverse_append, ← hback, List.reverse_reverse]
  refine ⟨⟨front, back.reverse, hf, ?_, ?_⟩, ?_, ?_⟩
  · intro c hc
    exact hb c (List.mem_reverse.mp hc)
  · rw [← hmiddle]
    exact hfront
  · -- The part begins where the blanks in front end, unless it is empty.
    intro c hc
    apply head_dropBlanks s.toList
    rw [hmiddle, List.head?_append, Option.mem_def.mp hc]
    exact rfl
  · intro c hc
    apply head_dropBlanks (dropBlanks s.toList).reverse
    rwa [hbody, List.getLast?_reverse] at hc

theorem trim_of_trimmed {s : String} {body : List Char} (h : Trimmed s.toList body) :
    (trim s).toList = body := by
  obtain ⟨⟨front, back, hf, hb, hs⟩, hfirst, hlast⟩ := h
  have hback : Blanks back.reverse := by
    intro c hc
    exact hb c (List.mem_reverse.mp hc)
  rw [trim, String.toList_ofList, hs]
  by_cases hne : body = []
  · have hall : Blanks (front ++ back) := by
      intro c hc
      obtain hc | hc := List.mem_append.mp hc
      · exact hf c hc
      · exact hb c hc
    rw [hne, List.nil_append, dropBlanks_blanks hall]
    rfl
  · have hhead : ∀ c ∈ (body ++ back).head?, isBlank c = false := by
      obtain ⟨c, rest, rfl⟩ := List.exists_cons_of_ne_nil hne
      exact hfirst
    have hend : ∀ c ∈ body.reverse.head?, isBlank c = false := by
      rw [List.head?_reverse]
      exact hlast
    rw [dropBlanks_append hf hhead, dropBlanksEnd, List.reverse_append,
      dropBlanks_append hback hend, List.reverse_reverse]

theorem trimmed_iff {s : String} {body : List Char} :
    Trimmed s.toList body ↔ (trim s).toList = body := by
  constructor
  · exact trim_of_trimmed
  · rintro rfl
    exact trimmed_trim s

theorem trimmed_self {cs : List Char} (hfirst : ∀ c ∈ cs.head?, isBlank c = false)
    (hlast : ∀ c ∈ cs.getLast?, isBlank c = false) : Trimmed cs cs := by
  refine ⟨⟨[], [], ?_, ?_, ?_⟩, hfirst, hlast⟩
  · intro c hc
    cases hc
  · intro c hc
    cases hc
  · rw [List.append_nil, List.nil_append]

end Attestation.Proofs.Trimming
