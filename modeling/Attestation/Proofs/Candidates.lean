import Attestation.Plugin.Loader
import Attestation.Proofs.SelectionOrder

namespace Attestation.Proofs.Candidates

open Plugin SelectionOrder

def lead (directory : String) : String :=
  if directory.endsWith "/" then directory else directory ++ "/"

/-- A regular file with a stem before the extension of plugins. -/
structure IsCandidate (directory : String) (e : Entry) (c : Candidate) : Prop where
  regular : e.regular = true
  stem : c.stem ≠ ""
  extension : e.name = c.stem ++ ".plugin"
  name : c.name = e.name
  path : c.path = lead directory ++ e.name

theorem splitExtension?_iff (name stem : String) :
    splitExtension? name = some (stem, extension) ↔ stem ≠ "" ∧ name = stem ++ ".plugin" := by
  constructor
  · intro h
    simp only [splitExtension?] at h
    split at h
    · rename_i c rest hdrop
      simp only [Option.some.injEq, Prod.mk.injEq] at h
      obtain ⟨rfl, hext⟩ := h
      have hpoint : extension.toList =
          (name.toList.reverse.takeWhile (fun x => decide (x ≠ '.'))).reverse := by
        rw [← hext, String.toList_ofList]
      have hall := List.takeWhile_append_dropWhile (p := fun x => decide (x ≠ '.'))
        (l := name.toList.reverse)
      rw [hdrop] at hall
      constructor
      · intro hempty
        simpa using congrArg String.toList hempty
      · apply String.toList_inj.mp
        rw [String.toList_append, String.toList_ofList]
        have hname := congrArg List.reverse hall
        rw [List.reverse_append, ← hpoint, List.reverse_reverse] at hname
        rw [← hname]
        simp [extension]
    · cases h
  · rintro ⟨hstem, rfl⟩
    have hrev : (stem ++ ".plugin").toList.reverse =
        ['n', 'i', 'g', 'u', 'l', 'p'] ++ '.' :: stem.toList.reverse := by
      simp
    have hne : stem.toList.reverse ≠ [] := by
      simpa using hstem
    obtain ⟨c, rest, hcs⟩ := List.exists_cons_of_ne_nil hne
    have hback : (c :: rest).reverse = stem.toList := by
      rw [← hcs, List.reverse_reverse]
    simp only [splitExtension?, hrev, hcs]
    simp [hback, extension]

theorem ofEntry?_iff (directory : String) (e : Entry) (c : Candidate) :
    Candidate.ofEntry? directory e = some c ↔ IsCandidate directory e c := by
  have hpath : (if directory.endsWith "/" then directory ++ e.name else s!"{directory}/{e.name}") =
      lead directory ++ e.name := by
    unfold lead
    split
    · rfl
    · rfl
  constructor
  · intro h
    unfold Candidate.ofEntry? at h
    split at h
    · rename_i stem ext hsplit
      split at h
      · rename_i hplugin
        obtain ⟨hregular, rfl⟩ := hplugin
        obtain ⟨hstem, hname⟩ := (splitExtension?_iff e.name stem).mp hsplit
        cases h
        exact ⟨hregular, hstem, hname, rfl, hpath⟩
      · cases h
    · cases h
  · rintro ⟨hregular, hstem, hextension, hname, hc⟩
    have hsplit := (splitExtension?_iff e.name c.stem).mpr ⟨hstem, hextension⟩
    obtain ⟨name, stem, path⟩ := c
    subst hname hc
    simp only [Candidate.ofEntry?, hsplit, hregular, true_and, if_true, hpath]

/-- The candidates are the files with the extension of plugins. -/
theorem mem_ofEntries_iff {directory : String} {entries : List Entry} {c : Candidate} :
    c ∈ Candidate.ofEntries directory entries ↔ ∃ e ∈ entries, IsCandidate directory e c := by
  rw [Candidate.ofEntries, List.mem_mergeSort, List.mem_filterMap]
  simp only [ofEntry?_iff]

theorem ofEntries_sorted (directory : String) (entries : List Entry) :
    (Candidate.ofEntries directory entries).Pairwise fun a b => a.name ≤ b.name := by
  have h := @List.pairwise_mergeSort _ (fun a b : Candidate => decide (a.name ≤ b.name))
    (fun a b c hab hbc => decide_eq_true
      (String.le_trans (of_decide_eq_true hab) (of_decide_eq_true hbc)))
    (fun a b => by
      obtain h | h := String.le_total a.name b.name
      · rw [decide_eq_true h, Bool.true_or]
      · rw [decide_eq_true h, Bool.or_true])
    (entries.filterMap (Candidate.ofEntry? directory))
  exact h.imp of_decide_eq_true

theorem ofEntries_nodup {directory : String} {entries : List Entry}
    (h : (entries.map (·.name)).Nodup) :
    ((Candidate.ofEntries directory entries).map (·.name)).Nodup := by
  have hperm : ((Candidate.ofEntries directory entries).map (·.name)).Perm
      ((entries.filterMap (Candidate.ofEntry? directory)).map (·.name)) :=
    (List.mergeSort_perm _ _).map _
  apply hperm.nodup_iff.mpr
  have hnames : ∀ entries : List Entry,
      ((entries.filterMap (Candidate.ofEntry? directory)).map (·.name)).Sublist
        (entries.map (·.name)) := by
    intro entries
    induction entries with
    | nil => exact List.Sublist.slnil
    | cons e entries ih =>
      rw [List.filterMap_cons]
      split
      · exact ih.cons _
      · rename_i c hc
        rw [List.map_cons, List.map_cons, ((ofEntry?_iff directory e c).mp hc).name]
        exact ih.cons_cons _
  exact (hnames entries).nodup h

theorem stem_of_path {directory : String} {e e' : Entry} {c c' : Candidate}
    (hc : IsCandidate directory e c) (hc' : IsCandidate directory e' c') (h : c.path = c'.path) :
    c.stem = c'.stem := by
  rw [hc.path, hc'.path, hc.extension, hc'.extension] at h
  exact (String.append_left_inj _).mp ((String.append_right_inj _).mp h)

theorem path_lt {directory : String} {e e' : Entry} {c c' : Candidate}
    (hc : IsCandidate directory e c) (hc' : IsCandidate directory e' c') (h : c.name < c'.name) :
    c.path < c'.path := by
  rw [hc.path, hc'.path, ← hc.name, ← hc'.name, String.lt_iff, String.toList_append,
    String.toList_append]
  exact List.append_left_lt (String.lt_iff.mp h)

theorem ofEntries_ascending {directory : String} {entries : List Entry}
    (h : (entries.map (·.name)).Nodup) :
    (Candidate.ofEntries directory entries).Pairwise fun a b => a.path < b.path := by
  have hnames : ((Candidate.ofEntries directory entries).map (·.name)).Pairwise (· < ·) :=
    pairwise_lt_of_le (List.pairwise_map.mpr (ofEntries_sorted directory entries))
      (ofEntries_nodup h)
  apply (List.pairwise_map.mp hnames).imp_of_mem
  intro a b ha hb hlt
  obtain ⟨e, -, he⟩ := mem_ofEntries_iff.mp ha
  obtain ⟨e', -, he'⟩ := mem_ofEntries_iff.mp hb
  exact path_lt he he' hlt

end Attestation.Proofs.Candidates
