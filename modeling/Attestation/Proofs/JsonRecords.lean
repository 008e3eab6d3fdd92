import Attestation.Json.Decode

namespace Attestation.Proofs.JsonRecords

open Json

theorem bind_ok_iff {ε α β : Type} (x : Except ε α) (f : α → Except ε β) (b : β) :
    x >>= f = .ok b ↔ ∃ a, x = .ok a ∧ f a = .ok b := by
  cases x <;> simp [bind, Except.bind]

theorem mapError_ok_iff {ε ε' α : Type} (x : Except ε α) (f : ε → ε') (b : α) :
    x.mapError f = .ok b ↔ x = .ok b := by
  constructor
  · intro h
    cases x with
    | error e => cases h
    | ok a =>
      cases h
      rfl
  · rintro rfl
    rfl

theorem map_ok_iff {ε α β : Type} (x : Except ε α) (f : α → β) (b : β) :
    x.map f = .ok b ↔ ∃ a, x = .ok a ∧ f a = b := by
  cases x <;> simp [Except.map]

theorem ending_eq_ok {α : Type} {closed : Bool} {a b : α}
    (h : Decoder.ending closed a = .ok b) : a = b := by
  cases closed with
  | false => simp [Decoder.ending] at h
  | true => simpa [Decoder.ending] using h

variable {α : Type} (r : Record α) (P : α → Prop)

def Keeps (slots : List (Slot α)) : Prop :=
  ∀ s ∈ slots, ∀ p t a a', P a → s.read p t a = .ok a' → P a'

/-- Slots that keep a property when they are read from trees of an origin. -/
def KeepsFrom (o : Origin) (slots : List (Slot α)) : Prop :=
  ∀ s ∈ slots, ∀ p t a a', p.origin = o → P a → s.read p t a = .ok a' → P a'

theorem origin_inner {p q : Place} (h : p.inner = .ok q) : q.origin = p.origin := by
  unfold Place.inner at h
  split at h
  · cases h
  · cases h
    rfl

theorem fromMembers_keeps {P : α → Prop} {o : Origin} (hs : KeepsFrom P o r.slots) {p : Place}
    (hp : p.origin = o) (seen : List String) (a : α) (ms : List (Option String × Tree)) (ha : P a)
    {result : List String × α} (h : r.fromMembers p seen a ms = .ok result) : P result.2 := by
  induction ms generalizing seen a with
  | nil =>
    simp only [Record.fromMembers, Except.ok.injEq] at h
    subst result
    exact ha
  | cons m ms ih =>
    obtain ⟨k, t⟩ := m
    obtain ⟨k', _, h⟩ := (bind_ok_iff _ _ _).mp h
    cases hf : r.slots.find? (·.name = k') with
    | none =>
      simp only [hf] at h
      obtain ⟨_, _, h⟩ := (bind_ok_iff _ _ _).mp h
      exact ih seen a ha h
    | some s =>
      simp only [hf] at h
      split at h
      · cases h
      · cases hread : s.read p t a with
        | error e => simp [hread] at h
        | ok a' =>
          simp only [hread] at h
          exact ih _ a' (hs s (List.mem_of_find?_eq_some hf) p t a a' hp ha hread) h

theorem fromItems_keeps {P : α → Prop} {o : Origin} {p : Place} (hp : p.origin = o) (i : Nat)
    (a : α) (slots : List (Slot α)) (hs : KeepsFrom P o slots) (ts : List Tree) (closed : Bool)
    (ha : P a) {result : α × List Tree} (h : r.fromItems p i a slots ts closed = .ok result) :
    P result.1 := by
  induction slots generalizing i a ts with
  | nil =>
    simp only [Record.fromItems, Except.ok.injEq] at h
    subst result
    exact ha
  | cons s slots ih =>
    have hs' : KeepsFrom P o slots := fun s' hm => hs s' (List.mem_cons_of_mem _ hm)
    cases ts with
    | nil =>
      simp only [Record.fromItems] at h
      split at h
      · cases h
      · split at h
        · cases h
        · exact ih i a hs' [] ha h
    | cons t ts =>
      cases hread : s.read p t a with
      | error e => simp [Record.fromItems, hread] at h
      | ok a' =>
        simp only [Record.fromItems, hread] at h
        exact ih (i + 1) a' hs' ts (hs s List.mem_cons_self p t a a' hp ha hread) h

theorem decode_keepsFrom {P : α → Prop} {p : Place} (hi : P r.initial)
    (hs : KeepsFrom P p.origin r.slots) {t : Tree} {a : α} (h : r.decode p t = .ok a) : P a := by
  cases t with
  | object ms closed =>
    obtain ⟨q, hq, h⟩ := (bind_ok_iff _ _ _).mp h
    obtain ⟨⟨seen, b⟩, hread, h⟩ := (bind_ok_iff _ _ _).mp h
    obtain ⟨c, hend, h⟩ := (bind_ok_iff _ _ _).mp h
    have hb : P b := fromMembers_keeps r hs (origin_inner hq) [] r.initial ms hi hread
    have hc := ending_eq_ok hend
    subst c
    split at h
    · cases h
    · cases h
      exact hb
  | array ts closed =>
    obtain ⟨q, hq, h⟩ := (bind_ok_iff _ _ _).mp h
    obtain ⟨⟨b, rest⟩, hread, h⟩ := (bind_ok_iff _ _ _).mp h
    obtain ⟨_, _, h⟩ := (bind_ok_iff _ _ _).mp h
    cases h
    exact fromItems_keeps r (origin_inner hq) 0 r.initial r.slots hs ts closed hi hread
  | null | bool _ | broken => simp [Record.decode, unexpected, Tree.found] at h
  | number n =>
    cases n with
    | none => simp [Record.decode, unexpected, Tree.found] at h
    | some n => cases n <;> simp [Record.decode, unexpected, Tree.found] at h
  | string s => cases s <;> simp [Record.decode, unexpected, Tree.found] at h

theorem decode_keeps {P : α → Prop} (hi : P r.initial) (hs : Keeps P r.slots) {p : Place}
    {t : Tree} {a : α} (h : r.decode p t = .ok a) : P a :=
  decode_keepsFrom r hi (fun s hm p t a a' _ ha hr => hs s hm p t a a' ha hr) h

end Attestation.Proofs.JsonRecords
