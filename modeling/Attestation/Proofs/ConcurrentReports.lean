import Attestation.Proofs.KernelEntries

namespace Attestation.Proofs.ConcurrentReports

open Tsm Tsm.Configfs Tsm.Configfs.Exchange Worlds ReportExchanges EntryExchanges KernelEntries

/-- A report that is being made. -/
structure Call where
  request : ReportRequest
  rest : Exchange (Except Error Report)
  log : List Event

structure System where
  directory : Directory
  calls : List Call

variable (s : Site) (k : Kernel)

def Call.advance (c : Call) (d : Directory) : Call × Directory :=
  match c.rest with
  | .done _ => (c, d)
  | .ask q next =>
    (⟨c.request, next (Scene.reply s k ⟨d, c.log⟩ q), (Scene.after s k ⟨d, c.log⟩ q).log⟩,
      (Scene.after s k ⟨d, c.log⟩ q).directory)

/-- A step of the call with the given number. -/
def step (S : System) (i : Nat) : System :=
  match S.calls[i]? with
  | none => S
  | some c => ⟨(c.advance s k S.directory).2, S.calls.set i (c.advance s k S.directory).1⟩

/-- The calls in the order in which they take their steps. -/
def run (S : System) (schedule : List Nat) : System := schedule.foldl (step s k) S

def start (d : Directory) (requests : List ReportRequest) : System :=
  ⟨d, requests.map fun r => ⟨r, report s r, []⟩⟩

def alone (d : Directory) (n : UInt64) (r : ReportRequest) : Except Error Report × Scene :=
  conduct s k (report s r) ⟨{ d with next := n }, []⟩

variable {s k} {d now : Directory} {n : UInt64}

section questions

/-- An exchange has questions of one kind only, and not more than so many. -/
inductive Asks (P : Action → Prop) {α : Type} : Nat → Exchange α → Prop
  | done (b : Nat) (a : α) : Asks P b (.done a)
  | ask {b : Nat} {q : Action} {next : q.Reply → Exchange α} (hq : P q)
      (h : ∀ r, Asks P b (next r)) : Asks P (b + 1) (.ask q next)

variable {P P' : Action → Prop} {α β : Type} {b b' : Nat} {x : Exchange α}

theorem Asks.imp (h : Asks P b x) (hP : ∀ q, P q → P' q) : Asks P' b x := by
  induction h with
  | done b a => exact .done b a
  | ask hq h ih => exact .ask (hP _ hq) ih

theorem Asks.mono (h : Asks P b x) (hb : b ≤ b') : Asks P b' x := by
  induction h generalizing b' with
  | done b a => exact .done b' a
  | ask hq h ih =>
    obtain ⟨b', rfl⟩ := Nat.exists_eq_add_of_lt hb
    exact .ask hq fun r => ih r (by omega)

theorem Asks.bind {f : α → Exchange β} (h : Asks P b x) (hf : ∀ a, Asks P b' (f a)) :
    Asks P (b + b') (x >>= f) := by
  induction h with
  | done b a => exact (hf a).mono (Nat.le_add_left b' b)
  | ask hq h ih =>
    rw [Nat.add_right_comm]
    exact .ask hq ih

theorem Asks.of_zero (h : Asks P 0 x) : ∃ a, x = .done a := by
  cases h with
  | done _ a => exact ⟨a, rfl⟩

theorem asks_of_alike {m : UInt64} {y : Exchange α} (h : Alike n m b x y) :
    Asks (Accesses n) b x := by
  induction h with
  | done b a => exact .done b a
  | write h ih => exact .ask (.write _ _) ih
  | read h ih => exact .ask (.read _) ih

theorem asks_onceMade (n : UInt64) (r : ReportRequest) (created : Except SystemError Unit) :
    Asks (entryOf · = some n) 10 (onceMade s r n created) := by
  cases created with
  | error e => exact .done 10 _
  | ok =>
    have hentry := (asks_of_alike (alike_withEntry n n r)).imp fun _ => entryOf_of_accesses
    exact hentry.bind fun result => .ask (q := .remove n) rfl fun _ => .done 0 result

theorem asks_report (r : ReportRequest) : Asks (fun _ => True) 13 (report s r) := by
  rw [report_eq]
  refine .ask trivial fun found => ?_
  split
  · exact .done 12 _
  · refine .ask trivial fun n => .ask trivial fun created => ?_
    exact (asks_onceMade n r created).imp fun _ _ => trivial

end questions

section agreement

variable {α : Type} {b : Nat} {x : Exchange α} {T : Directory} {log : List Event}

theorem perform_agree {q : Action} (hq : entryOf q = some n)
    (h : T.entries (s.entryPath n) = now.entries (s.entryPath n)) :
    (perform s k T q).1 = (perform s k now q).1 ∧
      (perform s k T q).2.entries (s.entryPath n) =
        (perform s k now q).2.entries (s.entryPath n) := by
  cases q with
  | look | take => cases hq
  | create m =>
    cases hq
    simp only [perform, ← h]
    cases hT : T.entries (s.entryPath n) with
    | some seen => exact ⟨rfl, h⟩
    | none => cases k.created with
      | error e => exact ⟨rfl, h⟩
      | ok => exact ⟨rfl, by simp⟩
  | write m a value | read m a =>
    cases hq
    simp only [perform, ← h]
    cases hT : T.entries (s.entryPath n) with
    | some seen => exact ⟨rfl, by simp⟩
    | none => exact ⟨rfl, h⟩
  | remove m =>
    cases hq
    exact ⟨rfl, by simp [perform]⟩

theorem log_prefix (x : Exchange α) (c : Scene) : c.log <+: (conduct s k x c).2.log := by
  induction x generalizing c with
  | done a => exact List.prefix_rfl
  | ask q next ih =>
    have hlog : c.log <+: (c.after s k q).log := List.prefix_append ..
    exact hlog.trans (ih _ _)

end agreement

section stages

variable {c : Call} {r : ReportRequest}

def takenIn : Event → Option UInt64
  | ⟨.take, n⟩ => some n
  | _ => none

/-- The number that a call has taken. -/
def Call.number (c : Call) : Option UInt64 := c.log.findSome? takenIn

/-- How far a call is. With a number, it goes on as it would alone. -/
inductive Stage (s : Site) (k : Kernel) (d now : Directory) : Call → Prop
  | begun (r : ReportRequest) : Stage s k d now ⟨r, report s r, []⟩
  | missing (r : ReportRequest) (h : d.found = false) :
      Stage s k d now ⟨r, .done (.error (.unavailable s.root)), [⟨.look, false⟩]⟩
  | looked (r : ReportRequest) (h : d.found = true) :
      Stage s k d now ⟨r, .ask .take fun n => .ask (.create n) (onceMade s r n), [⟨.look, true⟩]⟩
  | numbered {c : Call} {T : Directory} {n : UInt64} {b : Nat} (hn : c.number = some n)
      (hrest : Asks (entryOf · = some n) b c.rest)
      (hpath : T.entries (s.entryPath n) = now.entries (s.entryPath n))
      (hrun : conduct s k c.rest ⟨T, c.log⟩ = alone s k d n c.request) : Stage s k d now c

theorem Stage.move {now' : Directory} (h : Stage s k d now c)
    (hpath : ∀ n ∈ c.number, now'.entries (s.entryPath n) = now.entries (s.entryPath n)) :
    Stage s k d now' c := by
  cases h with
  | begun r => exact .begun r
  | missing r h => exact .missing r h
  | looked r h => exact .looked r h
  | numbered hn hrest hT hrun => exact .numbered hn hrest (hT.trans (hpath _ hn).symm) hrun

/-- What the calls of a process have come to, from a directory in which they began. -/
structure Coupled (s : Site) (k : Kernel) (d : Directory) (total : Nat) (S : System) : Prop where
  found : S.directory.found = d.found
  stages : ∀ (i : Nat) c, S.calls[i]? = some c → Stage s k d S.directory c
  /-- The numbers that are taken are before the next one. -/
  taken : ∀ (i : Nat) c, S.calls[i]? = some c → ∀ n ∈ c.number, n.toNat < S.directory.next.toNat
  distinct : ∀ (i j : Nat) c c', S.calls[i]? = some c → S.calls[j]? = some c' → i ≠ j →
    ∀ n ∈ c.number, ∀ m ∈ c'.number, n ≠ m
  /-- No other entries than those of the calls have changed. -/
  untouched : ∀ path, (∀ (i : Nat) c, S.calls[i]? = some c → ∀ n ∈ c.number, path ≠ s.entryPath n) →
    S.directory.entries path = d.entries path
  count : S.directory.next.toNat + S.calls.countP (·.number.isNone) = d.next.toNat + total

/-- What a step of a call may change. -/
structure Moves (s : Site) (k : Kernel) (d now now' : Directory) (c c' : Call) : Prop where
  found : now'.found = now.found
  stage : Stage s k d now' c'
  kept : ∀ n ∈ c.number, c'.number = some n
  /-- A number that has come is the next one. -/
  come : ∀ n ∈ c'.number, c.number = some n ∨ n = now.next
  elsewhere : ∀ path, (∀ n ∈ c'.number, path ≠ s.entryPath n) →
    now'.entries path = now.entries path
  count : now'.next.toNat + c'.number.isNone.toNat = now.next.toNat + c.number.isNone.toNat

theorem Moves.rest (h : Stage s k d now c) : Moves s k d now now c c where
  found := rfl
  stage := h
  kept _ hn := hn
  come _ hn := .inl hn
  elsewhere _ _ := rfl
  count := rfl

variable {total i : Nat} {S : System} {c' : Call} {now' : Directory}

theorem Moves.next_le (h : Moves s k d now now' c c') : now.next.toNat ≤ now'.next.toNat := by
  have hcount := h.count
  cases hc : c.number with
  | some n =>
    rw [h.kept n hc, hc] at hcount
    exact Nat.le_of_eq (Nat.add_right_cancel hcount).symm
  | none =>
    have hle := c'.number.isNone.toNat_le
    rw [hc, Option.isNone_none, Bool.toNat_true] at hcount
    omega

theorem Moves.come_lt (h : Moves s k d now now' c c') {n : UInt64} (hn : c'.number = some n) :
    c.number = some n ∨ n = now.next ∧ n.toNat < now'.next.toNat := by
  cases hc : c.number with
  | some m => exact .inl ((h.kept m hc).symm.trans hn)
  | none =>
    have hnext : n = now.next := (h.come n hn).resolve_left (by rw [hc]; nofun)
    have hcount := h.count
    rw [hc, hn, Option.isNone_none, Option.isNone_some, Bool.toNat_true, Bool.toNat_false] at hcount
    refine .inr ⟨hnext, ?_⟩
    rw [hnext]
    omega

theorem countP_set_add {l : List Call} (p : Call → Bool) (c' : Call) (hi : l[i]? = some c) :
    (l.set i c').countP p + (p c).toNat = l.countP p + (p c').toNat := by
  obtain ⟨hlt, rfl⟩ := List.getElem?_eq_some_iff.mp hi
  have hpos : p l[i] = true → 0 < l.countP p := fun hp =>
    List.countP_pos_iff.mpr ⟨_, List.getElem_mem hlt, hp⟩
  rw [List.countP_set hlt]
  cases hold : p l[i] with
  | false => cases p c' <;> simp
  | true =>
    have hpos := hpos hold
    cases p c' <;> simp <;> omega

theorem Coupled.replace (h : Coupled s k d total S) (hi : S.calls[i]? = some c)
    (hm : Moves s k d S.directory now' c c') : Coupled s k d total ⟨now', S.calls.set i c'⟩ := by
  have hlt : i < S.calls.length := (List.getElem?_eq_some_iff.mp hi).1
  have hat : ∀ {j : Nat} {e : Call}, (S.calls.set i c')[j]? = some e →
      (j = i ∧ e = c') ∨ (j ≠ i ∧ S.calls[j]? = some e) := by
    intro j e he
    by_cases hj : j = i
    · subst j
      rw [List.getElem?_set_self hlt] at he
      exact .inl ⟨rfl, (Option.some.inj he).symm⟩
    · rw [List.getElem?_set_ne (Ne.symm hj)] at he
      exact .inr ⟨hj, he⟩
  -- the numbers of a call and of another one differ, also if the first one has just come
  have hdiff : ∀ {j : Nat} {e : Call}, j ≠ i → S.calls[j]? = some e →
      ∀ n ∈ c'.number, ∀ m ∈ e.number, n ≠ m := by
    intro j e hj he n hn m hmem
    obtain hc | rfl := hm.come n hn
    · exact h.distinct i j c e hi he hj.symm n hc m hmem
    · rintro rfl
      exact absurd (h.taken j e he _ hmem) (Nat.lt_irrefl _)
  refine ⟨hm.found.trans h.found, fun j e he => ?_, fun j e he n hn => ?_,
    fun j j' e e' he he' hne n hn m hmem => ?_, fun path hpath => ?_, ?_⟩
  · obtain ⟨rfl, rfl⟩ | ⟨hj, he⟩ := hat he
    · exact hm.stage
    · refine (h.stages j e he).move fun m hmem => hm.elsewhere _ fun n hn => ?_
      exact entryPath_ne (hdiff hj he n hn m hmem).symm
  · obtain ⟨rfl, rfl⟩ | ⟨hj, he⟩ := hat he
    · obtain hc | ⟨-, hlt⟩ := hm.come_lt hn
      · exact Nat.lt_of_lt_of_le (h.taken j c hi n hc) hm.next_le
      · exact hlt
    · exact Nat.lt_of_lt_of_le (h.taken j e he n hn) hm.next_le
  · obtain ⟨hj, rfl⟩ | ⟨hj, hold⟩ := hat he <;> obtain ⟨hj', rfl⟩ | ⟨hj', hold'⟩ := hat he'
    · exact absurd (hj.trans hj'.symm) hne
    · exact hdiff hj' hold' n hn m hmem
    · exact (hdiff hj hold m hmem n hn).symm
    · exact h.distinct j j' e e' hold hold' hne n hn m hmem
  · have hself : ∀ n ∈ c'.number, path ≠ s.entryPath n :=
      hpath i c' (List.getElem?_set_self hlt)
    refine (hm.elsewhere path hself).trans (h.untouched path fun j e he n hn => ?_)
    by_cases hj : j = i
    · subst j
      rw [hi] at he
      cases he
      exact hself n (hm.kept n hn)
    · exact hpath j e ((List.getElem?_set_ne (Ne.symm hj)).trans he) n hn
  · have hcount := countP_set_add (fun e => e.number.isNone) c' hi
    have hmoves := hm.count
    have hold := h.count
    simp only at hcount ⊢
    omega

theorem advance_ask {q : Action} {next : q.Reply → Exchange (Except Error Report)}
    {log : List Event} : Call.advance s k ⟨r, .ask q next, log⟩ now =
      (⟨r, next (perform s k now q).1, log ++ [⟨q, (perform s k now q).1⟩]⟩,
        (perform s k now q).2) := rfl

theorem number_append {c : Call} {n : UInt64} (hn : c.number = some n) (e : Event)
    (rest : Exchange (Except Error Report)) :
    Call.number ⟨c.request, rest, c.log ++ [e]⟩ = some n := by
  rw [Call.number, List.findSome?_append]
  exact congrArg (Option.or · _) hn

/-- The step of a call with a number is the one that it would make alone. -/
theorem moves_numbered {T : Directory} {n : UInt64} {b : Nat} (hn : c.number = some n)
    (hrest : Asks (entryOf · = some n) b c.rest)
    (hpath : T.entries (s.entryPath n) = now.entries (s.entryPath n))
    (hrun : conduct s k c.rest ⟨T, c.log⟩ = alone s k d n c.request) :
    Moves s k d now (c.advance s k now).2 c (c.advance s k now).1 := by
  obtain ⟨request, rest, log⟩ := c
  cases hrest with
  | done b a => exact .rest (.numbered hn (.done b a) hpath hrun)
  | @ask b q next hq h =>
    obtain ⟨hreply, hentry⟩ := perform_agree (k := k) hq hpath
    have hnumber := number_append hn ⟨q, (perform s k now q).1⟩ (next (perform s k now q).1)
    have htake : q ≠ .take := by
      rintro rfl
      cases hq
    rw [advance_ask]
    refine ⟨perform_found q, ?_, fun m hm => ?_, fun m hm => ?_, fun path hne => ?_, ?_⟩
    · simp only [conduct_ask, Scene.after, Scene.reply, hreply] at hrun
      exact .numbered hnumber (h _) hentry hrun
    · cases hn.symm.trans hm
      exact hnumber
    · cases hnumber.symm.trans hm
      exact .inl hn
    · refine perform_elsewhere fun m hm => ?_
      cases hq.symm.trans hm
      exact hne n hnumber
    · rw [perform_next htake, hn, hnumber]

theorem Coupled.next_lt (h : Coupled s k d total S) (hroom : d.next.toNat + total < UInt64.size)
    (hi : S.calls[i]? = some c) (hc : c.number = none) :
    S.directory.next.toNat + 1 < UInt64.size := by
  have hpos : 0 < S.calls.countP (·.number.isNone) :=
    List.countP_pos_iff.mpr ⟨c, List.mem_of_getElem? hi, by rw [hc]; rfl⟩
  have hcount := h.count
  omega

theorem Coupled.next_untouched (h : Coupled s k d total S) :
    S.directory.entries (s.entryPath S.directory.next) =
      d.entries (s.entryPath S.directory.next) := by
  refine h.untouched _ fun i c hi n hn => entryPath_ne ?_
  rintro rfl
  exact absurd (h.taken i c hi _ hn) (Nat.lt_irrefl _)

theorem moves_look (hfound : now.found = d.found) (r : ReportRequest) :
    Moves s k d now (Call.advance s k ⟨r, report s r, []⟩ now).2 ⟨r, report s r, []⟩
      (Call.advance s k ⟨r, report s r, []⟩ now).1 := by
  have hreply : (perform s k now .look).1 = d.found := hfound
  rw [report_eq, advance_ask, hreply]
  refine ⟨rfl, ?_, nofun, nofun, fun _ _ => rfl, rfl⟩
  cases hd : d.found with
  | false => exact .missing r hd
  | true => exact .looked r hd

theorem moves_take (hd : d.found = true) (hnext : now.next.toNat + 1 < UInt64.size)
    (hpath : now.entries (s.entryPath now.next) = d.entries (s.entryPath now.next))
    (r : ReportRequest) :
    Moves s k d now { now with next := now.next + 1 }
      ⟨r, .ask .take fun n => .ask (.create n) (onceMade s r n), [⟨.look, true⟩]⟩
      ⟨r, .ask (.create now.next) (onceMade s r now.next),
        [⟨.look, true⟩, ⟨.take, now.next⟩]⟩ where
  found := rfl
  stage :=
    .numbered (T := { d with next := now.next + 1 }) rfl (.ask rfl (asks_onceMade now.next r))
      hpath.symm (conduct_found (d := { d with next := now.next }) hd).symm
  kept := nofun
  come _ hn := .inr (Option.some.inj hn).symm
  elsewhere _ _ := rfl
  count := (UInt64.toNat_add now.next 1).trans (Nat.mod_eq_of_lt hnext)

theorem moves_advance (h : Coupled s k d total S) (hroom : d.next.toNat + total < UInt64.size)
    (hi : S.calls[i]? = some c) :
    Moves s k d S.directory (c.advance s k S.directory).2 c (c.advance s k S.directory).1 := by
  cases h.stages i c hi with
  | begun r => exact moves_look h.found r
  | missing r hd => exact .rest (.missing r hd)
  | looked r hd => exact moves_take hd (h.next_lt hroom hi rfl) h.next_untouched r
  | numbered hn hrest hpath hrun => exact moves_numbered hn hrest hpath hrun

theorem coupled_step (h : Coupled s k d total S) (hroom : d.next.toNat + total < UInt64.size)
    (i : Nat) : Coupled s k d total (step s k S i) := by
  unfold step
  split
  · exact h
  · rename_i c hi
    exact h.replace hi (moves_advance h hroom hi)

theorem coupled_run (h : Coupled s k d total S) (hroom : d.next.toNat + total < UInt64.size)
    (schedule : List Nat) : Coupled s k d total (run s k S schedule) := by
  induction schedule generalizing S with
  | nil => exact h
  | cons i schedule ih => exact ih (coupled_step h hroom i)

theorem coupled_start (s : Site) (k : Kernel) (d : Directory) (requests : List ReportRequest) :
    Coupled s k d requests.length (start s d requests) := by
  have hcall : ∀ {i : Nat} {c : Call}, (start s d requests).calls[i]? = some c →
      ∃ r, c = ⟨r, report s r, []⟩ := by
    intro i c hi
    obtain ⟨r, -, rfl⟩ := List.mem_map.mp (List.mem_of_getElem? hi)
    exact ⟨r, rfl⟩
  refine ⟨rfl, fun i c hi => ?_, fun i c hi n hn => ?_, fun i j c c' hi hj hne n hn => ?_,
    fun _ _ => rfl, ?_⟩
  · obtain ⟨r, rfl⟩ := hcall hi
    exact .begun r
  · obtain ⟨r, rfl⟩ := hcall hi
    cases hn
  · obtain ⟨r, rfl⟩ := hcall hi
    cases hn
  · have hall : (start s d requests).calls.countP (·.number.isNone) = requests.length := by
      refine (List.countP_eq_length.mpr fun c hc => ?_).trans (List.length_map _)
      obtain ⟨r, -, rfl⟩ := List.mem_map.mp hc
      rfl
    rw [hall]
    rfl

end stages

section results

variable {x : Except Error Report} {r : ReportRequest} {c : Call}

def numbers (log : List Event) : List UInt64 := log.filterMap (entryOf ·.question)

/-- The same result, but for the name of an entry that could not be made. -/
inductive SameButName : Except Error Report → Except Error Report → Prop
  | same (x : Except Error Report) : SameButName x x
  | named (path path' text : String) :
      SameButName (.error (.createEntry path text)) (.error (.createEntry path' text))

section alone

variable {run run' : Except Error Report × Scene} {m : UInt64}

theorem sameButName_of_reported (hfree : ∀ n, d.entries (s.entryPath n) = none)
    (h : Reported s k r { d with next := n } run) (h' : Reported s k r { d with next := m } run') :
    SameButName run.1 run'.1 := by
  cases h with
  | missing hd =>
    cases h' with
    | missing hd' => exact .same _
    | refused hd' _ | made hd' _ _ => cases hd.symm.trans hd'
  | refused hd he =>
    have hfailed := he.failed_of_free (hfree n)
    cases h' with
    | missing hd' => cases hd.symm.trans hd'
    | refused hd' he' =>
      cases hfailed.symm.trans (he'.failed_of_free (hfree m))
      exact .named _ _ _
    | made hd' _ hcreated => cases hfailed.symm.trans hcreated
  | made hd hn hcreated =>
    cases h' with
    | missing hd' => cases hd.symm.trans hd'
    | refused hd' he' => cases hcreated.symm.trans (he'.failed_of_free (hfree m))
    | made hd' hm hcreated' =>
      have hentered : (entered s { d with next := n }).directory.entries (s.entryPath n) =
          (entered s { d with next := m }).directory.entries (s.entryPath m) :=
        (put_self ..).trans (put_self ..).symm
      simp only [conduct_alike (alike_withEntry n m r) hentered]
      exact .same _

theorem numbers_of_reported (h : Reported s k r d run) : ∀ m ∈ numbers run.2.log, m = d.next := by
  cases h with
  | missing h => simp [numbers, entryOf]
  | refused hfound h => simp [numbers, entryOf, opening]
  | made hfound hfree hcreated =>
    intro m hm
    obtain ⟨e, he, hem⟩ := List.mem_filterMap.mp hm
    have hkeeps := conduct_keeps (s := s) (k := k) (alike_withEntry d.next d.next r) (entered s d)
    obtain he | he | rfl := hkeeps.mem_closed he
    · simp only [entered, opening, List.mem_append, List.mem_cons, List.not_mem_nil, or_false] at he
      obtain (rfl | rfl) | rfl := he
      · cases hem
      · cases hem
      · exact (Option.some.inj hem).symm
    · exact Option.some.inj (hem.symm.trans (entryOf_of_accesses he))
    · exact (Option.some.inj hem).symm

theorem refusal_of_reported {e : SystemError} (h : Reported s k r d run)
    (he : ⟨.create m, .error e⟩ ∈ run.2.log) : Refusal s k d m e := by
  cases h with
  | missing h => simp at he
  | @refused e' hfound h =>
    have hlast : m = d.next ∧ e = e' := by simpa [opening] using he
    obtain ⟨rfl, rfl⟩ := hlast
    exact h
  | made hfound hfree hcreated =>
    have hkeeps := conduct_keeps (s := s) (k := k) (alike_withEntry d.next d.next r) (entered s d)
    obtain he | he | he := hkeeps.mem_closed he
    · simp [entered, opening] at he
    · cases he
    · cases he

end alone

variable {total : Nat} {S : System}

/-- The calls do not mix. -/
structure Apart (s : Site) (k : Kernel) (d : Directory) (S : System) : Prop where
  /-- A call has its steps with one entry. -/
  own : ∀ c ∈ S.calls, ∀ n ∈ numbers c.log, ∀ m ∈ numbers c.log, n = m
  /-- Two calls have none of their steps with entries at the same path. -/
  paths : ∀ (i j : Nat) c c', S.calls[i]? = some c → S.calls[j]? = some c' → i ≠ j →
    ∀ n ∈ numbers c.log, ∀ m ∈ numbers c'.log, s.entryPath n ≠ s.entryPath m
  /-- An entry can be made unless there was one before the calls, or the kernel refuses to. -/
  creation : ∀ c ∈ S.calls, ∀ n e, ⟨.create n, .error e⟩ ∈ c.log → Refusal s k d n e
  /-- A call that has ended went as it does alone with its number. -/
  results : ∀ c ∈ S.calls, ∀ x, c.rest = .done x → ∃ n,
    (alone s k d n c.request).1 = x ∧ (alone s k d n c.request).2.log = c.log
  /-- It went as it does alone but for the name of an entry, if none has a name of the process. -/
  names : (∀ n, d.entries (s.entryPath n) = none) → ∀ c ∈ S.calls, ∀ x, c.rest = .done x →
    SameButName x (conduct s k (report s c.request) ⟨d, []⟩).1

theorem Stage.alone_log (h : Stage s k d now c) :
    (c.number = none ∧ numbers c.log = [] ∧ ∀ n r, (⟨.create n, r⟩ : Event) ∉ c.log) ∨
      ∃ n, c.number = some n ∧ c.log <+: (alone s k d n c.request).2.log := by
  cases h with
  | begun r => exact .inl ⟨rfl, rfl, nofun⟩
  | missing r h => exact .inl ⟨rfl, rfl, by simp⟩
  | looked r h => exact .inl ⟨rfl, rfl, by simp⟩
  | @numbered c T n b hn hrest hpath hrun =>
    have hprefix : c.log <+: (conduct s k c.rest ⟨T, c.log⟩).2.log :=
      log_prefix c.rest ⟨T, c.log⟩
    exact .inr ⟨n, hn, hrun ▸ hprefix⟩

theorem Stage.numbers (h : Stage s k d now c) :
    ∀ n ∈ numbers c.log, c.number = some n := by
  obtain ⟨-, hnone, -⟩ | ⟨m, hm, hlog⟩ := h.alone_log
  · rw [hnone]
    nofun
  · intro n hn
    have hmem : n ∈ ConcurrentReports.numbers (alone s k d m c.request).2.log :=
      (hlog.sublist.filterMap _).subset hn
    rw [numbers_of_reported (report_reported ..) n hmem]
    exact hm

theorem Stage.creation (h : Stage s k d now c) {n : UInt64} {e : SystemError}
    (he : ⟨.create n, .error e⟩ ∈ c.log) : Refusal s k d n e := by
  obtain ⟨-, -, hnone⟩ | ⟨m, hm, hlog⟩ := h.alone_log
  · exact absurd he (hnone n _)
  · have hrefusal := refusal_of_reported (report_reported ..) (hlog.subset he)
    cases hrefusal with
    | taken htaken => exact .taken htaken
    | failed h => exact .failed h

theorem Stage.result (h : Stage s k d now c) (hx : c.rest = .done x) :
    ∃ n, (alone s k d n c.request).1 = x ∧ (alone s k d n c.request).2.log = c.log := by
  cases h with
  | begun r => cases hx
  | missing r hd =>
    cases hx
    have halone : alone s k d d.next r = _ := conduct_missing hd
    exact ⟨d.next, by rw [halone], by rw [halone]⟩
  | looked r h => cases hx
  | numbered hn hrest hpath hrun =>
    rw [hx, conduct_done] at hrun
    exact ⟨_, by rw [← hrun], by rw [← hrun]⟩

theorem apart_of_coupled (h : Coupled s k d total S) : Apart s k d S where
  own c hc n hn m hm := by
    obtain ⟨i, hi⟩ := List.mem_iff_getElem?.mp hc
    have hstage := (h.stages i c hi).numbers
    exact Option.some.inj ((hstage n hn).symm.trans (hstage m hm))
  paths i j c c' hi hj hne n hn m hm :=
    entryPath_ne (h.distinct i j c c' hi hj hne n ((h.stages i c hi).numbers n hn) m
      ((h.stages j c' hj).numbers m hm))
  creation c hc n e he := by
    obtain ⟨i, hi⟩ := List.mem_iff_getElem?.mp hc
    exact (h.stages i c hi).creation he
  results c hc x hx := by
    obtain ⟨i, hi⟩ := List.mem_iff_getElem?.mp hc
    exact (h.stages i c hi).result hx
  names hfree c hc x hx := by
    obtain ⟨i, hi⟩ := List.mem_iff_getElem?.mp hc
    obtain ⟨n, rfl, -⟩ := (h.stages i c hi).result hx
    exact sameButName_of_reported (m := d.next) hfree (report_reported ..) (report_reported ..)

theorem requests_step (s : Site) (k : Kernel) (S : System) (i : Nat) :
    (step s k S i).calls.map (·.request) = S.calls.map (·.request) := by
  unfold step
  split
  · rfl
  · rename_i c hi
    obtain ⟨hlt, rfl⟩ := List.getElem?_eq_some_iff.mp hi
    have hrequest : (S.calls[i].advance s k S.directory).1.request = S.calls[i].request := by
      unfold Call.advance
      split <;> rfl
    have hlt' : i < (S.calls.map (·.request)).length := by rwa [List.length_map]
    have hmap : (S.calls.map (·.request))[i] = S.calls[i].request := List.getElem_map ..
    rw [List.map_set, hrequest, ← hmap, List.set_getElem_self]

theorem requests_run (s : Site) (k : Kernel) (S : System) (schedule : List Nat) :
    (run s k S schedule).calls.map (·.request) = S.calls.map (·.request) := by
  induction schedule generalizing S with
  | nil => rfl
  | cons i schedule ih => exact (ih _).trans (requests_step s k S i)

theorem asks_advance {P : Action → Prop} {b : Nat} (h : Asks P b c.rest) (now : Directory) :
    Asks P (b - 1) (c.advance s k now).1.rest := by
  obtain ⟨request, rest, log⟩ := c
  cases h with
  | done b a => exact .done (b - 1) a
  | ask hq h => exact h _

theorem asks_step {b i : Nat} (h : ∀ c, S.calls[i]? = some c → Asks (fun _ => True) b c.rest)
    (j : Nat) (hi : (step s k S j).calls[i]? = some c) :
    Asks (fun _ => True) (b - [j].count i) c.rest := by
  unfold step at hi
  by_cases hj : j = i
  · subst j
    rw [List.count_singleton_self]
    split at hi
    · rename_i hnone
      cases hnone.symm.trans hi
    · rename_i c' hc'
      have hlt := (List.getElem?_eq_some_iff.mp hc').1
      cases (List.getElem?_set_self hlt).symm.trans hi
      exact asks_advance (h c' hc') _
  · rw [List.count_singleton, beq_false_of_ne hj]
    split at hi
    · exact h c hi
    · exact h c ((List.getElem?_set_ne hj).symm.trans hi)

theorem asks_run {b i : Nat} (h : ∀ c, S.calls[i]? = some c → Asks (fun _ => True) b c.rest)
    (schedule : List Nat) (hi : (run s k S schedule).calls[i]? = some c) :
    Asks (fun _ => True) (b - schedule.count i) c.rest := by
  induction schedule generalizing S b with
  | nil => exact h c hi
  | cons j schedule ih =>
    have hstep := ih (fun c hc => asks_step h j hc) hi
    rw [Nat.sub_sub, ← List.count_append] at hstep
    exact hstep

/-- The calls that one process makes at the same time do not mix, whatever the order of their
steps. Each has ended once it has taken the steps of a report. -/
theorem reports_apart (s : Site) (k : Kernel) (d : Directory) (requests : List ReportRequest)
    (schedule : List Nat) (hroom : d.next.toNat + requests.length < UInt64.size) :
    (run s k (start s d requests) schedule).calls.map (·.request) = requests ∧
      Apart s k d (run s k (start s d requests) schedule) ∧
      ∀ i c, (run s k (start s d requests) schedule).calls[i]? = some c →
        13 ≤ schedule.count i → ∃ x, c.rest = .done x := by
  refine ⟨(requests_run s k _ schedule).trans ?_,
    apart_of_coupled (coupled_run (coupled_start s k d requests) hroom schedule),
    fun i c hi hcount => ?_⟩
  · rw [start, List.map_map]
    exact List.map_id requests
  · have hstart : ∀ c, (start s d requests).calls[i]? = some c →
        Asks (fun _ => True) 13 c.rest := by
      intro c hc
      obtain ⟨r, -, rfl⟩ := List.mem_map.mp (List.mem_of_getElem? hc)
      exact asks_report r
    have hleft := asks_run hstart schedule hi
    rw [Nat.sub_eq_zero_of_le hcount] at hleft
    exact hleft.of_zero

/-- A kernel whose reports say what was written into them. -/
def echoing : Kernel where
  created := .ok ()
  written _ _ _ := .ok ()
  held seen a :=
    match a with
    | .outblob => .ok (seen.flatMap fun
      | .write .inblob value => value
      | _ => [])
    | .generation => .ok [0x31]
    | .provider => .ok [0x70]
    | _ => .error .notFound

/-- The report that a call has ended with. -/
def Call.report? (c : Call) : Option Report :=
  match c.rest with
  | .done x => x.toOption
  | .ask _ _ => none

/-- Two calls take turns until both have ended, each with the report that it was made for. -/
theorem two_reports_apart :
    let s : Site := ⟨"/tmp", 1⟩
    let d : Directory := ⟨true, 0, fun _ => none⟩
    let S := run s echoing (start s d [⟨[1], 0, false⟩, ⟨[2], 1, true⟩])
      ((List.range 26).map (· % 2))
    Apart s echoing d S ∧
      S.calls.map Call.report? =
        [some ⟨"p", none, [1], [], none⟩, some ⟨"p", none, [2], [], none⟩] ∧
      ∀ c ∈ S.calls, ∃ x, c.rest = .done x ∧
        SameButName x (conduct s echoing (report s c.request) ⟨d, []⟩).1 := by
  intro s d S
  obtain ⟨hrequests, hapart, hended⟩ := reports_apart s echoing d
    [⟨[1], 0, false⟩, ⟨[2], 1, true⟩] ((List.range 26).map (· % 2)) (by decide)
  refine ⟨hapart, by decide +kernel, fun c hc => ?_⟩
  obtain ⟨i, hi⟩ := List.mem_iff_getElem?.mp hc
  have hlt : i < 2 := by
    have hlength : S.calls.length = 2 := by
      rw [← List.length_map, hrequests]
      rfl
    exact hlength ▸ (List.getElem?_eq_some_iff.mp hi).1
  have hcount : ∀ i < 2, 13 ≤ ((List.range 26).map (· % 2)).count i := by decide
  obtain ⟨x, hx⟩ := hended i c hi (hcount i hlt)
  exact ⟨x, hx, hapart.names (fun _ => rfl) c hc x hx⟩

end results

end Attestation.Proofs.ConcurrentReports
