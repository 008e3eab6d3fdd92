import Attestation.Proofs.EntryExchanges
import Mathlib.Logic.Function.Basic

namespace Attestation.Proofs.KernelEntries

open Tsm Tsm.Configfs Tsm.Configfs.Exchange Worlds ReportExchanges EntryExchanges

/-- A step with an attribute of an entry. -/
inductive Access where
  | write (a : Attribute) (value : List UInt8)
  | read (a : Attribute)
  deriving Repr, DecidableEq

/-- What the kernel does, after the accesses that an entry has seen. -/
structure Kernel where
  created : Except SystemError Unit
  written (seen : List Access) (a : Attribute) (value : List UInt8) : Except SystemError Unit
  held (seen : List Access) (a : Attribute) : Except SystemError (List UInt8)

/-- The directory, and the number that the process takes next. -/
structure Directory where
  found : Bool
  next : UInt64
  /-- The accesses that the entry at a path has seen, if there is one. -/
  entries : String → Option (List Access)

def fileExists : SystemError := ⟨17⟩

def Directory.put (d : Directory) (path : String) (seen : Option (List Access)) : Directory :=
  { d with entries := Function.update d.entries path seen }

variable (s : Site) (k : Kernel)

def perform (d : Directory) : (q : Action) → q.Reply × Directory
  | .look => (d.found, d)
  | .take => (d.next, { d with next := d.next + 1 })
  | .create n =>
    match d.entries (s.entryPath n), k.created with
    | some _, _ => (.error fileExists, d)
    | none, .error e => (.error e, d)
    | none, .ok () => (.ok (), d.put (s.entryPath n) (some []))
  | .write n a value =>
    match d.entries (s.entryPath n) with
    | some seen => (k.written seen a value, d.put (s.entryPath n) (some (seen ++ [.write a value])))
    | none => (.error .notFound, d)
  | .read n a =>
    match d.entries (s.entryPath n) with
    | some seen => (k.held seen a, d.put (s.entryPath n) (some (seen ++ [.read a])))
    | none => (.error .notFound, d)
  | .remove n => ((), d.put (s.entryPath n) none)

structure Scene where
  directory : Directory
  log : List Event

def Scene.reply (c : Scene) (q : Action) : q.Reply := (perform s k c.directory q).1

def Scene.after (c : Scene) (q : Action) : Scene :=
  ⟨(perform s k c.directory q).2, c.log ++ [⟨q, c.reply s k q⟩]⟩

/-- The result of an exchange that nothing interrupts, and what is behind it. -/
def conduct {α : Type} (x : Exchange α) (c : Scene) : α × Scene :=
  (x.run (m := StateM Scene) fun q c => (c.reply s k q, c.after s k q)).run c

variable {s k} {α β : Type} {d d' : Directory} {c : Scene} {n m : UInt64}

@[simp] theorem conduct_done (a : α) : conduct s k (.done a) c = (a, c) := rfl

theorem conduct_ask (q : Action) (next : q.Reply → Exchange α) :
    conduct s k (.ask q next) c = conduct s k (next (c.reply s k q)) (c.after s k q) := rfl

theorem conduct_bind (x : Exchange α) (f : α → Exchange β) :
    conduct s k (x >>= f) c = conduct s k (f (conduct s k x c).1) (conduct s k x c).2 := by
  induction x generalizing c with
  | done a => rfl
  | ask q next ih => exact ih _

section paths

theorem entryPath_injective (s : Site) : Function.Injective s.entryPath := by
  intro n m h
  unfold Site.entryPath at h
  simp only [toString] at h
  have hrepr := (String.append_right_inj _).mp h
  rw [Nat.repr_eq_ofList_toDigits, Nat.repr_eq_ofList_toDigits, String.ofList_inj] at hrepr
  have hnat := congrArg (Nat.ofDigitChars 10 · 0) hrepr
  simp only [Nat.ofDigitChars_ten_toDigits] at hnat
  exact UInt64.toNat_inj.mp hnat

theorem entryPath_ne {s : Site} (h : n ≠ m) : s.entryPath n ≠ s.entryPath m :=
  (entryPath_injective s).ne h

@[simp] theorem put_self (path : String) (seen : Option (List Access)) :
    (d.put path seen).entries path = seen := Function.update_self ..

theorem put_of_ne {path other : String} (h : other ≠ path) (seen : Option (List Access)) :
    (d.put path seen).entries other = d.entries other := Function.update_of_ne h ..

end paths

section steps

def entryOf : Action → Option UInt64
  | .look | .take => none
  | .create n | .write n _ _ | .read n _ | .remove n => some n

theorem perform_elsewhere {q : Action} {path : String}
    (h : ∀ n ∈ entryOf q, path ≠ s.entryPath n) :
    (perform s k d q).2.entries path = d.entries path := by
  cases q with
  | look | take => rfl
  | create n =>
    simp only [perform]
    split
    · rfl
    · rfl
    · exact put_of_ne (h n rfl) _
  | write n a value | read n a =>
    simp only [perform]
    split
    · exact put_of_ne (h n rfl) _
    · rfl
  | remove n => exact put_of_ne (h n rfl) _

theorem perform_found (q : Action) : (perform s k d q).2.found = d.found := by
  cases q with
  | look | take | remove n => rfl
  | create n | write n a value | read n a =>
    simp only [perform]
    split <;> rfl

theorem perform_next {q : Action} (h : q ≠ .take) : (perform s k d q).2.next = d.next := by
  cases q with
  | take => exact absurd rfl h
  | look | remove n => rfl
  | create n | write n a value | read n a =>
    simp only [perform]
    split <;> rfl

end steps

section exchanges

/-- Two exchanges that write and read the same, each in an entry of its own, at most so often. -/
inductive Alike (n m : UInt64) {α : Type} : Nat → Exchange α → Exchange α → Prop
  | done (b : Nat) (a : α) : Alike n m b (.done a) (.done a)
  | write {b : Nat} {a : Attribute} {value : List UInt8}
      {f g : Except SystemError Unit → Exchange α} (h : ∀ r, Alike n m b (f r) (g r)) :
      Alike n m (b + 1) (.ask (.write n a value) f) (.ask (.write m a value) g)
  | read {b : Nat} {a : Attribute} {f g : Except SystemError (List UInt8) → Exchange α}
      (h : ∀ r, Alike n m b (f r) (g r)) :
      Alike n m (b + 1) (.ask (.read n a) f) (.ask (.read m a) g)

namespace Alike

theorem mono {b b' : Nat} {x y : Exchange α} (h : Alike n m b x y) (hb : b ≤ b') :
    Alike n m b' x y := by
  induction h generalizing b' with
  | done b a => exact .done b' a
  | write h ih =>
    obtain ⟨b', rfl⟩ := Nat.exists_eq_add_of_lt hb
    exact .write fun r => ih r (by omega)
  | read h ih =>
    obtain ⟨b', rfl⟩ := Nat.exists_eq_add_of_lt hb
    exact .read fun r => ih r (by omega)

theorem bind {b b' : Nat} {x y : Exchange α} {f g : α → Exchange β} (h : Alike n m b x y)
    (hf : ∀ a, Alike n m b' (f a) (g a)) : Alike n m (b + b') (x >>= f) (y >>= g) := by
  induction h with
  | done b a => exact (hf a).mono (Nat.le_add_left b' b)
  | write h ih =>
    rw [Nat.add_right_comm]
    exact .write ih
  | read h ih =>
    rw [Nat.add_right_comm]
    exact .read ih

theorem part_bind {b c : Nat} {x y : Step α} {f g : α → Step β} (h : Alike n m b x.run y.run)
    (hf : ∀ a, Alike n m c (f a).run (g a).run) :
    Alike n m (b + c) (x >>= f).run (y >>= g).run := by
  refine h.bind fun result => ?_
  cases result with
  | ok a => exact hf a
  | error e => exact .done c (Except.error e)

end Alike

theorem alike_writeAttribute (a : Attribute) (value : List UInt8) :
    Alike n m 1 (writeAttribute n a value).run (writeAttribute m a value).run := by
  refine .write fun reply => ?_
  cases reply <;> exact .done 0 _

theorem alike_readAttribute (a : Attribute) :
    Alike n m 1 (readAttribute n a).run (readAttribute m a).run := by
  refine .read fun reply => ?_
  cases reply <;> exact .done 0 _

theorem alike_readOptional (a : Attribute) :
    Alike n m 1 (readOptional n a).run (readOptional m a).run := by
  refine .read fun reply => ?_
  cases reply <;> exact .done 0 _

theorem alike_readGeneration : Alike n m 1 (readGeneration n).run (readGeneration m).run :=
  (alike_readAttribute .generation).part_bind fun value => .done 0 (generationOf value)

theorem alike_writeLevel (r : ReportRequest) :
    Alike n m 1 (writeLevel n r).run (writeLevel m r).run := by
  unfold writeLevel
  split
  · exact alike_writeAttribute _ _
  · exact .done 1 _

theorem alike_readAux (r : ReportRequest) : Alike n m 1 (readAux n r).run (readAux m r).run := by
  unfold readAux
  split
  · exact alike_readOptional _
  · exact .done 1 _

theorem alike_conclude (expected got : UInt64) (report : Report) :
    Alike n m 0 (conclude expected got report).run (conclude expected got report).run := by
  unfold conclude
  split <;> exact .done 0 _

theorem alike_withEntry (n m : UInt64) (r : ReportRequest) :
    Alike n m 9 (withEntry n r).run (withEntry m r).run := by
  rw [withEntry_eq, withEntry_eq]
  refine (alike_writeLevel r).part_bind (c := 8) fun () => ?_
  refine (alike_writeAttribute _ _).part_bind (c := 7) fun () => ?_
  refine alike_readGeneration.part_bind (c := 6) fun expected => ?_
  refine (alike_readAttribute _).part_bind (c := 5) fun outBlob => ?_
  refine (alike_readAux r).part_bind (c := 4) fun auxBlob => ?_
  refine (alike_readOptional _).part_bind (c := 3) fun manifestBlob => ?_
  refine (alike_readAttribute _).part_bind (c := 2) fun provider => ?_
  refine (alike_readOptional _).part_bind (c := 1) fun serviceProvider => ?_
  exact alike_readGeneration.part_bind fun got => alike_conclude _ _ _

end exchanges

section courses

variable {b : Nat} {x y : Exchange α}

/-- Exchanges that are alike have the same result, whatever else is in the directories. -/
theorem conduct_alike {c c' : Scene} (h : Alike n m b x y)
    (hd : c.directory.entries (s.entryPath n) = c'.directory.entries (s.entryPath m)) :
    (conduct s k x c).1 = (conduct s k y c').1 := by
  induction h generalizing c c' with
  | done b a => rfl
  | @write b a value f g h ih =>
    rw [conduct_ask, conduct_ask]
    simp only [Scene.reply, Scene.after, perform, ← hd]
    cases hn : c.directory.entries (s.entryPath n) with
    | some seen => exact ih _ (by simp)
    | none => exact ih _ hd
  | @read b a f g h ih =>
    rw [conduct_ask, conduct_ask]
    simp only [Scene.reply, Scene.after, perform, ← hd]
    cases hn : c.directory.entries (s.entryPath n) with
    | some seen => exact ih _ (by simp)
    | none => exact ih _ hd

inductive Accesses (n : UInt64) : Action → Prop
  | write (a : Attribute) (value : List UInt8) : Accesses n (.write n a value)
  | read (a : Attribute) : Accesses n (.read n a)

theorem entryOf_of_accesses {q : Action} (h : Accesses n q) : entryOf q = some n := by
  cases h <;> rfl

/-- There are only steps with the attributes of an entry in between, and no other entry changes. -/
structure Keeps (s : Site) (n : UInt64) (c c' : Scene) : Prop where
  log : ∃ more, c'.log = c.log ++ more ∧ ∀ e ∈ more, Accesses n e.question
  elsewhere : ∀ path ≠ s.entryPath n, c'.directory.entries path = c.directory.entries path

theorem Keeps.ask {c c' : Scene} {q : Action} (hq : Accesses n q)
    (h : Keeps s n (c.after s k q) c') : Keeps s n c c' where
  log := by
    obtain ⟨more, hlog, hmore⟩ := h.log
    refine ⟨⟨q, c.reply s k q⟩ :: more, ?_, List.forall_mem_cons.mpr ⟨hq, hmore⟩⟩
    rw [hlog, Scene.after, List.append_assoc, List.singleton_append]
  elsewhere path hne := by
    rw [h.elsewhere path hne]
    refine perform_elsewhere fun m hm => ?_
    rw [entryOf_of_accesses hq] at hm
    cases hm
    exact hne

theorem conduct_keeps (h : Alike n m b x y) (c : Scene) : Keeps s n c (conduct s k x c).2 := by
  induction h generalizing c with
  | done b a => exact ⟨⟨[], (List.append_nil _).symm, nofun⟩, fun _ _ => rfl⟩
  | write h ih => exact (ih _ _).ask (.write _ _)
  | read h ih => exact (ih _ _).ask (.read _)

end courses

section reports

variable {r : ReportRequest}

inductive Refusal (s : Site) (k : Kernel) (d : Directory) (n : UInt64) : SystemError → Prop
  | taken {seen : List Access} (h : d.entries (s.entryPath n) = some seen) :
      Refusal s k d n fileExists
  | failed {e : SystemError} (h : k.created = .error e) : Refusal s k d n e

theorem Refusal.failed_of_free {e : SystemError} (h : Refusal s k d n e)
    (hfree : d.entries (s.entryPath n) = none) : k.created = .error e := by
  cases h with
  | taken htaken => cases hfree.symm.trans htaken
  | failed h => exact h

def opening (d : Directory) : Scene :=
  ⟨{ d with next := d.next + 1 }, [⟨.look, true⟩, ⟨.take, d.next⟩]⟩

def entered (s : Site) (d : Directory) : Scene :=
  ⟨(opening d).directory.put (s.entryPath d.next) (some []),
    (opening d).log ++ [⟨.create d.next, .ok ()⟩]⟩

def closed (s : Site) (n : UInt64) (c : Scene) : Scene :=
  ⟨c.directory.put (s.entryPath n) none, c.log ++ [⟨.remove n, ()⟩]⟩

/-- The ways in which a report can go, alone in a directory. -/
inductive Reported (s : Site) (k : Kernel) (r : ReportRequest) (d : Directory) :
    Except Error Report × Scene → Prop
  | missing (h : d.found = false) :
      Reported s k r d (.error (.unavailable s.root), ⟨d, [⟨.look, false⟩]⟩)
  | refused {e : SystemError} (hfound : d.found = true) (h : Refusal s k d d.next e) :
      Reported s k r d (.error (.createEntry (s.entryPath d.next) e.text),
        ⟨(opening d).directory, (opening d).log ++ [⟨.create d.next, .error e⟩]⟩)
  | made (hfound : d.found = true) (hfree : d.entries (s.entryPath d.next) = none)
      (hcreated : k.created = .ok ()) :
      Reported s k r d ((conduct s k (withEntry d.next r).run (entered s d)).1,
        closed s d.next (conduct s k (withEntry d.next r).run (entered s d)).2)

theorem conduct_missing (hfound : d.found = false) : conduct s k (report s r) ⟨d, []⟩ =
    (.error (.unavailable s.root), ⟨d, [⟨.look, false⟩]⟩) := by
  have hlook : Scene.reply s k ⟨d, []⟩ .look = false := hfound
  rw [report_eq, conduct_ask, Scene.after, hlook]
  rfl

theorem conduct_found (hfound : d.found = true) : conduct s k (report s r) ⟨d, []⟩ =
    conduct s k (.ask (.create d.next) (onceMade s r d.next)) (opening d) := by
  have hlook : Scene.reply s k ⟨d, []⟩ .look = true := hfound
  rw [report_eq, conduct_ask, Scene.after, hlook]
  rfl

theorem report_reported (s : Site) (k : Kernel) (r : ReportRequest) (d : Directory) :
    Reported s k r d (conduct s k (report s r) ⟨d, []⟩) := by
  cases hfound : d.found with
  | false =>
    rw [conduct_missing hfound]
    exact .missing hfound
  | true =>
    have hcreate : (opening d).directory.entries (s.entryPath d.next) =
      d.entries (s.entryPath d.next) := rfl
    rw [conduct_found hfound, conduct_ask]
    cases hfree : d.entries (s.entryPath d.next) with
    | some seen =>
      simp only [Scene.after, Scene.reply, perform, hcreate, hfree]
      exact .refused hfound (.taken hfree)
    | none =>
      cases hcreated : k.created with
      | error e =>
        simp only [Scene.after, Scene.reply, perform, hcreate, hfree, hcreated]
        exact .refused hfound (.failed hcreated)
      | ok =>
        simp only [Scene.after, Scene.reply, perform, hcreate, hfree, hcreated]
        rw [onceMade, conduct_bind, conduct_ask]
        exact .made hfound hfree hcreated

end reports

section traces

def creates (n : UInt64) : Event → Bool
  | ⟨.create m, .ok ()⟩ => m == n
  | _ => false

def removes (n : UInt64) : Event → Bool
  | ⟨.remove m, ()⟩ => m == n
  | _ => false

/-- What is behind a run that leaves the directory as it was. -/
structure Traceless (s : Site) (d : Directory) (c : Scene) : Prop where
  /-- The same entries are there, and they have seen nothing. -/
  entries : c.directory.entries = d.entries
  /-- Only an entry that was not there is written and read. -/
  accesses : ∀ e ∈ c.log, ∀ n, Accesses n e.question → d.entries (s.entryPath n) = none
  /-- Every entry that is made is removed once, and nothing else is. -/
  removals : ∀ n, c.log.countP (removes n) = c.log.countP (creates n)
  /-- Without an entry nothing is written, read or removed. -/
  refused : ∀ n e, ⟨.create n, .error e⟩ ∈ c.log →
    ∀ event ∈ c.log, event.question ∈ [.look, .take, .create n]

theorem countP_accesses {p : Event → Bool} {log : List Event}
    (h : ∀ e ∈ log, Accesses n e.question) (hp : ∀ q r, Accesses n q → p ⟨q, r⟩ = false) :
    log.countP p = 0 :=
  List.countP_eq_zero.mpr fun e he => Bool.not_eq_true _ ▸ hp e.question e.reply (h e he)

theorem creates_of_accesses (m : UInt64) (q : Action) (r : q.Reply) (h : Accesses n q) :
    creates m ⟨q, r⟩ = false := by
  cases h <;> rfl

theorem removes_of_accesses (m : UInt64) (q : Action) (r : q.Reply) (h : Accesses n q) :
    removes m ⟨q, r⟩ = false := by
  cases h <;> rfl

theorem traceless_of_idle {c : Scene} (he : c.directory.entries = d.entries)
    (hlog : ∀ n, ∀ e ∈ c.log, creates n e = false ∧ removes n e = false)
    (hidle : ∃ n, ∀ e ∈ c.log, e.question ∈ [.look, .take, .create n]) : Traceless s d c := by
  obtain ⟨n, hn⟩ := hidle
  refine ⟨he, fun e hmem m hm => ?_, fun m => ?_, fun m e hmem => ?_⟩
  · have hq := hn e hmem
    generalize e.question = q at hm hq
    cases hm <;> simp at hq
  · rw [List.countP_eq_zero.mpr fun e hmem => Bool.not_eq_true _ ▸ (hlog m e hmem).2,
      List.countP_eq_zero.mpr fun e hmem => Bool.not_eq_true _ ▸ (hlog m e hmem).1]
  · have hm : (Action.create m) ∈ [Action.look, .take, .create n] := hn _ hmem
    simp only [List.mem_cons, reduceCtorEq, Action.create.injEq, List.not_mem_nil, or_false,
      false_or] at hm
    rw [hm]
    exact hn

theorem Keeps.closed_log {c : Scene} (h : Keeps s d.next (entered s d) c) :
    ∃ more, (closed s d.next c).log = (entered s d).log ++ (more ++ [⟨.remove d.next, ()⟩]) ∧
      ∀ e ∈ more, Accesses d.next e.question := by
  obtain ⟨more, hlog, hmore⟩ := h.log
  exact ⟨more, by rw [closed, hlog, List.append_assoc], hmore⟩

theorem Keeps.mem_closed {c : Scene} (h : Keeps s d.next (entered s d) c) {e : Event}
    (he : e ∈ (closed s d.next c).log) :
    e ∈ (entered s d).log ∨ Accesses d.next e.question ∨ e = ⟨.remove d.next, ()⟩ := by
  obtain ⟨more, hclosed, hmore⟩ := h.closed_log
  rw [hclosed, List.mem_append, List.mem_append, List.mem_singleton] at he
  exact he.imp_right (Or.imp_left (hmore e))

theorem traceless_of_closed {c : Scene} (hfree : d.entries (s.entryPath d.next) = none)
    (h : Keeps s d.next (entered s d) c) : Traceless s d (closed s d.next c) := by
  refine ⟨?_, fun e he m hm => ?_, fun m => ?_, fun m e he => ?_⟩
  · funext path
    by_cases hpath : path = s.entryPath d.next
    · rw [hpath, hfree]
      exact put_self ..
    · exact (put_of_ne hpath _).trans ((h.elsewhere path hpath).trans (put_of_ne hpath _))
  · obtain he | he | rfl := h.mem_closed he
    · simp only [entered, opening, List.mem_append, List.mem_cons, List.not_mem_nil, or_false] at he
      obtain (rfl | rfl) | rfl := he <;> cases hm
    · cases (entryOf_of_accesses he).symm.trans (entryOf_of_accesses hm)
      exact hfree
    · cases hm
  · obtain ⟨more, hclosed, hmore⟩ := h.closed_log
    rw [hclosed, List.countP_append, List.countP_append, List.countP_append, List.countP_append,
      countP_accesses hmore (creates_of_accesses m), countP_accesses hmore (removes_of_accesses m)]
    simp [entered, opening, List.countP_cons, creates, removes]
  · obtain he | he | he := h.mem_closed he
    · simp [entered, opening] at he
    · cases he
    · cases he

theorem traceless_of_reported {r : ReportRequest} {run : Except Error Report × Scene}
    (h : Reported s k r d run) : Traceless s d run.2 := by
  cases h with
  | missing h => exact traceless_of_idle rfl (by simp [creates, removes]) ⟨0, by simp⟩
  | refused hfound h =>
    exact traceless_of_idle rfl (by simp [opening, creates, removes])
      ⟨d.next, by simp [opening]⟩
  | made hfound hfree hcreated =>
    exact traceless_of_closed hfree (conduct_keeps (alike_withEntry d.next d.next r) _)

/-- A report leaves no trace in the directory, however it ends. -/
theorem report_traceless (s : Site) (k : Kernel) (r : ReportRequest) (d : Directory) :
    Traceless s d (conduct s k (report s r) ⟨d, []⟩).2 :=
  traceless_of_reported (report_reported s k r d)

end traces

end Attestation.Proofs.KernelEntries
