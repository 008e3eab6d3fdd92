import Attestation.Proofs.ReportExchanges
import Attestation.Proofs.Utf8Encoding

namespace Attestation.Proofs.Interference

open Tsm Tsm.Configfs Worlds ReportExchanges Numerals Utf8Encoding
open Exchange (generationOf)
open Text.Utf8 (encode decodeLossy)

/-- An entry, as the kernel keeps it. -/
structure Entry where
  inblob : List UInt8
  privlevel : List UInt8
  generation : Nat
  deriving Repr, DecidableEq

namespace Entry

def fresh : Entry := ⟨[], encode "0", 0⟩

def write (e : Entry) (a : Attribute) (value : List UInt8) : Entry :=
  match a with
  | .inblob => ⟨value, e.privlevel, e.generation + 1⟩
  | .privlevel => ⟨e.inblob, value, e.generation + 1⟩
  | _ => ⟨e.inblob, e.privlevel, e.generation + 1⟩

@[simp] theorem write_generation (e : Entry) (a : Attribute) (value : List UInt8) :
    (e.write a value).generation = e.generation + 1 := by
  cases a <;> rfl

/-- What its attribute `generation` holds. -/
def shown (e : Entry) : List UInt8 := encode (toString e.generation ++ "\n")

end Entry

abbrev Directory := UInt64 → Option Entry

namespace Directory

def set (d : Directory) (n : UInt64) (e : Option Entry) : Directory :=
  fun m => if m = n then e else d m

def write (d : Directory) (n : UInt64) (a : Attribute) (value : List UInt8) : Directory :=
  d.set n ((d n).map (·.write a value))

end Directory

/-- A step of the exchange, or what somebody else writes. -/
inductive Occurrence where
  | own (e : Event)
  | foreign (n : UInt64) (a : Attribute) (value : List UInt8)

/-- The directory behind an occurrence. -/
def next (d : Directory) : Occurrence → Directory
  | .own ⟨.create n, .ok ()⟩ => d.set n (some .fresh)
  | .own ⟨.write n a value, .ok ()⟩ => d.write n a value
  | .own ⟨.remove n, ()⟩ => d.set n none
  | .foreign n a value => d.write n a value
  | _ => d

/-- What can happen to a directory. Any step may fail, but what is read is what the kernel has:
the answer to the request that stands there, by `quote`, and the count of the writes. -/
def Possible (quote : List UInt8 → List UInt8 → List UInt8) (d : Directory) : Occurrence → Prop
  | .own ⟨.create n, .ok ()⟩ => d n = none
  | .own ⟨.write n _ _, .ok ()⟩ => ∃ e, d n = some e
  | .own ⟨.read n .generation, .ok value⟩ => ∃ e, d n = some e ∧ value = e.shown
  | .own ⟨.read n .outblob, .ok value⟩ => ∃ e, d n = some e ∧ value = quote e.inblob e.privlevel
  | .own ⟨.read n _, .ok _⟩ => ∃ e, d n = some e
  | .foreign n _ _ => ∃ e, d n = some e
  | _ => True

/-- A log that the kernel can bring about. -/
def Faithful (quote : List UInt8 → List UInt8 → List UInt8) : Directory → List Occurrence → Prop
  | _, [] => True
  | d, o :: log => Possible quote d o ∧ Faithful quote (next d o) log

/-- The directory behind a log. -/
def after (d : Directory) (log : List Occurrence) : Directory := log.foldl next d

def own (log : List Occurrence) : List Event :=
  log.filterMap fun
    | .own e => some e
    | .foreign _ _ _ => none

variable {quote : List UInt8 → List UInt8 → List UInt8} {d : Directory} {n : UInt64}

theorem after_append (d : Directory) (log more : List Occurrence) :
    after d (log ++ more) = after (after d log) more := List.foldl_append

theorem faithful_append {log more : List Occurrence} :
    Faithful quote d (log ++ more) ↔ Faithful quote d log ∧ Faithful quote (after d log) more := by
  induction log generalizing d with
  | nil => exact (and_iff_right trivial).symm
  | cons o log ih =>
    rw [List.cons_append, Faithful, Faithful, ih, and_assoc]
    rfl

theorem own_eq_append_cons {log : List Occurrence} {e : Event} {steps more : List Event}
    (h : own log = steps ++ e :: more) :
    ∃ before behind, log = before ++ .own e :: behind ∧ own before = steps ∧ own behind = more := by
  obtain ⟨before, rest, rfl, hbefore, hrest⟩ := List.filterMap_eq_append_iff.mp h
  obtain ⟨foreign, o, behind, rfl, hforeign, ho, hbehind⟩ := List.filterMap_eq_cons_iff.mp hrest
  refine ⟨before ++ foreign, behind, ?_, ?_, hbehind⟩
  · cases o with
    | own e' =>
      cases ho
      rw [List.append_assoc]
    | foreign n a value => cases ho
  · rw [own, List.filterMap_append, List.filterMap_eq_nil_iff.mpr hforeign, List.append_nil]
    exact hbefore

def writesTo (n : UInt64) : Occurrence → Bool
  | .own ⟨.write m _ _, .ok ()⟩ | .foreign m _ _ => m == n
  | _ => false

def Keeps (n : UInt64) : Occurrence → Prop
  | .own ⟨.create m, _⟩ => m ≠ n
  | .own ⟨.remove m, _⟩ => m ≠ n
  | _ => True

theorem write_self {e : Entry} (h : d n = some e) (a : Attribute) (value : List UInt8) :
    d.write n a value n = some (e.write a value) := by
  simp [Directory.write, Directory.set, h]

theorem write_other {m : UInt64} (h : m ≠ n) (d : Directory) (a : Attribute) (value : List UInt8) :
    d.write m a value n = d n := if_neg h.symm

theorem next_kept {o : Occurrence} {e : Entry} (ho : Keeps n o) (h : d n = some e) :
    ∃ e', next d o n = some e' ∧ e'.generation = e.generation + (writesTo n o).toNat ∧
      (writesTo n o = false → e' = e) := by
  have hwrite : ∀ m a value, ∃ e', d.write m a value n = some e' ∧
      e'.generation = e.generation + (m == n).toNat ∧ ((m == n) = false → e' = e) := by
    intro m a value
    by_cases hm : m = n
    · subst m
      exact ⟨_, write_self h a value, by simp, by simp⟩
    · rw [write_other hm, beq_eq_false_iff_ne.mpr hm]
      exact ⟨e, h, rfl, fun _ => rfl⟩
  have hsame : ∃ e', d n = some e' ∧ e'.generation = e.generation + 0 ∧ (false = false → e' = e) :=
    ⟨e, h, rfl, fun _ => rfl⟩
  cases o with
  | foreign m a value => exact hwrite m a value
  | own event =>
    obtain ⟨q, reply⟩ := event
    cases q with
    | look | take | read _ _ => exact hsame
    | write m a value =>
      cases reply with
      | ok _ => exact hwrite m a value
      | error _ => exact hsame
    | create m =>
      cases reply with
      | ok _ => exact ⟨e, (if_neg (Ne.symm ho)).trans h, rfl, fun _ => rfl⟩
      | error _ => exact hsame
    | remove m => exact ⟨e, (if_neg (Ne.symm ho)).trans h, rfl, fun _ => rfl⟩

theorem after_kept {log : List Occurrence} {e : Entry} (hlog : ∀ o ∈ log, Keeps n o)
    (h : d n = some e) :
    ∃ e', after d log n = some e' ∧ e'.generation = e.generation + log.countP (writesTo n) ∧
      (log.countP (writesTo n) = 0 → e' = e) := by
  induction log generalizing d e with
  | nil => exact ⟨e, h, rfl, fun _ => rfl⟩
  | cons o log ih =>
    obtain ⟨e₁, h₁, hg₁, hsame₁⟩ := next_kept (hlog o List.mem_cons_self) h
    obtain ⟨e₂, h₂, hg₂, hsame₂⟩ := ih (fun o' ho' => hlog o' (List.mem_cons_of_mem _ ho')) h₁
    refine ⟨e₂, h₂, ?_, ?_⟩
    · rw [hg₂, hg₁, List.countP_cons]
      cases writesTo n o with
      | false => simp
      | true =>
        simp
        omega
    · intro hnone
      rw [List.countP_cons] at hnone
      have ho : writesTo n o = false := by
        cases hw : writesTo n o with
        | false => rfl
        | true => simp [hw] at hnone
      rw [hsame₂ (by omega), hsame₁ ho]

/-- What becomes of an entry depends on nothing but the entry. -/
theorem next_local {d' : Directory} (h : d n = d' n) (o : Occurrence) :
    next d o n = next d' o n := by
  have hset : ∀ m e, d.set m e n = d'.set m e n := by
    intro m e
    simp only [Directory.set, h]
  have hwrite : ∀ m a value, d.write m a value n = d'.write m a value n := by
    intro m a value
    by_cases hm : m = n
    · subst m
      simp only [Directory.write, Directory.set, h]
    · rw [write_other hm, write_other hm, h]
  cases o with
  | foreign m a value => exact hwrite m a value
  | own event =>
    obtain ⟨q, reply⟩ := event
    cases q with
    | look | take | read _ _ => exact h
    | remove m => exact hset m none
    | write m a value =>
      cases reply with
      | ok _ => exact hwrite m a value
      | error _ => exact h
    | create m =>
      cases reply with
      | ok _ => exact hset m (some .fresh)
      | error _ => exact h

theorem after_local {d' : Directory} (h : d n = d' n) (log : List Occurrence) :
    after d log n = after d' log n := by
  induction log generalizing d d' with
  | nil => exact h
  | cons o log ih => exact ih (next_local h o)

/-- Nobody else writes to the entry. -/
def Undisturbed (n : UInt64) (log : List Occurrence) : Prop :=
  ∀ a value, Occurrence.foreign n a value ∉ log

theorem after_undisturbed {log : List Occurrence} (h : Undisturbed n log) :
    after d log n = after d ((own log).map .own) n := by
  induction log generalizing d with
  | nil => rfl
  | cons o log ih =>
    have hlog : Undisturbed n log := fun a value hm => h a value (List.mem_cons_of_mem _ hm)
    cases o with
    | own e => exact ih hlog
    | foreign m a value =>
      have hm : m ≠ n := by
        rintro rfl
        exact h a value List.mem_cons_self
      exact (after_local (write_other hm d a value) log).trans (ih hlog)

/-- The level of a request, as an entry holds it. -/
def levelText (r : ReportRequest) : List UInt8 := encode (toString r.privilegeLevel.toNat)

theorem after_writes (h : d n = some .fresh) (r : ReportRequest) :
    ∃ generation, after d ((writes n r).map .own) n =
      some ⟨r.inBlob, levelText r, generation⟩ := by
  rw [writes, levelWrites]
  split
  · refine ⟨2, ?_⟩
    exact write_self (write_self h _ _) _ _
  · rename_i hzero
    have hlevel : levelText r = encode "0" := by
      rw [levelText, UInt32.not_lt, UInt32.le_zero_iff] at *
      rw [hzero]
      rfl
    refine ⟨1, ?_⟩
    rw [hlevel]
    exact write_self h _ _

theorem generation_of_shown {e : Entry} {v : UInt64} (h : generationOf e.shown = .ok v) :
    v.toNat = e.generation := by
  have hline : Blanks ['\n'] := by
    intro c hc
    rw [List.mem_singleton.mp hc]
    decide
  have hshown : e.shown = bytesOf (Nat.toDigits 10 e.generation ++ ['\n']) := by
    rw [Entry.shown, encode, String.toList_append, Nat.toString_eq_repr, Nat.toList_repr]
    rfl
  rw [generationOf_eq_ok_iff, hshown, decodeLossy_bytesOf, String.toList_ofList] at h
  exact numeral_unique h (numeral_toDigits e.generation hline)

theorem keeps_of_reads {log : List Occurrence}
    (h : ∀ e ∈ own log, ∃ m a, e.question = .read m a) : ∀ o ∈ log, Keeps n o := by
  intro o ho
  cases o with
  | foreign m a value => trivial
  | own e =>
    obtain ⟨m, a, hq⟩ := h e (List.mem_filterMap.mpr ⟨_, ho, rfl⟩)
    obtain ⟨q, reply⟩ := e
    subst hq
    trivial

/-- A generation that has not changed shows that nobody has written in between. -/
theorem unwritten_of_generation {log : List Occurrence} {e e' : Entry}
    (hlog : ∀ o ∈ log, Keeps n o) (h : d n = some e) (h' : after d log n = some e')
    (hg : e'.generation = e.generation) : ∀ o ∈ log, writesTo n o = false := by
  obtain ⟨e₁, h₁, hg₁, _⟩ := after_kept hlog h
  cases h₁.symm.trans h'
  have hcount : log.countP (writesTo n) = 0 := by omega
  intro o ho
  exact Bool.eq_false_iff.mpr (List.countP_eq_zero.mp hcount o ho)

theorem after_unwritten {log : List Occurrence} {e : Entry} (hlog : ∀ o ∈ log, Keeps n o)
    (hw : ∀ o ∈ log, writesTo n o = false) (h : d n = some e) : after d log n = some e := by
  obtain ⟨e', h', _, hsame⟩ := after_kept hlog h
  have hcount : log.countP (writesTo n) = 0 :=
    List.countP_eq_zero.mpr fun o ho => Bool.eq_false_iff.mp (hw o ho)
  rw [h', hsame hcount]

theorem undisturbed_of_unwritten {log : List Occurrence}
    (hw : ∀ o ∈ log, writesTo n o = false) : Undisturbed n log := by
  intro a value hm
  have hself : (n == n) = false := hw _ hm
  rw [beq_self_eq_true] at hself
  cases hself

/-- A report is the answer to what stood in its entry when the generation was first looked at:
nobody else has written to the entry from then on until the second look. So it is the answer to
its own request, if nobody else has written to the entry between its creation and the first
look. -/
theorem report_bound_from_first_look {s : Site} {r : ReportRequest} {rep : Report}
    {log : List Occurrence} (hfaithful : Faithful quote d log)
    (hruns : Runs (report s r) (own log) (.ok rep)) :
    ∃ n before request first reads last behind,
      log = before ++ .own ⟨.create n, .ok ()⟩ :: (request ++
        .own ⟨.read n .generation, .ok first⟩ :: (reads ++
          .own ⟨.read n .generation, .ok last⟩ :: behind)) ∧
      own request = writes n r ∧ Undisturbed n reads ∧
      (∃ e, after d (before ++ .own ⟨.create n, .ok ()⟩ :: request) n = some e ∧
        rep.outBlob = quote e.inblob e.privlevel) ∧
      (Undisturbed n request → rep.outBlob = quote r.inBlob (levelText r)) := by
  obtain ⟨n, exchange, hown, hexchange⟩ := runs_report_ok hruns
  obtain ⟨first, last, v, others, rfl, hothers, hfirst, hlast⟩ := runs_withEntry_ok hexchange
  -- The log, split at the creation, at the two looks at the generation and at the answer.
  have hown₁ : own log = [⟨.look, true⟩, ⟨.take, n⟩] ++ ⟨.create n, .ok ()⟩ :: (writes n r ++
      ⟨.read n .generation, .ok first⟩ :: ((⟨.read n .outblob, .ok rep.outBlob⟩ :: others) ++
        ⟨.read n .generation, .ok last⟩ :: [⟨.remove n, ()⟩])) := by
    rw [hown]
    simp
  obtain ⟨before, log₁, rfl, -, hown₂⟩ := own_eq_append_cons hown₁
  obtain ⟨request, log₂, rfl, hrequest, hown₃⟩ := own_eq_append_cons hown₂
  obtain ⟨reads, behind, rfl, hreads, -⟩ := own_eq_append_cons hown₃
  obtain ⟨quiet, later, hsplit, hquiet, -⟩ :=
    own_eq_append_cons (hreads.trans (List.nil_append _).symm)
  -- What the kernel holds at these points.
  obtain ⟨-, -, hlog₁⟩ := faithful_append.mp hfaithful
  obtain ⟨-, ⟨e, he, hshown⟩, hlog₂⟩ := faithful_append.mp hlog₁
  obtain ⟨hreadsf, ⟨e', he', hshown'⟩, -⟩ := faithful_append.mp hlog₂
  have hgeneration : e'.generation = e.generation :=
    (generation_of_shown (hshown' ▸ hlast)).symm.trans (generation_of_shown (hshown ▸ hfirst))
  have hkeeps : ∀ o ∈ reads, Keeps n o := by
    refine keeps_of_reads fun event hevent => ?_
    rw [hreads] at hevent
    obtain rfl | hevent := List.mem_cons.mp hevent
    · exact ⟨_, _, rfl⟩
    · exact ⟨n, hothers event hevent⟩
  have hunwritten := unwritten_of_generation hkeeps he he' hgeneration
  have hout : rep.outBlob = quote e.inblob e.privlevel := by
    rw [hsplit] at hreadsf
    obtain ⟨-, ⟨e₀, he₀, hvalue⟩, -⟩ := faithful_append.mp hreadsf
    have hmem : ∀ o ∈ quiet, o ∈ reads := fun o ho => hsplit ▸ List.mem_append_left _ ho
    have hsame := after_unwritten (fun o ho => hkeeps o (hmem o ho))
      (fun o ho => hunwritten o (hmem o ho)) he
    cases hsame.symm.trans he₀
    exact hvalue
  refine ⟨n, before, request, first, reads, last, behind, rfl, hrequest,
    undisturbed_of_unwritten hunwritten, ⟨e, ?_, hout⟩, ?_⟩
  · rw [after_append]
    exact he
  · intro hundisturbed
    obtain ⟨generation, hafter⟩ := after_writes
      (d := next (after d before) (.own ⟨.create n, .ok ()⟩)) (if_pos rfl) r
    rw [← hrequest, ← after_undisturbed hundisturbed] at hafter
    cases hafter.symm.trans he
    exact hout

def byteRequest : ReportRequest := ⟨[1], 0, false⟩

def byteReport (answer : List UInt8) : Report := ⟨"", none, answer, [], none⟩

def byteLog (others : List Occurrence) (generation answer : List UInt8) : List Occurrence :=
  [.own ⟨.look, true⟩, .own ⟨.take, 0⟩, .own ⟨.create 0, .ok ()⟩,
    .own ⟨.write 0 .inblob [1], .ok ()⟩] ++ others ++
  [.own ⟨.read 0 .generation, .ok generation⟩, .own ⟨.read 0 .outblob, .ok answer⟩,
    .own ⟨.read 0 .manifestblob, .error .notFound⟩, .own ⟨.read 0 .provider, .ok []⟩,
    .own ⟨.read 0 .serviceProvider, .error .notFound⟩,
    .own ⟨.read 0 .generation, .ok generation⟩, .own ⟨.remove 0, ()⟩]

/-- Who writes to an entry of their own does not matter. -/
theorem bound_beside_others :
    let site : Site := ⟨"/report", 7⟩
    let d := Directory.set (fun _ => none) 5 (some .fresh)
    let log := byteLog [.foreign 5 .inblob [9]] (encode "1\n") [1, 48]
    Faithful (· ++ ·) d log ∧
      Runs (report site byteRequest) (own log) (.ok (byteReport [1, 48])) ∧
      ∃ n before e, after d before n = some e ∧
        (byteReport [1, 48]).outBlob = e.inblob ++ e.privlevel := by
  intro site d log
  have hfaithful : Faithful (· ++ ·) d log :=
    ⟨trivial, trivial, rfl, ⟨_, rfl⟩, ⟨_, rfl⟩, ⟨_, rfl, rfl⟩, ⟨_, rfl, rfl⟩, trivial, ⟨_, rfl⟩,
      trivial, ⟨_, rfl, rfl⟩, trivial, trivial⟩
  have hruns : Runs (report site byteRequest) (own log) (.ok (byteReport [1, 48])) :=
    .ask (.ask (.ask (.ask (.ask (.ask (.ask (.ask (.ask (.ask (.ask (.done _)))))))))))
  obtain ⟨n, before, request, _, _, _, _, _, _, _, hfirst, _⟩ :=
    report_bound_from_first_look hfaithful hruns
  exact ⟨hfaithful, hruns, n, _, hfirst⟩

/-- A request that somebody else writes over the own one, before the generation is looked at for
the first time. The generation is two at both looks, and the report answers the other request. -/
theorem foreign_request_answered :
    let site : Site := ⟨"/report", 7⟩
    let log := byteLog [.foreign 0 .inblob [9]] (encode "2\n") [9, 48]
    Faithful (· ++ ·) (fun _ => none) log ∧
      Runs (report site byteRequest) (own log) (.ok (byteReport [9, 48])) ∧
      (byteReport [9, 48]).outBlob ≠ byteRequest.inBlob ++ levelText byteRequest := by
  refine ⟨?_, ?_, by decide⟩
  · exact ⟨trivial, trivial, rfl, ⟨_, rfl⟩, ⟨_, rfl⟩, ⟨_, rfl, rfl⟩, ⟨_, rfl, rfl⟩, trivial,
      ⟨_, rfl⟩, trivial, ⟨_, rfl, rfl⟩, trivial, trivial⟩
  · exact .ask (.ask (.ask (.ask (.ask (.ask (.ask (.ask (.ask (.ask (.ask (.done _)))))))))))

end Attestation.Proofs.Interference
