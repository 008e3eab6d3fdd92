import Attestation.Proofs.ReportExchanges

namespace Attestation.Proofs.EntryExchanges

open Tsm Tsm.Configfs Tsm.Configfs.Exchange Numerals Worlds ReportExchanges
open Text.Utf8 (encode decodeLossy)

/-- What an exchange comes upon. -/
structure Surroundings where
  found : Bool
  number : UInt64
  created : Except SystemError Unit
  written : Attribute → Except SystemError Unit
  held : Attribute → Except SystemError (List UInt8)
  heldLater : Except SystemError (List UInt8)

def readsGeneration : Event → Bool
  | ⟨.read _ .generation, _⟩ => true
  | _ => false

namespace Surroundings

/-- The answer to a question that is put behind the events of a log. -/
def reply (w : Surroundings) (log : List Event) : (q : Action) → q.Reply
  | .look => w.found
  | .take => w.number
  | .create _ => w.created
  | .write _ a _ => w.written a
  | .read _ .generation => if log.any readsGeneration then w.heldLater else w.held .generation
  | .read _ a => w.held a
  | .remove _ => ()

/-- The result that an exchange has, and the log behind it. -/
def meet {α : Type} (w : Surroundings) (x : Exchange α) (log : List Event) : α × List Event :=
  (x.run (m := StateM (List Event)) fun q log =>
    (w.reply log q, log ++ [⟨q, w.reply log q⟩])).run log

end Surroundings

section meetings

variable {α β : Type} {w : Surroundings} {log : List Event}

@[simp] theorem meet_done (a : α) : w.meet (.done a) log = (a, log) := rfl

@[simp] theorem meet_ask (q : Action) (next : q.Reply → Exchange α) :
    w.meet (.ask q next) log =
      w.meet (next (w.reply log q)) (log ++ [⟨q, w.reply log q⟩]) := rfl

theorem meet_question {q : Action} {answer : q.Reply} {next : q.Reply → Exchange α} {a : α}
    (h : w.reply log q = answer) (hnext : next answer = .done a) :
    w.meet (.ask q next) log = (a, log ++ [⟨q, answer⟩]) := by
  rw [meet_ask, h, hnext, meet_done]

theorem meet_bind (x : Exchange α) (f : α → Exchange β) :
    w.meet (x >>= f) log = w.meet (f (w.meet x log).1) (w.meet x log).2 := by
  induction x generalizing log with
  | done a => rfl
  | ask q next ih => exact ih (w.reply log q)

theorem reply_read {a : Attribute} (h : a ≠ .generation) (n : UInt64) :
    w.reply log (.read n a) = w.held a := by
  cases a with
  | generation => exact absurd rfl h
  | _ => rfl

theorem reply_generation {n : UInt64} (h : log.any readsGeneration = false) :
    w.reply log (.read n .generation) = w.held .generation :=
  if_neg (Bool.eq_false_iff.mp h)

theorem reply_generation_again {n : UInt64} (h : log.any readsGeneration = true) :
    w.reply log (.read n .generation) = w.heldLater :=
  if_pos h

end meetings

/-- A step fails with the first one of its faults. If there is none, it has a value, of which
`values` holds, and has added `more` to the log. -/
structure Does {α : Type} (w : Surroundings) (log : List Event) (x : Step α)
    (faults : List (Option Error)) (values : α → Prop) (more : List Event) : Prop where
  error_iff : ∀ e, (w.meet x.run log).1 = .error e ↔ faults.findSome? id = some e
  ok_iff : ∀ v, (w.meet x.run log).1 = .ok v ↔ values v
  log_eq : ∀ v, values v → (w.meet x.run log).2 = log ++ more

namespace Does

variable {α β : Type} {w : Surroundings} {log more more' : List Event} {x : Step α}
  {faults faults' : List (Option Error)} {values : α → Prop}

theorem congr {values' : α → Prop} (h : Does w log x faults values more)
    (hv : ∀ v, values v ↔ values' v) : Does w log x faults values' more where
  error_iff := h.error_iff
  ok_iff v := (h.ok_iff v).trans (hv v)
  log_eq v hv' := h.log_eq v ((hv v).mpr hv')

theorem failure {e : Error} {log' : List Event} (h : w.meet x.run log = (.error e, log'))
    (he : faults.findSome? id = some e) (hv : ∀ v, ¬ values v) :
    Does w log x faults values more where
  error_iff e' := by
    rw [h, he, Except.error.injEq, Option.some.injEq]
  ok_iff v := by
    rw [h]
    exact iff_of_false nofun (hv v)
  log_eq v hv' := absurd hv' (hv v)

theorem success {a : α} (h : w.meet x.run log = (.ok a, log ++ more))
    (hv : ∀ v, values v ↔ v = a) : Does w log x [none] values more where
  error_iff e := by
    rw [h]
    exact iff_of_false nofun nofun
  ok_iff v := by
    rw [h, hv, Except.ok.injEq, eq_comm]
  log_eq _ _ := congrArg Prod.snd h

theorem exists_iff (h : Does w log x faults values more) :
    (∃ v, values v) ↔ faults.findSome? id = none := by
  rw [Option.eq_none_iff_forall_ne_some]
  constructor
  · rintro ⟨v, hv⟩ e he
    cases ((h.ok_iff v).mpr hv).symm.trans ((h.error_iff e).mpr he)
  · intro hnone
    cases hx : (w.meet x.run log).1 with
    | error e => exact absurd ((h.error_iff e).mp hx) (hnone e)
    | ok v => exact ⟨v, (h.ok_iff v).mp hx⟩

/-- The faults of a step come before those of the steps behind it. -/
theorem bind {f : α → Step β} {values' : α → β → Prop} (h : Does w log x faults values more)
    (hf : ∀ v, values v → Does w (log ++ more) (f v) faults' (values' v) more') :
    Does w log (x >>= f) (faults ++ faults') (fun b => ∃ v, values v ∧ values' v b)
      (more ++ more') := by
  have hmeet : w.meet (x >>= f).run log =
      w.meet (ExceptT.bindCont f (w.meet x.run log).1) (w.meet x.run log).2 := meet_bind _ _
  cases hx : (w.meet x.run log).1 with
  | error e =>
    have hresult : w.meet (x >>= f).run log = (.error e, (w.meet x.run log).2) := by
      rw [hmeet, hx]
      rfl
    have hnone : ∀ b, ¬ ∃ v, values v ∧ values' v b := by
      rintro b ⟨v, hv, -⟩
      cases hx.symm.trans ((h.ok_iff v).mpr hv)
    refine .failure hresult ?_ hnone
    rw [List.findSome?_append, (h.error_iff e).mp hx, Option.some_or]
  | ok v =>
    have hv := (h.ok_iff v).mp hx
    have hrest := hf v hv
    have hresult : w.meet (x >>= f).run log = w.meet (f v).run (log ++ more) := by
      rw [hmeet, hx, h.log_eq v hv]
      rfl
    have hunique : ∀ u, values u → u = v := fun u hu =>
      Except.ok.inj (((h.ok_iff u).mpr hu).symm.trans hx)
    refine ⟨fun e => ?_, fun b => ?_, ?_⟩
    · rw [hresult, List.findSome?_append, h.exists_iff.mp ⟨v, hv⟩, Option.none_or]
      exact hrest.error_iff e
    · rw [hresult, hrest.ok_iff]
      refine ⟨fun hb => ⟨v, hv, hb⟩, ?_⟩
      rintro ⟨u, hu, hb⟩
      exact hunique u hu ▸ hb
    · rintro b ⟨u, hu, hb⟩
      rw [hresult, hrest.log_eq b (hunique u hu ▸ hb), List.append_assoc]

end Does

/-- What is wrong with an answer that has to be there. -/
def fault {α : Type} (wrap : String → Error) : Except SystemError α → Option Error
  | .ok _ => none
  | .error e => some (wrap e.text)

def faultUnlessMissing {α : Type} (wrap : String → Error) : Except SystemError α → Option Error
  | .ok _ => none
  | .error e => if e = .notFound then none else some (wrap e.text)

def generationIn : Except SystemError (List UInt8) → Except Error UInt64
  | .ok value => generationOf value
  | .error e => .error (.read Attribute.generation.name e.text)

def generationFault (first : Except SystemError (List UInt8)) : Option Error :=
  match generationIn first with
  | .ok _ => none
  | .error e => some e

def changeFault (first last : Except SystemError (List UInt8)) : Option Error :=
  match generationIn first, generationIn last with
  | .ok expected, .ok got =>
    if got = expected then none else some (.generationChanged expected got)
  | _, _ => none

section faults

variable (w : Surroundings) (s : Site) (r : ReportRequest)

def writeFault (a : Attribute) : Option Error := fault (.write a.name) (w.written a)

def readFault (a : Attribute) : Option Error := fault (.read a.name) (w.held a)

def optionalFault (a : Attribute) : Option Error := faultUnlessMissing (.read a.name) (w.held a)

def entryFaults : List (Option Error) := [
  if 0 < r.privilegeLevel then writeFault w .privlevel else none,
  writeFault w .inblob,
  generationFault (w.held .generation),
  readFault w .outblob,
  if r.wantsAuxBlob then optionalFault w .auxblob else none,
  optionalFault w .manifestblob,
  readFault w .provider,
  optionalFault w .serviceProvider,
  generationFault w.heldLater,
  changeFault (w.held .generation) w.heldLater]

def reportFaults : List (Option Error) :=
  (if w.found then none else some (.unavailable s.root)) ::
    fault (.createEntry (s.entryPath w.number)) w.created :: entryFaults w r

/-- What there is of an auxiliary blob: nothing, if none is asked for. -/
def AuxHeld (value : Option (List UInt8)) : Prop :=
  if r.wantsAuxBlob then Found value (w.held .auxblob) else value = none

/-- Everything that an entry needs for a report is there. -/
structure Complete : Prop where
  privlevel : 0 < r.privilegeLevel → w.written .privlevel = .ok ()
  inblob : w.written .inblob = .ok ()
  outblob : ∃ value, w.held .outblob = .ok value
  auxblob : ∃ value, AuxHeld w r value
  manifestblob : ∃ value, Found value (w.held .manifestblob)
  provider : ∃ value, w.held .provider = .ok value
  serviceProvider : ∃ value, Found value (w.held .serviceProvider)
  generation : ∃ first last, w.held .generation = .ok first ∧ w.heldLater = .ok last ∧
    ∃ n : UInt64, Numeral (decodeLossy first).toList n.toNat ∧
      Numeral (decodeLossy last).toList n.toNat

/-- What is in a report is what the attributes hold. -/
structure Holds (rep : Report) : Prop where
  outBlob : w.held .outblob = .ok rep.outBlob
  auxBlob : ∃ value, AuxHeld w r value ∧ rep.auxBlob = value.getD []
  manifestBlob : Found rep.manifestBlob (w.held .manifestblob)
  provider : ∃ value, w.held .provider = .ok value ∧ rep.provider = decodeLossy value
  serviceProvider : ∃ value, Found value (w.held .serviceProvider) ∧
    rep.serviceProvider = value.map decodeLossy

def readings (n : UInt64) : List Event :=
  ⟨.read n .generation, w.held .generation⟩ :: ⟨.read n .outblob, w.held .outblob⟩ ::
    ((if r.wantsAuxBlob then [⟨.read n .auxblob, w.held .auxblob⟩] else []) ++
      [⟨.read n .manifestblob, w.held .manifestblob⟩, ⟨.read n .provider, w.held .provider⟩,
        ⟨.read n .serviceProvider, w.held .serviceProvider⟩, ⟨.read n .generation, w.heldLater⟩])

def making : List Event := [⟨.look, true⟩, ⟨.take, w.number⟩, ⟨.create w.number, w.created⟩]

/-- The steps to a report. -/
def steps : List Event :=
  making w ++ (writes w.number r ++ readings w r w.number) ++ [⟨.remove w.number, ()⟩]

end faults

section entry

variable {w : Surroundings} {r : ReportRequest} (log : List Event) (n : UInt64)

theorem does_pure {α : Type} (a : α) : Does w log (pure a) [none] (· = a) [] :=
  .success (congrArg (Prod.mk _) (List.append_nil log).symm) fun _ => Iff.rfl

theorem does_write (a : Attribute) (value : List UInt8) :
    Does w log (writeAttribute n a value) [writeFault w a] (fun _ => w.written a = .ok ())
      [⟨.write n a value, .ok ()⟩] := by
  unfold writeFault
  cases h : w.written a with
  | ok => exact .success (meet_question h rfl) fun _ => iff_of_true rfl rfl
  | error e => exact .failure (meet_question h rfl) rfl nofun

theorem does_read {a : Attribute} (ha : a ≠ .generation) :
    Does w log (readAttribute n a) [readFault w a] (fun v => w.held a = .ok v)
      [⟨.read n a, w.held a⟩] := by
  have hreply : w.reply log (.read n a) = w.held a := reply_read ha n
  unfold readFault
  cases h : w.held a with
  | ok value =>
    refine .success (meet_question (hreply.trans h) rfl) fun v => ?_
    rw [Except.ok.injEq, eq_comm]
  | error e => exact .failure (meet_question (hreply.trans h) rfl) rfl nofun

theorem does_readOptional {a : Attribute} (ha : a ≠ .generation) :
    Does w log (readOptional n a) [optionalFault w a] (fun v => Found v (w.held a))
      [⟨.read n a, w.held a⟩] := by
  have hreply : w.reply log (.read n a) = w.held a := reply_read ha n
  unfold optionalFault
  cases h : w.held a with
  | ok value => exact .success (meet_question (hreply.trans h) rfl) fun v => found_ok_iff
  | error e =>
    have hmeet : w.meet (readOptional n a).run log =
        (if e = .notFound then .ok none else .error (.read a.name e.text),
          log ++ [⟨.read n a, .error e⟩]) := meet_question (hreply.trans h) rfl
    by_cases hmissing : e = .notFound
    · rw [if_pos hmissing] at hmeet
      rw [faultUnlessMissing, if_pos hmissing]
      refine .success hmeet fun v => ?_
      rw [found_error_iff, and_iff_left hmissing]
    · rw [if_neg hmissing] at hmeet
      rw [faultUnlessMissing, if_neg hmissing]
      exact .failure hmeet rfl fun v hv => hmissing (found_error_iff.mp hv).2

theorem does_readGeneration {g : Except SystemError (List UInt8)}
    (hg : w.reply log (.read n .generation) = g) :
    Does w log (readGeneration n) [generationFault g] (fun v => generationIn g = .ok v)
      [⟨.read n .generation, g⟩] := by
  unfold generationFault
  cases g with
  | error e => exact .failure (meet_question hg rfl) rfl nofun
  | ok value =>
    cases h : generationIn (.ok value) with
    | error e => exact .failure (meet_question hg (congrArg Dialogue.done h)) rfl nofun
    | ok v =>
      refine .success (meet_question hg (congrArg Dialogue.done h)) fun u => ?_
      rw [Except.ok.injEq, eq_comm]

theorem any_levelWrites : (levelWrites n r).any readsGeneration = false := by
  unfold levelWrites
  split <;> rfl

theorem does_writeLevel :
    Does w log (writeLevel n r) [if 0 < r.privilegeLevel then writeFault w .privlevel else none]
      (fun _ => 0 < r.privilegeLevel → w.written .privlevel = .ok ()) (levelWrites n r) := by
  unfold writeLevel levelWrites
  split
  · rename_i hlevel
    exact (does_write log n _ _).congr fun _ => (imp_iff_right hlevel).symm
  · rename_i hlevel
    exact (does_pure log ()).congr fun _ => iff_of_true rfl fun h => absurd h hlevel

theorem does_readAux :
    Does w log (readAux n r) [if r.wantsAuxBlob then optionalFault w .auxblob else none]
      (AuxHeld w r) (if r.wantsAuxBlob then [⟨.read n .auxblob, w.held .auxblob⟩] else []) := by
  unfold readAux AuxHeld
  cases r.wantsAuxBlob with
  | true => exact does_readOptional log n (by decide)
  | false => exact does_pure log none

theorem does_conclude {expected got : UInt64} {first last : Except SystemError (List UInt8)}
    (hfirst : generationIn first = .ok expected) (hlast : generationIn last = .ok got)
    (report : Report) :
    Does w log (conclude expected got report) [changeFault first last]
      (fun rep => got = expected ∧ rep = report) [] := by
  simp only [changeFault, hfirst, hlast, conclude]
  by_cases h : got = expected
  · rw [if_pos h, if_neg (not_not_intro h)]
    exact (does_pure log report).congr fun v => (and_iff_right h).symm
  · rw [if_neg h, if_pos h]
    exact .failure rfl rfl fun v hv => h hv.1

theorem generationIn_eq_ok_iff {g : Except SystemError (List UInt8)} {v : UInt64} :
    generationIn g = .ok v ↔
      ∃ value, g = .ok value ∧ Numeral (decodeLossy value).toList v.toNat := by
  cases g with
  | error e => exact iff_of_false nofun nofun
  | ok value =>
    rw [generationIn, generationOf_eq_ok_iff]
    refine ⟨fun h => ⟨value, rfl, h⟩, ?_⟩
    rintro ⟨_, hvalue, h⟩
    cases hvalue
    exact h

theorem does_withEntry (hlog : log.any readsGeneration = false) :
    Does w log (withEntry n r) (entryFaults w r) (fun rep => Complete w r ∧ Holds w r rep)
      (writes n r ++ readings w r n) := by
  rw [withEntry_eq, writes, List.append_assoc]
  refine Does.congr
    (.bind (does_writeLevel log n) fun _ _ =>
      .bind (does_write _ n .inblob r.inBlob) fun _ _ =>
      .bind (does_readGeneration _ n (reply_generation ?_)) fun expected hfirst =>
      .bind (does_read (a := .outblob) _ n (by decide)) fun outBlob _ =>
      .bind (does_readAux _ n) fun auxBlob _ =>
      .bind (does_readOptional (a := .manifestblob) _ n (by decide)) fun manifestBlob _ =>
      .bind (does_read (a := .provider) _ n (by decide)) fun provider _ =>
      .bind (does_readOptional (a := .serviceProvider) _ n (by decide)) fun serviceProvider _ =>
      .bind (does_readGeneration _ n (reply_generation_again ?_)) fun got hlast =>
      does_conclude _ hfirst hlast _) fun rep => ?_
  · rw [List.any_append, List.any_append, hlog, any_levelWrites]
    rfl
  · simp [readsGeneration]
  · constructor
    · rintro ⟨_, hlevel, _, hin, expected, hfirst, outBlob, hout, auxBlob, haux, manifestBlob,
        hmanifest, provider, hprovider, service, hservice, got, hlast, rfl, rfl⟩
      obtain ⟨first, hheld, hfirst⟩ := generationIn_eq_ok_iff.mp hfirst
      obtain ⟨last, hlater, hlast⟩ := generationIn_eq_ok_iff.mp hlast
      exact ⟨⟨hlevel, hin, ⟨_, hout⟩, ⟨_, haux⟩, ⟨_, hmanifest⟩, ⟨_, hprovider⟩, ⟨_, hservice⟩,
        first, last, hheld, hlater, _, hfirst, hlast⟩,
        hout, ⟨_, haux, rfl⟩, hmanifest, ⟨_, hprovider, rfl⟩, ⟨_, hservice, rfl⟩⟩
    · rintro ⟨⟨hlevel, hin, -, -, -, -, -, first, last, hheld, hlater, v, hfirst, hlast⟩,
        hout, ⟨auxBlob, haux, ha⟩, hmanifest, ⟨provider, hprovider, hp⟩, ⟨service, hservice, hs⟩⟩
      have hexpected := generationIn_eq_ok_iff.mpr ⟨first, hheld, hfirst⟩
      have hgot := generationIn_eq_ok_iff.mpr ⟨last, hlater, hlast⟩
      refine ⟨(), hlevel, (), hin, v, hexpected, _, hout, auxBlob, haux, _, hmanifest, provider,
        hprovider, service, hservice, v, hgot, rfl, ?_⟩
      rw [← hp, ← hs, ← ha]

end entry

section report

variable {w : Surroundings} (s : Site) (r : ReportRequest)

/-- What follows the making of an entry, if it succeeds: the exchange, and the removal, whatever
came of the exchange. -/
def onceMade (n : UInt64) : Except SystemError Unit → Exchange (Except Error Report)
  | .error e => .done (.error (.createEntry (s.entryPath n) e.text))
  | .ok () => do
    let result ← (withEntry n r).run
    .ask (.remove n) fun () => .done result

theorem report_eq : report s r = .ask .look fun found =>
    if ¬ found then .done (.error (.unavailable s.root))
    else .ask .take fun n => .ask (.create n) (onceMade s r n) := by
  refine congrArg (Dialogue.ask Action.look) (funext fun found => ?_)
  split
  · rfl
  · refine congrArg (Dialogue.ask Action.take) (funext fun n => ?_)
    refine congrArg (Dialogue.ask (Action.create n)) (funext fun created => ?_)
    cases created <;> rfl

theorem meet_report (hfound : w.found = true) :
    w.meet (report s r) [] = w.meet (onceMade s r w.number w.created) (making w) := by
  have hlook : w.reply [] .look = true := hfound
  rw [report_eq, meet_ask, hlook, if_neg (not_not_intro rfl)]
  rfl

theorem does_report : Does w [] (ExceptT.mk (report s r)) (reportFaults w s r)
    (fun rep => w.found = true ∧ w.created = .ok () ∧ Complete w r ∧ Holds w r rep)
    (steps w r) := by
  unfold reportFaults
  cases hfound : w.found with
  | false =>
    exact .failure (meet_question hfound rfl) rfl fun v hv => absurd hv.1 Bool.false_ne_true
  | true =>
    have hmeet : w.meet (ExceptT.mk (report s r)).run [] = _ := meet_report s r hfound
    cases hcreated : w.created with
    | error e =>
      rw [hcreated] at hmeet
      exact .failure hmeet rfl fun v hv => nomatch hv.2.1
    | ok =>
      have hentry := does_withEntry (w := w) (r := r) (making w) w.number rfl
      rw [hcreated] at hmeet
      replace hmeet := hmeet.trans (meet_bind _ _)
      refine ⟨fun e => ?_, fun rep => ?_, fun rep hrep => ?_⟩
      · rw [hmeet]
        exact hentry.error_iff e
      · rw [hmeet, and_iff_right rfl, and_iff_right rfl]
        exact hentry.ok_iff rep
      · rw [hmeet, hentry.log_eq rep hrep.2.2]
        rfl

variable {r} in
theorem exists_holds (h : Complete w r) : ∃ rep, Holds w r rep := by
  obtain ⟨outBlob, hout⟩ := h.outblob
  obtain ⟨auxBlob, haux⟩ := h.auxblob
  obtain ⟨manifestBlob, hmanifest⟩ := h.manifestblob
  obtain ⟨provider, hprovider⟩ := h.provider
  obtain ⟨service, hservice⟩ := h.serviceProvider
  exact ⟨⟨decodeLossy provider, service.map decodeLossy, outBlob, auxBlob.getD [], manifestBlob⟩,
    hout, ⟨_, haux, rfl⟩, hmanifest, ⟨_, hprovider, rfl⟩, ⟨_, hservice, rfl⟩⟩

/-- There is a report iff the directory is there, an entry can be made and the entry has everything
that is needed. What is in the report is what the attributes hold, and nothing but the request has
been written. If there is no report, the first step with a fault decides. -/
theorem report_as_held (w : Surroundings) :
    ((∃ rep, (w.meet (report s r) []).1 = .ok rep) ↔
      w.found = true ∧ w.created = .ok () ∧ Complete w r) ∧
    (∀ rep, (w.meet (report s r) []).1 = .ok rep →
      Holds w r rep ∧ (w.meet (report s r) []).2 = steps w r) ∧
    ∀ e, (w.meet (report s r) []).1 = .error e ↔ (reportFaults w s r).findSome? id = some e := by
  have h := does_report (w := w) s r
  refine ⟨⟨?_, ?_⟩, fun rep hrep => ?_, h.error_iff⟩
  · rintro ⟨rep, hrep⟩
    obtain ⟨hfound, hcreated, hcomplete, -⟩ := (h.ok_iff rep).mp hrep
    exact ⟨hfound, hcreated, hcomplete⟩
  · rintro ⟨hfound, hcreated, hcomplete⟩
    obtain ⟨rep, hholds⟩ := exists_holds hcomplete
    exact ⟨rep, (h.ok_iff rep).mpr ⟨hfound, hcreated, hcomplete, hholds⟩⟩
  · have hvalues := (h.ok_iff rep).mp hrep
    exact ⟨hvalues.2.2.2, h.log_eq rep hvalues⟩

example : (Surroundings.meet ⟨true, 0, .ok (), fun _ => .ok (), fun _ => .error .notFound,
      .error .notFound⟩ (report ⟨"/tmp", 1⟩ ⟨[1, 2, 3], 1, true⟩) []).1 =
    .error (.read "generation" SystemError.notFound.text) := rfl

end report

end Attestation.Proofs.EntryExchanges
