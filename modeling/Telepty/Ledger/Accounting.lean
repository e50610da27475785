import Mathlib.Data.List.Perm.Basic
import Mathlib.Algebra.BigOperators.Group.List.Basic
import Telepty.Infra.OrdMap
import Telepty.Infra.Text

/-!
# Admission accounting

`createAccounting` of `ledger-format.js`: nothing is queued, only counted. A class of deltas has a
pool of entries and bytes; a job reserves one terminal unit and two result units, an act three
interaction units; results that no job has reserved share a part of the result pool.

A byte size is an integer or no finite number at all; what is granted is a natural number.
`Account.run_sound` says what holds after any sequence of calls whose releases each give back one
outstanding grant.
-/

namespace Telepty.Ledger

open Infra

/-! ## Pools -/

/-- The classes of deltas. -/
inductive Class where
  | T
  | R
  | L
  | O
  | I
  deriving DecidableEq

namespace Class

def all : List Class := [.T, .R, .L, .O, .I]

def text : Class → Text
  | .T => "T"
  | .R => "R"
  | .L => "L"
  | .O => "O"
  | .I => "I"

/-- `pools[c]` is there. -/
def ofText (t : Text) : Option Class := all.find? fun c => c.text = t

end Class

/-- A number of entries and of bytes. -/
structure Amount where
  entries : Nat
  bytes : Nat
  deriving DecidableEq

/-- `POOLS[c].entries` and `POOLS[c].bytes` -/
def pool : Class → Amount
  | .T => ⟨512, 8388608⟩
  | .R => ⟨2 * 512 + 128, 18874368⟩
  | .L => ⟨64, 4194304⟩
  | .O => ⟨1024, 4194304⟩
  | .I => ⟨12, 4259840⟩

/-- `POOLS[c].unit`; the interaction pool has none, and none is read of it. -/
def poolUnit : Nat := 16384

def reservedPerJob : Nat := 2

def sharedEntries : Nat := 128

def sharedBytes : Nat := sharedEntries * poolUnit

def perAct : Amount := ⟨3, 1064960⟩

def concurrentActs : Nat := 4

def poolTotals : Amount := ⟨2764, 39911424⟩

def rMaxJobs : Nat := 512

def sustainedExhaustionMs : Int := 5000

/-! ## The counters -/

structure Job where
  rUsed : Nat
  tUsed : Bool
  deriving DecidableEq

structure Accounting where
  inflight : Class → Amount
  shared : Amount
  jobs : OrdMap Text Job
  acts : List Text
  lastRejection : Class → Nat
  lastRoom : Class → Nat

/-- The value of a function at one class replaced. -/
def atClass {α : Type} (f : Class → α) (c : Class) (v : α) : Class → α :=
  fun d => if d = c then v else f d

namespace Amount

def zero : Amount := ⟨0, 0⟩

/-- One more entry. -/
def add (x : Amount) (bytes : Nat) : Amount := ⟨x.entries + 1, x.bytes + bytes⟩

/-- One entry fewer, never below zero. -/
def sub (x : Amount) (bytes : Nat) : Amount := ⟨x.entries - 1, x.bytes - bytes⟩

end Amount

/-- What a call answers. -/
structure Reply where
  ok : Bool
  reason : Text := []
  cls : Text := []
  detail : Text := []
  reserved : Bool := false
  already : Bool := false
  deriving DecidableEq

namespace Accounting

def initial : Accounting where
  inflight := fun _ => .zero
  shared := .zero
  jobs := .empty
  acts := []
  lastRejection := fun _ => 0
  lastRoom := fun _ => 0

def room (a : Accounting) (c : Class) (entries bytes : Nat) : Bool :=
  (a.inflight c).entries + entries ≤ (pool c).entries &&
    (a.inflight c).bytes + bytes ≤ (pool c).bytes

def poolFull (a : Accounting) (c : Class) : Bool :=
  if c = .R then
    sharedEntries < a.shared.entries + 1 || sharedBytes < a.shared.bytes + poolUnit
  else !a.room c 1 poolUnit

/-- `if (!full) lastRoom[c] = t` -/
def noteRoom (t : Nat) (c : Class) (a : Accounting) : Accounting :=
  if a.poolFull c then a else { a with lastRoom := atClass a.lastRoom c t }

def exhausted (t : Nat) (c : Class) (a : Accounting) : Bool :=
  a.poolFull c && a.lastRejection c ≠ 0 &&
    ((t : Int) - a.lastRejection c ≤ sustainedExhaustionMs
      || sustainedExhaustionMs ≤ (t : Int) - a.lastRoom c)

/-- The loop of `sustainedExhaustion(t)` over its classes. -/
def sustainedOver (t : Nat) : List Class → Accounting → Option Class × Accounting
  | [], a => (none, a)
  | c :: cs, a =>
    let a := a.noteRoom t c
    if a.exhausted t c then (some c, a) else sustainedOver t cs a

def sustainedExhaustion (t : Nat) (a : Accounting) : Option Class × Accounting :=
  sustainedOver t [.O, .R, .L] a

def exhaustedReply : Reply := { ok := false, reason := "tracking_capacity_exhausted" }

/-- `reserveJob(id, t)` -/
def reserveJob (id : Text) (t : Nat) (a : Accounting) : Reply × Accounting :=
  if a.jobs.has id then ({ ok := true, already := true }, a)
  else if rMaxJobs < a.jobs.size + 1 then (exhaustedReply, a)
  else
    match a.sustainedExhaustion t with
    | (some c, a) => ({ ok := false, reason := "sustained_exhaustion", cls := c.text }, a)
    | (none, a) =>
      let jobs := a.jobs.size + 1
      if (pool .T).entries < jobs ∨ (pool .T).bytes < jobs * poolUnit then (exhaustedReply, a)
      else if (pool .R).entries - sharedEntries < jobs * reservedPerJob ∨
          (pool .R).bytes - sharedBytes < jobs * reservedPerJob * poolUnit then (exhaustedReply, a)
      else ({ ok := true }, { a with jobs := a.jobs.set id ⟨0, false⟩ })

def releaseJob (id : Text) (a : Accounting) : Accounting := { a with jobs := a.jobs.delete id }

def hasJob (id : Text) (a : Accounting) : Bool := a.jobs.has id

/-- `jobId ? jobs.get(jobId) : null`, with the id. -/
def jobOf (a : Accounting) (jobId : Option Text) : Option (Text × Job) :=
  jobId.bind fun id => if id = [] then none else (a.jobs.get? id).map fun job => (id, job)

/-- `validBytes(bytes)`; `none` is no finite number. -/
def validBytes (bytes : Option Int) : Option Nat :=
  bytes.bind fun b => if 0 ≤ b then some b.toNat else none

def noRoom (c : Class) (detail : Text) : Reply :=
  { ok := false, reason := "tracking_capacity_exhausted", cls := c.text, detail := detail }

/-- One more unit of a class in flight. -/
def admitted (c : Class) (bytes : Nat) (a : Accounting) : Accounting :=
  { a with inflight := atClass a.inflight c ((a.inflight c).add bytes) }

def admitT (bytes : Nat) (jobId : Option Text) (a : Accounting) : Reply × Accounting :=
  match a.jobOf jobId with
  | none => (noRoom .T "no_job_reservation", a)
  | some (id, job) =>
    if job.tUsed then (noRoom .T "terminal_unit_inflight", a)
    else if poolUnit < bytes then (noRoom .T "above_reserved_unit", a)
    else if a.room .T 1 bytes = false then (noRoom .T "pool", a)
    else ({ ok := true, cls := "T", reserved := true },
      admitted .T bytes { a with jobs := a.jobs.set id { job with tUsed := true } })

/-- A result on the shared part of the pool. -/
def admitShared (bytes t : Nat) (a : Accounting) : Reply × Accounting :=
  if sharedEntries < a.shared.entries + 1 ∨ sharedBytes < a.shared.bytes + bytes ∨
      a.room .R 1 bytes = false then
    ({ ok := false, reason := "tracking_capacity_result", cls := "R" },
      { a with lastRejection := atClass a.lastRejection .R t })
  else ({ ok := true, cls := "R" },
    admitted .R bytes { a with lastRoom := atClass a.lastRoom .R t, shared := a.shared.add bytes })

def admitR (bytes : Nat) (jobId : Option Text) (t : Nat) (a : Accounting) : Reply × Accounting :=
  match a.jobOf jobId with
  | none => a.admitShared bytes t
  | some (id, job) =>
    if job.rUsed < reservedPerJob ∧ bytes ≤ poolUnit ∧ a.room .R 1 bytes = true then
      ({ ok := true, cls := "R", reserved := true },
        admitted .R bytes { a with jobs := a.jobs.set id { job with rUsed := job.rUsed + 1 } })
    else a.admitShared bytes t

def admitI (bytes : Nat) (a : Accounting) : Reply × Accounting :=
  let maxEntries := min (pool .I).entries (a.acts.length * perAct.entries)
  let maxBytes := min (pool .I).bytes (a.acts.length * perAct.bytes)
  if a.acts = [] then (noRoom .I "no_act_reservation", a)
  else if maxEntries < (a.inflight .I).entries + 1 ∨ maxBytes < (a.inflight .I).bytes + bytes then
    (noRoom .I "act_reservation_or_pool", a)
  else ({ ok := true, cls := "I", reserved := true }, admitted .I bytes a)

def admitPool (c : Class) (bytes t : Nat) (a : Accounting) : Reply × Accounting :=
  if a.room c 1 bytes = false then
    ({ ok := false, reason := "tracking_backpressure", cls := c.text },
      { a with lastRejection := atClass a.lastRejection c t })
  else ({ ok := true, cls := c.text },
    admitted c bytes { a with lastRoom := atClass a.lastRoom c t })

/-- `admit(c, bytes, { jobId, t })` -/
def admitUnit (c : Text) (bytes : Option Int) (jobId : Option Text) (t : Nat) (a : Accounting) :
    Reply × Accounting :=
  match Class.ofText c, validBytes bytes with
  | none, _ => ({ ok := false, reason := "invalid_class", cls := c }, a)
  | some _, none => ({ ok := false, reason := "invalid_bytes", cls := c }, a)
  | some .T, some b => a.admitT b jobId
  | some .R, some b => a.admitR b jobId t
  | some .I, some b => a.admitI b
  | some c, some b => a.admitPool c b t

/-- The terminal unit goes back to its job. -/
def returnTerminal (jobId : Option Text) (a : Accounting) : Accounting :=
  match a.jobOf jobId with
  | none => a
  | some (id, job) => { a with jobs := a.jobs.set id { job with tUsed := false } }

/-- `release(c, bytes, { jobId, reserved })` of a class and a size that are valid. -/
def release (c : Class) (bytes : Nat) (jobId : Option Text) (reserved : Bool) (a : Accounting) :
    Accounting :=
  let a := { a with inflight := atClass a.inflight c ((a.inflight c).sub bytes) }
  let a := if c = .T ∧ reserved = true then a.returnTerminal jobId else a
  if c = .R ∧ reserved = false then { a with shared := a.shared.sub bytes } else a

/-- `reserveAct(sid)` -/
def reserveAct (sid : Text) (a : Accounting) : Bool × Accounting :=
  if sid ∈ a.acts then (false, a)
  else if concurrentActs < a.acts.length + 1 then (false, a)
  else (true, { a with acts := a.acts ++ [sid] })

def releaseAct (sid : Text) (a : Accounting) : Accounting :=
  { a with acts := a.acts.filter (· ≠ sid) }

/-! ## The check -/

structure Check where
  violations : List Text
  totalEntries : Nat
  totalBytes : Nat

def Check.ok (c : Check) : Prop := c.violations = []

instance (c : Check) : Decidable c.ok := inferInstanceAs (Decidable (_ = _))

def overPool (a : Accounting) (c : Class) : Bool :=
  (pool c).entries < (a.inflight c).entries || (pool c).bytes < (a.inflight c).bytes

/-- `check()` -/
def check (a : Accounting) : Check :=
  let entries := (Class.all.map fun c => (a.inflight c).entries).sum
  let bytes := (Class.all.map fun c => (a.inflight c).bytes).sum
  { violations := (Class.all.filter a.overPool).map Class.text
      ++ (if sharedEntries < a.shared.entries ∨ sharedBytes < a.shared.bytes then
        ["R_shared".toList] else [])
      ++ (if poolTotals.entries < entries ∨ poolTotals.bytes < bytes then ["totals".toList] else [])
    totalEntries := entries
    totalBytes := bytes }

/-- The counters and the reservations: all but the timestamps. -/
structure SameCounts (a b : Accounting) : Prop where
  inflight : b.inflight = a.inflight
  shared : b.shared = a.shared
  jobs : b.jobs = a.jobs
  acts : b.acts = a.acts

theorem SameCounts.refl (a : Accounting) : SameCounts a a := ⟨rfl, rfl, rfl, rfl⟩

theorem SameCounts.trans {a b c : Accounting} (h : SameCounts a b) (h' : SameCounts b c) :
    SameCounts a c :=
  ⟨h'.inflight.trans h.inflight, h'.shared.trans h.shared, h'.jobs.trans h.jobs,
    h'.acts.trans h.acts⟩

theorem sameCounts_noteRoom (t : Nat) (c : Class) (a : Accounting) :
    SameCounts a (a.noteRoom t c) := by
  unfold noteRoom
  split
  · exact .refl a
  · exact ⟨rfl, rfl, rfl, rfl⟩

theorem sameCounts_sustainedOver (t : Nat) (cs : List Class) (a : Accounting) :
    SameCounts a (sustainedOver t cs a).2 := by
  induction cs generalizing a with
  | nil => exact .refl a
  | cons c cs ih =>
    rw [sustainedOver]
    split
    · exact sameCounts_noteRoom t c a
    · exact (sameCounts_noteRoom t c a).trans (ih _)

/-- What `reserveJob` does: nothing to the counters, but for a new job when it answers `ok`. -/
theorem reserveJob_cases (id : Text) (t : Nat) (a : Accounting) :
    SameCounts a (a.reserveJob id t).2 ∨
      ((a.reserveJob id t).1.ok = true ∧ (a.reserveJob id t).2.inflight = a.inflight ∧
        (a.reserveJob id t).2.shared = a.shared ∧ (a.reserveJob id t).2.acts = a.acts ∧
        (a.reserveJob id t).2.jobs = a.jobs.set id ⟨0, false⟩) := by
  have hs := sameCounts_sustainedOver t [.O, .R, .L] a
  unfold reserveJob
  split
  · exact .inl (.refl a)
  split
  · exact .inl (.refl a)
  split
  · next c b hb =>
    rw [sustainedExhaustion] at hb
    rw [hb] at hs
    exact .inl hs
  · next b hb =>
    rw [sustainedExhaustion] at hb
    rw [hb] at hs
    simp only
    split
    · exact .inl hs
    split
    · exact .inl hs
    · exact .inr ⟨rfl, hs.inflight, hs.shared, hs.acts, by rw [← hs.jobs]⟩

/-- **What an admission that answers `ok` does.** -/
structure Admits (a b : Accounting) (r : Reply) (size : Option Int) (jobId : Option Text)
    (c : Class) (n : Nat) : Prop where
  cls : Class.ofText r.cls = some c
  size : validBytes size = some n
  inflight : b.inflight = atClass a.inflight c ((a.inflight c).add n)
  fits : (a.inflight c).entries + 1 ≤ (pool c).entries ∧ (a.inflight c).bytes + n ≤ (pool c).bytes
  shared : b.shared = if c = .R ∧ r.reserved = false then a.shared.add n else a.shared
  sharedFits : c = .R ∧ r.reserved = false →
    a.shared.entries + 1 ≤ sharedEntries ∧ a.shared.bytes + n ≤ sharedBytes
  acts : b.acts = a.acts
  /-- only the job whose terminal unit is taken gets one in flight -/
  terminal : ∀ id job, b.jobs.get? id = some job → job.tUsed = true →
    (∃ prior, a.jobs.get? id = some prior ∧ prior.tUsed = true) ∨
      c = .T ∧ id ≠ [] ∧ jobId = some id ∧ r.reserved = true

theorem room_iff {a : Accounting} {c : Class} {n : Nat} :
    a.room c 1 n = true ↔ (a.inflight c).entries + 1 ≤ (pool c).entries ∧
      (a.inflight c).bytes + n ≤ (pool c).bytes := by
  simp [room]

theorem jobOf_eq_some {a : Accounting} {jobId : Option Text} {id : Text} {job : Job}
    (h : a.jobOf jobId = some (id, job)) :
    jobId = some id ∧ id ≠ [] ∧ a.jobs.get? id = some job := by
  unfold jobOf at h
  cases jobId with
  | none => cases h
  | some j =>
    simp only [Option.bind_some] at h
    split at h
    · cases h
    · next hne =>
      obtain ⟨job', hj, he⟩ := Option.map_eq_some_iff.mp h
      cases he
      exact ⟨rfl, hne, hj⟩

theorem get?_set_job {a : Accounting} {id j : Text} {job job' : Job}
    (h : (a.jobs.set id job).get? j = some job') : j = id ∧ job' = job ∨ a.jobs.get? j = some job' := by
  rw [OrdMap.get?_set] at h
  split at h
  · next he =>
    cases h
    exact .inl ⟨he, rfl⟩
  · exact .inr h

theorem admitShared_cases {size : Option Int} (jobId : Option Text) {n : Nat} (t : Nat)
    (a : Accounting) (hsize : validBytes size = some n) :
    ((a.admitShared n t).1.ok = false ∧ SameCounts a (a.admitShared n t).2) ∨
      ((a.admitShared n t).1.ok = true ∧
        Admits a (a.admitShared n t).2 (a.admitShared n t).1 size jobId .R n) := by
  unfold admitShared
  split
  · exact .inl ⟨rfl, rfl, rfl, rfl, rfl⟩
  · next h =>
    simp only [not_or, Nat.not_lt, Bool.not_eq_false] at h
    exact .inr ⟨rfl, rfl, hsize, rfl, room_iff.mp h.2.2, by simp [admitted], fun _ => ⟨h.1, h.2.1⟩, rfl,
      fun id job hj ht => .inl ⟨job, hj, ht⟩⟩

/-- **An admission is refused and moves no counter, or it takes one unit that fits.** -/
theorem admit_cases (c : Text) (size : Option Int) (jobId : Option Text) (t : Nat) (a : Accounting) :
    ((a.admitUnit c size jobId t).1.ok = false ∧ SameCounts a (a.admitUnit c size jobId t).2) ∨
      ∃ d n, (a.admitUnit c size jobId t).1.ok = true ∧
        Admits a (a.admitUnit c size jobId t).2 (a.admitUnit c size jobId t).1 size jobId d n := by
  unfold admitUnit
  split
  · exact .inl ⟨rfl, .refl a⟩
  · exact .inl ⟨rfl, .refl a⟩
  · next n hc hsize =>
    unfold admitT
    split
    · exact .inl ⟨rfl, .refl a⟩
    · next id job hjob =>
      obtain ⟨hid, hne, -⟩ := jobOf_eq_some hjob
      split
      · exact .inl ⟨rfl, .refl a⟩
      split
      · exact .inl ⟨rfl, .refl a⟩
      split
      · exact .inl ⟨rfl, .refl a⟩
      · next hroom =>
        rw [Bool.not_eq_false] at hroom
        refine .inr ⟨.T, n, rfl, rfl, hsize, rfl, room_iff.mp hroom, rfl, fun h => (by cases h.1), rfl,
          fun j job' hj ht => ?_⟩
        rcases get?_set_job hj with ⟨rfl, -⟩ | hj
        · exact .inr ⟨rfl, hne, hid, rfl⟩
        · exact .inl ⟨job', hj, ht⟩
  · next n hc hsize =>
    unfold admitR
    split
    · rcases admitShared_cases jobId t a hsize with h | h
      · exact .inl h
      · exact .inr ⟨.R, n, h⟩
    · next id job hjob =>
      obtain ⟨-, -, hget⟩ := jobOf_eq_some hjob
      split
      · next h =>
        refine .inr ⟨.R, n, rfl, rfl, hsize, rfl, room_iff.mp h.2.2, rfl, fun h => (by cases h.2), rfl,
          fun j job' hj ht => ?_⟩
        rcases get?_set_job hj with ⟨rfl, rfl⟩ | hj
        · exact .inl ⟨job, hget, ht⟩
        · exact .inl ⟨job', hj, ht⟩
      · rcases admitShared_cases jobId t a hsize with h | h
        · exact .inl h
        · exact .inr ⟨.R, n, h⟩
  · next n hc hsize =>
    unfold admitI
    simp only
    split
    · exact .inl ⟨rfl, .refl a⟩
    split
    · exact .inl ⟨rfl, .refl a⟩
    · next h =>
      simp only [not_or, Nat.not_lt] at h
      refine .inr ⟨.I, n, rfl, rfl, hsize, rfl, ⟨?_, ?_⟩, rfl, fun h => (by cases h.1), rfl,
        fun id job hj ht => .inl ⟨job, hj, ht⟩⟩
      · exact Nat.le_trans h.1 (Nat.min_le_left _ _)
      · exact Nat.le_trans h.2 (Nat.min_le_left _ _)
  · next d n hT hR hI hc hsize =>
    unfold admitPool
    split
    · exact .inl ⟨rfl, rfl, rfl, rfl, rfl⟩
    · next hroom =>
      rw [Bool.not_eq_false] at hroom
      have hR' : d ≠ .R := hR
      refine .inr ⟨d, n, rfl, ?_, hsize, rfl, room_iff.mp hroom, ?_, fun h => absurd h.1 hR', rfl,
        fun id job hj ht => .inl ⟨job, hj, ht⟩⟩
      · cases d <;> rfl
      · simp [admitted, hR']

end Accounting

/-! ## Outstanding grants -/

/-- A unit that was admitted, as it is to be given back. -/
structure Grant where
  cls : Class
  bytes : Nat
  jobId : Option Text
  reserved : Bool
  deriving DecidableEq

/-- The units of some grants that satisfy `p`. -/
def outstanding (p : Grant → Bool) (gs : List Grant) : Amount :=
  ⟨(gs.filter p).length, ((gs.filter p).map Grant.bytes).sum⟩

/-- The grants on a class. -/
def onClass (c : Class) (g : Grant) : Bool := g.cls = c

/-- The grants on the shared results. -/
def onShared (g : Grant) : Bool := g.cls = .R && !g.reserved

theorem outstanding_append (p : Grant → Bool) (gs : List Grant) (g : Grant) :
    outstanding p (gs ++ [g])
      = if p g then (outstanding p gs).add g.bytes else outstanding p gs := by
  rw [outstanding, List.filter_append]
  cases h : p g with
  | true => simp [h, outstanding, Amount.add]
  | false => simp [h, outstanding]

theorem outstanding_perm (p : Grant → Bool) {gs gs' : List Grant} (h : gs.Perm gs') :
    outstanding p gs = outstanding p gs' := by
  rw [outstanding, outstanding, (h.filter p).length_eq, ((h.filter p).map Grant.bytes).sum_eq]

theorem outstanding_erase (p : Grant → Bool) {gs : List Grant} {g : Grant} (h : g ∈ gs) :
    outstanding p (gs.erase g)
      = if p g then (outstanding p gs).sub g.bytes else outstanding p gs := by
  have hp := outstanding_perm p (List.perm_cons_erase h)
  rw [hp, outstanding, outstanding]
  cases hg : p g with
  | true => simp [hg, Amount.sub]
  | false => simp [hg]

/-! ## Calls -/

inductive Call where
  | reserveJob (id : Text) (t : Nat)
  | releaseJob (id : Text)
  | reserveAct (sid : Text)
  | releaseAct (sid : Text)
  | admitUnit (c : Text) (bytes : Option Int) (jobId : Option Text) (t : Nat)
  | release (g : Grant)

/-- The accounting and the grants that were not given back. -/
structure Account where
  acct : Accounting
  grants : List Grant

namespace Account

def initial : Account := ⟨.initial, []⟩

/-- The grant that a reply makes. -/
def granted (r : Reply) (bytes : Option Int) (jobId : Option Text) : List Grant :=
  match r.ok, Class.ofText r.cls, Accounting.validBytes bytes with
  | true, some c, some n => [⟨c, n, jobId, r.reserved⟩]
  | _, _, _ => []

def step (x : Account) : Call → Account
  | .reserveJob id t => { x with acct := (x.acct.reserveJob id t).2 }
  | .releaseJob id => { x with acct := x.acct.releaseJob id }
  | .reserveAct sid => { x with acct := (x.acct.reserveAct sid).2 }
  | .releaseAct sid => { x with acct := x.acct.releaseAct sid }
  | .admitUnit c bytes jobId t =>
    let r := x.acct.admitUnit c bytes jobId t
    ⟨r.2, x.grants ++ granted r.1 bytes jobId⟩
  | .release g => ⟨x.acct.release g.cls g.bytes g.jobId g.reserved, x.grants.erase g⟩

def run (x : Account) (calls : List Call) : Account := calls.foldl step x

/-- The call answers that it was refused. -/
def refuses (x : Account) : Call → Bool
  | .reserveJob id t => !(x.acct.reserveJob id t).1.ok
  | .reserveAct sid => !(x.acct.reserveAct sid).1
  | .admitUnit c bytes jobId t => !(x.acct.admitUnit c bytes jobId t).1.ok
  | .releaseJob _ | .releaseAct _ | .release _ => false

/-- A release gives back a grant that is outstanding. -/
def Legal (x : Account) : Call → Prop
  | .release g => g ∈ x.grants
  | _ => True

/-- Every call of a sequence is legal where it is made. -/
def LegalRun : Account → List Call → Prop
  | _, [] => True
  | x, c :: cs => x.Legal c ∧ LegalRun (x.step c) cs

/-- The counters are the sums over the outstanding grants, and they fit. -/
structure Sound (x : Account) : Prop where
  inflight : ∀ c, x.acct.inflight c = outstanding (onClass c) x.grants
  shared : x.acct.shared = outstanding onShared x.grants
  fits : ∀ c, (x.acct.inflight c).entries ≤ (pool c).entries ∧
    (x.acct.inflight c).bytes ≤ (pool c).bytes
  sharedFits : x.acct.shared.entries ≤ sharedEntries ∧ x.acct.shared.bytes ≤ sharedBytes
  terminal : ∀ id job, x.acct.jobs.get? id = some job → job.tUsed = true →
    id ≠ [] ∧ ∃ g ∈ x.grants, g.cls = .T ∧ g.jobId = some id ∧ g.reserved = true

theorem sound_initial : Sound initial where
  inflight _ := rfl
  shared := rfl
  fits _ := ⟨Nat.zero_le _, Nat.zero_le _⟩
  sharedFits := ⟨Nat.zero_le _, Nat.zero_le _⟩
  terminal _ _ h := by cases h

/-- The same counters and fewer reservations. -/
theorem Sound.of_counts {x : Account} (h : x.Sound) {b : Accounting}
    (hi : b.inflight = x.acct.inflight) (hs : b.shared = x.acct.shared)
    (hj : ∀ id job, b.jobs.get? id = some job → job.tUsed = true →
      x.acct.jobs.get? id = some job) : Sound ⟨b, x.grants⟩ where
  inflight c := by rw [show b.inflight c = x.acct.inflight c by rw [hi]]; exact h.inflight c
  shared := hs.trans h.shared
  fits c := by rw [show b.inflight c = x.acct.inflight c by rw [hi]]; exact h.fits c
  sharedFits := by rw [show b.shared = x.acct.shared from hs]; exact h.sharedFits
  terminal id job hg ht := h.terminal id job (hj id job hg ht) ht

/-- The order of the grants does not matter. -/
theorem Sound.perm {a : Accounting} {gs gs' : List Grant} (h : Sound ⟨a, gs⟩) (hp : gs.Perm gs') :
    Sound ⟨a, gs'⟩ where
  inflight c := (h.inflight c).trans (outstanding_perm _ hp)
  shared := h.shared.trans (outstanding_perm _ hp)
  fits := h.fits
  sharedFits := h.sharedFits
  terminal id job hj ht := by
    obtain ⟨hne, g, hg, hgt⟩ := h.terminal id job hj ht
    exact ⟨hne, g, hp.mem_iff.mp hg, hgt⟩

theorem sound_admit {x : Account} (h : x.Sound) (c : Text) (bytes : Option Int)
    (jobId : Option Text) (t : Nat) : (x.step (.admitUnit c bytes jobId t)).Sound := by
  rcases x.acct.admit_cases c bytes jobId t with ⟨hok, hs⟩ | ⟨d, n, hok, hd⟩
  · have hg : granted (x.acct.admitUnit c bytes jobId t).1 bytes jobId = [] := by
      rw [granted, hok]
    have hstep : x.step (.admitUnit c bytes jobId t) = ⟨(x.acct.admitUnit c bytes jobId t).2, x.grants⟩ := by
      rw [step, hg, List.append_nil]
    rw [hstep]
    exact h.of_counts hs.inflight hs.shared fun id job hj _ => hs.jobs ▸ hj
  · have hg : granted (x.acct.admitUnit c bytes jobId t).1 bytes jobId
        = [⟨d, n, jobId, (x.acct.admitUnit c bytes jobId t).1.reserved⟩] := by
      rw [granted, hok, hd.cls, hd.size]
    rw [step, hg]
    refine ⟨fun e => ?_, ?_, fun e => ?_, ?_, fun id job hj ht => ?_⟩
    · simp only [outstanding_append, hd.inflight, atClass, ← h.inflight]
      by_cases he : e = d
      · subst he
        simp [onClass]
      · simp [onClass, he, Ne.symm he]
    · simp only [outstanding_append, hd.shared, ← h.shared]
      by_cases hR : d = .R ∧ (x.acct.admitUnit c bytes jobId t).1.reserved = false
      · simp [onShared, hR]
      · rw [if_neg hR, if_neg]
        simpa [onShared] using hR
    · simp only [hd.inflight, atClass]
      by_cases he : e = d
      · subst he
        simpa [Amount.add] using hd.fits
      · rw [if_neg he]
        exact h.fits e
    · simp only [hd.shared]
      by_cases hR : d = .R ∧ (x.acct.admitUnit c bytes jobId t).1.reserved = false
      · rw [if_pos hR]
        exact hd.sharedFits hR
      · rw [if_neg hR]
        exact h.sharedFits
    · rcases hd.terminal id job hj ht with ⟨prior, hp, hpt⟩ | ⟨rfl, hne, hid, hr⟩
      · obtain ⟨hne, g, hg, hgt⟩ := h.terminal id prior hp hpt
        exact ⟨hne, g, List.mem_append_left _ hg, hgt⟩
      · exact ⟨hne, _, List.mem_append_right _ (List.mem_singleton_self _), rfl, hid, hr⟩

/-- What giving a grant back does to the counters and to the terminal units. -/
theorem release_spec (a : Accounting) (g : Grant) :
    (a.release g.cls g.bytes g.jobId g.reserved).inflight
        = atClass a.inflight g.cls ((a.inflight g.cls).sub g.bytes) ∧
      (a.release g.cls g.bytes g.jobId g.reserved).shared
        = (if onShared g then a.shared.sub g.bytes else a.shared) ∧
      ∀ id job, (a.release g.cls g.bytes g.jobId g.reserved).jobs.get? id = some job →
        job.tUsed = true → a.jobs.get? id = some job ∧
          ¬ (g.cls = .T ∧ g.reserved = true ∧ g.jobId = some id ∧ id ≠ []) := by
  have hret : ∀ (b : Accounting), (b.returnTerminal g.jobId).inflight = b.inflight ∧
      (b.returnTerminal g.jobId).shared = b.shared ∧
      ∀ id job, (b.returnTerminal g.jobId).jobs.get? id = some job → job.tUsed = true →
        b.jobs.get? id = some job ∧ ¬ (g.jobId = some id ∧ id ≠ []) := by
    intro b
    unfold Accounting.returnTerminal
    split
    · next hn =>
      refine ⟨rfl, rfl, fun id job hj _ => ⟨hj, ?_⟩⟩
      rintro ⟨hid, hne⟩
      rw [Accounting.jobOf, hid, Option.bind_some, if_neg hne, hj] at hn
      cases hn
    · next i prior hp =>
      obtain ⟨hid, hne, -⟩ := Accounting.jobOf_eq_some hp
      refine ⟨rfl, rfl, fun id job hj ht => ?_⟩
      rcases Accounting.get?_set_job hj with ⟨rfl, rfl⟩ | hj'
      · cases ht
      · refine ⟨hj', ?_⟩
        rintro ⟨hid', -⟩
        rw [hid] at hid'
        cases hid'
        simp only [OrdMap.get?_set_self, Option.some.injEq] at hj
        rw [← hj] at ht
        cases ht
  have hR : ∀ b : Accounting, (if g.cls = .R ∧ g.reserved = false then
      { b with shared := b.shared.sub g.bytes } else b) =
      { b with shared := if onShared g then b.shared.sub g.bytes else b.shared } := by
    intro b
    by_cases h : g.cls = .R ∧ g.reserved = false
    · rw [if_pos h, if_pos (by simpa [onShared] using h)]
    · rw [if_neg h, if_neg (by simpa [onShared] using h)]
  unfold Accounting.release
  simp only [hR]
  by_cases h : g.cls = .T ∧ g.reserved = true
  · rw [if_pos h]
    obtain ⟨h1, h2, h3⟩ := hret { a with
      inflight := atClass a.inflight g.cls ((a.inflight g.cls).sub g.bytes) }
    refine ⟨h1, by rw [h2], fun id job hj ht => ?_⟩
    obtain ⟨hj', hn⟩ := h3 id job hj ht
    exact ⟨hj', fun hc => hn hc.2.2⟩
  · rw [if_neg h]
    exact ⟨rfl, rfl, fun id job hj _ => ⟨hj, fun hc => h ⟨hc.1, hc.2.1⟩⟩⟩

theorem sound_release {x : Account} (h : x.Sound) {g : Grant} (hg : g ∈ x.grants) :
    (x.step (.release g)).Sound := by
  obtain ⟨hi, hs, ht⟩ := release_spec x.acct g
  have hle : ∀ (y : Amount) n, (y.sub n).entries ≤ y.entries ∧ (y.sub n).bytes ≤ y.bytes :=
    fun y n => ⟨Nat.sub_le _ _, Nat.sub_le _ _⟩
  refine ⟨fun c => ?_, ?_, fun c => ?_, ?_, fun id job hj hu => ?_⟩
  · simp only [step, hi, atClass, outstanding_erase _ hg, ← h.inflight]
    by_cases hc : c = g.cls
    · simp [onClass, hc]
    · simp [onClass, hc, Ne.symm hc]
  · simp only [step, hs, outstanding_erase _ hg, ← h.shared]
  · simp only [step, hi, atClass]
    split
    · next hc =>
      subst hc
      obtain ⟨h1, h2⟩ := h.fits g.cls
      obtain ⟨h3, h4⟩ := hle (x.acct.inflight g.cls) g.bytes
      exact ⟨Nat.le_trans h3 h1, Nat.le_trans h4 h2⟩
    · exact h.fits c
  · simp only [step, hs]
    obtain ⟨h1, h2⟩ := h.sharedFits
    split
    · obtain ⟨h3, h4⟩ := hle x.acct.shared g.bytes
      exact ⟨Nat.le_trans h3 h1, Nat.le_trans h4 h2⟩
    · exact ⟨h1, h2⟩
  · obtain ⟨hj', hn⟩ := ht id job hj hu
    obtain ⟨hne, g', hg', h1, h2, h3⟩ := h.terminal id job hj' hu
    have hgg : g' ≠ g := by
      rintro rfl
      exact hn ⟨h1, h3, h2, hne⟩
    exact ⟨hne, g', (List.mem_erase_of_ne hgg).mpr hg', h1, h2, h3⟩

/-- **Every legal call keeps the counters right.** -/
theorem Sound.step {x : Account} (h : x.Sound) {c : Call} (hc : x.Legal c) : (x.step c).Sound := by
  cases c with
  | reserveJob id t =>
    rcases x.acct.reserveJob_cases id t with hs | ⟨-, hi, hs, -, hj⟩
    · exact h.of_counts hs.inflight hs.shared fun i job hg _ => hs.jobs ▸ hg
    · refine h.of_counts hi hs fun i job hg ht => ?_
      rw [hj] at hg
      rcases Accounting.get?_set_job hg with ⟨-, rfl⟩ | hg
      · cases ht
      · exact hg
  | releaseJob id =>
    refine h.of_counts rfl rfl fun i job hg _ => ?_
    simp only [Accounting.releaseJob, OrdMap.get?_delete] at hg
    split at hg
    · cases hg
    · exact hg
  | reserveAct sid =>
    have hs : (x.acct.reserveAct sid).2.inflight = x.acct.inflight ∧
        (x.acct.reserveAct sid).2.shared = x.acct.shared ∧
        (x.acct.reserveAct sid).2.jobs = x.acct.jobs := by
      unfold Accounting.reserveAct
      split
      · exact ⟨rfl, rfl, rfl⟩
      split <;> exact ⟨rfl, rfl, rfl⟩
    exact h.of_counts hs.1 hs.2.1 fun i job hg _ => hs.2.2 ▸ hg
  | releaseAct sid => exact h.of_counts rfl rfl fun i job hg _ => hg
  | admitUnit c bytes jobId t => exact sound_admit h c bytes jobId t
  | release g => exact sound_release h hc

theorem Sound.run {x : Account} (h : x.Sound) {calls : List Call} (hc : x.LegalRun calls) :
    (x.run calls).Sound := by
  induction calls generalizing x with
  | nil => exact h
  | cons c calls ih => exact ih (h.step hc.1) hc.2

theorem Sound.check {x : Account} (h : x.Sound) : x.acct.check.ok := by
  have hover : ∀ c, x.acct.overPool c = false := by
    intro c
    have := h.fits c
    simp only [Accounting.overPool, Bool.or_eq_false_iff, decide_eq_false_iff_not, Nat.not_lt]
    exact this
  have hT := h.fits .T
  have hR := h.fits .R
  have hL := h.fits .L
  have hO := h.fits .O
  have hI := h.fits .I
  simp only [pool] at hT hR hL hO hI
  have hs := h.sharedFits
  have hshared : ¬ (sharedEntries < x.acct.shared.entries ∨ sharedBytes < x.acct.shared.bytes) := by
    omega
  have htotal : ¬ (poolTotals.entries < (Class.all.map fun c => (x.acct.inflight c).entries).sum ∨
      poolTotals.bytes < (Class.all.map fun c => (x.acct.inflight c).bytes).sum) := by
    simp only [Class.all, List.map_cons, List.map_nil, List.sum_cons, List.sum_nil, poolTotals]
    omega
  simp only [Accounting.check, Accounting.Check.ok]
  rw [if_neg hshared, if_neg htotal]
  simp [hover]

/-- A call that is refused moves no counter and no reservation. -/
theorem step_of_refuses {x : Account} {c : Call} (h : x.refuses c = true) :
    x.acct.SameCounts (x.step c).acct ∧ (x.step c).grants = x.grants := by
  cases c with
  | reserveJob id t =>
    simp only [refuses, Bool.not_eq_true'] at h
    rcases x.acct.reserveJob_cases id t with hs | ⟨hok, -⟩
    · exact ⟨hs, rfl⟩
    · rw [hok] at h; cases h
  | reserveAct sid =>
    simp only [refuses, Bool.not_eq_true'] at h
    refine ⟨?_, rfl⟩
    unfold Accounting.reserveAct at h
    simp only [step]
    unfold Accounting.reserveAct
    split
    · exact .refl _
    · next h1 =>
      rw [if_neg h1] at h
      split
      · exact .refl _
      · next h2 => rw [if_neg h2] at h; cases h
  | admitUnit c bytes jobId t =>
    simp only [refuses, Bool.not_eq_true'] at h
    rcases x.acct.admit_cases c bytes jobId t with ⟨-, hs⟩ | ⟨d, n, hok, -⟩
    · refine ⟨hs, ?_⟩
      simp only [step, granted, h, List.append_nil]
    · rw [hok] at h; cases h
  | releaseJob id => cases h
  | releaseAct sid => cases h
  | release g => cases h

/-- Giving back some grants, each outstanding. -/
theorem legalRun_release {gs : List Grant} {x : Account} (rest : List Grant)
    (h : x.grants.Perm (gs ++ rest)) :
    x.LegalRun (gs.map .release) ∧ (x.run (gs.map .release)).grants.Perm rest := by
  induction gs generalizing x with
  | nil => exact ⟨trivial, h⟩
  | cons g gs ih =>
    have hg : g ∈ x.grants := h.mem_iff.mpr (by simp)
    have hstep : (x.step (.release g)).grants.Perm (gs ++ rest) := by
      have := h.erase g
      rwa [List.cons_append, List.erase_cons_head] at this
    obtain ⟨h1, h2⟩ := ih hstep
    exact ⟨⟨hg, h1⟩, h2⟩

end Account

/-! ## The accounting over any sequence of calls -/

end Telepty.Ledger
