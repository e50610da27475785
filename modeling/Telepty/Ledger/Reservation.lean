import Telepty.Ledger.Accounting

/-!
# Reserved units

A job reserves one terminal unit and two result units. A reservation is counted over the jobs that
are there, an admission over what is in flight; the units that a job leaves in flight when it is
released are in the second count only. `run_honours` says that the jobs get what they reserved as
long as each new reservation finds room for its units beside those in flight and those still owed;
`reservation_not_honoured` is a run in which released jobs leave the terminal pool full.
-/

namespace Telepty.Ledger

open Infra

/-! ## Sums over jobs -/

namespace Accounting

/-- What the jobs owe, added up. -/
def owed (f : Job → Nat) (a : Accounting) : Nat := (a.jobs.values.map f).sum

/-- A terminal unit that is not in flight. -/
def terminalOwed (job : Job) : Nat := if job.tUsed then 0 else 1

/-- The result units that a job has not consumed. -/
def resultsOwed (job : Job) : Nat := reservedPerJob - job.rUsed

variable {a : Accounting} {id : Text} {job job' : Job} (f : Job → Nat)

theorem owed_of_get? (h : a.jobs.get? id = some job) :
    a.owed f = f job + owed f { a with jobs := a.jobs.delete id } := by
  rw [owed, OrdMap.values, ((a.jobs.perm_delete h).map Prod.snd |>.map f).sum_eq, List.map_cons,
    List.map_cons, List.sum_cons]
  rfl

theorem owed_delete_le (id : Text) : owed f { a with jobs := a.jobs.delete id } ≤ a.owed f := by
  cases h : a.jobs.get? id with
  | none =>
    exact Nat.le_of_eq (by rw [owed, owed, OrdMap.values, OrdMap.values, a.jobs.delete_of_none h])
  | some job =>
    rw [owed_of_get? f h]
    exact Nat.le_add_left _ _

/-- A job that changes. -/
theorem owed_set (h : a.jobs.get? id = some job) (job' : Job) :
    owed f { a with jobs := a.jobs.set id job' } + f job = a.owed f + f job' := by
  have hdel : (a.jobs.set id job').delete id = a.jobs.delete id :=
    OrdMap.ext (by
      show (assocSet id job' a.jobs.entries).filter (fun e => e.1 ≠ id) = _
      rw [filter_assocSet (fun k => decide (k ≠ id))]
      simp [OrdMap.delete, OrdMap.filter])
  have hset : (a.jobs.set id job').get? id = some job' := a.jobs.get?_set_self
  rw [owed_of_get? f h, owed_of_get? (a := { a with jobs := a.jobs.set id job' }) f hset]
  simp only [hdel]
  omega

/-- A job that comes. -/
theorem owed_set_new (h : a.jobs.get? id = none) (job : Job) :
    owed f { a with jobs := a.jobs.set id job } = a.owed f + f job := by
  rw [owed, owed, OrdMap.values, OrdMap.values, a.jobs.entries_set_of_none h, List.map_append,
    List.map_append, List.sum_append]
  rfl

theorem owed_congr {a b : Accounting} (h : b.jobs = a.jobs) : b.owed f = a.owed f := by
  rw [owed, owed, h]

/-! ## What the calls do to the jobs -/

/-- A reservation is made: the job has none, there are not too many jobs, and no class is
exhausted. -/
def Opens (a : Accounting) (id : Text) (t : Nat) : Prop :=
  a.jobs.has id = false ∧ a.jobs.size + 1 ≤ rMaxJobs ∧ (a.sustainedExhaustion t).1 = none

theorem reserveJob_opens (id : Text) (t : Nat) (a : Accounting) :
    (a.reserveJob id t).2.jobs = a.jobs ∨
      a.Opens id t ∧ (a.reserveJob id t).2.jobs = a.jobs.set id ⟨0, false⟩ := by
  have hs := (sameCounts_sustainedOver t [.O, .R, .L] a).jobs
  unfold reserveJob
  split
  · exact .inl rfl
  next hnew =>
  split
  · exact .inl rfl
  next hmax =>
  split
  · next c b hb =>
    rw [sustainedExhaustion] at hb
    rw [hb] at hs
    exact .inl hs
  · next b hb =>
    have hnone : (a.sustainedExhaustion t).1 = none := by rw [hb]
    rw [sustainedExhaustion] at hb
    rw [hb] at hs
    simp only
    split
    · exact .inl hs
    split
    · exact .inl hs
    · exact .inr ⟨⟨by simpa using hnew, Nat.not_lt.mp hmax, hnone⟩, by rw [← hs]⟩

/-- Giving a unit back can make a terminal unit of one job free again. -/
theorem jobs_release (c : Class) (n : Nat) (jobId : Option Text) (reserved : Bool)
    (a : Accounting) :
    (a.release c n jobId reserved).jobs = a.jobs ∨
      c = .T ∧ ∃ id job, a.jobs.get? id = some job ∧
        (a.release c n jobId reserved).jobs = a.jobs.set id { job with tUsed := false } := by
  have hshared : ∀ b : Accounting, (if c = .R ∧ reserved = false then
      { b with shared := b.shared.sub n } else b).jobs = b.jobs := by
    intro b
    split
    · rfl
    · rfl
  unfold release
  rw [hshared]
  by_cases h : c = .T ∧ reserved = true
  · rw [if_pos h]
    unfold returnTerminal
    split
    · exact .inl rfl
    · next id job hjob => exact .inr ⟨h.1, id, job, (jobOf_eq_some hjob).2.2, rfl⟩
  · rw [if_neg h]
    exact .inl rfl

/-- **An admission takes a terminal unit or a result unit of one job, or leaves the jobs as they
are.** -/
inductive Draws (a b : Accounting) (r : Reply) (n : Nat) : Prop where
  | terminal (id : Text) (job : Job) (hjob : a.jobs.get? id = some job) (hfree : job.tUsed = false)
      (hunit : n ≤ poolUnit) (hcls : r.cls = "T")
      (hjobs : b.jobs = a.jobs.set id { job with tUsed := true })
  | result (id : Text) (job : Job) (hjob : a.jobs.get? id = some job)
      (hleft : job.rUsed < reservedPerJob) (hunit : n ≤ poolUnit) (hcls : r.cls = "R")
      (hreserved : r.reserved = true)
      (hjobs : b.jobs = a.jobs.set id { job with rUsed := job.rUsed + 1 })
  | other (hjobs : b.jobs = a.jobs) (hcls : r.cls ≠ "T")
      (hshared : ¬ (r.cls = "R" ∧ r.reserved = true))

theorem jobs_admitShared (n t : Nat) (a : Accounting) : (a.admitShared n t).2.jobs = a.jobs ∧
    (a.admitShared n t).1.cls = "R" ∧ (a.admitShared n t).1.reserved = false := by
  unfold admitShared
  split
  · exact ⟨rfl, rfl, rfl⟩
  · exact ⟨rfl, rfl, rfl⟩

/-- The jobs after an admission that is granted. -/
theorem draws_of_ok {c : Text} {size : Option Int} {jobId : Option Text} {t n : Nat} {a : Accounting}
    (hsize : validBytes size = some n) (hok : (a.admitUnit c size jobId t).1.ok = true) :
    Draws a (a.admitUnit c size jobId t).2 (a.admitUnit c size jobId t).1 n := by
  unfold admitUnit at hok ⊢
  rw [hsize] at hok ⊢
  split
  · next h =>
    rw [h] at hok
    cases hok
  · next h => cases h
  · next b hc hb =>
    cases hb
    rw [hc] at hok
    simp only at hok
    unfold admitT at hok ⊢
    split
    · next hn => rw [hn] at hok; cases hok
    · next id job hjob =>
      obtain ⟨-, -, hget⟩ := jobOf_eq_some hjob
      rw [hjob] at hok
      simp only at hok
      by_cases h1 : job.tUsed = true
      · rw [if_pos h1] at hok; cases hok
      rw [if_neg h1] at hok ⊢
      by_cases h2 : poolUnit < n
      · rw [if_pos h2] at hok; cases hok
      rw [if_neg h2] at hok ⊢
      by_cases h3 : a.room .T 1 n = false
      · rw [if_pos h3] at hok; cases hok
      rw [if_neg h3]
      exact .terminal id job hget (by simpa using h1) (Nat.not_lt.mp h2) rfl rfl
  · next b hc hb =>
    cases hb
    unfold admitR
    obtain ⟨h1, h2, h3⟩ := jobs_admitShared n t a
    have hshared : Draws a (a.admitShared n t).2 (a.admitShared n t).1 n :=
      .other h1 (by rw [h2]; decide) (fun h => by rw [h3] at h; cases h.2)
    split
    · exact hshared
    · next id job hjob =>
      obtain ⟨-, -, hget⟩ := jobOf_eq_some hjob
      split
      · next h => exact .result id job hget h.1 h.2.1 rfl rfl rfl
      · exact hshared
  · next b hc hb =>
    cases hb
    have hI : ("I" : Text) ≠ "T" ∧ ("I" : Text) ≠ "R" := by decide
    unfold admitI
    simp only
    split
    · exact .other rfl hI.1 fun h => hI.2 h.1
    split
    · exact .other rfl hI.1 fun h => hI.2 h.1
    · exact .other rfl hI.1 fun h => hI.2 h.1
  · next d b hT hR hI hc hb =>
    cases hb
    have hdT : d.text ≠ "T" := by
      intro h
      cases d with
      | T => exact hT rfl
      | _ => cases h
    have hdR : d.text ≠ "R" := by
      intro h
      cases d with
      | R => exact hR rfl
      | _ => cases h
    unfold admitPool
    split
    · exact .other rfl hdT fun h => hdR h.1
    · exact .other rfl hdT fun h => hdR h.1

end Accounting

/-! ## Units in flight -/

/-- The grants on a job's reserved results. -/
def onReserved (g : Grant) : Bool := g.cls = .R && g.reserved

/-- The results in flight are those of the shared part and the reserved ones. -/
theorem outstanding_results (gs : List Grant) :
    (outstanding (onClass .R) gs).entries
        = (outstanding onShared gs).entries + (outstanding onReserved gs).entries ∧
      (outstanding (onClass .R) gs).bytes
        = (outstanding onShared gs).bytes + (outstanding onReserved gs).bytes := by
  induction gs using List.reverseRecOn with
  | nil => exact ⟨rfl, rfl⟩
  | append_singleton gs g ih =>
    rw [outstanding_append, outstanding_append, outstanding_append]
    by_cases hc : g.cls = .R
    · cases hr : g.reserved with
      | true =>
        simp only [onClass, onShared, onReserved, hc, hr, decide_true, Bool.not_true, Bool.and_false,
          Bool.and_true, if_true, Amount.add]
        simp only [Bool.false_eq_true, if_false]
        omega
      | false =>
        simp only [onClass, onShared, onReserved, hc, hr, decide_true, Bool.not_false, Bool.and_false,
          Bool.and_true, if_true, Amount.add]
        simp only [Bool.false_eq_true, if_false]
        omega
    · simp only [onClass, onShared, onReserved, hc, decide_false, Bool.false_and, Bool.false_eq_true,
        if_false]
      exact ih

theorem outstanding_bytes_le {p : Grant → Bool} {gs : List Grant} {u : Nat}
    (h : ∀ g ∈ gs, p g = true → g.bytes ≤ u) :
    (outstanding p gs).bytes ≤ (outstanding p gs).entries * u := by
  have hsum : ∀ l : List Grant, (∀ g ∈ l, g.bytes ≤ u) → (l.map Grant.bytes).sum ≤ l.length * u := by
    intro l
    induction l with
    | nil => exact fun _ => Nat.zero_le _
    | cons g l ih =>
      intro hl
      have h1 := hl g List.mem_cons_self
      have h2 := ih fun g' hg' => hl g' (List.mem_cons_of_mem _ hg')
      rw [List.map_cons, List.sum_cons, List.length_cons, Nat.succ_mul]
      omega
  exact hsum _ fun g hg => h g (List.mem_of_mem_filter hg) (List.mem_filter.mp hg).2

theorem outstanding_erase_le (p : Grant → Bool) (gs : List Grant) (g : Grant) :
    (outstanding p (gs.erase g)).entries ≤ (outstanding p gs).entries :=
  (List.erase_sublist.filter p).length_le

namespace Account

open Accounting

/-- The terminal units in flight and those that the jobs can still take. -/
def terminalDemand (x : Account) : Nat :=
  (outstanding (onClass .T) x.grants).entries + x.acct.owed terminalOwed

/-- The reserved results in flight and those that the jobs have not consumed. -/
def resultDemand (x : Account) : Nat :=
  (outstanding onReserved x.grants).entries + x.acct.owed resultsOwed

/-- **A new reservation has room for its units** beside the units in flight and those still owed, and
it is made under a name. -/
def Roomy (x : Account) : Call → Prop
  | .reserveJob id t => x.acct.Opens id t → id ≠ [] ∧ x.terminalDemand + 1 ≤ (pool .T).entries ∧
      x.resultDemand + reservedPerJob ≤ (pool .R).entries - sharedEntries
  | _ => True

/-- Every reservation of a sequence of calls has room where it is made. -/
def RoomyRun : Account → List Call → Prop
  | _, [] => True
  | x, c :: cs => x.Roomy c ∧ RoomyRun (x.step c) cs

/-- **The jobs get what they reserved**: a result for each unit they have not consumed, a terminal
unit as long as none is in flight. -/
def Honours (x : Account) : Prop :=
  ∀ id job, x.acct.jobs.get? id = some job → ∀ bytes t : Nat, bytes ≤ poolUnit →
    (job.rUsed < reservedPerJob → (x.acct.admitUnit "R" (some bytes) (some id) t).1
      = { ok := true, cls := "R", reserved := true }) ∧
    (job.tUsed = false → (x.acct.admitUnit "T" (some bytes) (some id) t).1
      = { ok := true, cls := "T", reserved := true })

/-- The reservations are backed by the pools. -/
structure Backed (x : Account) : Prop where
  sound : x.Sound
  named : ∀ id job, x.acct.jobs.get? id = some job → id ≠ []
  units : ∀ g ∈ x.grants, g.cls = .T ∨ onReserved g = true → g.bytes ≤ poolUnit
  terminals : x.terminalDemand ≤ (pool .T).entries
  results : x.resultDemand ≤ (pool .R).entries - sharedEntries

theorem backed_initial : initial.Backed :=
  ⟨sound_initial, fun _ _ h => (by cases h), fun _ h => (by cases h), by decide, by decide⟩

variable {x : Account}

theorem jobOf_of_get? {a : Accounting} {id : Text} {job : Job} (hid : id ≠ [])
    (h : a.jobs.get? id = some job) : a.jobOf (some id) = some (id, job) := by
  rw [jobOf, Option.bind_some, if_neg hid, h]
  rfl

theorem validBytes_cast (n : Nat) : validBytes (some (n : Int)) = some n := by
  simp [validBytes]

theorem owed_pos {f : Job → Nat} {a : Accounting} {id : Text} {job : Job}
    (h : a.jobs.get? id = some job) : f job ≤ a.owed f := by
  rw [owed_of_get? f h]
  exact Nat.le_add_right _ _

/-- Where the reservations are backed, they are honoured. -/
theorem Backed.honours (h : x.Backed) : x.Honours := by
  intro id job hjob bytes t hbytes
  have hof := jobOf_of_get? (h.named id job hjob) hjob
  have hclassR : Class.ofText "R" = some .R := by decide
  have hclassT : Class.ofText "T" = some .T := by decide
  refine ⟨fun hused => ?_, fun hfree => ?_⟩
  · have hroom : x.acct.room .R 1 bytes = true := by
      rw [room_iff, h.sound.inflight]
      obtain ⟨h1, h2⟩ := outstanding_results x.grants
      have hshared := h.sound.sharedFits
      rw [h.sound.shared] at hshared
      have howed : 1 ≤ x.acct.owed resultsOwed := by
        refine Nat.le_trans ?_ (owed_pos hjob)
        rw [resultsOwed]
        omega
      have hdemand := h.results
      rw [resultDemand] at hdemand
      have hunits := outstanding_bytes_le (p := onReserved) (u := poolUnit) fun g hg hr =>
        h.units g hg (.inr hr)
      rw [h1, h2]
      simp only [pool, sharedEntries, sharedBytes, poolUnit] at *
      omega
    rw [admitUnit, hclassR, validBytes_cast]
    simp only
    rw [admitR, hof]
    simp only
    rw [if_pos ⟨hused, hbytes, hroom⟩]
  · have hroom : x.acct.room .T 1 bytes = true := by
      rw [room_iff, h.sound.inflight]
      have howed : 1 ≤ x.acct.owed terminalOwed := by
        refine Nat.le_trans ?_ (owed_pos hjob)
        rw [terminalOwed, hfree]
        decide
      have hdemand := h.terminals
      rw [terminalDemand] at hdemand
      have hpooled : ∀ g ∈ x.grants, onClass .T g = true → g.bytes ≤ poolUnit :=
        fun g hg ht => h.units g hg (.inl (by simpa [onClass] using ht))
      have hunits := outstanding_bytes_le hpooled
      simp only [pool, poolUnit] at *
      omega
    rw [admitUnit, hclassT, validBytes_cast]
    simp only
    rw [admitT, hof]
    simp only
    rw [if_neg (by simp [hfree]), if_neg (Nat.not_lt.mpr hbytes), if_neg (by simp [hroom])]

/-! ## What a call keeps -/

/-- The same jobs, with less in flight. -/
theorem Backed.of_jobs (h : x.Backed) {y : Account} (hs : y.Sound) (hj : y.acct.jobs = x.acct.jobs)
    (hg : ∀ g ∈ y.grants, g ∈ x.grants ∨ ¬ (g.cls = .T ∨ onReserved g = true))
    (ht : (outstanding (onClass .T) y.grants).entries ≤ (outstanding (onClass .T) x.grants).entries)
    (hr : (outstanding onReserved y.grants).entries ≤ (outstanding onReserved x.grants).entries) :
    y.Backed where
  sound := hs
  named id job hjob := h.named id job (hj ▸ hjob)
  units g hmem hclass := by
    rcases hg g hmem with hx | hx
    · exact h.units g hx hclass
    · exact absurd hclass hx
  terminals := by
    have := h.terminals
    rw [terminalDemand] at this ⊢
    rw [owed_congr _ hj]
    omega
  results := by
    have := h.results
    rw [resultDemand] at this ⊢
    rw [owed_congr _ hj]
    omega

theorem backed_reserveJob (h : x.Backed) {id : Text} {t : Nat} (hroomy : x.Roomy (.reserveJob id t)) :
    (x.step (.reserveJob id t)).Backed := by
  have hs : (x.step (.reserveJob id t)).Sound := h.sound.step trivial
  rcases x.acct.reserveJob_opens id t with hj | ⟨hopens, hj⟩
  · exact h.of_jobs hs hj (fun g hg => .inl hg) (Nat.le_refl _) (Nat.le_refl _)
  · obtain ⟨hne, hT, hR⟩ := hroomy hopens
    have hnew := x.acct.jobs.has_eq_false_iff.mp hopens.1
    have howed : ∀ f : Job → Nat, (x.step (.reserveJob id t)).acct.owed f
        = x.acct.owed f + f ⟨0, false⟩ := fun f => by
      rw [← owed_set_new f hnew]
      exact owed_congr f hj
    refine ⟨hs, fun i job hi => ?_, h.units, ?_, ?_⟩
    · rw [show (x.step (.reserveJob id t)).acct.jobs = _ from hj] at hi
      rcases get?_set_job hi with ⟨rfl, -⟩ | hi
      · exact hne
      · exact h.named i job hi
    · rw [terminalDemand, howed]
      exact hT
    · rw [resultDemand, howed]
      exact hR

theorem backed_releaseJob (h : x.Backed) (id : Text) : (x.step (.releaseJob id)).Backed := by
  refine ⟨h.sound.step trivial, fun i job hi => ?_, h.units, ?_, ?_⟩
  · simp only [step, releaseJob, OrdMap.get?_delete] at hi
    split at hi
    · cases hi
    · exact h.named i job hi
  · have := h.terminals
    rw [terminalDemand] at this ⊢
    exact Nat.le_trans (Nat.add_le_add_left (owed_delete_le terminalOwed id) _) this
  · have := h.results
    rw [resultDemand] at this ⊢
    exact Nat.le_trans (Nat.add_le_add_left (owed_delete_le resultsOwed id) _) this

theorem named_set (h : x.Backed) {id i : Text} {job job' j : Job}
    (hjob : x.acct.jobs.get? id = some job) (hi : (x.acct.jobs.set id job').get? i = some j) :
    i ≠ [] := by
  rcases get?_set_job hi with ⟨rfl, -⟩ | hi
  · exact h.named _ _ hjob
  · exact h.named _ _ hi

theorem text_of_ofText {t : Text} {c : Class} (h : Class.ofText t = some c) : c.text = t := by
  have := List.find?_some h
  simpa using this

theorem backed_admit (h : x.Backed) (c : Text) (size : Option Int) (jobId : Option Text) (t : Nat) :
    (x.step (.admitUnit c size jobId t)).Backed := by
  have hs : (x.step (.admitUnit c size jobId t)).Sound := h.sound.step trivial
  rcases x.acct.admit_cases c size jobId t with ⟨hok, hsame⟩ | ⟨d, n, hok, hd⟩
  · have hrefused : x.refuses (.admitUnit c size jobId t) = true := by
      rw [refuses, hok]
      rfl
    have hg := (step_of_refuses hrefused).2
    exact h.of_jobs hs hsame.jobs (fun g hmem => .inl (hg ▸ hmem)) (Nat.le_of_eq (by rw [hg]))
      (Nat.le_of_eq (by rw [hg]))
  · have hg : (x.step (.admitUnit c size jobId t)).grants
        = x.grants ++ [⟨d, n, jobId, (x.acct.admitUnit c size jobId t).1.reserved⟩] := by
      rw [step, granted, hok, hd.cls, hd.size]
    have hcls := text_of_ofText hd.cls
    have hT : ("T" : Text) = Class.T.text := rfl
    have hR : ("R" : Text) = Class.R.text := rfl
    have htext : ∀ {e : Class}, d.text = e.text → d = e := by
      intro e he
      cases d <;> cases e <;> first | rfl | (revert he; decide)
    rcases draws_of_ok hd.size hok with
      ⟨id, job, hjob, hfree, hunit, hc, hj⟩ | ⟨id, job, hjob, hleft, hunit, hc, hres, hj⟩ |
      ⟨hj, hnT, hnR⟩
    · obtain rfl : d = .T := htext (by rw [hcls, hc, hT])
      have hset := fun f => owed_set f hjob { job with tUsed := true }
      have hstep : ∀ f, (x.step (.admitUnit c size jobId t)).acct.owed f
          = owed f { x.acct with jobs := x.acct.jobs.set id { job with tUsed := true } } :=
        fun f => owed_congr f hj
      refine ⟨hs, fun i j hi => named_set h hjob (hj ▸ hi), fun g hmem hclass => ?_, ?_, ?_⟩
      · rw [hg, List.mem_append, List.mem_singleton] at hmem
        rcases hmem with hmem | rfl
        · exact h.units g hmem hclass
        · exact hunit
      · have h1 := h.terminals
        have h2 := hset terminalOwed
        rw [terminalDemand] at h1 ⊢
        rw [hstep, hg, outstanding_append]
        simp only [terminalOwed, hfree, onClass, decide_true, if_true, Amount.add,
          Bool.false_eq_true, if_false] at h2 ⊢
        omega
      · have h1 := h.results
        have h2 := hset resultsOwed
        rw [resultDemand] at h1 ⊢
        rw [hstep, hg, outstanding_append]
        simp only [resultsOwed, onReserved, show decide (Class.T = Class.R) = false from rfl,
          Bool.false_and, Bool.false_eq_true, if_false] at h2 ⊢
        omega
    · obtain rfl : d = .R := htext (by rw [hcls, hc, hR])
      have hset := fun f => owed_set f hjob { job with rUsed := job.rUsed + 1 }
      have hstep : ∀ f, (x.step (.admitUnit c size jobId t)).acct.owed f
          = owed f { x.acct with jobs := x.acct.jobs.set id { job with rUsed := job.rUsed + 1 } } :=
        fun f => owed_congr f hj
      refine ⟨hs, fun i j hi => named_set h hjob (hj ▸ hi), fun g hmem hclass => ?_, ?_, ?_⟩
      · rw [hg, List.mem_append, List.mem_singleton] at hmem
        rcases hmem with hmem | rfl
        · exact h.units g hmem hclass
        · exact hunit
      · have h1 := h.terminals
        have h2 := hset terminalOwed
        rw [terminalDemand] at h1 ⊢
        rw [hstep, hg, outstanding_append]
        simp only [terminalOwed, onClass, show decide (Class.R = Class.T) = false from rfl,
          Bool.false_eq_true, if_false] at h2 ⊢
        omega
      · have h1 := h.results
        have h2 := hset resultsOwed
        rw [resultDemand] at h1 ⊢
        rw [hstep, hg, outstanding_append]
        simp only [resultsOwed, onReserved, hres, decide_true, Bool.and_self, if_true,
          Amount.add] at h2 ⊢
        omega
    · have hclass : ¬ (d = .T ∨ onReserved
          ⟨d, n, jobId, (x.acct.admitUnit c size jobId t).1.reserved⟩ = true) := by
        rintro (rfl | hr)
        · exact hnT hcls.symm
        · simp only [onReserved, Bool.and_eq_true, decide_eq_true_eq] at hr
          obtain ⟨rfl, hr⟩ := hr
          exact hnR ⟨hcls.symm, hr⟩
      obtain ⟨hdT, hdR⟩ := not_or.mp hclass
      refine h.of_jobs hs hj (fun g hmem => ?_) ?_ ?_
      · rw [hg, List.mem_append, List.mem_singleton] at hmem
        rcases hmem with hmem | rfl
        · exact .inl hmem
        · exact .inr hclass
      · exact Nat.le_of_eq (by rw [hg, outstanding_append, if_neg (by simpa [onClass] using hdT)])
      · exact Nat.le_of_eq (by rw [hg, outstanding_append, if_neg hdR])

theorem outstanding_entries_erase {p : Grant → Bool} {gs : List Grant} {g : Grant} (h : g ∈ gs)
    (hp : p g = true) :
    (outstanding p gs).entries = (outstanding p (gs.erase g)).entries + 1 := by
  rw [outstanding_perm p (List.perm_cons_erase h), outstanding, outstanding,
    List.filter_cons_of_pos hp, List.length_cons]

theorem backed_release (h : x.Backed) {g : Grant} (hg : g ∈ x.grants) :
    (x.step (.release g)).Backed := by
  have hs : (x.step (.release g)).Sound := h.sound.step hg
  have hmem : ∀ g' ∈ (x.step (.release g)).grants, g' ∈ x.grants := fun g' hg' =>
    List.mem_of_mem_erase hg'
  have hR := outstanding_erase_le onReserved x.grants g
  rcases jobs_release g.cls g.bytes g.jobId g.reserved x.acct with hj | ⟨hc, id, job, hjob, hj⟩
  · exact h.of_jobs hs hj (fun g' hg' => .inl (hmem g' hg')) (outstanding_erase_le _ _ _) hR
  · have hset := fun f => owed_set f hjob { job with tUsed := false }
    have hstep : ∀ f, (x.step (.release g)).acct.owed f
        = owed f { x.acct with jobs := x.acct.jobs.set id { job with tUsed := false } } :=
      fun f => owed_congr f hj
    refine ⟨hs, fun i j hi => named_set h hjob (hj ▸ hi), fun g' hg' => h.units g' (hmem g' hg'),
      ?_, ?_⟩
    · -- the unit that comes back makes up for the one the job can take again
      have h1 := h.terminals
      have h2 := hset terminalOwed
      have h3 := outstanding_entries_erase (p := onClass .T) hg (by simpa [onClass] using hc)
      rw [terminalDemand] at h1 ⊢
      rw [hstep, show (x.step (.release g)).grants = x.grants.erase g from rfl]
      simp only [terminalOwed, Bool.false_eq_true, if_false] at h2 ⊢
      omega
    · have h1 := h.results
      have h2 := hset resultsOwed
      rw [resultDemand] at h1 ⊢
      rw [hstep, show (x.step (.release g)).grants = x.grants.erase g from rfl]
      simp only [resultsOwed] at h2 ⊢
      omega

/-- **A legal call keeps the reservations backed** if it makes none without room. -/
theorem Backed.step (h : x.Backed) {c : Call} (hc : x.Legal c) (hroomy : x.Roomy c) :
    (x.step c).Backed := by
  cases c with
  | reserveJob id t => exact backed_reserveJob h hroomy
  | releaseJob id => exact backed_releaseJob h id
  | reserveAct sid =>
    refine h.of_jobs (h.sound.step trivial) ?_ (fun g hg => .inl hg) (Nat.le_refl _) (Nat.le_refl _)
    simp only [Account.step, reserveAct]
    split
    · rfl
    · split
      · rfl
      · rfl
  | releaseAct sid =>
    exact h.of_jobs (h.sound.step trivial) rfl (fun g hg => .inl hg) (Nat.le_refl _) (Nat.le_refl _)
  | admitUnit c bytes jobId t => exact backed_admit h c bytes jobId t
  | release g => exact backed_release h hc

theorem Backed.run (h : x.Backed) {calls : List Call} (hc : x.LegalRun calls)
    (hroomy : x.RoomyRun calls) : (x.run calls).Backed := by
  induction calls generalizing x with
  | nil => exact h
  | cons c calls ih => exact ih (h.step hc.1 hroomy.1) hc.2 hroomy.2

/-- **Reserved units are there for their jobs**, after any calls whose releases give back outstanding
grants and whose reservations have room. -/
theorem run_honours {calls : List Call} (hc : initial.LegalRun calls)
    (hroomy : initial.RoomyRun calls) : (initial.run calls).Honours :=
  (backed_initial.run hc hroomy).honours

/-- A job that is reserved, decided, released and reserved again. -/
theorem run_honours_again :
    (initial.run [.reserveJob "j" 1, .admitUnit "T" (some 5) (some "j".toList) 1,
      .admitUnit "R" (some 9) (some "j".toList) 1, .releaseJob "j",
      .release ⟨.T, 5, some "j".toList, true⟩, .reserveJob "j" 2]).Honours :=
  run_honours ⟨trivial, trivial, trivial, trivial, List.mem_cons_self, trivial, trivial⟩
    ⟨fun _ => by decide, trivial, trivial, trivial, trivial, fun _ => by decide, trivial⟩

/-! ## Units that stay in flight -/

/-- A job is reserved, its terminal unit is taken, and it is released with the unit in flight; again
and again. -/
def departures : Nat → List Call
  | 0 => []
  | n + 1 => departures n ++
    [.reserveJob "j" 1, .admitUnit "T" (some 0) (some "j".toList) 1, .releaseJob "j"]

/-- No job is there, `n` terminal units are in flight, and nothing was ever refused. -/
structure Departed (n : Nat) (a : Accounting) : Prop where
  jobs : a.jobs = .empty
  terminals : a.inflight .T = ⟨n, 0⟩
  refused : a.lastRejection = fun _ => 0

theorem sustainedOver_of_none_refused (t : Nat) (cs : List Class) {a : Accounting}
    (h : a.lastRejection = fun _ => 0) : (sustainedOver t cs a).1 = none ∧
      (sustainedOver t cs a).2.lastRejection = fun _ => 0 := by
  induction cs generalizing a with
  | nil => exact ⟨rfl, h⟩
  | cons c cs ih =>
    have hnote : (a.noteRoom t c).lastRejection = fun _ => 0 := by
      unfold noteRoom
      split
      · exact h
      · exact h
    have hex : (a.noteRoom t c).exhausted t c = false := by
      simp [exhausted, hnote]
    rw [sustainedOver, hex, if_neg (by decide)]
    exact ih hnote

theorem reserve_of_departed {n : Nat} {a : Accounting} (h : Departed n a) :
    (a.reserveJob "j" 1).2.jobs = (OrdMap.empty.set "j" ⟨0, false⟩ : OrdMap Text Job) ∧
      (a.reserveJob "j" 1).2.inflight .T = ⟨n, 0⟩ ∧
      (a.reserveJob "j" 1).2.lastRejection = fun _ => 0 := by
  have hs := sameCounts_sustainedOver 1 [.O, .R, .L] a
  obtain ⟨hnone, hrej⟩ := sustainedOver_of_none_refused 1 [.O, .R, .L] h.refused
  have hsize : a.jobs.size = 0 := by rw [h.jobs]; rfl
  have hhas : a.jobs.has "j" = false := by rw [h.jobs]; rfl
  unfold reserveJob sustainedExhaustion
  generalize sustainedOver 1 [.O, .R, .L] a = r at hs hnone hrej
  obtain ⟨full, b⟩ := r
  simp only at hs hnone hrej
  subst hnone
  have hsizeb : b.jobs.size = 0 := by rw [hs.jobs, hsize]
  rw [hhas, hsize]
  simp only [hsizeb]
  rw [if_neg (by decide), if_neg (by decide), if_neg (by decide), if_neg (by decide)]
  exact ⟨by rw [hs.jobs, h.jobs], by rw [← h.terminals, ← hs.inflight], hrej⟩

theorem departed_round {x : Account} {n : Nat} (h : Departed n x.acct) (hn : n < 512) :
    Departed (n + 1) (x.run [.reserveJob "j" 1, .admitUnit "T" (some 0) (some "j".toList) 1,
      .releaseJob "j"]).acct := by
  obtain ⟨hj, ht, hr⟩ := reserve_of_departed h
  have hget : ((x.acct.reserveJob "j" 1).2.jobs.get? "j") = some ⟨0, false⟩ := by
    rw [hj]
    rfl
  have hof := jobOf_of_get? (by decide) hget
  have hroom : (x.acct.reserveJob "j" 1).2.room .T 1 0 = true := by
    rw [room_iff, ht]
    exact ⟨Nat.succ_le_of_lt hn, Nat.zero_le _⟩
  have hadmit : (x.acct.reserveJob "j" 1).2.admitUnit "T" (some 0) (some "j".toList) 1
      = ({ ok := true, cls := "T", reserved := true },
        admitted .T 0 { (x.acct.reserveJob "j" 1).2 with
          jobs := (x.acct.reserveJob "j" 1).2.jobs.set "j" ⟨0, true⟩ }) := by
    rw [admitUnit, show Class.ofText "T" = some .T by decide,
      show validBytes (some 0) = some 0 from rfl]
    simp only
    rw [admitT, hof]
    simp only
    rw [if_neg (by decide), if_neg (by decide), if_neg (by rw [hroom]; decide)]
  simp only [Account.run, List.foldl_cons, List.foldl_nil, Account.step, hadmit]
  refine ⟨?_, ?_, hr⟩
  · simp only [releaseJob, admitted, hj]
    rfl
  · simp only [releaseJob, admitted, atClass, if_true, ht, Amount.add]

theorem departed_departures {n : Nat} (hn : n ≤ 512) :
    Departed n (initial.run (departures n)).acct := by
  induction n with
  | zero => exact ⟨rfl, rfl, rfl⟩
  | succ n ih =>
    rw [departures, Account.run, List.foldl_append]
    exact departed_round (ih (by omega)) (by omega)

theorem legalRun_of_no_release {calls : List Call} (h : ∀ c ∈ calls, ∀ g, c ≠ .release g)
    (x : Account) : x.LegalRun calls := by
  induction calls generalizing x with
  | nil => trivial
  | cons c calls ih =>
    refine ⟨?_, ih (fun c' hc' => h c' (List.mem_cons_of_mem _ hc')) _⟩
    cases c with
    | release g => exact absurd rfl (h _ List.mem_cons_self g)
    | _ => trivial

theorem run_concat (x : Account) (calls : List Call) (c : Call) :
    x.run (calls ++ [c]) = (x.run calls).step c := List.foldl_concat ..

/-- With the pool full of units that stayed, a new job does not get its own. -/
theorem Departed.not_honours (h : Departed 512 x.acct) :
    ¬ (x.step (.reserveJob "j" 1)).Honours := by
  intro hon
  obtain ⟨hj, ht, -⟩ := reserve_of_departed h
  have hget : (x.acct.reserveJob "j" 1).2.jobs.get? "j" = some ⟨0, false⟩ := by
    rw [hj]
    rfl
  have hroom : (x.acct.reserveJob "j" 1).2.room .T 1 0 = false := by
    rw [← Bool.not_eq_true, room_iff, ht]
    exact fun hle => absurd hle.1 (by decide)
  have hreply : ((x.acct.reserveJob "j" 1).2.admitUnit "T" (some ((0 : Nat) : Int)) (some "j") 1).1
      = { ok := true, cls := "T", reserved := true } :=
    (hon "j" ⟨0, false⟩ hget 0 1 (Nat.zero_le _)).2 rfl
  have hrefused : ((x.acct.reserveJob "j" 1).2.admitUnit "T" (some ((0 : Nat) : Int))
      (some "j") 1).1 = noRoom .T "pool" := by
    rw [admitUnit, show Class.ofText "T" = some .T by decide, validBytes_cast]
    simp only
    rw [admitT, jobOf_of_get? (by decide) hget]
    simp only
    rw [if_neg (by decide), if_neg (by decide), if_pos hroom]
  rw [hrefused] at hreply
  exact absurd hreply (by decide)

theorem no_release_departures (n : Nat) : ∀ c ∈ departures n, ∀ g, c ≠ Call.release g := by
  induction n with
  | zero => exact fun c hc => absurd hc List.not_mem_nil
  | succ n ih =>
    intro c hc g
    rw [departures, List.mem_append] at hc
    rcases hc with hc | hc
    · exact ih c hc g
    · simp only [List.mem_cons, List.not_mem_nil, or_false] at hc
      rcases hc with rfl | rfl | rfl <;> rintro ⟨⟩

theorem not_honours_after {n : Nat} (hn : n = 512) :
    initial.LegalRun (departures n ++ [.reserveJob "j" 1]) ∧
      ¬ (initial.run (departures n ++ [.reserveJob "j" 1])).Honours := by
  refine ⟨legalRun_of_no_release (fun c hc g => ?_) _, ?_⟩
  · rcases List.mem_append.mp hc with hc | hc
    · exact no_release_departures n c hc g
    · rw [List.mem_singleton.mp hc]
      exact nofun
  · rw [run_concat]
    subst hn
    exact (departed_departures (Nat.le_refl 512)).not_honours

/-- **A job that does not get what it reserved.** 512 times a job leaves its terminal unit in flight;
the job that comes then has a reservation, and its terminal unit is refused. -/
theorem reservation_not_honoured :
    initial.LegalRun (departures 512 ++ [.reserveJob "j" 1]) ∧
      ¬ (initial.run (departures 512 ++ [.reserveJob "j" 1])).Honours :=
  not_honours_after rfl

end Account

end Telepty.Ledger
