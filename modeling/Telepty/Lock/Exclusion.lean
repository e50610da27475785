import Telepty.Lock.Protocol

/-!
# The lock excludes, as long as an unlock removes what it has checked

A live process that was answered `held` owns the file at the lock path: it is the one whose
exclusive create made that file. The liveness checks of `operatorUnlock` speak of the file that it
read, but its `unlink` goes by name, so exclusion holds in the runs in which the file that is
unlinked is the one that was read and was readable, or was left by a process that is no longer
alive.
-/

namespace Telepty.Lock

open Infra

variable {w : World} {p q : Proc} {s s' : ProcState} {i : Nat}

theorem alive_iff : w.alive p = true ↔ ∃ s, w.procs.get? p = some s ∧ s.live = true := by
  simp [World.alive, Option.any_eq_true]

theorem alive_of_get? (hs : w.procs.get? p = some s) (hl : s.live = true) : w.alive p = true :=
  alive_iff.mpr ⟨s, hs, hl⟩

theorem holds_iff :
    w.holds p = true ↔ ∃ s, w.procs.get? p = some s ∧ s.live = true ∧ s.holds = true := by
  simp [World.holds, Option.any_eq_true]

/-- The file at the path is `i`, and `p` created it. -/
def Owns (w : World) (p : Proc) (i : Nat) : Prop :=
  w.path = some i ∧ ∃ f, w.files.get? i = some f ∧ f.creator = p

/-- The pid that was read is the pid of the process that created the file. -/
def Named (w : World) (seen : Seen) : Prop :=
  ∀ c, seen.contents = some c → ∃ f, w.files.get? seen.inode = some f ∧ lockPid c = f.creator.pid

/-- The process that created the readable file that was read is no longer alive. -/
def Gone (w : World) (seen : Seen) : Prop :=
  seen.contents.isSome = true → ∃ f, w.files.get? seen.inode = some f ∧ w.alive f.creator = false

/-! ## The invariant -/

/-- What holds of a live process before each step of its call. -/
def PcOk (w : World) (p : Proc) : Pc → Prop
  | .write i _ | .fsync i | .close i => Owns w p i
  | .unlink => ∃ i, Owns w p i
  | .checkState _ seen | .probe seen | .checkPid seen => Named w seen
  | .remove seen => Gone w seen
  | _ => True

structure ProcOk (w : World) (p : Proc) (s : ProcState) : Prop where
  owns : s.holds = true → ∃ i, Owns w p i
  pc : PcOk w p s.pc

structure Inv (w : World) : Prop where
  stored : ∀ i, w.path = some i → ∃ f, w.files.get? i = some f
  fresh : ∀ i f, w.files.get? i = some f → i < w.nextInode
  written : ∀ i f, w.files.get? i = some f →
    f.bytes = [] ∨ ∃ startedAt, f.bytes = lockBody f.creator.pid f.creator.token startedAt
  started : ∀ i f, w.files.get? i = some f → ∃ s, w.procs.get? f.creator = some s
  pids : ∀ p s, w.procs.get? p = some s → p.pid ≠ 0
  procs : ∀ p s, w.procs.get? p = some s → s.live = true → ProcOk w p s

theorem inv_initial : Inv .initial where
  stored i h := by cases h
  fresh i f h := by cases h
  written i f h := by cases h
  started i f h := by cases h
  pids p s h := by cases h
  procs p s h := by cases h

/-- A readable lock names its creator. -/
theorem Inv.lockPid_eq (h : Inv w) {f : LockFile} {c : Json} (hf : w.files.get? i = some f)
    (hc : lockFromText f.bytes = some c) : lockPid c = f.creator.pid := by
  rcases h.written i f hf with hb | ⟨startedAt, hb⟩
  · rw [hb, lockFromText_nil] at hc
    cases hc
  · rw [hb] at hc
    exact lockPid_lockBody hc

/-- A lock that names a process was created by it. -/
theorem Inv.creator_eq (h : Inv w) {f : LockFile} (hf : w.files.get? i = some f)
    (hv : verify (lockFromText f.bytes) p.pid p.token = true) : f.creator = p := by
  rcases h.written i f hf with hb | ⟨startedAt, hb⟩
  · rw [hb, lockFromText_nil] at hv
    cases hv
  · rw [hb, verify_lockBody] at hv
    obtain ⟨hp, ht⟩ := hv
    cases hfc : f.creator
    cases p
    simp_all

theorem not_alive_of_not_running {n : Int} (h : w.isProcessRunning n = false)
    (hp : (p.pid : Int) = n) : w.alive p = false := by
  rw [World.isProcessRunning, List.any_eq_false] at h
  rw [← Bool.not_eq_true, alive_iff]
  rintro ⟨s, hs, hl⟩
  have := h (p, s) (w.procs.mem_entries_iff.mpr hs)
  simp [hl, hp] at this

/-! ## What a step of one process may change -/

/-- A process that changes only its own state. -/
theorem Inv.set_proc (h : Inv w) (hp : p.pid ≠ 0)
    (hl : s'.live = true → w.alive p = false → w.procs.get? p = none)
    (hok : s'.live = true → ProcOk w p s') : Inv { w with procs := w.procs.set p s' } := by
  have hget : ∀ q, (w.procs.set p s').get? q = if q = p then some s' else w.procs.get? q :=
    w.procs.get?_set
  have halive : ∀ i f, w.files.get? i = some f → w.alive f.creator = false →
      World.alive { w with procs := w.procs.set p s' } f.creator = false := by
    intro i f hf hn
    rw [← Bool.not_eq_true, alive_iff]
    rintro ⟨s, hs, hlive⟩
    rw [hget] at hs
    split at hs
    · next he =>
      cases hs
      obtain ⟨s, hs⟩ := h.started i f hf
      rw [he] at hn hs
      rw [hl hlive hn] at hs
      cases hs
    · rw [alive_of_get? hs hlive] at hn
      cases hn
  have hpc : ∀ q pc, PcOk w q pc → PcOk { w with procs := w.procs.set p s' } q pc := by
    intro q pc hq
    cases pc with
    | remove seen =>
      intro hc
      obtain ⟨f, hf, hn⟩ := hq hc
      exact ⟨f, hf, halive _ _ hf hn⟩
    | _ => exact hq
  refine ⟨h.stored, h.fresh, h.written, ?_, ?_, ?_⟩
  · intro i f hf
    obtain ⟨s, hs⟩ := h.started i f hf
    by_cases he : f.creator = p
    · exact ⟨s', by rw [hget, if_pos he]⟩
    · exact ⟨s, by rw [hget, if_neg he, hs]⟩
  · intro q s hs
    rw [hget] at hs
    split at hs
    · next he => rw [he]; exact hp
    · exact h.pids q s hs
  · intro q s hs hlive
    rw [hget] at hs
    have hq : ProcOk w q s := by
      split at hs
      · next he => cases hs; rw [he]; exact hok hlive
      · exact h.procs q s hs hlive
    exact ⟨hq.owns, hpc q _ hq.pc⟩

/-- The path is emptied while no live process needs the file there. -/
theorem Inv.unlink (h : Inv w) (hn : ∀ q s, w.procs.get? q = some s → s.live = true →
    (s.holds = false ∧ s.pc = .idle) ∨ ∀ i, ¬ Owns w q i) : Inv { w with path := none } := by
  refine ⟨fun i hi => (by cases hi), h.fresh, h.written, h.started, h.pids, fun q s hs hlive => ?_⟩
  have hq := h.procs q s hs hlive
  rcases hn q s hs hlive with ⟨hh, hidle⟩ | hno
  · constructor
    · rw [hh]
      intro hc
      cases hc
    · rw [hidle]
      trivial
  · constructor
    · intro hh
      obtain ⟨i, hi⟩ := hq.owns hh
      exact absurd hi (hno i)
    · have hpc := hq.pc
      cases hc : s.pc with
      | write i startedAt => rw [hc] at hpc; exact absurd hpc (hno i)
      | fsync i => rw [hc] at hpc; exact absurd hpc (hno i)
      | close i => rw [hc] at hpc; exact absurd hpc (hno i)
      | unlink =>
        rw [hc] at hpc
        obtain ⟨i, hi⟩ := hpc
        exact absurd hi (hno i)
      | checkState statePid seen => rw [hc] at hpc; exact hpc
      | probe seen => rw [hc] at hpc; exact hpc
      | checkPid seen => rw [hc] at hpc; exact hpc
      | remove seen => rw [hc] at hpc; exact hpc
      | _ => trivial

/-- A file is added or written under its creator; the path stays, or leads to the new file when it
led nowhere. -/
theorem Inv.set_file (h : Inv w) {f : LockFile} {r : Option Nat} {n : Nat}
    (hcreator : ∀ g, w.files.get? i = some g → f.creator = g.creator)
    (hpath : r = w.path ∨ w.path = none ∧ r = some i) (hnext : w.nextInode ≤ n)
    (hi : i < n)
    (hbytes : f.bytes = [] ∨
      ∃ startedAt, f.bytes = lockBody f.creator.pid f.creator.token startedAt)
    (hstarted : ∃ s, w.procs.get? f.creator = some s) :
    Inv { w with path := r, files := w.files.set i f, nextInode := n } := by
  have hget : ∀ j, (w.files.set i f).get? j = if j = i then some f else w.files.get? j :=
    w.files.get?_set
  have hfile : ∀ j g, w.files.get? j = some g →
      ∃ g', (w.files.set i f).get? j = some g' ∧ g'.creator = g.creator := by
    intro j g hg
    by_cases he : j = i
    · exact ⟨f, by rw [hget, if_pos he], hcreator g (he ▸ hg)⟩
    · exact ⟨g, by rw [hget, if_neg he, hg], rfl⟩
  have howns : ∀ q j, Owns w q j →
      Owns { w with path := r, files := w.files.set i f, nextInode := n } q j := by
    rintro q j ⟨hj, g, hg, rfl⟩
    obtain ⟨g', hg', hc⟩ := hfile j g hg
    refine ⟨?_, g', hg', hc⟩
    rcases hpath with rfl | ⟨hn, -⟩
    · exact hj
    · rw [hn] at hj; cases hj
  refine ⟨?_, ?_, ?_, ?_, h.pids, ?_⟩
  · intro j hj
    by_cases he : j = i
    · exact ⟨f, by rw [hget, if_pos he]⟩
    · rcases hpath with rfl | ⟨-, rfl⟩
      · obtain ⟨g, hg⟩ := h.stored j hj
        exact ⟨g, by rw [hget, if_neg he, hg]⟩
      · cases hj
        exact absurd rfl he
  · intro j g hg
    rw [hget] at hg
    split at hg
    · next he => rw [he]; exact hi
    · exact Nat.lt_of_lt_of_le (h.fresh j g hg) hnext
  · intro j g hg
    rw [hget] at hg
    split at hg
    · cases hg; exact hbytes
    · exact h.written j g hg
  · intro j g hg
    rw [hget] at hg
    split at hg
    · cases hg; exact hstarted
    · exact h.started j g hg
  · intro q s hs hlive
    have hq := h.procs q s hs hlive
    constructor
    · intro hh
      obtain ⟨j, hj⟩ := hq.owns hh
      exact ⟨j, howns q j hj⟩
    · have hpc := hq.pc
      have hnamed : ∀ seen, Named w seen →
          Named { w with path := r, files := w.files.set i f, nextInode := n } seen := by
        intro seen hn c hc
        obtain ⟨g, hg, hp⟩ := hn c hc
        obtain ⟨g', hg', he⟩ := hfile _ g hg
        exact ⟨g', hg', by rw [hp, he]⟩
      cases hc : s.pc with
      | write j startedAt => rw [hc] at hpc; exact howns q j hpc
      | fsync j => rw [hc] at hpc; exact howns q j hpc
      | close j => rw [hc] at hpc; exact howns q j hpc
      | unlink =>
        rw [hc] at hpc
        obtain ⟨j, hj⟩ := hpc
        exact ⟨j, howns q j hj⟩
      | checkState statePid seen => rw [hc] at hpc; exact hnamed seen hpc
      | probe seen => rw [hc] at hpc; exact hnamed seen hpc
      | checkPid seen => rw [hc] at hpc; exact hnamed seen hpc
      | remove seen =>
        rw [hc] at hpc
        intro hsome
        obtain ⟨g, hg, hn⟩ := hpc hsome
        obtain ⟨g', hg', he⟩ := hfile _ g hg
        exact ⟨g', hg', by rw [he]; exact hn⟩
      | _ => trivial

/-! ## The steps -/

/-- A process that moves on in its call. -/
theorem Inv.at_ (h : Inv w) (hs : w.procs.get? p = some s) (hl : s.live = true) {pc : Pc}
    (hpc : PcOk w p pc) : Inv (w.at_ p s pc) :=
  h.set_proc (h.pids p s hs) (fun _ hn => by rw [alive_of_get? hs hl] at hn; cases hn) fun _ =>
    ⟨(h.procs p s hs hl).owns, hpc⟩

/-- A process that returns from its call. -/
theorem Inv.answer (h : Inv w) (hs : w.procs.get? p = some s) (hl : s.live = true) {holds : Bool}
    (hh : holds = true → ∃ i, Owns w p i) (a : Answer) :
    Inv (w.answer p { s with holds := holds } a) :=
  h.set_proc (h.pids p s hs) (fun _ hn => by rw [alive_of_get? hs hl] at hn; cases hn) fun _ => ⟨hh, trivial⟩

/-- The step of an `operatorUnlock` that unlinks the lock meets the file that it read and could
read, or a file whose creator is not alive. -/
def removesChecked (w : World) : Event → Bool
  | .step p _ =>
    match (w.procs.get? p).map ProcState.pc, w.lockAt with
    | some (.remove seen), some (i, f) =>
      i = seen.inode && seen.contents.isSome || !w.alive f.creator
    | _, _ => true
  | _ => true

theorem lockAt_eq_some {f : LockFile} :
    w.lockAt = some (i, f) ↔ w.path = some i ∧ w.files.get? i = some f := by
  rw [World.lockAt, Option.bind_eq_some_iff]
  constructor
  · rintro ⟨j, hj, hm⟩
    obtain ⟨g, hg, he⟩ := Option.map_eq_some_iff.mp hm
    cases he
    exact ⟨hj, hg⟩
  · rintro ⟨hp, hf⟩
    exact ⟨i, hp, by rw [hf]; rfl⟩

theorem inv_stepAt (h : Inv w) (ok : Bool) (hs : w.procs.get? p = some s) (hl : s.live = true)
    (hc : removesChecked w (.step p ok) = true) : Inv (stepAt w p s ok) := by
  have hp := h.procs p s hs hl
  have hpc := hp.pc
  have hans : ∀ a, Inv (w.answer p s a) := fun a => h.answer hs hl hp.owns a
  cases hpcs : s.pc with
  | idle => simpa only [stepAt, hpcs] using h
  | mkdir startedAt =>
    simp only [stepAt, hpcs]
    split
    · exact h.at_ hs hl trivial
    · exact hans _
  | create startedAt =>
    simp only [stepAt, hpcs]
    split
    · cases hpath : w.path with
      | some i => exact h.at_ hs hl trivial
      | none =>
        -- the exclusive create: nothing is at the path, the new file is
        have hnone : ∀ g, w.files.get? w.nextInode = some g → False := fun g hg =>
          absurd (h.fresh _ g hg) (Nat.lt_irrefl _)
        have h' := h.set_file (i := w.nextInode) (f := ⟨p, []⟩) (r := some w.nextInode)
          (n := w.nextInode + 1) (fun g hg => (hnone g hg).elim) (.inr ⟨hpath, rfl⟩)
          (Nat.le_succ _) (Nat.lt_succ_self _) (.inl rfl) ⟨s, hs⟩
        refine h'.at_ hs hl ⟨rfl, ⟨p, []⟩, ?_, rfl⟩
        rw [OrdMap.get?_set_self]
    · exact hans _
  | present => simpa only [stepAt, hpcs] using hans _
  | write i startedAt =>
    simp only [stepAt, hpcs]
    rw [hpcs] at hpc
    obtain ⟨hpath, f, hf, hcr⟩ := hpc
    split
    · have h' := h.set_file (i := i) (f := ⟨p, lockBody p.pid p.token startedAt⟩) (r := w.path)
        (n := w.nextInode) (fun g hg => by rw [hf] at hg; cases hg; exact hcr.symm) (.inl rfl)
        (Nat.le_refl _) (h.fresh i f hf) (.inr ⟨startedAt, rfl⟩) ⟨s, hs⟩
      refine h'.at_ hs hl ⟨hpath, ⟨p, lockBody p.pid p.token startedAt⟩, ?_, rfl⟩
      rw [OrdMap.get?_set_self]
    · exact hans _
  | fsync i =>
    simp only [stepAt, hpcs]
    rw [hpcs] at hpc
    split
    · exact h.at_ hs hl hpc
    · exact hans _
  | close i =>
    simp only [stepAt, hpcs]
    rw [hpcs] at hpc
    split
    · exact h.answer hs hl (fun _ => ⟨i, hpc⟩) _
    · exact hans _
  | verify =>
    simp only [stepAt, hpcs]
    split
    · next hv =>
      refine h.at_ hs hl ?_
      cases hlock : w.lockAt with
      | none => rw [hlock] at hv; cases hv
      | some l =>
        obtain ⟨i, f⟩ := l
        rw [hlock] at hv
        obtain ⟨hpath, hf⟩ := lockAt_eq_some.mp hlock
        exact ⟨i, hpath, f, hf, h.creator_eq hf hv⟩
    · exact hans _
  | unlink =>
    simp only [stepAt, hpcs]
    rw [hpcs] at hpc
    obtain ⟨i, hpath, f, hf, hcr⟩ := hpc
    split
    · have h' : Inv (w.answer p { s with holds := false } .released) :=
        h.answer hs hl (fun hc => by cases hc) _
      refine h'.unlink fun q t ht hlive => ?_
      by_cases hq : q = p
      · rw [hq, World.answer, OrdMap.get?_set_self] at ht
        cases ht
        exact .inl ⟨rfl, rfl⟩
      · -- the file at the path is the releasing process's own
        refine .inr ?_
        rintro j ⟨hj, g, hg, rfl⟩
        have hj' : w.path = some j := hj
        rw [hpath] at hj'
        cases hj'
        have hg' : w.files.get? i = some g := hg
        rw [hf] at hg'
        cases hg'
        exact hq hcr
    · exact hans _
  | readLock statePid =>
    simp only [stepAt, hpcs]
    split
    · exact hans _
    · next i f hlock =>
      obtain ⟨-, hf⟩ := lockAt_eq_some.mp hlock
      refine h.at_ hs hl fun c hc => ⟨f, hf, h.lockPid_eq hf hc⟩
  | checkState statePid seen =>
    simp only [stepAt, hpcs]
    rw [hpcs] at hpc
    split
    · exact hans _
    · exact h.at_ hs hl hpc
  | probe seen =>
    simp only [stepAt, hpcs]
    rw [hpcs] at hpc
    split
    · exact h.at_ hs hl hpc
    · exact hans _
  | checkPid seen =>
    simp only [stepAt, hpcs]
    rw [hpcs] at hpc
    split
    · exact hans _
    · next hrun =>
      refine h.at_ hs hl fun hsome => ?_
      obtain ⟨c, hcs⟩ := Option.isSome_iff_exists.mp hsome
      obtain ⟨f, hf, hpid⟩ := hpc c hcs
      obtain ⟨t, ht⟩ := h.started _ f hf
      refine ⟨f, hf, not_alive_of_not_running (n := lockPid c) ?_ hpid.symm⟩
      rw [hcs, Option.any_some] at hrun
      have hne : lockPid c ≠ 0 := by
        rw [hpid]
        exact_mod_cast h.pids _ t ht
      simpa [hne] using hrun
  | remove seen =>
    simp only [stepAt, hpcs]
    rw [hpcs] at hpc
    split
    · next hpath =>
      obtain ⟨i, hi⟩ := Option.ne_none_iff_exists'.mp hpath.2
      obtain ⟨f, hf⟩ := h.stored i hi
      -- whoever made the file at the path is not alive
      have hdead : w.alive f.creator = false := by
        simp only [removesChecked, hs, Option.map_some, hpcs, lockAt_eq_some.mpr ⟨hi, hf⟩,
          Bool.or_eq_true, Bool.and_eq_true, decide_eq_true_eq, Bool.not_eq_true'] at hc
        rcases hc with ⟨he, hsome⟩ | hn
        · obtain ⟨g, hg, hn⟩ := hpc hsome
          rw [← he, hf] at hg
          cases hg
          exact hn
        · exact hn
      refine (h.unlink fun q t ht hlive => .inr ?_).answer hs hl ?_ _
      · rintro j ⟨hj, g, hg, rfl⟩
        rw [hi] at hj
        cases hj
        rw [hf] at hg
        cases hg
        rw [alive_of_get? ht hlive] at hdead
        cases hdead
      · intro hh
        obtain ⟨j, hj, g, hg, hcr⟩ := hp.owns hh
        rw [hi] at hj
        cases hj
        rw [hf] at hg
        cases hg
        rw [hcr, alive_of_get? hs hl] at hdead
        cases hdead
    · exact hans _

/-- **One event keeps the invariant**, when an unlock removes what it has checked. -/
theorem inv_step (h : Inv w) (e : Event) (hc : removesChecked w e = true) : Inv (step w e) := by
  cases e with
  | start p =>
    rw [step]
    split
    · next hnew =>
      have hn : w.procs.get? p = none := w.procs.has_eq_false_iff.mp hnew.2
      exact h.set_proc hnew.1 (fun _ _ => hn) fun _ => ⟨fun hh => (by cases hh), trivial⟩
    · exact h
  | claimDaemonState p =>
    rw [step]
    repeat' split
    · exact ⟨h.stored, h.fresh, h.written, h.started, h.pids, fun q t ht hl =>
        ⟨(h.procs q t ht hl).owns, by
          have hpc := (h.procs q t ht hl).pc
          cases hq : t.pc <;> rw [hq] at hpc <;> exact hpc⟩⟩
    · exact h
    · exact h
  | die p =>
    rw [step]
    split
    · next s hs =>
      exact h.set_proc (h.pids p s hs) (fun hl => by cases hl) fun hl => by cases hl
    · exact h
  | call p c =>
    rw [step]
    split
    · next s hs =>
      split
      · next hl _ => exact h.at_ hs hl (by cases c <;> trivial)
      · exact h
    · exact h
  | step p ok =>
    rw [step]
    split
    · next s hs =>
      split
      · next hl => exact inv_stepAt h ok hs hl hc
      · exact h
    · exact h

/-- In every step of the run an unlock removes what it has checked. -/
def runRemovesChecked : World → List Event → Bool
  | _, [] => true
  | w, e :: es => removesChecked w e && runRemovesChecked (step w e) es

theorem inv_run (h : Inv w) (es : List Event) (hc : runRemovesChecked w es = true) :
    Inv (run w es) := by
  induction es generalizing w with
  | nil => exact h
  | cons e es ih =>
    rw [runRemovesChecked, Bool.and_eq_true] at hc
    exact ih (inv_step h e hc.1) hc.2

/-- **The lock excludes**: in a run whose unlocks remove what they have checked, at most one live
process has been answered `held` and has not released. -/
theorem not_two_holders (es : List Event) (hc : runRemovesChecked .initial es = true) {p q : Proc}
    (hne : p ≠ q) : ¬ ((run .initial es).holds p = true ∧ (run .initial es).holds q = true) := by
  rintro ⟨hp, hq⟩
  have h := inv_run inv_initial es hc
  obtain ⟨s, hs, hl, hh⟩ := holds_iff.mp hp
  obtain ⟨t, ht, hl', hh'⟩ := holds_iff.mp hq
  obtain ⟨i, hi, f, hf, rfl⟩ := (h.procs p s hs hl).owns hh
  obtain ⟨j, hj, g, hg, rfl⟩ := (h.procs q t ht hl').owns hh'
  rw [hi] at hj
  cases hj
  rw [hf] at hg
  cases hg
  exact hne rfl

/-! ## Two unlocks -/

def steps (p : Proc) (n : Nat) : List Event := List.replicate n (.step p true)

def daemonA : Proc := ⟨1, "a"⟩

def daemonB : Proc := ⟨2, "b"⟩

def processC : Proc := ⟨3, "c"⟩

def operator1 : Proc := ⟨4, "d"⟩

def operator2 : Proc := ⟨5, "e"⟩

def acquires (p : Proc) : List Event := .call p (.acquire "t") :: steps p 5

def startsDaemon (p : Proc) : List Event := [.start p, .claimDaemonState p] ++ acquires p

/-- A daemon crashes with the lock, and an operator removes the lock for the next daemon. -/
def unlockAfterCrash : List Event :=
  startsDaemon daemonA ++ [.die daemonA, .start operator1, .call operator1 .operatorUnlock]
    ++ steps operator1 5 ++ startsDaemon daemonB

/-- The crashed daemon and the next one do not both hold the lock. -/
theorem not_two_holders_after_crash : ¬ ((run .initial unlockAfterCrash).holds daemonA = true ∧
    (run .initial unlockAfterCrash).holds daemonB = true) :=
  not_two_holders unlockAfterCrash (by decide +kernel) (by decide)

/-- Both operators have checked the lock of the crashed daemon before either removes it. -/
def twoUnlocks : List Event :=
  startsDaemon daemonA ++ [.die daemonA, .start operator1, .call operator1 .operatorUnlock,
      .start operator2, .call operator2 .operatorUnlock]
    ++ steps operator1 4 ++ steps operator2 4 ++ steps operator1 1 ++ startsDaemon daemonB
    ++ steps operator2 1 ++ .start processC :: acquires processC

/-- The second unlock removes the lock of the live daemon, and another process acquires it. -/
theorem two_holders : (run .initial twoUnlocks).holds daemonB = true ∧
    (run .initial twoUnlocks).holds processC = true ∧ daemonB ≠ processC := by
  decide +kernel

end Telepty.Lock
