import Telepty.Audit.Calls
import Mathlib.Algebra.Order.BigOperators.Group.Finset

/-!
# Order and barrier of the audit writer

* `ends` — left to itself the writer comes to rest
* `orderly` — every state that is reached
-/

namespace Telepty.Audit

open Infra

variable {R : Type}

/-! ## Rest -/

/-- Nothing happens any more unless the writer is called. -/
def AtRest (o : Options R) (w : Writer R) : Prop :=
  ∀ e : Event R, e.isOwn = true → (writer o).step w e = none

namespace AtRest

variable {o : Options R} {w : Writer R}

theorem batches_eq_nil (h : AtRest o w) : w.batches = [] := by
  by_contra hne
  obtain ⟨b, rest, hb⟩ := List.exists_cons_of_ne_nil hne
  have hanswer : w.answer o b.number ⟨true, 0, false⟩ = none := h (.answer b.number _) rfl
  rw [Writer.answer, hb, List.find?_cons_of_pos (by simp)] at hanswer
  cases hanswer

theorem timer_eq_false (h : AtRest o w) : w.timer = false := by
  have hfire : w.fire o = none := h .fire rfl
  unfold Writer.fire at hfire
  split at hfire
  · cases hfire
  next htimer => simpa using htimer

/-- No call of `flush` is under way. -/
theorem flush_settled (h : AtRest o w) {f : Nat} {F : Flush} (hf : w.flushes f = some F) :
    F.wait = .settled := by
  have hthrough : ∀ batch, ¬ w.Running batch := by
    rintro batch ⟨b, hb, -⟩
    rw [h.batches_eq_nil] at hb
    cases hb
  have hresume : w.resume o f = none := h (.resume f) rfl
  unfold Writer.resume at hresume
  rw [hf] at hresume
  obtain ⟨wait, seen⟩ := F
  cases wait with
  | before batch => simp [hthrough batch] at hresume
  | own batch => simp [hthrough batch] at hresume
  | settled => rfl

/-- No call of `close` is under way. -/
theorem close_settled (h : AtRest o w) (hawaited : ∀ c f, w.closes c = some (.awaits f) →
      ∃ F, w.flushes f = some F) (c f : Nat) : w.closes c ≠ some (.awaits f) := by
  intro hc
  obtain ⟨F, hF⟩ := hawaited c f hc
  have hresume : w.resumeClose o c = none := h (.resumeClose c) rfl
  unfold Writer.resumeClose at hresume
  simp only [hc, hF, Option.any_some, h.flush_settled hF, decide_true, if_true] at hresume
  split at hresume
  · cases hresume
  · cases hresume

/-- **At rest nothing stands in the queue.** -/
theorem queue_eq_nil (h : AtRest o w) (hattended : Attended w) : w.queue = [] := by
  by_contra hqueue
  cases hclosed : w.closed with
  | false =>
    rcases hattended.armed hclosed hqueue with htimer | hbatches
    · exact absurd (h.timer_eq_false.symm.trans htimer) (by simp)
    · exact hbatches h.batches_eq_nil
  | true =>
    obtain ⟨c, f, hc⟩ := hattended.closing hclosed hqueue
    exact h.close_settled hattended.awaited c f hc

/-- **At rest every record is done with.** -/
theorem done (h : AtRest o w) (hsound : Sound w) {e : Entry R} (he : e ∈ w.appended) :
    w.Done e := by
  rcases hsound.kept.books.whereabouts he with hdone | he | he
  · exact hdone
  · rw [Writer.inFlight, h.batches_eq_nil] at he
    cases he
  · rw [h.queue_eq_nil hsound.attended] at he
    cases he

end AtRest

/-! ## The way to rest

A batch that starts takes the queue, and a batch that ends is gone. In between the batch comes
nearer to its end, and of the calls only those go on that do not wait for it.
-/

namespace Writer

/-- What is left of a call of `flush` until it waits for the batch that is being written, or is
through. -/
def flushWeight (w : Writer R) (f : Nat) : Nat :=
  match w.flushes f with
  | some ⟨.before batch, _⟩ => if w.Running batch then 0 else 2
  | some ⟨.own batch, _⟩ => if w.Running batch then 0 else 2
  | _ => 0

def closeWeight (w : Writer R) (c : Nat) : Nat :=
  match w.closes c with
  | some (.awaits f) => if (w.flushes f).any (·.wait = .settled) then 1 else w.flushWeight f
  | _ => 0

/-- The batches that are still to be started and ended, counted generously. -/
def work (w : Writer R) : Nat := 2 * w.queue.length + w.batches.length

def weight (o : Options R) (w : Writer R) : Nat :=
  (w.batches.map (·.stage.rank o.maxFiles)).sum + (if w.timer then 3 else 0) +
    ∑ f ∈ Finset.range w.flushCount, w.flushWeight f +
    ∑ c ∈ Finset.range w.closeCount, w.closeWeight c

end Writer

section

variable {o : Options R} {w v : Writer R}

theorem flushWeight_congr {f : Nat} (hflushes : v.flushes f = w.flushes f)
    (hrunning : v.batches.map Batch.number = w.batches.map Batch.number) :
    v.flushWeight f = w.flushWeight f := by
  have hrun : ∀ batch, v.Running batch ↔ w.Running batch := by
    intro batch
    rw [Writer.Running, Writer.Running, ← List.mem_map (f := Batch.number), hrunning, List.mem_map]
  unfold Writer.flushWeight
  rw [hflushes]
  simp only [hrun]

theorem closeWeight_congr {c : Nat} (hcloses : v.closes c = w.closes c)
    (hflushes : ∀ f, w.closes c = some (.awaits f) → v.flushes f = w.flushes f)
    (hrunning : v.batches.map Batch.number = w.batches.map Batch.number) :
    v.closeWeight c = w.closeWeight c := by
  unfold Writer.closeWeight
  rw [hcloses]
  split
  next f hc => rw [hflushes f hc, flushWeight_congr (hflushes f hc) hrunning]
  · rfl

/-- A call more of `flush`, which waits for the batch that is being written or is through. -/
theorem sums_newFlush (h : Sound w) {wait : Wait} {seen : Nat} (hflushes : v.flushes = w.flushes)
    (hcloses : v.closes = w.closes) (hbatches : v.batches = w.batches)
    (hnew : (v.setFlush w.flushCount wait seen).flushWeight w.flushCount = 0) :
    ∑ f ∈ Finset.range (w.flushCount + 1), (v.setFlush w.flushCount wait seen).flushWeight f
        = ∑ f ∈ Finset.range w.flushCount, w.flushWeight f ∧
      ∀ c, (v.setFlush w.flushCount wait seen).closeWeight c = w.closeWeight c := by
  have hother : ∀ g, g ≠ w.flushCount →
      (v.setFlush w.flushCount wait seen).flushes g = w.flushes g := by
    intro g hg
    rw [setFlush_of_ne _ hg, hflushes]
  have hrunning : v.batches.map Batch.number = w.batches.map Batch.number := by rw [hbatches]
  refine ⟨?_, fun c => ?_⟩
  · rw [Finset.sum_range_succ, hnew, Nat.add_zero]
    refine Finset.sum_congr rfl fun f hf => ?_
    exact flushWeight_congr (hother f (Nat.ne_of_lt (Finset.mem_range.mp hf))) hrunning
  · refine closeWeight_congr (congrFun hcloses c) (fun f hc => hother f ?_) hrunning
    obtain ⟨F, hF⟩ := h.attended.awaited c f hc
    exact Nat.ne_of_lt (h.numbered.flushes f (by simp [hF]))

theorem weight_newFlush (h : Sound w) {wait : Wait} {seen : Nat} (hflushes : v.flushes = w.flushes)
    (hflushCount : v.flushCount = w.flushCount + 1) (hcloses : v.closes = w.closes)
    (hcloseCount : v.closeCount = w.closeCount) (hbatches : v.batches = w.batches)
    (hnew : (v.setFlush w.flushCount wait seen).flushWeight w.flushCount = 0) :
    (v.setFlush w.flushCount wait seen).weight o + (if w.timer then 3 else 0)
      = w.weight o + (if v.timer then 3 else 0) := by
  obtain ⟨hsum, hclose⟩ := sums_newFlush h hflushes hcloses hbatches hnew
  have hcloseSum : ∑ c ∈ Finset.range w.closeCount,
      (v.setFlush w.flushCount wait seen).closeWeight c
        = ∑ c ∈ Finset.range w.closeCount, w.closeWeight c :=
    Finset.sum_congr rfl fun c _ => hclose c
  change (v.batches.map (·.stage.rank o.maxFiles)).sum + (if v.timer then 3 else 0) +
    ∑ f ∈ Finset.range v.flushCount, (v.setFlush w.flushCount wait seen).flushWeight f +
    ∑ c ∈ Finset.range v.closeCount, (v.setFlush w.flushCount wait seen).closeWeight c + _ = _
  rw [hflushCount, hcloseCount, hbatches, hsum, hcloseSum, Writer.weight]
  omega

/-- A call of `flush` whose batch is through goes on. -/
theorem sums_setFlush (h : Sound w) {f seen : Nat} {wait : Wait} (hf : w.flushWeight f = 2)
    (hnew : (w.setFlush f wait seen).flushWeight f = 0) :
    ∑ g ∈ Finset.range w.flushCount, (w.setFlush f wait seen).flushWeight g
        < ∑ g ∈ Finset.range w.flushCount, w.flushWeight g ∧
      ∀ c, (w.setFlush f wait seen).closeWeight c ≤ w.closeWeight c := by
  have hother : ∀ g, g ≠ f → (w.setFlush f wait seen).flushWeight g = w.flushWeight g :=
    fun g hg => flushWeight_congr (setFlush_of_ne _ hg _ _) rfl
  have hmem : f ∈ Finset.range w.flushCount := by
    refine Finset.mem_range.mpr (h.numbered.flushes f fun hnone => ?_)
    simp [Writer.flushWeight, hnone] at hf
  refine ⟨Finset.sum_lt_sum (fun g _ => ?_) ⟨f, hmem, by rw [hnew, hf]; decide⟩, fun c => ?_⟩
  · by_cases hg : g = f
    · rw [hg, hnew]
      exact Nat.zero_le _
    · exact (hother g hg).le
  · by_cases hc : w.closes c = some (.awaits f)
    · have hold : w.closeWeight c = 2 := by
        unfold Writer.closeWeight
        rw [hc]
        have hunsettled : (w.flushes f).any (·.wait = .settled) = false := by
          unfold Writer.flushWeight at hf
          cases hF : w.flushes f with
          | none => rfl
          | some F =>
            rw [hF] at hf
            obtain ⟨wait, seen⟩ := F
            cases wait with
            | before batch => rfl
            | own batch => rfl
            | settled => simp at hf
        simp only [hunsettled, Bool.false_eq_true, if_false, hf]
      have hle : (w.setFlush f wait seen).closeWeight c ≤ 1 := by
        unfold Writer.closeWeight
        change (match w.closes c with | some (.awaits f) => _ | _ => 0) ≤ 1
        rw [hc]
        simp only
        split
        · exact Nat.le_refl _
        · rw [hnew]
          exact Nat.zero_le _
      omega
    · have hother : ∀ g, w.closes c = some (.awaits g) → g ≠ f := by
        rintro g hg rfl
        exact hc hg
      exact (closeWeight_congr (w := w) (v := w.setFlush f wait seen) rfl
        (fun g hg => setFlush_of_ne _ (hother g hg) _ _) rfl).le

/-- The state comes nearer to rest. -/
def Nearer (o : Options R) (v w : Writer R) : Prop :=
  v.work < w.work ∨ (v.work = w.work ∧ v.weight o < w.weight o)

/-- A batch has been started. -/
theorem nearer_of_started (hqueue : w.queue ≠ []) (hbatches : w.batches = [])
    (hvqueue : v.queue = []) (hvbatches : v.batches = (w.started o).batches) : Nearer o v w := by
  have hpos : 0 < w.queue.length := List.length_pos_iff.mpr hqueue
  have hone : v.batches.length = 1 := by
    rw [hvbatches]
    change (w.batches ++ [_]).length = 1
    rw [hbatches]
    rfl
  left
  rw [Writer.work, Writer.work, hone, hvqueue, hbatches, List.length_nil]
  omega

theorem Advances.nearer {b : Batch R} (hbatches : w.batches = [b]) (hadvances : Advances o w b v) :
    Nearer o v w := by
  have hcalls := advances_calls hbatches hadvances
  simp only [Prod.mk.injEq] at hcalls
  obtain ⟨hflushes, hflushCount, hcloses, hcloseCount, -, hqueue⟩ := hcalls
  have hgo : ∀ stage, v.batches = [{ b with stage }] → v.timer = w.timer →
      stage.rank o.maxFiles < b.stage.rank o.maxFiles → Nearer o v w := by
    intro stage hv htimer hrank
    have hrunning : v.batches.map Batch.number = w.batches.map Batch.number := by
      rw [hv, hbatches]
      rfl
    have hflush : ∀ f, v.flushWeight f = w.flushWeight f :=
      fun f => flushWeight_congr (by rw [hflushes]) hrunning
    have hclose : ∀ c, v.closeWeight c = w.closeWeight c :=
      fun c => closeWeight_congr (by rw [hcloses]) (fun f _ => by rw [hflushes]) hrunning
    right
    refine ⟨by rw [Writer.work, Writer.work, hqueue, hv, hbatches]; rfl, ?_⟩
    have hflushSum : ∑ f ∈ Finset.range w.flushCount, v.flushWeight f
        = ∑ f ∈ Finset.range w.flushCount, w.flushWeight f :=
      Finset.sum_congr rfl fun f _ => hflush f
    have hcloseSum : ∑ c ∈ Finset.range w.closeCount, v.closeWeight c
        = ∑ c ∈ Finset.range w.closeCount, w.closeWeight c :=
      Finset.sum_congr rfl fun c _ => hclose c
    rw [Writer.weight, Writer.weight, hv, hbatches, htimer, hflushCount, hcloseCount, hflushSum,
      hcloseSum]
    simp only [List.map_cons, List.map_nil, List.sum_cons, List.sum_nil]
    omega
  have hend : v.batches = [] → Nearer o v w := by
    intro hv
    left
    rw [Writer.work, Writer.work, hqueue, hv, hbatches]
    simp
  cases hadvances with
  | goes mid next rank filed => exact hgo _ rfl rfl rank
  | lands mid => exact hgo .chmod rfl rfl (by rw [mid]; exact Nat.one_lt_two)
  | stores mid =>
    exact hend (by rw [finish_eq (w := w.land b.entries) hbatches])
  | ends mid => exact hend (by rw [finish_eq hbatches])
  | fails mid =>
    exact hend (by rw [finish_eq (w := w.report b.entries) hbatches])

/-- A call of `flush` goes on, and another one is not made. -/
theorem nearer_setFlush (h : Sound w) {f seen : Nat} {wait : Wait} (hf : w.flushWeight f = 2)
    (hnew : (w.setFlush f wait seen).flushWeight f = 0) :
    Nearer o (w.setFlush f wait seen) w := by
  obtain ⟨hflush, hclose⟩ := sums_setFlush h hf hnew
  right
  refine ⟨rfl, ?_⟩
  have hsum : ∑ c ∈ Finset.range w.closeCount, (w.setFlush f wait seen).closeWeight c
      ≤ ∑ c ∈ Finset.range w.closeCount, w.closeWeight c :=
    Finset.sum_le_sum fun c _ => hclose c
  change (w.batches.map (·.stage.rank o.maxFiles)).sum + (if w.timer then 3 else 0) +
    ∑ g ∈ Finset.range w.flushCount, (w.setFlush f wait seen).flushWeight g +
    ∑ c ∈ Finset.range w.closeCount, (w.setFlush f wait seen).closeWeight c < _
  rw [Writer.weight]
  omega

theorem flushWeight_settled (w : Writer R) (f seen : Nat) :
    (w.setFlush f .settled seen).flushWeight f = 0 := by
  unfold Writer.flushWeight
  rw [setFlush_self]

theorem flushWeight_before {f batch seen : Nat} (hrunning : w.Running batch) :
    (w.setFlush f (.before batch) seen).flushWeight f = 0 := by
  unfold Writer.flushWeight
  rw [setFlush_self]
  exact if_pos hrunning

/-- The batch whose promise `writing` holds is being written. -/
theorem Books.running (h : Books w) {batch : Nat} (hwriting : w.writing = some batch) :
    w.Running batch := by
  have hone := h.one
  rw [hwriting, Option.toList_some] at hone
  obtain ⟨b, hb, hnumber⟩ := List.map_eq_singleton_iff.mp hone
  exact ⟨b, hb ▸ List.mem_singleton.mpr rfl, hnumber⟩

theorem Sound.resume_nearer (h : Sound w) {f : Nat} (hsteady : Steady o w (.resume f))
    (hstep : w.resume o f = some v) : Nearer o v w := by
  unfold Writer.resume at hstep
  split at hstep
  next batch seen hf =>
    split at hstep
    · cases hstep
    next hthrough =>
      obtain rfl := Option.some.inj hstep
      obtain ⟨hfree, hbuilds⟩ := hsteady batch seen hf
      have hweight : w.flushWeight f = 2 := by
        unfold Writer.flushWeight
        rw [hf]
        exact if_neg hthrough
      generalize hv : w.flushQueue o f seen = v
      have hcalls := calls_flushQueue (f := f) hfree hbuilds
      rw [hv] at hcalls
      cases hcalls with
      | waits writing =>
        exact nearer_setFlush h hweight (flushWeight_before (h.kept.books.running writing))
      | settles queue free => exact nearer_setFlush h hweight (flushWeight_settled w f seen)
      | starts queue batches => exact nearer_of_started queue batches rfl rfl
  next batch seen hf =>
    split at hstep
    · cases hstep
    next hthrough =>
      obtain rfl := Option.some.inj hstep
      have hweight : w.flushWeight f = 2 := by
        unfold Writer.flushWeight
        rw [hf]
        exact if_neg hthrough
      exact nearer_setFlush h hweight (flushWeight_settled w f seen)
  · cases hstep

theorem Sound.fire_nearer (h : Sound w) (htimer : w.timer = true)
    (hbuilds : w.writing = none → w.Builds o) : Nearer o ({ w with timer := false }.flush o) w := by
  have hbooks := (h.kept.calling false w.closed w.closeCount w.flushCount).books
  have hcalls := calls_flush (o := o) hbooks hbuilds
  generalize Writer.flush o { w with timer := false } = v at hcalls
  have hnew : ∀ wait, v = { w with timer := false, flushCount := w.flushCount + 1 }.setFlush
      w.flushCount wait w.appendedTotal → v.flushWeight w.flushCount = 0 → Nearer o v w := by
    rintro wait rfl hweight
    have hsum := weight_newFlush (o := o)
      (v := { w with timer := false, flushCount := w.flushCount + 1 }) h rfl rfl rfl rfl rfl hweight
    rw [htimer] at hsum
    simp only [if_true, Bool.false_eq_true, if_false] at hsum
    exact .inr ⟨rfl, by omega⟩
  cases hcalls with
  | waits writing =>
    exact hnew _ rfl (flushWeight_before (hbooks.running writing))
  | settles queue free => exact hnew _ rfl (flushWeight_settled _ _ _)
  | starts queue batches => exact nearer_of_started queue batches rfl rfl

/-- A call of `close` goes on. -/
theorem sums_setClose {c : Nat} {close : Close} (hc : c < w.closeCount) (hold : w.closeWeight c = 1)
    (hnew : (w.setClose c close).closeWeight c = 0) :
    (w.setClose c close).weight o < w.weight o := by
  have hlt : ∑ d ∈ Finset.range w.closeCount, (w.setClose c close).closeWeight d
      < ∑ d ∈ Finset.range w.closeCount, w.closeWeight d := by
    refine Finset.sum_lt_sum (fun d _ => ?_) ⟨c, Finset.mem_range.mpr hc, ?_⟩
    swap
    · rw [hnew, hold]
      exact Nat.zero_lt_one
    by_cases hd : d = c
    · rw [hd, hnew]
      exact Nat.zero_le _
    · exact (closeWeight_congr (w := w) (v := w.setClose c close) (setClose_of_ne _ hd _)
        (fun _ _ => rfl) rfl).le
  exact Nat.add_lt_add_left hlt _

theorem closeWeight_settled {c f : Nat} (hc : w.closes c = some (.awaits f))
    (hf : (w.flushes f).any (·.wait = .settled) = true) : w.closeWeight c = 1 := by
  unfold Writer.closeWeight
  rw [hc]
  exact if_pos hf

theorem Sound.resumeClose_nearer (h : Sound w) {c : Nat} (hbuilds : w.writing = none → w.Builds o)
    (hstep : w.resumeClose o c = some v) : Nearer o v w := by
  unfold Writer.resumeClose at hstep
  split at hstep
  next f hc =>
    have hcount : c < w.closeCount := h.numbered.closes c (by simp [hc])
    split at hstep
    next hsettled =>
      have hold : w.closeWeight c = 1 := closeWeight_settled hc hsettled
      split at hstep
      next hloop =>
        obtain rfl := Option.some.inj hstep
        cases hwriting : w.writing with
        | some batch =>
          -- it waits for the batch that is being written
          have hflush : w.flush o = { w with flushCount := w.flushCount + 1 }.setFlush w.flushCount
              (.before batch) w.appendedTotal := by
            unfold Writer.flush
            rw [hwriting]
          have hweight : (w.flush o).flushWeight w.flushCount = 0 := by
            rw [hflush]
            exact flushWeight_before (h.kept.books.running hwriting)
          have hunsettled : ((w.flush o).flushes w.flushCount).any (·.wait = .settled) = false := by
            rw [hflush, setFlush_self]
            rfl
          have hnew : ((w.flush o).setClose c (.awaits w.flushCount)).closeWeight c = 0 := by
            unfold Writer.closeWeight
            rw [setClose_self]
            exact (if_neg (Bool.eq_false_iff.mp hunsettled)).trans hweight
          rw [hflush] at hweight hnew ⊢
          have hclose := (sums_newFlush (v := { w with flushCount := w.flushCount + 1 }) h
            rfl rfl rfl hweight).2 c
          have hsum := weight_newFlush (o := o) (v := { w with flushCount := w.flushCount + 1 }) h
            rfl rfl rfl rfl rfl hweight
          have hlt := sums_setClose (o := o)
            (w := { w with flushCount := w.flushCount + 1 }.setFlush w.flushCount (.before batch)
              w.appendedTotal) hcount (hclose.trans hold) hnew
          refine .inr ⟨rfl, ?_⟩
          have hsame := Nat.add_right_cancel hsum
          exact hsame ▸ hlt
        | none =>
          have hqueue : w.queue ≠ [] := by simpa [hwriting] using hloop
          have hcalls := calls_flush h.kept.books hbuilds
          generalize w.flush o = v at hcalls
          cases hcalls with
          | waits writing => exact absurd (hwriting.symm.trans writing) (by simp)
          | settles queue free => exact absurd queue hqueue
          | starts queue batches => exact nearer_of_started queue batches rfl rfl
      next hidle =>
        obtain rfl := Option.some.inj hstep
        refine .inr ⟨rfl, sums_setClose hcount hold ?_⟩
        unfold Writer.closeWeight
        rw [setClose_self]
    · cases hstep
  · cases hstep

/-- **Every steady step of the writer's own comes nearer to rest.** -/
theorem Sound.nearer (h : Sound w) {e : Event R} (hown : e.isOwn = true) (hsteady : Steady o w e)
    (hstep : (writer o).step w e = some v) : Nearer o v w := by
  cases e with
  | append record => cases hown
  | flush => cases hown
  | close => cases hown
  | fire =>
    change w.fire o = some v at hstep
    unfold Writer.fire at hstep
    split at hstep
    next htimer =>
      obtain rfl := Option.some.inj hstep
      exact h.fire_nearer htimer hsteady
    · cases hstep
  | answer number a =>
    obtain ⟨b, hb, rfl⟩ := Option.map_eq_some_iff.mp hstep
    obtain ⟨hbatches, -, -⟩ := h.kept.books.batch hb
    exact (advances o hbatches a).nearer hbatches
  | resume f => exact h.resume_nearer hsteady hstep
  | resumeClose c => exact h.resumeClose_nearer hsteady hstep

/-- A steady step of the writer's own. -/
def OwnStep (o : Options R) (v w : Writer R) : Prop :=
  ∃ e : Event R, e.isOwn = true ∧ Steady o w e ∧ (writer o).step w e = some v

theorem nearer_wellFounded (o : Options R) : WellFounded (Nearer o) := by
  have hlex : WellFounded (Prod.Lex (· < ·) (· < · : Nat → Nat → Prop)) :=
    WellFounded.prod_lex Nat.lt_wfRel.wf Nat.lt_wfRel.wf
  refine Subrelation.wf ?_ (InvImage.wf (fun w : Writer R => (w.work, w.weight o)) hlex)
  rintro v w (hwork | ⟨hwork, hweight⟩)
  · exact Prod.Lex.left _ _ hwork
  · change Prod.Lex _ _ (v.work, v.weight o) (w.work, w.weight o)
    rw [hwork]
    exact Prod.Lex.right _ hweight

/-- **Left to itself the writer comes to rest**: its own steps do not go on for ever. -/
theorem Sound.ends (h : Sound w) : Acc (OwnStep o) w := by
  induction w using (nearer_wellFounded o).induction with
  | _ w ih =>
    refine Acc.intro w ?_
    rintro v ⟨e, hown, hsteady, hstep⟩
    exact ih v (h.nearer hown hsteady hstep) (h.step hsteady hstep)

end

/-! ## Every state that is reached -/

/-- Order and barrier: one batch is written at a time; what is in the log was appended, each record
once and in order; what is not was dropped as the oldest and counted, or reported with its batch; a
flush that is through leaves nothing behind that was appended before; and the writer comes to rest,
where every record is done with. -/
structure Orderly (o : Options R) (w : Writer R) : Prop where
  alone : w.batches.length ≤ 1
  once : w.appended.Pairwise (·.number < ·.number)
  inOrder : w.written.Sublist w.appended
  files : Filed w.files w.written
  account : w.appended.Perm
    (w.written ++ (w.inFlight ++ w.queue) ++ (w.dropped ++ w.reported.flatten))
  counted : w.droppedTotal = w.dropped.length
  oldest : ∀ d ∈ w.dropped, ∀ e ∈ w.queue, d.number < e.number
  barrier : ∀ f seen, w.flushes f = some ⟨.settled, seen⟩ →
    ∀ e ∈ w.appended, e.number < seen → w.Done e
  ends : Acc (OwnStep o) w
  served : AtRest o w → ∀ e ∈ w.appended, w.Done e

theorem orderly_of_sound (o : Options R) {w : Writer R} (h : Sound w) : Orderly o w where
  alone := by
    have hone := congrArg List.length h.kept.books.one
    rw [List.length_map] at hone
    rw [hone]
    cases w.writing <;> simp
  once := h.kept.books.increasing
  inOrder := (List.sublist_append_left _ _).trans h.kept.books.order
  files := h.kept.filed
  account := h.kept.books.account
  counted := h.kept.books.counted
  oldest := h.kept.books.oldest
  barrier f seen hf := (h.kept.served f _ hf).2
  ends := h.ends
  served hrest _ he := hrest.done h he

/-- **The audit writer keeps order, and its flush is a barrier.** -/
theorem orderly (o : Options R) {events : List (Event R)} {w : Writer R}
    (hsteady : (writer o).Along (Steady o) events) (hrun : (writer o).run events = some w) :
    Orderly o w := by
  refine orderly_of_sound o (Automaton.invariant sound_created ?_ hsteady hrun)
  exact fun _ _ _ h hsteady hstep => h.step hsteady hstep

/-- The options of the daemon; a line can be built of every record but `0`. -/
def sampleOptions : Options Nat where
  queueMax := 10000
  maxBytes := 52428800
  maxFiles := 5
  prunes := true
  storage := false
  builds record := record ≠ 0

theorem orderly_sample : ∃ w, (writer sampleOptions).run [.append 1, .flush, .append 2, .flush]
    = some w ∧ Orderly sampleOptions w := by
  have hfirst : (writer sampleOptions).Along (Steady sampleOptions) ([] ++ [.append 1]) :=
    Automaton.along_nil.concat fun _ _ _ _ => by decide
  have hflush : (writer sampleOptions).Along (Steady sampleOptions) ([.append 1] ++ [.flush]) := by
    refine hfirst.concat fun w hrun _ e he => ?_
    obtain rfl := Option.some.inj hrun
    obtain rfl := List.mem_singleton.mp he
    decide
  have hsecond : (writer sampleOptions).Along (Steady sampleOptions)
      ([.append 1, .flush] ++ [.append 2]) := hflush.concat fun _ _ _ _ => by decide
  have hwait : (writer sampleOptions).Along (Steady sampleOptions)
      ([.append 1, .flush, .append 2] ++ [.flush]) := by
    refine hsecond.concat fun w hrun hwriting => ?_
    obtain rfl := Option.some.inj hrun
    cases hwriting
  exact ⟨_, rfl, orderly sampleOptions hwait rfl⟩

/-- Two calls of `flush` wait for the first batch. The first one to go on starts a batch of the
records of both. -/
def twoWaiting : List (Event Nat) :=
  [.append 1, .flush, .append 2, .flush, .append 3, .flush] ++
    List.replicate 8 (.answer 0 ⟨true, 0, false⟩) ++ [.resume 1, .resume 2]

/-- **The other one is through before its record is written.** -/
theorem twoWaiting_unorderly :
    ∃ w, (writer sampleOptions).run twoWaiting = some w ∧ ¬ Orderly sampleOptions w := by
  have hrun : ((writer sampleOptions).run twoWaiting).map (fun w => (w.flushes 2,
      w.appended.map Entry.number, w.written.map Entry.number, w.dropped.map Entry.number,
      w.reported.flatten.map Entry.number))
        = some (some ⟨.settled, 3⟩, [0, 1, 2], [0], [], []) := by
    decide +kernel
  obtain ⟨w, hw, hstate⟩ := Option.map_eq_some_iff.mp hrun
  simp only [Prod.mk.injEq] at hstate
  obtain ⟨hflush, happended, hwritten, hdropped, hreported⟩ := hstate
  refine ⟨w, hw, fun h => ?_⟩
  obtain ⟨e, he, hnumber⟩ : ∃ e ∈ w.appended, e.number = 1 := by
    have hmem : 1 ∈ w.appended.map Entry.number := by rw [happended]; decide
    simpa using hmem
  have hnot : ∀ l : List (Entry Nat), l.map Entry.number ⊆ [0] → e ∉ l := by
    intro l hl hmem
    have hzero := hl (List.mem_map_of_mem hmem)
    rw [hnumber] at hzero
    exact absurd hzero (by decide)
  rcases h.barrier 2 3 hflush e he (by rw [hnumber]; decide) with h | h | h
  · exact hnot _ (by rw [hwritten]; exact List.Subset.refl _) h
  · exact hnot _ (by rw [hdropped]; exact List.nil_subset _) h
  · exact hnot _ (by rw [hreported]; exact List.nil_subset _) h

end Telepty.Audit
