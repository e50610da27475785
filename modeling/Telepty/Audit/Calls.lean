import Telepty.Audit.Books

/-!
# The calls of the audit writer

A call of `flush` has seen the records that were appended before it, and is through when they are
done with. That holds as long as a call that waited for a batch does not go on while another one is
being written, and every line can be built.

* `Served` — what a call of `flush` has seen
* `Attended` — who will take what stands in the queue
* `Sound.step` — one event
-/

namespace Telepty.Audit

open Infra

variable {R : Type}

/-! ## What a flush has seen -/

/-- What has been done with the records from one state to another. -/
structure Progress (w w' : Writer R) : Prop where
  total : w.appendedTotal ≤ w'.appendedTotal
  older : ∀ e ∈ w'.appended, e.number < w.appendedTotal → e ∈ w.appended
  done : ∀ e, w.Done e → w'.Done e
  pending : ∀ b ∈ w.batches, ∀ e ∈ b.pending,
    w'.Done e ∨ ∃ c ∈ w'.batches, c.number = b.number ∧ e ∈ c.pending

/-- A call that is through has seen everything before it done; one that waits for its own batch has
the rest in it. -/
def Served (w : Writer R) (f : Flush) : Prop :=
  f.seen ≤ w.appendedTotal ∧
    match f.wait with
    | .before _ => True
    | .own batch => ∀ e ∈ w.appended, e.number < f.seen →
      w.Done e ∨ ∃ b ∈ w.batches, b.number = batch ∧ e ∈ b.pending
    | .settled => ∀ e ∈ w.appended, e.number < f.seen → w.Done e

theorem Served.mono {w w' : Writer R} {f : Flush} (h : Served w f) (hp : Progress w w') :
    Served w' f := by
  obtain ⟨hseen, h⟩ := h
  refine ⟨Nat.le_trans hseen hp.total, ?_⟩
  have holder : ∀ e ∈ w'.appended, e.number < f.seen → e ∈ w.appended :=
    fun e he hlt => hp.older e he (Nat.lt_of_lt_of_le hlt hseen)
  split at h
  · trivial
  · intro e he hlt
    rcases h e (holder e he hlt) hlt with hdone | ⟨b, hb, hnumber, he⟩
    · exact .inl (hp.done e hdone)
    · rcases hp.pending b hb e he with hdone | ⟨c, hc, hcb, he⟩
      · exact .inl hdone
      · exact .inr ⟨c, hc, hcb.trans hnumber, he⟩
  · intro e he hlt
    exact hp.done e (h e (holder e he hlt) hlt)

/-- Nothing has been appended, and the batches are the same. -/
theorem Progress.same {w w' : Writer R} (happended : w'.appended = w.appended)
    (htotal : w'.appendedTotal = w.appendedTotal) (hbatches : w'.batches = w.batches)
    (hdone : ∀ e, w.Done e → w'.Done e) : Progress w w' where
  total := Nat.le_of_eq htotal.symm
  older _ he _ := happended ▸ he
  done := hdone
  pending b hb _ he := .inr ⟨b, hbatches ▸ hb, rfl, he⟩

theorem Progress.advances {o : Options R} {w w' : Writer R} {b : Batch R}
    (hbatches : w.batches = [b]) (hadvances : Advances o w b w') : Progress w w' := by
  have honly : ∀ c ∈ w.batches, c = b := fun c hc => List.mem_singleton.mp (hbatches ▸ hc)
  -- the records of the batch that are not in the log yet
  have hentries : b.stage ≠ .chmod → ∀ c ∈ w.batches, ∀ e ∈ c.pending, e ∈ b.entries := by
    intro hmid c hc e he
    rwa [honly c hc, pending_of_mid hmid] at he
  have hwritten : ∀ e, w.Done e → (w.land b.entries).Done e := by
    rintro e (he | he)
    · exact .inl (List.mem_append_left _ he)
    · exact .inr he
  cases hadvances with
  | goes mid next rank filed =>
    refine ⟨Nat.le_refl _, fun _ he _ => he, fun _ he => he, fun c hc e he => ?_⟩
    refine .inr ⟨_, List.mem_singleton.mpr rfl, by rw [honly c hc], ?_⟩
    rw [pending_of_mid next]
    exact hentries mid c hc e he
  | lands mid =>
    refine ⟨Nat.le_refl _, fun _ he _ => he, hwritten, fun c hc e he => .inl (.inl ?_)⟩
    exact List.mem_append_right _ (hentries (by simp [mid]) c hc e he)
  | stores mid =>
    rw [finish_eq (w := w.land b.entries) hbatches]
    refine ⟨Nat.le_refl _, fun _ he _ => he, hwritten, fun c hc e he => .inl (.inl ?_)⟩
    exact List.mem_append_right _ (hentries (by simp [mid]) c hc e he)
  | ends mid =>
    rw [finish_eq hbatches]
    refine ⟨Nat.le_refl _, fun _ he _ => he, fun _ he => he, fun c hc e he => ?_⟩
    rw [honly c hc, Batch.pending, if_pos mid] at he
    cases he
  | fails mid =>
    rw [finish_eq (w := w.report b.entries) hbatches]
    have hflatten : ∀ e, e ∈ w.reported.flatten ∨ e ∈ b.entries →
        e ∈ (w.reported ++ [b.entries]).flatten := by
      intro e he
      simpa using he
    refine ⟨Nat.le_refl _, fun _ he _ => he, ?_, fun c hc e he => .inl (.inr (.inr ?_))⟩
    · rintro e (he | he | he)
      · exact .inl he
      · exact .inr (.inl he)
      · exact .inr (.inr (hflatten e (.inl he)))
    · exact hflatten e (.inr (hentries mid c hc e he))

theorem Progress.append {o : Options R} {w : Writer R} (record : R) :
    Progress w (w.append o record) := by
  have hpush : ∀ v : Writer R, v.appendedTotal = w.appendedTotal → v.appended = w.appended →
      v.batches = w.batches → (∀ e, w.Done e → v.Done e) →
      Progress w (v.push record).scheduleFlush := by
    intro v htotal happended hbatches hdone
    rw [scheduleFlush_eq]
    refine ⟨?_, ?_, hdone, fun b hb e he => .inr ⟨b, hbatches ▸ hb, rfl, he⟩⟩
    · exact Nat.le_trans (Nat.le_of_eq htotal.symm) (Nat.le_succ _)
    · intro e he hlt
      change e ∈ v.appended ++ [⟨v.appendedTotal, record⟩] at he
      rcases List.mem_append.mp he with he | he
      · exact happended ▸ he
      · rw [List.mem_singleton.mp he, htotal] at hlt
        exact absurd hlt (Nat.lt_irrefl _)
  unfold Writer.append
  split
  · exact .same rfl rfl rfl fun _ he => he
  · split
    · refine hpush w.dropOldest rfl rfl rfl ?_
      rintro e (he | he | he)
      · exact .inl he
      · exact .inr (.inl (List.mem_append_left _ he))
      · exact .inr (.inr he)
    · exact hpush w rfl rfl rfl fun _ he => he

/-! ## Calls -/

theorem setFlush_self (w : Writer R) (f : Nat) (wait : Wait) (seen : Nat) :
    (w.setFlush f wait seen).flushes f = some ⟨wait, seen⟩ :=
  Function.update_self ..

theorem setFlush_of_ne (w : Writer R) {f g : Nat} (hne : g ≠ f) (wait : Wait) (seen : Nat) :
    (w.setFlush f wait seen).flushes g = w.flushes g :=
  Function.update_of_ne hne ..

theorem setClose_self (w : Writer R) (c : Nat) (close : Close) :
    (w.setClose c close).closes c = some close :=
  Function.update_self ..

theorem setClose_of_ne (w : Writer R) {c d : Nat} (hne : d ≠ c) (close : Close) :
    (w.setClose c close).closes d = w.closes d :=
  Function.update_of_ne hne ..

namespace Writer

/-- A line can be built of every record in the queue. -/
def Builds (o : Options R) (w : Writer R) : Prop :=
  ∀ e ∈ w.queue, o.builds e.record = true

/-- The queue is taken as a batch. -/
def started (o : Options R) (w : Writer R) : Writer R :=
  { w with
    queue := []
    batchCount := w.batchCount + 1
    batches := w.batches ++ [⟨w.batchCount, w.queue, if o.storage then .storage else .stat⟩]
    writing := some w.batchCount }

/-- A call of `flush` that has seen `seen` records may go on: no batch is being written, or nothing
stands in the queue and the batch that is being written has none of these records. -/
def Free (w : Writer R) (seen : Nat) : Prop :=
  w.batches = [] ∨ (w.queue = [] ∧ ∀ e ∈ w.inFlight, seen ≤ e.number)

end Writer

/-- What becomes of the records when a call of `flush` goes on. -/
inductive Calls (o : Options R) (w : Writer R) (f seen : Nat) : Writer R → Prop where
  | waits {batch : Nat} (writing : w.writing = some batch) :
      Calls o w f seen (w.setFlush f (.before batch) seen)
  | settles (queue : w.queue = []) (free : ∀ e ∈ w.inFlight, seen ≤ e.number) :
      Calls o w f seen (w.setFlush f .settled seen)
  | starts (queue : w.queue ≠ []) (batches : w.batches = []) :
      Calls o w f seen ((w.started o).setFlush f (.own w.batchCount) seen)

theorem calls_flushQueue {o : Options R} {w : Writer R} {f seen : Nat} (hfree : w.Free seen)
    (hbuilds : w.Builds o) : Calls o w f seen (w.flushQueue o f seen) := by
  unfold Writer.flushQueue
  by_cases hqueue : w.queue = []
  · rw [if_pos (List.isEmpty_iff.mpr hqueue)]
    refine .settles hqueue ?_
    rcases hfree with hnil | ⟨-, hfree⟩
    · simp [Writer.inFlight, hnil]
    · exact hfree
  · rw [if_neg (fun h => hqueue (List.isEmpty_iff.mp h))]
    have hbatch : { w.writeBatch o with writing := some w.batchCount } = w.started o := by
      rw [Writer.writeBatch, if_pos (List.all_eq_true.mpr hbuilds)]
      rfl
    rw [hbatch]
    exact .starts hqueue (hfree.resolve_right fun h => hqueue h.1)

theorem calls_flush {o : Options R} {w : Writer R} (h : Books w)
    (hbuilds : w.writing = none → w.Builds o) :
    Calls o { w with flushCount := w.flushCount + 1 } w.flushCount w.appendedTotal (w.flush o) := by
  unfold Writer.flush
  split
  next batch hwriting => exact .waits hwriting
  next hwriting => exact calls_flushQueue (.inl (h.batches_eq_nil hwriting)) (hbuilds hwriting)

theorem Books.calls {o : Options R} {w w' : Writer R} {f seen : Nat} (h : Books w)
    (hcalls : Calls o w f seen w') : Books w' := by
  cases hcalls with
  | waits writing => exact h.moved h.one rfl rfl fun _ he => he
  | settles queue free => exact h.moved h.one rfl rfl fun _ he => he
  | starts queue batches =>
    refine h.moved ?_ rfl ?_ fun e he => nomatch he
    · change (w.batches ++ [_]).map Batch.number = [w.batchCount]
      rw [batches]
      rfl
    · change w.written ++ ((w.batches ++ [_]).flatMap Batch.pending ++ []) = _
      rw [Writer.inFlight, batches, List.nil_append, List.flatMap_singleton, List.append_nil,
        List.flatMap_nil, List.nil_append, pending_of_mid]
      dsimp only
      split <;> simp

theorem Progress.calls {o : Options R} {w w' : Writer R} {f seen : Nat}
    (hcalls : Calls o w f seen w') : Progress w w' := by
  cases hcalls with
  | waits writing => exact .same rfl rfl rfl fun _ he => he
  | settles queue free => exact .same rfl rfl rfl fun _ he => he
  | starts queue batches =>
    refine ⟨Nat.le_refl _, fun _ he _ => he, fun _ he => he, fun b hb => ?_⟩
    rw [batches] at hb
    cases hb

/-- The call has seen what it says it has. -/
theorem served_calls {o : Options R} {w w' : Writer R} {f seen : Nat} (h : Books w)
    (hseen : seen ≤ w.appendedTotal) (hcalls : Calls o w f seen w') :
    ∀ g, w'.flushes f = some g → Served w' g := by
  intro g hg
  cases hcalls with
  | waits writing =>
    rw [setFlush_self] at hg
    obtain rfl := Option.some.inj hg
    exact ⟨hseen, trivial⟩
  | settles queue free =>
    rw [setFlush_self] at hg
    obtain rfl := Option.some.inj hg
    refine ⟨hseen, fun e he hlt => ?_⟩
    rcases h.whereabouts he with hdone | he | he
    · exact hdone
    · exact absurd hlt (Nat.not_lt.mpr (free e he))
    · rw [queue] at he
      cases he
  | starts queue batches =>
    rw [setFlush_self] at hg
    obtain rfl := Option.some.inj hg
    refine ⟨hseen, fun e he _ => ?_⟩
    rcases h.whereabouts he with hdone | he | he
    · exact .inl hdone
    · rw [Writer.inFlight, batches] at he
      cases he
    · refine .inr ⟨_, List.mem_append_right _ (List.mem_singleton.mpr rfl), rfl, ?_⟩
      rwa [pending_of_mid]
      dsimp only
      split <;> simp

theorem calls_flushes {o : Options R} {w w' : Writer R} {f seen g : Nat}
    (hcalls : Calls o w f seen w') (hne : g ≠ f) : w'.flushes g = w.flushes g := by
  cases hcalls with
  | waits writing => exact setFlush_of_ne _ hne _ _
  | settles queue free => exact setFlush_of_ne _ hne _ _
  | starts queue batches => exact setFlush_of_ne _ hne _ _

/-! ## Who takes the queue -/

/-- What stands in the queue will be taken: the timer is armed, a batch is being written, or, once
the writer is closed, a call of `close` has not come to its end. -/
structure Attended (w : Writer R) : Prop where
  armed : w.closed = false → w.queue ≠ [] → w.timer = true ∨ w.batches ≠ []
  closing : w.closed = true → w.queue ≠ [] → ∃ c f, w.closes c = some (.awaits f)
  awaited : ∀ c f, w.closes c = some (.awaits f) → ∃ g, w.flushes f = some g

/-- A file operation leaves the calls and the queue. -/
theorem advances_calls {o : Options R} {w w' : Writer R} {b : Batch R} (hbatches : w.batches = [b])
    (hadvances : Advances o w b w') :
    (w'.flushes, w'.flushCount, w'.closes, w'.closeCount, w'.closed, w'.queue)
      = (w.flushes, w.flushCount, w.closes, w.closeCount, w.closed, w.queue) := by
  cases hadvances with
  | goes mid next rank filed => rfl
  | lands mid => rfl
  | stores mid =>
    rw [finish_eq (w := w.land b.entries) hbatches]
    rfl
  | ends mid => rw [finish_eq hbatches]
  | fails mid =>
    rw [finish_eq (w := w.report b.entries) hbatches]
    rfl

/-- What the calls and the file operations keep. -/
structure Kept (w : Writer R) : Prop where
  books : Books w
  filed : Filed w.files w.written
  served : ∀ f g, w.flushes f = some g → Served w g

/-- The calls have been numbered. -/
structure Numbered (w : Writer R) : Prop where
  flushes : ∀ f, w.flushes f ≠ none → f < w.flushCount
  closes : ∀ c, w.closes c ≠ none → c < w.closeCount

/-- The invariant of the writer. -/
structure Sound (w : Writer R) : Prop where
  kept : Kept w
  attended : Attended w
  numbered : Numbered w

theorem sound_created : Sound (Writer.created : Writer R) where
  kept := ⟨.created, .empty, fun _ _ h => nomatch h⟩
  attended := ⟨fun _ h => absurd rfl h, fun _ h => absurd rfl h, fun _ _ h => nomatch h⟩
  numbered := ⟨fun _ h => absurd rfl h, fun _ h => absurd rfl h⟩

/-- The timer is armed for what stands in the queue when a batch ends or a record is appended. -/
theorem armed_scheduleFlush {w : Writer R} (hone : w.writing ≠ none → w.batches ≠ []) :
    w.scheduleFlush.closed = false → w.scheduleFlush.queue ≠ [] →
      w.scheduleFlush.timer = true ∨ w.scheduleFlush.batches ≠ [] := by
  intro hclosed hqueue
  rcases scheduleFlush_cases w with hw | ⟨hw, -⟩
  · rw [hw] at hclosed hqueue ⊢
    unfold Writer.scheduleFlush at hw
    split at hw
    next h =>
      rcases h with h | h | h | h
      · exact absurd (hclosed.symm.trans h) (by simp)
      · exact .inl h
      · exact .inr (hone (Option.isSome_iff_ne_none.mp h))
      · exact absurd (List.isEmpty_iff.mp h) hqueue
    · exact .inl (congrArg Writer.timer hw).symm
  · rw [hw]
    exact .inl rfl

namespace Kept

variable {o : Options R} {w w' : Writer R} {f seen : Nat}

theorem served_mono (h : Kept w) (hp : Progress w w') (hflushes : w'.flushes = w.flushes) :
    ∀ f g, w'.flushes f = some g → Served w' g := by
  intro f g hg
  exact (h.served f g (hflushes ▸ hg)).mono hp

/-- Neither the timer nor the numbers of calls have to do with the records. -/
theorem calling (h : Kept w) (timer closed : Bool) (closeCount flushCount : Nat) :
    Kept { w with timer, closed, closeCount, flushCount } :=
  ⟨h.books.moved h.books.one rfl rfl fun _ he => he, h.filed, h.served⟩

theorem calls (h : Kept w) (hseen : seen ≤ w.appendedTotal) (hcalls : Calls o w f seen w') :
    Kept w' where
  books := h.books.calls hcalls
  filed := by
    cases hcalls with
    | waits writing => exact h.filed
    | settles queue free => exact h.filed
    | starts queue batches => exact h.filed
  served := by
    intro g F hF
    by_cases hg : g = f
    · subst hg
      exact served_calls h.books hseen hcalls F hF
    · rw [calls_flushes hcalls hg] at hF
      exact (h.served g F hF).mono (.calls hcalls)

theorem append (h : Kept w) (hmax : w.closed = false → w.queue = [] → 0 < o.queueMax) (record : R) :
    Kept (w.append o record) := by
  have hp : Progress w (w.append o record) := .append record
  unfold Writer.append at hp ⊢
  split
  · exact h
  next hclosed =>
    rw [if_neg hclosed] at hp
    split
    next hfull =>
      rw [if_pos hfull] at hp
      have hqueue : w.queue ≠ [] := by
        intro hnil
        have hmax := hmax (by simpa using hclosed) hnil
        rw [hnil] at hfull
        simp only [List.length_nil, Int.natCast_zero] at hfull
        omega
      refine ⟨((h.books.dropOldest hqueue).push record).scheduleFlush, ?_, h.served_mono hp ?_⟩
      · rw [scheduleFlush_eq]
        exact h.filed
      · rw [scheduleFlush_eq]
        rfl
    next hfull =>
      rw [if_neg hfull] at hp
      refine ⟨(h.books.push record).scheduleFlush, ?_, h.served_mono hp ?_⟩
      · rw [scheduleFlush_eq]
        exact h.filed
      · rw [scheduleFlush_eq]
        rfl

theorem advances {b : Batch R} (h : Kept w) (hbatches : w.batches = [b])
    (hadvances : Advances o w b w') : Kept w' where
  books := h.books.advances hbatches hadvances
  filed := .advances h.books h.filed hbatches hadvances
  served := h.served_mono (.advances hbatches hadvances)
    (Prod.mk.inj (advances_calls hbatches hadvances)).1

end Kept

/-! ## Steps -/

/-- A batch is started only when no other one is being written, of records whose lines can be built,
and a call of `flush` that has waited does not end while records it has seen are being written. A
record that overflows the queue drops one. -/
def Steady (o : Options R) (w : Writer R) : Event R → Prop
  | .append _ => w.closed = false → w.queue = [] → 0 < o.queueMax
  | .resume f => ∀ batch seen, w.flushes f = some ⟨.before batch, seen⟩ → w.Free seen ∧ w.Builds o
  | .answer _ _ => True
  | _ => w.writing = none → w.Builds o

theorem finish_armed (w : Writer R) (number : Nat) :
    (w.finish number).closed = false → (w.finish number).queue ≠ [] →
      (w.finish number).timer = true ∨ (w.finish number).batches ≠ [] :=
  armed_scheduleFlush fun h => absurd rfl h

namespace Attended

variable {o : Options R} {w w' : Writer R} {f seen : Nat}

theorem advances {b : Batch R} (h : Attended w) (hbatches : w.batches = [b])
    (hadvances : Advances o w b w') : Attended w' := by
  have hcalls := advances_calls hbatches hadvances
  simp only [Prod.mk.injEq] at hcalls
  obtain ⟨hflushes, -, hcloses, -, hclosed, hqueue⟩ := hcalls
  refine ⟨?_, fun hc hq => ?_, fun c f hc => ?_⟩
  · cases hadvances with
    | goes mid next rank filed => exact fun _ _ => .inr (List.cons_ne_nil _ _)
    | lands mid => exact fun _ _ => .inr (List.cons_ne_nil _ _)
    | stores mid => exact finish_armed _ _
    | ends mid => exact finish_armed _ _
    | fails mid => exact finish_armed _ _
  · rw [hcloses]
    exact h.closing (hclosed ▸ hc) (hqueue ▸ hq)
  · rw [hflushes]
    exact h.awaited c f (hcloses ▸ hc)

/-- Where a record stands in the queue after a call of `flush` went on, a batch is being written. -/
theorem batches_of_calls (h : Books w) (hcalls : Calls o w f seen w') (hqueue : w'.queue ≠ []) :
    w'.batches ≠ [] := by
  cases hcalls with
  | waits writing => exact h.batches_ne_nil (by simp [writing])
  | settles queue free => exact absurd queue hqueue
  | starts queue batches => exact absurd rfl hqueue

theorem calls_closes (hcalls : Calls o w f seen w') :
    w'.closes = w.closes ∧ w'.closed = w.closed ∧ w'.closeCount = w.closeCount ∧
      (w'.queue ≠ [] → w.queue ≠ []) := by
  cases hcalls with
  | waits writing => exact ⟨rfl, rfl, rfl, id⟩
  | settles queue free => exact ⟨rfl, rfl, rfl, id⟩
  | starts queue batches => exact ⟨rfl, rfl, rfl, fun h => absurd rfl h⟩

theorem awaited_of_calls (hcalls : Calls o w f seen w') {g : Nat}
    (h : g ≠ f → ∃ F, w.flushes g = some F) : ∃ F, w'.flushes g = some F := by
  by_cases hg : g = f
  · subst hg
    cases hcalls with
    | waits writing => exact ⟨_, setFlush_self ..⟩
    | settles queue free => exact ⟨_, setFlush_self ..⟩
    | starts queue batches => exact ⟨_, setFlush_self ..⟩
  · rw [calls_flushes hcalls hg]
    exact h hg

theorem calls (hbooks : Books w)
    (hclosing : w.closed = true → w.queue ≠ [] → ∃ c f, w.closes c = some (.awaits f))
    (hawaited : ∀ c f, w.closes c = some (.awaits f) → ∃ g, w.flushes f = some g)
    (hcalls : Calls o w f seen w') : Attended w' := by
  obtain ⟨hcloses, hclosed, -, hqueue⟩ := calls_closes hcalls
  refine ⟨fun _ hq => .inr (batches_of_calls hbooks hcalls hq), fun hc hq => ?_, fun c g hc => ?_⟩
  · rw [hcloses]
    exact hclosing (hclosed ▸ hc) (hqueue hq)
  · exact awaited_of_calls hcalls fun _ => hawaited c g (hcloses ▸ hc)

theorem append (h : Attended w) (hbooks : Books w) (record : R) : Attended (w.append o record) := by
  have hpush : w.closed = false → ∀ v : Writer R, v.closed = w.closed → v.closes = w.closes →
      v.flushes = w.flushes → v.writing = w.writing → v.batches = w.batches →
      Attended (v.push record).scheduleFlush := by
    intro hopen v hclosed hcloses hflushes hwriting hbatches
    refine ⟨armed_scheduleFlush fun hw => ?_, fun hc => ?_, fun c f hc => ?_⟩
    · change v.batches ≠ []
      rw [hbatches]
      exact hbooks.batches_ne_nil (hwriting ▸ hw)
    · rw [scheduleFlush_eq] at hc
      exact absurd ((hclosed.trans hopen).symm.trans hc) (by simp)
    · rw [scheduleFlush_eq] at hc ⊢
      change ∃ g, v.flushes f = some g
      rw [hflushes]
      exact h.awaited c f (hcloses ▸ hc)
  unfold Writer.append
  split
  · exact h
  next hclosed =>
    have hopen : w.closed = false := by simpa using hclosed
    split
    · exact hpush hopen w.dropOldest rfl rfl rfl rfl rfl
    · exact hpush hopen w rfl rfl rfl rfl rfl

end Attended

namespace Numbered

variable {o : Options R} {w w' : Writer R} {f seen : Nat}

theorem advances {b : Batch R} (h : Numbered w) (hbatches : w.batches = [b])
    (hadvances : Advances o w b w') : Numbered w' := by
  have hcalls := advances_calls hbatches hadvances
  simp only [Prod.mk.injEq] at hcalls
  obtain ⟨hflushes, hflushCount, hcloses, hcloseCount, -, -⟩ := hcalls
  refine ⟨fun f hf => ?_, fun c hc => ?_⟩
  · rw [hflushCount]
    exact h.flushes f (hflushes ▸ hf)
  · rw [hcloseCount]
    exact h.closes c (hcloses ▸ hc)

theorem setFlush (h : Numbered w) (hf : f < w.flushCount) (wait : Wait) :
    Numbered (w.setFlush f wait seen) := by
  refine ⟨fun g hg => ?_, h.closes⟩
  by_cases hgf : g = f
  · subst hgf
    exact hf
  · rw [setFlush_of_ne _ hgf] at hg
    exact h.flushes g hg

theorem setClose {c : Nat} (h : Numbered w) (hc : c < w.closeCount) (close : Close) :
    Numbered (w.setClose c close) := by
  refine ⟨h.flushes, fun d hd => ?_⟩
  by_cases hdc : d = c
  · subst hdc
    exact hc
  · rw [setClose_of_ne _ hdc] at hd
    exact h.closes d hd

theorem calls (h : Numbered w) (hf : f < w.flushCount) (hcalls : Calls o w f seen w') :
    Numbered w' := by
  cases hcalls with
  | waits writing => exact h.setFlush hf _
  | settles queue free => exact h.setFlush hf _
  | starts queue batches =>
    have hstarted : Numbered (w.started o) := ⟨h.flushes, h.closes⟩
    exact hstarted.setFlush hf _

theorem append (h : Numbered w) (record : R) : Numbered (w.append o record) := by
  have hpush : ∀ v : Writer R, Numbered v → Numbered (v.push record).scheduleFlush := by
    intro v hv
    rw [scheduleFlush_eq]
    exact ⟨hv.flushes, hv.closes⟩
  unfold Writer.append
  split
  · exact h
  · split
    · exact hpush w.dropOldest ⟨h.flushes, h.closes⟩
    · exact hpush w h

/-- A call more. -/
theorem flush {v : Writer R} (h : Numbered w) (hcalls : Calls o v w.flushCount seen w')
    (hflushes : v.flushes = w.flushes) (hflushCount : v.flushCount = w.flushCount + 1)
    (hcloses : v.closes = w.closes) (hcloseCount : w.closeCount ≤ v.closeCount) :
    Numbered w' := by
  have hv : Numbered v := by
    refine ⟨fun f hf => ?_, fun c hc => ?_⟩
    · rw [hflushCount]
      exact Nat.lt_succ_of_lt (h.flushes f (hflushes ▸ hf))
    · exact Nat.lt_of_lt_of_le (h.closes c (hcloses ▸ hc)) hcloseCount
  exact hv.calls (hflushCount ▸ Nat.lt_succ_self _) hcalls

end Numbered

namespace Sound

variable {o : Options R} {w w' : Writer R}

theorem flush (h : Sound w) (hbuilds : w.writing = none → w.Builds o) : Sound (w.flush o) := by
  have hcalls := calls_flush h.kept.books hbuilds
  have hkept := h.kept.calling w.timer w.closed w.closeCount (w.flushCount + 1)
  exact ⟨hkept.calls (Nat.le_refl _) hcalls,
    .calls hkept.books h.attended.closing h.attended.awaited hcalls,
    h.numbered.flush hcalls rfl rfl rfl (Nat.le_refl _)⟩

theorem fire (h : Sound w) (hbuilds : w.writing = none → w.Builds o) :
    Sound ({ w with timer := false }.flush o) := by
  have hbooks := (h.kept.calling false w.closed w.closeCount w.flushCount).books
  have hcalls := calls_flush (o := o) hbooks hbuilds
  have hkept := h.kept.calling false w.closed w.closeCount (w.flushCount + 1)
  exact ⟨hkept.calls (Nat.le_refl _) hcalls,
    .calls hkept.books h.attended.closing h.attended.awaited hcalls,
    h.numbered.flush hcalls rfl rfl rfl (Nat.le_refl _)⟩

theorem answer {number : Nat} {a : Answer} (h : Sound w) (hstep : w.answer o number a = some w') :
    Sound w' := by
  obtain ⟨b, hb, rfl⟩ := Option.map_eq_some_iff.mp hstep
  obtain ⟨hbatches, -, -⟩ := h.kept.books.batch hb
  have hadvances := advances o hbatches a
  exact ⟨h.kept.advances hbatches hadvances, h.attended.advances hbatches hadvances,
    h.numbered.advances hbatches hadvances⟩

/-- A call whose own batch is through has seen it done. -/
theorem settled {f batch seen : Nat} (h : Sound w) (hf : w.flushes f = some ⟨.own batch, seen⟩)
    (hthrough : ¬ w.Running batch) : Sound (w.setFlush f .settled seen) := by
  have hserved : Served (w.setFlush f .settled seen) ⟨.settled, seen⟩ := by
    obtain ⟨hseen, hdone⟩ := h.kept.served f _ hf
    refine ⟨hseen, fun e he hlt => ?_⟩
    rcases hdone e he hlt with hdone | ⟨b, hb, hnumber, -⟩
    · exact hdone
    · exact absurd ⟨b, hb, hnumber⟩ hthrough
  have hf' : f < w.flushCount := h.numbered.flushes f (by simp [hf])
  refine ⟨⟨h.kept.books.moved h.kept.books.one rfl rfl fun _ he => he, h.kept.filed, ?_⟩, ?_,
    h.numbered.setFlush hf' _⟩
  · intro g F hF
    by_cases hg : g = f
    · subst hg
      rw [setFlush_self] at hF
      obtain rfl := Option.some.inj hF
      exact hserved
    · rw [setFlush_of_ne _ hg] at hF
      exact h.kept.served g F hF
  · refine ⟨h.attended.armed, h.attended.closing, fun c g hc => ?_⟩
    by_cases hg : g = f
    · subst hg
      exact ⟨_, setFlush_self ..⟩
    · rw [setFlush_of_ne _ hg]
      exact h.attended.awaited c g hc

theorem resume {f : Nat} (h : Sound w) (hsteady : Steady o w (.resume f))
    (hstep : w.resume o f = some w') : Sound w' := by
  unfold Writer.resume at hstep
  split at hstep
  next batch seen hf =>
    split at hstep
    · cases hstep
    · obtain rfl := Option.some.inj hstep
      obtain ⟨hfree, hbuilds⟩ := hsteady batch seen hf
      have hcalls := calls_flushQueue (f := f) hfree hbuilds
      exact ⟨h.kept.calls (h.kept.served f _ hf).1 hcalls,
        .calls h.kept.books h.attended.closing h.attended.awaited hcalls,
        h.numbered.calls (h.numbered.flushes f (by simp [hf])) hcalls⟩
  next batch seen hf =>
    split at hstep
    · cases hstep
    next hthrough =>
      obtain rfl := Option.some.inj hstep
      exact h.settled hf hthrough
  · cases hstep

/-- A call of `close` that waits for a call of `flush`. -/
theorem closing {c f : Nat} (hkept : Kept w) (harmed : w.closed = false → w.queue ≠ [] →
      w.timer = true ∨ w.batches ≠ []) (hawaited : ∀ d g, w.closes d = some (.awaits g) →
      ∃ F, w.flushes g = some F) (hf : ∃ F, w.flushes f = some F) (hnumbered : Numbered w)
    (hc : c < w.closeCount) : Sound (w.setClose c (.awaits f)) := by
  refine ⟨⟨hkept.books.moved hkept.books.one rfl rfl fun _ he => he, hkept.filed, hkept.served⟩,
    ⟨harmed, fun _ _ => ⟨c, f, setClose_self ..⟩, fun d g hd => ?_⟩, hnumbered.setClose hc _⟩
  by_cases hdc : d = c
  · subst hdc
    rw [setClose_self] at hd
    obtain rfl := Close.awaits.inj (Option.some.inj hd)
    exact hf
  · rw [setClose_of_ne _ hdc] at hd
    exact hawaited d g hd

theorem close (h : Sound w) (hbuilds : w.writing = none → w.Builds o) : Sound (w.close o) := by
  have hbooks := (h.kept.calling false true (w.closeCount + 1) w.flushCount).books
  have hcalls := calls_flush (o := o) hbooks hbuilds
  have hkept := h.kept.calling false true (w.closeCount + 1) (w.flushCount + 1)
  obtain ⟨hcloses, hclosed, hcount, -⟩ := Attended.calls_closes hcalls
  refine closing (hkept.calls (Nat.le_refl _) hcalls) (fun hc => ?_) (fun d g hd => ?_) ?_ ?_ ?_
  · rw [hclosed] at hc
    cases hc
  · exact Attended.awaited_of_calls hcalls fun _ => h.attended.awaited d g (hcloses ▸ hd)
  · exact Attended.awaited_of_calls hcalls fun hne => absurd rfl hne
  · exact h.numbered.flush hcalls rfl rfl rfl (Nat.le_succ _)
  · rw [hcount]
    exact Nat.lt_succ_self _

theorem resumeClose {c : Nat} (h : Sound w) (hbuilds : w.writing = none → w.Builds o)
    (hstep : w.resumeClose o c = some w') : Sound w' := by
  unfold Writer.resumeClose at hstep
  split at hstep
  next f hc =>
    split at hstep
    · split at hstep
      · obtain rfl := Option.some.inj hstep
        have hflush := h.flush hbuilds
        have hcalls := calls_flush h.kept.books hbuilds
        refine closing hflush.kept hflush.attended.armed hflush.attended.awaited ?_
          hflush.numbered ?_
        · exact Attended.awaited_of_calls hcalls fun hne => absurd rfl hne
        · obtain ⟨-, -, hcount, -⟩ := Attended.calls_closes hcalls
          rw [hcount]
          exact h.numbered.closes c (by simp [hc])
      next hidle =>
        obtain rfl := Option.some.inj hstep
        have hqueue : w.queue = [] := by
          simpa using (not_or.mp hidle).2
        refine ⟨⟨h.kept.books.moved h.kept.books.one rfl rfl fun _ he => he, h.kept.filed,
          h.kept.served⟩, ⟨fun _ hq => absurd hqueue hq, fun _ hq => absurd hqueue hq,
          fun d g hd => ?_⟩, h.numbered.setClose (h.numbered.closes c (by simp [hc])) _⟩
        by_cases hdc : d = c
        · subst hdc
          rw [setClose_self] at hd
          cases hd
        · rw [setClose_of_ne _ hdc] at hd
          exact h.attended.awaited d g hd
    · cases hstep
  · cases hstep

/-- **One steady event keeps the invariant.** -/
theorem step (h : Sound w) {e : Event R} (hsteady : Steady o w e)
    (hstep : (writer o).step w e = some w') : Sound w' := by
  cases e with
  | append record =>
    obtain rfl := Option.some.inj hstep
    exact ⟨h.kept.append hsteady record, h.attended.append h.kept.books record,
      h.numbered.append record⟩
  | flush =>
    obtain rfl := Option.some.inj hstep
    exact h.flush hsteady
  | close =>
    obtain rfl := Option.some.inj hstep
    exact h.close hsteady
  | fire =>
    change w.fire o = some w' at hstep
    unfold Writer.fire at hstep
    split at hstep
    · obtain rfl := Option.some.inj hstep
      exact h.fire hsteady
    · cases hstep
  | answer number a => exact h.answer hstep
  | resume f => exact h.resume hsteady hstep
  | resumeClose c => exact h.resumeClose hsteady hstep

end Sound

end Telepty.Audit
