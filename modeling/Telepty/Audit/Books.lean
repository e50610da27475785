import Telepty.Audit.Writer
import Mathlib.Data.List.Perm.Basic

/-!
# Where the records are

Of the records that were appended some stand in the queue, some are in the batch that is being
written, and the others are in the log, were dropped, or were reported with a batch that failed. The
files hold what was written, the older the further back.

* `Books` — where the records are
* `Filed` — what the files hold
* `advances` — what one file operation of a batch does
-/

namespace Telepty.Audit

open Infra

variable {R : Type}

/-! ## Where the records are -/

/-- The records of a batch that are not in the log yet. -/
def Batch.pending (b : Batch R) : List (Entry R) :=
  if b.stage = .chmod then [] else b.entries

namespace Writer

def inFlight (w : Writer R) : List (Entry R) :=
  w.batches.flatMap Batch.pending

/-- The record is in the log, was dropped, or its batch was reported as failed. -/
def Done (w : Writer R) (e : Entry R) : Prop :=
  e ∈ w.written ∨ e ∈ w.dropped ∨ e ∈ w.reported.flatten

end Writer

/-- Where the records are: `writing` holds the one batch, the log goes on with its records and those
of the queue, and nothing else is lost but what was dropped or reported. -/
structure Books (w : Writer R) : Prop where
  one : w.batches.map Batch.number = w.writing.toList
  numbers : w.appended.map Entry.number = List.range w.appendedTotal
  order : (w.written ++ (w.inFlight ++ w.queue)).Sublist w.appended
  account : w.appended.Perm
    (w.written ++ (w.inFlight ++ w.queue) ++ (w.dropped ++ w.reported.flatten))
  counted : w.droppedTotal = w.dropped.length
  oldest : ∀ d ∈ w.dropped, ∀ e ∈ w.queue, d.number < e.number

theorem scheduleFlush_cases (w : Writer R) :
    w.scheduleFlush = w ∨
      (w.scheduleFlush = { w with timer := true } ∧ w.closed = false ∧ w.queue ≠ []) := by
  unfold Writer.scheduleFlush
  split
  · exact .inl rfl
  next h =>
    simp only [not_or, Bool.not_eq_true, List.isEmpty_eq_false_iff] at h
    exact .inr ⟨rfl, h.1, h.2.2.2⟩

theorem scheduleFlush_eq (w : Writer R) :
    w.scheduleFlush = { w with timer := w.scheduleFlush.timer } := by
  rcases scheduleFlush_cases w with hw | ⟨hw, -⟩ <;> rw [hw]

/-- The end of the only batch. -/
theorem finish_eq {w : Writer R} {b : Batch R} (hbatches : w.batches = [b]) :
    w.finish b.number
      = { w with batches := [], writing := none, timer := (w.finish b.number).timer } := by
  have hnil : w.batches.filter (·.number ≠ b.number) = [] := by simp [hbatches]
  have hfinish : w.finish b.number
      = ({ w with batches := [], writing := none } : Writer R).scheduleFlush := by
    rw [Writer.finish, hnil]
  rw [hfinish]
  exact scheduleFlush_eq _

namespace Books

variable {w : Writer R}

theorem created : Books (Writer.created : Writer R) where
  one := rfl
  numbers := rfl
  order := .refl []
  account := .refl []
  counted := rfl
  oldest _ h := nomatch h

theorem number_lt (h : Books w) {e : Entry R} (he : e ∈ w.appended) :
    e.number < w.appendedTotal := by
  rw [← List.mem_range, ← h.numbers]
  exact List.mem_map_of_mem he

theorem increasing (h : Books w) : w.appended.Pairwise (·.number < ·.number) := by
  have hrange : (w.appended.map Entry.number).Pairwise (· < ·) := h.numbers ▸ List.pairwise_lt_range
  exact List.pairwise_map.mp hrange

/-- Where a record can be. -/
theorem whereabouts (h : Books w) {e : Entry R} (he : e ∈ w.appended) :
    w.Done e ∨ e ∈ w.inFlight ∨ e ∈ w.queue := by
  have he := h.account.mem_iff.mp he
  simp only [List.mem_append] at he
  rcases he with (he | he | he) | he | he
  · exact .inl (.inl he)
  · exact .inr (.inl he)
  · exact .inr (.inr he)
  · exact .inl (.inr (.inl he))
  · exact .inl (.inr (.inr he))

theorem mem_appended (h : Books w) {e : Entry R} (he : w.Done e ∨ e ∈ w.inFlight ∨ e ∈ w.queue) :
    e ∈ w.appended := by
  rw [h.account.mem_iff]
  simp only [List.mem_append]
  rcases he with (he | he | he) | he | he
  · exact .inl (.inl he)
  · exact .inr (.inl he)
  · exact .inr (.inr he)
  · exact .inl (.inr (.inl he))
  · exact .inl (.inr (.inr he))

/-- The batch that is being written. -/
theorem batch (h : Books w) {number : Nat} {b : Batch R}
    (hb : w.batches.find? (·.number = number) = some b) :
    w.batches = [b] ∧ w.writing = some b.number ∧ b.number = number := by
  have hnumber : b.number = number := by simpa using List.find?_some hb
  have hmem := List.mem_of_find?_eq_some hb
  have hone := h.one
  cases hwriting : w.writing with
  | none =>
    rw [hwriting, Option.toList_none, List.map_eq_nil_iff] at hone
    rw [hone] at hmem
    cases hmem
  | some n =>
    rw [hwriting, Option.toList_some] at hone
    obtain ⟨c, hc, hn⟩ := List.map_eq_singleton_iff.mp hone
    rw [hc, List.mem_singleton] at hmem
    subst hmem
    exact ⟨hc, by rw [hn], hnumber⟩

theorem batches_eq_nil (h : Books w) (hwriting : w.writing = none) : w.batches = [] := by
  have hone := h.one
  rwa [hwriting, Option.toList_none, List.map_eq_nil_iff] at hone

theorem batches_ne_nil (h : Books w) (hwriting : w.writing ≠ none) : w.batches ≠ [] := by
  intro hnil
  have hone := h.one
  rw [hnil, List.map_nil] at hone
  exact hwriting (Option.toList_eq_nil_iff.mp hone.symm)

/-- Records only move on, from the queue to the batch and from there to the log. -/
theorem moved (h : Books w) {w' : Writer R}
    (hone : w'.batches.map Batch.number = w'.writing.toList)
    (hkept : (w'.appended, w'.appendedTotal, w'.dropped, w'.droppedTotal, w'.reported)
      = (w.appended, w.appendedTotal, w.dropped, w.droppedTotal, w.reported))
    (hlog : w'.written ++ (w'.inFlight ++ w'.queue) = w.written ++ (w.inFlight ++ w.queue))
    (hqueue : ∀ e ∈ w'.queue, e ∈ w.queue) : Books w' := by
  simp only [Prod.mk.injEq] at hkept
  obtain ⟨happended, htotal, hdropped, hdroppedTotal, hreported⟩ := hkept
  refine ⟨hone, ?_, ?_, ?_, ?_, ?_⟩
  · rw [happended, htotal, h.numbers]
  · rw [hlog, happended]
    exact h.order
  · rw [hlog, happended, hdropped, hreported]
    exact h.account
  · rw [hdropped, hdroppedTotal, h.counted]
  · intro d hd e he
    exact h.oldest d (hdropped ▸ hd) e (hqueue e he)

theorem scheduleFlush (h : Books w) : Books w.scheduleFlush := by
  rcases scheduleFlush_cases w with hw | ⟨hw, -⟩
  · rwa [hw]
  · rw [hw]
    exact h.moved h.one rfl rfl fun _ he => he

theorem push (h : Books w) (record : R) : Books (w.push record) where
  one := h.one
  numbers := by
    rw [Writer.push, List.map_append, h.numbers, List.range_succ]
    rfl
  order := by
    change (w.written ++ (w.inFlight ++
      (w.queue ++ [(⟨w.appendedTotal, record⟩ : Entry R)]))).Sublist
        (w.appended ++ [⟨w.appendedTotal, record⟩])
    rw [← List.append_assoc w.inFlight, ← List.append_assoc w.written]
    exact h.order.append (.refl _)
  account := by
    change (w.appended ++ [(⟨w.appendedTotal, record⟩ : Entry R)]).Perm
      (w.written ++ (w.inFlight ++ (w.queue ++ [(⟨w.appendedTotal, record⟩ : Entry R)])) ++
        (w.dropped ++ w.reported.flatten))
    rw [← List.append_assoc w.inFlight, ← List.append_assoc w.written, List.append_assoc _ [_]]
    refine (h.account.append_right _).trans ?_
    rw [List.append_assoc]
    exact List.perm_append_comm.append_left _
  counted := h.counted
  oldest := by
    intro d hd e he
    rcases List.mem_append.mp he with he | he
    · exact h.oldest d hd e he
    · rw [List.mem_singleton.mp he]
      exact h.number_lt (h.mem_appended (.inl (.inr (.inl hd))))

theorem dropOldest (h : Books w) (hqueue : w.queue ≠ []) : Books w.dropOldest := by
  obtain ⟨q, rest, hq⟩ := List.exists_cons_of_ne_nil hqueue
  have hsub : (w.written ++ (w.inFlight ++ rest)).Sublist
      (w.written ++ (w.inFlight ++ w.queue)) := by
    rw [hq]
    exact ((List.sublist_cons_self q rest).append_left _).append_left _
  refine ⟨h.one, h.numbers, ?_, ?_, ?_, ?_⟩
  · change (w.written ++ (w.inFlight ++ w.queue.tail)).Sublist _
    rw [hq]
    exact hsub.trans h.order
  · change w.appended.Perm (w.written ++ (w.inFlight ++ w.queue.tail) ++
      ((w.dropped ++ w.queue.head?.toList) ++ w.reported.flatten))
    refine h.account.trans ?_
    rw [hq]
    simp only [List.tail_cons, List.head?_cons, Option.toList_some, List.append_assoc,
      List.cons_append, List.nil_append]
    refine (List.Perm.append_left _ (List.Perm.append_left _ ?_))
    rw [← List.append_assoc, ← List.append_assoc rest]
    exact List.perm_middle.symm
  · change w.droppedTotal + 1 = (w.dropped ++ w.queue.head?.toList).length
    rw [hq, h.counted]
    simp
  · intro d hd e he
    change d ∈ w.dropped ++ w.queue.head?.toList at hd
    change e ∈ w.queue.tail at he
    rcases List.mem_append.mp hd with hd | hd
    · exact h.oldest d hd e (List.mem_of_mem_tail he)
    · have hincreasing : w.queue.Pairwise (·.number < ·.number) := by
        refine h.increasing.sublist (List.Sublist.trans ?_ h.order)
        exact (List.sublist_append_right _ _).trans (List.sublist_append_right _ _)
      rw [hq] at hd he hincreasing
      obtain rfl : d = q := by simpa using hd
      exact (List.pairwise_cons.mp hincreasing).1 e he

theorem log_increasing (h : Books w) :
    (w.written ++ (w.inFlight ++ w.queue)).Pairwise (·.number < ·.number) :=
  h.increasing.sublist h.order

end Books

/-! ## The files -/

/-- Each file is in the order of the appends, a rotated file is older than those before it, and all
of it was written. -/
structure Filed (files : Nat → Option (List (Entry R))) (written : List (Entry R)) : Prop where
  sorted : ∀ i c, files i = some c → c.Pairwise (·.number < ·.number)
  older : ∀ i j c d, i < j → files i = some c → files j = some d → ∀ a ∈ c, ∀ b ∈ d,
    b.number < a.number
  kept : ∀ i c, files i = some c → ∀ e ∈ c, e ∈ written

namespace Filed

variable {files files' : Nat → Option (List (Entry R))} {written entries : List (Entry R)}

theorem empty : Filed (fun _ => none) ([] : List (Entry R)) where
  sorted _ _ h := nomatch h
  older _ _ _ _ _ h := nomatch h
  kept _ _ h := nomatch h

/-- Files are carried to other places in the same order, or lost. -/
theorem relabel (h : Filed files written) (place : Nat → Nat)
    (hplace : ∀ i c, files' i = some c → files (place i) = some c)
    (hmono : ∀ i j, i < j → files' i ≠ none → files' j ≠ none → place i < place j) :
    Filed files' written where
  sorted i c hi := h.sorted _ c (hplace i c hi)
  older i j c d hij hi hj :=
    h.older _ _ c d (hmono i j hij (by simp [hi]) (by simp [hj])) (hplace i c hi) (hplace j d hj)
  kept i c hi := h.kept _ c (hplace i c hi)

theorem unlink (h : Filed files written) (i : Nat) :
    Filed (Function.update files i none) written := by
  have hfiles : ∀ j, Function.update files i none j ≠ none → j ≠ i := by
    rintro j hj rfl
    exact hj (Function.update_self ..)
  refine h.relabel id (fun j c hj => ?_) fun j k hjk _ _ => hjk
  rwa [Function.update_of_ne (hfiles j (by simp [hj]))] at hj

theorem rename (h : Filed files written) (i : Nat) :
    Filed (Function.update (Function.update files (i + 1) (files i)) i none) written := by
  have hne : ∀ j, Function.update (Function.update files (i + 1) (files i)) i none j ≠ none →
      j ≠ i := by
    rintro j hj rfl
    exact hj (Function.update_self ..)
  refine h.relabel (fun j => if j = i + 1 then i else j) (fun j c hj => ?_) fun j k hjk hj hk => ?_
  · rw [Function.update_of_ne (hne j (by simp [hj]))] at hj
    by_cases hnext : j = i + 1
    · subst hnext
      rw [Function.update_self] at hj
      simpa using hj
    · rw [Function.update_of_ne hnext] at hj
      simpa [hnext] using hj
  · have hj := hne j hj
    have hk := hne k hk
    split <;> split <;> omega

theorem written_mono (h : Filed files written) : Filed files (written ++ entries) where
  sorted := h.sorted
  older := h.older
  kept i c hi e he := List.mem_append_left _ (h.kept i c hi e he)

/-- `appendFile` on the active file. -/
theorem append (h : Filed files written)
    (hsorted : (written ++ entries).Pairwise (·.number < ·.number)) :
    Filed (Function.update files 0 (some ((files 0).getD [] ++ entries))) (written ++ entries) := by
  obtain ⟨-, hentries, hnew⟩ := List.pairwise_append.mp hsorted
  have hold : ∀ e ∈ (files 0).getD [], ∃ c, files 0 = some c ∧ e ∈ c := by
    intro e he
    cases h0 : files 0 with
    | none => simp [h0] at he
    | some c => exact ⟨c, rfl, by simpa [h0] using he⟩
  refine ⟨?_, ?_, ?_⟩
  · intro i c hi
    by_cases hzero : i = 0
    · subst hzero
      rw [Function.update_self] at hi
      obtain rfl := Option.some.inj hi
      refine List.pairwise_append.mpr ⟨?_, hentries, fun a ha b hb => ?_⟩
      · cases h0 : files 0 with
        | none => exact List.Pairwise.nil
        | some c => exact h.sorted 0 c h0
      · obtain ⟨c, hc, ha⟩ := hold a ha
        exact hnew a (h.kept 0 c hc a ha) b hb
    · rw [Function.update_of_ne hzero] at hi
      exact h.sorted i c hi
  · intro i j c d hij hi hj a ha b hb
    rw [Function.update_of_ne (by omega : j ≠ 0)] at hj
    by_cases hzero : i = 0
    · subst hzero
      rw [Function.update_self] at hi
      obtain rfl := Option.some.inj hi
      rcases List.mem_append.mp ha with ha | ha
      · obtain ⟨c, hc, ha⟩ := hold a ha
        exact h.older 0 j c d hij hc hj a ha b hb
      · exact hnew b (h.kept j d hj b hb) a ha
    · rw [Function.update_of_ne hzero] at hi
      exact h.older i j c d hij hi hj a ha b hb
  · intro i c hi e he
    by_cases hzero : i = 0
    · subst hzero
      rw [Function.update_self] at hi
      obtain rfl := Option.some.inj hi
      rcases List.mem_append.mp he with he | he
      · obtain ⟨c, hc, he⟩ := hold e he
        exact List.mem_append_left _ (h.kept 0 c hc e he)
      · exact List.mem_append_right _ he
    · rw [Function.update_of_ne hzero] at hi
      exact List.mem_append_left _ (h.kept i c hi e he)

end Filed

/-! ## One step of a batch -/

/-- How many file operations a batch at this stage may still wait for, counted generously. -/
def Stage.rank (maxFiles : Nat) : Stage → Nat
  | .storage => 1
  | .stat => 3 * maxFiles + 7
  | .shift i => 2 * maxFiles + 6 + i
  | .shiftActive => 2 * maxFiles + 5
  | .age i => 2 * (maxFiles + 1 - i) + 4
  | .prune i => 2 * (maxFiles + 1 - i) + 3
  | .append => 2
  | .chmod => 1

/-- What one file operation of the only batch can do. -/
inductive Advances (o : Options R) (w : Writer R) (b : Batch R) : Writer R → Prop where
  | goes {stage : Stage} {files : Nat → Option (List (Entry R))} (mid : b.stage ≠ .chmod)
      (next : stage ≠ .chmod) (rank : stage.rank o.maxFiles < b.stage.rank o.maxFiles)
      (filed : Filed w.files w.written → Filed files w.written) :
      Advances o w b { w with batches := [{ b with stage }], files }
  | lands (mid : b.stage = .append) :
      Advances o w b { w.appendFile b.entries with batches := [{ b with stage := .chmod }] }
  | stores (mid : b.stage = .storage) : Advances o w b ((w.land b.entries).finish b.number)
  | ends (mid : b.stage = .chmod) : Advances o w b (w.finish b.number)
  | fails (mid : b.stage ≠ .chmod) : Advances o w b ((w.report b.entries).finish b.number)

theorem goto_eq {w : Writer R} {b : Batch R} (h : w.batches = [b]) (stage : Stage) :
    w.goto b stage = { w with batches := [{ b with stage }] } := by
  simp [Writer.goto, h]

theorem shiftFrom_ne_chmod (i : Nat) : Writer.shiftFrom i ≠ .chmod := by
  unfold Writer.shiftFrom
  split <;> simp

theorem pruneFrom_ne_chmod (o : Options R) (i : Nat) : Writer.pruneFrom o i ≠ .chmod := by
  unfold Writer.pruneFrom
  split <;> simp

theorem rank_shiftFrom_le (m i : Nat) : (Writer.shiftFrom i).rank m ≤ 2 * m + 6 + i := by
  unfold Writer.shiftFrom
  split <;> simp only [Stage.rank] <;> omega

theorem rank_pruneFrom_le (o : Options R) (i : Nat) :
    (Writer.pruneFrom o i).rank o.maxFiles ≤ 2 * (o.maxFiles + 1 - i) + 4 := by
  unfold Writer.pruneFrom
  split <;> simp only [Stage.rank] <;> omega

theorem rank_pruneFrom_succ_lt (o : Options R) (i : Nat) :
    (Writer.pruneFrom o (i + 1)).rank o.maxFiles < 2 * (o.maxFiles + 1 - i) + 3 := by
  unfold Writer.pruneFrom
  split <;> simp only [Stage.rank] <;> omega

theorem rank_shiftFrom_pred_lt (m i : Nat) :
    (Writer.shiftFrom (i - 1)).rank m < 2 * m + 6 + i := by
  unfold Writer.shiftFrom
  split <;> simp only [Stage.rank] <;> omega

theorem filed_rename {w : Writer R} (h : Filed w.files w.written) (i : Nat) (ok : Bool) :
    Filed (w.rename i (i + 1) ok).files w.written := by
  unfold Writer.rename
  split
  · exact h.rename i
  · exact h

/-- **What one file operation does.** -/
theorem advances (o : Options R) {w : Writer R} {b : Batch R} (hbatches : w.batches = [b])
    (a : Answer) : Advances o w b (w.advance o b a) := by
  have hgo : ∀ stage, b.stage ≠ .chmod → stage ≠ .chmod →
      stage.rank o.maxFiles < b.stage.rank o.maxFiles → Advances o w b (w.goto b stage) := by
    intro stage hmid hnext hrank
    rw [goto_eq hbatches]
    exact .goes hmid hnext hrank id
  have hfiles : ∀ (w' : Writer R) stage, b.stage ≠ .chmod → stage ≠ .chmod →
      stage.rank o.maxFiles < b.stage.rank o.maxFiles → w' = { w with files := w'.files } →
      (Filed w.files w.written → Filed w'.files w.written) → Advances o w b (w'.goto b stage) := by
    intro w' stage hmid hnext hrank hw' hfiled
    have hbatches' : w'.batches = [b] := by rw [hw', hbatches]
    rw [goto_eq hbatches', hw']
    exact .goes hmid hnext hrank hfiled
  unfold Writer.advance
  split
  next hstage =>
    split
    · exact .stores hstage
    · exact .fails (by simp [hstage])
  next hstage =>
    have hb : b.stage.rank o.maxFiles = 3 * o.maxFiles + 7 := by rw [hstage]; rfl
    by_cases hrotate : o.maxBytes ≤ ((if a.ok then a.size else 0 : Nat) : Int)
    · rw [if_pos hrotate]
      have hrank := rank_shiftFrom_le o.maxFiles (o.maxFiles - 1)
      exact hgo _ (by simp [hstage]) (shiftFrom_ne_chmod _) (by omega)
    · rw [if_neg hrotate]
      have hrank := rank_pruneFrom_le o 1
      exact hgo _ (by simp [hstage]) (pruneFrom_ne_chmod o _) (by omega)
  next i hstage =>
    have hb : b.stage.rank o.maxFiles = 2 * o.maxFiles + 6 + i := by rw [hstage]; rfl
    have hrank := rank_shiftFrom_pred_lt o.maxFiles i
    refine hfiles _ _ (by simp [hstage]) (shiftFrom_ne_chmod _) (by omega) ?_ ?_
    · unfold Writer.rename
      split <;> rfl
    · exact fun h => filed_rename h i a.ok
  next hstage =>
    have hb : b.stage.rank o.maxFiles = 2 * o.maxFiles + 5 := by rw [hstage]; rfl
    have hrank := rank_pruneFrom_le o 1
    refine hfiles _ _ (by simp [hstage]) (pruneFrom_ne_chmod o _) (by omega) ?_ ?_
    · unfold Writer.rename
      split <;> rfl
    · exact fun h => filed_rename h 0 a.ok
  next i hstage =>
    have hb : b.stage.rank o.maxFiles = 2 * (o.maxFiles + 1 - i) + 4 := by rw [hstage]; rfl
    by_cases hold : (a.ok && a.old) = true
    · rw [if_pos hold]
      have hrank : (Stage.prune i).rank o.maxFiles = 2 * (o.maxFiles + 1 - i) + 3 := rfl
      exact hgo _ (by simp [hstage]) (by simp) (by omega)
    · rw [if_neg hold]
      have hrank := rank_pruneFrom_succ_lt o i
      exact hgo _ (by simp [hstage]) (pruneFrom_ne_chmod o _) (by omega)
  next i hstage =>
    have hb : b.stage.rank o.maxFiles = 2 * (o.maxFiles + 1 - i) + 3 := by rw [hstage]; rfl
    have hrank := rank_pruneFrom_succ_lt o i
    refine hfiles _ _ (by simp [hstage]) (pruneFrom_ne_chmod o _) (by omega) ?_ ?_
    · unfold Writer.unlink
      split <;> rfl
    · intro h
      unfold Writer.unlink
      split
      · exact h.unlink i
      · exact h
  next hstage =>
    split
    · have hbatches' : (w.appendFile b.entries).batches = [b] := hbatches
      rw [goto_eq hbatches']
      exact .lands hstage
    · exact .fails (by simp [hstage])
  next hstage => exact .ends hstage

theorem inFlight_eq {w : Writer R} {b : Batch R} (hbatches : w.batches = [b]) :
    w.inFlight = b.pending := by
  simp [Writer.inFlight, hbatches]

theorem pending_of_mid {b : Batch R} (hmid : b.stage ≠ .chmod) : b.pending = b.entries :=
  if_neg hmid

/-- The batch that is being written has failed. -/
theorem Books.fails {w : Writer R} (h : Books w) {b : Batch R} (hbatches : w.batches = [b])
    (hmid : b.stage ≠ .chmod) : Books ((w.report b.entries).finish b.number) := by
  have hflight : w.inFlight = b.entries := (inFlight_eq hbatches).trans (pending_of_mid hmid)
  rw [finish_eq (w := w.report b.entries) hbatches]
  refine ⟨rfl, h.numbers, ?_, ?_, h.counted, h.oldest⟩
  · have hsub : (w.written ++ ([] ++ w.queue)).Sublist (w.written ++ (w.inFlight ++ w.queue)) :=
      (List.sublist_append_right _ _).append_left _
    exact hsub.trans h.order
  · change w.appended.Perm (w.written ++ ([] ++ w.queue) ++
      (w.dropped ++ (w.reported ++ [b.entries]).flatten))
    refine h.account.trans ?_
    rw [hflight]
    simp only [List.nil_append, List.flatten_append, List.flatten_cons, List.flatten_nil,
      List.append_nil, List.append_assoc]
    refine List.Perm.append_left _ (List.perm_append_comm.trans ?_)
    simp only [List.append_assoc]
    exact .refl _

theorem Books.advances {o : Options R} {w w' : Writer R} {b : Batch R} (h : Books w)
    (hbatches : w.batches = [b]) (hadvances : Advances o w b w') : Books w' := by
  have hflight := inFlight_eq hbatches
  have hone : [b].map Batch.number = w.writing.toList := hbatches ▸ h.one
  cases hadvances with
  | goes mid next rank filed =>
    refine h.moved hone rfl ?_ fun _ he => he
    rw [hflight, pending_of_mid mid]
    change w.written ++ ([_].flatMap Batch.pending ++ w.queue) = _
    rw [List.flatMap_singleton, pending_of_mid next]
  | lands mid =>
    refine h.moved hone rfl ?_ fun _ he => he
    rw [hflight, pending_of_mid (by simp [mid])]
    exact List.append_assoc w.written b.entries w.queue
  | stores mid =>
    rw [finish_eq (w := w.land b.entries) hbatches]
    refine h.moved rfl rfl ?_ fun _ he => he
    rw [hflight, pending_of_mid (by simp [mid])]
    exact List.append_assoc w.written b.entries w.queue
  | ends mid =>
    rw [finish_eq hbatches]
    refine h.moved rfl rfl ?_ fun _ he => he
    rw [hflight, Batch.pending, if_pos mid]
    rfl
  | fails mid => exact h.fails hbatches mid

theorem Filed.advances {o : Options R} {w w' : Writer R} {b : Batch R} (hbooks : Books w)
    (h : Filed w.files w.written) (hbatches : w.batches = [b]) (hadvances : Advances o w b w') :
    Filed w'.files w'.written := by
  cases hadvances with
  | goes mid next rank filed => exact filed h
  | lands mid =>
    have hlog := hbooks.log_increasing
    rw [inFlight_eq hbatches, pending_of_mid (by simp [mid]), ← List.append_assoc] at hlog
    exact h.append (List.pairwise_append.mp hlog).1
  | stores mid =>
    rw [finish_eq (w := w.land b.entries) hbatches]
    exact h.written_mono
  | ends mid =>
    rw [finish_eq hbatches]
    exact h
  | fails mid =>
    rw [finish_eq (w := w.report b.entries) hbatches]
    exact h

end Telepty.Audit
