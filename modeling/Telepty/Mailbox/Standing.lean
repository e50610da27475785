import Telepty.Mailbox.Store

/-!
# Where one message stands

The journal holds the rows of all messages; what an operation reads of one message is its last row
and whether one of its rows says that the outcome is unknown. This `Standing` is an automaton of its
own: an appended row of the message moves it, the compaction keeps it or drops it.
-/

namespace Telepty.Mailbox

open Infra

/-! ## The states of a journal -/

theorem loadStates_concat (j : List StateRow) (r : StateRow) :
    loadStates (j ++ [r]) = (loadStates j).set r.msgId r := by
  rw [loadStates, List.map_append]
  exact List.foldl_append

@[simp] theorem history_append (j j' : List StateRow) (id : Text) :
    history (j ++ j') id = history j id ++ history j' id := List.filter_append ..

theorem mem_history {j : List StateRow} {id : Text} {r : StateRow} :
    r ∈ history j id ↔ r ∈ j ∧ r.msgId = id := by
  simp [history]

/-- A message's state is its last row. -/
theorem loadStates_get? (j : List StateRow) (id : Text) :
    (loadStates j).get? id = (history j id).getLast? := by
  induction j using List.reverseRecOn with
  | nil => rfl
  | append_singleton j r ih =>
    rw [loadStates_concat, OrdMap.get?_set, ih, history_append]
    by_cases h : r.msgId = id
    · have hr : history [r] id = [r] := by simp [history, h]
      rw [if_pos h.symm, hr, List.getLast?_concat]
    · have hr : history [r] id = [] := by simp [history, h]
      rw [if_neg (Ne.symm h), hr, List.append_nil]

theorem msgId_of_loadStates {j : List StateRow} {id : Text} {r : StateRow}
    (h : (loadStates j).get? id = some r) : r.msgId = id := by
  rw [loadStates_get?] at h
  exact (mem_history.mp (List.mem_of_getLast? h)).2

theorem mem_unknownIds {j : List StateRow} {id : Text} :
    id ∈ unknownIds j ↔ (history j id).any StateRow.unknown = true := by
  rw [unknownIds, List.mem_map, List.any_eq_true]
  constructor
  · rintro ⟨r, hr, rfl⟩
    obtain ⟨hr, hu⟩ := List.mem_filter.mp hr
    exact ⟨r, mem_history.mpr ⟨hr, rfl⟩, hu⟩
  · rintro ⟨r, hr, hu⟩
    obtain ⟨hj, hid⟩ := mem_history.mp hr
    exact ⟨r, List.mem_filter.mpr ⟨hj, hu⟩, hid⟩

/-! ## Standings -/

structure Standing where
  last : Option StateRow
  unknown : Bool
  deriving DecidableEq

/-- A message without rows. -/
def Standing.empty : Standing := ⟨none, false⟩

def Standing.ofRows (rows : List StateRow) : Standing :=
  ⟨rows.getLast?, rows.any StateRow.unknown⟩

/-- Where message `id` stands in a journal. -/
def standing (id : Text) (j : List StateRow) : Standing := .ofRows (history j id)

/-- Another row of the message. -/
def Standing.push (s : Standing) (r : StateRow) : Standing := ⟨some r, s.unknown || r.unknown⟩

/-- The compaction; `pristine` where the message was never attempted. -/
def Standing.compacted (s : Standing) (pristine : Bool) : Standing :=
  if s.unknown then s
  else
    match s.last with
    | none => s
    | some r =>
      if r.state.terminal then .empty
      else ⟨some (r.safe pristine), false⟩

theorem standing_last (id : Text) (j : List StateRow) :
    (standing id j).last = (loadStates j).get? id := (loadStates_get? j id).symm

theorem standing_unknown (id : Text) (j : List StateRow) :
    (standing id j).unknown = true ↔ id ∈ unknownIds j := mem_unknownIds.symm

theorem Standing.ofRows_concat (rows : List StateRow) (r : StateRow) :
    ofRows (rows ++ [r]) = (ofRows rows).push r := by
  rw [ofRows, ofRows, push, List.getLast?_concat, List.any_append]
  simp

theorem standing_concat (id : Text) (j : List StateRow) (r : StateRow) :
    standing id (j ++ [r]) = if r.msgId = id then (standing id j).push r else standing id j := by
  rw [standing, history_append]
  split
  · next h =>
    have hr : history [r] id = [r] := by simp [history, h]
    rw [hr, Standing.ofRows_concat]
    rfl
  · next h =>
    have hr : history [r] id = [] := by simp [history, h]
    rw [hr, List.append_nil]
    rfl

/-! ## Compaction -/

/-- The entries of a map at one key. -/
theorem filter_entries {β : Type} (m : OrdMap Text β) (k : Text) :
    m.entries.filter (fun e => e.1 = k) = ((m.get? k).map fun v => (k, v)).toList := by
  obtain ⟨l, hl⟩ := m
  simp only [OrdMap.get?]
  induction l with
  | nil => rfl
  | cons e l ih =>
    obtain ⟨a, v⟩ := e
    rw [List.map_cons, List.nodup_cons] at hl
    rw [assoc]
    split
    · next h =>
      subst h
      have hrest : l.filter (fun e => e.1 = a) = [] := by
        rw [List.filter_eq_nil_iff]
        intro e he hea
        exact hl.1 (List.mem_map.mpr ⟨e, he, by simpa using hea⟩)
      rw [List.filter_cons_of_pos (by simp), hrest]
      rfl
    · next h => rw [List.filter_cons_of_neg (by simpa using fun h' => h h'), ih hl.2]

/-- The last rows of the messages, those of one message. -/
theorem history_values (j : List StateRow) (id : Text) :
    history (loadStates j).values id = ((standing id j).last).toList := by
  have hkeys : ∀ e ∈ (loadStates j).entries, (decide (e.2.msgId = id)) = decide (e.1 = id) := by
    intro e he
    rw [msgId_of_loadStates (((loadStates j).mem_entries_iff).mp he)]
  rw [history, OrdMap.values, List.filter_map,
    show ((fun r : StateRow => decide (r.msgId = id)) ∘ Prod.snd)
      = fun e : Text × StateRow => decide (e.2.msgId = id) from rfl,
    List.filter_congr hkeys, filter_entries, standing_last]
  cases (loadStates j).get? id <;> rfl

@[simp] theorem StateRow.safe_msgId (r : StateRow) (pristine : Bool) :
    (r.safe pristine).msgId = r.msgId := by
  rw [safe]
  split <;> rfl

@[simp] theorem StateRow.safe_state (r : StateRow) (pristine : Bool) :
    (r.safe pristine).state = r.state := by
  rw [safe]
  split <;> rfl

@[simp] theorem StateRow.safe_unknown (r : StateRow) (pristine : Bool) :
    (r.safe pristine).unknown = r.unknown := by
  rw [safe]
  split
  · next h => simp [unknown, h.1]
  · rfl

/-- The first part of the compacted journal, at one message. -/
theorem history_unknownRows (j : List StateRow) (id : Text) :
    history (j.filter fun r => r.msgId ∈ unknownIds j) id
      = if (standing id j).unknown then history j id else [] := by
  rw [history, List.filter_filter]
  split
  · next h =>
    refine List.filter_congr fun r _ => ?_
    by_cases hr : r.msgId = id
    · simp [hr, (standing_unknown id j).mp h]
    · simp [hr]
  · next h =>
    refine List.filter_eq_nil_iff.mpr fun r _ hr => ?_
    simp only [Bool.and_eq_true, decide_eq_true_eq] at hr
    exact h ((standing_unknown id j).mpr (hr.1 ▸ hr.2))

/-- The second part of the compacted journal, at one message. -/
theorem history_activeRows (j : List StateRow) (id : Text) (pristine : List Text) :
    history (((loadStates j).values.filter fun r =>
        r.msgId ∉ unknownIds j && !r.state.terminal).map fun r => r.safe (r.msgId ∈ pristine)) id
      = (((standing id j).last).toList.filter fun r =>
          !(standing id j).unknown && !r.state.terminal).map fun r => r.safe (id ∈ pristine) := by
  have hu : decide (id ∉ unknownIds j) = !(standing id j).unknown := by
    rw [Bool.eq_iff_iff, decide_eq_true_iff, Bool.not_eq_true', ← standing_unknown,
      Bool.not_eq_true]
  rw [history, List.filter_map, List.filter_filter, ← history_values, history, List.filter_filter]
  have hf : ∀ r ∈ (loadStates j).values,
      (((fun r : StateRow => decide (r.msgId = id)) ∘ fun r => r.safe (r.msgId ∈ pristine)) r &&
          (decide (r.msgId ∉ unknownIds j) && !r.state.terminal))
        = ((!(standing id j).unknown && !r.state.terminal) && decide (r.msgId = id)) := by
    intro r _
    rw [Function.comp_apply, StateRow.safe_msgId, Bool.and_comm]
    by_cases hr : r.msgId = id
    · rw [hr, hu]
    · simp [hr]
  rw [List.filter_congr hf]
  refine List.map_congr_left fun r hr => ?_
  have := (List.mem_filter.mp hr).2
  simp only [Bool.and_eq_true, decide_eq_true_eq] at this
  rw [this.2]

/-- **What the compaction does to one message.** -/
theorem standing_activeStates (id : Text) (j : List StateRow) (pristine : List Text) :
    standing id (activeStates j pristine) = (standing id j).compacted (id ∈ pristine) := by
  rw [standing, activeStates, history_append, history_unknownRows, history_activeRows,
    Standing.compacted]
  split
  · next h =>
    have hn : (((standing id j).last).toList.filter fun r =>
        !(standing id j).unknown && !r.state.terminal) = [] := by simp [h]
    rw [hn, List.map_nil, List.append_nil]
    rfl
  · next h =>
    rw [Bool.not_eq_true] at h
    rw [List.nil_append]
    simp only [h, Bool.not_false, Bool.true_and]
    cases hl : (standing id j).last with
    | none =>
      calc Standing.empty = ⟨(standing id j).last, (standing id j).unknown⟩ := by rw [hl, h]; rfl
        _ = standing id j := rfl
    | some r =>
      have hr : r.unknown = false := by
        rw [Bool.eq_false_iff]
        intro hu
        have hm := List.mem_of_getLast? (show (history j id).getLast? = some r from hl)
        exact absurd (List.any_eq_true.mpr ⟨r, hm, hu⟩) (Bool.eq_false_iff.mp h)
      simp only [Option.toList_some]
      by_cases ht : r.state.terminal = true
      · simp [ht, Standing.ofRows, Standing.empty]
      · simp [ht, Standing.ofRows, hr]

end Telepty.Mailbox
