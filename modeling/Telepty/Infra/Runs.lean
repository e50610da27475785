import Mathlib.Data.List.Induction

/-!
# Runs of an automaton

An automaton starts in a state and takes one event after another; an event that cannot happen in a
state is not taken. A run is the list of the events taken.

What holds of the start and is kept by every step that meets a condition holds after every run whose
steps all meet it.
-/

namespace Telepty.Infra

/-! ## Prefixes -/

/-- Where an element stands in a list that one more is put to. -/
theorem concat_eq_split {α : Type} {before a b : List α} {d r : α}
    (h : before ++ [d] = a ++ r :: b) :
    (a = before ∧ r = d ∧ b = []) ∨ ∃ b', b = b' ++ [d] ∧ before = a ++ r :: b' := by
  rcases List.eq_nil_or_concat b with rfl | ⟨b', x, rfl⟩
  · obtain ⟨hb, hd⟩ := List.append_inj' h rfl
    exact .inl ⟨hb.symm, (List.cons.inj hd).1.symm, rfl⟩
  · rw [List.concat_eq_append, ← List.cons_append, ← List.append_assoc] at h
    obtain ⟨hb, hd⟩ := List.append_inj' h rfl
    obtain rfl := (List.cons.inj hd).1
    exact .inr ⟨b', List.concat_eq_append .., hb⟩

/-! ## Automata -/

structure Automaton (State Event : Type) where
  start : State
  /-- `none` where the event cannot happen -/
  step : State → Event → Option State

namespace Automaton

variable {State Event : Type} (m : Automaton State Event)

/-- The state after a run. -/
def run (events : List Event) : Option State :=
  events.foldlM m.step m.start

theorem run_concat (events : List Event) (e : Event) :
    m.run (events ++ [e]) = (m.run events).bind (m.step · e) := by
  rw [run, List.foldlM_append]
  change (m.run events).bind (fun s => (m.step s e).bind some) = _
  simp only [Option.bind_fun_some]

variable {m}

/-- A run is taken step by step. -/
theorem run_concat_eq_some {events : List Event} {e : Event} {s' : State} :
    m.run (events ++ [e]) = some s' ↔ ∃ s, m.run events = some s ∧ m.step s e = some s' := by
  rw [run_concat, Option.bind_eq_some_iff]

variable (m)

/-- Every step of the run meets the condition. -/
def Along (condition : State → Event → Prop) (events : List Event) : Prop :=
  ∀ before e after s, events = before ++ e :: after → m.run before = some s → condition s e

variable {m} {condition : State → Event → Prop} {events : List Event} {e : Event} {s : State}

theorem Along.init (h : m.Along condition (events ++ [e])) : m.Along condition events := by
  intro before e' after s hsplit hrun
  exact h before e' (after ++ [e]) s (by rw [hsplit, List.append_assoc]; rfl) hrun

theorem Along.last (h : m.Along condition (events ++ [e])) (hrun : m.run events = some s) :
    condition s e :=
  h events e [] s rfl hrun

theorem along_nil : m.Along condition [] := by
  intro before e after s hsplit
  simp at hsplit

theorem Along.concat (h : m.Along condition events)
    (he : ∀ s, m.run events = some s → condition s e) : m.Along condition (events ++ [e]) := by
  intro before e' after s hsplit hrun
  rcases concat_eq_split hsplit with ⟨rfl, rfl, -⟩ | ⟨after', -, hevents⟩
  · exact he s hrun
  · exact h before e' after' s hevents hrun

theorem along_true (events : List Event) : m.Along (fun _ _ => True) events := by
  intro _ _ _ _ _ _
  trivial

/-- **The invariant of an automaton.** -/
theorem invariant {Inv : State → Prop} (hstart : Inv m.start)
    (hstep : ∀ s e s', Inv s → condition s e → m.step s e = some s' → Inv s')
    (halong : m.Along condition events) (hrun : m.run events = some s) : Inv s := by
  induction events using List.reverseRecOn generalizing s with
  | nil =>
    obtain rfl := Option.some.inj hrun
    exact hstart
  | append_singleton events e ih =>
    obtain ⟨t, ht, hs⟩ := run_concat_eq_some.mp hrun
    exact hstep t e s (ih halong.init ht) (halong.last ht) hs

end Automaton

end Telepty.Infra
