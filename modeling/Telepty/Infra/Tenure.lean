import Mathlib.Data.List.Basic
import Mathlib.Logic.Function.Basic
import Mathlib.Tactic.Common

/-!
# Seats and their holders

A place has a seat that at most one holder has at a time. A holder is granted a seat under a stamp,
acts from the seat, and is barred when it loses the seat or is found not to be entitled to one.

`Tenure key seat log` relates the seats to the log of what has happened so far: who sits was granted
its seat and was not barred, nobody sits twice, a key stamps the grants of one holder only, and who was
barred does not act any more. It is kept when seats are vacated or carried to other places, when a
holder acts, is barred or is granted a seat.
-/

namespace Telepty.Infra

variable {P H S K : Type}

/-- What happens to the seats. -/
inductive SeatFact (H S : Type) where
  | granted (holder : H) (stamp : S)
  | barred (holder : H)
  | acted (holder : H) (stamp : S)

/-- Whom a fact is about. -/
def SeatFact.holder : SeatFact H S → H
  | .granted h _ => h
  | .barred h => h
  | .acted h _ => h

/-- The seats agree with the log. -/
structure Tenure (key : S → K) (seat : P → Option (H × S)) (log : List (SeatFact H S)) : Prop where
  granted : ∀ p h s, seat p = some (h, s) → .granted h s ∈ log
  alone : ∀ p q h s t, seat p = some (h, s) → seat q = some (h, t) → p = q
  admitted : ∀ p h s, seat p = some (h, s) → .barred h ∉ log
  acts : ∀ h s, .acted h s ∈ log → .granted h s ∈ log
  keys : ∀ h k s t, .granted h s ∈ log → .granted k t ∈ log → key s = key t → h = k
  silent : ∀ pre post h s, log = pre ++ .barred h :: post → .acted h s ∉ post

namespace Tenure

variable {key : S → K} {seat seat' : P → Option (H × S)} {log : List (SeatFact H S)} {h : H} {s : S}

theorem empty (hseat : ∀ p, seat p = none) : Tenure key seat ([] : List (SeatFact H S)) where
  granted p h s hp := by rw [hseat] at hp; cases hp
  alone p q h s t hp _ := by rw [hseat] at hp; cases hp
  admitted p h s hp := by rw [hseat] at hp; cases hp
  acts _ _ ha := by cases ha
  keys _ _ _ _ hg := by cases hg
  silent pre post h s hl := by simp at hl

/-- Seats are vacated, or carried to other places. -/
theorem relabel (ht : Tenure key seat log) {σ : P → P}
    (hseat : ∀ p, seat' p = none ∨ seat' p = seat (σ p))
    (hσ : ∀ p q, seat' p ≠ none → seat' q ≠ none → σ p = σ q → p = q) : Tenure key seat' log := by
  have hold : ∀ p h s, seat' p = some (h, s) → seat (σ p) = some (h, s) := by
    intro p h s hp
    rcases hseat p with hn | he
    · rw [hn] at hp
      cases hp
    · rw [← he, hp]
  refine ⟨fun p h s hp => ht.granted _ h s (hold p h s hp), fun p q h s t hp hq => ?_,
    fun p h s hp => ht.admitted _ h s (hold p h s hp), ht.acts, ht.keys, ht.silent⟩
  refine hσ p q ?_ ?_ (ht.alone _ _ h s t (hold p h s hp) (hold q h t hq))
  · rw [hp]
    exact Option.some_ne_none _
  · rw [hq]
    exact Option.some_ne_none _

/-- Seats are vacated. -/
theorem thin (ht : Tenure key seat log) (hseat : ∀ p, seat' p = none ∨ seat' p = seat p) :
    Tenure key seat' log :=
  ht.relabel (σ := id) hseat fun _ _ _ _ he => he

/-- Where the last fact of a log can stand. -/
theorem concat_cases {α : Type} {l pre post : List α} {x y : α} (he : l ++ [x] = pre ++ y :: post) :
    (post = [] ∧ x = y ∧ l = pre) ∨ ∃ post', post = post' ++ [x] ∧ l = pre ++ y :: post' := by
  rcases List.eq_nil_or_concat post with rfl | ⟨post', z, rfl⟩
  · obtain ⟨hl, hx⟩ := List.append_inj' he rfl
    exact .inl ⟨rfl, by simpa using hx, hl⟩
  · rw [List.concat_eq_append, ← List.cons_append, ← List.append_assoc] at he
    obtain ⟨hl, hx⟩ := List.append_inj' he rfl
    have hxz : x = z := by simpa using hx
    exact .inr ⟨post', by rw [hxz, List.concat_eq_append], hl⟩

/-- The holder of a seat acts. -/
theorem act (ht : Tenure key seat log) {p : P} (hp : seat p = some (h, s)) :
    Tenure key seat (log ++ [.acted h s]) := by
  have hmem : ∀ f, f ∈ log ++ [.acted h s] ↔ f ∈ log ∨ f = .acted h s := fun f => by simp
  refine ⟨fun q k t hq => (hmem _).mpr (.inl (ht.granted q k t hq)), ht.alone, ?_, ?_, ?_, ?_⟩
  · intro q k t hq hb
    rcases (hmem _).mp hb with hb | hb
    · exact ht.admitted q k t hq hb
    · cases hb
  · intro k t ha
    refine (hmem _).mpr (.inl ?_)
    rcases (hmem _).mp ha with ha | ha
    · exact ht.acts k t ha
    · cases ha
      exact ht.granted p h s hp
  · intro k l t u hk hl
    refine ht.keys k l t u ?_ ?_
    · exact ((hmem _).mp hk).resolve_right nofun
    · exact ((hmem _).mp hl).resolve_right nofun
  · intro pre post k t hlog ha
    rcases concat_cases hlog with ⟨rfl, -, -⟩ | ⟨post', rfl, hl⟩
    · cases ha
    · rcases List.mem_append.mp ha with ha | ha
      · exact ht.silent pre post' k t hl ha
      · cases List.mem_singleton.mp ha
        refine ht.admitted p h s hp ?_
        rw [hl]
        exact List.mem_append_right _ (List.mem_cons_self ..)

/-- Who has no seat is barred. -/
theorem bar (ht : Tenure key seat log) (hout : ∀ p s, seat p ≠ some (h, s)) :
    Tenure key seat (log ++ [.barred h]) := by
  have hmem : ∀ f, f ∈ log ++ [.barred h] ↔ f ∈ log ∨ f = .barred h := fun f => by simp
  refine ⟨fun q k t hq => (hmem _).mpr (.inl (ht.granted q k t hq)), ht.alone, ?_, ?_, ?_, ?_⟩
  · intro q k t hq hb
    rcases (hmem _).mp hb with hb | hb
    · exact ht.admitted q k t hq hb
    · cases hb
      exact hout q t hq
  · intro k t ha
    exact (hmem _).mpr (.inl (ht.acts k t (((hmem _).mp ha).resolve_right nofun)))
  · intro k l t u hk hl
    refine ht.keys k l t u ?_ ?_
    · exact ((hmem _).mp hk).resolve_right nofun
    · exact ((hmem _).mp hl).resolve_right nofun
  · intro pre post k t hlog ha
    rcases concat_cases hlog with ⟨rfl, -, -⟩ | ⟨post', rfl, hl⟩
    · cases ha
    · rcases List.mem_append.mp ha with ha | ha
      · exact ht.silent pre post' k t hl ha
      · cases List.mem_singleton.mp ha

/-- A grant under a key that is new. -/
theorem grant (ht : Tenure key seat log) (hkey : ∀ k t, .granted k t ∈ log → key t ≠ key s) :
    Tenure key seat (log ++ [.granted h s]) := by
  have hmem : ∀ f, f ∈ log ++ [.granted h s] ↔ f ∈ log ∨ f = .granted h s := fun f => by simp
  refine ⟨fun q k t hq => (hmem _).mpr (.inl (ht.granted q k t hq)), ht.alone, ?_, ?_, ?_, ?_⟩
  · intro q k t hq hb
    exact ht.admitted q k t hq (((hmem _).mp hb).resolve_right nofun)
  · intro k t ha
    exact (hmem _).mpr (.inl (ht.acts k t (((hmem _).mp ha).resolve_right nofun)))
  · intro k l t u hk hl he
    rcases (hmem _).mp hk with hk | hk <;> rcases (hmem _).mp hl with hl | hl
    · exact ht.keys k l t u hk hl he
    · cases hl
      exact absurd he (hkey k t hk)
    · cases hk
      exact absurd he.symm (hkey l u hl)
    · cases hk
      cases hl
      rfl
  · intro pre post k t hlog ha
    rcases concat_cases hlog with ⟨rfl, -, -⟩ | ⟨post', rfl, hl⟩
    · cases ha
    · rcases List.mem_append.mp ha with ha | ha
      · exact ht.silent pre post' k t hl ha
      · cases List.mem_singleton.mp ha

/-- A holder that was granted a seat, and has none, sits down. -/
theorem sit [DecidableEq P] (ht : Tenure key seat log) (p : P) (hg : .granted h s ∈ log)
    (hb : .barred h ∉ log) (hout : ∀ q t, q ≠ p → seat q ≠ some (h, t)) :
    Tenure key (Function.update seat p (some (h, s))) log := by
  have hcases : ∀ q k t, Function.update seat p (some (h, s)) q = some (k, t) →
      (q = p ∧ k = h ∧ t = s) ∨ (q ≠ p ∧ seat q = some (k, t)) := by
    intro q k t hq
    by_cases hqp : q = p
    · rw [hqp, Function.update_self] at hq
      cases hq
      exact .inl ⟨hqp, rfl, rfl⟩
    · rw [Function.update_of_ne hqp] at hq
      exact .inr ⟨hqp, hq⟩
  refine ⟨?_, ?_, ?_, ht.acts, ht.keys, ht.silent⟩
  · intro q k t hq
    rcases hcases q k t hq with ⟨-, rfl, rfl⟩ | ⟨-, hq⟩
    · exact hg
    · exact ht.granted q k t hq
  · intro q q' k t u hq hq'
    rcases hcases q k t hq with ⟨hqp, hk, -⟩ | ⟨hqp, hold⟩ <;>
      rcases hcases q' k u hq' with ⟨hqp', hk', -⟩ | ⟨hqp', hold'⟩
    · rw [hqp, hqp']
    · rw [hk] at hold'
      exact absurd hold' (hout q' u hqp')
    · rw [hk'] at hold
      exact absurd hold (hout q t hqp)
    · exact ht.alone q q' k t u hold hold'
  · intro q k t hq
    rcases hcases q k t hq with ⟨-, rfl, -⟩ | ⟨-, hq⟩
    · exact hb
    · exact ht.admitted q k t hq

/-- No two holders act under one key. -/
theorem one_holder (ht : Tenure key seat log) {k : H} {t : S} (ha : .acted h s ∈ log)
    (hb : .acted k t ∈ log) (he : key s = key t) : h = k :=
  ht.keys h k s t (ht.acts h s ha) (ht.acts k t hb) he

end Tenure

end Telepty.Infra
