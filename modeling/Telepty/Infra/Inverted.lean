import Mathlib.Logic.Function.Basic
import Mathlib.Tactic.Common

/-!
# Inverted indexes

A directory gives to a key the token that it holds, with some data; an inverted index gives back to a
token its key, with the same data. `Inverts f g` says that `g` is the inverted index of `f`: then no
two keys hold one token, and a key has one entry.

The operations keep it: a key that loses its token, a key that gets a token which nobody holds, a
key that goes by another name.
-/

namespace Telepty.Infra

variable {κ ε δ : Type}

/-- `g` is the inverted index of the directory `f`. -/
def Inverts (f : κ → Option (ε × δ)) (g : ε → Option (κ × δ)) : Prop :=
  ∀ e k d, g e = some (k, d) ↔ f k = some (e, d)

/-- Some key holds the token. -/
def Held (f : κ → Option (ε × δ)) (e : ε) : Prop := ∃ k d, f k = some (e, d)

namespace Inverts

variable {f f' : κ → Option (ε × δ)} {g g' : ε → Option (κ × δ)} {e e' : ε} {k k' : κ} {d d' : δ}

theorem empty : Inverts (fun _ : κ => (none : Option (ε × δ))) (fun _ => none) :=
  fun _ _ _ => ⟨nofun, nofun⟩

/-- No two keys hold one token. -/
theorem key_unique (h : Inverts f g) (hk : f k = some (e, d)) (hk' : f k' = some (e, d')) :
    k = k' ∧ d = d' := by
  have hg := (h e k d).mpr hk
  have hg' := (h e k' d').mpr hk'
  rw [hg] at hg'
  cases hg'
  exact ⟨rfl, rfl⟩

/-- A key has one entry. -/
theorem entry_unique (h : Inverts f g) (he : g e = some (k, d)) (he' : g e' = some (k, d')) :
    e = e' ∧ d = d' := by
  have hf := (h e k d).mp he
  have hf' := (h e' k d').mp he'
  rw [hf] at hf'
  cases hf'
  exact ⟨rfl, rfl⟩

/-- A token that nobody holds has no entry. -/
theorem eq_none_iff (h : Inverts f g) : g e = none ↔ ¬Held f e := by
  constructor
  · rintro hnone ⟨k, d, hk⟩
    rw [(h e k d).mpr hk] at hnone
    cases hnone
  · intro hheld
    cases hg : g e with
    | none => rfl
    | some v => exact absurd ⟨v.1, v.2, (h e v.1 v.2).mp hg⟩ hheld

theorem congr (h : Inverts f g) (hf : ∀ k, f' k = f k) (hg : ∀ e, g' e = g e) : Inverts f' g' := by
  intro e k d
  rw [hf, hg]
  exact h e k d

variable [DecidableEq κ]

/-- A key loses its token. -/
theorem drop (h : Inverts f g) (hf : f' = Function.update f k none)
    (hg : ∀ e k' d, g' e = some (k', d) ↔ g e = some (k', d) ∧ k' ≠ k) : Inverts f' g' := by
  subst hf
  intro e k' d
  rw [hg, h e k' d]
  by_cases hk : k' = k
  · subst hk
    rw [Function.update_self]
    exact ⟨fun hne => absurd rfl hne.2, nofun⟩
  · rw [Function.update_of_ne hk]
    exact ⟨And.left, fun he => ⟨he, hk⟩⟩

/-- A key without a token gets one that nobody holds. -/
theorem insert [DecidableEq ε] (h : Inverts f g) (hkey : f k = none) (hfree : ¬Held f e) :
    Inverts (Function.update f k (some (e, d))) (Function.update g e (some (k, d))) := by
  intro e' k' d'
  by_cases he : e' = e
  · subst he
    rw [Function.update_self]
    by_cases hk : k' = k
    · subst hk
      rw [Function.update_self]
      exact ⟨fun h => by cases h; rfl, fun h => by cases h; rfl⟩
    · rw [Function.update_of_ne hk]
      exact ⟨fun h => absurd (congrArg Prod.fst (Option.some.inj h)).symm hk,
        fun h => absurd ⟨k', d', h⟩ hfree⟩
  · rw [Function.update_of_ne he, h e' k' d']
    by_cases hk : k' = k
    · subst hk
      rw [Function.update_self, hkey]
      exact ⟨nofun, fun h => absurd (congrArg Prod.fst (Option.some.inj h)).symm he⟩
    · rw [Function.update_of_ne hk]

/-- A key goes by another name. -/
theorem rename {new : κ} (h : Inverts f g) (hnew : f new = none) (hne : new ≠ k)
    (hf : ∀ k', f' k' = if k' = new then f k else if k' = k then none else f k')
    (hg : ∀ e, g' e = (g e).map fun v => (if v.1 = k then new else v.1, v.2)) : Inverts f' g' := by
  intro e k' d
  rw [hg, hf, Option.map_eq_some_iff]
  by_cases hk : k' = new
  · rw [if_pos hk, ← h e k d]
    constructor
    · rintro ⟨⟨k₀, d₀⟩, hg₀, heq⟩
      dsimp only at heq
      by_cases hk₀ : k₀ = k
      · rw [if_pos hk₀] at heq
        rw [hg₀, hk₀, (Prod.mk.inj heq).2]
      · rw [if_neg hk₀] at heq
        have hheld : f k₀ = some (e, d₀) := (h e k₀ d₀).mp hg₀
        rw [(Prod.mk.inj heq).1, hk, hnew] at hheld
        cases hheld
    · intro hg₀
      exact ⟨(k, d), hg₀, by rw [if_pos rfl, hk]⟩
  · rw [if_neg hk]
    by_cases hold : k' = k
    · subst hold
      rw [if_pos rfl]
      refine ⟨?_, nofun⟩
      rintro ⟨⟨k₀, d₀⟩, -, heq⟩
      by_cases hk₀ : k₀ = k'
      · rw [if_pos hk₀] at heq
        exact absurd (congrArg Prod.fst heq) hne
      · rw [if_neg hk₀] at heq
        exact absurd (congrArg Prod.fst heq) hk₀
    · rw [if_neg hold, ← h e k' d]
      constructor
      · rintro ⟨⟨k₀, d₀⟩, hg₀, heq⟩
        by_cases hk₀ : k₀ = k
        · rw [if_pos hk₀] at heq
          exact absurd (congrArg Prod.fst heq).symm hk
        · rw [if_neg hk₀] at heq
          cases heq
          exact hg₀
      · intro hg₀
        exact ⟨(k', d), hg₀, by rw [if_neg hold]⟩

end Inverts

end Telepty.Infra
