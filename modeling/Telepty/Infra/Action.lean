import Mathlib.Init

/-!
# Programs that change a state and may throw

`Action ε σ α` is a program on a state `σ` that ends with a value or with a thrown error. What it
did before it threw stays done, as in a language with `try` and `catch`.

`x.Ends s Q E` says how the program `x` started on `s` ends: with a value and a state for which `Q`
holds, or with an error and a state for which `E` holds. A property that a program never breaks is an
invariant of it (`Keeps`), and a program made of such programs keeps it too.
-/

namespace Telepty.Infra

abbrev Action (ε σ α : Type) := EStateM ε σ α

namespace Action

variable {ε σ α β : Type}

/-- `try { x } catch {}`, `none` where it threw. -/
def attempt (x : Action ε σ α) : Action ε σ (Option α) := fun s =>
  match x s with
  | .ok a s => .ok (some a) s
  | .error _ s => .ok none s

/-- How a run of a program ends. -/
def Ends (x : Action ε σ α) (s : σ) (Q : α → σ → Prop) (E : ε → σ → Prop) : Prop :=
  match x s with
  | .ok a s => Q a s
  | .error e s => E e s

variable {x : Action ε σ α} {f : α → Action ε σ β} {s : σ} {Q Q' : α → σ → Prop}
  {E E' : ε → σ → Prop}

theorem Ends.mono (h : x.Ends s Q E) (hq : ∀ a s, Q a s → Q' a s) (he : ∀ e s, E e s → E' e s) :
    x.Ends s Q' E' := by
  unfold Ends at *
  split at h
  · exact hq _ _ h
  · exact he _ _ h

theorem ends_bind {Q : β → σ → Prop} :
    (x >>= f).Ends s Q E ↔ x.Ends s (fun a s => (f a).Ends s Q E) E := by
  change Ends (EStateM.bind x f) s Q E ↔ _
  unfold Ends EStateM.bind
  cases x s <;> rfl

/-- The rule for a program and what comes after it. -/
theorem Ends.bind {Q : β → σ → Prop} (h : x.Ends s Q' E)
    (hf : ∀ a s, Q' a s → (f a).Ends s Q E) : (x >>= f).Ends s Q E :=
  ends_bind.mpr (h.mono hf fun _ _ h => h)

@[simp] theorem ends_get {Q : σ → σ → Prop} :
    (get : Action ε σ σ).Ends s Q E ↔ Q s s := .rfl

@[simp] theorem ends_modify {Q : Unit → σ → Prop} (g : σ → σ) :
    (modify g : Action ε σ Unit).Ends s Q E ↔ Q () (g s) := .rfl

@[simp] theorem ends_attempt {Q : Option α → σ → Prop} :
    x.attempt.Ends s Q E ↔ x.Ends s (fun a s => Q (some a) s) fun _ s => Q none s := by
  unfold Ends attempt
  cases x s <;> rfl

theorem ends_ite {c : Prop} [Decidable c] {y : Action ε σ α} (ht : c → x.Ends s Q E)
    (hf : ¬ c → y.Ends s Q E) : (if c then x else y).Ends s Q E := by
  split
  · next h => exact ht h
  · next h => exact hf h

/-- The state a run of a program leaves, however it ends. -/
def after (x : Action ε σ α) (s : σ) : σ :=
  match x s with
  | .ok _ s => s
  | .error _ s => s

theorem Ends.after {I : σ → Prop} (h : x.Ends s (fun _ => I) fun _ => I) : I (x.after s) := by
  unfold Ends at h
  unfold Action.after
  split at h
  · next hx => simpa only [hx] using h
  · next hx => simpa only [hx] using h

/-- The condition for errors of a program that never throws. -/
abbrev Never : ε → σ → Prop := fun _ _ => False

theorem Ends.weaken (h : x.Ends s Q Never) : x.Ends s Q E := h.mono (fun _ _ h => h) fun _ _ h => h.elim

/-! ## Invariants -/

/-- `x` never leaves the states of `I`, unless it throws, and then it ends as `E` says. -/
def Keeps (I : σ → Prop) (E : ε → σ → Prop) (x : Action ε σ α) : Prop :=
  ∀ s, I s → x.Ends s (fun _ => I) E

section

variable {I : σ → Prop}

theorem keeps_pure (a : α) : Keeps I E (pure a : Action ε σ α) := fun _ h => h

theorem keeps_get : Keeps I E (get : Action ε σ σ) := fun _ h => h

theorem keeps_modify {g : σ → σ} (h : ∀ s, I s → I (g s)) :
    Keeps I E (modify g : Action ε σ Unit) := fun s hs => h s hs

theorem Keeps.bind (hx : Keeps I E x) (hf : ∀ a, Keeps I E (f a)) : Keeps I E (x >>= f) :=
  fun s hs => (hx s hs).bind fun a s hs => hf a s hs

theorem Keeps.attempt (hx : Keeps I (fun _ => I) x) : Keeps I E x.attempt := fun s hs =>
  ends_attempt.mpr (hx s hs)

theorem Keeps.ite {c : Prop} [Decidable c] {y : Action ε σ α} (hx : c → Keeps I E x)
    (hy : ¬ c → Keeps I E y) : Keeps I E (if c then x else y) := fun s hs =>
  ends_ite (fun h => hx h s hs) fun h => hy h s hs

theorem Keeps.weaken (hx : Keeps I Never x) : Keeps I E x := fun s hs => (hx s hs).weaken

end

end Action

end Telepty.Infra
