import Telepty.Infra.Utf16
import Mathlib.Data.List.Infix
import Mathlib.Data.List.Nodup

/-!
# Echo evidence

A body that was injected shows up again in the output when the recipient draws it. The gate looks
for pieces of the body, windows of a fixed length, in what came after the watermark, and leaves out
those that were on the screen before.

`stripAnsi` is a parameter.

* `observed_distinct_iff` — where two windows are asked for, one text that stands at two places in
  the body passes for two
-/

namespace Telepty.Submit

open Infra

/-! ## Texts -/

/-- `s.replace(/\s+/g, ' ')`; `after` says that a space has just been written. -/
def collapseSpaces (after : Bool) : Units → Units
  | [] => []
  | u :: t =>
    if u.isSpace then
      if after then collapseSpaces true t else 0x20 :: collapseSpaces true t
    else u :: collapseSpaces false t

/-- `normalize(s)` -/
def normalize (s : Units) : Units := trimUnits (collapseSpaces false s)

/-- `body.slice(i, i + n)` -/
def slice (body : Units) (i n : Nat) : Units := (body.drop i).take n

/-! ## Windows -/

/-- `Math.max(1, Math.floor(minChars / 2))` -/
def stepOf (minChars : Nat) : Nat := max 1 (minChars / 2)

/-- The loop from position `i` on; every round goes at least one position on, so as many rounds as
the body has positions are enough. -/
def windowsFrom (body : Units) (minChars : Nat) : Nat → Nat → List Units
  | 0, _ => []
  | fuel + 1, i =>
    if i + minChars ≤ body.length then
      slice body i minChars :: windowsFrom body minChars fuel (i + stepOf minChars)
    else []

def windows (body : Units) (minChars : Nat) : List Units :=
  windowsFrom body minChars (body.length + 1) 0

/-- `body.length >= minChars * 2 ? 2 : 1` -/
def needed (body : Units) (minChars : Nat) : Nat :=
  if minChars * 2 ≤ body.length then 2 else 1

/-! ## The ring -/

structure Session where
  outputRing : Option (List Units)
  /-- where it is a finite number -/
  outputRingTotalBytes : Option Int

/-- `preRaw` and `postRaw` -/
def splitRing (session : Session) (sinceBytes : Option Int) : Units × Units :=
  let all := (session.outputRing.getD []).flatten
  match sinceBytes, session.outputRingTotalBytes with
  | some since, some total =>
    let splitAt := (max 0 (all.length - max 0 (total - since))).toNat
    (all.take splitAt, all.drop splitAt)
  | _, _ => ([], all)

/-- Nothing has come since the watermark. -/
def noFrames (session : Session) (sinceBytes : Option Int) : Bool :=
  match sinceBytes, session.outputRingTotalBytes with
  | some since, some total => max 0 (total - since) = 0
  | _, _ => false

/-! ## The observation -/

structure Echo where
  observed : Bool
  reason : Text
  windowsMatched : Option Nat

/-- The loop over the windows. -/
def countHits (needed : Nat) (fresh : Units → Bool) : Nat → List Units → Echo
  | hits, [] => ⟨false, "no_echo", some hits⟩
  | hits, w :: ws =>
    if fresh w then
      if needed ≤ hits + 1 then ⟨true, "echo", some (hits + 1)⟩
      else countHits needed fresh (hits + 1) ws
    else countHits needed fresh hits ws

section

variable (stripAnsi : Units → Units)

/-- `post.indexOf(w) !== -1 && pre.indexOf(w) === -1` -/
def fresh (session : Session) (sinceBytes : Option Int) (w : Units) : Bool :=
  let ring := splitRing session sinceBytes
  w <:+: normalize (stripAnsi ring.2) && !decide (w <:+: normalize (stripAnsi ring.1))

/-- `observeInjectEcho(session, bodyText, { minChars, stripAnsi, sinceBytes })` -/
def observeInjectEcho (minChars : Nat) (session : Option Session) (sinceBytes : Option Int)
    (bodyText : Units) : Echo :=
  let body := normalize bodyText
  if body.length < minChars then
    ⟨false, if body.length = 0 then "empty_body" else "body_too_short", none⟩
  else
    match session.filter fun s => s.outputRing.getD [] ≠ [] with
    | none => ⟨false, "no_ring", none⟩
    | some session =>
      if noFrames session sinceBytes then ⟨false, "no_frames_since_inject", none⟩
      else
        countHits (needed body minChars) (fresh stripAnsi session sinceBytes) 0
          (windows body minChars)

end

/-! ## What is observed -/

theorem observed_countHits {needed : Nat} {fresh : Units → Bool} :
    ∀ {hits : Nat} {ws : List Units}, hits < needed →
      ((countHits needed fresh hits ws).observed = true ↔ needed ≤ hits + ws.countP fresh)
  | hits, [], h => by
    rw [countHits, List.countP_nil]
    exact iff_of_false Bool.false_ne_true (by omega)
  | hits, w :: ws, h => by
    rw [countHits]
    split
    next hw =>
      rw [List.countP_cons_of_pos hw]
      split
      · exact iff_of_true rfl (by omega)
      · rw [observed_countHits (by omega)]
        omega
    next hw =>
      rw [List.countP_cons_of_neg hw, observed_countHits h]

theorem needed_pos (body : Units) (minChars : Nat) : 0 < needed body minChars := by
  unfold needed
  split <;> omega

theorem windows_of_lt {body : Units} {minChars : Nat} (h : body.length < minChars) :
    windows body minChars = [] := by
  rw [windows, windowsFrom, if_neg (by omega)]

/-- The session, or one without a ring. -/
def ringOf (session : Option Session) : Session := session.getD ⟨none, none⟩

section

variable {stripAnsi : Units → Units} {minChars : Nat} {session : Option Session}
  {sinceBytes : Option Int} {bodyText : Units}

/-- Without a ring nothing is fresh. -/
theorem fresh_of_flatten {session : Session} (h : (session.outputRing.getD []).flatten = [])
    (w : Units) : fresh stripAnsi session sinceBytes w = false := by
  have hring : (splitRing session sinceBytes).1 = (splitRing session sinceBytes).2 := by
    unfold splitRing
    rw [h]
    split <;> simp
  rw [fresh, hring]
  simp

/-- The observation, case by case: a body that is too short, no ring, no frames, or the loop. -/
theorem observe_cases (stripAnsi : Units → Units) (minChars : Nat) (session : Option Session)
    (sinceBytes : Option Int) (bodyText : Units) :
    ((observeInjectEcho stripAnsi minChars session sinceBytes bodyText).observed = false ∧
        ((normalize bodyText).length < minChars ∨
          ((ringOf session).outputRing.getD []).flatten = [] ∨
            noFrames (ringOf session) sinceBytes = true)) ∨
      (noFrames (ringOf session) sinceBytes = false ∧
        observeInjectEcho stripAnsi minChars session sinceBytes bodyText =
          countHits (needed (normalize bodyText) minChars)
            (fresh stripAnsi (ringOf session) sinceBytes) 0
            (windows (normalize bodyText) minChars)) := by
  by_cases hshort : (normalize bodyText).length < minChars
  · have heq : observeInjectEcho stripAnsi minChars session sinceBytes bodyText = _ :=
      if_pos hshort
    exact .inl ⟨by rw [heq], .inl hshort⟩
  · cases session with
    | none =>
      have heq : observeInjectEcho stripAnsi minChars none sinceBytes bodyText = _ :=
        if_neg hshort
      exact .inl ⟨congrArg Echo.observed heq, .inr (.inl rfl)⟩
    | some session =>
      have heq : observeInjectEcho stripAnsi minChars (some session) sinceBytes bodyText = _ :=
        if_neg hshort
      by_cases hring : session.outputRing.getD [] = []
      · refine .inl ⟨?_, .inr (.inl ?_)⟩
        · rw [heq]
          simp [Option.filter, hring]
        · rw [ringOf, Option.getD_some, hring, List.flatten_nil]
      · have hfilter : (some session).filter (fun s => s.outputRing.getD [] ≠ []) = some session := by
          simp [Option.filter, hring]
        rw [heq, hfilter]
        cases hframes : noFrames session sinceBytes with
        | true => exact .inl ⟨by simp [hframes], .inr (.inr hframes)⟩
        | false => exact .inr ⟨hframes, by simp [hframes, ringOf]⟩

/-- What the observation says, where something has come since the watermark. -/
theorem observed_iff (hframes : noFrames (ringOf session) sinceBytes = false) :
    (observeInjectEcho stripAnsi minChars session sinceBytes bodyText).observed = true ↔
      needed (normalize bodyText) minChars ≤
        (windows (normalize bodyText) minChars).countP
          (fresh stripAnsi (ringOf session) sinceBytes) := by
  have hneeded := needed_pos (normalize bodyText) minChars
  rcases observe_cases stripAnsi minChars session sinceBytes bodyText with
    ⟨hobserved, hwhy⟩ | ⟨-, heq⟩
  · have hcount : (windows (normalize bodyText) minChars).countP
        (fresh stripAnsi (ringOf session) sinceBytes) = 0 := by
      rcases hwhy with hshort | hflatten | hno
      · rw [windows_of_lt hshort, List.countP_nil]
      · rw [List.countP_eq_zero]
        intro w _
        rw [fresh_of_flatten hflatten]
        exact Bool.false_ne_true
      · rw [hframes] at hno
        exact absurd hno Bool.false_ne_true
    rw [hobserved, hcount]
    exact iff_of_false Bool.false_ne_true (by omega)
  · rw [heq, observed_countHits hneeded, Nat.zero_add]

/-- An observation only comes of frames. -/
theorem frames_of_observed
    (h : (observeInjectEcho stripAnsi minChars session sinceBytes bodyText).observed = true) :
    noFrames (ringOf session) sinceBytes = false := by
  rcases observe_cases stripAnsi minChars session sinceBytes bodyText with
    ⟨hobserved, -⟩ | ⟨hframes, -⟩
  · rw [h] at hobserved
    exact absurd hobserved.symm Bool.false_ne_true
  · exact hframes

end

/-! ## Distinct windows -/

section

variable (stripAnsi : Units → Units) (minChars : Nat) (session : Option Session)
  (sinceBytes : Option Int) (bodyText : Units)

/-- What is observed rests on as many different windows as are asked for, each of them in what came
after the watermark and not in what was there before. -/
def Distinct : Prop :=
  (observeInjectEcho stripAnsi minChars session sinceBytes bodyText).observed = true →
    ∃ ws : List Units, ws.Nodup ∧ needed (normalize bodyText) minChars ≤ ws.length ∧
      ∀ w ∈ ws, w ∈ windows (normalize bodyText) minChars ∧
        fresh stripAnsi (ringOf session) sinceBytes w = true

/-- The body is at least twice as long as a window, and the only window of it that is fresh stands
at two places or more. -/
def FreshTwice : Prop :=
  noFrames (ringOf session) sinceBytes = false ∧ minChars * 2 ≤ (normalize bodyText).length ∧
    ∃ w, 2 ≤ (windows (normalize bodyText) minChars).count w ∧
      fresh stripAnsi (ringOf session) sinceBytes w = true ∧
      ∀ v ∈ windows (normalize bodyText) minChars,
        fresh stripAnsi (ringOf session) sinceBytes v = true → v = w

end

/-- Different texts of which each is `w` are no more than one. -/
theorem length_le_one_of_nodup {α : Type} {w : α} {ws : List α} (hnodup : ws.Nodup)
    (h : ∀ v ∈ ws, v = w) : ws.length ≤ 1 := by
  rw [List.eq_replicate_of_mem h] at hnodup
  exact List.nodup_replicate.mp hnodup

/-- **Distinct evidence.** The windows that an observation rests on are different ones, except where
the only fresh window of a long body stands in it twice. -/
theorem observed_distinct_iff (stripAnsi : Units → Units) (minChars : Nat)
    (session : Option Session) (sinceBytes : Option Int) (bodyText : Units) :
    Distinct stripAnsi minChars session sinceBytes bodyText ↔
      ¬ FreshTwice stripAnsi minChars session sinceBytes bodyText := by
  constructor
  · rintro hdistinct ⟨hframes, hlong, w, hcount, hfresh, honly⟩
    have hneeded : needed (normalize bodyText) minChars = 2 := if_pos hlong
    have hobserved : (observeInjectEcho stripAnsi minChars session sinceBytes bodyText).observed :=
      by
        rw [observed_iff hframes, hneeded]
        refine Nat.le_trans hcount (List.countP_mono_left fun v _ hv => ?_)
        rw [eq_of_beq hv]
        exact hfresh
    obtain ⟨ws, hnodup, hlength, hws⟩ := hdistinct hobserved
    have := length_le_one_of_nodup hnodup fun v hv => honly v (hws v hv).1 (hws v hv).2
    omega
  · intro hrepeat hobserved
    have hframes := frames_of_observed hobserved
    have hcount := (observed_iff hframes).mp hobserved
    have hneeded := needed_pos (normalize bodyText) minChars
    obtain ⟨w, hw, hfresh⟩ := List.countP_pos_iff.mp (Nat.lt_of_lt_of_le hneeded hcount)
    by_cases hlong : minChars * 2 ≤ (normalize bodyText).length
    · have hneeded : needed (normalize bodyText) minChars = 2 := if_pos hlong
      by_cases honly : ∀ v ∈ windows (normalize bodyText) minChars,
          fresh stripAnsi (ringOf session) sinceBytes v = true → v = w
      · refine absurd ⟨hframes, hlong, w, ?_, hfresh, honly⟩ hrepeat
        rw [hneeded] at hcount
        refine Nat.le_trans hcount (List.countP_mono_left fun v hv hvfresh => ?_)
        rw [honly v hv hvfresh]
        exact beq_self_eq_true w
      · -- another window is fresh
        simp only [Classical.not_forall] at honly
        obtain ⟨v, hv, hvfresh, hne⟩ := honly
        refine ⟨[v, w], ?_, by rw [hneeded]; rfl, ?_⟩
        · simpa using hne
        · simpa using ⟨⟨hv, hvfresh⟩, hw, hfresh⟩
    · have hneeded : needed (normalize bodyText) minChars = 1 := if_neg hlong
      refine ⟨[w], List.nodup_singleton w, by rw [hneeded]; rfl, ?_⟩
      simpa using ⟨hw, hfresh⟩

/-- A body that says one phrase four times. -/
def phrase : Units := codeUnits "abcdefghijkl"

/-- Two copies of the phrase are on the screen, one text, and it passes for two windows. -/
theorem phrase_observed :
    ¬ Distinct id 24 (some ⟨some [phrase ++ phrase], some 24⟩) (some 0)
      (phrase ++ phrase ++ phrase ++ phrase) := by
  have hwindows : windows (normalize (phrase ++ phrase ++ phrase ++ phrase)) 24 =
      [phrase ++ phrase, phrase ++ phrase, phrase ++ phrase] := by decide +kernel
  intro h
  obtain ⟨ws, hnodup, hlength, hws⟩ := h (by decide +kernel)
  have hle := length_le_one_of_nodup hnodup fun v hv => by
    have := (hws v hv).1
    rw [hwindows] at this
    simpa using this
  have hneeded : needed (normalize (phrase ++ phrase ++ phrase ++ phrase)) 24 = 2 := by
    decide +kernel
  omega

end Telepty.Submit
