import Telepty.Interaction.Core

/-!
# One dispatch of an action, one outstanding effect of a session

A call is open while the core may still change its record, or recovery may. Open calls are of
different sessions, by the `active` set. As long as they are of different actions too, each of them
is alone with the record of its action: the stages that were committed and the dispatches that were
made are those that its phase tells.

An action that is begun again for another session while the first call is in flight passes the
check of the recorded actions, since nothing is recorded yet, and the check of the active sessions,
since that one goes by session. Such a call is what the results exclude (`Apart`).
-/

namespace Telepty.Interaction

open Infra

variable {w w' : World} {i j : Nat} {c c' : Call}

/-! ## What was committed and what was dispatched -/

def Record.entry (r : Record) : Stage × Nat := (r.stage, r.receiptSeq)

def World.recorded (w : World) (a : Text) : List Record := w.committed.filter (·.actionId = a)

/-- The committed stages of an action, each with its `receipt_seq`. -/
def World.history (w : World) (a : Text) : List (Stage × Nat) := (w.recorded a).map Record.entry

def World.sent (w : World) (a : Text) : List Dispatch := w.dispatches.filter (·.actionId = a)

/-- The stages that an action goes through. -/
inductive Course : List (Stage × Nat) → Prop where
  | nil : Course []
  | prepared : Course [(.prepared, 1)]
  | refused : Course [(.prepared, 1), (.refused, 2)]
  | dispatched : Course [(.prepared, 1), (.dispatched, 2)]
  | finished (s : Stage) (h : s = .written ∨ s = .refused ∨ s = .outcomeUnknown) :
    Course [(.prepared, 1), (.dispatched, 2), (s, 3)]

/-- What was committed before a commit of this purpose. -/
def Purpose.before : Purpose → List (Stage × Nat)
  | .prepare => []
  | .refuse | .dispatch => [(.prepared, 1)]
  | .finish => [(.prepared, 1), (.dispatched, 2)]

def Purpose.Fits (p : Purpose) (r : Record) : Prop :=
  match p with
  | .prepare => r.entry = (.prepared, 1)
  | .refuse => r.entry = (.refused, 2)
  | .dispatch => r.entry = (.dispatched, 2)
  | .finish => (r.stage = .written ∨ r.stage = .refused ∨ r.stage = .outcomeUnknown) ∧
      r.receiptSeq = 3

theorem course_after {p : Purpose} {r : Record} (h : p.Fits r) : Course (p.before ++ [r.entry]) := by
  cases p with
  | prepare => rw [show r.entry = _ from h]; exact .prepared
  | refuse => rw [show r.entry = _ from h]; exact .refused
  | dispatch => rw [show r.entry = _ from h]; exact .dispatched
  | finish =>
    obtain ⟨hs, hn⟩ := h
    rw [Record.entry, hn]
    exact .finished r.stage hs

/-- A commit that landed was the next stage, and one that did not has left what was before. -/
def Commit.trace (cm : Commit) (p : Purpose) : List (Stage × Nat) :=
  if cm.landed then p.before ++ [cm.record.entry] else p.before

/-! ## The invariant -/

/-- The record is of the action and the session of the call. -/
def Call.Owns (c : Call) (r : Record) : Prop := r.actionId = c.actionId ∧ r.sid = c.sid

def Call.isOpen (c : Call) : Bool := c.inFlight || c.adrift.isSome

def Call.dispatch (c : Call) (i : Nat) : Dispatch := ⟨i, c.actionId, c.sid⟩

/-- What a call that awaits a commit of this purpose has dispatched. -/
def Purpose.sends (p : Purpose) (d : Dispatch) : List Dispatch := if p = .finish then [d] else []

/-- The call awaits the commit, or the commit is adrift. -/
structure Awaits (w : World) (i : Nat) (c : Call) (p : Purpose) (cm : Commit) : Prop where
  fits : p.Fits cm.record
  owns : c.Owns cm.record
  history : w.history c.actionId = cm.trace p
  kept : cm.landed = true → cm.record ∈ w.committed
  sent : w.sent c.actionId = p.sends (c.dispatch i)

theorem Awaits.of_request {p : Purpose} {cm : Commit} (h : Awaits w i c p cm)
    (hreq : c'.request = c.request) : Awaits w i c' p cm := by
  have hsid : c'.sid = c.sid := by rw [Call.sid, hreq, Call.sid]
  have hact : c'.actionId = c.actionId := by rw [Call.actionId, hreq, Call.actionId]
  refine ⟨h.fits, ⟨h.owns.1.trans hact.symm, h.owns.2.trans hsid.symm⟩, ?_, h.kept, ?_⟩
  · rw [hact]
    exact h.history
  · rw [Call.dispatch, hact, hsid]
    exact h.sent

def Call.Ok (c : Call) (w : World) (i : Nat) : Prop :=
  match c.phase with
  | .committing p cm => Awaits w i c p cm
  | .dispatching r => c.Owns r ∧ r.receiptSeq = 2 ∧
      w.history c.actionId = Purpose.finish.before ∧ w.sent c.actionId = [c.dispatch i]
  | _ => ∀ cm, c.adrift = some cm → cm.landed = false ∧ ∃ p, Awaits w i c p cm

/-- The answer is no receipt but of a committed record of the action. -/
def Call.Told (c : Call) (w : World) : Prop :=
  ∀ r, c.phase = .returned (.receipt r) →
    ∃ record ∈ w.committed, record.actionId = c.actionId ∧ r = publicReceipt record

def Once (w : World) (a : Text) : Prop :=
  w.sent a = [] ∨ (∃ d, w.sent a = [d]) ∧ w.history a ≠ []

def Record.Uncertain (r : Record) : Prop := r.stage = .dispatched ∨ r.stage = .outcomeUnknown

structure Inv (w : World) : Prop where
  apart : ∀ (i j : Nat) (c c' : Call), w.calls[i]? = some c → w.calls[j]? = some c' → c.isOpen = true →
    c'.isOpen = true → c.sid = c'.sid ∨ c.actionId = c'.actionId → i = j
  calls : ∀ (i : Nat) (c : Call), w.calls[i]? = some c → c.Ok w i
  told : ∀ (i : Nat) (c : Call), w.calls[i]? = some c → c.Told w
  active : ∀ (i : Nat) (c : Call), w.calls[i]? = some c → c.inFlight = true → c.sid ∈ w.active
  down : ∀ (i : Nat) (c : Call), w.calls[i]? = some c → c.adrift.isSome = true →
    w.available = false ∧ c.inFlight = false
  certain : ∀ (i : Nat) (c : Call), w.calls[i]? = some c → c.inFlight = true →
    ∀ a r, w.actions.get? a = some r → r.sid = c.sid → a ≠ c.actionId → ¬ r.Uncertain
  stored : ∀ a, w.actions.get? a = (w.recorded a).getLast?
  course : ∀ a, Course (w.history a)
  once : ∀ a, Once w a

theorem inv_initial : Inv .initial where
  apart i j c c' h := by cases i <;> cases h
  calls i c h := by cases i <;> cases h
  told i c h := by cases i <;> cases h
  active i c h := by cases i <;> cases h
  down i c h := by cases i <;> cases h
  certain i c h := by cases i <;> cases h
  stored a := rfl
  course a := .nil
  once a := .inl rfl

theorem Inv.actionId_eq (h : Inv w) {a : Text} {r : Record} (hr : w.actions.get? a = some r) :
    r ∈ w.committed ∧ r.actionId = a := by
  rw [h.stored] at hr
  have hm := List.mem_filter.mp (List.mem_of_getLast? hr)
  exact ⟨hm.1, by simpa using hm.2⟩

theorem Inv.history_eq_nil (h : Inv w) {a : Text} (hn : w.actions.get? a = none) :
    w.history a = [] := by
  rw [h.stored, List.getLast?_eq_none_iff] at hn
  rw [World.history, hn]
  rfl

/-- An action that is not recorded was not dispatched. -/
theorem Inv.sent_eq_nil (h : Inv w) {a : Text} (hn : w.actions.get? a = none) : w.sent a = [] := by
  rcases h.once a with hs | ⟨-, hne⟩
  · exact hs
  · exact absurd (h.history_eq_nil hn) hne

theorem Call.Ok.of_closed {w : World} (ho : c.isOpen = false) : c.Ok w i := by
  rw [Call.isOpen, Bool.or_eq_false_iff, Call.inFlight] at ho
  obtain ⟨hf, ha⟩ := ho
  unfold Call.Ok
  split
  · next hp => rw [hp] at hf; cases hf
  · next hp => rw [hp] at hf; cases hf
  · intro cm hcm
    rw [hcm] at ha
    cases ha

/-- What is told of a call depends on the records and the dispatches of its action alone. -/
theorem Call.Ok.congr (h : c.Ok w i) (hk : ∀ r ∈ w.committed, r ∈ w'.committed)
    (hh : w'.history c.actionId = w.history c.actionId)
    (hs : w'.sent c.actionId = w.sent c.actionId) : c.Ok w' i := by
  have hawait : ∀ p cm, Awaits w i c p cm → Awaits w' i c p cm := fun p cm ha =>
    ⟨ha.fits, ha.owns, hh.trans ha.history, fun hl => hk _ (ha.kept hl), hs.trans ha.sent⟩
  unfold Call.Ok at h ⊢
  split
  · next hp =>
    rw [hp] at h
    exact hawait _ _ h
  · next hp =>
    rw [hp] at h
    exact ⟨h.1, h.2.1, hh.trans h.2.2.1, hs.trans h.2.2.2⟩
  · next hp1 hp2 =>
    split at h
    · next hp => exact absurd hp (hp1 _ _)
    · next hp => exact absurd hp (hp2 _)
    · intro cm hcm
      obtain ⟨hl, p, ha⟩ := h cm hcm
      exact ⟨hl, p, hawait _ _ ha⟩

/-! ## A run of one call -/

/-- **A run of one open call**, which touches the records and the dispatches of its own action. -/
theorem Inv.update (h : Inv w) (hc : w.calls[i]? = some c) (ho : c.isOpen = true)
    (hcalls : w'.calls = w.calls.set i c') (hreq : c'.request = c.request)
    (havail : w'.available = w.available)
    (hactive : ∀ s ∈ w.active, s ≠ c.sid → s ∈ w'.active)
    (hrest : ∀ a, a ≠ c.actionId → w'.history a = w.history a ∧ w'.sent a = w.sent a)
    (hactions : ∀ a r, w'.actions.get? a = some r →
      w.actions.get? a = some r ∨ a = c.actionId ∧ r.sid = c.sid)
    (hstored : ∀ a, w'.actions.get? a = (w'.recorded a).getLast?)
    (hkept : ∀ r ∈ w.committed, r ∈ w'.committed)
    (hok : c'.Ok w' i) (htold : c'.Told w')
    (hflight : c'.inFlight = true → c.inFlight = true ∧ c.sid ∈ w'.active)
    (hdown : c'.adrift.isSome = true → w.available = false ∧ c'.inFlight = false)
    (hcourse : Course (w'.history c.actionId)) (honce : Once w' c.actionId) : Inv w' := by
  have hsid : c'.sid = c.sid := by rw [Call.sid, hreq, Call.sid]
  have hact : c'.actionId = c.actionId := by rw [Call.actionId, hreq, Call.actionId]
  have hlt : i < w.calls.length := (List.getElem?_eq_some_iff.mp hc).1
  have hget : ∀ j d, w'.calls[j]? = some d → j = i ∧ d = c' ∨ j ≠ i ∧ w.calls[j]? = some d := by
    intro j d hd
    rw [hcalls, List.getElem?_set] at hd
    by_cases hj : i = j
    · rw [if_pos hj, if_pos hlt] at hd
      exact .inl ⟨hj.symm, (Option.some.inj hd).symm⟩
    · rw [if_neg hj] at hd
      exact .inr ⟨Ne.symm hj, hd⟩
  -- the other open calls are of another session and another action
  have hother : ∀ j d, j ≠ i → w.calls[j]? = some d → d.isOpen = true →
      d.sid ≠ c.sid ∧ d.actionId ≠ c.actionId := fun j d hj hd hdo =>
    ⟨fun he => hj (h.apart j i d c hd hc hdo ho (.inl he)),
      fun he => hj (h.apart j i d c hd hc hdo ho (.inr he))⟩
  have hopen : ∀ d : Call, d.inFlight = true → d.isOpen = true := fun d hd => by
    rw [Call.isOpen, hd, Bool.true_or]
  refine ⟨?_, ?_, ?_, ?_, ?_, ?_, hstored, ?_, ?_⟩
  · intro j k d d' hd hd' hdo hdo' he
    rcases hget j d hd with ⟨rfl, rfl⟩ | ⟨hj, hd⟩ <;> rcases hget k d' hd' with ⟨rfl, rfl⟩ | ⟨hk, hd'⟩
    · rfl
    · rw [hsid, hact] at he
      exact h.apart j k c d' hc hd' ho hdo' he
    · rw [hsid, hact] at he
      exact h.apart j k d c hd hc hdo ho he
    · exact h.apart j k d d' hd hd' hdo hdo' he
  · intro j d hd
    rcases hget j d hd with ⟨rfl, rfl⟩ | ⟨hj, hd⟩
    · exact hok
    · cases hdo : d.isOpen with
      | false => exact .of_closed hdo
      | true =>
        have hne := (hother j d hj hd hdo).2
        exact (h.calls j d hd).congr hkept (hrest _ hne).1 (hrest _ hne).2
  · intro j d hd r hr
    rcases hget j d hd with ⟨rfl, rfl⟩ | ⟨hj, hd⟩
    · exact htold r hr
    · obtain ⟨record, hm, ha, he⟩ := h.told j d hd r hr
      exact ⟨record, hkept record hm, ha, he⟩
  · intro j d hd hf
    rcases hget j d hd with ⟨rfl, rfl⟩ | ⟨hj, hd⟩
    · rw [hsid]
      exact (hflight hf).2
    · exact hactive _ (h.active j d hd hf) (hother j d hj hd (hopen d hf)).1
  · intro j d hd ha
    rcases hget j d hd with ⟨rfl, rfl⟩ | ⟨hj, hd⟩
    · rw [havail]
      exact hdown ha
    · rw [havail]
      exact h.down j d hd ha
  · intro j d hd hf a r hr hs hne
    rcases hget j d hd with ⟨rfl, rfl⟩ | ⟨hj, hd⟩
    · rw [hsid] at hs
      rw [hact] at hne
      rcases hactions a r hr with hr | ⟨ha, -⟩
      · exact h.certain j c hc (hflight hf).1 a r hr hs hne
      · exact absurd ha hne
    · rcases hactions a r hr with hr | ⟨-, ha⟩
      · exact h.certain j d hd hf a r hr hs hne
      · exact absurd (hs.symm.trans ha) (hother j d hj hd (hopen d hf)).1
  · intro a
    by_cases ha : a = c.actionId
    · rw [ha]
      exact hcourse
    · rw [(hrest a ha).1]
      exact h.course a
  · intro a
    by_cases ha : a = c.actionId
    · rw [ha]
      exact honce
    · rw [Once, (hrest a ha).1, (hrest a ha).2]
      exact h.once a

/-- A run that commits nothing and dispatches nothing. -/
theorem Inv.quiet (h : Inv w) (hc : w.calls[i]? = some c) (ho : c.isOpen = true)
    (hcalls : w'.calls = w.calls.set i c') (hreq : c'.request = c.request)
    (hw : w' = { w with calls := w'.calls, active := w'.active })
    (hactive : ∀ s ∈ w.active, s ≠ c.sid → s ∈ w'.active)
    (hok : c'.Ok w i) (htold : c'.Told w)
    (hflight : c'.inFlight = true → c.inFlight = true ∧ c.sid ∈ w'.active)
    (hdown : c'.adrift.isSome = true → w.available = false ∧ c'.inFlight = false) : Inv w' := by
  have hact : w'.actions = w.actions := by rw [hw]
  have hcom : w'.committed = w.committed := by rw [hw]
  have hdis : w'.dispatches = w.dispatches := by rw [hw]
  have hhist : ∀ a, w'.history a = w.history a := fun a => by
    rw [World.history, World.recorded, hcom]
    rfl
  have hsent : ∀ a, w'.sent a = w.sent a := fun a => by
    rw [World.sent, hdis]
    rfl
  have hact' : c'.actionId = c.actionId := by rw [Call.actionId, hreq, Call.actionId]
  refine h.update hc ho hcalls hreq (by rw [hw]) hactive (fun a _ => ⟨hhist a, hsent a⟩)
    (fun a r hr => .inl (hact ▸ hr)) (fun a => ?_) (fun r hr => hcom ▸ hr)
    (hok.congr (fun r hr => hcom ▸ hr) (hhist _) (hsent _)) (fun r hr => ?_) hflight hdown ?_ ?_
  · rw [hact, World.recorded, hcom]
    exact h.stored a
  · rw [hcom]
    exact htold r hr
  · rw [hhist]
    exact h.course _
  · rw [Once, hhist, hsent]
    exact h.once _

theorem isOpen_of_inFlight (h : c.inFlight = true) : c.isOpen = true := by
  rw [Call.isOpen, h, Bool.true_or]

/-- A call in flight has nothing adrift. -/
theorem Inv.adrift_eq_none (h : Inv w) (hc : w.calls[i]? = some c) (hf : c.inFlight = true) :
    c.adrift = none := by
  cases ha : c.adrift with
  | none => rfl
  | some cm =>
    have hd := (h.down i c hc (by rw [ha]; rfl)).2
    rw [hf] at hd
    cases hd

theorem Inv.saveRecord {p : Purpose} {record : Record} (h : Inv w) (hc : w.calls[i]? = some c)
    (hf : c.inFlight = true) (hfit : p.Fits record) (howns : c.Owns record)
    (hhist : w.history c.actionId = p.before) (hsent : w.sent c.actionId = p.sends (c.dispatch i))
    (pending : Option Json) : Inv (w.saveRecord i c p record pending) := by
  have hactive := h.active i c hc hf
  refine h.quiet hc (isOpen_of_inFlight hf) rfl rfl rfl (fun s hs _ => hs) ?_
    (fun r hr => by cases hr) (fun _ => ⟨hf, hactive⟩) (fun ha => ?_)
  · exact ⟨hfit, howns, hhist, (fun hl => by cases hl), hsent⟩
  · rw [h.adrift_eq_none hc hf] at ha
    cases ha

theorem Inv.finish {a : Answer} {adrift : Option Commit} (h : Inv w)
    (hc : w.calls[i]? = some c) (hf : c.inFlight = true)
    (htold : ∀ r, a = .receipt r →
      ∃ record ∈ w.committed, record.actionId = c.actionId ∧ r = publicReceipt record)
    (hadrift : ∀ cm, adrift = some cm →
      w.available = false ∧ cm.landed = false ∧ ∃ p, Awaits w i c p cm) :
    Inv (w.finish i c a adrift) := by
  refine h.quiet hc (isOpen_of_inFlight hf) rfl rfl rfl (fun s hs hne => ?_) ?_ (fun r hr => ?_)
    (fun hcl => by cases hcl) (fun ha => ?_)
  · exact List.mem_filter.mpr ⟨hs, by simpa using hne⟩
  · intro cm hcm
    obtain ⟨-, hl, p, ha⟩ := hadrift cm hcm
    exact ⟨hl, p, ha.fits, ha.owns, ha.history, ha.kept, ha.sent⟩
  · cases hr
    exact htold r rfl
  · obtain ⟨cm, hcm⟩ := Option.isSome_iff_exists.mp ha
    exact ⟨(hadrift cm hcm).1, rfl⟩

/-! ## Commits -/

theorem recorded_recordCommit (w : World) (cm : Commit) (a : Text) :
    (w.recordCommit cm).recorded a =
      w.recorded a ++ if cm.record.actionId = a then [cm.record] else [] := by
  rw [World.recorded, World.recordCommit, List.filter_append, World.recorded, List.filter_singleton]
  by_cases h : cm.record.actionId = a <;> simp [h]

theorem history_recordCommit (w : World) (cm : Commit) :
    (w.recordCommit cm).history cm.record.actionId =
      w.history cm.record.actionId ++ [cm.record.entry] := by
  rw [World.history, recorded_recordCommit, if_pos rfl, List.map_append]
  rfl

theorem history_recordCommit_of_ne (w : World) {cm : Commit} {a : Text}
    (h : a ≠ cm.record.actionId) : (w.recordCommit cm).history a = w.history a := by
  rw [World.history, recorded_recordCommit, if_neg (Ne.symm h), List.append_nil]
  rfl

theorem Inv.stored_recordCommit (h : Inv w) (cm : Commit) (a : Text) :
    (w.recordCommit cm).actions.get? a = ((w.recordCommit cm).recorded a).getLast? := by
  rw [recorded_recordCommit, World.recordCommit, OrdMap.get?_set]
  by_cases ha : a = cm.record.actionId
  · rw [if_pos ha, if_pos ha.symm, List.getLast?_append]
    rfl
  · rw [if_neg ha, if_neg (Ne.symm ha), List.append_nil]
    exact h.stored a

/-- The commit of an open call, or its adrift one, becomes durable. -/
theorem Inv.recordCommit {p : Purpose} {cm : Commit} (h : Inv w) (hc : w.calls[i]? = some c)
    (ho : c.isOpen = true) (ha : Awaits w i c p cm) (hl : cm.landed = false)
    (hreq : c'.request = c.request)
    (hphase : c'.phase = .committing p { cm with landed := true } ∨ c'.isOpen = false)
    (htold : c'.Told w) (hflight : c'.inFlight = true → c.inFlight = true)
    (hadrift : c'.adrift = none) : Inv ((w.recordCommit cm).setCall i c') := by
  have hact : c'.actionId = c.actionId := by rw [Call.actionId, hreq, Call.actionId]
  have hown := ha.owns
  have hbefore : w.history c.actionId = p.before := by
    rw [ha.history, Commit.trace, hl]
    rfl
  have hhist : (w.recordCommit cm).history c.actionId = p.before ++ [cm.record.entry] := by
    rw [← hown.1, history_recordCommit, hown.1, hbefore]
  refine h.update hc ho rfl hreq rfl (fun s hs _ => hs) (fun a hne => ⟨?_, rfl⟩) (fun a r hr => ?_)
    (h.stored_recordCommit cm) (fun r hr => List.mem_append_left _ hr) ?_ (fun r hr => ?_)
    (fun hf => ⟨hflight hf, h.active i c hc (hflight hf)⟩) (fun hs => ?_) ?_ ?_
  · exact history_recordCommit_of_ne w (hown.1 ▸ hne)
  · rw [World.setCall, World.recordCommit, OrdMap.get?_set] at hr
    split at hr
    · next he =>
      cases hr
      exact .inr ⟨he.trans hown.1, hown.2⟩
    · exact .inl hr
  · rcases hphase with hp | hcl
    · unfold Call.Ok
      rw [hp]
      exact Awaits.of_request ⟨ha.fits, hown, hhist,
        fun _ => List.mem_append_right _ List.mem_cons_self, ha.sent⟩ hreq
    · exact .of_closed hcl
  · obtain ⟨record, hm, hr⟩ := htold r hr
    exact ⟨record, List.mem_append_left _ hm, hr⟩
  · rw [hadrift] at hs
    cases hs
  · show Course ((w.recordCommit cm).history c.actionId)
    rw [hhist]
    exact course_after ha.fits
  · rcases h.once c.actionId with hs | ⟨hs, -⟩
    · exact .inl hs
    · refine .inr ⟨hs, ?_⟩
      show (w.recordCommit cm).history c.actionId ≠ []
      rw [hhist]
      simp

/-! ## The runs of a call -/

theorem Inv.land (h : Inv w) (i : Nat) : Inv (step w (.land i)) := by
  rw [step]
  split
  · next c hc =>
    split
    · next p cm hp =>
      split
      · next hg =>
        have hok := h.calls i c hc
        unfold Call.Ok at hok
        rw [hp] at hok
        have hf : c.inFlight = true := by rw [Call.inFlight, hp]
        have hnone := h.adrift_eq_none hc hf
        exact h.recordCommit hc (isOpen_of_inFlight hf) hok hg.2 rfl (.inl rfl)
          (fun r hr => by cases hr) (fun _ => hf) hnone
      · exact h
    · exact h
  · exact h

theorem Inv.recover (h : Inv w) (i : Nat) : Inv (step w (.recover i)) := by
  rw [step]
  split
  · next c hc =>
    split
    · next cm hcm =>
      split
      · exact h
      · have hs : c.adrift.isSome = true := by rw [hcm]; rfl
        have hf := (h.down i c hc hs).2
        have hok := h.calls i c hc
        have hclosed : Call.isOpen { c with adrift := none } = false := by
          rw [Call.isOpen, Option.isSome_none, Bool.or_false]
          exact hf
        unfold Call.Ok at hok
        split at hok
        · next hp => rw [Call.inFlight, hp] at hf; cases hf
        · next hp => rw [Call.inFlight, hp] at hf; cases hf
        · obtain ⟨hl, p, ha⟩ := hok cm hcm
          exact h.recordCommit hc (by rw [Call.isOpen, hs, Bool.or_true]) ha hl rfl (.inr hclosed)
            (h.told i c hc) (fun hf' => hf') rfl
    · exact h
  · exact h

/-- The dispatch is called in the run that follows the commit of the stage `dispatched`. -/
theorem Inv.dispatch {cm : Commit} (h : Inv w) (hc : w.calls[i]? = some c)
    (ha : Awaits w i c .dispatch cm) (hf : c.inFlight = true) (hl : cm.landed = true) :
    Inv (World.setCall { w with dispatches := w.dispatches ++ [c.dispatch i] } i
      { c with phase := .dispatching cm.record }) := by
  have hhist : w.history c.actionId = Purpose.finish.before := by
    rw [ha.history, Commit.trace, hl, if_pos rfl, show cm.record.entry = _ from ha.fits]
    rfl
  have hnone : w.sent c.actionId = [] := ha.sent
  have hsent : ∀ a, World.sent { w with dispatches := w.dispatches ++ [c.dispatch i] } a =
      w.sent a ++ if c.actionId = a then [c.dispatch i] else [] := fun a => by
    rw [World.sent, List.filter_append, List.filter_singleton, World.sent]
    by_cases he : c.actionId = a <;> simp [Call.dispatch, he]
  refine h.update hc (isOpen_of_inFlight hf) rfl rfl rfl (fun s hs _ => hs)
    (fun a hne => ⟨rfl, ?_⟩) (fun a r hr => .inl hr) h.stored (fun r hr => hr) ?_
    (fun r hr => by cases hr) (fun _ => ⟨hf, h.active i c hc hf⟩) (fun hs => ?_) (h.course _) ?_
  · refine (hsent a).trans ?_
    rw [if_neg (Ne.symm hne), List.append_nil]
  · refine ⟨ha.owns, ?_, hhist, ?_⟩
    · exact congrArg Prod.snd (show cm.record.entry = _ from ha.fits)
    · refine (hsent c.actionId).trans ?_
      rw [hnone, if_pos rfl]
      rfl
  · rw [h.adrift_eq_none hc hf] at hs
    cases hs
  · refine .inr ⟨⟨c.dispatch i, (hsent c.actionId).trans ?_⟩, ?_⟩
    · rw [hnone, if_pos rfl]
      rfl
    · show w.history c.actionId ≠ []
      rw [hhist]
      exact List.cons_ne_nil _ _

theorem adriftAfter_eq_some {cm cm' : Commit} {saved : Committed}
    (h : w.adriftAfter cm saved = some cm') :
    cm' = cm ∧ saved = .indeterminate ∧ w.available = false ∧ cm.landed = false := by
  unfold World.adriftAfter at h
  split at h
  · next hg => exact ⟨(Option.some.inj h).symm, hg.1, hg.2.2, hg.2.1⟩
  · cases h

theorem fits_transition {r : Record} {stage : Stage} {reason : Option Text} {terminal : Bool}
    {bytesWritten : Option Nat} {now : Nat} {n : Nat} (h : r.receiptSeq = n) :
    (transition r stage reason terminal bytesWritten now).entry = (stage, n + 1) := by
  rw [Record.entry, transition, h]

theorem finalRecord_fits {r : Record} {result : Result} {now : Nat} (h : r.receiptSeq = 2) :
    Purpose.finish.Fits (finalRecord r result now) := by
  unfold finalRecord
  split
  · exact ⟨.inr (.inr rfl), by rw [transition, h]⟩
  · split
    · exact ⟨.inr (.inl rfl), by rw [transition, h]⟩
    · split
      · exact ⟨.inl rfl, by rw [transition, h]⟩
      · exact ⟨.inr (.inr rfl), by rw [transition, h]⟩

theorem finalRecord_owns {r : Record} {result : Result} {now : Nat} (h : c.Owns r) :
    c.Owns (finalRecord r result now) := by
  unfold finalRecord
  split
  · exact h
  · split
    · exact h
    · split <;> exact h

theorem Inv.settle (h : Inv w) (i : Nat) (result : Result) (now : Nat) :
    Inv (step w (.settle i result now)) := by
  rw [step]
  split
  · next c hc =>
    split
    · next r hp =>
      have hok := h.calls i c hc
      unfold Call.Ok at hok
      rw [hp] at hok
      obtain ⟨howns, hseq, hhist, hsent⟩ := hok
      exact h.saveRecord hc (by rw [Call.inFlight, hp]) (finalRecord_fits hseq)
        (finalRecord_owns howns) hhist hsent none
    · exact h
  · exact h

/-- The run that follows a commit. -/
theorem Inv.resume {p : Purpose} {cm : Commit} {saved : Committed} (h : Inv w)
    (hc : w.calls[i]? = some c) (hp : c.phase = .committing p cm) (hs : cm.admits saved = true)
    (reply : Reply) : Inv (w.resume i c p cm saved reply) := by
  have hf : c.inFlight = true := by rw [Call.inFlight, hp]
  have ha : Awaits w i c p cm := by
    have hok := h.calls i c hc
    unfold Call.Ok at hok
    rw [hp] at hok
    exact hok
  have hrefused : ∀ r, Inv (w.finish i c (.refusal r) (w.adriftAfter cm saved)) := fun r =>
    h.finish hc hf (fun r hr => by cases hr) fun cm' hcm' => by
      obtain ⟨rfl, -, hd, hl⟩ := adriftAfter_eq_some hcm'
      exact ⟨hd, hl, p, ha⟩
  have hreceipt : cm.landed = true →
      Inv (w.finish i c (.receipt (publicReceipt cm.record)) none) := fun hl =>
    h.finish hc hf (fun r hr => by
      cases hr
      exact ⟨cm.record, ha.kept hl, ha.owns.1, rfl⟩) fun cm' hcm' => by cases hcm'
  unfold World.resume
  split
  · have hhist : w.history c.actionId = [(.prepared, 1)] := by
      have hl : cm.landed = true := hs
      rw [ha.history, Commit.trace, if_pos hl, show cm.record.entry = _ from ha.fits]
      rfl
    have hseq : cm.record.receiptSeq = 1 := congrArg Prod.snd (show cm.record.entry = _ from ha.fits)
    split
    · exact h.saveRecord (p := .refuse) hc hf (fits_transition hseq) ha.owns hhist ha.sent none
    · exact h.saveRecord (p := .dispatch) hc hf (fits_transition hseq) ha.owns hhist ha.sent none
  · exact hreceipt hs
  · exact hreceipt hs
  · exact h.dispatch hc ha hf hs
  · exact hrefused _
  · exact hrefused _

/-! ## The beginning of a call -/

/-- No act for the same action and another session is in flight. -/
def Ask.Alone (a : Ask) (w : World) : Prop :=
  ∀ c ∈ w.calls, c.inFlight = true → c.actionId = a.actionId → c.sid = a.sid

instance (a : Ask) (w : World) : Decidable (a.Alone w) :=
  inferInstanceAs (Decidable (∀ c ∈ w.calls, _))

/-- An act whose checks all pass comes while no act for the same action and another session is in
flight. -/
def Event.Apart (w : World) : Event → Prop
  | .act a => a.admission w = none → a.Alone w
  | _ => True

theorem getElem?_snoc {l : List Call} {x d : Call} {j : Nat} (h : (l ++ [x])[j]? = some d) :
    l[j]? = some d ∨ j = l.length ∧ d = x := by
  rcases Nat.lt_or_ge j l.length with hj | hj
  · rw [List.getElem?_append_left hj] at h
    exact .inl h
  · rw [List.getElem?_append_right hj, List.getElem?_singleton] at h
    split at h
    · exact .inr ⟨by omega, (Option.some.inj h).symm⟩
    · cases h

/-- A call that is answered at once. -/
theorem Inv.answered (h : Inv w) (r : Json) (a : Answer)
    (htold : ∀ rc, a = .receipt rc → ∃ record ∈ w.committed,
      record.actionId = r.textField "action_id" ∧ rc = publicReceipt record) :
    Inv { w with calls := w.calls ++ [⟨r, .returned a, none⟩] } := by
  refine ⟨?_, ?_, ?_, ?_, ?_, ?_, h.stored, h.course, h.once⟩
  · intro j k d d' hd hd' hdo hdo' he
    rcases getElem?_snoc hd with hd | ⟨rfl, rfl⟩
    · rcases getElem?_snoc hd' with hd' | ⟨rfl, rfl⟩
      · exact h.apart j k d d' hd hd' hdo hdo' he
      · cases hdo'
    · cases hdo
  · intro j d hd
    rcases getElem?_snoc hd with hd | ⟨rfl, rfl⟩
    · exact (h.calls j d hd).congr (fun _ hr => hr) rfl rfl
    · exact .of_closed rfl
  · intro j d hd rc hr
    rcases getElem?_snoc hd with hd | ⟨rfl, rfl⟩
    · exact h.told j d hd rc hr
    · cases hr
      exact htold rc rfl
  · intro j d hd hf
    rcases getElem?_snoc hd with hd | ⟨rfl, rfl⟩
    · exact h.active j d hd hf
    · cases hf
  · intro j d hd ha
    rcases getElem?_snoc hd with hd | ⟨rfl, rfl⟩
    · exact h.down j d hd ha
    · cases ha
  · intro j d hd hf
    rcases getElem?_snoc hd with hd | ⟨rfl, rfl⟩
    · exact h.certain j d hd hf
    · cases hf

/-- What an act whose checks all pass has found. -/
structure Admitted (w : World) (a : Ask) : Prop where
  available : w.available = true
  fresh : w.actions.get? a.actionId = none
  idle : a.sid ∉ w.active
  certain : w.uncertain a.sid = false

theorem admitted_of_admission {a : Ask} (h : a.admission w = none) : Admitted w a := by
  unfold Ask.admission at h
  dsimp only at h
  split at h
  · cases h
  · split at h
    · cases h
    · split at h
      · cases h
      · next hav =>
        split at h
        · split at h <;> cases h
        · next hn =>
          split at h
          · cases h
          · split at h
            · cases h
            · split at h
              · cases h
              · next hb =>
                rw [not_or, Bool.not_eq_true] at hb
                exact ⟨by simpa using hav, hn, hb.1, hb.2⟩

theorem told_of_admission {a : Ask} {answer : Answer} (h : Inv w)
    (ha : a.admission w = some answer) : ∀ rc, answer = .receipt rc →
      ∃ record ∈ w.committed, record.actionId = a.actionId ∧ rc = publicReceipt record := by
  rintro rc rfl
  unfold Ask.admission at ha
  dsimp only at ha
  split at ha
  · cases ha
  · split at ha
    · cases ha
    · split at ha
      · cases ha
      · split at ha
        · next record hr =>
          split at ha
          · cases ha
            exact ⟨record, (h.actionId_eq hr).1, (h.actionId_eq hr).2, rfl⟩
          · cases ha
        · split at ha
          · cases ha
          · split at ha
            · cases ha
            · split at ha
              · cases ha
              · split at ha <;> cases ha

/-- The first record of an action. -/
theorem prepare_ok {a : Ask} {record : Record} {pending : Option Json}
    (h : a.prepare w = .ok (record, pending)) :
    record.actionId = a.actionId ∧ record.sid = a.sid ∧ record.entry = (.prepared, 1) := by
  unfold Ask.prepare at h
  dsimp only at h
  split at h
  · cases h
  · split at h
    · cases h
    · cases hr : a.retained w with
      | error e => rw [hr] at h; cases h
      | ok p =>
        rw [hr] at h
        cases h
        exact ⟨rfl, rfl, rfl⟩

theorem Inv.begin {a : Ask} {record : Record} {pending : Option Json} (h : Inv w)
    (ha : Admitted w a) (halone : a.Alone w) (hp : a.prepare w = .ok (record, pending)) :
    Inv { w with
      active := a.sid :: w.active
      calls := w.calls ++
        [⟨a.request, .committing .prepare ⟨record, pending, w.available, false⟩, none⟩] } := by
  obtain ⟨hact, hsid, hentry⟩ := prepare_ok hp
  -- an open call is in flight, since nothing is adrift while the store is open
  have hflight : ∀ (j : Nat) (d : Call), w.calls[j]? = some d → d.isOpen = true → d.inFlight = true := by
    intro j d hd hdo
    rw [Call.isOpen, Bool.or_eq_true] at hdo
    refine hdo.resolve_right fun hs => ?_
    have hdown := (h.down j d hd hs).1
    rw [ha.available] at hdown
    cases hdown
  -- so it is of another session, and then of another action
  have hother : ∀ (j : Nat) (d : Call), w.calls[j]? = some d → d.isOpen = true →
      d.sid ≠ a.sid ∧ d.actionId ≠ a.actionId := by
    intro j d hd hdo
    have hf := hflight j d hd hdo
    have hs : d.sid ≠ a.sid := fun he => ha.idle (he ▸ h.active j d hd hf)
    exact ⟨hs, fun he => hs (halone d (List.mem_of_getElem? hd) hf he)⟩
  refine ⟨?_, ?_, ?_, ?_, ?_, ?_, h.stored, h.course, h.once⟩
  · intro j k d d' hd hd' hdo hdo' he
    rcases getElem?_snoc hd with hd | ⟨rfl, rfl⟩ <;> rcases getElem?_snoc hd' with hd' | ⟨rfl, rfl⟩
    · exact h.apart j k d d' hd hd' hdo hdo' he
    · obtain ⟨hs, hi⟩ := hother j d hd hdo
      exact he.elim (fun e => absurd e hs) fun e => absurd e hi
    · obtain ⟨hs, hi⟩ := hother k d' hd' hdo'
      exact he.elim (fun e => absurd e.symm hs) fun e => absurd e.symm hi
    · rfl
  · intro j d hd
    rcases getElem?_snoc hd with hd | ⟨rfl, rfl⟩
    · exact (h.calls j d hd).congr (fun _ hr => hr) rfl rfl
    · exact ⟨hentry, ⟨hact, hsid⟩, h.history_eq_nil ha.fresh, (fun hl => by cases hl),
        h.sent_eq_nil ha.fresh⟩
  · intro j d hd rc hr
    rcases getElem?_snoc hd with hd | ⟨rfl, rfl⟩
    · exact h.told j d hd rc hr
    · cases hr
  · intro j d hd hf
    rcases getElem?_snoc hd with hd | ⟨rfl, rfl⟩
    · exact List.mem_cons_of_mem _ (h.active j d hd hf)
    · exact List.mem_cons_self
  · intro j d hd hs
    rcases getElem?_snoc hd with hd | ⟨rfl, rfl⟩
    · exact h.down j d hd hs
    · cases hs
  · intro j d hd hf k r hr hs hne hu
    rcases getElem?_snoc hd with hd | ⟨rfl, rfl⟩
    · exact h.certain j d hd hf k r hr hs hne hu
    · have hn := ha.certain
      rw [World.uncertain, List.any_eq_false] at hn
      refine hn r (w.actions.mem_values_iff.mpr ⟨k, hr⟩) ?_
      have hs' : r.sid = a.sid := hs
      rcases hu with hu | hu <;> simp [hs', hu]

theorem Inv.act {a : Ask} (h : Inv w) (hk : (Event.act a).Apart w) : Inv (step w (.act a)) := by
  rw [step, World.act]
  dsimp only
  split
  · next answer ha => exact h.answered _ _ (told_of_admission h ha)
  · next ha =>
    split
    · exact h.answered _ _ fun rc hr => by cases hr
    · next hp => exact h.begin (admitted_of_admission ha) (hk ha) hp

/-! ## The store and the daemon -/

theorem Inv.fail (h : Inv w) : Inv (step w .fail) :=
  ⟨h.apart, fun i c hc => (h.calls i c hc).congr (fun _ hr => hr) rfl rfl, h.told, h.active,
    fun i c hc hs => ⟨rfl, (h.down i c hc hs).2⟩, h.certain, h.stored, h.course, h.once⟩

/-- Every call is changed to one that is open only if it was. -/
theorem Inv.map (h : Inv w) {f : Call → Call} (hw : w' = { w with
      available := w'.available, active := w'.active, calls := w.calls.map f })
    (hreq : ∀ c, (f c).request = c.request) (hopen : ∀ c, (f c).isOpen = true → c.isOpen = true)
    (hflight : ∀ c, (f c).inFlight = true → c.inFlight = true)
    (hok : ∀ (i : Nat) c, w.calls[i]? = some c → c.Ok w i → (f c).Ok w i) (htold : ∀ c, c.Told w → (f c).Told w)
    (hactive : ∀ (i : Nat) c, w.calls[i]? = some c → (f c).inFlight = true → c.sid ∈ w'.active)
    (hdown : ∀ (i : Nat) c, w.calls[i]? = some c → (f c).adrift.isSome = true →
      w'.available = false ∧ (f c).inFlight = false) : Inv w' := by
  have hget : ∀ (i : Nat) d, w'.calls[i]? = some d → ∃ c, w.calls[i]? = some c ∧ d = f c := by
    intro i d hd
    rw [hw, List.getElem?_map] at hd
    obtain ⟨c, hc, rfl⟩ := Option.map_eq_some_iff.mp hd
    exact ⟨c, hc, rfl⟩
  have hsid : ∀ c, (f c).sid = c.sid := fun c => by rw [Call.sid, hreq, Call.sid]
  have hact : ∀ c, (f c).actionId = c.actionId := fun c => by rw [Call.actionId, hreq, Call.actionId]
  have hactions : w'.actions = w.actions := by rw [hw]
  have hcom : w'.committed = w.committed := by rw [hw]
  have hdis : w'.dispatches = w.dispatches := by rw [hw]
  have hrec : ∀ a, w'.recorded a = w.recorded a := fun a => by rw [World.recorded, hcom]; rfl
  have hhist : ∀ a, w'.history a = w.history a := fun a => by rw [World.history, hrec]; rfl
  have hsent : ∀ a, w'.sent a = w.sent a := fun a => by rw [World.sent, hdis]; rfl
  refine ⟨?_, ?_, ?_, ?_, ?_, ?_, ?_, ?_, ?_⟩
  · intro i j d d' hd hd' hdo hdo' he
    obtain ⟨c, hc, rfl⟩ := hget i d hd
    obtain ⟨c', hc', rfl⟩ := hget j d' hd'
    rw [hsid, hsid, hact, hact] at he
    exact h.apart i j c c' hc hc' (hopen c hdo) (hopen c' hdo') he
  · intro i d hd
    obtain ⟨c, hc, rfl⟩ := hget i d hd
    exact (hok i c hc (h.calls i c hc)).congr (fun r hr => hcom ▸ hr) (hhist _) (hsent _)
  · intro i d hd
    obtain ⟨c, hc, rfl⟩ := hget i d hd
    intro r hr
    rw [hcom]
    exact htold c (h.told i c hc) r hr
  · intro i d hd hf
    obtain ⟨c, hc, rfl⟩ := hget i d hd
    rw [hsid]
    exact hactive i c hc hf
  · intro i d hd hs
    obtain ⟨c, hc, rfl⟩ := hget i d hd
    exact hdown i c hc hs
  · intro i d hd hf a r hr hs hne
    obtain ⟨c, hc, rfl⟩ := hget i d hd
    rw [hactions] at hr
    rw [hsid] at hs
    rw [hact] at hne
    exact h.certain i c hc (hflight c hf) a r hr hs hne
  · intro a
    rw [hactions, hrec]
    exact h.stored a
  · intro a
    rw [hhist]
    exact h.course a
  · intro a
    rw [Once, hhist, hsent]
    exact h.once a

theorem Inv.reopen (h : Inv w) : Inv (step w .reopen) := by
  rw [step]
  refine h.map rfl (fun c => rfl) (fun c ho => ?_) (fun c hf => hf) (fun i c _ hok => ?_)
    (fun c ht => ht) (fun i c hc hf => h.active i c hc hf) fun i c hc hs => by cases hs
  · rw [Call.isOpen, Option.isSome_none, Bool.or_false] at ho
    exact isOpen_of_inFlight ho
  · unfold Call.Ok at hok ⊢
    dsimp only
    split
    · next hp => rw [hp] at hok; exact hok.of_request rfl
    · next hp => rw [hp] at hok; exact hok
    · exact fun cm hcm => by cases hcm

theorem inFlight_cut (c : Call) : c.cut.inFlight = false := by
  rw [Call.cut]
  split
  · rfl
  · next h => simpa using h

theorem Inv.restart (h : Inv w) : Inv (step w .restart) := by
  have hcut : ∀ c : Call, c.cut = c ∨ c.inFlight = true ∧ c.cut = { c with phase := .lost } := by
    intro c
    rw [Call.cut]
    split
    · next hf => exact .inr ⟨hf, rfl⟩
    · exact .inl rfl
  rw [step]
  refine h.map rfl (fun c => ?_) (fun c ho => ?_) (fun c hf => ?_) (fun i c hc hok => ?_)
    (fun c ht => ?_) (fun i c hc hf => ?_) fun i c hc hs => ?_
  · rcases hcut c with he | ⟨-, he⟩ <;> rw [he]
  · rcases hcut c with he | ⟨hf, -⟩
    · rwa [he] at ho
    · exact isOpen_of_inFlight hf
  · rw [inFlight_cut] at hf
    cases hf
  · rcases hcut c with he | ⟨hf, he⟩
    · rw [he]
      exact hok
    · have hnone := h.adrift_eq_none hc hf
      rw [he]
      intro cm hcm
      rw [hnone] at hcm
      cases hcm
  · rcases hcut c with he | ⟨-, he⟩
    · rw [he]
      exact ht
    · intro r hr
      rw [he] at hr
      cases hr
  · rw [inFlight_cut] at hf
    cases hf
  · exact ⟨rfl, inFlight_cut c⟩

theorem Inv.step {e : Event} (h : Inv w) (hk : e.Apart w) : Inv (step w e) := by
  cases e with
  | act a => exact h.act hk
  | land i => exact h.land i
  | resolve i saved reply =>
    rw [Interaction.step]
    split
    · next c hc =>
      split
      · next p cm hp =>
        split
        · next hs => exact h.resume hc hp hs reply
        · exact h
      · exact h
    · exact h
  | settle i result now => exact h.settle i result now
  | fail => exact h.fail
  | recover i => exact h.recover i
  | reopen => exact h.reopen
  | restart => exact h.restart

/-! ## Runs -/

/-- Every act of the run meets the condition in the world it comes to. -/
def RunApart : World → List Event → Prop
  | _, [] => True
  | w, e :: events => e.Apart w ∧ RunApart (step w e) events

theorem Inv.run {events : List Event} (h : Inv w) (hk : RunApart w events) :
    Inv (run w events) := by
  induction events generalizing w with
  | nil => exact h
  | cons e events ih => exact ih (h.step hk.1) hk.2

/-! ## One dispatch of an action -/

/-- A dispatched action is recorded. -/
theorem Inv.isSome_of_dispatched (h : Inv w) {d : Dispatch} (hd : d ∈ w.dispatches) :
    ∃ r, w.actions.get? d.actionId = some r := by
  cases hg : w.actions.get? d.actionId with
  | some r => exact ⟨r, rfl⟩
  | none =>
    have hm : d ∈ w.sent d.actionId := List.mem_filter.mpr ⟨hd, by simp⟩
    rw [h.sent_eq_nil hg] at hm
    cases hm

/-- A call in flight for a dispatched action is the one that dispatched it. -/
theorem Inv.call_eq_of_inFlight (h : Inv w) {d : Dispatch} (hd : d ∈ w.dispatches)
    (hc : w.calls[i]? = some c) (he : c.actionId = d.actionId) (hf : c.inFlight = true) :
    d.call = i := by
  have hm : d ∈ w.sent c.actionId := List.mem_filter.mpr ⟨hd, by simpa using he.symm⟩
  have hok := h.calls i c hc
  unfold Call.Ok at hok
  split at hok
  · next p cm hp =>
    rw [hok.sent, Purpose.sends] at hm
    split at hm
    · rw [List.mem_singleton.mp hm]
      rfl
    · cases hm
  · rw [hok.2.2.2, List.mem_singleton] at hm
    rw [hm]
    rfl
  · next hp1 hp2 =>
    unfold Call.inFlight at hf
    split at hf
    · next hp => exact absurd hp (hp1 _ _)
    · next hp => exact absurd hp (hp2 _)
    · cases hf

/-- `a` is answered without a dispatch: with the recorded outcome or with a conflict, when the
request is well formed, its sender may act and the ledger can be read. -/
def AnsweredFromRecord (w : World) (a : Ask) : Prop :=
  ∃ answer, w.act a = { w with calls := w.calls ++ [⟨a.request, .returned answer, none⟩] } ∧
    (validateRequestStructure a.request = none → a.authorized = true → w.available = true →
      ∃ record, w.actions.get? a.actionId = some record ∧
        answer = if record.requestDigest = digest a.request then .receipt (publicReceipt record)
          else .refusal (refusal "payload_conflict"))

theorem answeredFromRecord {a : Ask} {record : Record}
    (hr : w.actions.get? a.actionId = some record) : AnsweredFromRecord w a := by
  have hsome : ∃ answer, a.admission w = some answer := by
    cases ha : a.admission w with
    | some answer => exact ⟨answer, rfl⟩
    | none =>
      have hn := (admitted_of_admission ha).fresh
      rw [hr] at hn
      cases hn
  obtain ⟨answer, ha⟩ := hsome
  refine ⟨answer, ?_, fun hv hauth hav => ⟨record, hr, ?_⟩⟩
  · rw [World.act]
    dsimp only
    rw [ha]
  · have hvalid : (validateRequest a.request a.now).filter (fun e => e ≠ ("expired" : Text)) =
        none := by
      rw [validateRequest, hv]
      dsimp only
      split
      · exact Option.filter_some_neg (decide_eq_false fun hne => hne rfl)
      · rfl
    unfold Ask.admission at ha
    dsimp only at ha
    rw [hvalid, hauth, hav, hr] at ha
    dsimp only [Bool.not_true] at ha
    rw [if_neg (by simp), if_neg (by simp)] at ha
    split at ha
    · next he => rw [if_pos he, ← Option.some.inj ha]
    · next he => rw [if_neg he, ← Option.some.inj ha]

/-- Every action was dispatched at most once, and no other act for a dispatched action is or will be
more than an answer. -/
structure DispatchedOnce (w : World) : Prop where
  once : (w.dispatches.map (·.actionId)).Nodup
  others : ∀ d ∈ w.dispatches, ∀ (i : Nat) (c : Call), w.calls[i]? = some c →
    c.actionId = d.actionId → i ≠ d.call → c.inFlight = false ∧ c.Told w
  later : ∀ d ∈ w.dispatches, ∀ a : Ask, a.actionId = d.actionId → AnsweredFromRecord w a

theorem Inv.dispatchedOnce (h : Inv w) : DispatchedOnce w where
  once := by
    rw [List.nodup_iff_count_le_one]
    intro a
    have hlen : (w.sent a).length ≤ 1 := by
      rcases h.once a with hs | ⟨⟨d, hs⟩, -⟩ <;> rw [hs] <;> simp
    rw [List.count_eq_countP, List.countP_map, List.countP_eq_length_filter]
    rwa [show w.dispatches.filter _ = w.sent a from
      List.filter_congr fun d _ => Bool.eq_iff_iff.mpr (by simp)]
  others d hd i c hc he hne := by
    refine ⟨?_, h.told i c hc⟩
    cases hf : c.inFlight with
    | false => rfl
    | true => exact absurd (h.call_eq_of_inFlight hd hc he hf).symm hne
  later d hd a ha := by
    obtain ⟨r, hr⟩ := h.isSome_of_dispatched hd
    exact answeredFromRecord (ha ▸ hr)

/-- **An action is dispatched once** in every run in which no act for it gets past the checks while
an act for it and another session is in flight. -/
theorem act_dispatches_once {events : List Event} (h : RunApart .initial events) :
    DispatchedOnce (run .initial events) :=
  (inv_initial.run h).dispatchedOnce

section Example

/-- A key press for the prompt of one session. -/
def plainRequest (actionId sid : Text) : Json :=
  .obj [("schema_version", .num 1), ("action_id", .str actionId),
    ("interaction_request_id", .str "r1"),
    ("identity", .obj [("kind", .str "manual"), ("sid", .str sid)]),
    ("expected", .obj [("sid", .str sid), ("session_epoch", .str "e"),
      ("credential_generation", .num 1), ("owner_generation", .str "g"),
      ("input_generation", .num 0), ("geometry_generation", .num 0), ("prompt_revision", .num 0),
      ("frame_digest", .str (List.replicate 64 '0')), ("surface_id", .str sid),
      ("cols", .num 80), ("rows", .num 24), ("question_id", .str "q")]),
    ("operation", .str "key"), ("value", .str "enter"),
    ("authority", .obj [("provenance", .str "controller-policy"), ("reference", .str "p")]),
    ("expires_at", .num 1000)]

def plainBinding (sid : Text) : Json :=
  .obj [("sid", .str sid), ("session_epoch", .str "e"), ("credential_generation", .num 1),
    ("owner_generation", .str "g"), ("input_generation", .num 0), ("geometry_generation", .num 0),
    ("surface_id", .str sid), ("cols", .num 80), ("rows", .num 24)]

/-- The measured prompt that the request is about. -/
def plainReply (sid : Text) : Reply where
  observation := .obj [("available", .bool true), ("current_frame", .bool true),
    ("provenance", .str "measured-provider"), ("expires_at", .num 1000), ("sid", .str sid),
    ("session_epoch", .str "e"), ("credential_generation", .num 1), ("owner_generation", .str "g"),
    ("input_generation", .num 0), ("geometry_generation", .num 0), ("prompt_revision", .num 0),
    ("frame_digest", .str (List.replicate 64 '0')), ("surface_id", .str sid), ("cols", .num 80),
    ("rows", .num 24), ("question_id", .str "q"), ("supported_operations", .arr [.str "key"]),
    ("mode", .str "selection"), ("routine", .bool true)]
  binding := plainBinding sid
  now := 0

def plainAsk (actionId sid : Text) : Ask :=
  ⟨plainRequest actionId sid, true, true, plainBinding sid, .null, 0⟩

/-- Call `i` has two records committed: `prepared` and `dispatched`. -/
def twoCommits (i : Nat) (sid : Text) : List Event :=
  [.land i, .resolve i .yes (plainReply sid), .land i, .resolve i .yes (plainReply sid)]

/-- One action asked for on two sessions at a time is dispatched twice. -/
theorem dispatched_twice :
    (run .initial (.act (plainAsk "a" "s") :: .act (plainAsk "a" "t") ::
      (twoCommits 0 "s" ++ twoCommits 1 "t"))).dispatches =
      [⟨0, "a", "s"⟩, ⟨1, "a", "t"⟩] := by
  decide +kernel

theorem act_dispatches_once_plain :
    DispatchedOnce (run .initial (.act (plainAsk "a" "s") :: twoCommits 0 "s")) ∧
      (run .initial (.act (plainAsk "a" "s") :: twoCommits 0 "s")).dispatches =
        [⟨0, "a", "s"⟩] :=
  ⟨act_dispatches_once ⟨(fun _ c hc => by cases hc), trivial, trivial, trivial, trivial, trivial⟩,
    by decide +kernel⟩

end Example

end Telepty.Interaction
