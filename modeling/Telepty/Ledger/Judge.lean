import Telepty.Ledger.Cold
import Telepty.Ledger.Core

/-!
# What a submission is judged to be

`judge` is one function with a branch for each kind of submission. `Framed` says once what each
branch has checked when it lets a submission through as a frame, and `judge_framed` that `judge`
lets nothing else through; what the frame does to the memory under the open group follows from that.
-/

namespace Telepty.Ledger

open Infra

/-- `groupCtx(g).get(id)` -/
abbrev inView (s : State) (g : Group) (id : Text) : Option Json := (groupCtx s.hot).get g id

/-- The id that a submission names. -/
abbrev Submit.id (msg : Submit) : Text := msg.delta.textField "id"

/-- What a submission was checked for when it became a frame with this body. -/
inductive Framed (o : Options) (fs : FS) (s : State) (g : Group) (msg : Submit) : FrameBody → Prop
  where
  | begin {record entryAt : Json} (kind : msg.kind = "begin")
      (record_eq : msg.delta.field "record" = some record) (object : record.isObject = true)
      (own : record.textField "inject_id" = msg.id)
      (session : sessionOf record = msg.delta.textField "sid") (new : inView s g msg.id = none)
      (cold : coldLookup o fs s msg.id = .ok none) (room : overCapacity o s record = false) :
      Framed o fs s g msg (.begin msg.id (msg.delta.textField "sid") record
        ((supersededBy s g (msg.delta.textField "sid") msg.id).map fun hid =>
          (hid, supersedeEntry msg.id entryAt)))
  | obs {current : Json} (kind : msg.kind = "obs") (found : inView s g msg.id = some current) :
      Framed o fs s g msg (.obs msg.id ((msg.delta.field "observation").getD .null))
  | state {current : Json} (kind : msg.kind = "state") (found : inView s g msg.id = some current)
      (tracked : current.textField "tracking_state" = "tracked")
      (terminal : msg.delta.textField "tracking_state" ∈ terminalStates) :
      Framed o fs s g msg (.state msg.id (msg.delta.textField "tracking_state")
        ((msg.delta.field "observation").getD .null))
  | fact {scope : Text} {sid : Option Text} {observation : Json} (kind : msg.kind = "fact") :
      Framed o fs s g msg (.fact scope sid observation)
  | reheat {found : Json} (kind : msg.kind = "reheat") (new : inView s g msg.id = none)
      (cold : coldLookup o fs s msg.id = .ok (some found))
      (room : overCapacity o s (foldedAt (groupCtx s.hot) g found ⟨s.epoch, s.seqNext⟩) = false) :
      Framed o fs s g msg
        (.reheat msg.id (foldedAt (groupCtx s.hot) g found ⟨s.epoch, s.seqNext⟩))
  | iact {action : Json} (kind : msg.kind = "iact")
      (action_eq : msg.delta.field "action" = some action) (object : action.isObject = true)
      (keyed : action.textField "action_id" ≠ []) :
      Framed o fs s g msg (.iact action (Frame.truthyObject (msg.delta.field "pending")))

/-- The state of the memory for which a submission changes nothing; with whether the open group is
a part of the reason. -/
inductive Unchanged (o : Options) (fs : FS) (s : State) (g : Group) (msg : Submit) :
    Text → Bool → Prop where
  | exists_ {r : Json} (kind : msg.kind = "begin") (found : inView s g msg.id = some r) :
      Unchanged o fs s g msg "already_exists" (g.overlay.has msg.id)
  | cold {r : Json} (kind : msg.kind = "begin") (new : inView s g msg.id = none)
      (found : coldLookup o fs s msg.id = .ok (some r)) :
      Unchanged o fs s g msg "already_exists" false
  | duplicate {current last : Json} (kind : msg.kind = "obs")
      (found : inView s g msg.id = some current)
      (last_eq : orNull ((overlay current g.facts).field "last_observation") = last)
      (object : last.isObject = true) (same : observationIdentity last
        = observationIdentity ((msg.delta.field "observation").getD .null)) :
      Unchanged o fs s g msg "observation_duplicate" (g.overlay.has msg.id || 0 < g.factsAdded)
  | terminal {current : Json} (kind : msg.kind = "state") (found : inView s g msg.id = some current)
      (terminal : msg.delta.textField "tracking_state" ∈ terminalStates)
      (same : current.textField "tracking_state" = msg.delta.textField "tracking_state") :
      Unchanged o fs s g msg "already_terminal" (g.overlay.has msg.id)
  | hot {r : Json} (kind : msg.kind = "reheat") (found : inView s g msg.id = some r) :
      Unchanged o fs s g msg "already_hot" (g.overlay.has msg.id)

section

variable {o : Options} {fs : FS} {ms : Nat} {s : State} {g : Group} {msg : Submit} {f : Frame}

/-- **What `judge` lets through** is the frame at the next position, and has passed its checks. -/
theorem judge_framed (hj : judge o fs ms s g msg = .ok (.frame f)) :
    f = ⟨s.epoch, s.seqNext, msg.txn, f.body⟩ ∧ Framed o fs s g msg f.body := by
  unfold judge at hj
  by_cases hbegin : msg.kind = "begin"
  · simp only [if_pos hbegin] at hj
    split at hj
    · cases hj
    next hshape =>
    split at hj
    · cases hj
    next hview =>
    cases hc : coldLookup o fs s (msg.delta.textField "id") with
    | error e => rw [hc] at hj; cases hj
    | ok found =>
      simp only [hc, Bind.bind, Except.bind] at hj
      cases found with
      | some r => cases hj
      | none =>
        simp only at hj
        split at hj
        · cases hj
        next hroom =>
        cases hj
        simp only [not_or, ne_eq, Bool.not_eq_false, not_not] at hshape
        cases hr : msg.delta.field "record" with
        | none =>
          rw [hr] at hshape
          exact absurd hshape.2.2.1 (by decide)
        | some record =>
          rw [hr] at hshape hroom
          exact ⟨rfl, .begin hbegin hr hshape.2.2.1 hshape.2.2.2.1 hshape.2.2.2.2
            (Option.not_isSome_iff_eq_none.mp hview) hc (by simpa using hroom)⟩
  simp only [if_neg hbegin] at hj
  by_cases hobs : msg.kind = "obs"
  · simp only [if_pos hobs] at hj
    split at hj
    · cases hj
    split at hj
    · cases hc : coldLookup o fs s (msg.delta.textField "id") with
      | error e => rw [hc] at hj; cases hj
      | ok found =>
        simp only [hc, Bind.bind, Except.bind] at hj
        repeat' split at hj
        all_goals cases hj
    · next current hview =>
      split at hj
      · cases hj
      · cases hj
        exact ⟨rfl, .obs hobs hview⟩
  simp only [if_neg hobs] at hj
  by_cases hstate : msg.kind = "state"
  · simp only [if_pos hstate] at hj
    split at hj
    · cases hj
    next hshape =>
    split at hj
    · cases hc : coldLookup o fs s (msg.delta.textField "id") with
      | error e => rw [hc] at hj; cases hj
      | ok found =>
        simp only [hc, Bind.bind, Except.bind] at hj
        split at hj
        all_goals cases hj
    · next current hview =>
      split at hj
      · cases hj
      split at hj
      · cases hj
      next htracked =>
      cases hj
      simp only [not_or, not_not] at hshape
      exact ⟨rfl, .state hstate hview (not_not.mp htracked) hshape.2.2⟩
  simp only [if_neg hstate] at hj
  by_cases hfact : msg.kind = "fact"
  · simp only [if_pos hfact] at hj
    split at hj
    · cases hj
    · cases hj
      exact ⟨rfl, .fact hfact⟩
  simp only [if_neg hfact] at hj
  by_cases hreheat : msg.kind = "reheat"
  · simp only [if_pos hreheat] at hj
    split at hj
    · cases hj
    split at hj
    · cases hj
    next hview =>
    cases hc : coldLookup o fs s (msg.delta.textField "id") with
    | error e => rw [hc] at hj; cases hj
    | ok found =>
      simp only [hc, Bind.bind, Except.bind] at hj
      cases found with
      | none =>
        simp only at hj
        split at hj
        all_goals cases hj
      | some cold =>
        simp only at hj
        split at hj
        · cases hj
        split at hj
        · cases hj
        next hroom =>
        cases hj
        exact ⟨rfl, .reheat hreheat (Option.not_isSome_iff_eq_none.mp hview) hc (by simpa using hroom)⟩
  simp only [if_neg hreheat] at hj
  by_cases hiact : msg.kind = "iact"
  · simp only [if_pos hiact] at hj
    split at hj
    · cases hj
    next hshape =>
    cases hj
    simp only [not_or, Bool.not_eq_false] at hshape
    cases ha : msg.delta.field "action" with
    | none =>
      rw [ha] at hshape
      exact absurd hshape.1 (by decide)
    | some action =>
      rw [ha] at hshape
      exact ⟨rfl, .iact hiact ha hshape.1 hshape.2⟩
  simp only [if_neg hiact] at hj
  cases hj

/-- **What `judge` leaves unchanged** has a reason in the memory. -/
theorem judge_unchanged {result : Text} {pendingBasis : Bool}
    (hj : judge o fs ms s g msg = .ok (.noop result pendingBasis)) :
    Unchanged o fs s g msg result pendingBasis := by
  unfold judge at hj
  by_cases hbegin : msg.kind = "begin"
  · simp only [if_pos hbegin] at hj
    split at hj
    · cases hj
    split at hj
    · next hview =>
      cases hj
      obtain ⟨r, hr⟩ := Option.isSome_iff_exists.mp hview
      exact .exists_ hbegin hr
    next hview =>
    cases hc : coldLookup o fs s (msg.delta.textField "id") with
    | error e => rw [hc] at hj; cases hj
    | ok found =>
      simp only [hc, Bind.bind, Except.bind] at hj
      cases found with
      | some r =>
        cases hj
        exact .cold hbegin (Option.not_isSome_iff_eq_none.mp hview) hc
      | none =>
        simp only at hj
        split at hj
        all_goals cases hj
  simp only [if_neg hbegin] at hj
  by_cases hobs : msg.kind = "obs"
  · simp only [if_pos hobs] at hj
    split at hj
    · cases hj
    split at hj
    · cases hc : coldLookup o fs s (msg.delta.textField "id") with
      | error e => rw [hc] at hj; cases hj
      | ok found =>
        simp only [hc, Bind.bind, Except.bind] at hj
        repeat' split at hj
        all_goals cases hj
    · next current hview =>
      split at hj
      · next hlast =>
        cases hj
        exact .duplicate hobs hview rfl hlast.1 hlast.2
      · cases hj
  simp only [if_neg hobs] at hj
  by_cases hstate : msg.kind = "state"
  · simp only [if_pos hstate] at hj
    split at hj
    · cases hj
    next hshape =>
    split at hj
    · cases hc : coldLookup o fs s (msg.delta.textField "id") with
      | error e => rw [hc] at hj; cases hj
      | ok found =>
        simp only [hc, Bind.bind, Except.bind] at hj
        split at hj
        all_goals cases hj
    · next current hview =>
      split at hj
      · next hsame =>
        cases hj
        simp only [not_or, not_not] at hshape
        exact .terminal hstate hview hshape.2.2 hsame
      · split at hj
        all_goals cases hj
  simp only [if_neg hstate] at hj
  by_cases hfact : msg.kind = "fact"
  · simp only [if_pos hfact] at hj
    split at hj
    all_goals cases hj
  simp only [if_neg hfact] at hj
  by_cases hreheat : msg.kind = "reheat"
  · simp only [if_pos hreheat] at hj
    split at hj
    · cases hj
    split at hj
    · next hview =>
      cases hj
      obtain ⟨r, hr⟩ := Option.isSome_iff_exists.mp hview
      exact .hot hreheat hr
    cases hc : coldLookup o fs s (msg.delta.textField "id") with
    | error e => rw [hc] at hj; cases hj
    | ok found =>
      simp only [hc, Bind.bind, Except.bind] at hj
      repeat' split at hj
      all_goals cases hj
  simp only [if_neg hreheat] at hj
  repeat' split at hj
  all_goals cases hj

/-- A verdict that nothing changes is told from a committed one. -/
theorem Unchanged.result_ne {result : Text} {pendingBasis : Bool}
    (h : Unchanged o fs s g msg result pendingBasis) : result ≠ "committed" := by
  cases h <;> decide

/-! ## The record that a lookup finds -/

theorem injectId_of_lookupEntries {c : ColdMeta} {id : Text} {es : List IndexEntry} {r : Json}
    (h : lookupEntries fs c id es = .ok (some r)) : injectId r = id := by
  induction es with
  | nil => cases h
  | cons e es ih =>
    rw [lookupEntries] at h
    cases hr : readColdRecord fs c e with
    | error err => rw [hr] at h; cases h
    | ok found =>
      rw [hr] at h
      cases found with
      | none => exact ih h
      | some record =>
        simp only [Bind.bind, Except.bind] at h
        split at h
        · next hid =>
          cases h
          exact hid
        · exact ih h

theorem injectId_of_lookupGenerations {key : Bytes} {id : Text} {cold : List ColdMeta} {r : Json}
    (h : lookupGenerations fs key id cold = .ok (some r)) : injectId r = id := by
  induction cold with
  | nil => cases h
  | cons c cold ih =>
    rw [lookupGenerations] at h
    split at h
    · exact ih h
    · cases hl : lookupEntries fs c id (findIndexEntries c.idIdx key) with
      | error err => rw [hl] at h; cases h
      | ok found =>
        rw [hl] at h
        cases found with
        | none => exact ih h
        | some record =>
          cases h
          exact injectId_of_lookupEntries hl

/-- A cold lookup answers with a record of the id that was asked for. -/
theorem injectId_of_coldLookup {id : Text} {r : Json} (h : coldLookup o fs s id = .ok (some r)) :
    injectId r = id := injectId_of_lookupGenerations h

/-! ## What the frame is -/

/-- The ids that a begin supersedes are in view. -/
theorem isSome_of_mem_supersededBy {sid id hid : Text} (h : hid ∈ supersededBy s g sid id) :
    (inView s g hid).isSome := by
  unfold supersededBy at h
  simp only [List.mem_append, List.mem_filter, List.mem_map] at h
  rcases h with ⟨-, h⟩ | ⟨e, ⟨he, -⟩, rfl⟩
  · simp only [Bool.and_eq_true] at h
    obtain ⟨r, hr, -⟩ := (Option.any_eq_true _ _).mp h.1
    rw [inView, hr]
    rfl
  · have ho : g.overlay.get? e.1 = some e.2 := g.overlay.mem_entries_iff.mp he
    show ((g.overlay.get? e.1).or (s.hot.get? e.1)).isSome
    rw [ho]
    rfl

namespace Framed

theorem kind_eq {b : FrameBody} (h : Framed o fs s g msg b) (e n : Nat) (t : Text) :
    (⟨e, n, t, b⟩ : Frame).kind = msg.kind := by
  cases h <;> exact (by assumption : msg.kind = _).symm

/-- A frame that was let through can be read back, and its record has its id. -/
theorem sound (h : Framed o fs s g msg f.body) : f.Sound := by
  constructor
  · unfold Frame.WellFormed
    cases hb : f.body with
    | iact action pending =>
      rw [hb] at h
      cases h
      cases hp : Frame.truthyObject (msg.delta.field "pending") with
      | none => trivial
      | some p => exact Frame.truthyObject_truthy hp
    | other t => rw [hb] at h; cases h
    | _ => trivial
  · cases hb : f.body with
    | begin id sid record supersede =>
      rw [hb] at h
      cases h with
      | begin kind record_eq object own => exact own
    | reheat id record =>
      rw [hb] at h
      cases h with
      | reheat kind new cold =>
        exact (textField_foldedAt (by decide) _ _ _ _).trans (injectId_of_coldLookup cold)
    | _ => trivial

/-- The id that it begins is neither in view nor in the cold generations that can be read. -/
theorem begins (h : Framed o fs s g msg f.body) {id : Text} (hb : f.begins = some id) :
    inView s g id = none ∧ coldLookup o fs s id = .ok none := by
  unfold Frame.begins at hb
  cases hbody : f.body with
  | begin i sid record supersede =>
    simp only [hbody, Option.some.injEq] at hb
    rw [hbody] at h
    subst hb
    cases h with
    | begin kind record_eq object own session new cold => exact ⟨new, cold⟩
  | _ => simp only [hbody] at hb; cases hb

/-- **The frame is a step of the memory under the open group.** -/
theorem step (h : Framed o fs s g msg f.body) {g' : Group} {effects : List Effect}
    (ha : applyFrame (groupCtx s.hot) f g = .ok (g', effects)) :
    Core.Step f (groupCore s g) (groupCore s g') := by
  refine ⟨⟨effects, (groupCtx_hom s).applyFrame_ok ha⟩, fun id hid => ?_⟩
  rw [groupCore_records]
  unfold Frame.supersedes at hid
  cases hbody : f.body with
  | begin i sid record supersede =>
    simp only [hbody] at hid
    rw [hbody] at h
    cases h
    rw [List.map_map] at hid
    obtain ⟨hid', hm, rfl⟩ := List.mem_map.mp hid
    exact isSome_of_mem_supersededBy hm
  | _ => simp only [hbody] at hid; cases hid

end Framed

end

end Telepty.Ledger
