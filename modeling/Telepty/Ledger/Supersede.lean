import Telepty.Ledger.Judge
import Telepty.Ledger.Runs

/-!
# What a begin supersedes

The owner decides a supersession from its hot session index and the open group, so a begin
supersedes every tracked inject of its session that one of the two holds. A record of the cold tier
is not looked at: `demoted_stays_tracked` is a run in which one stays tracked.

A superseded record stays superseded whatever else the group takes in, so that is what the commit
of the group merges.
-/

namespace Telepty.Ledger

open Infra Prog

/-! ## The tracking state -/

def trackingState (r : Json) : Text := r.textField "tracking_state"

theorem trackingState_appendObservation (r observation : Json) :
    trackingState (appendObservation r observation) = trackingState r := by
  rw [trackingState, appendObservation, Json.textField_set_of_ne _ _ (by decide),
    Json.textField_set_of_ne _ _ (by decide), Json.textField_set_of_ne _ _ (by decide)]
  rfl

theorem trackingState_foldFacts (r : Json) (facts : List Fact) :
    trackingState (foldFacts r facts) = trackingState r := by
  induction facts generalizing r with
  | nil => rfl
  | cons f facts ih => exact (ih _).trans (trackingState_appendObservation r f.observation)

theorem trackingState_foldedAt {κ : Type} (C : FrameCtx κ) (c : κ) (r : Json) (p : Pos) :
    trackingState (foldedAt C c r p) = trackingState r := by
  rw [foldedAt, materialize, trackingState, Json.textField_set_of_ne _ _ (by decide)]
  exact trackingState_foldFacts r _

theorem trackingState_set (r : Json) (t : Text) :
    trackingState (r.set "tracking_state" (.str t)) = t := Json.textField_set_self _ _ _

/-! ## Superseded records -/

/-- The record of an id is there and superseded. -/
def Core.IsSuperseded (c : Core) (id : Text) : Prop :=
  ∃ r, c.records id = some r ∧ trackingState r = "superseded"

namespace Core

variable {a b c : Core} {id : Text}

theorem IsSuperseded.setRecord (h : c.IsSuperseded id) {i : Text} {r : Json}
    (hr : i = id → trackingState r = "superseded") : (c.setRecord i r).IsSuperseded id := by
  obtain ⟨r₀, hr₀, ht⟩ := h
  by_cases hi : id = i
  · exact ⟨r, if_pos hi, hr hi.symm⟩
  · exact ⟨r₀, (if_neg hi).trans hr₀, ht⟩

/-- A supersession leaves each of its records superseded, and those that are already. -/
theorem superseded_applySupersede (p : Pos) (l : List (Text × Json)) (c : Core)
    (h : c.IsSuperseded id ∨ id ∈ l.map Prod.fst ∧ (c.records id).isSome) :
    (applySupersede coreCtx p l c).1.IsSuperseded id := by
  induction l generalizing c with
  | nil =>
    rcases h with h | ⟨h, -⟩
    · exact h
    · cases h
  | cons e l ih =>
    obtain ⟨id', entry⟩ := e
    rw [applySupersede]
    split
    · next hn =>
      refine ih c ?_
      rcases h with h | ⟨hm, hs⟩
      · exact .inl h
      · rcases List.mem_cons.mp hm with rfl | hm
        · rw [show c.records id = none from hn] at hs
          cases hs
        · exact .inr ⟨hm, hs⟩
    · next prior hp =>
      have hts : trackingState (appendObservation ((foldedAt coreCtx c prior p).set "tracking_state"
          (.str "superseded")) entry) = "superseded" := by
        rw [trackingState_appendObservation, trackingState_set]
      refine ih _ ?_
      by_cases hid : id = id'
      · exact .inl ⟨_, if_pos hid, hts⟩
      · rcases h with h | ⟨hm, hs⟩
        · exact .inl (h.setRecord fun hi => absurd hi.symm hid)
        · refine .inr ⟨(List.mem_cons.mp hm).resolve_left hid, ?_⟩
          rw [show (coreCtx.set c id' _).records id = c.records id from if_neg hid]
          exact hs

/-- **A superseded record stays so** under every frame that does not reheat it. -/
theorem IsSuperseded.applyFrame (h : a.IsSuperseded id) {f : Frame} {e : List Effect}
    (hf : Ledger.applyFrame coreCtx f a = .ok (b, e)) (hr : ∀ record, f.body ≠ .reheat id record) :
    b.IsSuperseded id := by
  obtain ⟨r, hget, hts⟩ := h
  unfold Ledger.applyFrame at hf
  cases hbody : f.body with
  | begin i sid record supersede =>
    simp only [hbody] at hf
    split at hf
    · cases hf
    · next hn =>
      cases hf
      refine (superseded_applySupersede f.pos supersede a (.inl ⟨r, hget, hts⟩)).setRecord fun hi => ?_
      rw [hi, show coreCtx.get a id = a.records id from rfl, hget] at hn
      exact absurd rfl hn
  | obs i observation =>
    simp only [hbody] at hf
    cases hp : coreCtx.get a i with
    | none => rw [hp] at hf; cases hf
    | some prior =>
      rw [hp] at hf
      cases hf
      refine IsSuperseded.setRecord ⟨r, hget, hts⟩ fun hi => ?_
      have hpr : prior = r := by
        rw [hi] at hp
        exact Option.some.inj (hp.symm.trans hget)
      rw [trackingState_appendObservation, trackingState_foldedAt, hpr, hts]
  | state i ts observation =>
    simp only [hbody] at hf
    cases hp : coreCtx.get a i with
    | none => rw [hp] at hf; cases hf
    | some prior =>
      rw [hp] at hf
      simp only at hf
      split at hf
      · cases hf
      next htr =>
      split at hf
      · cases hf
      · cases hf
        refine IsSuperseded.setRecord ⟨r, hget, hts⟩ fun hi => ?_
        have hpr : prior = r := by
          rw [hi] at hp
          exact Option.some.inj (hp.symm.trans hget)
        -- a terminal state is taken by tracked records only
        rw [hpr, not_not, ← trackingState, hts] at htr
        cases htr
  | reheat i record =>
    simp only [hbody] at hf
    cases hf
    refine IsSuperseded.setRecord ⟨r, hget, hts⟩ fun hi => ?_
    rw [hi] at hbody
    exact absurd hbody (hr record)
  | fact scope sid observation =>
    simp only [hbody] at hf
    cases hf
    exact ⟨r, hget, hts⟩
  | iact action pending =>
    simp only [hbody] at hf
    cases hf
    exact ⟨r, hget, hts⟩
  | other t => simp only [hbody] at hf; cases hf

end Core

/-! ## What a begin names -/

/-- Every tracked record of the session that the hot tier or the open group holds is named. -/
theorem mem_supersededBy {s : State} {g : Group} {sid id hid : Text} {r : Json}
    (hr : (groupCtx s.hot).get g hid = some r) (hs : sessionOf r = sid)
    (ht : trackingState r = "tracked") (hne : hid ≠ id) : hid ∈ supersededBy s g sid id := by
  have htr : decide (r.textField "tracking_state" = "tracked") = true := decide_eq_true ht
  have hview : (g.overlay.get? hid).or (s.hot.get? hid) = some r := hr
  unfold supersededBy
  simp only
  generalize hh : List.filter _ (idsOf s.hot.bySession sid) = hot
  rw [List.mem_append]
  cases ho : g.overlay.get? hid with
  | none =>
    rw [ho, Option.none_or] at hview
    rw [← hh]
    refine .inl (List.mem_filter.mpr ⟨HotSet.mem_bySession.mpr ⟨r, hview, hs⟩, ?_⟩)
    simp only [hr, Option.any_some, htr, Bool.true_and, decide_eq_true_eq]
    exact hne
  | some r' =>
    rw [ho, Option.some_or] at hview
    cases hview
    by_cases hhot : hid ∈ hot
    · exact .inl hhot
    · refine .inr (List.mem_map.mpr ⟨(hid, r), List.mem_filter.mpr
        ⟨g.overlay.mem_entries_iff.mpr ho, ?_⟩, rfl⟩)
      simp only [hs, decide_true, htr, Bool.true_and, Bool.and_eq_true, decide_eq_true_eq]
      exact ⟨hne, hhot⟩

section

variable {o : Options} {fs : FS} {ms : Nat} {s : State} {g : Group} {msg : Submit} {f : Frame}

/-- What `judge` lets through as the frame of a begin. -/
theorem judge_begin (hj : judge o fs ms s g msg = .ok (.frame f)) (hk : msg.kind = "begin") :
    ∃ record entry, f.body = .begin (msg.delta.textField "id") (msg.delta.textField "sid") record
      ((supersededBy s g (msg.delta.textField "sid") (msg.delta.textField "id")).map
        fun hid => (hid, entry)) := by
  have hframed := (judge_framed hj).2
  generalize f.body = body at hframed ⊢
  cases hframed with
  | begin => exact ⟨_, _, rfl⟩
  | obs kind | state kind | fact kind | reheat kind | iact kind =>
    rw [hk] at kind
    exact absurd kind (by decide)

/-- A record is reheated only when neither the hot tier nor the open group holds it. -/
theorem judge_reheat (hj : judge o fs ms s g msg = .ok (.frame f)) {id : Text} {record : Json}
    (hb : f.body = .reheat id record) : (groupCtx s.hot).get g id = none := by
  have hframed := (judge_framed hj).2
  rw [hb] at hframed
  cases hframed with
  | reheat kind new => exact new

end

/-! ## The open group -/

/-- What further submissions make of an open group: frames that were judged, and verdicts that
wait for the group. The hot tier stays while the group is open. -/
inductive Takes (o : Options) (hot : HotSet) : Group → Group → Prop where
  | refl (g : Group) : Takes o hot g g
  | frame {g g₁ g₂ : Group} {fs : FS} {ms : Nat} {s : State} {msg : Submit} {f : Frame}
      {effects : List Effect} (size : Nat) (hash : Text) (hs : s.hot = hot)
      (judged : judge o fs ms s g msg = .ok (.frame f))
      (applied : applyFrame (groupCtx hot) f g = .ok (g₁, effects))
      (more : Takes o hot (addFrame msg f size hash g₁ effects) g₂) : Takes o hot g g₂
  | noop {g g₂ : Group} (n : PendingNoop)
      (more : Takes o hot { g with noops := g.noops ++ [n] } g₂) : Takes o hot g g₂

/-- The record of an id is superseded under the open group. -/
def ViewSuperseded (hot : HotSet) (g : Group) (id : Text) : Prop :=
  ∃ r, (groupCtx hot).get g id = some r ∧ trackingState r = "superseded"

theorem viewSuperseded_iff (s : State) (g : Group) (id : Text) :
    ViewSuperseded s.hot g id ↔ (groupCore s g).IsSuperseded id := by
  rw [Core.IsSuperseded, groupCore_records]
  rfl

theorem Takes.keeps {o : Options} {hot : HotSet} {g g₂ : Group} (h : Takes o hot g g₂) {id : Text}
    (hv : ViewSuperseded hot g id) : ViewSuperseded hot g₂ id := by
  induction h with
  | refl g => exact hv
  | frame size hash hs judged applied more ih =>
    subst hs
    next g g₁ g₂ fs ms s msg f effects =>
    refine ih ?_
    have hstep := (groupCtx_hom s).applyFrame_ok applied
    have hsup := ((viewSuperseded_iff s g id).mp hv).applyFrame hstep fun record hb => by
      have hn := judge_reheat judged hb
      obtain ⟨r, hr, -⟩ := hv
      rw [hn] at hr
      cases hr
    exact (viewSuperseded_iff s g₁ id).mpr hsup
  | noop n more ih => exact ih hv

def trackedRecord (id sid : Text) : Json :=
  .obj [("inject_id", .str id), ("session_id", .str sid), ("tracking_state", .str "tracked")]

def beginDelta (id sid : Text) : Json :=
  .obj [("id", .str id), ("sid", .str sid), ("record", trackedRecord id sid)]

/-- An available store that holds the tracked inject `a` of session `s`. -/
def holdingA : State :=
  { State.initial 7 "T" [] with
    state := .available, epoch := 1, hot := HotSet.empty.set "a" (trackedRecord "a" "s") }

def beginB : Submit := ⟨"2", "begin", beginDelta "b" "s"⟩

def beginBFrame : Frame :=
  ⟨1, 1, "2", .begin "b" "s" (trackedRecord "b" "s") [("a", supersedeEntry "b" (.str "0"))]⟩

/-- The open group after the begin of `b`. -/
def groupOfB : Group :=
  match applyFrame (groupCtx holdingA.hot) beginBFrame (newGroup holdingA) with
  | .ok (g, effects) => addFrame beginB beginBFrame 0 [] g effects
  | .error _ => newGroup holdingA

/-- The inject `a` of a session that is not live is demoted before the session's inject `b` begins. -/
def demotedBeforeBegin : List Act :=
  [.start 7 "T" [], .send (.submit ⟨"1", "begin", beginDelta "a" "s"⟩), .send (.compact "q"),
    .send (.submit beginB), .send .flush]

/-- The tracking state and the tier of the record that is read for an id. -/
def shown (o : Options) (sys : Sys) (id : Text) : Option (Text × Text) :=
  sys.owner.bind fun s =>
    match getRecord o sys.disk s id with
    | .ok (.ok (record, tier)) => some (trackingState record, tier)
    | _ => none

end Telepty.Ledger
