import Telepty.Ledger.Recovery
import Telepty.Ledger.Group

/-!
# What a log of frames means

`Core` is the memory without its representation: the records by id, the facts, the actions and the
pending interactions. A log means the core that its frames lead to from the empty one. The owner's
memory, the memory under an open group and the memory of a replay are all contexts of `applyFrame`,
and each is mapped to a core by a homomorphism, so what is proved here of cores holds of them.

The owner keeps only a part of the records in memory, the hot ones; the others are cold. `Tier` says
that the whole is the hot part over the cold part, and `Tier.step` that a frame that applies to the
hot part applies to the whole in the same way.
-/

namespace Telepty.Ledger

open Infra

/-! ## Cores -/

structure Core where
  records : Text → Option Json
  facts : List Fact
  actions : Text → Option Json
  pending : Text → Option Json

namespace Core

theorem eq_of {a b : Core} (hr : ∀ id, a.records id = b.records id) (hf : a.facts = b.facts)
    (ha : ∀ k, a.actions k = b.actions k) (hp : ∀ k, a.pending k = b.pending k) : a = b := by
  obtain ⟨records, facts, actions, pending⟩ := a
  rw [Core.mk.injEq]
  exact ⟨funext hr, hf, funext ha, funext hp⟩

def empty : Core := ⟨fun _ => none, [], fun _ => none, fun _ => none⟩

def setRecord (c : Core) (id : Text) (r : Json) : Core :=
  { c with records := fun j => if j = id then some r else c.records j }

def pushFact (c : Core) (f : Fact) : Core := { c with facts := c.facts ++ [f] }

def setAction (c : Core) (action : Json) (pending : Option Json) : Core :=
  { c with
    actions := fun k => if k = action.textField "action_id" then some action else c.actions k
    pending := match pending with
      | some p => fun k => if k = p.textField "inject_id" then some p else c.pending k
      | none => c.pending }

end Core

def coreCtx : FrameCtx Core where
  get c id := c.records id
  set := Core.setRecord
  facts c := c.facts
  pushFact := Core.pushFact
  setAction := Core.setAction

/-! ## Homomorphisms of contexts -/

/-- `φ` carries the operations of one context to those of another. -/
structure CtxHom {κ κ' : Type} (C : FrameCtx κ) (C' : FrameCtx κ') (φ : κ → κ') : Prop where
  get : ∀ c id, C'.get (φ c) id = C.get c id
  set : ∀ c id r, φ (C.set c id r) = C'.set (φ c) id r
  facts : ∀ c, C'.facts (φ c) = C.facts c
  pushFact : ∀ c f, φ (C.pushFact c f) = C'.pushFact (φ c) f
  setAction : ∀ c a p, φ (C.setAction c a p) = C'.setAction (φ c) a p

namespace CtxHom

variable {κ κ' : Type} {C : FrameCtx κ} {C' : FrameCtx κ'} {φ : κ → κ'}

theorem foldedAt (h : CtxHom C C' φ) (c : κ) (r : Json) (p : Pos) :
    foldedAt C' (φ c) r p = foldedAt C c r p := by
  simp only [Ledger.foldedAt, h.facts]

theorem applySupersede (h : CtxHom C C' φ) (p : Pos) (l : List (Text × Json)) (c : κ) :
    applySupersede C' p l (φ c) = (φ (applySupersede C p l c).1, (applySupersede C p l c).2) := by
  induction l generalizing c with
  | nil => rfl
  | cons e l ih =>
    obtain ⟨id, entry⟩ := e
    rw [Ledger.applySupersede, Ledger.applySupersede, h.get]
    cases C.get c id with
    | none => exact ih c
    | some prior => simp only [h.foldedAt, ← h.set, ih]

/-- **A frame commutes with a homomorphism.** -/
theorem applyFrame (h : CtxHom C C' φ) (f : Frame) (c : κ) :
    applyFrame C' f (φ c) = (applyFrame C f c).map fun r => (φ r.1, r.2) := by
  unfold Ledger.applyFrame
  cases f.body with
  | begin id sid record supersede =>
    simp only [h.get, h.applySupersede, ← h.set]
    split <;> rfl
  | obs id observation =>
    simp only [h.get, h.foldedAt]
    cases C.get c id with
    | none => rfl
    | some prior => simp only [← h.set]; rfl
  | state id ts observation =>
    simp only [h.get, h.foldedAt]
    cases C.get c id with
    | none => rfl
    | some prior =>
      simp only [← h.set]
      split
      · rfl
      · split <;> rfl
  | reheat id record => simp only [← h.set]; rfl
  | fact scope sid observation => simp only [← h.pushFact]; rfl
  | iact action pending => simp only [← h.setAction]; rfl
  | other t => rfl

theorem applyFrame_ok (h : CtxHom C C' φ) {f : Frame} {c c' : κ} {e : List Effect}
    (hc : Ledger.applyFrame C f c = .ok (c', e)) :
    Ledger.applyFrame C' f (φ c) = .ok (φ c', e) := by
  rw [h.applyFrame, hc]
  rfl

end CtxHom

/-! ## What a frame leaves alone -/

/-- A relation that the operations of a context respect, the one on actions apart. -/
structure CtxKeeps {κ : Type} (C : FrameCtx κ) (R : κ → κ → Prop) : Prop where
  refl : ∀ c, R c c
  trans : ∀ a b c, R a b → R b c → R a c
  set : ∀ c id r, R c (C.set c id r)
  pushFact : ∀ c f, R c (C.pushFact c f)

namespace CtxKeeps

variable {κ : Type} {C : FrameCtx κ} {R : κ → κ → Prop}

theorem applySupersede (h : CtxKeeps C R) (p : Pos) (l : List (Text × Json)) (c : κ) :
    R c (applySupersede C p l c).1 := by
  induction l generalizing c with
  | nil => exact h.refl c
  | cons e l ih =>
    obtain ⟨id, entry⟩ := e
    rw [Ledger.applySupersede]
    split
    · exact ih c
    · exact h.trans _ _ _ (h.set c id _) (ih _)

/-- **A frame respects it**, when its action does. -/
theorem applyFrame (h : CtxKeeps C R) {f : Frame} {c c' : κ} {e : List Effect}
    (ha : ∀ a p, f.body = .iact a p → R c (C.setAction c a p))
    (hf : Ledger.applyFrame C f c = .ok (c', e)) : R c c' := by
  unfold Ledger.applyFrame at hf
  cases hbody : f.body with
  | begin id sid record supersede =>
    simp only [hbody] at hf
    split at hf
    · cases hf
    · cases hf
      exact h.trans _ _ _ (h.applySupersede f.pos supersede c) (h.set _ id _)
  | obs id observation =>
    simp only [hbody] at hf
    split at hf
    · cases hf
    · cases hf
      exact h.set c id _
  | state id ts observation =>
    simp only [hbody] at hf
    repeat' split at hf
    all_goals first
      | cases hf; exact h.set c id _
      | cases hf
  | reheat id record =>
    simp only [hbody] at hf
    cases hf
    exact h.set c id _
  | fact scope sid observation =>
    simp only [hbody] at hf
    cases hf
    exact h.pushFact c _
  | iact action pending =>
    simp only [hbody] at hf
    cases hf
    exact ha action pending hbody
  | other t =>
    simp only [hbody] at hf
    cases hf

end CtxKeeps

/-! ## The contexts of the owner -/

def coreOf (s : State) : Core := ⟨s.hot.get?, s.facts, s.actions.get?, s.pending.get?⟩

theorem coreOf_setAction (s : State) (a : Json) (p : Option Json) :
    coreOf (s.setAction a p) = (coreOf s).setAction a p := by
  unfold coreOf State.setAction Core.setAction
  cases p with
  | none =>
    simp only [Core.mk.injEq, true_and, and_true]
    exact funext fun k => OrdMap.get?_set _ k
  | some p =>
    simp only [Core.mk.injEq, true_and]
    exact ⟨funext fun k => OrdMap.get?_set _ k, funext fun k => OrdMap.get?_set _ k⟩

/-- The context of replay is the core of the memory. -/
theorem replayCtx_hom : CtxHom replayCtx coreCtx coreOf where
  get _ _ := rfl
  set s id r := by
    simp only [coreCtx, replayCtx, coreOf, Core.setRecord, Core.mk.injEq, and_true]
    exact funext fun j => HotSet.get?_set _ _ _ _
  facts _ := rfl
  pushFact _ _ := rfl
  setAction := coreOf_setAction

def setActions (c : Core) (actions : List (Json × Option Json)) : Core :=
  actions.foldl (fun c a => c.setAction a.1 a.2) c

/-- The memory as it will be when the open group is merged. -/
def groupCore (s : State) (g : Group) : Core :=
  setActions ⟨fun id => (g.overlay.get? id).or (s.hot.get? id), g.facts, s.actions.get?,
    s.pending.get?⟩ g.actions

theorem setActions_records (c : Core) (l : List (Json × Option Json)) :
    (setActions c l).records = c.records := by
  induction l generalizing c with
  | nil => rfl
  | cons a l ih => exact (ih (c.setAction a.1 a.2)).trans rfl

theorem setActions_facts (c : Core) (l : List (Json × Option Json)) :
    (setActions c l).facts = c.facts := by
  induction l generalizing c with
  | nil => rfl
  | cons a l ih => exact (ih (c.setAction a.1 a.2)).trans rfl

/-- Actions and records do not depend on one another. -/
theorem setActions_setRecord (c : Core) (l : List (Json × Option Json)) (id : Text) (r : Json) :
    setActions (c.setRecord id r) l = (setActions c l).setRecord id r := by
  induction l generalizing c with
  | nil => rfl
  | cons a l ih => exact ih (c.setAction a.1 a.2)

theorem setActions_pushFact (c : Core) (l : List (Json × Option Json)) (f : Fact) :
    setActions (c.pushFact f) l = (setActions c l).pushFact f := by
  induction l generalizing c with
  | nil => rfl
  | cons a l ih => exact ih (c.setAction a.1 a.2)

theorem groupCore_records (s : State) (g : Group) (id : Text) :
    (groupCore s g).records id = (g.overlay.get? id).or (s.hot.get? id) := by
  rw [groupCore, setActions_records]

theorem groupCore_facts (s : State) (g : Group) : (groupCore s g).facts = g.facts := by
  rw [groupCore, setActions_facts]

/-- The context of the open group is the core of the memory under the group. -/
theorem groupCtx_hom (s : State) : CtxHom (groupCtx s.hot) coreCtx (groupCore s) where
  get g id := groupCore_records s g id
  set g id r := by
    rw [show coreCtx.set (groupCore s g) id r = (groupCore s g).setRecord id r from rfl, groupCore,
      groupCore, ← setActions_setRecord]
    congr 1
    simp only [groupCtx, Core.setRecord, Core.mk.injEq, and_true]
    funext j
    rw [OrdMap.get?_set]
    split <;> rfl
  facts := groupCore_facts s
  pushFact g f := setActions_pushFact
    ⟨fun id => (g.overlay.get? id).or (s.hot.get? id), g.facts, s.actions.get?, s.pending.get?⟩
    g.actions f
  setAction g a p := by
    rw [groupCore, show ((groupCtx s.hot).setAction g a p).actions = g.actions ++ [(a, p)] from rfl,
      setActions, List.foldl_append]
    rfl

/-- What the merge of the group makes of the memory. -/
theorem coreOf_merged (s : State) (g : Group) : coreOf (merged g s) = groupCore s g := by
  have hmembers : ∀ (ms : List Member) (s : State),
      coreOf (ms.foldl (fun s m => { s with
        appliedPos := s.appliedPos ++ [posKey m.pos]
        txnHash := (s.txnHash.set m.txn m.hash).set (posKey m.pos) m.hash
        receipts := s.receipts.set m.txn ⟨m.pos, m.kind, m.id, .open⟩ }) s) = coreOf s := by
    intro ms
    induction ms with
    | nil => exact fun _ => rfl
    | cons m ms ih => exact fun s => ih _
  have hactions : ∀ (l : List (Json × Option Json)) (s : State),
      coreOf (l.foldl (fun s a => s.setAction a.1 a.2) s) = setActions (coreOf s) l := by
    intro l
    induction l with
    | nil => exact fun _ => rfl
    | cons a l ih =>
      intro s
      rw [List.foldl_cons, ih, coreOf_setAction]
      rfl
  rw [merged, hmembers, hactions, groupCore]
  congr 1
  simp only [coreOf, Core.mk.injEq, and_true]
  funext id
  rw [HotSet.get?_setAll, OrdMap.get?_setAll_entries]
  rfl

/-! ## Steps of a core -/

namespace Frame

/-- The ids whose records a `begin` supersedes. -/
def supersedes (f : Frame) : List Text :=
  match f.body with
  | .begin _ _ _ supersede => supersede.map Prod.fst
  | _ => []

/-- The id that a `begin` creates. -/
def begins (f : Frame) : Option Text :=
  match f.body with
  | .begin id _ _ _ => some id
  | _ => none

end Frame

/-- The frame applies, and finds every record that it supersedes. -/
structure Core.Step (f : Frame) (a b : Core) : Prop where
  applies : ∃ e, applyFrame coreCtx f a = .ok (b, e)
  finds : ∀ id ∈ f.supersedes, (a.records id).isSome

/-- The frames of a list apply one after another. -/
def Core.Steps : List Frame → Core → Core → Prop
  | [], a, b => a = b
  | f :: fs, a, c => ∃ b, Core.Step f a b ∧ Core.Steps fs b c

/-- What a log means. -/
def Core.Means (log : List Frame) (c : Core) : Prop := Core.Steps log .empty c

namespace Core

variable {a b c : Core} {f : Frame} {fs fs' : List Frame}

theorem steps_append : Steps (fs ++ fs') a c ↔ ∃ b, Steps fs a b ∧ Steps fs' b c := by
  induction fs generalizing a with
  | nil => simp [Steps]
  | cons f fs ih =>
    simp only [List.cons_append, Steps, ih]
    constructor
    · rintro ⟨m, hm, b, hb, hc⟩
      exact ⟨b, ⟨m, hm, hb⟩, hc⟩
    · rintro ⟨b, ⟨m, hm, hb⟩, hc⟩
      exact ⟨m, hm, b, hb, hc⟩

theorem steps_concat (h : Steps fs a b) (hf : Step f b c) : Steps (fs ++ [f]) a c :=
  steps_append.mpr ⟨b, h, c, hf, rfl⟩

theorem Step.unique {b' : Core} (h : Step f a b) (h' : Step f a b') : b = b' := by
  obtain ⟨e, he⟩ := h.applies
  obtain ⟨e', he'⟩ := h'.applies
  rw [he] at he'
  cases he'
  rfl

theorem Steps.unique {b' : Core} (h : Steps fs a b) (h' : Steps fs a b') : b = b' := by
  induction fs generalizing a with
  | nil => exact h.symm.trans h'
  | cons f fs ih =>
    obtain ⟨m, hm, hb⟩ := h
    obtain ⟨m', hm', hb'⟩ := h'
    cases hm.unique hm'
    exact ih hb hb'

end Core

/-! ## What a step keeps -/

/-- A text member other than those that observations change. -/
abbrev Untouchable (k : Text) : Prop :=
  k ∉ (["materialized_through", "tracking_state", "observation_seq", "last_observation",
    "observations"] : List Text)

theorem textField_appendObservation {k : Text} (hk : Untouchable k) (r o : Json) :
    (appendObservation r o).textField k = r.textField k := by
  simp only [Untouchable, List.mem_cons, List.not_mem_nil, or_false, not_or] at hk
  rw [appendObservation, Json.textField_set_of_ne _ _ hk.2.2.2.2,
    Json.textField_set_of_ne _ _ hk.2.2.2.1, Json.textField_set_of_ne _ _ hk.2.2.1]

theorem textField_foldFacts {k : Text} (hk : Untouchable k) (r : Json) (facts : List Fact) :
    (foldFacts r facts).textField k = r.textField k := by
  induction facts generalizing r with
  | nil => rfl
  | cons f facts ih => exact (ih _).trans (textField_appendObservation hk r f.observation)

theorem textField_foldedAt {k : Text} (hk : Untouchable k) {κ : Type} (C : FrameCtx κ) (c : κ)
    (r : Json) (p : Pos) : (foldedAt C c r p).textField k = r.textField k := by
  have h := hk
  simp only [Untouchable, List.mem_cons, List.not_mem_nil, or_false, not_or] at h
  rw [foldedAt, materialize, Json.textField_set_of_ne _ _ h.1, textField_foldFacts hk]

theorem textField_set_tracking {k : Text} (hk : Untouchable k) (r v : Json) :
    (r.set "tracking_state" v).textField k = r.textField k := by
  simp only [Untouchable, List.mem_cons, List.not_mem_nil, or_false, not_or] at hk
  exact Json.textField_set_of_ne _ _ hk.2.1

theorem textField_set_through {k : Text} (hk : Untouchable k) (r v : Json) :
    (r.set "materialized_through" v).textField k = r.textField k := by
  simp only [Untouchable, List.mem_cons, List.not_mem_nil, or_false, not_or] at hk
  exact Json.textField_set_of_ne _ _ hk.1

/-- The fact that a frame adds. -/
def Frame.fact? (f : Frame) : Option Fact :=
  match f.body with
  | .fact scope sid observation => some ⟨f.pos, scope, sid, observation⟩
  | _ => none

/-- A frame as the owner makes it: it can be read back, and the record it brings has its id. -/
structure Frame.Sound (f : Frame) : Prop where
  wellFormed : f.WellFormed
  keyed : match f.body with
    | .begin id _ record _ | .reheat id record => record.textField "inject_id" = id
    | _ => True

namespace Core

variable {a b c : Core} {f : Frame} {fs : List Frame}

/-- Every record is stored under its own id. -/
def Keyed (c : Core) : Prop := ∀ id r, c.records id = some r → r.textField "inject_id" = id

/-- What a supersession does to the records: each one there stays, with its untouchable members. -/
theorem applySupersede_records (p : Pos) (l : List (Text × Json)) (c : Core) (id : Text) (r : Json)
    (h : c.records id = some r) : ∃ r', (applySupersede coreCtx p l c).1.records id = some r' ∧
      ∀ k, Untouchable k → r'.textField k = r.textField k := by
  induction l generalizing c r with
  | nil => exact ⟨r, h, fun _ _ => rfl⟩
  | cons e l ih =>
    obtain ⟨id', entry⟩ := e
    rw [applySupersede]
    split
    · exact ih c r h
    · next prior hp =>
      simp only
      by_cases hid : id = id'
      · subst hid
        have hrp : r = prior := Option.some.inj (h.symm.trans hp)
        subst hrp
        obtain ⟨r', hr', hk'⟩ := ih (coreCtx.set c id (appendObservation ((foldedAt coreCtx c r p).set
          "tracking_state" (.str "superseded")) entry)) _ (if_pos rfl)
        exact ⟨r', hr', fun k hk => by
          rw [hk' k hk, textField_appendObservation hk, textField_set_tracking hk,
            textField_foldedAt hk]⟩
      · exact ih _ r ((if_neg hid).trans h)

theorem applySupersede_none (p : Pos) (l : List (Text × Json)) (c : Core) (id : Text)
    (h : c.records id = none) : (applySupersede coreCtx p l c).1.records id = none := by
  induction l generalizing c with
  | nil => exact h
  | cons e l ih =>
    obtain ⟨id', entry⟩ := e
    rw [applySupersede]
    split
    · exact ih c h
    · next prior hp =>
      refine ih _ ?_
      have hid : id ≠ id' := by
        rintro rfl
        have hp' : c.records id = some prior := hp
        rw [h] at hp'
        cases hp'
      exact (if_neg hid).trans h

theorem applySupersede_facts (p : Pos) (l : List (Text × Json)) (c : Core) :
    (applySupersede coreCtx p l c).1.facts = c.facts := by
  induction l generalizing c with
  | nil => rfl
  | cons e l ih =>
    obtain ⟨id', entry⟩ := e
    rw [applySupersede]
    split
    · exact ih c
    · exact (ih _).trans rfl

/-- What a frame does to the records: each one there stays, with its untouchable members unless it
is reheated; one that was not there is the frame's own. -/
theorem Step.records (h : Step f a b) (hf : f.Sound) (id : Text) :
    (∀ r, a.records id = some r → ∃ r', b.records id = some r') ∧
      ∀ r', b.records id = some r' → r'.textField "inject_id" = id ∨
        ∃ r, a.records id = some r ∧ r'.textField "inject_id" = r.textField "inject_id" := by
  have hk : Untouchable "inject_id" := by decide
  have hset : ∀ (c : Core) (i : Text) (x : Json), (i = id → x.textField "inject_id" = id ∨
      ∃ r, a.records id = some r ∧ x.textField "inject_id" = r.textField "inject_id") →
      (∀ r, a.records id = some r → ∃ r', c.records id = some r') →
      (∀ r', c.records id = some r' → r'.textField "inject_id" = id ∨
        ∃ r, a.records id = some r ∧ r'.textField "inject_id" = r.textField "inject_id") →
      (∀ r, a.records id = some r → ∃ r', (c.setRecord i x).records id = some r') ∧
      ∀ r', (c.setRecord i x).records id = some r' → r'.textField "inject_id" = id ∨
        ∃ r, a.records id = some r ∧ r'.textField "inject_id" = r.textField "inject_id" := by
    intro c i x hx h1 h2
    simp only [setRecord]
    by_cases hi : id = i
    · simp only [if_pos hi]
      exact ⟨fun r _ => ⟨x, rfl⟩, fun r' hr' => by cases hr'; exact hx hi.symm⟩
    · simp only [if_neg hi]
      exact ⟨h1, h2⟩
  have hself : ∀ r', a.records id = some r' → r'.textField "inject_id" = id ∨
      ∃ r, a.records id = some r ∧ r'.textField "inject_id" = r.textField "inject_id" :=
    fun r' hr' => .inr ⟨r', hr', rfl⟩
  obtain ⟨e, he⟩ := h.applies
  have hkeyed := hf.keyed
  unfold applyFrame at he
  cases hbody : f.body with
  | begin i sid record supersede =>
    simp only [hbody] at he hkeyed
    split at he
    · cases he
    · cases he
      refine hset _ _ _ (fun hi => .inl ?_) ?_ ?_
      · rw [textField_set_through hk, hkeyed, hi]
      · intro r hr
        obtain ⟨r', hr', -⟩ := applySupersede_records f.pos supersede a id r hr
        exact ⟨r', hr'⟩
      · intro r' hr'
        cases hr : a.records id with
        | none => rw [applySupersede_none _ _ _ _ hr] at hr'; cases hr'
        | some r =>
          obtain ⟨r'', hr'', hk'⟩ := applySupersede_records f.pos supersede a id r hr
          rw [hr'] at hr''
          cases hr''
          exact .inr ⟨r, rfl, hk' _ hk⟩
  | obs i observation =>
    simp only [hbody] at he
    cases hr : coreCtx.get a i with
    | none => rw [hr] at he; cases he
    | some prior =>
      rw [hr] at he
      cases he
      refine hset _ _ _ (fun hi => .inr ⟨prior, ?_, ?_⟩) (fun r hr => ⟨r, hr⟩) hself
      · rw [← hi]; exact hr
      · rw [textField_appendObservation hk, textField_foldedAt hk]
  | state i ts observation =>
    simp only [hbody] at he
    cases hr : coreCtx.get a i with
    | none => rw [hr] at he; cases he
    | some prior =>
      rw [hr] at he
      simp only at he
      split at he
      · cases he
      split at he
      · cases he
      · cases he
        refine hset _ _ _ (fun hi => .inr ⟨prior, ?_, ?_⟩) (fun r hr => ⟨r, hr⟩) hself
        · rw [← hi]; exact hr
        · rw [textField_appendObservation hk, textField_set_tracking hk, textField_foldedAt hk]
  | reheat i record =>
    simp only [hbody] at he hkeyed
    cases he
    refine hset _ _ _ (fun hi => .inl ?_) (fun r hr => ⟨r, hr⟩) hself
    rw [textField_set_through hk, hkeyed, hi]
  | fact scope sid observation =>
    simp only [hbody] at he
    cases he
    exact ⟨fun r hr => ⟨r, hr⟩, hself⟩
  | iact action pending =>
    simp only [hbody] at he
    cases he
    exact ⟨fun r hr => ⟨r, hr⟩, hself⟩
  | other t => simp only [hbody] at he; cases he

theorem Step.keyed (h : Step f a b) (hf : f.Sound) (ha : Keyed a) : Keyed b := by
  intro id r' hr'
  rcases (h.records hf id).2 r' hr' with hi | ⟨r, hr, he⟩
  · exact hi
  · rw [he, ha id r hr]

theorem Steps.keyed (h : Steps fs a b) (hf : ∀ f ∈ fs, f.Sound) (ha : Keyed a) : Keyed b := by
  induction fs generalizing a with
  | nil => cases h; exact ha
  | cons f fs ih =>
    obtain ⟨m, hm, hb⟩ := h
    exact ih hb (fun g hg => hf g (List.mem_cons_of_mem _ hg)) (hm.keyed (hf f List.mem_cons_self) ha)

theorem keyed_empty : Keyed .empty := fun _ _ h => by cases h

/-- Every action and every pending interaction is stored under its own id. -/
structure OwnKeys (c : Core) : Prop where
  actions : ∀ k a, c.actions k = some a → a.textField "action_id" = k
  pending : ∀ k p, c.pending k = some p → p.textField "inject_id" = k

theorem OwnKeys.setAction (h : OwnKeys c) (action : Json) (pending : Option Json) :
    OwnKeys (c.setAction action pending) where
  actions k a ha := by
    simp only [Core.setAction] at ha
    split at ha
    · next hk =>
      cases ha
      exact hk.symm
    · exact h.actions k a ha
  pending k p hp := by
    cases pending with
    | none => exact h.pending k p hp
    | some q =>
      simp only [Core.setAction] at hp
      split at hp
      · next hk =>
        cases hp
        exact hk.symm
      · exact h.pending k p hp

theorem Step.ownKeys (h : Step f a b) (ha : OwnKeys a) : OwnKeys b := by
  obtain ⟨e, he⟩ := h.applies
  have hkeeps : CtxKeeps coreCtx fun a b => OwnKeys a → OwnKeys b :=
    ⟨fun _ => id, fun _ _ _ hab hbc h => hbc (hab h), fun _ _ _ h => ⟨h.actions, h.pending⟩,
      fun _ _ h => ⟨h.actions, h.pending⟩⟩
  exact hkeeps.applyFrame (fun action pending _ h => h.setAction action pending) he ha

theorem Steps.ownKeys (h : Steps fs a b) (ha : OwnKeys a) : OwnKeys b := by
  induction fs generalizing a with
  | nil => cases h; exact ha
  | cons f fs ih =>
    obtain ⟨m, hm, hb⟩ := h
    exact ih hb (hm.ownKeys ha)

/-- The id that a frame begins was not there. -/
theorem Step.begins_fresh (h : Step f a b) {id : Text} (hb : f.begins = some id) :
    a.records id = none := by
  obtain ⟨e, he⟩ := h.applies
  unfold Frame.begins at hb
  unfold applyFrame at he
  cases hbody : f.body with
  | begin i sid record supersede =>
    simp only [hbody, Option.some.injEq] at hb he
    split at he
    · cases he
    · next hn =>
      rw [← hb]
      simpa [coreCtx] using hn
  | _ => simp only [hbody] at hb; cases hb

/-- An id that some frame of a list begins was not there before the first. -/
theorem Steps.begins_fresh (h : Steps fs a b) (hs : ∀ f ∈ fs, f.Sound) (hf : f ∈ fs) {id : Text}
    (hb : f.begins = some id) : a.records id = none := by
  induction fs generalizing a with
  | nil => cases hf
  | cons g fs ih =>
    obtain ⟨m, hm, hfs⟩ := h
    rcases List.mem_cons.mp hf with rfl | hf
    · exact hm.begins_fresh hb
    · have hmid := ih hfs (fun g hg => hs g (List.mem_cons_of_mem _ hg)) hf
      cases hr : a.records id with
      | none => rfl
      | some r =>
        obtain ⟨r', hr'⟩ := (hm.records (hs g List.mem_cons_self) id).1 r hr
        rw [hr'] at hmid
        cases hmid

theorem Step.facts (h : Step f a b) : b.facts = a.facts ++ f.fact?.toList := by
  obtain ⟨e, he⟩ := h.applies
  unfold applyFrame at he
  unfold Frame.fact?
  cases hbody : f.body with
  | begin i sid record supersede =>
    simp only [hbody] at he ⊢
    split at he
    · cases he
    · cases he
      exact (applySupersede_facts _ _ _).trans (List.append_nil _).symm
  | obs i observation =>
    simp only [hbody] at he ⊢
    cases hr : coreCtx.get a i with
    | none => rw [hr] at he; cases he
    | some prior => rw [hr] at he; cases he; exact (List.append_nil _).symm
  | state i ts observation =>
    simp only [hbody] at he ⊢
    cases hr : coreCtx.get a i with
    | none => rw [hr] at he; cases he
    | some prior =>
      rw [hr] at he
      simp only at he
      split at he
      · cases he
      split at he
      · cases he
      · cases he; exact (List.append_nil _).symm
  | reheat i record => simp only [hbody] at he ⊢; cases he; exact (List.append_nil _).symm
  | fact scope sid observation => simp only [hbody] at he ⊢; cases he; rfl
  | iact action pending => simp only [hbody] at he ⊢; cases he; exact (List.append_nil _).symm
  | other t => simp only [hbody] at he; cases he

theorem Steps.facts (h : Steps fs a b) : b.facts = a.facts ++ fs.filterMap Frame.fact? := by
  induction fs generalizing a with
  | nil => cases h; exact (List.append_nil _).symm
  | cons f fs ih =>
    obtain ⟨m, hm, hb⟩ := h
    rw [ih hb, hm.facts, List.append_assoc]
    congr 1
    cases hfact : f.fact? with
    | none => rw [List.filterMap_cons_none hfact]; rfl
    | some x => rw [List.filterMap_cons_some hfact]; rfl

end Core

/-! ## Tiers -/

/-- `whole` is `hot` over the cold records. -/
structure Tier (hot whole : Core) (cold : Text → Option Json) : Prop where
  records : ∀ id, whole.records id = (hot.records id).or (cold id)
  facts : whole.facts = hot.facts
  actions : whole.actions = hot.actions
  pending : whole.pending = hot.pending

namespace Tier

variable {a b a' : Core} {cold : Text → Option Json} {id : Text} {r : Json}

theorem of_hot (h : Tier a b cold) (hr : a.records id = some r) : b.records id = some r := by
  rw [h.records, hr]
  rfl

theorem of_not_hot (h : Tier a b cold) (hr : a.records id = none) : b.records id = cold id := by
  rw [h.records, hr]
  rfl

theorem setRecord (h : Tier a b cold) (id : Text) (r : Json) :
    Tier (a.setRecord id r) (b.setRecord id r) cold where
  records j := by
    simp only [Core.setRecord]
    split
    · rfl
    · exact h.records j
  facts := h.facts
  actions := h.actions
  pending := h.pending

theorem foldedAt_eq (h : Tier a b cold) (r : Json) (p : Pos) :
    foldedAt coreCtx b r p = foldedAt coreCtx a r p := by
  simp only [foldedAt, coreCtx, h.facts]

theorem applySupersede (h : Tier a b cold) (p : Pos) (l : List (Text × Json))
    (hl : ∀ id ∈ l.map Prod.fst, (a.records id).isSome) :
    Tier (Ledger.applySupersede coreCtx p l a).1 (Ledger.applySupersede coreCtx p l b).1 cold ∧
      (Ledger.applySupersede coreCtx p l b).2 = (Ledger.applySupersede coreCtx p l a).2 := by
  induction l generalizing a b with
  | nil => exact ⟨h, rfl⟩
  | cons e l ih =>
    obtain ⟨id, entry⟩ := e
    obtain ⟨prior, hp⟩ := Option.isSome_iff_exists.mp (hl id List.mem_cons_self)
    have ha : coreCtx.get a id = some prior := hp
    have hb : coreCtx.get b id = some prior := h.of_hot hp
    simp only [Ledger.applySupersede, ha, hb, h.foldedAt_eq]
    have hset := h.setRecord id (appendObservation
      ((foldedAt coreCtx a prior p).set "tracking_state" (.str "superseded")) entry)
    obtain ⟨ht, he⟩ := ih hset fun j hj => by
      have hj' := hl j (List.mem_cons_of_mem _ hj)
      simp only [Core.setRecord]
      split
      · rfl
      · exact hj'
    exact ⟨ht, by rw [show coreCtx.set = Core.setRecord from rfl, he]⟩

/-- **A frame that applies to the hot part applies to the whole in the same way**, when the id that
it begins is not cold. -/
theorem step (h : Tier a b cold) {f : Frame} (hcold : ∀ id, f.begins = some id → cold id = none)
    (hf : Core.Step f a a') : ∃ b', Core.Step f b b' ∧ Tier a' b' cold := by
  obtain ⟨e, ha⟩ := hf.applies
  have hfinds : ∀ id ∈ f.supersedes, (b.records id).isSome := by
    intro id hid
    obtain ⟨r, hr⟩ := Option.isSome_iff_exists.mp (hf.finds id hid)
    rw [h.of_hot hr]
    rfl
  suffices hb : ∃ b', applyFrame coreCtx f b = .ok (b', e) ∧ Tier a' b' cold by
    obtain ⟨b', hb, ht⟩ := hb
    exact ⟨b', ⟨⟨e, hb⟩, hfinds⟩, ht⟩
  have hsup := hf.finds
  unfold applyFrame at ha ⊢
  unfold Frame.supersedes at hsup
  unfold Frame.begins at hcold
  cases hbody : f.body with
  | begin id sid record supersede =>
    simp only [hbody] at ha hsup hcold ⊢
    have hg : coreCtx.get a id = a.records id := rfl
    have hg' : coreCtx.get b id = b.records id := rfl
    rw [hg] at ha
    rw [hg']
    split at ha
    · cases ha
    · next hn =>
      obtain ⟨ht, he⟩ := h.applySupersede f.pos supersede hsup
      have hnone : a.records id = none := by simpa using hn
      rw [h.of_not_hot hnone, hcold id rfl]
      cases ha
      refine ⟨_, ?_, ht.setRecord id (record.set "materialized_through" f.pos.toJson)⟩
      simp only [Option.isSome_none, Bool.false_eq_true, if_false, he]
      rfl
  | obs id observation =>
    simp only [hbody] at ha ⊢
    cases hr : coreCtx.get a id with
    | none => rw [hr] at ha; cases ha
    | some prior =>
      have hr' : coreCtx.get b id = some prior := h.of_hot hr
      rw [hr] at ha
      simp only [hr', h.foldedAt_eq]
      cases ha
      exact ⟨_, rfl, h.setRecord _ _⟩
  | state id ts observation =>
    simp only [hbody] at ha ⊢
    cases hr : coreCtx.get a id with
    | none => rw [hr] at ha; cases ha
    | some prior =>
      have hr' : coreCtx.get b id = some prior := h.of_hot hr
      rw [hr] at ha
      simp only [hr', h.foldedAt_eq]
      simp only at ha
      split at ha
      · cases ha
      · next h1 =>
        split at ha
        · cases ha
        · next h2 =>
          rw [if_neg h1, if_neg h2]
          cases ha
          exact ⟨_, rfl, h.setRecord _ _⟩
  | reheat id record =>
    simp only [hbody] at ha ⊢
    cases ha
    exact ⟨_, rfl, h.setRecord _ _⟩
  | fact scope sid observation =>
    simp only [hbody] at ha ⊢
    cases ha
    refine ⟨_, rfl, h.records, ?_, h.actions, h.pending⟩
    simp only [coreCtx, Core.pushFact, h.facts]
  | iact action pending =>
    simp only [hbody] at ha ⊢
    cases ha
    refine ⟨_, rfl, h.records, h.facts, ?_, ?_⟩
    · simp only [coreCtx, Core.setAction, h.actions]
    · simp only [coreCtx, Core.setAction, h.pending]
  | other t => simp only [hbody] at ha; cases ha

/-- Frames that apply to the hot part apply to the whole, when no id that they begin is cold. -/
theorem steps (h : Tier a b cold) {fs : List Frame}
    (hcold : ∀ f ∈ fs, ∀ id, f.begins = some id → cold id = none) (hf : Core.Steps fs a a') :
    ∃ b', Core.Steps fs b b' ∧ Tier a' b' cold := by
  induction fs generalizing a b with
  | nil =>
    cases hf
    exact ⟨b, rfl, h⟩
  | cons f fs ih =>
    obtain ⟨m, hm, hfs⟩ := hf
    obtain ⟨m', hm', ht⟩ := h.step (hcold f List.mem_cons_self) hm
    obtain ⟨b', hb', ht'⟩ := ih ht (fun g hg => hcold g (List.mem_cons_of_mem _ hg)) hfs
    exact ⟨b', ⟨m', hm', hb'⟩, ht'⟩

end Tier

/-- `a` is a part of `b`: the same facts and actions, and some of the records. -/
def Core.Sub (a b : Core) : Prop := Tier a b b.records

theorem Tier.sub {a b : Core} {cold : Text → Option Json} (h : Tier a b cold) : a.Sub b where
  records id := by
    cases hr : a.records id with
    | none => rfl
    | some r => exact h.of_hot hr
  facts := h.facts
  actions := h.actions
  pending := h.pending

theorem Core.Sub.refl (a : Core) : a.Sub a where
  records id := by cases a.records id <;> rfl
  facts := rfl
  actions := rfl
  pending := rfl

theorem Core.Sub.of_some {a b : Core} (h : a.Sub b) {id : Text} {r : Json}
    (hr : a.records id = some r) : b.records id = some r := Tier.of_hot h hr

theorem Core.Sub.trans {a b c : Core} (h : a.Sub b) (h' : b.Sub c) : a.Sub c where
  records id := by
    cases hr : a.records id with
    | none => rfl
    | some r => exact h'.of_some (h.of_some hr)
  facts := h'.facts.trans h.facts
  actions := h'.actions.trans h.actions
  pending := h'.pending.trans h.pending

/-- Frames that apply to a part apply to what it is a part of, when that knows none of the ids that
they begin. -/
theorem Core.Sub.steps {a b a' : Core} (h : a.Sub b) {fs : List Frame}
    (hfresh : ∀ f ∈ fs, ∀ id, f.begins = some id → b.records id = none)
    (hf : Core.Steps fs a a') : ∃ b', Core.Steps fs b b' ∧ a'.Sub b' := by
  obtain ⟨b', hb', ht⟩ := Tier.steps h hfresh hf
  exact ⟨b', hb', ht.sub⟩

end Telepty.Ledger
