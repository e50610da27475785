import Telepty.Ledger.Listing

/-!
# What lasts

A store is created, owners open it, serve, are killed and open it again. What they acknowledged stays
in the log of the disk, each transaction once, and an owner that is available shows of every inject
what the log makes of it.
-/

namespace Telepty.Ledger

open Infra Prog

/-! ## What is shown -/

/-- The record of an inject under the facts about it. -/
def Core.shows (c : Core) (id : Text) : Option Json := (c.records id).map fun r => overlay r c.facts

/-- The record that `getRecord` answers with. -/
def visible (o : Options) (fs : FS) (s : State) (id : Text) : Except Failure (Option Json) :=
  (getRecord o fs s id).map fun answer => answer.toOption.map Prod.fst

section

variable {o : Options} {tok : Text} {sys : Sys} {acts : List Act} {s : State}

/-- The store was just created, and nobody has opened it. -/
structure Created (sys : Sys) (tok : Text) : Prop where
  fresh : FreshStore sys.disk tok
  down : sys.owner = none
  silent : sys.sent = []

theorem Created.sound (h : Created sys tok) : sys.Sound o anyRegime (freshBook tok) :=
  h.fresh.sound h.down h.silent trivial

theorem downward_anyRegime : Downward anyRegime := fun _ _ _ _ => trivial

/-- The disk after a run holds a book of the store, and so does what was posted. -/
theorem Created.rest (h : Created sys tok) (hs : o.env.NoShort) (hf : FairRun o anyRegime sys acts) :
    ∃ b t, Rest o anyRegime (freshBook tok) ((run o sys acts).machine t) b := by
  have hsound := h.sound.run hs downward_anyRegime hf
  unfold Sys.Sound at hsound
  cases hown : (run o sys acts).owner with
  | none =>
    rw [hown] at hsound
    obtain ⟨b, hb⟩ := hsound
    exact ⟨b, _, hb (.initial 0 [] [])⟩
  | some t =>
    rw [hown] at hsound
    obtain ⟨b, hb⟩ := After.rest hsound
    exact ⟨b, t, hb⟩

/-- An owner that is available serves the log of its disk. -/
theorem Created.good (h : Created sys tok) (hs : o.env.NoShort) (hf : FairRun o anyRegime sys acts)
    (hown : (run o sys acts).owner = some s) (havail : s.state = .available) :
    ∃ b gens, (freshBook tok).Grew b ∧
      Good o anyRegime ((run o sys acts).machine s) b gens := by
  have hsound := h.sound.run hs downward_anyRegime hf
  unfold Sys.Sound at hsound
  rw [hown] at hsound
  cases hsound with
  | serves grew good => exact ⟨_, _, grew, good⟩
  | parked rest state => exact absurd havail state

/-! ## Acknowledgements -/

/-- What is known of an id stays known. -/
def Core.Keeps (a b : Core) : Prop := ∀ id, (a.records id).isSome → (b.records id).isSome

theorem ctxKeeps_keeps : CtxKeeps coreCtx Core.Keeps where
  refl _ _ h := h
  trans _ _ _ h h' id hid := h' id (h id hid)
  set c id r j hj := by
    show (if j = id then some r else c.records j).isSome
    split
    · rfl
    · exact hj
  pushFact _ _ _ h := h

theorem Core.Step.keeps {f : Frame} {a b : Core} (h : Core.Step f a b) : a.Keeps b := by
  obtain ⟨e, he⟩ := h.applies
  refine ctxKeeps_keeps.applyFrame (fun action pending _ => ?_) he
  cases pending <;> exact fun _ h => h

/-- A `begin` finds no record of its id, and leaves one. -/
theorem Core.Step.begins {f : Frame} {a b : Core} (h : Core.Step f a b) {id : Text}
    (hid : f.begins = some id) : a.records id = none ∧ (b.records id).isSome := by
  obtain ⟨e, he⟩ := h.applies
  rw [Frame.begins] at hid
  split at hid
  · next body hbody =>
    cases hid
    unfold applyFrame at he
    simp only [hbody] at he
    split at he
    · cases he
    · next hnone =>
      cases he
      refine ⟨Option.not_isSome_iff_eq_none.mp hnone, ?_⟩
      show (if id = id then some _ else _).isSome
      rw [if_pos rfl]
      rfl
  · cases hid

/-- The ids that a log begins are new to what it starts from, and differ. -/
theorem Core.Steps.begins_nodup {log : List Frame} {a c : Core} (h : Core.Steps log a c) :
    (log.filterMap Frame.begins).Nodup ∧ ∀ id ∈ log.filterMap Frame.begins, a.records id = none := by
  induction log generalizing a with
  | nil => exact ⟨List.nodup_nil, fun id hid => absurd hid List.not_mem_nil⟩
  | cons f log ih =>
    obtain ⟨b, hstep, hsteps⟩ := h
    obtain ⟨hnodup, hnew⟩ := ih hsteps
    have hold : ∀ id ∈ log.filterMap Frame.begins, a.records id = none := by
      intro id hid
      cases ha : a.records id with
      | none => rfl
      | some r =>
        have hb := hstep.keeps id (by rw [ha]; rfl)
        rw [hnew id hid] at hb
        cases hb
    cases hf : f.begins with
    | none =>
      rw [List.filterMap_cons_none hf]
      exact ⟨hnodup, hold⟩
    | some id =>
      obtain ⟨hnone, hsome⟩ := hstep.begins hf
      rw [List.filterMap_cons_some hf]
      refine ⟨List.nodup_cons.mpr ⟨fun hid => ?_, hnodup⟩, List.forall_mem_cons.mpr ⟨hnone, hold⟩⟩
      rw [hnew id hid] at hsome
      cases hsome

/-- An owner whose generations can all be read shows what its memory over them means. -/
theorem visible_of_tier {fs : FS} {gens : List Gen} {c : Core} {id : Text}
    (hcold : List.Forall₂ (Stored o.digests fs) s.cold gens)
    (htier : Tier (coreOf s) c (coldAll gens)) (hr : ∀ g ∈ s.cold, g.offline = false)
    (hid : id ≠ []) : visible o fs s id = .ok (c.shows id) := by
  have hfacts : c.facts = s.facts := htier.facts
  unfold visible
  cases hhot : s.hot.get? id with
  | some r =>
    rw [getRecord_hot hid hhot, Core.shows, htier.of_hot (a := coreOf s) hhot, hfacts]
    rfl
  | none =>
    have hrecord : c.records id = coldAll gens id := htier.of_not_hot hhot
    rw [getRecord, if_neg hid, hhot, Core.shows, hrecord, hfacts]
    dsimp only
    rw [coldLookup_of_resident hcold hr]
    cases coldAll gens id with
    | some r => rfl
    | none =>
      have hoff : coldOfflineHas o s id = false := by
        rw [coldOfflineHas, List.any_eq_false]
        intro g hg
        simp [hr g hg]
      dsimp only [Bind.bind, Except.bind]
      rw [hoff]
      rfl

theorem FairRun.concat {I : Regime} {act : Act} (hf : FairRun o I sys acts)
    (h : act.Fair o I (run o sys acts)) : FairRun o I sys (acts ++ [act]) := by
  induction acts generalizing sys with
  | nil => exact ⟨h, trivial⟩
  | cons first acts ih => exact ⟨hf.1, ih hf.2 h⟩

end

/-! ## One run -/

/-- The options of the examples. -/
def sampleOptions : Options := defaultOptions plainEnv

theorem sampleOptions_calm : sampleOptions.env.Calm := fun _ => Or.inl rfl

theorem freshSys_created : Created freshSys "T" := ⟨freshDisk_fresh "T", rfl, rfl⟩

set_option maxRecDepth 100000 in
theorem demotedOnce_fairRun : FairRun sampleOptions anyRegime freshSys demotedOnce := by
  obtain ⟨hready, hbegin, hserved⟩ :
      copyReady sampleOptions.digests freshSys.disk = true ∧
        beginReady sampleOptions (step sampleOptions freshSys (.start 7 "T" [])) = true ∧
        beginServed (run sampleOptions freshSys [.start 7 "T" [], .send (.submit beginA)]) = true := by
    decide +kernel
  exact demotedOnce_fair sampleOptions_calm hready hbegin hserved

/-- The message acknowledges a transaction as committed. -/
def Post.acknowledges : Post → Bool
  | .ack a => a.result = "committed"
  | _ => false

/-- The daemon is killed after the demotion. -/
def demotedKilled : List Act := demotedOnce ++ [.crash]

theorem demotedKilled_fairRun : FairRun sampleOptions anyRegime freshSys demotedKilled :=
  demotedOnce_fairRun.concat trivial

end Telepty.Ledger
