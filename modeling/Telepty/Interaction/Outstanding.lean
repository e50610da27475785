import Telepty.Interaction.Dispatch
import Telepty.Ledger.Core

/-!
# One outstanding effect of a session

With action ids that are used once each, no two calls are ever of the same action, so every run is
one to which the invariant applies. What it says at the moment of a dispatch: the stage
`dispatched` of its action is committed, no other dispatch to its session is under way, and no other
action of its session stands in the ledger as dispatched or as of unknown outcome.

The committed records are `iact` frames of the ledger. A replay of these frames leads to the actions
that `readLedger` answers, which is why a restart leaves them as they are.
-/

namespace Telepty.Interaction

open Infra

variable {w : World} {e : Event} {events : List Event}

/-! ## Action ids that are used once -/

def Event.actionId? : Event → Option Text
  | .act a => some a.actionId
  | _ => none

theorem map_actionId_set {l : List Call} {i : Nat} {c c' : Call} (hc : l[i]? = some c)
    (hreq : c'.request = c.request) : (l.set i c').map Call.actionId = l.map Call.actionId := by
  obtain ⟨hi, rfl⟩ := List.getElem?_eq_some_iff.mp hc
  have hact : c'.actionId = l[i].actionId := by rw [Call.actionId, hreq, Call.actionId]
  rw [List.map_set, hact]
  exact List.ext_getElem (by simp) fun j h1 h2 => by
    rw [List.getElem_set]
    split
    · next hij => subst hij; simp
    · rfl

/-- The calls are those of the acts so far. -/
theorem map_actionId_step (w : World) (e : Event) :
    (step w e).calls.map Call.actionId = w.calls.map Call.actionId ++ e.actionId?.toList := by
  cases e with
  | act a =>
    rw [step, World.act]
    dsimp only
    split
    · rw [List.map_append]; rfl
    · split <;> rw [List.map_append] <;> rfl
  | land i =>
    rw [step]
    refine Eq.trans ?_ (List.append_nil _).symm
    split
    · next c hc =>
      split
      · split
        · exact map_actionId_set hc rfl
        · rfl
      · rfl
    · rfl
  | resolve i saved reply =>
    rw [step]
    refine Eq.trans ?_ (List.append_nil _).symm
    split
    · next c hc =>
      split
      · split
        · unfold World.resume
          split
          · split <;> exact map_actionId_set hc rfl
          all_goals exact map_actionId_set hc rfl
        · rfl
      · rfl
    · rfl
  | settle i result now =>
    rw [step]
    refine Eq.trans ?_ (List.append_nil _).symm
    split
    · next c hc =>
      split
      · exact map_actionId_set hc rfl
      · rfl
    · rfl
  | recover i =>
    rw [step]
    refine Eq.trans ?_ (List.append_nil _).symm
    split
    · next c hc =>
      split
      · split
        · rfl
        · exact map_actionId_set hc rfl
      · rfl
    · rfl
  | fail => exact (List.append_nil _).symm
  | reopen =>
    rw [step]
    refine Eq.trans ?_ (List.append_nil _).symm
    rw [List.map_map]
    rfl
  | restart =>
    rw [step]
    refine Eq.trans ?_ (List.append_nil _).symm
    rw [List.map_map]
    exact List.map_congr_left fun c _ => by
      rw [Function.comp_apply, Call.cut]
      split <;> rfl

theorem runApart_of_nodup
    (h : (w.calls.map Call.actionId ++ events.filterMap Event.actionId?).Nodup) :
    RunApart w events := by
  induction events generalizing w with
  | nil => trivial
  | cons e events ih =>
    have hids : (e :: events).filterMap Event.actionId? =
        e.actionId?.toList ++ events.filterMap Event.actionId? := by
      rw [List.filterMap_cons]
      cases e.actionId? <;> rfl
    rw [hids, ← List.append_assoc, ← map_actionId_step] at h
    refine ⟨?_, ih h⟩
    cases e with
    | act a =>
      intro _ c hc _ he
      have hn := h.of_append_left
      rw [map_actionId_step, List.nodup_append] at hn
      exact absurd he (hn.2.2 c.actionId (List.mem_map_of_mem hc) a.actionId List.mem_cons_self)
    | _ => trivial

/-! ## The moment of a dispatch -/

/-- A dispatch is called in the run that follows the commit of `dispatched`, and nowhere else. -/
theorem dispatches_step (w : World) (e : Event) : (step w e).dispatches = w.dispatches ∨
    ∃ (i : Nat) (c : Call) (cm : Commit), w.calls[i]? = some c ∧ c.phase = .committing .dispatch cm ∧ cm.landed = true ∧
      (step w e).dispatches = w.dispatches ++ [c.dispatch i] := by
  cases e with
  | act a =>
    left
    rw [step, World.act]
    dsimp only
    split
    · rfl
    · split <;> rfl
  | resolve i saved reply =>
    rw [step]
    split
    · next c hc =>
      split
      · next p cm hp =>
        split
        · next hs =>
          unfold World.resume
          split
          · left
            split <;> rfl
          · exact .inl rfl
          · exact .inl rfl
          · exact .inr ⟨i, c, cm, hc, hp, hs, rfl⟩
          · exact .inl rfl
          · exact .inl rfl
        · exact .inl rfl
      · exact .inl rfl
    · exact .inl rfl
  | land i =>
    left
    rw [step]
    split
    · split
      · split <;> rfl
      · rfl
    · rfl
  | settle i result now =>
    left
    rw [step]
    split
    · split <;> rfl
    · rfl
  | recover i =>
    left
    rw [step]
    split
    · split
      · split <;> rfl
      · rfl
    · rfl
  | _ => exact .inl rfl

/-- What holds when a dispatch is called. -/
structure Clear (w : World) (d : Dispatch) : Prop where
  committed : ∃ r ∈ w.committed, r.actionId = d.actionId ∧ r.stage = .dispatched
  idle : ∀ c ∈ w.calls, c.sid = d.sid → ∀ r, c.phase ≠ .dispatching r
  certain : ∀ a r, w.actions.get? a = some r → r.sid = d.sid → a ≠ d.actionId → ¬ r.Uncertain

theorem Inv.clear (h : Inv w) {d : Dispatch}
    (hd : (Interaction.step w e).dispatches = w.dispatches ++ [d]) : Clear w d := by
  rcases dispatches_step w e with he | ⟨i, c, cm, hc, hp, hl, he⟩
  · rw [he] at hd
    have hlen := congrArg List.length hd
    simp at hlen
  · rw [he] at hd
    have hdc : c.dispatch i = d := by simpa using List.append_cancel_left hd
    subst hdc
    have hf : c.inFlight = true := by rw [Call.inFlight, hp]
    have hok := h.calls i c hc
    unfold Call.Ok at hok
    rw [hp] at hok
    refine ⟨⟨cm.record, hok.kept hl, hok.owns.1, ?_⟩, ?_, ?_⟩
    · exact congrArg Prod.fst (show cm.record.entry = _ from hok.fits)
    · intro c' hc' hs r hr
      obtain ⟨j, hj⟩ := List.getElem?_of_mem hc'
      have hf' : c'.inFlight = true := by rw [Call.inFlight, hr]
      have hij := h.apart i j c c' hc hj (isOpen_of_inFlight hf) (isOpen_of_inFlight hf')
        (.inl hs.symm)
      rw [← hij, hc] at hj
      cases hj
      rw [hp] at hr
      cases hr
    · exact h.certain i c hc hf

/-! ## The frames of the committed records -/

def Stage.text : Stage → Text
  | .prepared => "prepared"
  | .refused => "refused"
  | .dispatched => "dispatched"
  | .written => "written"
  | .outcomeUnknown => "outcome_unknown"

def Record.toJson (r : Record) : Json :=
  let text (t : Option Text) : Json := t.elim .null .str
  .obj [("action_id", .str r.actionId), ("request_digest", .str r.requestDigest),
    ("interaction_request_id", .str r.interactionRequestId), ("sid", .str r.sid),
    ("request", r.request), ("pending_inject_id", text r.pendingInjectId),
    ("stage", .str r.stage.text), ("reason", text r.reason), ("terminal", .bool r.terminal),
    ("bytes_written", r.bytesWritten.elim .null fun n => .num n),
    ("receipt_seq", .num r.receiptSeq), ("updated_at", .num r.updatedAt)]

/-- The frame of a record, as the ledger was given it. -/
def FrameOf (f : Ledger.Frame) (r : Record) : Prop := ∃ pending, f.body = .iact r.toJson pending

/-- The actions after a list of frames. -/
theorem replay_frames {fs : List Ledger.Frame} {rs : List Record} (h : List.Forall₂ FrameOf fs rs)
    (core : Ledger.Core) : ∃ core', fs.foldlM (fun c f =>
        (Ledger.applyFrame Ledger.coreCtx f c).map Prod.fst) core = .ok core' ∧
      ∀ a, core'.actions a = (((rs.filter (·.actionId = a)).getLast?).map Record.toJson).or
        (core.actions a) := by
  induction h generalizing core with
  | nil => exact ⟨core, rfl, fun a => rfl⟩
  | @cons f r fs rs hf _ ih =>
    obtain ⟨pending, hf⟩ := hf
    obtain ⟨core', hrun, hacts⟩ := ih (core.setAction r.toJson pending)
    refine ⟨core', ?_, fun a => ?_⟩
    · rw [List.foldlM_cons, Ledger.applyFrame, hf]
      exact hrun
    · rw [hacts a, List.filter_cons]
      have hset : ∀ k, (core.setAction r.toJson pending).actions k =
          if k = r.toJson.textField "action_id" then some r.toJson else core.actions k :=
        fun k => rfl
      rw [hset, show r.toJson.textField "action_id" = r.actionId from rfl]
      by_cases ha : a = r.actionId
      · rw [if_pos ha, if_pos (by simpa using ha.symm), List.getLast?_cons]
        cases (rs.filter (·.actionId = a)).getLast? <;> rfl
      · rw [if_neg ha, if_neg (by simpa using Ne.symm ha)]

/-- **What a replay of the ledger restores is what the core had read from it.** -/
theorem Inv.replayed (h : Inv w) {fs : List Ledger.Frame}
    (hf : List.Forall₂ FrameOf fs w.committed) : ∃ core, fs.foldlM (fun c f =>
        (Ledger.applyFrame Ledger.coreCtx f c).map Prod.fst) Ledger.Core.empty = .ok core ∧
      ∀ a, core.actions a = (w.actions.get? a).map Record.toJson := by
  obtain ⟨core, hrun, hacts⟩ := replay_frames hf Ledger.Core.empty
  refine ⟨core, hrun, fun a => ?_⟩
  rw [hacts a, h.stored a]
  exact Option.or_none

/-! ## The stages of an action -/

/-- The stages of a course are the beginning of one of four lines. -/
theorem Course.along_line {l : List (Stage × Nat)} (h : Course l) :
    l.map Prod.fst <+: [.prepared, .refused] ∨
      ∃ s, (s = .written ∨ s = .refused ∨ s = .outcomeUnknown) ∧
        l.map Prod.fst <+: [.prepared, .dispatched, s] := by
  cases h with
  | nil => exact .inl (List.nil_prefix)
  | prepared => exact .inl ⟨[.refused], rfl⟩
  | refused => exact .inl ⟨[], rfl⟩
  | dispatched => exact .inr ⟨.written, .inl rfl, [.written], rfl⟩
  | finished s hs => exact .inr ⟨s, hs, [], rfl⟩

theorem Course.increasing {l : List (Stage × Nat)} (h : Course l) :
    (l.map Prod.snd).Pairwise (· < ·) := by
  cases h <;> simp

/-- **One outstanding effect of a session, and the stages of every action**, in every run of acts
with distinct action ids. -/
theorem one_outstanding_effect (h : (events.filterMap Event.actionId?).Nodup) :
    (∀ e d, (step (run .initial events) e).dispatches = (run .initial events).dispatches ++ [d] →
      Clear (run .initial events) d) ∧
    ∀ a, (((run .initial events).recorded a).map Record.stage <+: [.prepared, .refused] ∨
        ∃ s, (s = .written ∨ s = .refused ∨ s = .outcomeUnknown) ∧
          ((run .initial events).recorded a).map Record.stage <+: [.prepared, .dispatched, s]) ∧
      (((run .initial events).recorded a).map Record.receiptSeq).Pairwise (· < ·) := by
  have hinv : Inv (run .initial events) := inv_initial.run (runApart_of_nodup h)
  refine ⟨fun e d hd => hinv.clear hd, fun a => ⟨?_, ?_⟩⟩
  · have hp := (hinv.course a).along_line
    rw [World.history, List.map_map] at hp
    exact hp
  · have hi := (hinv.course a).increasing
    rw [World.history, List.map_map] at hi
    exact hi

/-- An act that is dispatched and whose dispatch then fails with an exception. -/
theorem one_outstanding_effect_thrown :
    (((run .initial (.act (plainAsk "a" "s") :: (twoCommits 0 "s" ++
        [.settle 0 .thrown 0, .land 0]))).recorded "a").map Record.stage =
      [.prepared, .dispatched, .outcomeUnknown]) ∧
    (((run .initial (.act (plainAsk "a" "s") :: (twoCommits 0 "s" ++
        [.settle 0 .thrown 0, .land 0]))).recorded "a").map Record.receiptSeq).Pairwise (· < ·) :=
  ⟨by decide +kernel, ((one_outstanding_effect (by decide)).2 "a").2⟩

/-- **A restart reads back what the core had**, in every run of acts with distinct action ids: the
frames of what was committed, replayed from nothing, give each action its last record. -/
theorem replay_restores (h : (events.filterMap Event.actionId?).Nodup) {fs : List Ledger.Frame}
    (hf : List.Forall₂ FrameOf fs (run .initial events).committed) : ∃ core, fs.foldlM (fun c f =>
        (Ledger.applyFrame Ledger.coreCtx f c).map Prod.fst) Ledger.Core.empty = .ok core ∧
      ∀ a, core.actions a = ((run .initial events).actions.get? a).map Record.toJson :=
  (inv_initial.run (runApart_of_nodup h)).replayed hf

def thrownRun : World :=
  run .initial (.act (plainAsk "a" "s") :: (twoCommits 0 "s" ++ [.settle 0 .thrown 0, .land 0]))

theorem replay_restores_thrown : ∃ core, (thrownRun.committed.map fun r =>
        (⟨1, 1, [], .iact r.toJson none⟩ : Ledger.Frame)).foldlM (fun c f =>
        (Ledger.applyFrame Ledger.coreCtx f c).map Prod.fst) Ledger.Core.empty = .ok core ∧
    ∀ a, core.actions a = (thrownRun.actions.get? a).map Record.toJson :=
  replay_restores (by decide) (List.forall₂_map_left_iff.mpr (List.forall₂_same.mpr fun _ _ =>
    ⟨none, rfl⟩))

end Telepty.Interaction
