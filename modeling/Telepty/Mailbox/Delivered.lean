import Telepty.Mailbox.Engine

/-!
# Delivered messages

An acknowledged message is delivered for good as long as its rows stay: an enqueue of the same id is
a duplicate and the engine does not call `deliverFn` for it. The compaction drops the rows of an
acknowledged message, a purge all rows, and `nack` does not ask whether the message was
acknowledged; each of them opens the way for a second delivery.
-/

namespace Telepty.Mailbox

open Infra

variable {sid : Text} {cfg : Config} {f : Files} {s : Step} {w : World} {e : Event} {id : Text}

def Standing.Acked (st : Standing) : Prop := ∃ r, st.last = some r ∧ r.state = .acked

/-- A step that cannot take the acknowledgement of message `id` away. -/
structure KeepsAck (sid : Text) (cfg : Config) (id : Text) (s : Step) (f : Files) : Prop where
  spare : s.SpareState sid cfg f
  noPurge : s.call ≠ .purge
  noNack : ∀ reason, s.call ≠ .nack id reason
  noCompaction : ¬ s.call.compacts sid cfg s.now f

/-- Nothing but a failure report writes rows of an acknowledged message. -/
theorem Turn.eq_nil_of_acked {now : Int} {st : Standing} {L : Message → Prop} {c : Call}
    {ws : List Write} (h : Turn sid cfg now id st L c ws) (ha : st.Acked)
    (hn : ∀ reason, c ≠ .nack id reason) : ws = [] := by
  obtain ⟨r, hr, hst⟩ := ha
  have hfailed : ¬ Failed cfg now id st c := by
    rintro (⟨reason, hc, -⟩ | ⟨-, r', hr', hst', -⟩)
    · exact hn reason hc
    · rw [hr] at hr'
      cases hr'
      rw [hst] at hst'
      cases hst'
  cases h with
  | quiet => rfl
  | acked hs => exact absurd hst (hs r hr).1
  | retried hc => exact absurd hc hfailed
  | gaveUp hc => exact absurd hc hfailed
  | _ => simp_all

/-- **An acknowledgement stays** over a step that keeps it. -/
theorem Step.acked (hf : f.Sound) (ha : (standing id f.journal).Acked)
    (hk : KeepsAck sid cfg id s f) : (standing id (s.after sid cfg f).journal).Acked := by
  obtain ⟨st, l, hmv, hst, -⟩ := s.moves sid cfg hf.rooted hf.clean hk.spare id
  rw [hst]
  cases hmv with
  | part ht hp hfull =>
    rw [ht.eq_nil_of_acked ha hk.noNack] at hp
    rw [List.prefix_nil.mp hp]
    exact ha
  | compacted pristine ht hc => exact absurd hc hk.noCompaction
  | interrupted ht hc => exact absurd hc hk.noCompaction
  | purged hc => exact absurd hc hk.noPurge
  | halfPurged hc => exact absurd hc hk.noPurge

/-! ## The engine and an acknowledged message -/

/-- `deliverFn` is about to be called for message `id`. -/
def Phase.AboutTo (id : Text) : Phase → Prop
  | .fenced m => m.msgId = id
  | _ => False

instance (id : Text) : (p : Phase) → Decidable (p.AboutTo id)
  | .fenced m => inferInstanceAs (Decidable (m.msgId = id))
  | .idle | .recovered | .swept | .dequeued _ | .unfenced _ | .delivering _ =>
    inferInstanceAs (Decidable False)

theorem begin_flag {now : Int}
    (h : (beginNonRetryableAttempt now id f).1 = .flag true) :
    ∃ r, (standing id f.journal).last = some r ∧ r.state = .inFlight := by
  rw [beginNonRetryableAttempt] at h
  split at h
  · cases h
  · split at h
    · cases h
    · next r hr =>
      split at h
      · cases h
      · next hst => exact ⟨r, by rw [standing_last, hr], not_not.mp hst⟩

/-- The phase becomes `fenced` only after a fence was written behind an in-flight message. -/
theorem Phase.fenced_of_onAnswer {a : Answer} {p : Phase} {m : Message}
    (h : p.onAnswer a = .fenced m) : p = .fenced m ∨ p = .dequeued m ∧ a = .flag true := by
  cases p with
  | swept =>
    unfold onAnswer at h
    dsimp only at h
    split at h <;> cases h
  | dequeued m' =>
    unfold onAnswer at h
    dsimp only at h
    split at h
    · cases h
      exact .inr ⟨rfl, rfl⟩
    · cases h
  | fenced m' => exact .inl h
  | _ => cases h

/-- **While a message is acknowledged, the engine does not come to call `deliverFn` for it.** -/
theorem World.not_aboutTo (ha : (standing id w.files.journal).Acked) (hp : ¬ w.phase.AboutTo id) :
    ¬ (w.step sid cfg e).phase.AboutTo id := by
  obtain ⟨r, hr, hst⟩ := ha
  intro h
  have hphase : ∀ m, (w.phaseAfter sid cfg e) = .fenced m → m.msgId = id → False := by
    intro m hm hid
    have hold : w.phase ≠ .fenced m := fun hw => hp (by rw [hw]; exact hid)
    have hrefused : w.phase.onRefused = .fenced m → False := by
      intro h
      cases hw : w.phase <;> rw [hw] at h <;> cases h
      exact hold hw
    have hfailed : w.phase.onFailed = .fenced m → False := by
      intro h
      cases hw : w.phase <;> rw [hw] at h <;> cases h
      exact hold hw
    cases e with
    | other s dies =>
      rw [phaseAfter] at hm
      split at hm
      · cases hm
      · exact hold hm
    | advance now fate =>
      unfold phaseAfter at hm
      dsimp only at hm
      split at hm
      · next c hc =>
        rcases Phase.fenced_of_onAnswer hm with hm | ⟨hd, hflag⟩
        · exact hold hm
        · rw [hd, Phase.call, Option.some.injEq] at hc
          rw [← hc] at hflag
          obtain ⟨r', hr', hst'⟩ := begin_flag hflag
          rw [hid, hr] at hr'
          cases hr'
          rw [hst] at hst'
          cases hst'
      · cases hm
      · exact hrefused hm
      · exact hfailed hm
      · exact hold hm
    | invoke =>
      rw [phaseAfter] at hm
      split at hm
      · cases hm
      · exact hold hm
    | settle now d fate =>
      rw [phaseAfter] at hm
      split at hm
      · cases hm
      · exact hold hm
    | leave =>
      rw [phaseAfter] at hm
      split at hm <;> first | cases hm | exact hold hm
    | restart => cases hm
  cases hw : (w.step sid cfg e).phase with
  | fenced m =>
    rw [hw] at h
    exact hphase m hw h
  | _ =>
    rw [hw] at h
    exact h

/-- The engine calls `deliverFn` only for the message behind its fence. -/
theorem World.count_invoked (hp : ¬ w.phase.AboutTo id) :
    (w.step sid cfg e).log.count (.invoked id) = w.log.count (.invoked id) := by
  show (w.logAfter sid cfg e).count _ = _
  unfold logAfter
  split
  · next m hm =>
    rw [List.count_cons_of_ne]
    intro h
    rw [hm] at hp
    exact hp (Deed.invoked.inj h)
  · split
    · rfl
    · rw [List.count_cons_of_ne (by simp)]
  · rfl

/-- What holds of a delivered message over a run. -/
structure Delivered (id : Text) (n : Nat) (w : World) : Prop where
  sound : w.files.Sound
  acked : (standing id w.files.journal).Acked
  phase : ¬ w.phase.AboutTo id
  count : w.log.count (.invoked id) = n

theorem Delivered.step {n : Nat} (h : Delivered id n w)
    (hk : ∀ s, w.stepOf e = some s → KeepsAck sid cfg id s w.files) :
    Delivered id n (w.step sid cfg e) where
  sound := World.files_step h.sound fun s hs => s.sound h.sound (hk s hs).spare
  acked := World.files_step (I := fun f => (standing id f.journal).Acked) h.acked fun s hs =>
    s.acked h.sound h.acked (hk s hs)
  phase := World.not_aboutTo h.acked h.phase
  count := (World.count_invoked h.phase).trans h.count

theorem World.sound_run {events : List Event} (hw : w.files.Sound)
    (h : World.Along sid cfg (fun w e => ∀ s, w.stepOf e = some s → s.SpareState sid cfg w.files) w
      events) : (w.run sid cfg events).files.Sound :=
  World.run_induction (I := fun w => w.files.Sound)
    (fun _ _ hf hs => World.files_step hf fun s hst => s.sound hf (hs s hst)) hw h

/-- **A message is delivered at most once per enqueue** while its acknowledgement is kept: after a
run that left it acknowledged, with no call of `deliverFn` for it about to be made, and for as long
as each step keeps the acknowledgement, an enqueue of its id is a duplicate and `deliverFn` is not
called for it. -/
theorem acked_delivered_once (sid : Text) (cfg : Config) (id : Text) (before after : List Event)
    (hb : World.Along sid cfg (fun w e => ∀ s, w.stepOf e = some s → s.SpareState sid cfg w.files)
      .initial before)
    (hst : messageState id (World.initial.run sid cfg before).files = some .acked)
    (hp : ¬ (World.initial.run sid cfg before).phase.AboutTo id)
    (ha : World.Along sid cfg
      (fun w e => ∀ s, w.stepOf e = some s → KeepsAck sid cfg id s w.files)
      (World.initial.run sid cfg before) after) :
    let w := World.initial.run sid cfg before
    let w' := w.run sid cfg after
    (∀ now m, m.msgId = id →
      ∃ n, (perform sid cfg now w'.files (.enqueue m)).1 = .enqueued false n) ∧
    w'.log.count (.invoked id) = w.log.count (.invoked id) := by
  intro w w'
  have hsound := World.sound_run Files.sound_absent hb
  have hw : Delivered id (w.log.count (.invoked id)) w := by
    refine ⟨hsound, ?_, hp, rfl⟩
    rw [messageState_eq hsound.rooted, Option.map_eq_some_iff] at hst
    exact hst
  have hw' : Delivered id (w.log.count (.invoked id)) w' :=
    World.run_induction (fun _ _ h hk => h.step hk) hw ha
  refine ⟨fun now m hid => ?_, hw'.count⟩
  obtain ⟨r, hr, -⟩ := hw'.acked
  have hhas : (loadStates w'.files.journal).has m.msgId = true :=
    (OrdMap.has_iff _).mpr ⟨r, by rw [hid, ← standing_last, hr]⟩
  rw [perform, enqueue, if_pos hhas]
  exact ⟨_, rfl⟩

/-- One tick on a session with one message `m`, delivered. -/
def deliveryEvents : List Event :=
  [.other ⟨5, .enqueue ⟨"m", none, "s", "hi", 5, 0, none⟩, none⟩ false, .advance 5 .performed,
    .advance 5 .performed, .advance 5 .performed, .advance 5 .performed, .invoke,
    .settle 5 (.success .none) .performed]

/-- After a delivery, a second enqueue of the message is a duplicate. -/
theorem acked_delivered_once_plain :
    let w := World.initial.run "s" .default deliveryEvents
    let w' := w.run "s" .default
      [.other ⟨6, .enqueue ⟨"m", none, "s", "again", 6, 0, none⟩, none⟩ false]
    (∀ now m, m.msgId = ("m" : Text) →
      ∃ n, (perform "s" .default now w'.files (.enqueue m)).1 = .enqueued false n) ∧
    w'.log.count (.invoked "m") = w.log.count (.invoked "m") :=
  acked_delivered_once "s" .default "m" deliveryEvents _
    ((World.along_whole (by decide)).mono fun _ _ h s hs => (h s hs).1) (by decide +kernel)
    (by decide +kernel)
    ⟨fun s hs => by
      cases hs
      exact ⟨Step.spareState_of_whole rfl, by simp, by simp, fun ⟨_, h, _⟩ => by cases h⟩, trivial⟩

/-- Whether an enqueue was accepted. -/
def Answer.queued : Answer → Bool
  | .enqueued q _ => q
  | _ => false

/-- **A message can be delivered twice.** With a compaction at the first terminal message, the
acknowledgement drops the message's rows: the next enqueue of the same id is accepted and `deliverFn`
is called again. With the default configuration a failure report after the acknowledgement does
the same. -/
theorem delivered_twice :
    let tick := [Event.advance 9 .performed, .advance 9 .performed, .advance 9 .performed,
      .advance 9 .performed, .invoke]
    let again := Message.mk "m" none "s" "hi" 5 0 none
    let compacted := World.initial.run "s" ⟨3, 1, 86400, 30, 1⟩ deliveryEvents
    let acked := World.initial.run "s" .default deliveryEvents
    compacted.log = [.invoked "m"] ∧
      (perform "s" ⟨3, 1, 86400, 30, 1⟩ 6 compacted.files (.enqueue again)).1.queued = true ∧
      (compacted.run "s" ⟨3, 1, 86400, 30, 1⟩ (.other ⟨6, .enqueue again, none⟩ false :: tick)).log
        = [.invoked "m", .invoked "m"] ∧
      messageState "m" acked.files = some .acked ∧
      (acked.run "s" .default (.other ⟨6, .nack "m" "late", none⟩ false :: tick)).log
        = [.invoked "m", .invoked "m"] := by
  decide +kernel

end Telepty.Mailbox
