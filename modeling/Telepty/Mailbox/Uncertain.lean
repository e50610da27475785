import Telepty.Mailbox.Delivered
import Telepty.Mailbox.Intact

/-!
# Uncertain deliveries

A message is fenced before `deliverFn` is called for it. From then on its standing is *shut*: it is
not dequeued again unless its failure is recorded. An attempt without a recorded result stays behind
its fence until the recovery makes it a dead letter with an unknown outcome, which nothing changes
any more.
-/

namespace Telepty.Mailbox

open Infra

variable {sid : Text} {cfg : Config} {f : Files} {s : Step} {w : World} {e : Event} {id : Text}

/-! ## Shut messages -/

def StateRow.Fenced (r : StateRow) : Prop := r.state = .inFlight ∧ r.mark = .nonRetryableAttempt

/-- A message that is acknowledged, a dead letter, behind its fence, or gone. -/
def Shut (f : Files) (id : Text) : Prop :=
  ((standing id f.journal).last = none ∧ rowsOf id f.messages = []) ∨
    ∃ r, (standing id f.journal).last = some r ∧
      (r.state = .acked ∨ r.state = .deadLetter ∨ r.Fenced)

/-- A message one can report as failed, its standing known. -/
def Reportable (f : Files) (id : Text) : Prop :=
  ∀ r, (standing id f.journal).last = some r → r.state ≠ .acked ∧ ¬ r.Fenced

/-- What keeps a shut message shut: it is not enqueued anew, and a report of its failure finds it
reportable. -/
structure KeepsShut (id : Text) (s : Step) (f : Files) : Prop where
  nack : ∀ reason, s.call = .nack id reason → Reportable f id
  enqueue : ∀ m, s.call = .enqueue m → m.msgId = id → (standing id f.journal).last ≠ none

theorem Shut.not_pending {r : StateRow} (h : Shut f id)
    (hr : (standing id f.journal).last = some r) : r.state ≠ .pending := by
  intro hp
  rcases h with ⟨hn, -⟩ | ⟨r', hr', hst⟩
  · rw [hr] at hn
    cases hn
  · rw [hr] at hr'
    cases hr'
    rcases hst with hst | hst | ⟨hst, -⟩ <;> rw [hp] at hst <;> cases hst

/-- The rows of a turn of a shut message: none, its acknowledgement, or its dead letter. -/
theorem Turn.of_shut {ws : List Write} (hf : f.Intact) (h : Shut f id) (hk : KeepsShut id s f)
    (ht : Turn sid cfg s.now id (standing id f.journal) (IsLatest f id) s.call ws) :
    ∀ w ∈ ws, ∃ r, w = .appendState r ∧ (r.state = .acked ∨ r.state = .deadLetter) := by
  have hstate : ∀ r, (standing id f.journal).last = some r →
      r.state = .acked ∨ r.state = .deadLetter ∨ r.Fenced := by
    intro r hr
    rcases h with ⟨hn, -⟩ | ⟨r', hr', hst⟩
    · rw [hr] at hn
      cases hn
    · rw [hr] at hr'
      cases hr'
      exact hst
  have hfence : ∀ r, (standing id f.journal).last = some r → r.state = .inFlight →
      r.mark = .nonRetryableAttempt := by
    intro r hr hst
    rcases hstate r hr with h | h | h
    · rw [hst] at h
      cases h
    · rw [hst] at h
      cases h
    · exact h.2
  have hpend : ∀ r, (standing id f.journal).last = some r → r.state ≠ .pending :=
    fun r hr => h.not_pending hr
  have hfailed : ∀ m, Failed cfg s.now id (standing id f.journal) s.call → IsLatest f id m →
      False := by
    rintro m (⟨reason, hc, hdead⟩ | ⟨-, r, hr, hst, hmark, -⟩) hm
    · rcases h with ⟨-, hrows⟩ | ⟨r, hr, hst⟩
      · exact rowsOf_ne_nil_of_latestOf (hm.2 hf.inbox) hrows
      · obtain ⟨hna, hnf⟩ := hk.nack reason hc r hr
        rcases hst with hst | hst | hst
        · exact hna hst
        · exact hdead r hr hst
        · exact hnf hst
    · exact hmark (hfence r hr hst)
  have henq := hk.enqueue
  generalize hcall : s.call = c at *
  cases ht with
  | quiet => exact fun w hw => absurd hw List.not_mem_nil
  | enqueued hid hs => exact absurd hs (henq _ rfl hid)
  | dequeued hs hr => exact absurd hr (hpend _ hs)
  | acked hs hrest =>
    intro w hw
    rcases List.mem_cons.mp hw with rfl | hw
    · exact ⟨_, rfl, .inl rfl⟩
    · rcases hrest with rfl | ⟨t, rfl⟩
      · cases hw
      · exact ⟨_, List.mem_singleton.mp hw, .inr rfl⟩
  | retried hc hm => exact (hfailed _ hc hm).elim
  | gaveUp hc hm => exact (hfailed _ hc hm).elim
  | fenced hs hr hm => exact absurd (hfence _ hs hr) hm
  | withdrawn hs hr =>
    intro w hw
    rw [List.mem_singleton.mp hw]
    refine ⟨_, rfl, .inr ?_⟩
    split <;> rfl
  | expired n hs hr hm =>
    rcases hr with hr | hr
    · exact absurd hr (hpend _ hs)
    · exact absurd (hfence _ hs hr) hm
  | lost hs =>
    intro w hw
    exact ⟨_, List.mem_singleton.mp hw, .inr rfl⟩

/-- Rows of settled states leave a message as it was, or settled. -/
theorem Standing.turn_settled (st : Standing) (ws : List Write)
    (h : ∀ w ∈ ws, ∃ r, w = .appendState r ∧ (r.state = .acked ∨ r.state = .deadLetter)) :
    ws = [] ∨ ∃ r, (st.turn ws).last = some r ∧ (r.state = .acked ∨ r.state = .deadLetter) := by
  induction ws generalizing st with
  | nil => exact .inl rfl
  | cons w ws ih =>
    obtain ⟨r, rfl, hr⟩ := h w List.mem_cons_self
    refine .inr ?_
    rcases ih (st.push r) fun x hx => h x (List.mem_cons_of_mem _ hx) with rfl | hex
    · exact ⟨r, rfl, hr⟩
    · exact hex

/-- **A shut message stays shut.** -/
theorem Step.shut (hf : f.Intact) (hs : s.Clean sid cfg f) (h : Shut f id)
    (hk : KeepsShut id s f) : Shut (s.after sid cfg f) id := by
  obtain ⟨st, l, hmv, hst, hrows⟩ := s.moves sid cfg hf.sound.rooted
    hf.sound.clean hs.spareState id
  have hrows := hrows hf.inbox hs.spareInbox
  rw [Shut, hst, hrows]
  -- the standing after rows of the turn, and the inbox rows with it
  have hturn : ∀ {ws pre l}, Turn sid cfg s.now id (standing id f.journal) (IsLatest f id) s.call ws →
      pre <+: ws → (l = rowsOf id f.messages ++ inboxRows pre ∨ l = []) →
      (((standing id f.journal).turn pre).last = none ∧ l = []) ∨
        ∃ r, ((standing id f.journal).turn pre).last = some r ∧
          (r.state = .acked ∨ r.state = .deadLetter ∨ r.Fenced) := by
    intro ws pre l ht hp hl
    have hset := ht.of_shut hf h hk
    rcases (standing id f.journal).turn_settled pre fun w hw => hset w (hp.subset hw)
      with rfl | ⟨r, hr, hst⟩
    · rcases h with ⟨hn, hempty⟩ | hex
      · refine .inl ⟨hn, ?_⟩
        rcases hl with rfl | rfl
        · rw [hempty]
          rfl
        · rfl
      · exact .inr hex
    · exact .inr ⟨r, hr, hst.imp_right .inl⟩
  have hcomp : ∀ {ws}, Turn sid cfg s.now id (standing id f.journal) (IsLatest f id) s.call ws →
      ∀ st, st = (standing id f.journal).turn ws →
      (st.last = none ∧ (if st.kept then rowsOf id f.messages ++ inboxRows ws else []) = []) ∨
        ∃ r, st.last = some r ∧ (r.state = .acked ∨ r.state = .deadLetter ∨ r.Fenced) := by
    rintro ws ht st rfl
    refine hturn ht (List.prefix_refl _) ?_
    split
    · exact .inl rfl
    · exact .inr rfl
  cases hmv with
  | part ht hp hfull => exact hturn ht hp (.inl rfl)
  | compacted pristine ht hc =>
    rw [Standing.compacted]
    split
    · exact hcomp ht _ rfl
    · next hu =>
      rcases hcomp ht _ rfl with ⟨hn, he⟩ | ⟨r, hr, hst⟩
      · rw [hn]
        exact .inl ⟨hn, he⟩
      · rw [hr]
        dsimp only
        split
        · next hterm =>
          refine .inl ⟨rfl, if_neg ?_⟩
          rw [Standing.kept, hr, Option.any_some, hterm]
          simpa using hu
        · refine .inr ⟨_, rfl, ?_⟩
          rw [StateRow.safe_state, StateRow.Fenced, StateRow.safe_state]
          refine hst.imp_right fun h => h.imp_right fun hfence => ⟨hfence.1, ?_⟩
          rw [StateRow.safe, if_neg (by simp [hfence.2])]
          exact hfence.2
  | interrupted ht hc hcr => exact hcomp ht _ rfl
  | purged => exact .inl ⟨rfl, rfl⟩
  | halfPurged =>
    rcases h with ⟨hn, -⟩ | hex
    · exact .inl ⟨hn, rfl⟩
    · exact .inr hex

/-! ## The log -/

/-- The last call of `deliverFn` for message `id` has no failure recorded. -/
def owes (id : Text) : List Deed → Bool
  | [] => false
  | .invoked i :: log => i = id || owes id log
  | .nacked i :: log => i ≠ id && owes id log

theorem mem_of_owes {log : List Deed} (h : owes id log = true) : .invoked id ∈ log := by
  induction log with
  | nil => cases h
  | cons d log ih =>
    cases d with
    | invoked i =>
      rw [owes, Bool.or_eq_true, decide_eq_true_iff] at h
      rcases h with rfl | h
      · exact List.mem_cons_self
      · exact List.mem_cons_of_mem _ (ih h)
    | nacked i =>
      rw [owes, Bool.and_eq_true] at h
      exact List.mem_cons_of_mem _ (ih h.2)

/-- Between two calls of `deliverFn` for one message, the first one's failure was recorded. The log
begins with the newest deed. -/
def Separated (log : List Deed) : Prop :=
  ∀ newer between older id,
    log = newer ++ .invoked id :: (between ++ .invoked id :: older) → .nacked id ∈ between

/-- A message that owes no result had its failure recorded since it was last given out. -/
theorem nacked_of_not_owes {between older : List Deed}
    (h : owes id (between ++ .invoked id :: older) = false) : .nacked id ∈ between := by
  induction between with
  | nil => simp [owes] at h
  | cons d between ih =>
    cases d with
    | invoked i =>
      rw [List.cons_append, owes, Bool.or_eq_false_iff] at h
      exact List.mem_cons_of_mem _ (ih h.2)
    | nacked i =>
      rw [List.cons_append, owes, Bool.and_eq_false_iff] at h
      rcases h with h | h
      · have : i = id := by simpa using h
        exact this ▸ List.mem_cons_self
      · exact List.mem_cons_of_mem _ (ih h)

theorem Separated.cons {log : List Deed} {d : Deed} (h : Separated log)
    (hd : ∀ id, d = .invoked id → owes id log = false) : Separated (d :: log) := by
  intro newer between older id heq
  cases newer with
  | nil =>
    rw [List.nil_append, List.cons.injEq] at heq
    have := hd id heq.1
    rw [heq.2] at this
    exact nacked_of_not_owes this
  | cons x newer =>
    rw [List.cons_append, List.cons.injEq] at heq
    exact h newer between older id heq.2

/-! ## The engine -/

/-- A mailbox step of a careful run. It tears no row and does not die inside a purge; an actor other
than the engine reports a failure only of a message that is neither acknowledged nor behind its
fence; and an enqueue that is accepted names no message that was given out. -/
structure Careful (sid : Text) (cfg : Config) (w : World) (e : Event) (s : Step) : Prop where
  clean : s.Clean sid cfg w.files
  nack : ∀ dies, e = .other s dies → ∀ id reason, s.call = .nack id reason → Reportable w.files id
  enqueue : ∀ m, s.call = .enqueue m → (standing m.msgId w.files.journal).last = none →
    .invoked m.msgId ∉ w.log ∧ ¬ w.phase.AboutTo m.msgId

def CarefulEvent (sid : Text) (cfg : Config) (w : World) (e : Event) : Prop :=
  ∀ s, w.stepOf e = some s → Careful sid cfg w e s

/-- What a careful run keeps. -/
structure Guarded (w : World) : Prop where
  intact : w.files.Intact
  owed : ∀ id, owes id w.log = true → Shut w.files id
  fenced : ∀ m, w.phase = .fenced m → Shut w.files m.msgId ∧ owes m.msgId w.log = false
  tried : ∀ m, w.phase = .dequeued m ∨ w.phase = .unfenced m → owes m.msgId w.log = false
  separated : Separated w.log

theorem guarded_initial : Guarded .initial where
  intact := Files.intact_absent
  owed := fun id h => by cases h
  fenced := fun m h => by cases h
  tried := fun m h => by rcases h with h | h <;> cases h
  separated := fun newer between older id h => by simp [World.initial] at h

theorem CarefulEvent.intact (hg : Guarded w) (hc : CarefulEvent sid cfg w e) :
    (w.step sid cfg e).files.Intact :=
  World.files_step hg.intact fun s hs => s.intact hg.intact (hc s hs).clean

/-- A shut message stays shut over an event that keeps it shut. -/
theorem World.shut (hg : Guarded w) (hc : CarefulEvent sid cfg w e) (h : Shut w.files id)
    (hk : ∀ s, w.stepOf e = some s → KeepsShut id s w.files) :
    Shut (w.step sid cfg e).files id :=
  World.files_step (I := fun f => Shut f id) h fun s hs =>
    s.shut hg.intact (hc s hs).clean h (hk s hs)

/-- The fence that an attempt begins with. -/
theorem begin_after {now : Int} (hf : f.Sound)
    (h : (beginNonRetryableAttempt now id f).1 = .flag true) :
    Shut (f.applyAll (beginNonRetryableAttempt now id f).2) id := by
  obtain ⟨r, hr, hst⟩ := begin_flag h
  have hget : (loadStates f.journal).get? id = some r := by rw [← standing_last, hr]
  have hd : f.dir = true := by
    cases hd : f.dir with
    | true => rfl
    | false =>
      rw [hf.rooted hd] at hr
      cases hr
  rw [beginNonRetryableAttempt, if_neg (by simp [hd]), hget]
  dsimp only
  rw [if_neg (by simp [hst])]
  split
  · next hm => exact .inr ⟨r, hr, .inr (.inr ⟨hst, hm⟩)⟩
  · refine .inr ⟨⟨id, .inFlight, now, .nonRetryableAttempt⟩, ?_, .inr (.inr ⟨rfl, rfl⟩)⟩
    rw [(f.applyAll_state _ hf.clean).1, List.foldl_cons, List.foldl_nil, Write.onState,
      standing_concat, if_pos rfl]
    rfl

variable (sid cfg w) in
/-- The phases a mailbox call of the tick leads to. -/
theorem World.advance_phase (now : Int) (fate : Fate) (m : Message) :
    (w.phaseAfter sid cfg (.advance now fate) = .fenced m →
      (w.phase = .fenced m ∧ w.stepOf (.advance now fate) = none) ∨
      w.phase = .dequeued m ∧ fate = .performed ∧
        (beginNonRetryableAttempt now m.msgId w.files).1 = .flag true) ∧
    (w.phaseAfter sid cfg (.advance now fate) = .unfenced m → w.phase = .dequeued m) ∧
    (w.phaseAfter sid cfg (.advance now fate) = .dequeued m →
      nextMessage now w.files = some m) := by
  cases hp : w.phase with
  | swept =>
    have hans : ∀ a, (Phase.swept.onAnswer a = .fenced m → False) ∧
        (Phase.swept.onAnswer a = .unfenced m → False) ∧
        (Phase.swept.onAnswer a = .dequeued m → a = .message (some m)) := by
      intro a
      unfold Phase.onAnswer
      dsimp only
      split <;> simp
    cases fate with
    | performed =>
      simp only [phaseAfter, hp, Phase.call]
      obtain ⟨h1, h2, h3⟩ := hans (perform sid cfg now w.files .dequeue).1
      exact ⟨fun h => (h1 h).elim, fun h => (h2 h).elim, fun h => dequeue_answer (h3 h)⟩
    | _ => simp [phaseAfter, hp, Phase.call, Phase.onRefused, Phase.onFailed]
  | dequeued m' =>
    have hans : ∀ a, ((Phase.dequeued m').onAnswer a = .fenced m → m' = m ∧ a = .flag true) ∧
        ((Phase.dequeued m').onAnswer a = .unfenced m → m' = m) ∧
        ((Phase.dequeued m').onAnswer a = .dequeued m → False) := by
      intro a
      unfold Phase.onAnswer
      dsimp only
      split <;> simp
    cases fate with
    | performed =>
      simp only [phaseAfter, hp, Phase.call]
      obtain ⟨h1, h2, h3⟩ := hans
        (perform sid cfg now w.files (.beginNonRetryableAttempt m'.msgId)).1
      refine ⟨fun h => ?_, fun h => ?_, fun h => (h3 h).elim⟩
      · obtain ⟨rfl, ha⟩ := h1 h
        exact .inr ⟨rfl, trivial, ha⟩
      · rw [h2 h]
    | _ => simp [phaseAfter, hp, Phase.call, Phase.onRefused, Phase.onFailed]
  | fenced m' => cases fate <;> simp [phaseAfter, hp, Phase.call, stepOf]
  | delivering m' => cases fate <;> simp [phaseAfter, hp, Phase.call]
  | _ =>
    cases fate <;>
      simp [phaseAfter, hp, Phase.call, Phase.onAnswer, Phase.onRefused, Phase.onFailed]

/-- The engine's own calls on the way to a delivery keep the messages that owe a result shut. -/
theorem Guarded.advance {now : Int} {fate : Fate} (hg : Guarded w)
    (hc : CarefulEvent sid cfg w (.advance now fate)) :
    Guarded (w.step sid cfg (.advance now fate)) := by
  have hlog : (w.step sid cfg (.advance now fate)).log = w.log := rfl
  have hcall : ∀ s, w.stepOf (.advance now fate) = some s → w.phase.call = some s.call := by
    intro s hs
    rw [World.stepOf, Option.bind_eq_some_iff] at hs
    obtain ⟨c, hcall, hs⟩ := hs
    cases fate <;> cases hs <;> exact hcall
  have howed : ∀ id, owes id w.log = true → Shut (w.step sid cfg (.advance now fate)).files id := by
    intro id ho
    refine World.shut hg hc (hg.owed id ho) fun s hs => ⟨fun reason hn => ?_, fun m hm => ?_⟩
    · have := hcall s hs
      rw [hn] at this
      cases hp : w.phase with
      | unfenced m =>
        rw [hp, Phase.call, Option.some.injEq, Call.nack.injEq] at this
        have := hg.tried m (.inr hp)
        simp_all
      | _ => rw [hp] at this; cases this
    · have := hcall s hs
      rw [hm] at this
      cases hp : w.phase <;> rw [hp] at this <;> cases this
  obtain hphase := fun m => World.advance_phase sid cfg w now fate m
  refine ⟨hc.intact hg, howed, fun m hm => ?_, fun m hm => ?_, hg.separated⟩
  · rcases (hphase m).1 hm with ⟨hp, hs⟩ | ⟨hp, rfl, hflag⟩
    · have hfiles : (w.step sid cfg (.advance now fate)).files = w.files := by
        show w.filesAfter sid cfg _ = _
        rw [World.filesAfter, hs]
      rw [hfiles]
      exact hg.fenced m hp
    · refine ⟨?_, hg.tried m (.inl hp)⟩
      have hfiles : (w.step sid cfg (.advance now .performed)).files
          = w.files.applyAll (beginNonRetryableAttempt now m.msgId w.files).2 := by
        show w.filesAfter sid cfg _ = _
        rw [World.filesAfter, World.stepOf, hp]
        rfl
      rw [hfiles]
      exact begin_after hg.intact.sound hflag
  · rw [hlog]
    rcases hm with hm | hm
    · obtain ⟨-, r, hr, hpend, -⟩ := nextMessage_eq_some ((hphase m).2.2 hm)
      rw [Bool.eq_false_iff]
      intro ho
      exact (hg.owed _ ho).not_pending hr hpend
    · exact hg.tried m (.inl ((hphase m).2.1 hm))

/-- A call of another actor. -/
theorem Guarded.other {s : Step} {dies : Bool} (hg : Guarded w)
    (hc : CarefulEvent sid cfg w (.other s dies)) : Guarded (w.step sid cfg (.other s dies)) := by
  have hphase : (w.step sid cfg (.other s dies)).phase = .idle ∨
      (w.step sid cfg (.other s dies)).phase = w.phase := by
    cases dies
    · exact .inr rfl
    · exact .inl rfl
  have hcs := hc s rfl
  have hkeep : ∀ id, (.invoked id ∈ w.log ∨ w.phase.AboutTo id) →
      ∀ s', w.stepOf (.other s dies) = some s' → KeepsShut id s' w.files := by
    rintro id hid s' hs'
    cases hs'
    refine ⟨fun reason hn => hcs.nack dies rfl id reason hn, fun m hm hmid hn => ?_⟩
    obtain ⟨h1, h2⟩ := hcs.enqueue m hm (by rw [hmid]; exact hn)
    rw [hmid] at h1 h2
    exact hid.elim h1 h2
  refine ⟨hc.intact hg, fun id ho => ?_, fun m hm => ?_, fun m hm => ?_, hg.separated⟩
  · exact World.shut hg hc (hg.owed id ho) (hkeep id (.inl (mem_of_owes ho)))
  · rcases hphase with hp | hp
    · rw [hp] at hm
      cases hm
    · rw [hp] at hm
      obtain ⟨hsh, hno⟩ := hg.fenced m hm
      exact ⟨World.shut hg hc hsh (hkeep _ (.inr (by rw [hm]; rfl))), hno⟩
  · rcases hphase with hp | hp
    · rw [hp] at hm
      rcases hm with hm | hm <;> cases hm
    · rw [hp] at hm
      exact hg.tried m hm

/-- `deliverFn` is called. -/
theorem Guarded.invoke (hg : Guarded w) : Guarded (w.step sid cfg .invoke) := by
  cases hp : w.phase with
  | fenced m =>
    have hw : w.step sid cfg .invoke = ⟨w.files, .delivering m, .invoked m.msgId :: w.log⟩ := by
      simp [World.step, World.filesAfter, World.stepOf, World.phaseAfter, World.logAfter, hp]
    obtain ⟨hsh, hno⟩ := hg.fenced m hp
    rw [hw]
    refine ⟨hg.intact, fun id ho => ?_, fun m hm => absurd hm (by simp), fun m hm => ?_,
      hg.separated.cons fun id hid => ?_⟩
    · rw [owes, Bool.or_eq_true, decide_eq_true_iff] at ho
      rcases ho with rfl | ho
      · exact hsh
      · exact hg.owed id ho
    · rcases hm with hm | hm <;> cases hm
    · cases hid
      exact hno
  | _ =>
    have hw : w.step sid cfg .invoke = w := by
      simp [World.step, World.filesAfter, World.stepOf, World.phaseAfter, World.logAfter, hp]
      rw [← hp]
    rw [hw]
    exact hg

/-- A message that stands where it stood is as shut as before. -/
theorem Shut.of_same {f' : Files} {r : StateRow} (h : Shut f id)
    (hr : (standing id f.journal).last = some r)
    (hs : (standing id f'.journal).last = (standing id f.journal).last) : Shut f' id := by
  rcases h with ⟨hn, -⟩ | ⟨r', hr', hst⟩
  · rw [hr] at hn
    cases hn
  · exact .inr ⟨r', by rw [hs, hr'], hst⟩

/-- The result of a delivery is recorded. -/
theorem Guarded.settle {now : Int} {d : Delivery} {fate : Fate} (hg : Guarded w)
    (hc : CarefulEvent sid cfg w (.settle now d fate)) :
    Guarded (w.step sid cfg (.settle now d fate)) := by
  cases hp : w.phase with
  | delivering m =>
    have hidle : (w.step sid cfg (.settle now d fate)).phase = .idle := by
      simp [World.step, World.phaseAfter, hp]
    have hcall : ∀ s, w.stepOf (.settle now d fate) = some s → s.call = d.call m := by
      intro s hs
      rw [World.stepOf, hp] at hs
      cases fate <;> cases hs <;> rfl
    have hkeep : ∀ id, (∀ reason, d.call m = .nack id reason → Reportable w.files id) →
        ∀ s, w.stepOf (.settle now d fate) = some s → KeepsShut id s w.files := by
      intro id hn s hs
      refine ⟨fun reason h => hn reason ((hcall s hs).symm.trans h), fun m' h => ?_⟩
      rw [hcall s hs] at h
      cases d <;> cases h
    have hnack : ∀ id reason, d.call m = .nack id reason → id = m.msgId ∧ ∃ error, d = .failed error := by
      intro id reason h
      cases d with
      | failed error =>
        cases h
        exact ⟨rfl, error, rfl⟩
      | _ => cases h
    have hlog : (w.step sid cfg (.settle now d fate)).log = w.log ∨
        (w.step sid cfg (.settle now d fate)).log = .nacked m.msgId :: w.log := by
      show w.logAfter sid cfg _ = _ ∨ w.logAfter sid cfg _ = _
      cases d with
      | failed error =>
        simp only [World.logAfter, hp]
        split
        · exact .inl rfl
        · exact .inr rfl
      | _ => exact .inl (by simp [World.logAfter])
    refine ⟨hc.intact hg, fun id ho => ?_, fun m' hm => ?_, fun m' hm => ?_, ?_⟩
    · have howed : owes id w.log = true := by
        rcases hlog with h | h <;> rw [h] at ho
        · exact ho
        · rw [owes, Bool.and_eq_true] at ho
          exact ho.2
      have hsh := hg.owed id howed
      by_cases hid : id = m.msgId
      · subst hid
        cases hl : (standing m.msgId w.files.journal).last with
        | none =>
          exact World.shut hg hc hsh (hkeep _ fun reason _ r hr => by rw [hl] at hr; cases hr)
        | some r =>
          cases d with
          | failed error =>
            -- the log did not grow, so the message stands where it stood
            refine hsh.of_same hl ?_
            rw [standing_last, standing_last]
            by_contra hne
            have hgrew : (w.step sid cfg (.settle now (.failed error) fate)).log
                = .nacked m.msgId :: w.log := by
              show w.logAfter sid cfg _ = _
              simp only [World.logAfter, hp]
              exact if_neg hne
            rw [hgrew, owes] at ho
            simp at ho
          | _ => exact World.shut hg hc hsh (hkeep _ fun reason h => by cases h)
      · exact World.shut hg hc hsh (hkeep _ fun reason h => absurd (hnack _ _ h).1 hid)
    · rw [hidle] at hm
      cases hm
    · rw [hidle] at hm
      rcases hm with hm | hm <;> cases hm
    · rcases hlog with h | h <;> rw [h]
      · exact hg.separated
      · exact hg.separated.cons fun id h => by cases h
  | _ =>
    have hw : w.step sid cfg (.settle now d fate) = w := by
      cases d <;>
        simp [World.step, World.filesAfter, World.stepOf, World.phaseAfter, World.logAfter, hp] <;>
        rw [← hp]
    rw [hw]
    exact hg

theorem Guarded.of_phase {p : Phase} (hg : Guarded w) (hp : p = .idle ∨ p = w.phase) :
    Guarded { w with phase := p } := by
  refine ⟨hg.intact, hg.owed, fun m hm => ?_, fun m hm => ?_, hg.separated⟩
  · rcases hp with rfl | rfl
    · cases hm
    · exact hg.fenced m hm
  · rcases hp with rfl | rfl
    · rcases hm with hm | hm <;> cases hm
    · exact hg.tried m hm

/-- **A careful event keeps what a careful run keeps.** -/
theorem Guarded.step (hg : Guarded w) (hc : CarefulEvent sid cfg w e) :
    Guarded (w.step sid cfg e) := by
  cases e with
  | other s dies => exact hg.other hc
  | advance now fate => exact hg.advance hc
  | invoke => exact hg.invoke
  | settle now d fate => exact hg.settle hc
  | leave =>
    refine hg.of_phase (p := w.phaseAfter sid cfg .leave) ?_
    unfold World.phaseAfter
    dsimp only
    split <;> first | exact .inl rfl | exact .inr rfl
  | restart => exact hg.of_phase (.inl rfl)

/-! ## Unsettled attempts -/

/-- A dead letter whose outcome is unknown. -/
def StateRow.Lost (r : StateRow) : Prop := r.state = .deadLetter ∧ r.mark = .uncertain

/-- The attempt is behind its fence, or lost. -/
def Unsettled (f : Files) (id : Text) : Prop :=
  ∃ r, (standing id f.journal).last = some r ∧ (r.Fenced ∨ r.Lost)

def LostIn (f : Files) (id : Text) : Prop :=
  ∃ r, (standing id f.journal).last = some r ∧ r.Lost

/-- A call that records no result of message `id`. -/
def NoResult (id : Text) (c : Call) : Prop :=
  (∀ reason, c ≠ .nack id reason) ∧ (∀ proof, c ≠ .ack id proof) ∧
    ∀ reason o, c ≠ .withdraw id reason o

/-- The last row of a message with an unknown outcome makes its history unknown. -/
theorem standing_unknown_of_last {j : List StateRow} {r : StateRow}
    (h : (standing id j).last = some r) (hu : r.mark = .uncertain) :
    (standing id j).unknown = true := by
  have hm := List.mem_of_getLast? (show (history j id).getLast? = some r from h)
  exact List.any_eq_true.mpr ⟨r, hm, decide_eq_true hu⟩

/-- Nothing writes rows of a lost message. -/
theorem Turn.eq_nil_of_lost {now : Int} {st : Standing} {L : Message → Prop} {c : Call}
    {ws : List Write} (h : Turn sid cfg now id st L c ws) {r : StateRow} (hr : st.last = some r)
    (hl : r.state = .deadLetter) : ws = [] := by
  have hfailed : ¬ Failed cfg now id st c := by
    rintro (⟨reason, -, hd⟩ | ⟨-, r', hr', hst', -⟩)
    · exact hd r hr hl
    · rw [hr] at hr'
      cases hr'
      rw [hl] at hst'
      cases hst'
  cases h with
  | quiet => rfl
  | acked hs => exact absurd hl (hs r hr).2
  | retried hc => exact absurd hc hfailed
  | gaveUp hc => exact absurd hc hfailed
  | _ => simp_all

/-- **A lost message stays lost**, whatever is called, short of a purge. -/
theorem Step.lost (hf : f.Intact) (hs : s.SpareState sid cfg f) (hp : s.call ≠ .purge)
    (h : LostIn f id) : LostIn (s.after sid cfg f) id := by
  obtain ⟨r, hr, hdead, hmark⟩ := h
  obtain ⟨st, l, hmv, hst, -⟩ := s.moves sid cfg hf.sound.rooted hf.sound.clean
    hs id
  rw [LostIn, hst]
  cases hmv with
  | part ht hpre hfull =>
    rw [ht.eq_nil_of_lost hr hdead] at hpre
    rw [List.prefix_nil.mp hpre]
    exact ⟨r, hr, hdead, hmark⟩
  | compacted pristine ht hc =>
    rw [ht.eq_nil_of_lost hr hdead, Standing.turn_nil, Standing.compacted,
      if_pos (standing_unknown_of_last hr hmark)]
    exact ⟨r, hr, hdead, hmark⟩
  | interrupted ht hc hcr =>
    rw [ht.eq_nil_of_lost hr hdead]
    exact ⟨r, hr, hdead, hmark⟩
  | purged hc => exact absurd hc hp
  | halfPurged hc => exact absurd hc hp

/-- The rows of a turn of a message behind its fence, when no result is recorded. -/
theorem Turn.of_fenced {now : Int} {st : Standing} {L : Message → Prop} {c : Call}
    {ws : List Write} (h : Turn sid cfg now id st L c ws) {r : StateRow} (hr : st.last = some r)
    (hfence : r.Fenced) (hn : NoResult id c) : ws = [] ∨ ws = [.appendState (unknownRow id now)] := by
  obtain ⟨hst, hmark⟩ := hfence
  obtain ⟨hnack, hack, hwith⟩ := hn
  have hfailed : ¬ Failed cfg now id st c := by
    rintro (⟨reason, hc, -⟩ | ⟨-, r', hr', -, hm, -⟩)
    · exact hnack reason hc
    · rw [hr] at hr'
      cases hr'
      exact hm hmark
  cases h with
  | quiet => exact .inl rfl
  | acked => exact absurd rfl (hack _)
  | retried hc => exact absurd hc hfailed
  | gaveUp hc => exact absurd hc hfailed
  | withdrawn => exact absurd rfl (hwith _ _)
  | lost => exact .inr rfl
  | _ => simp_all

/-- **An attempt without a result stays behind its fence, or is lost.** -/
theorem Step.unsettled (hf : f.Intact) (hs : s.SpareState sid cfg f) (hp : s.call ≠ .purge)
    (hn : NoResult id s.call) (h : Unsettled f id) : Unsettled (s.after sid cfg f) id := by
  obtain ⟨r, hr, hfence | hlost⟩ := h
  · obtain ⟨st, l, hmv, hst, -⟩ := s.moves sid cfg hf.sound.rooted
      hf.sound.clean hs id
    rw [Unsettled, hst]
    have hturn : ∀ {ws pre}, Turn sid cfg s.now id (standing id f.journal) (IsLatest f id) s.call ws →
        pre <+: ws → pre = [] ∨ pre = [.appendState (unknownRow id s.now)] := by
      intro ws pre ht hpre
      rcases ht.of_fenced hr hfence hn with rfl | rfl
      · exact .inl (List.prefix_nil.mp hpre)
      · cases pre with
        | nil => exact .inl rfl
        | cons w pre =>
          obtain ⟨rfl, hpre'⟩ := List.cons_prefix_cons.mp hpre
          rw [List.prefix_nil.mp hpre']
          exact .inr rfl
    have hlost : ((standing id f.journal).turn [.appendState (unknownRow id s.now)]).last
        = some (unknownRow id s.now) := rfl
    cases hmv with
    | part ht hpre hfull =>
      rcases hturn ht hpre with rfl | rfl
      · exact ⟨r, hr, .inl hfence⟩
      · exact ⟨_, hlost, .inr ⟨rfl, rfl⟩⟩
    | compacted pristine ht hc =>
      rcases hturn ht (List.prefix_refl _) with rfl | rfl
      · rw [Standing.turn_nil, Standing.compacted]
        split
        · exact ⟨r, hr, .inl hfence⟩
        · rw [hr]
          dsimp only
          rw [if_neg (by rw [hfence.1]; exact Bool.false_ne_true), StateRow.safe,
            if_neg (by simp [hfence.2])]
          exact ⟨r, rfl, .inl hfence⟩
      · rw [Standing.compacted, if_pos]
        · exact ⟨_, hlost, .inr ⟨rfl, rfl⟩⟩
        · simp [Standing.write, Standing.push, unknownRow, StateRow.unknown]
    | interrupted ht hc hcr =>
      rcases hturn ht (List.prefix_refl _) with rfl | rfl
      · exact ⟨r, hr, .inl hfence⟩
      · exact ⟨_, hlost, .inr ⟨rfl, rfl⟩⟩
    | purged hc => exact absurd hc hp
    | halfPurged hc => exact absurd hc hp
  · obtain ⟨r', hr', hl⟩ := Step.lost hf hs hp ⟨r, hr, hlost⟩
    exact ⟨r', hr', .inr hl⟩

variable (id) in
/-- A whole call that only appends: its rows of a message are its turn. -/
theorem standing_applyAll (hf : f.Sound) {ws : List Write} (ha : ∀ w ∈ ws, w.appends) :
    standing id (f.applyAll ws).journal = (standing id f.journal).turn (ws.filter (Write.about id)) := by
  rw [(f.applyAll_state ws hf.clean).1, standing_appends id ws ha]

/-- **The recovery makes a dead letter of an attempt that waited too long behind its fence.** -/
theorem recoverInflight_lost {now : Int} {r : StateRow} (hf : f.Intact)
    (hr : (standing id f.journal).last = some r) (hfence : r.Fenced)
    (hdue : cfg.inflightTimeoutSecs ≤ now - r.ts) :
    LostIn ((Step.mk now .recoverInflight none).after sid cfg f) id := by
  obtain ⟨m, hm⟩ := latestOf_of_rowsOf (hf.backed id r hr (by rw [hfence.1]; rfl))
  have hws : (recoverInflight cfg now f).2.filter (Write.about id)
      = [.appendState (unknownRow id now)] := by
    rw [recoverInflight_filter hf hr, recoverEntry, if_pos ⟨hfence.1, hdue⟩, hm]
    dsimp only
    rw [if_pos hfence.2, List.filter_cons_of_neg (by simp [Write.about]),
      filter_about_self (by simp [Write.about, unknownRow])]
  have ha : ∀ w ∈ (recoverInflight cfg now f).2, w.appends := by
    rw [recoverInflight]
    split
    · exact fun w hw => absurd hw List.not_mem_nil
    · exact (recoverEntries_about cfg now _ _).1
  have hst := standing_applyAll id hf.sound ha
  rw [hws] at hst
  exact ⟨_, congrArg Standing.last hst, rfl, rfl⟩

/-- **An uncertain result makes a dead letter of the attempt.** -/
theorem withdraw_lost {now : Int} {r : StateRow} {reason : Text} {details : Option Json}
    (hf : f.Intact) (hr : (standing id f.journal).last = some r) (hst : r.state = .inFlight) :
    LostIn ((Step.mk now (.withdraw id reason ⟨true, true, details⟩) none).after sid cfg f) id := by
  obtain ⟨m, hm⟩ := latestOf_of_rowsOf (hf.backed id r hr (by rw [hst]; rfl))
  have hd : f.dir = true := by
    cases hd : f.dir with
    | true => rfl
    | false =>
      rw [hf.sound.rooted hd] at hr
      cases hr
  have hws : (withdraw now id reason ⟨true, true, details⟩ f).2
      = [.appendDead (m.deadLetter (reasonOr reason "withdrawn") true details now m.attempt),
        .appendState (unknownRow id now)] := by
    rw [withdraw, if_neg (by simp [hd]), ← standing_last, hr, if_neg (by simp [hst]), hm]
    rfl
  have hstand := standing_applyAll id hf.sound
    (show ∀ w ∈ (withdraw now id reason ⟨true, true, details⟩ f).2, w.appends by rw [hws]; simp [Write.appends])
  rw [hws, List.filter_cons_of_neg (by simp [Write.about]),
    filter_about_self (by simp [Write.about, unknownRow])] at hstand
  refine ⟨unknownRow id now, ?_, rfl, rfl⟩
  show (standing id (f.applyAll (withdraw now id reason ⟨true, true, details⟩ f).2).journal).last = _
  rw [hws, hstand]
  rfl

/-! ## No blind retry -/

/-- What holds of every world a careful run reaches. -/
structure NoBlindRetry (sid : Text) (cfg : Config) (w : World) : Prop where
  /-- between two calls of `deliverFn` for a message, the first one's failure was recorded -/
  separated : Separated w.log
  /-- an attempt without a result is not dequeued -/
  closed : ∀ id, Unsettled w.files id → ∀ now m, nextMessage now w.files = some m → m.msgId ≠ id
  /-- it remains without a result, whatever is called that records none -/
  unsettled : ∀ id, Unsettled w.files id → ∀ after,
    World.Along sid cfg (fun w e => ∀ s, w.stepOf e = some s →
      s.Clean sid cfg w.files ∧ s.call ≠ .purge ∧ NoResult id s.call) w after →
    Unsettled (w.run sid cfg after).files id
  /-- it ends as a lost message, by the recovery or by an uncertain result -/
  recovered : ∀ id r now, (standing id w.files.journal).last = some r → r.Fenced →
    cfg.inflightTimeoutSecs ≤ now - r.ts →
    LostIn ((Step.mk now .recoverInflight none).after sid cfg w.files) id
  quarantined : ∀ id r now reason details, (standing id w.files.journal).last = some r →
    r.state = .inFlight →
    LostIn ((Step.mk now (.withdraw id reason ⟨true, true, details⟩) none).after sid cfg w.files) id
  /-- a lost message stays lost -/
  lost : ∀ id, LostIn w.files id → ∀ after,
    World.Along sid cfg (fun w e => ∀ s, w.stepOf e = some s →
      s.Clean sid cfg w.files ∧ s.call ≠ .purge) w after →
    LostIn (w.run sid cfg after).files id

theorem Guarded.noBlindRetry (hg : Guarded w) : NoBlindRetry sid cfg w where
  separated := hg.separated
  closed := by
    rintro id ⟨r, hr, hst⟩ now m hm rfl
    obtain ⟨-, r', hr', hp, -⟩ := nextMessage_eq_some hm
    rw [hr] at hr'
    cases hr'
    rcases hst with ⟨hst, -⟩ | ⟨hst, -⟩ <;> rw [hp] at hst <;> cases hst
  unsettled := by
    intro id hu after ha
    have := World.run_induction (I := fun w => w.files.Intact ∧ Unsettled w.files id) ?_
      ⟨hg.intact, hu⟩ ha
    · exact this.2
    · rintro w e ⟨hi, hu⟩ hs
      exact World.files_step (I := fun f => f.Intact ∧ Unsettled f id) ⟨hi, hu⟩ fun s hst =>
        have ⟨hc, hp, hn⟩ := hs s hst
        ⟨s.intact hi hc, s.unsettled hi hc.spareState hp hn hu⟩
  recovered := fun id r now hr hfence hdue => recoverInflight_lost hg.intact hr hfence hdue
  quarantined := fun id r now reason details hr hst => withdraw_lost hg.intact hr hst
  lost := by
    intro id hl after ha
    have := World.run_induction (I := fun w => w.files.Intact ∧ LostIn w.files id) ?_
      ⟨hg.intact, hl⟩ ha
    · exact this.2
    · rintro w e ⟨hi, hl⟩ hs
      exact World.files_step (I := fun f => f.Intact ∧ LostIn f id) ⟨hi, hl⟩ fun s hst =>
        have ⟨hc, hp⟩ := hs s hst
        ⟨s.intact hi hc, s.lost hi hc.spareState hp hl⟩

/-- **No blind retry**, in every careful run of the engine: `deliverFn` is called again for a message
only after the failure of its last call was recorded; an attempt without a recorded result is never
dequeued, ends as a dead letter with an unknown outcome, and then stays one. -/
theorem no_blind_retry (sid : Text) (cfg : Config) (events : List Event)
    (h : World.Along sid cfg (CarefulEvent sid cfg) .initial events) :
    NoBlindRetry sid cfg (World.initial.run sid cfg events) :=
  (World.run_induction (fun _ _ hg hc => Guarded.step hg hc) guarded_initial h).noBlindRetry

/-- The engine's own whole calls are careful. -/
theorem careful_own (h : ∀ s dies, e ≠ .other s dies) (hw : e.whole) :
    CarefulEvent sid cfg w e := by
  intro s hs
  refine ⟨Step.clean_of_whole (World.stepOf_whole hw hs), fun dies he => absurd he (h s dies),
    fun m hm => ?_⟩
  exfalso
  have hfate : ∀ now c fate, Fate.step now c fate = some s → s.call = c := by
    intro now c fate hf
    cases fate <;> cases hf <;> rfl
  cases e with
  | other s' dies => exact h s' dies rfl
  | advance now fate =>
    rw [World.stepOf, Option.bind_eq_some_iff] at hs
    obtain ⟨c, hc, hs⟩ := hs
    rw [hfate _ _ _ hs] at hm
    rw [hm] at hc
    cases hp : w.phase <;> rw [hp] at hc <;> cases hc
  | settle now d fate =>
    rw [World.stepOf] at hs
    split at hs
    · rw [hfate _ _ _ hs] at hm
      cases d <;> cases hm
    · cases hs
  | _ => cases hs

/-- A delivery that threw. -/
def thrownEvents : List Event :=
  [.other ⟨5, .enqueue ⟨"m", none, "s", "hi", 5, 0, none⟩, none⟩ false, .advance 5 .performed,
    .advance 5 .performed, .advance 5 .performed, .advance 5 .performed, .invoke,
    .settle 5 .thrown .performed]

theorem no_blind_retry_thrown :
    NoBlindRetry "s" .default (World.initial.run "s" .default thrownEvents) := by
  have hown : ∀ w, World.Along "s" .default (CarefulEvent "s" .default) w (thrownEvents.drop 1) := by
    intro w
    refine ⟨careful_own (by simp) rfl, careful_own (by simp) rfl, careful_own (by simp) rfl,
      careful_own (by simp) rfl, careful_own (by simp) rfl, careful_own (by simp) rfl, trivial⟩
  refine no_blind_retry "s" .default thrownEvents ⟨fun s hs => ?_, hown _⟩
  cases hs
  exact ⟨Step.clean_of_whole rfl, fun _ _ id reason h => (by cases h), fun m _ _ =>
    ⟨List.not_mem_nil, fun h => h⟩⟩

/-- **An uncertain delivery can be retried blindly.** A process dies while the compaction rewrites
the state file, after the first row: of the message whose delivery threw, the row that says it is
pending is left, and the next tick calls `deliverFn` for it again, without a failure recorded. -/
theorem blind_retry :
    let cfg : Config := ⟨3, 1, 86400, 30, 1⟩
    let tick := [Event.advance 9 .performed, .advance 9 .performed, .advance 9 .performed,
      .advance 9 .performed, .invoke]
    let w := World.initial.run "s" cfg thrownEvents
    let torn := w.run "s" cfg
      [.other ⟨6, .enqueue ⟨"b", none, "s", "hi", 6, 0, none⟩, none⟩ false,
        .other ⟨6, .ack "b" .none, some ⟨2, some 40⟩⟩ true]
    messageState "m" w.files = some .deadLetter ∧
      messageState "m" torn.files = some .pending ∧
      (torn.run "s" cfg tick).log = [.invoked "m", .invoked "m"] := by
  decide +kernel

end Telepty.Mailbox
