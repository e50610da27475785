import Telepty.Mailbox.Runs

/-!
# Terminal states

Once a message is acknowledged, expired or a dead letter it stays so, until the compaction drops its
rows. That leaves out what the operations do not check: a `nack` of a message that is not a dead
letter, an `ack` of one that is neither acknowledged nor a dead letter, an `enqueue` of a message
whose rows are gone.
-/

namespace Telepty.Mailbox

open Infra

variable {sid : Text} {cfg : Config} {f : Files} {s : Step} {id : Text}

/-! ## The rows of a message without a state -/

/-- A message without a state has no row in the inbox. -/
def Files.Matched (f : Files) : Prop :=
  ∀ id, (standing id f.journal).last = none → rowsOf id f.messages = []

theorem Standing.write_last (st : Standing) (w : Write) (h : (st.write w).last = none) :
    st.last = none := by
  cases w <;> first | exact h | cases h

theorem Standing.turn_last (st : Standing) (ws : List Write) (h : (st.turn ws).last = none) :
    st.last = none := by
  induction ws generalizing st with
  | nil => exact h
  | cons w ws ih => exact st.write_last w (ih _ h)

/-- A turn that leaves a message without a state wrote nothing. -/
theorem Turn.eq_nil_of_last {now : Int} {st : Standing} {L : Message → Prop} {c : Call}
    {ws : List Write} (h : Turn sid cfg now id st L c ws) (hl : (st.turn ws).last = none) :
    ws = [] := by
  cases h with
  | quiet => rfl
  | expired n hs =>
    have := Standing.turn_last _ _ hl
    simp_all
  | acked hs hrest =>
    rw [Standing.turn_cons] at hl
    cases Standing.turn_last _ _ hl
  | _ => simp_all [Standing.write, Standing.push]

theorem Standing.compacted_last {st : Standing} {pristine : Bool}
    (h : (st.compacted pristine).last = none) : st.last = none ∨ st.kept = false := by
  rw [compacted] at h
  split at h
  · exact .inl h
  · next hu =>
    split at h
    · exact .inl h
    · next r hr =>
      split at h
      · next ht => exact .inr (by simp [kept, hu, hr, ht])
      · cases h

/-- **Every call without a crash keeps states and inbox rows together.** -/
theorem Step.matched (hf : f.Sound) (hi : f.InboxClean) (hm : f.Matched) (hc : s.crash = none) :
    (s.after sid cfg f).Matched := by
  intro id' hl
  obtain ⟨st, l, hmv, hst, hrows⟩ := s.moves sid cfg hf.rooted hf.clean
    (spareState_of_whole hc) id'
  rw [hrows hi (spareInbox_of_whole hc)]
  rw [hst] at hl
  have hnil : ∀ {ws}, Turn sid cfg s.now id' (standing id' f.journal) (IsLatest f id') s.call ws →
      ((standing id' f.journal).turn ws).last = none →
      rowsOf id' f.messages ++ inboxRows ws = [] := by
    intro ws ht hl
    rw [ht.eq_nil_of_last hl, hm id' (Standing.turn_last _ _ hl)]
    rfl
  cases hmv with
  | part ht hp hfull =>
    rw [hfull hc] at hl ⊢
    exact hnil ht hl
  | compacted pristine ht hcomp =>
    rcases Standing.compacted_last hl with h | h
    · rw [hnil ht h, ite_self]
    · rw [if_neg (by simp [h])]
  | interrupted ht hcomp hcr => exact absurd hc hcr
  | purged => rfl
  | halfPurged => rfl

/-! ## Terminal messages -/

/-- A message that is in the terminal state `t`, or whose rows are gone. -/
def Standing.Over (st : Standing) (t : MsgState) : Prop := ∀ r, st.last = some r → r.state = t

/-- The calls that leave a terminal message alone. -/
def Spares (id : Text) (s : Step) (f : Files) : Prop :=
  s.crash = none ∧
  match s.call with
  | .nack id' _ =>
    id' = id → messageState id f ≠ some .acked ∧ messageState id f ≠ some .expired
  | .ack id' _ => id' = id → messageState id f ≠ some .expired ∧ messageState id f ≠ none
  | .enqueue m => m.msgId = id → messageState id f ≠ none
  | _ => True

theorem Standing.Over.compacted {st : Standing} {t : MsgState} (h : st.Over t) (pristine : Bool) :
    (st.compacted pristine).Over t := by
  rw [Standing.compacted]
  split
  · exact h
  · split
    · exact h
    · next r hr =>
      split
      · intro r' hr'
        cases hr'
      · intro r' hr'
        rw [← Option.some.inj hr', StateRow.safe_state]
        exact h r hr

/-- A turn of a terminal message that is spared: it writes nothing. -/
theorem Turn.eq_nil_of_over {t : MsgState} {ws : List Write} (hf : f.Sound) (hi : f.InboxClean)
    (hm : f.Matched) (ht : t.terminal) (ho : (standing id f.journal).Over t) (hs : Spares id s f)
    (h : Turn sid cfg s.now id (standing id f.journal) (IsLatest f id) s.call ws) : ws = [] := by
  obtain ⟨-, hs⟩ := hs
  simp only [messageState_eq hf.rooted] at hs
  have hopen : ∀ r, (standing id f.journal).last = some r →
      r.state = .pending ∨ r.state = .inFlight → False := by
    intro r hr hst
    have hrt := ho r hr
    rcases hst with hst | hst <;> rw [hst] at hrt <;> rw [← hrt] at ht <;> cases ht
  have hfailed : ∀ m, Failed cfg s.now id (standing id f.journal) s.call → IsLatest f id m →
      False := by
    rintro m (⟨reason, hcall, hdead⟩ | ⟨-, r, hr, hst, -⟩) hlat
    · rw [hcall] at hs
      cases hl : (standing id f.journal).last with
      | none =>
        have := hlat.2 hi
        rw [latestOf_eq_foldl, hm id hl] at this
        cases this
      | some r =>
        obtain ⟨h1, h2⟩ := hs rfl
        have h3 := hdead r hl
        rw [hl] at h1 h2
        have hrt := ho r hl
        cases hst : r.state <;> simp_all [MsgState.terminal]
    · exact hopen r hr (.inr hst)
  generalize hcall : s.call = c at *
  cases h with
  | quiet => rfl
  | @enqueued m hid hlast => exact absurd (by rw [hlast]; rfl) (hs hid)
  | dequeued hs' hr => exact (hopen _ hs' (.inl hr)).elim
  | acked hne =>
    obtain ⟨h1, h2⟩ := hs rfl
    cases hl : (standing id f.journal).last with
    | none =>
      rw [hl] at h2
      exact absurd rfl h2
    | some r =>
      obtain ⟨h3, h4⟩ := hne r hl
      have hrt := ho r hl
      rw [hl] at h1
      cases hst : r.state <;> simp_all [MsgState.terminal]
  | retried hfl hl => exact (hfailed _ hfl hl).elim
  | gaveUp hfl hl => exact (hfailed _ hfl hl).elim
  | fenced hs' hr => exact (hopen _ hs' (.inr hr)).elim
  | withdrawn hs' hr => exact (hopen _ hs' (hr.imp_right (·.2))).elim
  | expired n hs' hr => exact (hopen _ hs' hr).elim
  | lost hs' hr => exact (hopen _ hs' (.inr hr)).elim

/-- **A call that spares a terminal message leaves it terminal, or drops its rows.** -/
theorem Step.over {t : MsgState} (hf : f.Sound) (hi : f.InboxClean) (hm : f.Matched)
    (ht : t.terminal) (ho : (standing id f.journal).Over t) (hs : Spares id s f) :
    (standing id (s.after sid cfg f).journal).Over t := by
  obtain ⟨st, l, hmv, hst, -⟩ := s.moves sid cfg hf.rooted hf.clean
    (spareState_of_whole hs.1) id
  rw [hst]
  cases hmv with
  | part htn hp hfull =>
    rw [hfull hs.1, htn.eq_nil_of_over hf hi hm ht ho hs]
    exact ho
  | compacted pristine htn hcomp =>
    rw [htn.eq_nil_of_over hf hi hm ht ho hs]
    exact ho.compacted pristine
  | interrupted htn hcomp hcr => exact absurd hs.1 hcr
  | purged =>
    intro r hr
    cases hr
  | halfPurged hc hcr => exact absurd hs.1 hcr

/-! ## What a run answers -/

theorem mem_foldl_keepLatest (l : List Summary) (seen : OrdMap Text Summary) {e : Summary}
    (h : e ∈ (l.foldl keepLatest seen).values) : e ∈ seen.values ∨ e ∈ l := by
  induction l generalizing seen with
  | nil => exact .inl h
  | cons x l ih =>
    have hset : e ∈ (seen.set x.msgId x).values → e ∈ seen.values ∨ e ∈ x :: l := by
      intro he
      obtain ⟨k, hk⟩ := (OrdMap.mem_values_iff _).mp he
      rw [OrdMap.get?_set] at hk
      split at hk
      · exact .inr ((Option.some.inj hk) ▸ List.mem_cons_self)
      · exact .inl ((OrdMap.mem_values_iff _).mpr ⟨k, hk⟩)
    rw [List.foldl_cons] at h
    rcases ih _ h with h | h
    · rw [keepLatest] at h
      split at h
      · exact hset h
      · split at h
        · exact hset h
        · exact .inl h
    · exact .inr (List.mem_cons_of_mem _ h)

/-- `peek` tells the state of each message it lists. -/
theorem state_of_mem_peek {e : Summary} (h : e ∈ peek f) :
    ∃ r, (standing e.msgId f.journal).last = some r ∧ e.state = r.state := by
  rw [peek] at h
  split at h
  · cases h
  · rcases mem_foldl_keepLatest _ _ h with h | h
    · cases h
    · obtain ⟨m, -, hm⟩ := List.mem_filterMap.mp h
      obtain ⟨r, hr, rfl⟩ := Option.map_eq_some_iff.mp hm
      exact ⟨r, by rw [standing_last]; exact hr, rfl⟩

/-- What a run tells of a message in the terminal state `t`: no dequeue returns it, and where it
is listed, it is listed with that state. -/
def Quiet (sid : Text) (cfg : Config) (id : Text) (t : MsgState) (s : Step) (f : Files) : Prop :=
  (messageState id f = some t ∨ messageState id f = none) ∧
  (∀ m, (perform sid cfg s.now f s.call).1 = .message (some m) → m.msgId ≠ id) ∧
  ∀ e ∈ peek f, e.msgId = id → e.state = t

/-- An answer that is no dequeued message. -/
def Answer.NoMessage (a : Answer) : Prop := ∀ m, a ≠ .message m

theorem thenCompact_noMessage {ws : List Write} {a : Answer} (h : a.NoMessage) :
    (thenCompact sid cfg f ws a).1.NoMessage := by
  rw [thenCompact]
  split
  · exact fun m hm => by cases hm
  · exact h

theorem ack_noMessage {now : Int} (proof : Proof) : (ack sid cfg now id proof f).1.NoMessage := by
  have hdone : Answer.NoMessage .done := fun m hm => by cases hm
  have hthrew : Answer.NoMessage .threw := fun m hm => by cases hm
  rw [ack]
  split
  · exact hdone
  split
  · exact hdone
  dsimp only
  split
  · exact hdone
  · exact thenCompact_noMessage hdone
  split
  · exact hthrew
  split
  · exact hthrew
  split
  · split
    · exact hthrew
    · exact thenCompact_noMessage hdone
  · exact hthrew

/-- Only a dequeue returns a message, the one its search found. -/
theorem dequeued_of_answer {now : Int} {c : Call} {m : Message}
    (h : (perform sid cfg now f c).1 = .message (some m)) :
    c = .dequeue ∧ nextMessage now f = some m := by
  cases c with
  | dequeue => exact ⟨rfl, dequeue_answer h⟩
  | ack id proof => exact absurd h (ack_noMessage proof _)
  | compact => exact absurd h (thenCompact_noMessage (fun m hm => by cases hm) _)
  | expireStale =>
    rw [perform, expireStale] at h
    split at h
    · cases h
    · dsimp only at h
      split at h
      · cases h
      · exact absurd h (thenCompact_noMessage (fun m hm => by cases hm) _)
  | enqueue m =>
    rw [perform, enqueue] at h
    split at h
    · cases h
    · split at h <;> cases h
  | nack id reason =>
    rw [perform, nack] at h
    split at h
    · cases h
    · split at h
      · cases h
      · split at h <;> cases h
  | beginNonRetryableAttempt id =>
    rw [perform, beginNonRetryableAttempt] at h
    split at h
    · cases h
    · split at h
      · cases h
      · split at h
        · cases h
        · split at h <;> cases h
  | withdraw id reason o =>
    rw [perform, withdraw] at h
    split at h
    · cases h
    · split at h
      · cases h
      · split at h <;> cases h
  | recoverInflight =>
    rw [perform, recoverInflight] at h
    split at h <;> cases h
  | messageState id => cases h
  | peek => cases h
  | purge =>
    rw [perform, purge] at h
    split at h <;> cases h
  | purgeDeadLetter =>
    rw [perform, purgeDeadLetter] at h
    split at h <;> cases h
  | initializeCustody =>
    rw [perform, initializeCustody] at h
    split at h <;> cases h

variable (sid cfg s) in
theorem quiet_of_over {t : MsgState} (hf : f.Sound) (ht : t.terminal)
    (ho : (standing id f.journal).Over t) : Quiet sid cfg id t s f := by
  refine ⟨?_, fun m hm hid => ?_, fun e he hid => ?_⟩
  · rw [messageState_eq hf.rooted]
    cases hl : (standing id f.journal).last with
    | none => exact .inr rfl
    | some r => exact .inl (by rw [Option.map_some, ho r hl])
  · obtain ⟨-, r, hr, hp, -⟩ := nextMessage_eq_some (dequeued_of_answer hm).2
    rw [hid] at hr
    rw [← ho r hr, hp] at ht
    cases ht
  · obtain ⟨r, hr, hst⟩ := state_of_mem_peek he
    rw [hid] at hr
    rw [hst, ho r hr]

variable (sid cfg) in
/-- The files calls without a crash keep in order. -/
theorem sound_of_calls {steps : List Step} (hc : ∀ s ∈ steps, s.crash = none) :
    (run sid cfg .absent steps).Sound ∧ (run sid cfg .absent steps).InboxClean ∧
      (run sid cfg .absent steps).Matched := by
  have hgen : ∀ f : Files, f.Sound ∧ f.InboxClean ∧ f.Matched →
      (run sid cfg f steps).Sound ∧ (run sid cfg f steps).InboxClean ∧
        (run sid cfg f steps).Matched := by
    induction steps with
    | nil => exact fun f h => h
    | cons s steps ih =>
      rintro f ⟨hf, hi, hm⟩
      have hs := hc s List.mem_cons_self
      exact ih (fun x hx => hc x (List.mem_cons_of_mem _ hx)) _
        ⟨s.sound hf (Step.spareState_of_whole hs),
          s.inboxClean hf (Step.spareState_of_whole hs) hi (Step.spareInbox_of_whole hs),
          s.matched hf hi hm hs⟩
  exact hgen _ ⟨Files.sound_absent, Files.inboxClean_absent, fun _ _ => rfl⟩

/-- **Terminal states are absorbing**, for the calls that spare the message: whatever calls brought
the message to a terminal state, from then on it is in that state or its rows are gone, no dequeue
returns it, and a peek lists it with that state only. -/
theorem terminal_absorbing (sid : Text) (cfg : Config) (id : Text) (t : MsgState)
    (before after : List Step) (hb : ∀ s ∈ before, s.crash = none) (ht : t.terminal)
    (hst : messageState id (run sid cfg .absent before) = some t)
    (hs : Along sid cfg (Spares id) (run sid cfg .absent before) after) :
    Along sid cfg (Quiet sid cfg id t) (run sid cfg .absent before) after ∧
      (messageState id (run sid cfg .absent (before ++ after)) = some t ∨
        messageState id (run sid cfg .absent (before ++ after)) = none) := by
  obtain ⟨hf, hi, hm⟩ := sound_of_calls sid cfg hb
  rw [run_append]
  generalize run sid cfg .absent before = f at *
  have ho : (standing id f.journal).Over t := by
    intro r hr
    rw [messageState_eq hf.rooted, hr] at hst
    exact Option.some.inj hst
  clear hst hb
  induction after generalizing f with
  | nil => exact ⟨trivial, (quiet_of_over sid cfg ⟨0, .peek, none⟩ hf ht ho).1⟩
  | cons s after ih =>
    obtain ⟨hsp, hrest⟩ := hs
    have hw : s.SpareState sid cfg f := Step.spareState_of_whole hsp.1
    obtain ⟨hq, hend⟩ := ih _ hrest (s.sound hf hw)
      (s.inboxClean hf hw hi (Step.spareInbox_of_whole hsp.1)) (s.matched hf hi hm hsp.1)
      (s.over hf hi hm ht ho hsp)
    exact ⟨⟨quiet_of_over sid cfg s hf ht ho, hq⟩, hend⟩

/-- A call that is not cut by a crash. -/
def Step.whole (now : Int) (c : Call) : Step := ⟨now, c, none⟩

/-- One message delivered. -/
def deliveredSteps : List Step :=
  [.whole 5 (.enqueue ⟨"m", none, "s", "hi", 5, 0, none⟩), .whole 5 .dequeue,
    .whole 5 (.ack "m" .none)]

/-- A delivered message stays acknowledged over a sweep, a second acknowledgement and a dequeue. -/
theorem terminal_absorbing_delivered :
    let after := [Step.whole 6 .recoverInflight, .whole 6 .expireStale, .whole 7 (.ack "m" .none),
      .whole 8 .dequeue]
    Along "s" .default (Quiet "s" .default "m" .acked) (run "s" .default .absent deliveredSteps)
        after ∧
      (messageState "m" (run "s" .default .absent (deliveredSteps ++ after)) = some .acked ∨
        messageState "m" (run "s" .default .absent (deliveredSteps ++ after)) = none) :=
  terminal_absorbing "s" .default "m" .acked deliveredSteps _
    (by simp [deliveredSteps, Step.whole]) rfl (by decide +kernel)
    ⟨⟨rfl, trivial⟩, ⟨rfl, trivial⟩, ⟨rfl, fun _ => by decide +kernel⟩,
      ⟨rfl, trivial⟩, trivial⟩

/-- **A terminal message can come back.** A failed delivery reported after the acknowledgement makes
the message pending again and it is dequeued once more; an expired message can be acknowledged; a
message whose rows the compaction dropped can be enqueued again; and a peek lists an acknowledged
message. -/
theorem terminal_revived :
    let acked := run "s" .default .absent deliveredSteps
    let nacked := run "s" .default acked [.whole 5 (.nack "m" "late")]
    let expired := run "s" .default .absent
      [.whole 5 (.enqueue ⟨"m", none, "s", "hi", 5, 0, none⟩), .whole 100000 .expireStale]
    let dropped := run "s" ⟨3, 1, 86400, 30, 1⟩ .absent deliveredSteps
    messageState "m" acked = some .acked ∧
      (peek acked).map (fun e => (e.msgId, e.state)) = [(("m" : Text), MsgState.acked)] ∧
      messageState "m" nacked = some .pending ∧
      (nextMessage 10 nacked).map (·.msgId) = some ("m" : Text) ∧
      messageState "m" expired = some .expired ∧
      messageState "m" (run "s" .default expired [.whole 100001 (.ack "m" .none)]) = some .acked ∧
      messageState "m" dropped = none ∧
      messageState "m" (run "s" ⟨3, 1, 86400, 30, 1⟩ dropped
        [.whole 6 (.enqueue ⟨"m", none, "s", "hi", 5, 0, none⟩)]) = some .pending := by
  decide +kernel

end Telepty.Mailbox
