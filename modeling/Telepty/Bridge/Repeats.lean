import Mathlib.Data.List.Destutter
import Telepty.Bridge.Arrival

/-!
# Repeated questions at a flush

`filterBridgeBatch` drops a message whose payload is the last one it delivered, so what it delivers of
the fresh payloads is their `destutter`. The daemon however sends a body and its submit as two
records. Between two equal bodies the filter sees a submit, and the last payload delivered is `'\r'`:
a batch of such pairs is delivered whole, and a question that was asked twice in a row is written
twice.

The submit of a dropped body is decided on in the second loop of the flush, so what is delivered is
read off the timers the flush sets.
-/

namespace Telepty.Bridge

open Infra Mailbox Action

/-! ## What the filter delivers -/

/-- The message is not older than the bound. -/
def Message.Fresh (ttlSecs nowSecs : Int) (m : Message) : Prop := nowSecs - m.createdAt ≤ ttlSecs

instance (ttlSecs nowSecs : Int) : DecidablePred (Message.Fresh ttlSecs nowSecs) :=
  fun m => inferInstanceAs (Decidable (nowSecs - m.createdAt ≤ ttlSecs))

/-- The payloads without a reason to be dropped. -/
def kept (judged : List (Message × Option Drop)) : List Text :=
  (judged.filter (·.2.isNone)).map (·.1.payload)

def freshPayloads (ttlSecs nowSecs : Int) (batch : List Message) : List Text :=
  (batch.filter fun m => decide (Message.Fresh ttlSecs nowSecs m)).map (·.payload)

section

variable {ttlSecs nowSecs : Int}

theorem kept_filterFrom (last : Text) (batch : List Message) :
    last :: kept (filterFrom ttlSecs nowSecs (some last) batch) =
      (freshPayloads ttlSecs nowSecs batch).destutter' (· ≠ ·) last := by
  induction batch generalizing last with
  | nil => rfl
  | cons m batch ih =>
    rw [filterFrom]
    by_cases hfresh : Message.Fresh ttlSecs nowSecs m
    · have hcons : freshPayloads ttlSecs nowSecs (m :: batch) =
          m.payload :: freshPayloads ttlSecs nowSecs batch := by
        simp [freshPayloads, hfresh]
      rw [if_neg (Int.not_lt.mpr hfresh), hcons]
      by_cases heq : last = m.payload
      · rw [if_pos (congrArg some heq), List.destutter'_cons_neg _ (not_not_intro heq), ← ih]
        rfl
      · rw [if_neg (fun h => heq (Option.some.inj h)), List.destutter'_cons_pos _ heq, ← ih]
        rfl
    · have hcons : freshPayloads ttlSecs nowSecs (m :: batch) =
          freshPayloads ttlSecs nowSecs batch := by
        simp [freshPayloads, hfresh]
      rw [if_pos (Int.not_le.mp hfresh), hcons, ← ih]
      rfl

/-- **The filter destutters the fresh payloads**: what is stale does not count as delivered. -/
theorem kept_filterBridgeBatch (batch : List Message) :
    kept (filterBridgeBatch batch ttlSecs nowSecs) =
      (freshPayloads ttlSecs nowSecs batch).destutter (· ≠ ·) := by
  unfold filterBridgeBatch
  induction batch with
  | nil => rfl
  | cons m batch ih =>
    rw [filterFrom]
    by_cases hfresh : Message.Fresh ttlSecs nowSecs m
    · have hcons : freshPayloads ttlSecs nowSecs (m :: batch) =
          m.payload :: freshPayloads ttlSecs nowSecs batch := by
        simp [freshPayloads, hfresh]
      rw [if_neg (Int.not_lt.mpr hfresh), if_neg (by simp), hcons, List.destutter_cons',
        ← kept_filterFrom]
      rfl
    · have hcons : freshPayloads ttlSecs nowSecs (m :: batch) =
          freshPayloads ttlSecs nowSecs batch := by
        simp [freshPayloads, hfresh]
      rw [if_pos (Int.not_le.mp hfresh), hcons, ← ih]
      rfl

/-- A fresh batch without repetitions is delivered whole. -/
theorem filterBridgeBatch_of_isChain {batch : List Message}
    (hfresh : ∀ m ∈ batch, Message.Fresh ttlSecs nowSecs m)
    (hchain : (batch.map (·.payload)).IsChain (· ≠ ·)) :
    ∀ e ∈ filterBridgeBatch batch ttlSecs nowSecs, e.2 = none := by
  have hall : freshPayloads ttlSecs nowSecs batch = batch.map (·.payload) := by
    rw [freshPayloads, List.filter_eq_self.mpr fun m hm => decide_eq_true (hfresh m hm)]
  have hkept : kept (filterBridgeBatch batch ttlSecs nowSecs) =
      (freshPayloads ttlSecs nowSecs batch).destutter (· ≠ ·) := kept_filterBridgeBatch batch
  rw [hall, List.destutter_of_isChain (· ≠ ·) _ hchain] at hkept
  have hbatch := map_fst_filterBridgeBatch batch ttlSecs nowSecs
  have hlen := congrArg List.length hkept
  rw [kept, List.length_map, List.length_map, ← congrArg List.length hbatch, List.length_map] at hlen
  intro e he
  exact Option.isNone_iff_eq_none.mp (List.length_filter_eq_length_iff.mp hlen e he)

end

/-! ## Bodies with their submits -/

/-- A body and its submit, queued as two records. -/
structure Question where
  body : Message
  submit : Message

def Question.records (q : Question) : List Message := [q.body, q.submit]

def records (questions : List Question) : List Message := questions.flatMap Question.records

/-- A fresh batch as the daemon sends it. No submit of it was refused before, and no body that it
names was quarantined. -/
structure Sent (b : Context) (ttlSecs nowSecs : Int) (questions : List Question) : Prop where
  fresh : ∀ m ∈ records questions, Message.Fresh ttlSecs nowSecs m
  body : ∀ q ∈ questions, q.body.payload ≠ cr
  submit : ∀ q ∈ questions, q.submit.payload = cr
  distinct : ((records questions).map (·.msgId)).Nodup
  standing : ∀ m ∈ records questions, (b.bridgeRecords.get? m.msgId).any (·.pairRefused) = false
  pairing : ∀ q ∈ questions, ∀ pair, (idsOf (b.bridgeRecords.get? q.submit.msgId)).pair = some pair →
    pair ∉ b.unwrittenBodies

/-- The part of a flush behind the dequeues. -/
def flushBatch (env : Env) (cfg : Setup) (batch : List Message) (nowSecs delay : Nat) : Act Unit := do
  let judged := filterBridgeBatch batch cfg.injectTtlSecs (nowSecs : Nat)
  dropAll env cfg judged
  scheduleAll env cfg ((judged.filter (·.2.isSome)).map (·.1.msgId)) none delay judged

/-- The ids of the messages that a flush of a batch sets a timer for. -/
def delivered (env : Env) (cfg : Setup) (b : Context) (batch : List Message) (nowSecs delay : Nat) :
    List Text :=
  (((flushBatch env cfg batch nowSecs delay).after b).deliveryTimers.drop
    b.deliveryTimers.length).map (·.msgId)

/-- Consecutive identical questions collapse. -/
structure Collapses (questions : List Question) (delivered : List Text) : Prop where
  /-- no two delivered bodies are identical and consecutive -/
  bodies : ((questions.filter fun q => q.body.msgId ∈ delivered).map (·.body.payload)).IsChain (· ≠ ·)
  /-- a body that differs from the one delivered before it is delivered -/
  others : ∀ before q after, questions = before ++ q :: after →
    (∀ q', (before.filter fun q => q.body.msgId ∈ delivered).getLast? = some q' →
      q'.body.payload ≠ q.body.payload) → q.body.msgId ∈ delivered
  /-- a submit is delivered if its body is, and only then -/
  submits : ∀ q ∈ questions, q.submit.msgId ∈ delivered ↔ q.body.msgId ∈ delivered

variable {env : Env} {cfg : Setup} {b : Context} {questions : List Question}

/-- The flush, with the part behind the dequeues in one piece. -/
theorem flushBridgeMailbox_eq :
    flushBridgeMailbox env cfg = (do
      if !(← get).canWrite then return
      modify fun b => { b with queueFlushTimer := false, idleCheckTimer := false }
      if (← get).bridgePendingCount = 0 then return
      let delay ← firstDelay env
      let batch ← dequeueAll env cfg (dequeueBound (← get).mailbox)
      if batch.isEmpty then
        modify fun b => { b with bridgePendingCount := 0 }
        return
      let nowSecs := (← now env) / 1000
      flushBatch env cfg batch nowSecs delay
      modify fun b => { b with
        bridgePendingCount := b.bridgePendingCount - batch.length
        promptReady := false }) := by
  simp only [flushBridgeMailbox, flushBatch, bind_assoc]

/-- Bodies and submits alternate, so no payload follows itself. -/
theorem isChain_records {ttlSecs nowSecs : Int} (h : Sent b ttlSecs nowSecs questions) :
    ((records questions).map (·.payload)).IsChain (· ≠ ·) := by
  have hbody := h.body
  have hsubmit := h.submit
  clear h
  induction questions with
  | nil => exact .nil
  | cons q questions ih =>
    have hne : q.body.payload ≠ q.submit.payload := by
      rw [hsubmit q List.mem_cons_self]
      exact hbody q List.mem_cons_self
    have ih := ih (fun x hx => hbody x (List.mem_cons_of_mem _ hx))
      fun x hx => hsubmit x (List.mem_cons_of_mem _ hx)
    show (q.body.payload :: q.submit.payload :: (records questions).map (·.payload)).IsChain (· ≠ ·)
    refine List.isChain_cons_cons.mpr ⟨hne, ?_⟩
    cases questions with
    | nil => exact .singleton _
    | cons q' questions =>
      refine List.isChain_cons_cons.mpr ⟨?_, ih⟩
      rw [hsubmit q List.mem_cons_self]
      exact (hbody q' (List.mem_cons_of_mem _ List.mem_cons_self)).symm

/-- **What is not dropped gets a timer**, unless it is a submit that stands alone or a body that must
wait for none. -/
theorem ends_scheduleAll (judged : List (Message × Option Drop)) {previous : Option Message}
    {delay : Nat} (hnone : ∀ e ∈ judged, e.2 = none)
    (hstanding : ∀ e ∈ judged, (b.bridgeRecords.get? e.1.msgId).any (·.pairRefused) = false)
    (hpairing : ∀ e ∈ judged, e.1.payload = cr → ∀ pair,
      (idsOf (b.bridgeRecords.get? e.1.msgId)).pair = some pair → pair ∉ b.unwrittenBodies) :
    (scheduleAll env cfg [] previous delay judged).Ends b
      (fun _ b' => b'.deliveryTimers.map (·.msgId) =
        b.deliveryTimers.map (·.msgId) ++ judged.map (·.1.msgId)) Never := by
  induction judged generalizing previous delay b with
  | nil => exact (List.append_nil _).symm
  | cons e judged ih =>
    obtain ⟨m, why⟩ := e
    obtain rfl : why = none := hnone _ List.mem_cons_self
    unfold scheduleAll
    rw [ends_bind, ends_get]
    refine ends_ite (fun halone => absurd halone ?_) fun _ => ends_ite (fun hrefused => ?_) fun _ => ?_
    · have hpair := hpairing _ List.mem_cons_self
      intro halone
      rw [Bool.and_eq_true, decide_eq_true_eq] at halone
      obtain ⟨hcr, halone⟩ := halone
      split at halone
      · next pair hp => exact hpair hcr pair hp (of_decide_eq_true halone)
      · simp at halone
    · rw [hstanding _ List.mem_cons_self] at hrefused
      cases hrefused
    · rw [ends_bind, ends_now, ends_bind, ends_now, ends_bind, ends_modify]
      refine Ends.mono (ih (fun e he => hnone e (List.mem_cons_of_mem _ he))
        (fun e he => hstanding e (List.mem_cons_of_mem _ he))
        fun e he => hpairing e (List.mem_cons_of_mem _ he)) (fun _ b' h => ?_) fun _ _ h => h
      rw [h, List.map_append, List.append_assoc]
      rfl

theorem dropAll_of_none (judged : List (Message × Option Drop)) (hnone : ∀ e ∈ judged, e.2 = none) :
    dropAll env cfg judged = pure () := by
  induction judged with
  | nil => rfl
  | cons e judged ih =>
    obtain ⟨m, why⟩ := e
    obtain rfl : why = none := hnone _ List.mem_cons_self
    exact ih fun e he => hnone e (List.mem_cons_of_mem _ he)

/-- **Such a batch is delivered whole.** -/
theorem delivered_records {nowSecs : Nat} (h : Sent b cfg.injectTtlSecs nowSecs questions)
    (delay : Nat) :
    delivered env cfg b (records questions) nowSecs delay = (records questions).map (·.msgId) := by
  have hnone := filterBridgeBatch_of_isChain h.fresh (isChain_records h)
  generalize hj : filterBridgeBatch (records questions) cfg.injectTtlSecs (nowSecs : Nat) = judged
    at hnone
  have hfst : judged.map (·.1) = records questions := by
    rw [← hj]
    exact map_fst_filterBridgeBatch _ _ _
  have hmem : ∀ e ∈ judged, e.1 ∈ records questions := by
    intro e he
    rw [← hfst]
    exact List.mem_map_of_mem he
  have hdropped : judged.filter (·.2.isSome) = [] := by
    rw [List.filter_eq_nil_iff]
    intro e he
    rw [hnone e he]
    exact Bool.false_ne_true
  have hpairing : ∀ e ∈ judged, e.1.payload = cr → ∀ pair,
      (idsOf (b.bridgeRecords.get? e.1.msgId)).pair = some pair → pair ∉ b.unwrittenBodies := by
    intro e he hcr pair hp
    obtain ⟨q, hq, hm⟩ := List.mem_flatMap.mp (hmem e he)
    rcases List.mem_cons.mp hm with hm | hm
    · exact absurd (hm ▸ hcr) (h.body q hq)
    · rw [List.mem_singleton.mp hm] at hp
      exact h.pairing q hq pair hp
  have hends : (scheduleAll env cfg [] none delay judged).Ends b
      (fun _ b' => b'.deliveryTimers.map (·.msgId) =
        b.deliveryTimers.map (·.msgId) ++ judged.map (·.1.msgId)) Never :=
    ends_scheduleAll judged hnone (fun e he => h.standing _ (hmem e he)) hpairing
  have hflush : flushBatch env cfg (records questions) nowSecs delay =
      scheduleAll env cfg [] none delay judged := by
    unfold flushBatch
    dsimp only
    rw [hj, dropAll_of_none judged hnone, hdropped]
    rfl
  have hafter := Ends.after (hends.weaken : Ends _ b _ fun _ b' => b'.deliveryTimers.map (·.msgId) =
    b.deliveryTimers.map (·.msgId) ++ judged.map (·.1.msgId))
  rw [delivered, hflush, List.map_drop, hafter, List.drop_left' (List.length_map _), ← hfst,
    List.map_map]
  rfl

/-- **Consecutive identical questions collapse where there are none.** A batch of bodies with their
submits is delivered whole, so what the flush is for holds just where no body is followed by an
identical one. -/
theorem collapses_iff (env : Env) (cfg : Setup) (b : Context) (questions : List Question)
    (nowSecs delay : Nat) (h : Sent b cfg.injectTtlSecs nowSecs questions) :
    Collapses questions (delivered env cfg b (records questions) nowSecs delay) ↔
      (questions.map (·.body.payload)).IsChain (· ≠ ·) := by
  rw [delivered_records h]
  have hbody : ∀ q ∈ questions, q.body.msgId ∈ (records questions).map (·.msgId) := fun q hq =>
    List.mem_map_of_mem (List.mem_flatMap.mpr ⟨q, hq, List.mem_cons_self⟩)
  have hsubmit : ∀ q ∈ questions, q.submit.msgId ∈ (records questions).map (·.msgId) := fun q hq =>
    List.mem_map_of_mem (List.mem_flatMap.mpr
      ⟨q, hq, List.mem_cons_of_mem _ List.mem_cons_self⟩)
  have hall : questions.filter (fun q => q.body.msgId ∈ (records questions).map (·.msgId)) =
      questions := List.filter_eq_self.mpr fun q hq => decide_eq_true (hbody q hq)
  constructor
  · intro hc
    have := hc.bodies
    rwa [hall] at this
  · intro hchain
    refine ⟨by rwa [hall], fun before q after heq _ => hbody q ?_, fun q hq => ?_⟩
    · rw [heq]
      exact List.mem_append_right _ List.mem_cons_self
    · exact iff_of_true (hsubmit q hq) (hbody q hq)

/-- A question and its submit, asked at second 100. -/
def asked (msgId text : Text) : Question :=
  ⟨⟨msgId, none, ['s'], text, 100, 0, none⟩, ⟨msgId ++ ['+'], none, ['s'], cr, 100, 0, none⟩⟩

/-- The same question twice, with the submit of the first between. -/
def askedTwice : List Question := [asked ['1'] ['q'], asked ['2'] ['q']]

theorem sent_asked {b : Context} (hb : b.bridgeRecords = .empty) {questions : List Question}
    (h : ∀ q ∈ questions, ∃ msgId text, text ≠ cr ∧ q = asked msgId text)
    (hd : ((records questions).map (·.msgId)).Nodup) : Sent b 600 100 questions where
  fresh m hm := by
    obtain ⟨q, hq, hm⟩ := List.mem_flatMap.mp hm
    obtain ⟨msgId, text, -, rfl⟩ := h q hq
    have hfresh : (100 : Int) - 100 ≤ 600 := by decide
    rcases List.mem_cons.mp hm with rfl | hm
    · exact hfresh
    · rw [List.mem_singleton.mp hm]
      exact hfresh
  body q hq := by
    obtain ⟨msgId, text, hne, rfl⟩ := h q hq
    exact hne
  submit q hq := by
    obtain ⟨msgId, text, -, rfl⟩ := h q hq
    rfl
  distinct := hd
  standing m _ := by rw [hb]; rfl
  pairing q _ pair hp := by rw [hb] at hp; cases hp

/-- **The same question asked twice is written twice.** -/
theorem asked_twice_not_collapsed :
    Sent (.fresh .absent) 600 100 askedTwice ∧
      ¬Collapses askedTwice
        (delivered tenthsEnv (.default ['s'] true) (.fresh .absent) (records askedTwice) 100 0) := by
  refine ⟨sent_asked rfl (fun q hq => ?_) (by decide), fun h => ?_⟩
  · rcases List.mem_cons.mp hq with rfl | hq
    · exact ⟨_, _, by decide, rfl⟩
    · rw [List.mem_singleton.mp hq]
      exact ⟨_, _, by decide, rfl⟩
  · have hall : delivered tenthsEnv (.default ['s'] true) (.fresh .absent) (records askedTwice) 100 0 =
        [['1'], ['1', '+'], ['2'], ['2', '+']] := by decide +kernel
    have hbodies := h.bodies
    rw [hall] at hbodies
    revert hbodies
    decide

/-- Two questions that differ. -/
theorem collapses_iff_asked :
    Sent (.fresh .absent) 600 100 [asked ['1'] ['q'], asked ['2'] ['r']] ∧
      Collapses [asked ['1'] ['q'], asked ['2'] ['r']]
        (delivered tenthsEnv (.default ['s'] true) (.fresh .absent)
          (records [asked ['1'] ['q'], asked ['2'] ['r']]) 100 0) := by
  have hsent : Sent (.fresh .absent) 600 100 [asked ['1'] ['q'], asked ['2'] ['r']] := by
    refine sent_asked rfl (fun q hq => ?_) (by decide)
    rcases List.mem_cons.mp hq with rfl | hq
    · exact ⟨_, _, by decide, rfl⟩
    · rw [List.mem_singleton.mp hq]
      exact ⟨_, _, by decide, rfl⟩
  exact ⟨hsent, (collapses_iff tenthsEnv (.default ['s'] true) (.fresh .absent) _ 100 0 hsent).mpr
    (by decide)⟩

end Telepty.Bridge
