import Telepty.Mailbox.Standing

/-!
# What an operation does to one message

`Turn` lists it: the rows of message `id` that a call appends, and where the message stood when it
did. `perform_splits` reads every operation this way, and `Step.moves` a whole step, a crash between
two writes included: the rows written are then a prefix of the turn. What must never happen to a
message is shown from `Moves` alone, without looking into the operations again.
-/

namespace Telepty.Mailbox

open Infra

/-! ## The writes about one message -/

/-- Whether a write is a row of message `id`. -/
def Write.about (id : Text) : Write → Bool
  | .appendInbox m => m.msgId = id
  | .appendState r => r.msgId = id
  | _ => false

/-- Whether a write leaves the rows that are there. -/
def Write.appends : Write → Bool
  | .writeInbox _ | .writeState _ => false
  | _ => true

def Standing.write (s : Standing) : Write → Standing
  | .appendState r => s.push r
  | _ => s

/-- The standing after rows of the message. -/
def Standing.turn (s : Standing) (ws : List Write) : Standing := ws.foldl Standing.write s

@[simp] theorem Standing.turn_nil (s : Standing) : s.turn [] = s := rfl

@[simp] theorem Standing.turn_cons (s : Standing) (w : Write) (ws : List Write) :
    s.turn (w :: ws) = (s.write w).turn ws := rfl

/-- Rows of other messages leave a message where it stands. -/
theorem standing_appends (id : Text) (ws : List Write) (h : ∀ w ∈ ws, w.appends)
    (j : List StateRow) :
    standing id (ws.foldl Write.onState j)
      = (standing id j).turn (ws.filter (Write.about id)) := by
  induction ws generalizing j with
  | nil => rfl
  | cons w ws ih =>
    have ih := ih (fun x hx => h x (List.mem_cons_of_mem _ hx)) (w.onState j)
    rw [List.foldl_cons, ih]
    cases w with
    | appendState r =>
      rw [Write.onState, standing_concat]
      by_cases hr : r.msgId = id
      · rw [if_pos hr, List.filter_cons_of_pos (by simpa [Write.about] using hr)]
        rfl
      · rw [if_neg hr, List.filter_cons_of_neg (by simpa [Write.about] using hr)]
    | appendInbox m =>
      rw [List.filter_cons]
      split <;> rfl
    | mkdir => rfl
    | appendDead d => rfl
    | writeInbox ms => exact absurd (h _ List.mem_cons_self) (by simp [Write.appends])
    | writeState rs => exact absurd (h _ List.mem_cons_self) (by simp [Write.appends])
    | writeDead ds => rfl

/-- Rows of one message are all of its turn. -/
theorem filter_about_self {id : Text} {ws : List Write} (h : ∀ w ∈ ws, w.about id) :
    ws.filter (Write.about id) = ws := List.filter_eq_self.mpr h

/-- Rows of other messages are no part of a turn. -/
theorem filter_about_none {id : Text} {ws : List Write} (h : ∀ w ∈ ws, w.about id = false) :
    ws.filter (Write.about id) = [] :=
  List.filter_eq_nil_iff.mpr fun w hw => by rw [h w hw]; exact Bool.false_ne_true

/-! ## Latest rows -/

theorem latestOf_concat (id : Text) (ms : List Message) (m : Message) :
    latestOf id (ms ++ [m])
      = if m.msgId = id then some (later (latestOf id ms) m) else latestOf id ms := by
  rw [latestOf, List.filter_append]
  split
  · next h =>
    rw [List.filter_cons_of_pos (by simpa using h), List.filter_nil, List.foldl_append]
    rfl
  · next h =>
    rw [List.filter_cons_of_neg (by simpa using h), List.filter_nil, List.append_nil]
    rfl

/-- The latest row of a message is one of its rows. -/
theorem mem_of_latestOf {id : Text} {ms : List Message} {m : Message}
    (h : latestOf id ms = some m) : m ∈ ms ∧ m.msgId = id := by
  induction ms using List.reverseRecOn generalizing m with
  | nil => cases h
  | append_singleton ms x ih =>
    rw [latestOf_concat] at h
    split at h
    · next hx =>
      rw [Option.some.injEq] at h
      cases hl : latestOf id ms with
      | none =>
        rw [hl, later] at h
        exact ⟨List.mem_append_right _ (List.mem_singleton.mpr h.symm), h ▸ hx⟩
      | some l =>
        obtain ⟨hm, hid⟩ := ih hl
        rw [hl, later] at h
        split at h
        · exact ⟨List.mem_append_right _ (List.mem_singleton.mpr h.symm), h ▸ hx⟩
        · exact ⟨List.mem_append_left _ (h ▸ hm), h ▸ hid⟩
    · obtain ⟨hm, hid⟩ := ih h
      exact ⟨List.mem_append_left _ hm, hid⟩

theorem latest_concat (ms : List Message) (m : Message) :
    latest (ms ++ [m]) = (latest ms).set m.msgId (later ((latest ms).get? m.msgId) m) := by
  rw [latest, List.foldl_append]
  rfl

theorem latest_get? (ms : List Message) (id : Text) : (latest ms).get? id = latestOf id ms := by
  induction ms using List.reverseRecOn with
  | nil => rfl
  | append_singleton ms m ih =>
    rw [latest_concat, OrdMap.get?_set, latestOf_concat]
    by_cases h : m.msgId = id
    · rw [if_pos h.symm, if_pos h, h, ih]
    · rw [if_neg (Ne.symm h), if_neg h, ih]

theorem mem_latest_values {ms : List Message} {m : Message} :
    m ∈ (latest ms).values ↔ latestOf m.msgId ms = some m := by
  rw [OrdMap.mem_values_iff]
  constructor
  · rintro ⟨id, h⟩
    rw [latest_get?] at h
    rw [(mem_of_latestOf h).2]
    exact h
  · intro h
    exact ⟨m.msgId, by rw [latest_get?, h]⟩

/-- Rows of other messages do not change the latest row of a message. -/
theorem latestOf_appends (id : Text) (ws : List Write) (h : ∀ w ∈ ws, w.appends)
    (hid : ∀ w ∈ ws, w.about id = false) (ms : List Message) :
    latestOf id (ws.foldl Write.onInbox ms) = latestOf id ms := by
  induction ws generalizing ms with
  | nil => rfl
  | cons w ws ih =>
    rw [List.foldl_cons, ih (fun x hx => h x (List.mem_cons_of_mem _ hx))
      (fun x hx => hid x (List.mem_cons_of_mem _ hx))]
    cases w with
    | appendInbox m =>
      have hm := hid _ List.mem_cons_self
      rw [Write.onInbox, latestOf_concat, if_neg (by simpa [Write.about] using hm)]
    | writeInbox ms => exact absurd (h _ List.mem_cons_self) (by simp [Write.appends])
    | _ => rfl

/-! ## The search of a dequeue -/

/-- Whether a message may be dequeued now. -/
def due (states : OrdMap Text StateRow) (now : Int) (m : Message) : Bool :=
  ((states.get? m.msgId).any fun r => r.state = .pending) && m.createdAt ≤ now

theorem pickNext_eq (states : OrdMap Text StateRow) (now : Int) (next : Option Message)
    (m : Message) :
    pickNext states now next m = if due states now m then
      match next with
      | none => some m
      | some n => if m.createdAt < n.createdAt then some m else some n
    else next := rfl

/-- The search finds the first of the oldest due messages. -/
theorem foldl_pickNext (states : OrdMap Text StateRow) (now : Int) (l : List Message) :
    match l.foldl (pickNext states now) none with
    | none => ∀ m ∈ l, due states now m = false
    | some m => ∃ a b, l = a ++ m :: b ∧ due states now m = true ∧
        (∀ x ∈ a, due states now x = true → m.createdAt < x.createdAt) ∧
        ∀ x ∈ b, due states now x = true → m.createdAt ≤ x.createdAt := by
  induction l using List.reverseRecOn with
  | nil =>
    intro m hm
    cases hm
  | append_singleton l x ih =>
    rw [List.foldl_append, List.foldl_cons, List.foldl_nil, pickNext_eq]
    cases hx : due states now x with
    | false =>
      rw [if_neg (by simp)]
      cases hl : l.foldl (pickNext states now) none with
      | none =>
        rw [hl] at ih
        intro m hm
        rcases List.mem_append.mp hm with hm | hm
        · exact ih m hm
        · rw [List.mem_singleton.mp hm, hx]
      | some m =>
        rw [hl] at ih
        obtain ⟨a, b, rfl, hd, ha, hb⟩ := ih
        refine ⟨a, b ++ [x], by simp, hd, ha, fun y hy hdy => ?_⟩
        rcases List.mem_append.mp hy with hy | hy
        · exact hb y hy hdy
        · rw [List.mem_singleton.mp hy, hx] at hdy
          cases hdy
    | true =>
      rw [if_pos rfl]
      cases hl : l.foldl (pickNext states now) none with
      | none =>
        rw [hl] at ih
        refine ⟨l, [], rfl, hx, fun y hy hdy => ?_, fun y hy => by cases hy⟩
        rw [ih y hy] at hdy
        cases hdy
      | some m =>
        rw [hl] at ih
        obtain ⟨a, b, rfl, hd, ha, hb⟩ := ih
        dsimp only
        by_cases hlt : x.createdAt < m.createdAt
        · rw [if_pos hlt]
          refine ⟨a ++ m :: b, [], rfl, hx, fun y hy hdy => ?_, fun y hy => by cases hy⟩
          rcases List.mem_append.mp hy with hy | hy
          · exact Int.lt_trans hlt (ha y hy hdy)
          · rcases List.mem_cons.mp hy with rfl | hy
            · exact hlt
            · exact Int.lt_of_lt_of_le hlt (hb y hy hdy)
        · rw [if_neg hlt]
          refine ⟨a, b ++ [x], by simp, hd, ha, fun y hy hdy => ?_⟩
          rcases List.mem_append.mp hy with hy | hy
          · exact hb y hy hdy
          · rw [List.mem_singleton.mp hy]
            exact Int.not_lt.mp hlt

theorem nextMessage_eq_some {now : Int} {f : Files} {m : Message} (h : nextMessage now f = some m) :
    latestOf m.msgId f.messages = some m ∧
      ∃ r, (standing m.msgId f.journal).last = some r ∧ r.state = .pending ∧ m.createdAt ≤ now := by
  have hspec := foldl_pickNext (loadStates f.journal) now (latest f.messages).values
  rw [show (latest f.messages).values.foldl _ none = some m from h] at hspec
  obtain ⟨a, b, hl, hd, -, -⟩ := hspec
  have hm : m ∈ (latest f.messages).values := by
    rw [hl]
    exact List.mem_append_right _ List.mem_cons_self
  rw [due, Bool.and_eq_true, Option.any_eq_true, decide_eq_true_iff] at hd
  obtain ⟨⟨r, hr, hp⟩, hc⟩ := hd
  exact ⟨mem_latest_values.mp hm, r, by rw [standing_last, hr], of_decide_eq_true hp, hc⟩

/-- A dequeue answers the message its search found. -/
theorem dequeue_answer {now : Int} {f : Files} {m : Message}
    (h : (dequeue now f).1 = .message (some m)) : nextMessage now f = some m := by
  rw [dequeue] at h
  split at h
  · simp at h
  · split at h
    · simp at h
    · next m' hm =>
      rw [hm]
      simpa using h

/-! ## Turns -/

/-- A call that counts as a failed attempt of a message that stands at `s`. -/
def Failed (cfg : Config) (now : Int) (id : Text) (s : Standing) (c : Call) : Prop :=
  (∃ reason, c = .nack id reason ∧ ∀ r, s.last = some r → r.state ≠ .deadLetter) ∨
    c = .recoverInflight ∧ ∃ r, s.last = some r ∧ r.state = .inFlight ∧
      r.mark ≠ .nonRetryableAttempt ∧ cfg.inflightTimeoutSecs ≤ now - r.ts

/-- The row of the next attempt. -/
def Message.next (cfg : Config) (now : Int) (m : Message) : Message :=
  { m with createdAt := now + cfg.backoff (m.attempt + 1), attempt := m.attempt + 1,
           handoff := none }

/-- The rows of message `id` that a call writes where the message stands at `s`. `L m` says that
`m` is its latest row. -/
inductive Turn (sid : Text) (cfg : Config) (now : Int) (id : Text) (s : Standing)
    (L : Message → Prop) : Call → List Write → Prop where
  | quiet (c : Call) : Turn sid cfg now id s L c []
  | enqueued {m : Message} (hid : m.msgId = id) (hs : s.last = none) :
    Turn sid cfg now id s L (.enqueue m)
      [.appendInbox { m with recipient := sid }, .appendState (m.firstRow now)]
  | dequeued {r : StateRow} {m : Message} (hs : s.last = some r) (hr : r.state = .pending)
    (hm : L m) (hd : m.createdAt ≤ now) :
    Turn sid cfg now id s L .dequeue [.appendState (plainRow id .inFlight now)]
  | acked {proof : Proof} {rest : List Write}
    (hs : ∀ r, s.last = some r → r.state ≠ .acked ∧ r.state ≠ .deadLetter)
    (hl : rest = [] ∨ ∃ t, rest = [.appendState (unknownRow id t)]) :
    Turn sid cfg now id s L (.ack id proof) (.appendState (plainRow id .acked now) :: rest)
  | retried {c : Call} {m : Message} (hc : Failed cfg now id s c) (hm : L m)
    (ha : m.attempt + 1 < cfg.maxRetries) :
    Turn sid cfg now id s L c
      [.appendState (plainRow id .nacked now), .appendInbox (m.next cfg now),
        .appendState (plainRow id .pending now)]
  | gaveUp {c : Call} {m : Message} (hc : Failed cfg now id s c) (hm : L m)
    (ha : cfg.maxRetries ≤ m.attempt + 1) :
    Turn sid cfg now id s L c [.appendState (plainRow id .deadLetter now)]
  | fenced {r : StateRow} (hs : s.last = some r) (hr : r.state = .inFlight)
    (hm : r.mark ≠ .nonRetryableAttempt) :
    Turn sid cfg now id s L (.beginNonRetryableAttempt id)
      [.appendState ⟨id, .inFlight, now, .nonRetryableAttempt⟩]
  | withdrawn {reason : Text} {o : WithdrawOptions} {r : StateRow} (hs : s.last = some r)
    (hr : r.state = .pending ∨ o.inFlight = true ∧ r.state = .inFlight) :
    Turn sid cfg now id s L (.withdraw id reason o)
      [.appendState (if o.deliveryUncertain then unknownRow id now
        else plainRow id .deadLetter now)]
  | expired {r : StateRow} (n : Nat) (hs : s.last = some r)
    (hr : r.state = .pending ∨ r.state = .inFlight) (hm : r.mark ≠ .nonRetryableAttempt) :
    Turn sid cfg now id s L .expireStale
      (List.replicate (n + 1) (.appendState (plainRow id .expired now)))
  | lost {r : StateRow} (hs : s.last = some r) (hr : r.state = .inFlight)
    (hm : r.mark = .nonRetryableAttempt) :
    Turn sid cfg now id s L .recoverInflight [.appendState (unknownRow id now)]

/-- The latest row of a message, as far as the inbox is clean. -/
def IsLatest (f : Files) (id : Text) (m : Message) : Prop :=
  m.msgId = id ∧ (f.InboxClean → latestOf id f.messages = some m)

/-! ## The writes of an operation -/

/-- A session directory that does not exist holds no files. -/
def Files.Rooted (f : Files) : Prop := f.dir = false → f = .absent

/-- The rows a call appends before it compacts, `none` where it never compacts. -/
def Call.settles (cfg : Config) (now : Int) (f : Files) : Call → Option (List StateRow)
  | .ack id _ => some [plainRow id .acked now]
  | .expireStale =>
    some ((f.messages.filter (stale cfg now (loadStates f.journal))).map fun m =>
      plainRow m.msgId .expired now)
  | .compact => some []
  | _ => none

/-- The rewriting after the rows `rows` of a call: the compaction, a purge, or the first
creation. -/
inductive Rewrite (sid : Text) (cfg : Config) (now : Int) (f : Files) (rows : List Write) :
    Call → List Message → List StateRow → Prop where
  | compacted {c : Call} {settled : List StateRow} {pristine : List Text}
    (hc : c.settles cfg now f = some settled) (hr : rows = settled.map .appendState)
    (ht : cfg.compactionThreshold ≤ terminalCount (f.applyAll rows).journal)
    (hp : pristinePendingIds sid (f.applyAll rows) = some pristine) :
    Rewrite sid cfg now f rows c
      ((f.applyAll rows).messages.filter fun m => kept (f.applyAll rows).journal m.msgId)
      (activeStates (f.applyAll rows).journal pristine)
  | purged : Rewrite sid cfg now f rows .purge [] []
  | created (hj : f.journal = []) (hm : f.messages = []) :
    Rewrite sid cfg now f rows .initializeCustody [] []

/-- A call's writes: rows appended, each message's a turn, and perhaps a rewriting. -/
structure Splits (sid : Text) (cfg : Config) (now : Int) (f : Files) (c : Call)
    (ws rows tail : List Write) : Prop where
  eq : ws = rows ++ tail
  appends : ∀ w ∈ rows, w.appends
  turn : ∀ id, Turn sid cfg now id (standing id f.journal) (IsLatest f id) c
    (rows.filter (Write.about id))
  tail : tail = [] ∨ ∃ ms rs, tail = [.writeInbox ms, .writeState rs] ∧
    Rewrite sid cfg now f rows c ms rs
  dir : f.dir = true ∨ ws = [] ∨ ∃ rest, ws = .mkdir :: rest

section

variable {sid : Text} {cfg : Config} {now : Int} {f : Files}

/-- A call that writes nothing. -/
theorem Splits.nil (c : Call) : Splits sid cfg now f c [] [] [] where
  eq := rfl
  appends := fun w hw => by cases hw
  turn := fun id => .quiet c
  tail := .inl rfl
  dir := .inr (.inl rfl)

/-- A call that only appends rows. -/
theorem Splits.of_rows {c : Call} {ws : List Write} (hd : f.dir = true ∨ ∃ rest, ws = .mkdir :: rest)
    (ha : ∀ w ∈ ws, w.appends)
    (ht : ∀ id, Turn sid cfg now id (standing id f.journal) (IsLatest f id) c
      (ws.filter (Write.about id))) :
    Splits sid cfg now f c ws ws [] where
  eq := (List.append_nil ws).symm
  appends := ha
  turn := ht
  tail := .inl rfl
  dir := hd.elim .inl fun h => .inr (.inr h)

/-- A turn of one message alone. -/
theorem Splits.of_turn {c : Call} {ws : List Write} (id : Text) (hd : f.dir = true)
    (ha : ∀ w ∈ ws, w.appends) (hid : ∀ id', id' ≠ id → ws.filter (Write.about id') = [])
    (ht : Turn sid cfg now id (standing id f.journal) (IsLatest f id) c
      (ws.filter (Write.about id))) :
    Splits sid cfg now f c ws ws [] :=
  .of_rows (.inl hd) ha fun id' => by
    by_cases h : id' = id
    · rw [h]
      exact ht
    · rw [hid id' h]
      exact .quiet c

/-- The rows of a call that ends in the compaction. -/
theorem splits_thenCompact {c : Call} {ws : List Write} {settled : List StateRow}
    (answer : Answer) (hc : c.settles cfg now f = some settled)
    (hr : ws = settled.map .appendState)
    (hd : f.dir = true ∨ ws = [] ∧ ∀ tail, compact sid cfg f = some tail → tail = [])
    (ha : ∀ w ∈ ws, w.appends)
    (ht : ∀ id, Turn sid cfg now id (standing id f.journal) (IsLatest f id) c
      (ws.filter (Write.about id))) :
    ∃ tail, Splits sid cfg now f c (thenCompact sid cfg f ws answer).2 ws tail := by
  cases hcm : compact sid cfg (f.applyAll ws) with
  | none =>
    refine ⟨[], ?_, ha, ht, .inl rfl, ?_⟩
    · rw [thenCompact, hcm, List.append_nil]
    · rw [thenCompact, hcm]
      exact hd.imp_right fun h => .inl h.1
  | some tail =>
    refine ⟨tail, ?_, ha, ht, ?_, ?_⟩
    · rw [thenCompact, hcm]
    · rw [compact] at hcm
      split at hcm
      · exact .inl (Option.some.inj hcm).symm
      · next hge =>
        split at hcm
        · cases hcm
        · next pristine hp =>
          refine .inr ⟨_, _, (Option.some.inj hcm).symm, ?_⟩
          exact .compacted hc hr (Nat.not_lt.mp hge) hp
    · rw [thenCompact, hcm]
      rcases hd with h | ⟨rfl, h⟩
      · exact .inl h
      · exact .inr (.inl (h tail hcm))

/-! ## Each operation -/

theorem enqueue_splits (m : Message) :
    ∃ rows tail, Splits sid cfg now f (.enqueue m)
      (enqueue cfg now { m with recipient := sid } f).2 rows tail := by
  have hdir : ∀ ws, f.dir = true ∨ (if f.dir then [] else [Write.mkdir]) ++ ws = [] ∨
      ∃ rest, (if f.dir then [] else [Write.mkdir]) ++ ws = .mkdir :: rest := by
    intro ws
    cases f.dir with
    | false => exact .inr (.inr ⟨ws, rfl⟩)
    | true => exact .inl rfl
  have hmk : ∀ w ∈ (if f.dir then [] else [Write.mkdir]), w.appends ∧ ∀ id, w.about id = false := by
    intro w hw
    cases hd : f.dir with
    | false =>
      rw [hd] at hw
      rw [List.mem_singleton.mp hw]
      exact ⟨rfl, fun _ => rfl⟩
    | true =>
      rw [hd] at hw
      cases hw
  have hmkid : ∀ id, (if f.dir then [] else [Write.mkdir]).filter (Write.about id) = [] := fun id =>
    List.filter_eq_nil_iff.mpr fun w hw => by simp [(hmk w hw).2 id]
  have hquiet : Splits sid cfg now f (.enqueue m) (if f.dir then [] else [Write.mkdir])
      (if f.dir then [] else [Write.mkdir]) [] :=
    ⟨(List.append_nil _).symm, fun w hw => (hmk w hw).1, fun id => by
      rw [hmkid]
      exact .quiet _, .inl rfl, by simpa using hdir []⟩
  rw [enqueue]
  split
  · exact ⟨_, _, hquiet⟩
  · next hno =>
    split
    · exact ⟨_, _, hquiet⟩
    · refine ⟨_, [], (List.append_nil _).symm, fun w hw => ?_, fun id => ?_, .inl rfl, hdir _⟩
      · rcases List.mem_append.mp hw with hw | hw
        · exact (hmk w hw).1
        · simp only [List.mem_cons, List.not_mem_nil, or_false] at hw
          rcases hw with rfl | rfl <;> rfl
      · rw [List.filter_append, hmkid, List.nil_append]
        by_cases hid : m.msgId = id
        · have hlast : (standing id f.journal).last = none := by
            rw [standing_last, ← hid]
            rw [Bool.not_eq_true] at hno
            exact (OrdMap.has_eq_false_iff _).mp hno
          rw [filter_about_self (by simp [Write.about, Message.firstRow, hid])]
          exact .enqueued hid hlast
        · rw [filter_about_none (by simp [Write.about, Message.firstRow, hid])]
          exact .quiet _

/-- The latest row that an operation found. -/
theorem isLatest_of_latestOf {id : Text} {m : Message} (h : latestOf id f.messages = some m) :
    IsLatest f id m := ⟨(mem_of_latestOf h).2, fun _ => h⟩

theorem dequeue_splits : ∃ rows tail, Splits sid cfg now f .dequeue (dequeue now f).2 rows tail := by
  rw [dequeue]
  split
  · exact ⟨_, _, .nil _⟩
  · next hd =>
    split
    · exact ⟨_, _, .nil _⟩
    · next m hm =>
      obtain ⟨hl, r, hs, hp, hc⟩ := nextMessage_eq_some hm
      refine ⟨_, _, .of_turn m.msgId (by simpa using hd) (by simp [Write.appends])
        (fun id hid => ?_) ?_⟩
      · exact filter_about_none (by simp [Write.about, plainRow, hid.symm])
      · rw [filter_about_self (by simp [Write.about, plainRow])]
        exact .dequeued hs hp (isLatest_of_latestOf hl) hc

/-- A standing that is neither acknowledged nor dead-lettered, as `ack` checks it. -/
theorem not_settled_of_any {id : Text} {j : List StateRow}
    (h : ¬ (((loadStates j).get? id).any fun r => r.state = .acked || r.state = .deadLetter)) :
    ∀ r, (standing id j).last = some r → r.state ≠ .acked ∧ r.state ≠ .deadLetter := by
  intro r hr
  rw [standing_last] at hr
  rw [hr, Option.any_some, Bool.or_eq_true, decide_eq_true_iff, decide_eq_true_iff, not_or] at h
  exact h

theorem ack_splits (id : Text) (proof : Proof) :
    ∃ rows tail, Splits sid cfg now f (.ack id proof) (ack sid cfg now id proof f).2 rows tail := by
  rw [ack]
  split
  · exact ⟨_, _, .nil _⟩
  · next hd =>
    have hd : f.dir = true := by simpa using hd
    split
    · exact ⟨_, _, .nil _⟩
    · next hs =>
      have hs := not_settled_of_any hs
      have hid : ∀ rest : List Write, (rest = [] ∨ ∃ t, rest = [.appendState (unknownRow id t)]) →
          ∀ id', id' ≠ id →
            (Write.appendState (plainRow id .acked now) :: rest).filter (Write.about id') = [] := by
        rintro rest hrest id' hne
        rcases hrest with rfl | ⟨t, rfl⟩
        · exact filter_about_none (by simp [Write.about, plainRow, hne.symm])
        · exact filter_about_none (by simp [Write.about, plainRow, unknownRow, hne.symm])
      have hturn : ∀ rest : List Write, (rest = [] ∨ ∃ t, rest = [.appendState (unknownRow id t)]) →
          ∀ id', Turn sid cfg now id' (standing id' f.journal) (IsLatest f id') (.ack id proof)
            ((Write.appendState (plainRow id .acked now) :: rest).filter (Write.about id')) := by
        intro rest hrest id'
        by_cases hne : id' = id
        · subst hne
          have hall : ∀ w ∈ Write.appendState (plainRow id' .acked now) :: rest, w.about id' := by
            rcases hrest with rfl | ⟨t, rfl⟩
            · simp [Write.about, plainRow]
            · simp [Write.about, plainRow, unknownRow]
          rw [filter_about_self hall]
          exact .acked hs hrest
        · rw [hid rest hrest id' hne]
          exact .quiet _
      have hplain : ∃ tail, Splits sid cfg now f (.ack id proof)
          (thenCompact sid cfg f [.appendState (plainRow id .acked now)] .done).2
          [.appendState (plainRow id .acked now)] tail :=
        splits_thenCompact .done rfl rfl (.inl hd) (by simp [Write.appends])
          (hturn [] (.inl rfl))
      have hlost : ∀ t, Splits sid cfg now f (.ack id proof)
          ([.appendState (plainRow id .acked now)] ++ [.appendState (unknownRow id t)])
          ([.appendState (plainRow id .acked now)] ++ [.appendState (unknownRow id t)]) [] :=
        fun t => .of_rows (.inl hd) (by simp [Write.appends]) (hturn _ (.inr ⟨t, rfl⟩))
      dsimp only
      split
      · exact ⟨_, _, .nil _⟩
      · exact ⟨_, hplain⟩
      · split
        · exact ⟨_, _, .nil _⟩
        · split
          · exact ⟨_, _, .nil _⟩
          · split
            · split
              · exact ⟨_, _, hlost now⟩
              · exact ⟨_, hplain⟩
            · exact ⟨_, _, hlost _⟩

variable (cfg now) in
/-- The rows of a failed attempt are about its message. -/
theorem retry_about (m : Message) (reason : Text) :
    (∀ w ∈ retry cfg now m reason, w.appends) ∧
      ∀ id, id ≠ m.msgId → (retry cfg now m reason).filter (Write.about id) = [] := by
  rw [retry]
  split
  · refine ⟨by simp [Write.appends], fun id hne => ?_⟩
    exact filter_about_none (by simp [Write.about, plainRow, hne.symm])
  · refine ⟨by simp [Write.appends], fun id hne => ?_⟩
    exact filter_about_none (by simp [Write.about, plainRow, hne.symm])

/-- The turn of a failed attempt. -/
theorem retry_turn {c : Call} {id : Text} {m : Message} (reason : Text)
    (hc : Failed cfg now id (standing id f.journal) c) (hm : IsLatest f id m) :
    Turn sid cfg now id (standing id f.journal) (IsLatest f id) c
      ((retry cfg now m reason).filter (Write.about id)) := by
  have hid := hm.1
  subst hid
  rw [retry]
  split
  · next h =>
    rw [List.filter_cons_of_neg (by simp [Write.about]),
      filter_about_self (by simp [Write.about, plainRow])]
    exact .gaveUp hc hm h
  · next h =>
    rw [filter_about_self (by simp [Write.about, plainRow])]
    exact .retried hc hm (Nat.not_le.mp h)

theorem nack_splits (id reason : Text) :
    ∃ rows tail, Splits sid cfg now f (.nack id reason) (nack cfg now id reason f).2 rows tail := by
  rw [nack]
  split
  · exact ⟨_, _, .nil _⟩
  · next hd =>
    split
    · exact ⟨_, _, .nil _⟩
    · next hs =>
      split
      · exact ⟨_, _, .nil _⟩
      · next m hm =>
        have hc : Failed cfg now id (standing id f.journal) (.nack id reason) := by
          refine .inl ⟨reason, rfl, fun r hr hst => hs ?_⟩
          rw [standing_last] at hr
          rw [hr, Option.any_some, hst]
          rfl
        obtain ⟨ha, hid⟩ := retry_about cfg now m
          (reasonOr reason "max_retries exhausted")
        rw [(mem_of_latestOf hm).2] at hid
        exact ⟨_, _, .of_turn _ (by simpa using hd) ha hid
          (retry_turn _ hc (isLatest_of_latestOf hm))⟩

theorem begin_splits (id : Text) :
    ∃ rows tail, Splits sid cfg now f (.beginNonRetryableAttempt id)
      (beginNonRetryableAttempt now id f).2 rows tail := by
  rw [beginNonRetryableAttempt]
  split
  · exact ⟨_, _, .nil _⟩
  · next hd =>
    split
    · exact ⟨_, _, .nil _⟩
    · next r hs =>
      rw [← standing_last] at hs
      split
      · exact ⟨_, _, .nil _⟩
      · next hst =>
        split
        · exact ⟨_, _, .nil _⟩
        · next hm =>
          refine ⟨_, _, .of_turn id (by simpa using hd) (by simp [Write.appends])
            (fun id' hne => filter_about_none (by simp [Write.about, hne.symm])) ?_⟩
          rw [filter_about_self (by simp [Write.about])]
          exact .fenced hs (not_not.mp hst) hm

theorem withdraw_splits (id reason : Text) (o : WithdrawOptions) :
    ∃ rows tail, Splits sid cfg now f (.withdraw id reason o)
      (withdraw now id reason o f).2 rows tail := by
  rw [withdraw]
  split
  · exact ⟨_, _, .nil _⟩
  · next hd =>
    split
    · exact ⟨_, _, .nil _⟩
    · next hs =>
      rw [Bool.not_eq_true', Bool.not_eq_false, Option.any_eq_true] at hs
      obtain ⟨r, hr, hst⟩ := hs
      rw [← standing_last] at hr
      simp only [Bool.or_eq_true, decide_eq_true_eq, Bool.and_eq_true] at hst
      split
      · exact ⟨_, _, .nil _⟩
      · have hrow : (if o.deliveryUncertain then unknownRow id now
            else plainRow id .deadLetter now).msgId = id := by split <;> rfl
        refine ⟨_, _, .of_turn id (by simpa using hd) (by simp [Write.appends])
          (fun id' hne => filter_about_none (by simp [Write.about, hrow, hne.symm])) ?_⟩
        rw [List.filter_cons_of_neg (by simp [Write.about]),
          filter_about_self (by simp [Write.about, hrow])]
        exact .withdrawn hr hst

theorem expireStale_splits :
    ∃ rows tail, Splits sid cfg now f .expireStale (expireStale sid cfg now f).2 rows tail := by
  rw [expireStale]
  split
  · exact ⟨_, _, .nil _⟩
  · next hd =>
    dsimp only
    split
    · exact ⟨_, _, .nil _⟩
    · refine ⟨_, splits_thenCompact _ rfl (List.map_map ..).symm (.inl (by simpa using hd))
        (List.forall_mem_map.mpr fun _ _ => rfl) fun id => ?_⟩
      -- the rows of one message are copies of one row
      have hcopies : ∀ l : List Message,
          (l.map fun m => Write.appendState (plainRow m.msgId .expired now)).filter (Write.about id)
            = List.replicate (l.filter fun m => m.msgId = id).length
                (.appendState (plainRow id .expired now)) := by
        intro l
        rw [List.filter_map, List.eq_replicate_iff, List.length_map]
        refine ⟨rfl, fun w hw => ?_⟩
        obtain ⟨m, hm, rfl⟩ := List.mem_map.mp hw
        have hid : m.msgId = id := of_decide_eq_true (List.mem_filter.mp hm).2
        rw [hid]
      rw [hcopies]
      cases hn : ((f.messages.filter (stale cfg now (loadStates f.journal))).filter
          fun m => m.msgId = id) with
      | nil => exact .quiet _
      | cons m rest =>
        have hm : m ∈ (f.messages.filter (stale cfg now (loadStates f.journal))).filter
            fun m => m.msgId = id := by rw [hn]; exact List.mem_cons_self
        obtain ⟨hm, hid⟩ := List.mem_filter.mp hm
        have hst := (List.mem_filter.mp hm).2
        rw [stale, of_decide_eq_true hid, Option.any_eq_true] at hst
        obtain ⟨r, hr, hst⟩ := hst
        simp only [Bool.and_eq_true, Bool.or_eq_true, decide_eq_true_eq] at hst
        exact .expired rest.length (by rw [standing_last, hr]) hst.1.2 hst.1.1

/-! ## The recovery -/

variable (cfg now) in
/-- The rows of one entry of the recovery are about its message. -/
theorem recoverEntry_about (f' : Files) (id : Text) (r : StateRow) :
    (∀ w ∈ recoverEntry cfg now f' id r, w.appends) ∧
      ∀ id', id' ≠ id → (recoverEntry cfg now f' id r).filter (Write.about id') = [] := by
  have hnil : (∀ w ∈ ([] : List Write), w.appends) ∧
      ∀ id', id' ≠ id → ([] : List Write).filter (Write.about id') = [] :=
    ⟨fun w hw => absurd hw List.not_mem_nil, fun _ _ => rfl⟩
  rw [recoverEntry]
  split
  · split
    · exact hnil
    · next m hm =>
      split
      · refine ⟨by simp [Write.appends], fun id' hne => ?_⟩
        exact filter_about_none (by simp [Write.about, unknownRow, hne.symm])
      · obtain ⟨ha, hid⟩ := retry_about cfg now m "inflight_timeout"
        rw [(mem_of_latestOf hm).2] at hid
        exact ⟨ha, hid⟩
  · exact hnil

theorem recoverEntries_cons (f' : Files) (e : Text × StateRow) (l : List (Text × StateRow)) :
    (recoverEntries cfg now f' (e :: l)).2 = recoverEntry cfg now f' e.1 e.2
      ++ (recoverEntries cfg now (f'.applyAll (recoverEntry cfg now f' e.1 e.2)) l).2 := rfl

variable (cfg now) in
/-- The recovery writes rows of the messages it treats. -/
theorem recoverEntries_about (l : List (Text × StateRow)) (f' : Files) :
    (∀ w ∈ (recoverEntries cfg now f' l).2, w.appends) ∧
      ∀ id, id ∉ l.map Prod.fst →
        (recoverEntries cfg now f' l).2.filter (Write.about id) = [] := by
  induction l generalizing f' with
  | nil => exact ⟨fun w hw => absurd hw List.not_mem_nil, fun _ _ => rfl⟩
  | cons e l ih =>
    obtain ⟨ha, hid⟩ := recoverEntry_about cfg now f' e.1 e.2
    obtain ⟨ha', hid'⟩ := ih (f'.applyAll (recoverEntry cfg now f' e.1 e.2))
    rw [recoverEntries_cons]
    refine ⟨fun w hw => (List.mem_append.mp hw).elim (ha w) (ha' w), fun id hne => ?_⟩
    rw [List.map_cons, List.mem_cons, not_or] at hne
    rw [List.filter_append, hid id hne.1, hid' id hne.2]
    rfl

theorem recoverEntry_congr {f' f'' : Files} {id : Text} {r : StateRow}
    (h : latestOf id f'.messages = latestOf id f''.messages) :
    recoverEntry cfg now f' id r = recoverEntry cfg now f'' id r := by
  rw [recoverEntry, recoverEntry, h]

variable (cfg now) in
/-- What the recovery writes about one message: what the message's entry says, in files whose inbox,
if it was clean, has the same latest row of the message. -/
theorem recoverEntries_filter {id : Text} {r : StateRow} (l : List (Text × StateRow))
    (hn : (l.map Prod.fst).Nodup) (hmem : (id, r) ∈ l) (f' : Files) :
    ∃ f'', (f'.InboxClean → latestOf id f''.messages = latestOf id f'.messages) ∧
      (recoverEntries cfg now f' l).2.filter (Write.about id)
        = (recoverEntry cfg now f'' id r).filter (Write.about id) := by
  induction l generalizing f' with
  | nil => cases hmem
  | cons e l ih =>
    rw [List.map_cons, List.nodup_cons] at hn
    obtain ⟨ha, hne⟩ := recoverEntry_about cfg now f' e.1 e.2
    rw [recoverEntries_cons, List.filter_append]
    rcases List.mem_cons.mp hmem with rfl | hmem
    · refine ⟨f', fun _ => rfl, ?_⟩
      rw [(recoverEntries_about cfg now l _).2 id hn.1, List.append_nil]
    · have hid : id ≠ e.1 := fun h => hn.1 (List.mem_map.mpr ⟨_, hmem, h⟩)
      obtain ⟨f'', hlat, heq⟩ := ih hn.2 hmem (f'.applyAll (recoverEntry cfg now f' e.1 e.2))
      refine ⟨f'', fun hc => ?_, ?_⟩
      · obtain ⟨hm, hclean⟩ := f'.applyAll_inbox (recoverEntry cfg now f' e.1 e.2) hc
        rw [hlat hclean, hm, latestOf_appends id _ ha]
        intro w hw
        simpa using List.filter_eq_nil_iff.mp (hne id hid) w hw
      · rw [hne id hid, List.nil_append, heq]

/-- The turn of one entry of the recovery. -/
theorem recoverEntry_turn {f' : Files} {id : Text} {r : StateRow}
    (hs : (standing id f.journal).last = some r)
    (hL : ∀ m, latestOf id f'.messages = some m → IsLatest f id m) :
    Turn sid cfg now id (standing id f.journal) (IsLatest f id) .recoverInflight
      ((recoverEntry cfg now f' id r).filter (Write.about id)) := by
  rw [recoverEntry]
  split
  · next hdue =>
    split
    · exact .quiet _
    · next m hm =>
      split
      · next hmark =>
        rw [List.filter_cons_of_neg (by simp [Write.about]),
          filter_about_self (by simp [Write.about, unknownRow])]
        exact .lost hs hdue.1 hmark
      · next hmark => exact retry_turn _ (.inr ⟨rfl, r, hs, hdue.1, hmark, hdue.2⟩) (hL m hm)
  · exact .quiet _

theorem recoverInflight_splits :
    ∃ rows tail, Splits sid cfg now f .recoverInflight (recoverInflight cfg now f).2 rows tail := by
  rw [recoverInflight]
  split
  · exact ⟨_, _, .nil _⟩
  · next hd =>
    obtain ⟨ha, hne⟩ := recoverEntries_about cfg now
      (loadStates f.journal).entries f
    refine ⟨_, _, .of_rows (.inl (by simpa using hd)) ha fun id => ?_⟩
    cases hl : (loadStates f.journal).get? id with
    | none =>
      rw [hne id fun h => ?_]
      · exact .quiet _
      · obtain ⟨r, hr⟩ := (OrdMap.mem_keys_iff _).mp h
        rw [hl] at hr
        cases hr
    | some r =>
      obtain ⟨f'', hlat, heq⟩ := recoverEntries_filter cfg now _
        (loadStates f.journal).nodup ((OrdMap.mem_entries_iff _).mpr hl) f
      rw [heq]
      exact recoverEntry_turn (by rw [standing_last, hl]) fun m hm =>
        ⟨(mem_of_latestOf hm).2, fun hc => by rw [← hlat hc, hm]⟩

/-! ## Every operation -/

theorem Files.Rooted.absent_of_not (hr : f.Rooted) (h : ¬ f.dir = true) : f = .absent :=
  hr (Bool.eq_false_iff.mpr h)

theorem compact_absent (tail : List Write) (h : compact sid cfg .absent = some tail) :
    tail = [] := by
  rw [compact] at h
  split at h
  · exact (Option.some.inj h).symm
  · cases h

variable (sid cfg now) in
/-- **Every call splits into rows that are turns, and a rewriting.** -/
theorem perform_splits (hr : f.Rooted) (c : Call) :
    ∃ rows tail, Splits sid cfg now f c (perform sid cfg now f c).2 rows tail := by
  cases c with
  | enqueue m => exact enqueue_splits m
  | dequeue => exact dequeue_splits
  | ack id proof => exact ack_splits id proof
  | nack id reason => exact nack_splits id reason
  | beginNonRetryableAttempt id => exact begin_splits id
  | withdraw id reason o => exact withdraw_splits id reason o
  | expireStale => exact expireStale_splits
  | recoverInflight => exact recoverInflight_splits
  | compact =>
    refine ⟨_, splits_thenCompact .done rfl rfl ?_ (fun w hw => by cases hw)
      fun id => .quiet _⟩
    by_cases hd : f.dir = true
    · exact .inl hd
    · rw [hr.absent_of_not hd]
      exact .inr ⟨rfl, compact_absent⟩
  | messageState id => exact ⟨_, _, .nil _⟩
  | peek => exact ⟨_, _, .nil _⟩
  | purge =>
    rw [perform, purge]
    split
    · next hd =>
      exact ⟨[], _, rfl, fun w hw => absurd hw List.not_mem_nil, fun id => .quiet _, .inr ⟨_, _, rfl, .purged⟩,
        .inl hd⟩
    · exact ⟨_, _, .nil _⟩
  | purgeDeadLetter =>
    rw [perform, purgeDeadLetter]
    split
    · next hd =>
      exact ⟨_, _, .of_rows (.inl hd) (by simp [Write.appends]) fun id => by
        rw [filter_about_none (by simp [Write.about])]
        exact .quiet _⟩
    · exact ⟨_, _, .nil _⟩
  | initializeCustody =>
    have hws : (perform sid cfg now f .initializeCustody).2
        = if f.dir then [] else [.mkdir, .writeInbox [], .writeState []] := by
      rw [perform, initializeCustody]
      cases strictCustodySnapshot sid
        (f.applyAll (if f.dir then [] else [.mkdir, .writeInbox [], .writeState []])) <;> rfl
    rw [hws]
    split
    · exact ⟨_, _, .nil _⟩
    · next hd =>
      have hf := hr.absent_of_not hd
      refine ⟨[.mkdir], _, rfl, by simp [Write.appends], fun id => ?_, .inr ⟨_, _, rfl, ?_⟩,
        .inr (.inr ⟨_, rfl⟩)⟩
      · rw [filter_about_none (by simp [Write.about])]
        exact .quiet _
      · rw [hf]
        exact .created (by decide) (by decide)

end

end Telepty.Mailbox
