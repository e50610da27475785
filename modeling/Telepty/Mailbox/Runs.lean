import Telepty.Mailbox.Turns

/-!
# Steps and crashes

A step of a run is a call, whole or cut by a crash. `Step.moves` says what a step does to one
message, as long as no write to the state file is torn: the message makes a prefix of its turn, and
the compaction or a purge may follow.
-/

namespace Telepty.Mailbox

open Infra

/-! ## Torn writes -/

/-- Whether `n` bytes of the write are neither nothing nor all of it. A rewrite truncates first. -/
def Write.torn (n : Nat) : Write → Bool
  | .mkdir => false
  | .writeInbox ms => n < (writeInbox ms).bytes.length
  | .writeState rs => n < (writeState rs).bytes.length
  | .writeDead ds => n < (writeDead ds).bytes.length
  | w => 0 < n && n < w.bytes.length

/-- The write a crash tears. -/
def Crash.tears (c : Crash) (ws : List Write) : Option Write :=
  match c.torn, ws[c.done]? with
  | some n, some w => if w.torn n then some w else none
  | _, _ => none

def Write.onStateFile : Write → Bool
  | .appendState _ | .writeState _ => true
  | _ => false

def Write.onInboxFile : Write → Bool
  | .appendInbox _ | .writeInbox _ => true
  | _ => false

/-- The write a step tears. -/
def Step.tears (sid : Text) (cfg : Config) (s : Step) (f : Files) : Option Write :=
  s.crash.bind fun c => c.tears (s.writes sid cfg f)

theorem Files.apply_state_of_not {w : Write} (f : Files) (n : Nat) (h : w.onStateFile = false) :
    (f.cut n w).state = f.state := by
  cases w <;> first | rfl | cases h

theorem Files.apply_inbox_of_not {w : Write} (f : Files) (n : Nat) (h : w.onInboxFile = false) :
    (f.cut n w).inbox = f.inbox := by
  cases w <;> first | rfl | cases h

/-- A write that is not torn was made, or left the contents as they were. -/
theorem Files.cut_of_not_torn (f : Files) {w : Write} {n : Nat} (h : w.torn n = false) :
    f.cut n w = f.apply w ∨
      content (f.cut n w).state = content f.state ∧ content (f.cut n w).inbox = content f.inbox := by
  have hfull : w.bytes.length ≤ n → f.cut n w = f.apply w := by
    intro hn
    cases w <;> simp only [apply, cut, List.take_of_length_le hn, List.take_length]
  have happend : ∀ b, (0 < n && n < b) = false → b ≤ n ∨ n = 0 := by
    intro b hb
    simp only [Bool.and_eq_false_iff, decide_eq_false_iff_not] at hb
    omega
  have hzero : ∀ file : Option Bytes, ∀ b : Bytes, content (some (content file ++ b.take 0))
      = content file := fun file b => by simp [content]
  cases w with
  | mkdir => exact .inl rfl
  | writeInbox ms => exact .inl (hfull (Nat.not_lt.mp (of_decide_eq_false h)))
  | writeState rs => exact .inl (hfull (Nat.not_lt.mp (of_decide_eq_false h)))
  | writeDead ds => exact .inl (hfull (Nat.not_lt.mp (of_decide_eq_false h)))
  | appendInbox m =>
    rcases happend _ h with h | rfl
    · exact .inl (hfull h)
    · exact .inr ⟨rfl, hzero _ _⟩
  | appendState r =>
    rcases happend _ h with h | rfl
    · exact .inl (hfull h)
    · exact .inr ⟨hzero _ _, rfl⟩
  | appendDead d => exact .inr ⟨rfl, rfl⟩

/-- **A crash leaves whole writes**, apart from the one it tears. -/
theorem Files.crash_eq (f : Files) (ws : List Write) (c : Crash) :
    ∃ k, ((∀ w, c.tears ws = some w → w.onStateFile = false) →
        content (f.crash ws c).state = content (f.applyAll (ws.take k)).state) ∧
      ((∀ w, c.tears ws = some w → w.onInboxFile = false) →
        content (f.crash ws c).inbox = content (f.applyAll (ws.take k)).inbox) := by
  rw [crash]
  split
  · next n w hn hw =>
    cases ht : w.torn n with
    | true =>
      have hte : c.tears ws = some w := by rw [Crash.tears, hn, hw]; exact if_pos ht
      refine ⟨c.done, fun h => ?_, fun h => ?_⟩
      · rw [apply_state_of_not _ _ (h w hte)]
      · rw [apply_inbox_of_not _ _ (h w hte)]
    | false =>
      rcases (f.applyAll (ws.take c.done)).cut_of_not_torn ht with he | ⟨hs, hi⟩
      · obtain ⟨hlt, hget⟩ := List.getElem?_eq_some_iff.mp hw
        have htake : ws.take (c.done + 1) = ws.take c.done ++ [w] := by
          rw [List.take_add_one, hw]
          rfl
        refine ⟨c.done + 1, fun _ => ?_, fun _ => ?_⟩ <;>
          rw [he, htake, applyAll_append] <;> rfl
      · exact ⟨c.done, fun _ => hs, fun _ => hi⟩
  · exact ⟨c.done, fun _ => rfl, fun _ => rfl⟩

theorem Files.journal_congr {f f' : Files} (h : content f.state = content f'.state) :
    f.journal = f'.journal := by rw [journal, journal, h]

theorem Files.messages_congr {f f' : Files} (h : content f.inbox = content f'.inbox) :
    f.messages = f'.messages := by rw [messages, messages, h]

theorem Files.StateClean.congr {f f' : Files} (h : content f.state = content f'.state)
    (hc : f'.StateClean) : f.StateClean := by
  rw [StateClean, journal_congr h, h]
  exact hc

theorem Files.InboxClean.congr {f f' : Files} (h : content f.inbox = content f'.inbox)
    (hc : f'.InboxClean) : f.InboxClean := by
  rw [InboxClean, messages_congr h, h]
  exact hc

/-! ## The files after a step -/

section

variable {sid : Text} {cfg : Config} {f : Files} {s : Step}

/-- The rows a step leaves: those of the first `k` writes of its call. -/
theorem Step.after_eq (hs : f.StateClean)
    (ht : ∀ w, s.tears sid cfg f = some w → w.onStateFile = false) :
    ∃ k, (s.after sid cfg f).StateClean ∧
      (s.after sid cfg f).journal
        = ((s.writes sid cfg f).take k).foldl Write.onState f.journal ∧
      (s.crash = none → k = (s.writes sid cfg f).length) ∧
      (f.InboxClean → (∀ w, s.tears sid cfg f = some w → w.onInboxFile = false) →
        (s.after sid cfg f).InboxClean ∧
        (s.after sid cfg f).messages
          = ((s.writes sid cfg f).take k).foldl Write.onInbox f.messages) := by
  cases hc : s.crash with
  | none =>
    have he : s.after sid cfg f = f.applyAll (s.writes sid cfg f) := by rw [after, hc]
    rw [he]
    refine ⟨_, (f.applyAll_state _ hs).2, ?_, fun _ => rfl, fun hi _ => ⟨(f.applyAll_inbox _ hi).2, ?_⟩⟩
    · rw [List.take_length, (f.applyAll_state _ hs).1]
    · rw [List.take_length, (f.applyAll_inbox _ hi).1]
  | some c =>
    have he : s.after sid cfg f = f.crash (s.writes sid cfg f) c := by rw [after, hc]
    have hte : ∀ w, c.tears (s.writes sid cfg f) = some w → s.tears sid cfg f = some w := by
      intro w hw
      rw [tears, hc]
      exact hw
    obtain ⟨k, hks, hki⟩ := f.crash_eq (s.writes sid cfg f) c
    have hks := hks fun w hw => ht w (hte w hw)
    rw [he]
    refine ⟨k, .congr hks (f.applyAll_state _ hs).2, ?_, fun h => absurd h (Option.some_ne_none c),
      fun hi hti => ?_⟩
    · rw [Files.journal_congr hks, (f.applyAll_state _ hs).1]
    · have hki := hki fun w hw => hti w (hte w hw)
      exact ⟨.congr hki (f.applyAll_inbox _ hi).2, by
        rw [Files.messages_congr hki, (f.applyAll_inbox _ hi).1]⟩

/-! ## The rows of one message -/

def rowsOf (id : Text) (ms : List Message) : List Message := ms.filter fun m => m.msgId = id

/-- The inbox rows among writes. -/
def inboxRows (ws : List Write) : List Message :=
  ws.filterMap fun w => match w with
    | .appendInbox m => some m
    | _ => none

theorem rowsOf_appends (id : Text) (ws : List Write) (h : ∀ w ∈ ws, w.appends)
    (ms : List Message) :
    rowsOf id (ws.foldl Write.onInbox ms)
      = rowsOf id ms ++ inboxRows (ws.filter (Write.about id)) := by
  induction ws generalizing ms with
  | nil => exact (List.append_nil _).symm
  | cons w ws ih =>
    rw [List.foldl_cons, ih (fun x hx => h x (List.mem_cons_of_mem _ hx))]
    cases w with
    | appendInbox m =>
      rw [Write.onInbox, rowsOf, List.filter_append]
      by_cases hm : m.msgId = id
      · rw [List.filter_cons_of_pos (by simpa using hm), List.filter_nil,
          List.filter_cons_of_pos (by simpa [Write.about] using hm), List.append_assoc]
        rfl
      · rw [List.filter_cons_of_neg (by simpa using hm), List.filter_nil, List.append_nil,
          List.filter_cons_of_neg (by simpa [Write.about] using hm)]
        rfl
    | appendState r =>
      rw [List.filter_cons]
      split <;> rfl
    | writeInbox ms => exact absurd (h _ List.mem_cons_self) (by simp [Write.appends])
    | mkdir => rfl
    | appendDead d => rfl
    | writeState rs => exact absurd (h _ List.mem_cons_self) (by simp [Write.appends])
    | writeDead ds => rfl

theorem latestOf_eq_foldl (id : Text) (ms : List Message) :
    latestOf id ms = (rowsOf id ms).foldl (fun l m => some (later l m)) none := rfl

/-- Whether the compaction keeps a message. -/
def Standing.kept (s : Standing) : Bool :=
  s.unknown || !(s.last.any fun r => r.state.terminal)

theorem kept_eq (id : Text) (j : List StateRow) : kept j id = (standing id j).kept := by
  rw [kept, Standing.kept, ← standing_last]
  congr 1
  rw [Bool.eq_iff_iff, decide_eq_true_iff]
  exact (standing_unknown id j).symm

theorem rowsOf_filter (id : Text) (p : Text → Bool) (ms : List Message) :
    rowsOf id (ms.filter fun m => p m.msgId) = if p id then rowsOf id ms else [] := by
  rw [rowsOf, List.filter_filter]
  split
  · next h =>
    refine List.filter_congr fun m _ => ?_
    by_cases hm : m.msgId = id
    · simp [hm, h]
    · simp [hm]
  · next h =>
    refine List.filter_eq_nil_iff.mpr fun m _ hm => ?_
    simp only [Bool.and_eq_true, decide_eq_true_eq] at hm
    exact h (hm.1 ▸ hm.2)

/-! ## What a step does to one message -/

/-- The compaction at the end of a call: enough messages are terminal with the rows the call appends,
and the strict reader accepts the files. -/
def Call.compacts (sid : Text) (cfg : Config) (now : Int) (f : Files) (c : Call) : Prop :=
  ∃ settled, c.settles cfg now f = some settled ∧
    cfg.compactionThreshold ≤ terminalCount (f.journal ++ settled) ∧
    (pristinePendingIds sid (f.applyAll (settled.map .appendState))).isSome

/-- The standings and the inbox rows that step `s` can leave message `id` with. -/
inductive Moves (sid : Text) (cfg : Config) (f : Files) (s : Step) (id : Text) :
    Standing → List Message → Prop where
  | part {ws pre : List Write}
    (ht : Turn sid cfg s.now id (standing id f.journal) (IsLatest f id) s.call ws)
    (hp : pre <+: ws) (hf : s.crash = none → pre = ws) :
    Moves sid cfg f s id ((standing id f.journal).turn pre)
      (rowsOf id f.messages ++ inboxRows pre)
  | compacted {ws : List Write} (pristine : Bool)
    (ht : Turn sid cfg s.now id (standing id f.journal) (IsLatest f id) s.call ws)
    (hc : s.call.compacts sid cfg s.now f) :
    Moves sid cfg f s id (((standing id f.journal).turn ws).compacted pristine)
      (if ((standing id f.journal).turn ws).kept then rowsOf id f.messages ++ inboxRows ws else [])
  | interrupted {ws : List Write}
    (ht : Turn sid cfg s.now id (standing id f.journal) (IsLatest f id) s.call ws)
    (hc : s.call.compacts sid cfg s.now f) (hcr : s.crash ≠ none) :
    Moves sid cfg f s id ((standing id f.journal).turn ws)
      (if ((standing id f.journal).turn ws).kept then rowsOf id f.messages ++ inboxRows ws else [])
  | purged (hc : s.call = .purge) : Moves sid cfg f s id .empty []
  | halfPurged (hc : s.call = .purge) (hcr : s.crash ≠ none) :
    Moves sid cfg f s id (standing id f.journal) []

/-- The state rows `settled`, appended. -/
theorem foldl_onState_settled (settled j : List StateRow) :
    (settled.map Write.appendState).foldl Write.onState j = j ++ settled := by
  induction settled generalizing j with
  | nil => exact (List.append_nil j).symm
  | cons r rs ih => rw [List.map_cons, List.foldl_cons, ih, Write.onState, List.append_assoc,
      List.singleton_append]

/-- The rows of a call, as far as the first `k` writes. -/
theorem Splits.part {now : Int} {c : Call} {ws rows tail : List Write}
    (h : Splits sid cfg now f c ws rows tail) (id : Text) (k : Nat) :
    standing id ((rows.take k).foldl Write.onState f.journal)
        = (standing id f.journal).turn ((rows.take k).filter (Write.about id)) ∧
      rowsOf id ((rows.take k).foldl Write.onInbox f.messages)
        = rowsOf id f.messages ++ inboxRows ((rows.take k).filter (Write.about id)) ∧
      (rows.take k).filter (Write.about id) <+: rows.filter (Write.about id) := by
  have ha : ∀ w ∈ rows.take k, w.appends := fun w hw => h.appends w (List.mem_of_mem_take hw)
  exact ⟨standing_appends id _ ha _, rowsOf_appends id _ ha _, (List.take_prefix k rows).filter _⟩

/-- The files at a message where a step ends: its standing and, in a clean inbox, its rows. -/
def EndsAt (sid : Text) (cfg : Config) (f : Files) (s : Step) (id : Text) (st : Standing)
    (rows : List Message) : Prop :=
  standing id (s.after sid cfg f).journal = st ∧
    (f.InboxClean → (∀ w, s.tears sid cfg f = some w → w.onInboxFile = false) →
      rowsOf id (s.after sid cfg f).messages = rows)

/-- A step that ends before the rewriting of its call, if there is one. -/
theorem Splits.moves_part {ws rows tail : List Write} {id : Text} {k : Nat}
    (h : Splits sid cfg s.now f s.call ws rows tail)
    (hj : (s.after sid cfg f).journal = (rows.take k).foldl Write.onState f.journal)
    (hm : f.InboxClean → (∀ w, s.tears sid cfg f = some w → w.onInboxFile = false) →
      (s.after sid cfg f).messages = (rows.take k).foldl Write.onInbox f.messages)
    (hk : s.crash = none → rows.take k = rows) :
    ∃ st l, Moves sid cfg f s id st l ∧ EndsAt sid cfg f s id st l := by
  obtain ⟨hst, hrw, hp⟩ := h.part id k
  refine ⟨_, _, .part (h.turn id) hp fun hc => by rw [hk hc], ?_, fun hi hti => ?_⟩
  · rw [hj, hst]
  · rw [hm hi hti, hrw]

/-- A call that empties the mailbox appends no row. -/
theorem Turn.eq_nil {c : Call} {ws : List Write} {now : Int} {id : Text} {st : Standing}
    {L : Message → Prop} (h : Turn sid cfg now id st L c ws)
    (hc : c = .purge ∨ c = .initializeCustody) : ws = [] := by
  cases h with
  | quiet => rfl
  | retried hf => rcases hf with ⟨reason, rfl, -⟩ | ⟨rfl, -⟩ <;> simp at hc
  | gaveUp hf => rcases hf with ⟨reason, rfl, -⟩ | ⟨rfl, -⟩ <;> simp at hc
  | _ => simp at hc

/-- A step that ends in the rewriting of its call: the inbox is rewritten, and the state file
where `full` says so. -/
theorem Splits.moves_rewrite {ws rows tail : List Write} {id : Text} {ms : List Message}
    {rs : List StateRow} (h : Splits sid cfg s.now f s.call ws rows tail) (hs : f.StateClean)
    (hrew : Rewrite sid cfg s.now f rows s.call ms rs) (full : Bool)
    (hfull : full = false → s.crash ≠ none)
    (hj : (s.after sid cfg f).journal = if full then rs else rows.foldl Write.onState f.journal)
    (hm : f.InboxClean → (∀ w, s.tears sid cfg f = some w → w.onInboxFile = false) →
      (s.after sid cfg f).messages = ms) :
    ∃ st l, Moves sid cfg f s id st l ∧ EndsAt sid cfg f s id st l := by
  obtain ⟨hst, hrw, -⟩ := h.part id rows.length
  rw [List.take_length] at hst hrw
  have hturn := h.turn id
  have hnil := hturn.eq_nil
  generalize hcall : s.call = c at hrew
  cases hrew with
  | @compacted _ settled pristine hc hr hth hp =>
    subst hcall
    have hja : (f.applyAll rows).journal = rows.foldl Write.onState f.journal :=
      (f.applyAll_state rows hs).1
    have hcomp : s.call.compacts sid cfg s.now f := by
      rw [hja, hr, foldl_onState_settled] at hth
      rw [hr] at hp
      exact ⟨_, hc, hth, by rw [hp]; rfl⟩
    -- what the compaction keeps of the message's inbox rows
    have hrows : f.InboxClean → (∀ w, s.tears sid cfg f = some w → w.onInboxFile = false) →
        rowsOf id (s.after sid cfg f).messages
          = if ((standing id f.journal).turn (rows.filter (Write.about id))).kept
            then rowsOf id f.messages ++ inboxRows (rows.filter (Write.about id)) else [] := by
      intro hi hti
      rw [hm hi hti, rowsOf_filter, kept_eq, hja, hst, (f.applyAll_inbox rows hi).1, hrw]
    cases full with
    | true =>
      refine ⟨_, _, .compacted (decide (id ∈ pristine)) hturn hcomp, ?_, hrows⟩
      rw [hj, if_pos rfl, standing_activeStates, hja, hst]
    | false =>
      refine ⟨_, _, .interrupted hturn hcomp (hfull rfl), ?_, hrows⟩
      rw [hj, if_neg Bool.false_ne_true, hst]
  | purged =>
    rw [hnil (.inl hcall)] at hst
    cases full with
    | true => exact ⟨_, _, .purged hcall, by rw [hj]; rfl, fun hi hti => by rw [hm hi hti]; rfl⟩
    | false =>
      exact ⟨_, _, .halfPurged hcall (hfull rfl), by rw [hj, if_neg Bool.false_ne_true, hst]; rfl,
        fun hi hti => by rw [hm hi hti]; rfl⟩
  | created hj' hm' =>
    rw [hnil (.inr hcall)] at hst
    refine ⟨_, _, .part (.quiet _) (List.prefix_refl []) fun _ => rfl, ?_, fun hi hti => ?_⟩
    · rw [hj, Standing.turn_nil, hj']
      cases full with
      | true => rfl
      | false => rw [if_neg Bool.false_ne_true, ← hj', hst]; rfl
    · rw [hm hi hti, hm']
      rfl

variable (sid cfg) in
/-- **What a step does to one message**, when it tears no write to the state file. -/
theorem Step.moves (hr : f.Rooted) (hs : f.StateClean)
    (ht : ∀ w, s.tears sid cfg f = some w → w.onStateFile = false) (id : Text) :
    ∃ st l, Moves sid cfg f s id st l ∧ EndsAt sid cfg f s id st l := by
  obtain ⟨k, -, hj, hk, hinbox⟩ := s.after_eq hs ht
  obtain ⟨rows, tail, hsp⟩ := perform_splits sid cfg s.now hr s.call
  have hws : s.writes sid cfg f = rows ++ tail := hsp.eq
  rw [hws] at hj hk
  have hinbox := fun hi hti => (hinbox hi hti).2
  simp only [hws] at hinbox
  rcases hsp.tail with rfl | ⟨ms, rs, rfl, hrew⟩
  · rw [List.append_nil] at hj hk
    simp only [List.append_nil] at hinbox
    exact hsp.moves_part hj hinbox fun hc => by rw [hk hc, List.take_length]
  · rcases Nat.lt_or_ge rows.length k with hlt | hle
    · -- the inbox is rewritten, and the state file if the crash comes later
      have htake : (rows ++ [Write.writeInbox ms, Write.writeState rs]).take k
          = rows ++ [Write.writeInbox ms, Write.writeState rs].take (k - rows.length) := by
        rw [List.take_append, List.take_of_length_le (Nat.le_of_lt hlt)]
      rw [htake] at hj
      simp only [htake] at hinbox
      obtain ⟨d, hd⟩ : ∃ d, k - rows.length = d + 1 := ⟨k - rows.length - 1, by omega⟩
      rw [hd] at hj
      simp only [hd] at hinbox
      cases d with
      | zero =>
        refine hsp.moves_rewrite hs hrew false (fun _ hc => ?_) ?_ fun hi hti => ?_
        · have := hk hc
          simp only [List.length_append, List.length_cons, List.length_nil] at this
          omega
        · rw [hj, List.foldl_append]
          rfl
        · rw [hinbox hi hti, List.foldl_append]
          rfl
      | succ d =>
        refine hsp.moves_rewrite hs hrew true (fun h => by cases h) ?_ fun hi hti => ?_
        · rw [hj, List.foldl_append, List.take_succ_cons, List.take_succ_cons, List.take_nil]
          rfl
        · rw [hinbox hi hti, List.foldl_append, List.take_succ_cons, List.take_succ_cons,
            List.take_nil]
          rfl
    · rw [List.take_append_of_le_length hle] at hj
      simp only [List.take_append_of_le_length hle] at hinbox
      refine hsp.moves_part hj hinbox fun hc => ?_
      have := hk hc
      simp only [List.length_append, List.length_cons, List.length_nil] at this
      omega

/-! ## Directories -/

theorem Files.apply_dir (f : Files) (w : Write) (h : f.dir = true) : (f.apply w).dir = true := by
  cases w <;> first | exact h | rfl

theorem Files.applyAll_dir (f : Files) (ws : List Write) (h : f.dir = true) :
    (f.applyAll ws).dir = true := by
  induction ws generalizing f with
  | nil => exact h
  | cons w ws ih => exact ih _ (f.apply_dir w h)

theorem Files.cut_dir (f : Files) (n : Nat) (w : Write) (h : f.dir = true) :
    (f.cut n w).dir = true := by
  cases w <;> first | exact h | rfl

theorem Files.crash_dir (f : Files) (ws : List Write) (c : Crash) (h : f.dir = true) :
    (f.crash ws c).dir = true := by
  rw [crash]
  split
  · exact cut_dir _ _ _ (applyAll_dir f _ h)
  · exact applyAll_dir f _ h

/-- A step makes the directory before any file. -/
theorem Step.rooted (hr : f.Rooted) : (s.after sid cfg f).Rooted := by
  obtain ⟨rows, tail, hsp⟩ := perform_splits sid cfg s.now hr s.call
  have hdir : f.dir = true ∨ s.writes sid cfg f = [] ∨
      ∃ rest, s.writes sid cfg f = .mkdir :: rest := hsp.dir
  rw [after]
  rcases hdir with hd | hws | ⟨rest, hws⟩
  · have : ∀ f' : Files, f'.dir = true → f'.Rooted := fun f' h h' => by rw [h] at h'; cases h'
    split
    · exact this _ (f.applyAll_dir _ hd)
    · exact this _ (f.crash_dir _ _ hd)
  · rw [hws]
    have hc : ∀ c : Crash, f.crash [] c = f := by
      intro c
      rw [Files.crash]
      split
      · next h => simp at h
      · simp
    split
    · exact hr
    · rw [hc]
      exact hr
  · rw [hws]
    have hmk : (f.apply .mkdir).dir = true := rfl
    have : ∀ f' : Files, f'.dir = true → f'.Rooted := fun f' h h' => by rw [h] at h'; cases h'
    split
    · exact this _ (Files.applyAll_dir (f.apply .mkdir) rest hmk)
    · next c _ =>
      obtain ⟨done, torn⟩ := c
      cases done with
      | zero =>
        cases torn with
        | none => exact hr
        | some n => exact this _ rfl
      | succ d =>
        rw [Files.crash]
        split
        · exact this _ (Files.cut_dir _ _ _ (Files.applyAll_dir (f.apply .mkdir) (rest.take d) hmk))
        · exact this _ (Files.applyAll_dir (f.apply .mkdir) (rest.take d) hmk)

theorem messageState_eq (h : f.Rooted) (id : Text) :
    messageState id f = (standing id f.journal).last.map (·.state) := by
  rw [messageState, standing_last]
  split
  · rfl
  · next hd =>
    rw [h.absent_of_not hd]
    rfl

/-! ## Runs -/

/-- A directory before its files, and a state file of whole rows. -/
structure Files.Sound (f : Files) : Prop where
  rooted : f.Rooted
  clean : f.StateClean

theorem Files.sound_absent : Files.absent.Sound :=
  ⟨fun _ => rfl, (journal_of_content (show content Files.absent.state
    = jsonlBytes (([] : List StateRow).map StateRow.toJson) from rfl)).2⟩

theorem Files.inboxClean_absent : Files.absent.InboxClean :=
  (messages_of_content (show content Files.absent.inbox
    = jsonlBytes (([] : List Message).map Message.toJson) from rfl)).2

/-- A step that tears no write to the state file. -/
def Step.SpareState (sid : Text) (cfg : Config) (s : Step) (f : Files) : Prop :=
  ∀ w, s.tears sid cfg f = some w → w.onStateFile = false

/-- A step that tears no write to the inbox. -/
def Step.SpareInbox (sid : Text) (cfg : Config) (s : Step) (f : Files) : Prop :=
  ∀ w, s.tears sid cfg f = some w → w.onInboxFile = false

theorem Step.sound (h : f.Sound) (ht : s.SpareState sid cfg f) : (s.after sid cfg f).Sound := by
  obtain ⟨k, hclean, -⟩ := s.after_eq h.clean ht
  exact ⟨s.rooted h.rooted, hclean⟩

theorem Step.inboxClean (h : f.Sound) (ht : s.SpareState sid cfg f) (hi : f.InboxClean)
    (hti : s.SpareInbox sid cfg f) : (s.after sid cfg f).InboxClean := by
  obtain ⟨k, -, -, -, hinbox⟩ := s.after_eq h.clean ht
  exact (hinbox hi hti).1

/-- A step without a crash tears nothing. -/
theorem Step.tears_of_whole (hc : s.crash = none) : s.tears sid cfg f = none := by
  rw [tears, hc]
  rfl

theorem Step.spareState_of_whole (hc : s.crash = none) : s.SpareState sid cfg f := by
  intro w hw
  rw [tears_of_whole hc] at hw
  cases hw

theorem Step.spareInbox_of_whole (hc : s.crash = none) : s.SpareInbox sid cfg f := by
  intro w hw
  rw [tears_of_whole hc] at hw
  cases hw

end

/-- Every step of a run meets a condition in the files it finds. -/
def Along (sid : Text) (cfg : Config) (P : Step → Files → Prop) : Files → List Step → Prop
  | _, [] => True
  | f, s :: steps => P s f ∧ Along sid cfg P (s.after sid cfg f) steps

/-- **An invariant of the steps holds at the end of a run.** -/
theorem run_induction {sid : Text} {cfg : Config} {P : Step → Files → Prop} {I : Files → Prop}
    (hstep : ∀ s f, I f → P s f → I (s.after sid cfg f)) {f : Files} {steps : List Step} (h : I f)
    (hp : Along sid cfg P f steps) : I (run sid cfg f steps) := by
  induction steps generalizing f with
  | nil => exact h
  | cons s steps ih => exact ih (hstep s f h hp.1) hp.2

/-- A condition of the steps alone. -/
theorem along_of_forall (sid : Text) (cfg : Config) {P : Step → Prop} {f : Files}
    {steps : List Step} (h : ∀ s ∈ steps, P s) : Along sid cfg (fun s _ => P s) f steps := by
  induction steps generalizing f with
  | nil => trivial
  | cons s steps ih =>
    exact ⟨h s List.mem_cons_self, ih fun x hx => h x (List.mem_cons_of_mem _ hx)⟩

end Telepty.Mailbox
