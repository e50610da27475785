import Mathlib.Data.List.Pairwise
import Mathlib.Tactic.MkIffOfInductiveProp
import Telepty.Mailbox.Intact
import Telepty.Mailbox.Terminal

/-!
# What the strict reader accepts

Calls without a crash leave files that the strict reader understands: whole rows, the rows of a
message one attempt after the other, every mark beside its state (`Files.Regular`). What remains are
the reader's limits (`Files.Fits`): sizes, ranges of numbers, lengths of names, and a row in the
inbox for every message with a state. Within them it reads every mailbox.
-/

namespace Telepty.Mailbox

open Infra

variable {sid : Text} {cfg : Config} {f : Files} {s : Step} {id : Text} {m : Message}

/-! ## Regular files -/

/-- The rows of one message: all of this session, each a later attempt of the same contents. -/
structure Lineage (sid : Text) (rows : List Message) : Prop where
  recipients : ∀ m ∈ rows, m.recipient = sid
  attempts : rows.Pairwise fun a b =>
    a.payload = b.payload ∧ a.sender = b.sender ∧ a.attempt < b.attempt

/-- The rows of a message have one contents. -/
theorem Lineage.contents {rows : List Message} {a b : Message} (h : Lineage sid rows)
    (ha : a ∈ rows) (hb : b ∈ rows) : a.payload = b.payload ∧ a.sender = b.sender := by
  have hsymm : Std.Symm fun a b : Message => a.payload = b.payload ∧ a.sender = b.sender :=
    ⟨fun _ _ h => ⟨h.1.symm, h.2.symm⟩⟩
  have hall : rows.Pairwise fun a b => a.payload = b.payload ∧ a.sender = b.sender :=
    h.attempts.imp fun h => ⟨h.1, h.2.1⟩
  exact hall.forall_of_forall (fun _ _ => ⟨rfl, rfl⟩) ha hb

/-- `dead-letter.jsonl` is rows, a line each. -/
def Files.DeadClean (f : Files) : Prop :=
  ∃ ds : List DeadLetter, content f.deadLetter = jsonlBytes (ds.map DeadLetter.toJson)

structure Files.Regular (sid : Text) (f : Files) : Prop where
  sound : f.Sound
  inbox : f.InboxClean
  matched : f.Matched
  dead : f.DeadClean
  lineage : ∀ id, Lineage sid (rowsOf id f.messages)
  marks : ∀ r ∈ f.journal, r.mark.fits r.state = true

theorem regular_absent : Files.absent.Regular sid where
  sound := Files.sound_absent
  inbox := Files.inboxClean_absent
  matched := fun _ _ => rfl
  dead := ⟨[], rfl⟩
  lineage := fun _ => ⟨fun _ hm => absurd hm List.not_mem_nil, .nil⟩
  marks := fun _ hr => absurd hr List.not_mem_nil

/-- The latest row of a message is the one of its highest attempt. -/
theorem attempt_le_latest {ms : List Message} (h : latestOf id ms = some m) :
    ∀ x ∈ rowsOf id ms, x.attempt ≤ m.attempt := by
  induction ms using List.reverseRecOn generalizing m with
  | nil => cases h
  | append_singleton ms y ih =>
    intro x hx
    rw [latestOf_concat] at h
    rw [rowsOf, List.filter_append, List.mem_append] at hx
    split at h
    · next hy =>
      have hxy : x ∈ rowsOf id ms ∨ x = y := by
        refine hx.imp_right fun hx => ?_
        exact List.mem_singleton.mp (List.mem_of_mem_filter hx)
      cases hl : latestOf id ms with
      | none =>
        rw [hl] at h
        cases h
        rcases hxy with hxm | rfl
        · obtain ⟨z, hz⟩ := latestOf_of_rowsOf (List.ne_nil_of_mem hxm)
          rw [hl] at hz
          cases hz
        · exact Nat.le_refl _
      | some l =>
        have ih := ih hl
        rw [hl, Option.some.injEq, later] at h
        split at h
        · next hlt =>
          subst h
          rcases hxy with hxm | rfl
          · exact Nat.le_trans (ih x hxm) (Nat.le_of_lt hlt)
          · exact Nat.le_refl _
        · next hge =>
          subst h
          rcases hxy with hxm | rfl
          · exact ih x hxm
          · exact Nat.not_lt.mp hge
    · next hy =>
      rcases hx with hx | hx
      · exact ih h x hx
      · obtain ⟨hx, hid⟩ := List.mem_filter.mp hx
        rw [List.mem_singleton.mp hx] at hid
        exact absurd (of_decide_eq_true hid) hy

/-- **A turn continues the rows of its message.** -/
theorem Turn.lineage {now : Int} {c : Call} {ws : List Write} (hi : f.InboxClean) (hm : f.Matched)
    (ht : Turn sid cfg now id (standing id f.journal) (IsLatest f id) c ws)
    (h : Lineage sid (rowsOf id f.messages)) :
    Lineage sid (rowsOf id f.messages ++ inboxRows ws) := by
  have hsame : inboxRows ws = [] → Lineage sid (rowsOf id f.messages ++ inboxRows ws) := by
    intro hn
    rw [hn, List.append_nil]
    exact h
  cases ht with
  | enqueued hid hs =>
    rw [hm id hs]
    exact ⟨fun m hm => by rw [List.mem_singleton.mp hm], List.pairwise_singleton _ _⟩
  | @retried _ m _ hl =>
    have hlat := hl.2 hi
    have hmem : m ∈ rowsOf id f.messages := by
      obtain ⟨hmem, hid⟩ := mem_of_latestOf hlat
      exact List.mem_filter.mpr ⟨hmem, decide_eq_true hid⟩
    have hle := attempt_le_latest hlat
    show Lineage sid (rowsOf id f.messages ++ [m.next cfg now])
    refine ⟨fun x hx => ?_, List.pairwise_append.mpr
      ⟨h.attempts, List.pairwise_singleton _ _, fun x hx y hy => ?_⟩⟩
    · rcases List.mem_append.mp hx with hx | hx
      · exact h.recipients x hx
      · rw [List.mem_singleton.mp hx]
        exact h.recipients m hmem
    · rw [List.mem_singleton.mp hy]
      have hlt : x.attempt < (m.next cfg now).attempt := Nat.lt_succ_of_le (hle x hx)
      have hsame := h.contents hx hmem
      exact ⟨hsame.1, hsame.2, hlt⟩
  | quiet => exact hsame rfl
  | acked _ hl => rcases hl with rfl | ⟨t, rfl⟩ <;> exact hsame rfl
  | expired n => exact hsame (by simp [inboxRows])
  | _ => exact hsame rfl

/-- Every state row of a turn carries a mark that fits. -/
theorem Turn.marks {now : Int} {st : Standing} {L : Message → Prop} {c : Call} {ws : List Write}
    (ht : Turn sid cfg now id st L c ws) {r : StateRow} (hr : .appendState r ∈ ws) :
    r.mark.fits r.state = true := by
  cases ht with
  | enqueued =>
    simp only [List.mem_cons, reduceCtorEq, List.not_mem_nil, or_false, false_or,
      Write.appendState.injEq] at hr
    subst hr
    rw [Message.firstRow]
    dsimp only
    split <;> rfl
  | acked hs hl =>
    rcases hl with rfl | ⟨t, rfl⟩ <;> simp at hr
    · rw [hr]
      rfl
    · rcases hr with rfl | rfl <;> rfl
  | withdrawn =>
    simp only [List.mem_cons, List.not_mem_nil, or_false, Write.appendState.injEq] at hr
    rw [hr]
    split <;> rfl
  | expired n =>
    have := List.eq_of_mem_replicate hr
    simp only [Write.appendState.injEq] at this
    rw [this]
    rfl
  | retried =>
    simp at hr
    rcases hr with rfl | rfl <;> rfl
  | quiet => cases hr
  | _ =>
    rw [Write.appendState.inj (List.mem_singleton.mp hr)]
    rfl

theorem Files.DeadClean.applyAll (h : f.DeadClean) (ws : List Write) : (f.applyAll ws).DeadClean := by
  induction ws generalizing f with
  | nil => exact h
  | cons w ws ih =>
    refine ih ?_
    obtain ⟨ds, hd⟩ := h
    cases w with
    | appendDead d =>
      refine ⟨ds ++ [d], ?_⟩
      rw [List.map_append, jsonlBytes_append, ← hd]
      simp only [apply, cut, List.take_length]
      rfl
    | writeDead ds' =>
      refine ⟨ds', ?_⟩
      simp only [apply, cut, List.take_length]
      rfl
    | _ => exact ⟨ds, hd⟩

/-- A row of the journal after writes that append was there, or is written by them. -/
theorem mem_onState {ws : List Write} (h : ∀ w ∈ ws, w.appends) {j : List StateRow} {r : StateRow}
    (hr : r ∈ ws.foldl Write.onState j) : r ∈ j ∨ .appendState r ∈ ws := by
  induction ws generalizing j with
  | nil => exact .inl hr
  | cons w ws ih =>
    rcases ih (fun x hx => h x (List.mem_cons_of_mem _ hx)) hr with hr | hr
    · cases w with
      | appendState r' =>
        rcases List.mem_append.mp hr with hr | hr
        · exact .inl hr
        · rw [List.mem_singleton.mp hr]
          exact .inr List.mem_cons_self
      | writeState rs => exact absurd (h _ List.mem_cons_self) (by simp [Write.appends])
      | _ => exact .inl hr
    · exact .inr (List.mem_cons_of_mem _ hr)

/-- A row the compaction leaves is a row of the journal, or one without its mark. -/
theorem mem_activeStates {j : List StateRow} {pristine : List Text} {r : StateRow}
    (h : r ∈ activeStates j pristine) : ∃ r' ∈ j, ∃ b, r = r' ∨ r = r'.safe b := by
  rcases List.mem_append.mp h with h | h
  · exact ⟨r, List.mem_of_mem_filter h, true, .inl rfl⟩
  · obtain ⟨r', hr', rfl⟩ := List.mem_map.mp h
    obtain ⟨id, hid⟩ := ((loadStates j).mem_values_iff).mp (List.mem_of_mem_filter hr')
    rw [loadStates_get?] at hid
    exact ⟨r', (mem_history.mp (List.mem_of_getLast? hid)).1, _, .inr rfl⟩

theorem StateRow.safe_fits {r : StateRow} (h : r.mark.fits r.state = true) (b : Bool) :
    (r.safe b).mark.fits (r.safe b).state = true := by
  rw [safe]
  split
  · rfl
  · exact h

/-- **Every call without a crash keeps the files regular.** -/
theorem Step.regular (h : f.Regular sid) (hc : s.crash = none) :
    (s.after sid cfg f).Regular sid := by
  have hafter : s.after sid cfg f = f.applyAll (s.writes sid cfg f) := by rw [after, hc]
  refine ⟨s.sound h.sound (spareState_of_whole hc),
    s.inboxClean h.sound (spareState_of_whole hc) h.inbox (spareInbox_of_whole hc),
    s.matched h.sound h.inbox h.matched hc, ?_, fun id => ?_, fun r hr => ?_⟩
  · rw [hafter]
    exact h.dead.applyAll _
  · obtain ⟨st, l, hmv, -, hrows⟩ := s.moves sid cfg h.sound.rooted h.sound.clean
      (spareState_of_whole hc) id
    rw [hrows h.inbox (spareInbox_of_whole hc)]
    have hnil : Lineage sid ([] : List Message) := ⟨fun _ hm => absurd hm List.not_mem_nil, .nil⟩
    cases hmv with
    | part ht hp hwhole =>
      rw [hwhole hc]
      exact ht.lineage h.inbox h.matched (h.lineage id)
    | compacted pristine ht =>
      split
      · exact ht.lineage h.inbox h.matched (h.lineage id)
      · exact hnil
    | interrupted ht hcomp hcr => exact absurd hc hcr
    | purged => exact hnil
    | halfPurged => exact hnil
  · obtain ⟨rows, tail, hsp⟩ := perform_splits sid cfg s.now h.sound.rooted s.call
    have hrow : ∀ r ∈ rows.foldl Write.onState f.journal, r.mark.fits r.state = true := by
      intro r hr
      rcases mem_onState hsp.appends hr with hr | hr
      · exact h.marks r hr
      · exact (hsp.turn r.msgId).marks (List.mem_filter.mpr ⟨hr, by simp [Write.about]⟩)
    rw [hafter, (f.applyAll_state _ h.sound.clean).1, show s.writes sid cfg f = rows ++ tail from
      hsp.eq, List.foldl_append] at hr
    rcases hsp.tail with rfl | ⟨ms, rs, rfl, hrew⟩
    · exact hrow r hr
    · have hr : r ∈ rs := hr
      generalize s.call = c at hrew
      cases hrew with
      | compacted =>
        obtain ⟨r', hr', b, rfl | rfl⟩ := mem_activeStates hr
        · rw [(f.applyAll_state _ h.sound.clean).1] at hr'
          exact hrow _ hr'
        · rw [(f.applyAll_state _ h.sound.clean).1] at hr'
          exact StateRow.safe_fits (hrow _ hr') b
      | purged => cases hr
      | created => cases hr

theorem regular_run {steps : List Step} (hc : ∀ s ∈ steps, s.crash = none) :
    (run sid cfg .absent steps).Regular sid :=
  run_induction (P := fun s _ => s.crash = none) (fun _ _ h hc => Step.regular h hc)
    regular_absent (along_of_forall sid cfg hc)

/-! ## Reading a file strictly -/

theorem nonblankLines_linesText {js : List Json} (h : ∀ j ∈ js, j.isObject) :
    nonblankLines (linesText js) = js.map Json.stringify := by
  induction js with
  | nil => decide
  | cons j js ih =>
    have ih := ih fun x hx => h x (List.mem_cons_of_mem _ hx)
    have hne : trim j.stringify ≠ [] := by
      intro hn
      have := parseLine_stringify (h j List.mem_cons_self)
      rw [parseLine, if_pos hn] at this
      cases this
    rw [nonblankLines] at ih ⊢
    rw [linesText, List.flatMap_cons, splitOn_lineText,
      List.filter_cons_of_pos (by simpa using hne), List.map_cons]
    exact congrArg _ ih

theorem linesText_ends (js : List Json) :
    linesText js = [] ∨ (linesText js).getLast? = some '\n' := by
  induction js using List.reverseRecOn with
  | nil => exact .inl rfl
  | append_singleton js j =>
    refine .inr ?_
    rw [linesText, List.flatMap_append, List.flatMap_cons, List.flatMap_nil, List.append_nil,
      lineText, ← List.append_assoc, List.getLast?_concat]

theorem mapM_parseUnambiguousJSON {js : List Json}
    (h : ∀ j ∈ js, byteLength j.stringify ≤ maxJsonBytes ∧ unambiguous j = true) :
    (js.map Json.stringify).mapM parseUnambiguousJSON = some js := by
  induction js with
  | nil => rfl
  | cons j js ih =>
    have hj : parseUnambiguousJSON j.stringify = some j := by
      obtain ⟨hb, hu⟩ := h j List.mem_cons_self
      rw [parseUnambiguousJSON, if_pos hb, Json.parse_stringify, Option.filter_some, if_pos hu]
    rw [List.map_cons, List.mapM_cons, hj, ih fun x hx => h x (List.mem_cons_of_mem _ hx)]
    rfl

/-- The limits of the strict reader for a file. -/
@[mk_iff] structure FileFits (file : Option Bytes) : Prop where
  isSome : file.isSome = true
  bytes : (content file).length ≤ maxFileBytes
  rows : (readJsonl (content file)).length ≤ maxRows
  lines : ∀ j ∈ readJsonl (content file),
    byteLength j.stringify ≤ maxJsonBytes ∧ unambiguous j = true

instance (file : Option Bytes) : Decidable (FileFits file) :=
  decidable_of_iff _ (fileFits_iff file).symm

/-- **A file of objects within the limits is read strictly.** -/
theorem readStrict_of_fits {file : Option Bytes} {js : List Json} (hj : ∀ j ∈ js, j.isObject)
    (hc : content file = jsonlBytes js) (h : FileFits file) : readStrict file = some js := by
  obtain ⟨hsome, hbytes, hrows, hlines⟩ := h
  obtain ⟨b, rfl⟩ := Option.isSome_iff_exists.mp hsome
  have hb : b = jsonlBytes js := hc
  subst hb
  rw [show content (some (jsonlBytes js)) = jsonlBytes js from rfl,
    readJsonl_jsonlBytes hj] at hrows hlines
  have ht : decodeText (jsonlBytes js) = linesText js := decodeText_encodeText _
  rw [readStrict]
  simp only [ht, nonblankLines_linesText hj]
  rw [if_pos ⟨hbytes, rfl, linesText_ends js, by rwa [List.length_map]⟩]
  exact mapM_parseUnambiguousJSON hlines

/-! ## Rows -/

theorem custodyMessage_of_fits (hr : m.recipient = sid) (hid : boundedId m.msgId = true)
    (hc : safeNat m.createdAt = true) (ha : safeNat m.attempt = true)
    (hs : ∀ t ∈ m.sender, byteLength t ≤ 512) :
    custodyMessage sid m.toJson = some m := by
  have hsender : senderFits (m.toJson.field "from") = true := by
    obtain ⟨msgId, sender, recipient, payload, createdAt, attempt, handoff⟩ := m
    cases sender with
    | none => cases handoff <;> rfl
    | some t => cases handoff <;> exact decide_eq_true (hs t rfl)
  have hfields : fieldsIn messageFields m.toJson = true := by
    obtain ⟨msgId, sender, recipient, payload, createdAt, attempt, handoff⟩ := m
    cases sender <;> cases handoff <;> rfl
  rw [custodyMessage, Message.ofJson_toJson, Option.filter_some, if_pos]
  rw [hid, decide_eq_true hr, hc, ha, hsender, hfields]
  rfl

theorem custodyState_of_fits {messages : OrdMap Text Message} {r : StateRow}
    (hid : boundedId r.msgId = true) (ht : safeNat r.ts = true)
    (hm : messages.has r.msgId = true) (hf : r.mark.fits r.state = true) :
    custodyState messages r.toJson = some r := by
  have hfields : fieldsIn stateFields r.toJson = true := by
    obtain ⟨msgId, state, ts, mark⟩ := r
    cases mark <;> rfl
  rw [custodyState, StateRow.ofJson_toJson, Option.filter_some, if_pos]
  simp [hid, ht, hm, hf, hfields]

/-- The limits of the strict reader for an inbox row. -/
@[mk_iff] structure Message.Fits (m : Message) : Prop where
  id : boundedId m.msgId = true
  sender : ∀ t ∈ m.sender, byteLength t ≤ 512
  createdAt : safeNat m.createdAt = true
  attempt : safeNat m.attempt = true

instance (m : Message) : Decidable m.Fits := decidable_of_iff _ (m.fits_iff).symm

/-- The strict reader keeps the last row of each message. -/
theorem foldlM_custodyAdd (ms : List Message) (hf : ∀ m ∈ ms, m.Fits)
    (hl : ∀ id, Lineage sid (rowsOf id ms)) :
    ∃ messages, (ms.map Message.toJson).foldlM (custodyAdd sid true) OrdMap.empty
        = some messages ∧
      ∀ id, messages.get? id = (rowsOf id ms).getLast? := by
  induction ms using List.reverseRecOn with
  | nil => exact ⟨_, rfl, fun _ => rfl⟩
  | append_singleton ms m ih =>
    have hrows : ∀ id, rowsOf id (ms ++ [m])
        = rowsOf id ms ++ if m.msgId = id then [m] else [] := by
      intro id
      rw [rowsOf, List.filter_append]
      split
      · next h => rw [List.filter_cons_of_pos (by simpa using h)]; rfl
      · next h => rw [List.filter_cons_of_neg (by simpa using h)]; rfl
    have hbefore : ∀ id, Lineage sid (rowsOf id ms) := fun id => by
      have h := hl id
      rw [hrows] at h
      exact ⟨fun x hx => h.recipients x (List.mem_append_left _ hx),
        (List.pairwise_append.mp h.attempts).1⟩
    obtain ⟨messages, hfold, hget⟩ := ih (fun x hx => hf x (List.mem_append_left _ hx)) hbefore
    have hm := hf m (List.mem_append_right _ List.mem_cons_self)
    have hline := hl m.msgId
    rw [hrows, if_pos rfl] at hline
    have hcust : custodyMessage sid m.toJson = some m :=
      custodyMessage_of_fits (hline.recipients m (List.mem_append_right _ List.mem_cons_self))
        hm.id hm.createdAt hm.attempt hm.sender
    have hadd : custodyAdd sid true messages m.toJson = some (messages.set m.msgId m) := by
      rw [custodyAdd, hcust]
      dsimp only
      rw [hget]
      cases hlast : (rowsOf m.msgId ms).getLast? with
      | none => rfl
      | some p =>
        obtain ⟨hp, hs, ha⟩ := (List.pairwise_append.mp hline.attempts).2.2 p
          (List.mem_of_getLast? hlast) m List.mem_cons_self
        have hfol : follows true p m = true := by
          have hpos : 0 < m.attempt := Nat.lt_of_le_of_lt (Nat.zero_le _) ha
          simp [follows, hp, hs, ha, hpos]
        dsimp only
        rw [if_pos hfol, if_pos (Nat.le_of_lt ha)]
    refine ⟨messages.set m.msgId m, ?_, fun id => ?_⟩
    · rw [List.map_append, List.foldlM_append, hfold]
      show (do let x ← custodyAdd sid true messages m.toJson; List.foldlM _ x []) = _
      rw [hadd]
      rfl
    · rw [OrdMap.get?_set, hrows, hget]
      by_cases h : m.msgId = id
      · rw [if_pos h.symm, if_pos h, List.getLast?_concat]
      · rw [if_neg (Ne.symm h), if_neg h, List.append_nil]

theorem mapM_eq_some_self {α β : Type} {g : α → β} {k : β → Option α} {l : List α}
    (h : ∀ x ∈ l, k (g x) = some x) : (l.map g).mapM k = some l := by
  induction l with
  | nil => rfl
  | cons x l ih =>
    rw [List.map_cons, List.mapM_cons, h x List.mem_cons_self,
      ih fun y hy => h y (List.mem_cons_of_mem _ hy)]
    rfl

/-! ## Custody -/

/-- The limits of the strict reader for the files of a mailbox. -/
@[mk_iff] structure Files.Fits (f : Files) : Prop where
  inbox : FileFits f.inbox
  state : FileFits f.state
  dead : f.deadLetter.isSome = true → FileFits f.deadLetter
  messages : ∀ m ∈ f.messages, m.Fits
  /-- Every message with a state has a row in the inbox. -/
  known : ∀ r ∈ f.journal, ∃ m ∈ f.messages, m.msgId = r.msgId
  times : ∀ r ∈ f.journal, safeNat r.ts = true

instance (f : Files) : Decidable f.Fits := decidable_of_iff _ (f.fits_iff).symm

theorem isObject_messages (ms : List Message) : ∀ j ∈ ms.map Message.toJson, j.isObject := by
  intro j hj
  obtain ⟨m, -, rfl⟩ := List.mem_map.mp hj
  exact m.isObject_toJson

theorem isObject_states (rs : List StateRow) : ∀ j ∈ rs.map StateRow.toJson, j.isObject := by
  intro j hj
  obtain ⟨r, -, rfl⟩ := List.mem_map.mp hj
  exact r.isObject_toJson

theorem isObject_dead (ds : List DeadLetter) : ∀ j ∈ ds.map DeadLetter.toJson, j.isObject := by
  intro j hj
  obtain ⟨d, -, rfl⟩ := List.mem_map.mp hj
  rfl

/-- **Within its limits the strict reader reads every regular mailbox.** -/
theorem readCustody_of_fits (h : f.Regular sid) (hf : f.Fits) :
    ∃ c, readCustody sid true f = some c := by
  have hobj := isObject_messages f.messages
  have hobj' := isObject_states f.journal
  have hinbox := readStrict_of_fits hobj h.inbox hf.inbox
  have hstate := readStrict_of_fits hobj' h.sound.clean hf.state
  obtain ⟨messages, hfold, hget⟩ := foldlM_custodyAdd f.messages hf.messages h.lineage
  have hrows : (f.journal.map StateRow.toJson).mapM (custodyState messages) = some f.journal := by
    refine mapM_eq_some_self fun r hr => ?_
    obtain ⟨m, hm, hid⟩ := hf.known r hr
    have hmem : m ∈ rowsOf r.msgId f.messages := List.mem_filter.mpr ⟨hm, decide_eq_true hid⟩
    refine custodyState_of_fits (by rw [← hid]; exact (hf.messages m hm).id) (hf.times r hr) ?_
      (h.marks r hr)
    rw [OrdMap.has_iff, hget]
    exact ⟨_, List.getLast?_eq_some_getLast (List.ne_nil_of_mem hmem)⟩
  rw [readCustody, hinbox, hstate]
  simp only [Option.bind_eq_bind, Option.bind_some, hfold, hrows]
  split
  · next hd =>
    obtain ⟨ds, hds⟩ := h.dead
    rw [readStrict_of_fits (isObject_dead ds) hds (hf.dead hd)]
    exact ⟨_, rfl⟩
  · exact ⟨_, rfl⟩

/-! ## Its limits are exact -/

theorem isSome_of_mapM {α β : Type} {k : α → Option β} {l : List α} {r : List β}
    (h : l.mapM k = some r) : ∀ x ∈ l, (k x).isSome = true := by
  induction l generalizing r with
  | nil => exact fun x hx => absurd hx List.not_mem_nil
  | cons y l ih =>
    rw [List.mapM_cons] at h
    simp only [Option.bind_eq_bind, Option.bind_eq_some_iff] at h
    obtain ⟨b, hb, bs, hbs, -⟩ := h
    intro x hx
    rcases List.mem_cons.mp hx with rfl | hx
    · rw [hb]
      rfl
    · exact ih hbs x hx

theorem fits_of_readStrict {file : Option Bytes} {js js' : List Json}
    (hj : ∀ j ∈ js, j.isObject) (hc : content file = jsonlBytes js)
    (h : readStrict file = some js') : FileFits file := by
  cases file with
  | none => cases h
  | some b =>
    have hb : b = jsonlBytes js := hc
    subst hb
    have ht : decodeText (jsonlBytes js) = linesText js := decodeText_encodeText _
    rw [readStrict] at h
    simp only [ht, nonblankLines_linesText hj] at h
    split at h
    · next hcond =>
      obtain ⟨hbytes, -, -, hrows⟩ := hcond
      rw [List.length_map] at hrows
      have hread : readJsonl (content (some (jsonlBytes js))) = js := readJsonl_jsonlBytes hj
      refine ⟨rfl, hbytes, by rw [hread]; exact hrows, fun j hjm => ?_⟩
      rw [hread] at hjm
      have hsome := isSome_of_mapM h _ (List.mem_map_of_mem hjm)
      rw [parseUnambiguousJSON] at hsome
      split at hsome
      · next hle =>
        rw [Json.parse_stringify, Option.filter_some] at hsome
        split at hsome
        · next hu => exact ⟨hle, hu⟩
        · cases hsome
      · cases hsome
    · cases h

theorem fits_of_custodyMessage (h : (custodyMessage sid m.toJson).isSome = true) : m.Fits := by
  rw [custodyMessage, Message.ofJson_toJson, Option.filter_some] at h
  split at h
  · next hp =>
    simp only [Bool.and_eq_true] at hp
    obtain ⟨⟨⟨⟨⟨hid, -⟩, hc⟩, ha⟩, hs⟩, -⟩ := hp
    refine ⟨hid, fun t ht => ?_, hc, ha⟩
    obtain ⟨msgId, sender, recipient, payload, createdAt, attempt, handoff⟩ := m
    cases ht
    cases handoff <;> exact of_decide_eq_true hs
  · cases h

theorem of_foldlM_custodyAdd {ms : List Message} {messages : OrdMap Text Message}
    (h : (ms.map Message.toJson).foldlM (custodyAdd sid true) OrdMap.empty = some messages) :
    (∀ m ∈ ms, m.Fits) ∧ ∀ id, messages.has id = true → ∃ m ∈ ms, m.msgId = id := by
  induction ms using List.reverseRecOn generalizing messages with
  | nil =>
    cases h
    exact ⟨fun m hm => absurd hm List.not_mem_nil, fun id hid => by cases hid⟩
  | append_singleton ms m ih =>
    rw [List.map_append, List.foldlM_append] at h
    simp only [Option.bind_eq_bind, Option.bind_eq_some_iff] at h
    obtain ⟨before, hb, hadd⟩ := h
    obtain ⟨hfits, hhas⟩ := ih hb
    rw [List.map_singleton, List.foldlM_cons] at hadd
    simp only [Option.bind_eq_bind, Option.bind_eq_some_iff] at hadd
    obtain ⟨after, hadd, hlast⟩ := hadd
    cases hlast
    rw [custodyAdd] at hadd
    cases hcust : custodyMessage sid m.toJson with
    | none =>
      rw [hcust] at hadd
      cases hadd
    | some x =>
      have hx : x = m := by
        rw [custodyMessage, Message.ofJson_toJson, Option.filter_some] at hcust
        split at hcust
        · exact (Option.some.inj hcust).symm
        · cases hcust
      subst hx
      have hset : messages = before ∨ messages = before.set x.msgId x := by
        rw [hcust] at hadd
        dsimp only at hadd
        split at hadd
        · exact .inr (Option.some.inj hadd).symm
        · split at hadd
          · split at hadd
            · exact .inr (Option.some.inj hadd).symm
            · exact .inl (Option.some.inj hadd).symm
          · cases hadd
      refine ⟨fun y hy => ?_, fun id hid => ?_⟩
      · rcases List.mem_append.mp hy with hy | hy
        · exact hfits y hy
        · rw [List.mem_singleton.mp hy]
          exact fits_of_custodyMessage (by rw [hcust]; rfl)
      · have hold : before.has id = true ∨ x.msgId = id := by
          rcases hset with rfl | rfl
          · exact .inl hid
          · obtain ⟨v, hv⟩ := (OrdMap.has_iff _).mp hid
            rw [OrdMap.get?_set] at hv
            split at hv
            · next he => exact .inr he.symm
            · exact .inl ((OrdMap.has_iff _).mpr ⟨v, hv⟩)
        rcases hold with hold | rfl
        · obtain ⟨y, hy, he⟩ := hhas id hold
          exact ⟨y, List.mem_append_left _ hy, he⟩
        · exact ⟨x, List.mem_append_right _ List.mem_cons_self, rfl⟩

/-- **What the strict reader reads is within its limits.** -/
theorem fits_of_readCustody (h : f.Regular sid) {c : Custody}
    (hc : readCustody sid true f = some c) : f.Fits := by
  have hobj := isObject_messages f.messages
  have hobj' := isObject_states f.journal
  rw [readCustody] at hc
  simp only [Option.bind_eq_bind, Option.bind_eq_some_iff] at hc
  obtain ⟨inbox, hin, journal, hst, messages, hfold, rows, hrows, hdead⟩ := hc
  have hinbox := fits_of_readStrict hobj h.inbox hin
  have hstate := fits_of_readStrict hobj' h.sound.clean hst
  rw [readStrict_of_fits hobj h.inbox hinbox] at hin
  rw [readStrict_of_fits hobj' h.sound.clean hstate] at hst
  cases hin
  cases hst
  obtain ⟨hfits, hhas⟩ := of_foldlM_custodyAdd hfold
  have hrow : ∀ r ∈ f.journal, safeNat r.ts = true ∧ messages.has r.msgId = true := by
    intro r hr
    have hsome := isSome_of_mapM hrows _ (List.mem_map_of_mem hr)
    rw [custodyState, StateRow.ofJson_toJson, Option.filter_some] at hsome
    split at hsome
    · next hp =>
      simp only [Bool.and_eq_true] at hp
      exact ⟨hp.1.1.1.2, hp.1.1.2⟩
    · cases hsome
  refine ⟨hinbox, hstate, fun hd => ?_, hfits, fun r hr => hhas _ (hrow r hr).2,
    fun r hr => (hrow r hr).1⟩
  obtain ⟨ds, hds⟩ := h.dead
  rw [if_pos hd] at hdead
  obtain ⟨dead, hread, -⟩ := Option.bind_eq_some_iff.mp hdead
  exact fits_of_readStrict (isObject_dead ds) hds hread

end Telepty.Mailbox
