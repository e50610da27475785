import Telepty.Mailbox.Runs

/-!
# Files that keep every message

After a run that tears no write to the inbox or the state file, and does not die inside a purge,
both files are whole rows and a message that still has a future, one whose state is not terminal,
has a row in the inbox. Such a message can be recovered: `recoverInflight_filter` says what
the recovery writes for it.
-/

namespace Telepty.Mailbox

open Infra

variable {sid : Text} {cfg : Config} {f : Files} {s : Step} {id : Text}

/-- Every message with a state that is not terminal has a row in the inbox. -/
def Files.Backed (f : Files) : Prop :=
  ∀ id r, (standing id f.journal).last = some r → r.state.terminal = false →
    rowsOf id f.messages ≠ []

structure Files.Intact (f : Files) : Prop where
  sound : f.Sound
  inbox : f.InboxClean
  backed : f.Backed

theorem Files.intact_absent : Files.absent.Intact :=
  ⟨sound_absent, inboxClean_absent, fun id r h => by cases h⟩

/-- A step that tears no row and does not die inside a purge. -/
structure Step.Clean (sid : Text) (cfg : Config) (s : Step) (f : Files) : Prop where
  spareState : s.SpareState sid cfg f
  spareInbox : s.SpareInbox sid cfg f
  purge : s.call = .purge → s.crash = none

theorem Step.clean_of_whole (h : s.crash = none) : s.Clean sid cfg f :=
  ⟨spareState_of_whole h, spareInbox_of_whole h, fun _ => h⟩

theorem rowsOf_ne_nil_of_latestOf {ms : List Message} {m : Message}
    (h : latestOf id ms = some m) : rowsOf id ms ≠ [] := by
  intro hn
  rw [latestOf_eq_foldl, hn] at h
  cases h

theorem latestOf_of_rowsOf {ms : List Message} (h : rowsOf id ms ≠ []) :
    ∃ m, latestOf id ms = some m := by
  rw [latestOf_eq_foldl]
  generalize rowsOf id ms = l at h
  induction l using List.reverseRecOn with
  | nil => exact absurd rfl h
  | append_singleton l m =>
    rw [List.foldl_append]
    exact ⟨_, rfl⟩

/-- The state rows of a turn, as far as it was written: the message stands where it stood, its state
is terminal, or it has an inbox row. -/
theorem Turn.backed {now : Int} {c : Call} {ws pre : List Write} (hf : f.Intact)
    (ht : Turn sid cfg now id (standing id f.journal) (IsLatest f id) c ws) (hp : pre <+: ws)
    {r : StateRow} (hl : ((standing id f.journal).turn pre).last = some r)
    (hn : r.state.terminal = false) : rowsOf id f.messages ++ inboxRows pre ≠ [] := by
  have hold : ∀ r, (standing id f.journal).last = some r → r.state.terminal = false →
      rowsOf id f.messages ++ inboxRows pre ≠ [] :=
    fun r hr hn => List.append_ne_nil_of_left_ne_nil (hf.backed id r hr hn) _
  have hlatest : ∀ m, IsLatest f id m → rowsOf id f.messages ++ inboxRows pre ≠ [] :=
    fun m hm => List.append_ne_nil_of_left_ne_nil
      (rowsOf_ne_nil_of_latestOf (hm.2 hf.inbox)) _
  have hopen : ∀ r : StateRow, r.state = .pending ∨ r.state = .inFlight →
      r.state.terminal = false := by
    rintro r (h | h) <;> rw [h] <;> rfl
  cases ht with
  | quiet =>
    rw [List.prefix_nil.mp hp] at hl
    exact hold r hl hn
  | enqueued hid hs =>
    cases pre with
    | nil => exact hold r hl hn
    | cons w pre =>
      obtain ⟨rfl, -⟩ := List.cons_prefix_cons.mp hp
      exact List.append_ne_nil_of_right_ne_nil _ (List.cons_ne_nil _ _)
  | dequeued hs hr => exact hold _ hs (hopen _ (.inl hr))
  | acked hs hrest =>
    cases pre with
    | nil => exact hold r hl hn
    | cons w pre =>
      obtain ⟨rfl, hp'⟩ := List.cons_prefix_cons.mp hp
      rw [Standing.turn_cons] at hl
      rcases hrest with rfl | ⟨t, rfl⟩
      · rw [List.prefix_nil.mp hp'] at hl
        cases hl
        cases hn
      · cases pre with
        | nil =>
          cases hl
          cases hn
        | cons w pre =>
          obtain ⟨rfl, hp''⟩ := List.cons_prefix_cons.mp hp'
          rw [List.prefix_nil.mp hp''] at hl
          cases hl
          cases hn
  | retried hc hm => exact hlatest _ hm
  | gaveUp hc hm => exact hlatest _ hm
  | fenced hs hr => exact hold _ hs (hopen _ (.inr hr))
  | withdrawn hs hr => exact hold _ hs (hopen _ (hr.imp_right (·.2)))
  | expired n hs hr => exact hold _ hs (hopen _ hr)
  | lost hs hr => exact hold _ hs (hopen _ (.inr hr))

theorem Standing.kept_of_open {st : Standing} {r : StateRow} (h : st.last = some r)
    (hn : r.state.terminal = false) : st.kept = true := by
  rw [kept, h, Option.any_some, hn]
  simp

/-- A row the compaction leaves of a message comes from its last row. -/
theorem Standing.last_of_compacted {st : Standing} {pristine : Bool} {r : StateRow}
    (h : (st.compacted pristine).last = some r) :
    ∃ r', st.last = some r' ∧ r'.state = r.state := by
  rw [compacted] at h
  split at h
  · exact ⟨r, h, rfl⟩
  · split at h
    · exact ⟨r, h, rfl⟩
    · next r' hr' =>
      split at h
      · cases h
      · exact ⟨r', hr', by rw [← Option.some.inj h, StateRow.safe_state]⟩

/-- **A clean step keeps every message that has a future.** -/
theorem Step.intact (hf : f.Intact) (hs : s.Clean sid cfg f) : (s.after sid cfg f).Intact := by
  refine ⟨s.sound hf.sound hs.spareState,
    s.inboxClean hf.sound hs.spareState hf.inbox hs.spareInbox, fun id r hl hn => ?_⟩
  obtain ⟨st, l, hmv, hst, hrows⟩ := s.moves sid cfg hf.sound.rooted
    hf.sound.clean hs.spareState id
  rw [hrows hf.inbox hs.spareInbox]
  rw [hst] at hl
  cases hmv with
  | part ht hp hfull => exact ht.backed hf hp hl hn
  | compacted pristine ht hc =>
    obtain ⟨r', hr', hst'⟩ := Standing.last_of_compacted hl
    rw [← hst'] at hn
    rw [if_pos (Standing.kept_of_open hr' hn)]
    exact ht.backed hf (List.prefix_refl _) hr' hn
  | interrupted ht hc hcr =>
    rw [if_pos (Standing.kept_of_open hl hn)]
    exact ht.backed hf (List.prefix_refl _) hl hn
  | purged => cases hl
  | halfPurged hc hcr => exact absurd (hs.purge hc) hcr

/-! ## What a dequeue writes -/

/-- A message that can be dequeued once it is due. -/
def Pending (id : Text) (f : Files) : Prop :=
  ∃ r, (standing id f.journal).last = some r ∧ r.state = .pending

theorem dequeue_of_next {now : Int} {m : Message} (hf : f.Sound) (hn : nextMessage now f = some m) :
    dequeue now f = (.message (some m), [.appendState (plainRow m.msgId .inFlight now)]) := by
  have hd : f.dir = true := by
    cases hd : f.dir with
    | true => rfl
    | false =>
      rw [hf.rooted hd] at hn
      cases hn
  rw [dequeue, hn, if_neg (by simp [hd])]

/-- A state row changes the standing of its message alone. -/
theorem standing_appendState (hf : f.Sound) (r : StateRow) :
    standing id (f.applyAll [.appendState r]).journal
      = if r.msgId = id then (standing id f.journal).push r else standing id f.journal := by
  rw [(f.applyAll_state _ hf.clean).1]
  exact standing_concat id f.journal r

/-! ## What the recovery writes -/

/-- **What the recovery writes about a message**, as if it treated that message alone. -/
theorem recoverInflight_filter {now : Int} {r : StateRow} (hf : f.Intact)
    (hl : (standing id f.journal).last = some r) :
    (recoverInflight cfg now f).2.filter (Write.about id)
      = (recoverEntry cfg now f id r).filter (Write.about id) := by
  have hd : f.dir = true := by
    cases hd : f.dir with
    | true => rfl
    | false =>
      rw [hf.sound.rooted hd] at hl
      cases hl
  obtain ⟨f'', hlat, heq⟩ := recoverEntries_filter cfg now _
    (loadStates f.journal).nodup ((OrdMap.mem_entries_iff _).mpr (by rw [← standing_last, hl])) f
  rw [recoverInflight, if_neg (by simp [hd])]
  exact heq.trans (by rw [recoverEntry_congr (hlat hf.inbox)])

end Telepty.Mailbox
