import Telepty.Mailbox.Terminal

/-!
# The sweep over stale messages

`expireStale` goes through the rows of the inbox, of which a retried message has one for each
attempt, and looks each row's message up in the states. A message is expired for each of its rows
that is past the deadline, so for one with a single row this is the deadline of the message; an
attempt behind its fence is left to the recovery.
-/

namespace Telepty.Mailbox

open Infra

variable (sid : Text) (cfg : Config) (now : Int)

/-- The row is past its own deadline. -/
def Message.PastDeadline (m : Message) : Prop := m.createdAt + cfg.ttlSecs < now

instance (m : Message) : Decidable (m.PastDeadline cfg now) := inferInstanceAs (Decidable (_ < _))

/-- The message waits or is in flight, and no attempt of it stands behind the fence. -/
def Expirable (f : Files) (id : Text) : Prop :=
  ∃ r, (loadStates f.journal).get? id = some r ∧ (r.state = .pending ∨ r.state = .inFlight) ∧
    r.mark ≠ .nonRetryableAttempt

/-- The message of a row that says expired. -/
def Write.expires? : Write → Option Text
  | .appendState r => if r.state = .expired then some r.msgId else none
  | _ => none

/-- The messages some writes expire, once for each row. -/
def expiredIds (ws : List Write) : List Text := ws.filterMap Write.expires?

/-- The rows the sweep finds stale. -/
def staleRows (f : Files) : List Message := f.messages.filter (stale cfg now (loadStates f.journal))

variable {sid cfg now} {f : Files} {id : Text}

theorem mem_staleRows {m : Message} :
    m ∈ staleRows cfg now f ↔ m ∈ f.messages ∧ Expirable f m.msgId ∧ m.PastDeadline cfg now := by
  rw [staleRows, List.mem_filter, stale, Option.any_eq_true]
  refine and_congr_right fun _ => ?_
  constructor
  · rintro ⟨r, hr, h⟩
    simp only [Bool.and_eq_true, Bool.or_eq_true, decide_eq_true_eq] at h
    exact ⟨⟨r, hr, h.1.2, h.1.1⟩, h.2⟩
  · rintro ⟨⟨r, hr, hst, hmark⟩, hp⟩
    refine ⟨r, hr, ?_⟩
    simp only [Bool.and_eq_true, Bool.or_eq_true, decide_eq_true_eq]
    exact ⟨⟨hmark, hst⟩, hp⟩

theorem expiredIds_append (ws ws' : List Write) :
    expiredIds (ws ++ ws') = expiredIds ws ++ expiredIds ws' := List.filterMap_append

/-- The compaction writes no row that says expired. -/
theorem expiredIds_compact {ws : List Write} (h : compact sid cfg f = some ws) :
    expiredIds ws = [] := by
  unfold compact at h
  split at h
  · cases h
    rfl
  · split at h
    · cases h
    · cases h
      rfl

theorem expiredIds_map_row (ms : List Message) :
    expiredIds (ms.map fun m => Write.appendState (plainRow m.msgId .expired now))
      = ms.map (·.msgId) := by
  induction ms with
  | nil => rfl
  | cons m ms ih =>
    rw [List.map_cons, expiredIds, List.filterMap_cons]
    exact congrArg (m.msgId :: ·) ih

/-- **The sweep expires a message for each of its stale rows**, and counts the rows. -/
theorem expireStale_spec (hd : f.dir = true) :
    expiredIds (expireStale sid cfg now f).2 = (staleRows cfg now f).map (·.msgId) ∧
      ∀ n, (expireStale sid cfg now f).1 = .count n → n = (staleRows cfg now f).length := by
  rw [expireStale, hd]
  simp only [Bool.not_true, Bool.false_eq_true, if_false]
  split
  · next hempty =>
    have hnil : staleRows cfg now f = [] := List.filter_eq_nil_iff.mpr (by simpa using hempty)
    rw [hnil]
    exact ⟨rfl, fun n hn => (Answer.count.inj hn).symm⟩
  · rw [thenCompact]
    split
    · exact ⟨expiredIds_map_row _, fun n hn => by cases hn⟩
    · next ws' hws' =>
      refine ⟨?_, fun n hn => ?_⟩
      · rw [expiredIds_append, expiredIds_compact hws', List.append_nil]
        exact expiredIds_map_row _
      · rw [← Answer.count.inj hn, List.length_map, staleRows]

theorem expireStale_absent : expireStale sid cfg now .absent = (.count 0, []) := rfl

/-- The files of a run, whatever crashes it had. -/
theorem rooted_run (sid : Text) (cfg : Config) (steps : List Step) :
    (run sid cfg .absent steps).Rooted := by
  have hrun : ∀ (f : Files), f.Rooted → (run sid cfg f steps).Rooted := by
    induction steps with
    | nil => exact fun f hf => hf
    | cons s steps ih => exact fun f hf => ih _ (s.rooted hf)
  exact hrun .absent fun _ => rfl

theorem expireStale_of_rooted (sid : Text) (cfg : Config) (now : Int) (hr : f.Rooted) :
    expiredIds (expireStale sid cfg now f).2 = (staleRows cfg now f).map (·.msgId) ∧
      ∀ n, (expireStale sid cfg now f).1 = .count n → n = (staleRows cfg now f).length := by
  by_cases hd : f.dir = true
  · exact expireStale_spec hd
  · rw [hr.absent_of_not hd, expireStale_absent]
    exact ⟨rfl, fun n hn => (Answer.count.inj hn).symm⟩

theorem mem_expiredIds (hr : f.Rooted) :
    id ∈ expiredIds (expireStale sid cfg now f).2 ↔
      Expirable f id ∧ ∃ m ∈ f.messages, m.msgId = id ∧ m.PastDeadline cfg now := by
  rw [(expireStale_of_rooted sid cfg now hr).1, List.mem_map]
  constructor
  · rintro ⟨m, hm, rfl⟩
    obtain ⟨hmem, hex, hp⟩ := mem_staleRows.mp hm
    exact ⟨hex, m, hmem, rfl, hp⟩
  · rintro ⟨hex, m, hmem, rfl, hp⟩
    exact ⟨m, mem_staleRows.mpr ⟨hmem, hex, hp⟩, rfl⟩

end Telepty.Mailbox
