import Telepty.Interaction.Dispatch

/-!
# The final writer

`createInteractionWriter` in one bridge. A call of `handle` is synchronous: it validates the frame,
observes the prompt, and writes. What the environment answers within the call is part of the
delivery: the observation, the binding, the bytes `encode` makes of them and whether `write` throws.
A call in which `observe`, `binding` or `encode` throws changes nothing and is no delivery.

The writer keeps a receipt for every action it wrote for, and of the prompt revisions only the one
it consumed last.
-/

namespace Telepty.Interaction

open Infra

/-! ## Frames -/

/-- One frame that is handled. -/
structure Delivery where
  frame : Json
  /-- `observe()` -/
  observation : Json
  /-- `binding()` -/
  binding : Json
  /-- `encode(r, observation)`, `none` when that is not a string -/
  encoded : Option Text
  /-- `write(bytes)` throws -/
  throws : Bool
  /-- `now()` at the beginning of the call -/
  now : Int
  /-- `now()` after the prompt was observed -/
  observedAt : Int

def Delivery.request (d : Delivery) : Json := member d.frame "request"

/-- `{ type: 'interaction', request: r, request_digest: hash }` -/
def frameOf (r : Json) : Json :=
  .obj [("type", .str "interaction"), ("request", r), ("request_digest", .str (digest r))]

/-- The owner generation and the prompt revision that an observation is of. -/
def promptRevision (observation : Json) : Json × Json :=
  (member observation "owner_generation", member observation "prompt_revision")

/-- The digest of the validated provider identity. -/
def revisionOf (observation : Json) : Text :=
  digest (.obj ((fenceFields ++ [("question_id" : Text)]).map fun k => (k, member observation k)))

/-! ## The writer -/

structure WriterReceipt where
  actionId : Text
  requestDigest : Text
  stage : Stage
  reason : Option Text
  /-- `null` while it is not known -/
  bytesWritten : Option Nat
  terminal : Bool

/-- A call of `write`, which may have thrown. -/
structure Write where
  actionId : Text
  observation : Json
  bytes : Text

structure Writer where
  receipts : OrdMap Text WriterReceipt
  consumedRevision : Option Text
  writes : List Write

/-- What `handle` returns. -/
inductive Handled where
  | receipt (r : WriterReceipt)
  | refusal (r : Refusal)

namespace Writer

def initial : Writer := ⟨.empty, none, []⟩

/-- The checks before `encode`, up to the one of the revision: an answer ends the call. -/
def screen (w : Writer) (d : Delivery) : Option Handled :=
  let r := d.request
  let error := validateRequest r d.now
  let refused (reason : Text) : Option Handled := some (.refusal (refusal reason))
  match error.filter fun e => e ≠ ("expired" : Text) with
  | some reason => refused reason
  | none =>
    if !same (some (.str (digest r))) (d.frame.field "request_digest") then
      refused "payload_conflict"
    else
      match w.receipts.get? (r.textField "action_id") with
      | some prior =>
        if prior.requestDigest = digest r then some (.receipt prior)
        else refused "payload_conflict"
      | none =>
        match error with
        | some reason => refused reason
        | none =>
          if 10000 ≤ w.receipts.size then refused "busy"
          else (validateObservation r d.observation d.binding d.observedAt).bind refused

/-- `typeof bytes === 'string' && bytes.length && Buffer.byteLength(bytes) <= 8192` -/
def sendable (encoded : Option Text) : Option Text :=
  encoded.filter fun bytes => bytes ≠ [] && byteLength bytes ≤ 8192

/-- The receipt of a write of these bytes, after it returned or threw. -/
def written (r : Json) (bytes : Text) (throws : Bool) : WriterReceipt :=
  if throws then
    ⟨r.textField "action_id", digest r, .outcomeUnknown, some "outcome_unknown", none, true⟩
  else ⟨r.textField "action_id", digest r, .written, none, some (byteLength bytes), false⟩

/-- `handle(frame)` -/
def handle (w : Writer) (d : Delivery) : Writer × Handled :=
  let r := d.request
  match w.screen d with
  | some answer => (w, answer)
  | none =>
    let revision := revisionOf d.observation
    if w.consumedRevision = some revision then (w, .refusal (refusal "stale_prompt"))
    else
      match sendable d.encoded with
      | none => (w, .refusal (refusal "unsupported_capability"))
      | some bytes =>
        let result := written r bytes d.throws
        ({ receipts := w.receipts.set (r.textField "action_id") result
           consumedRevision := some revision
           writes := w.writes ++ [⟨r.textField "action_id", d.observation, bytes⟩] },
          .receipt result)

def run (w : Writer) (ds : List Delivery) : Writer := ds.foldl (fun w d => (w.handle d).1) w

/-! ## What a frame makes the writer write -/

/-- Nothing but the comparison with the last revision is between the frame and a write. -/
def LetsThrough (w : Writer) (d : Delivery) : Prop :=
  w.screen d = none ∧ (sendable d.encoded).isSome

/-- The frame reaches the call of `write`. -/
def Reaches (w : Writer) (d : Delivery) : Prop :=
  w.LetsThrough d ∧ w.consumedRevision ≠ some (revisionOf d.observation)

/-- The writer wrote for the prompt revision that is observed and has consumed another since. -/
def Returns (w : Writer) (d : Delivery) : Prop :=
  promptRevision d.observation ∈ w.writes.map (fun x => promptRevision x.observation) ∧
    w.consumedRevision ≠ some (revisionOf d.observation)

variable {w : Writer} {d : Delivery}

@[simp] theorem run_nil : w.run [] = w := rfl

theorem run_concat (w : Writer) (ds : List Delivery) (d : Delivery) :
    w.run (ds ++ [d]) = ((w.run ds).handle d).1 := by
  rw [run, List.foldl_append]
  rfl

/-- **A frame is written when it is let through and its prompt was not the last one consumed.** -/
theorem handle_cases (w : Writer) (d : Delivery) :
    ((w.handle d).1 = w ∧ ¬w.Reaches d) ∨
      ∃ bytes result, w.Reaches d ∧ (w.handle d).1 =
        ⟨w.receipts.set (d.request.textField "action_id") result, some (revisionOf d.observation),
          w.writes ++ [⟨d.request.textField "action_id", d.observation, bytes⟩]⟩ := by
  rw [handle]
  cases hs : w.screen d with
  | some answer => exact .inl ⟨rfl, fun h => by simp [Reaches, LetsThrough, hs] at h⟩
  | none =>
    simp only
    split
    · next h => exact .inl ⟨rfl, fun hn => hn.2 h⟩
    · next h =>
      cases hb : sendable d.encoded with
      | none => exact .inl ⟨rfl, fun hn => by simp [Reaches, LetsThrough, hb] at hn⟩
      | some bytes => exact .inr ⟨bytes, _, ⟨⟨hs, by simp [hb]⟩, h⟩, rfl⟩

/-- A valid request for the prompt that is observed passes when its action is new. -/
theorem screen_frameOf {r observation binding : Json} {encoded : Option Text} {throws : Bool}
    {now observedAt : Int} (hr : validateRequest r now = none)
    (hnew : w.receipts.get? (r.textField "action_id") = none) (hsize : w.receipts.size < 10000)
    (hobs : validateObservation r observation binding observedAt = none) :
    w.screen ⟨frameOf r, observation, binding, encoded, throws, now, observedAt⟩ = none := by
  have hrequest : member (frameOf r) "request" = r := rfl
  have hdigest : (frameOf r).field "request_digest" = some (.str (digest r)) := rfl
  simp only [screen, Delivery.request, hrequest, hdigest, hr, hnew, hobs, same, decide_true,
    Bool.not_true, Option.filter_none, Option.bind_none, if_neg (Nat.not_le.mpr hsize),
    Bool.false_eq_true, if_false]

/-- An action that has a receipt is not let through. -/
theorem LetsThrough.new (h : w.LetsThrough d) :
    w.receipts.get? (d.request.textField "action_id") = none := by
  have hs := h.1
  rw [screen] at hs
  by_contra hne
  obtain ⟨prior, hprior⟩ := Option.ne_none_iff_exists'.mp hne
  simp only [hprior] at hs
  split at hs
  · cases hs
  · split at hs
    · cases hs
    · split at hs <;> cases hs

/-! ## Runs -/

/-- Every action that was written for has a receipt, and was written for once. -/
structure Receipted (w : Writer) : Prop where
  receipts : ∀ x ∈ w.writes, (w.receipts.get? x.actionId).isSome
  once : (w.writes.map Write.actionId).Nodup

theorem Receipted.handle (h : w.Receipted) (d : Delivery) : (w.handle d).1.Receipted := by
  rcases handle_cases w d with ⟨hw, -⟩ | ⟨bytes, result, ⟨hlet, -⟩, hw⟩
  · rw [hw]
    exact h
  · rw [hw]
    constructor
    · intro x hx
      rw [OrdMap.get?_set]
      split
      · rfl
      · next hne =>
        rcases List.mem_append.mp hx with hx | hx
        · exact h.receipts x hx
        · rw [List.mem_singleton.mp hx] at hne
          exact absurd rfl hne
    · rw [List.map_append, List.nodup_append]
      refine ⟨h.once, List.nodup_singleton _, fun a ha b hb => ?_⟩
      obtain ⟨x, hx, rfl⟩ := List.mem_map.mp ha
      rw [List.map_singleton, List.mem_singleton] at hb
      rintro rfl
      have hsome := h.receipts x hx
      rw [hb, hlet.new] at hsome
      cases hsome

theorem receipted_run (ds : List Delivery) : (initial.run ds).Receipted := by
  induction ds using List.reverseRecOn with
  | nil => exact ⟨fun x hx => absurd hx List.not_mem_nil, List.nodup_nil⟩
  | append_singleton ds d ih =>
    rw [run_concat]
    exact ih.handle d

/-- One frame writes again for a revision exactly when it is let through and its prompt returns. -/
theorem nodup_handle_iff (w : Writer) (d : Delivery) :
    ((w.handle d).1.writes.map fun x => promptRevision x.observation).Nodup ↔
      (w.writes.map fun x => promptRevision x.observation).Nodup ∧
        ¬(w.LetsThrough d ∧ w.Returns d) := by
  rcases handle_cases w d with ⟨hw, hnot⟩ | ⟨bytes, result, hlet, hw⟩
  · rw [hw, iff_self_and]
    exact fun _ h => hnot ⟨h.1, h.2.2⟩
  · rw [hw, List.map_append, List.nodup_append]
    constructor
    · rintro ⟨hn, -, hne⟩
      refine ⟨hn, fun h => ?_⟩
      exact hne _ h.2.1 _ (by simp) rfl
    · rintro ⟨hn, hnot⟩
      refine ⟨hn, List.nodup_singleton _, fun a ha b hb => ?_⟩
      rw [List.map_singleton, List.mem_singleton] at hb
      rintro rfl
      rw [hb] at ha
      exact hnot ⟨hlet.1, ha, hlet.2⟩

/-- **However frames and prompts come, an action is written for once. A prompt revision of an owner
generation is written for once exactly when no frame is let through for one that was written for
before another was consumed.** -/
theorem run_writes_once (ds : List Delivery) :
    ((initial.run ds).writes.map Write.actionId).Nodup ∧
    (((initial.run ds).writes.map fun x => promptRevision x.observation).Nodup ↔
      ∀ before d, before ++ [d] <+: ds →
        ¬((initial.run before).LetsThrough d ∧ (initial.run before).Returns d)) := by
  refine ⟨(receipted_run ds).once, ?_⟩
  induction ds using List.reverseRecOn with
  | nil => simp [initial]
  | append_singleton ds d ih =>
    rw [run_concat, nodup_handle_iff, ih]
    constructor
    · rintro ⟨hall, hlast⟩ before e he
      rcases List.prefix_concat_iff.mp he with he | he
      · obtain ⟨hbefore, hd⟩ := List.append_inj' he rfl
        cases hd
        rw [hbefore]
        exact hlast
      · exact hall before e he
    · intro hall
      exact ⟨fun before e he => hall before e (he.trans (List.prefix_append _ _)),
        hall ds d List.prefix_rfl⟩

/-- A request to answer the prompt of one revision, and that prompt. -/
def askedAt (actionId : Text) (revision : Int) : Json :=
  let asked := plainRequest actionId "s"
  asked.set "expected" ((member asked "expected").set "prompt_revision" (.num revision))

def promptAt (revision : Int) : Json :=
  (plainReply "s").observation.set "prompt_revision" (.num revision)

def shownAt (actionId : Text) (revision : Int) : Delivery :=
  ⟨frameOf (askedAt actionId revision), promptAt revision, plainBinding "s", some ['\r'], false, 0,
    0⟩

/-- A writer that has receipts of other actions and has not consumed the prompt last answers it. -/
theorem handle_shownAt (actionId : Text) (revision : Int)
    (hr : validateRequest (askedAt actionId revision) 0 = none)
    (hobs : validateObservation (askedAt actionId revision) (promptAt revision)
      (plainBinding "s") 0 = none)
    (hnew : w.receipts.get? actionId = none) (hsize : w.receipts.size < 10000)
    (hid : (askedAt actionId revision).textField "action_id" = actionId)
    (hconsumed : w.consumedRevision ≠ some (revisionOf (promptAt revision))) :
    w.LetsThrough (shownAt actionId revision) ∧
      ∃ bytes result, (w.handle (shownAt actionId revision)).1 =
        ⟨w.receipts.set actionId result, some (revisionOf (promptAt revision)),
          w.writes ++ [⟨actionId, promptAt revision, bytes⟩]⟩ := by
  have hlet : w.LetsThrough (shownAt actionId revision) :=
    ⟨screen_frameOf hr (by rw [hid]; exact hnew) hsize hobs, rfl⟩
  refine ⟨hlet, ?_⟩
  rcases handle_cases w (shownAt actionId revision) with ⟨-, hnot⟩ | ⟨bytes, result, -, hw⟩
  · exact absurd ⟨hlet, hconsumed⟩ hnot
  · exact ⟨bytes, result, by rw [hw, ← hid]; rfl⟩

theorem promptAt_differ : revisionOf (promptAt 0) ≠ revisionOf (promptAt 1) := by decide +kernel

/-- The writer after the first prompt was answered. -/
def answeredOnce (bytes : Text) (result : WriterReceipt) : Writer :=
  ⟨OrdMap.empty.set "a" result, some (revisionOf (promptAt 0)), [⟨"a", promptAt 0, bytes⟩]⟩

/-- The writer after the second prompt was answered, which it consumed last. -/
def answeredBoth (bytes bytes' : Text) (result result' : WriterReceipt) : Writer :=
  ⟨(answeredOnce bytes result).receipts.set "b" result', some (revisionOf (promptAt 1)),
    [⟨"a", promptAt 0, bytes⟩, ⟨"b", promptAt 1, bytes'⟩]⟩

theorem run_answeredBoth :
    ∃ bytes bytes' result result', initial.run [shownAt "a" 0, shownAt "b" 1] =
      answeredBoth bytes bytes' result result' := by
  have hone (bytes : Text) (result : WriterReceipt) :
      (answeredOnce bytes result).receipts.size < 10000 :=
    (by decide : 1 < 10000)
  obtain ⟨-, bytes, result, ha⟩ := handle_shownAt (w := initial) "a" 0
    (by decide +kernel) (by decide +kernel) rfl (by decide) rfl (by simp [initial])
  obtain ⟨-, bytes', result', hb⟩ := handle_shownAt (w := answeredOnce bytes result) "b" 1
    (by decide +kernel) (by decide +kernel) rfl (hone bytes result) rfl
    fun h => promptAt_differ (Option.some.inj h)
  refine ⟨bytes, bytes', result, result', ?_⟩
  rw [run, List.foldl_cons, ha, List.foldl_cons, List.foldl_nil]
  exact hb

/-- A prompt that comes back after another one was answered is answered again. -/
theorem prompt_written_again :
    ¬((initial.run [shownAt "a" 0, shownAt "b" 1, shownAt "c" 0]).writes.map fun x =>
      promptRevision x.observation).Nodup := by
  obtain ⟨bytes, bytes', result, result', hrun⟩ := run_answeredBoth
  have htwo : (answeredBoth bytes bytes' result result').receipts.size < 10000 :=
    (by decide : 2 < 10000)
  have hconsumed : (initial.run [shownAt "a" 0, shownAt "b" 1]).consumedRevision ≠
      some (revisionOf (promptAt 0)) := by
    rw [hrun]
    exact fun h => promptAt_differ (Option.some.inj h).symm
  obtain ⟨hlet, -⟩ := handle_shownAt (w := initial.run [shownAt "a" 0, shownAt "b" 1]) "c" 0
    (by decide +kernel) (by decide +kernel) (by rw [hrun]; rfl) (by rw [hrun]; exact htwo) rfl
    hconsumed
  have hreturns : (initial.run [shownAt "a" 0, shownAt "b" 1]).Returns (shownAt "c" 0) := by
    refine ⟨?_, hconsumed⟩
    rw [hrun]
    exact List.mem_cons_self
  have hlast : initial.run [shownAt "a" 0, shownAt "b" 1, shownAt "c" 0] =
      ((initial.run [shownAt "a" 0, shownAt "b" 1]).handle (shownAt "c" 0)).1 :=
    run_concat initial [shownAt "a" 0, shownAt "b" 1] (shownAt "c" 0)
  rw [hlast, nodup_handle_iff]
  exact fun h => h.2 ⟨hlet, hreturns⟩

end Writer

end Telepty.Interaction
