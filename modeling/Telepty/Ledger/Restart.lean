import Telepty.Ledger.Fixed
import Telepty.Ledger.Replay
import Telepty.Ledger.Runs

/-!
# Interaction actions over a restart

The loader of the older JSON file settles every action that it finds prepared or dispatched. The
recovery of the ledger does not: the actions it comes to are those that the disk records last, the
lines of the checkpoint first and then the frames of the committed log. So an open leaves no action
in flight exactly when the disk recorded none.
-/

namespace Telepty.Ledger

open Infra Prog

/-! ## What a disk records -/

/-- An action that has no outcome yet. -/
def inFlight (action : Json) : Bool :=
  action.textField "stage" ∈ (["prepared", "dispatched"] : List Text)

/-- The action on a line of the hot file. -/
def lineAction (text : Text) : Option (Text × Json) :=
  match Json.parse text with
  | none => none
  | some obj =>
    if obj.textField "t" = "action" then
      (obj.field "action").map fun a => (a.textField "action_id", a)
    else none

/-- The action of a frame. -/
def frameAction (f : Frame) : Option (Text × Json) :=
  match f.body with
  | .iact action _ => some (action.textField "action_id", action)
  | _ => none

/-- A frame with a position or a transaction of the frames before: a copy. -/
def Repeats (seen : List Frame) (f : Frame) : Prop :=
  (∃ g ∈ seen, posKey g.pos = posKey f.pos) ∨
    f.txn ≠ [] ∧ ∃ g ∈ seen, g.txn = f.txn ∨ posKey g.pos = f.txn

instance (seen : List Frame) (f : Frame) : Decidable (Repeats seen f) :=
  inferInstanceAs (Decidable (_ ∨ _))

/-- The frames of a walk without the copies. -/
def keepNew (seen : List Frame) (f : Frame) : List Frame :=
  if Repeats seen f then seen else seen ++ [f]

def withoutCopies (frames : List Frame) : List Frame := frames.foldl keepNew []

/-- The actions that the hot file of a manifest records. -/
def hotActions (fs : FS) (manifest : Manifest) : List (Text × Json) :=
  let file := hotFile ((truthy manifest.hotN).getD 1)
  if (fs.lstat file).isSome then
    match readLines fs file with
    | .ok lines => lines.filterMap lineAction
    | .error _ => []
  else []

/-- The actions that some frames record after a checkpoint. -/
def actionsAfter (p : Pos) (frames : List Frame) : List (Text × Json) :=
  (frames.filter (isAfter p)).filterMap frameAction

/-- **The actions that a disk records**, each as it was recorded last. -/
def recordedActions (D : Digests) (fs : FS) (manifest : Manifest) : OrdMap Text Json :=
  (OrdMap.empty.setAll (hotActions fs manifest)).setAll
    (actionsAfter manifest.checkpoint (withoutCopies (committedFrames D fs)))

/-! ## What a replay applies -/

/-- The memory of a replay that has gone over frames and kept those in `kept`. -/
structure Replaying (p : Pos) (loaded : OrdMap Text Json) (kept : List Frame) (s : State) : Prop where
  actions : s.actions = loaded.setAll (actionsAfter p kept)
  checkpoint : s.checkpointPos = p
  applied : ∀ k, k ∈ s.appliedPos ↔ ∃ g ∈ kept, posKey g.pos = k
  hashes : ∀ k, s.txnHash.has k = true ↔
    (k ≠ [] ∧ ∃ g ∈ kept, g.txn = k) ∨ ∃ g ∈ kept, posKey g.pos = k

section

variable {o : Options} {p : Pos} {loaded : OrdMap Text Json} {kept : List Frame} {s t : State}
  {f : Frame} {hash : Text}

/-- Only the fields that are not looked at changed. -/
theorem Replaying.congr (h : Replaying p loaded kept s) (ha : t.actions = s.actions)
    (hc : t.checkpointPos = s.checkpointPos) (hp : t.appliedPos = s.appliedPos)
    (ht : t.txnHash = s.txnHash) : Replaying p loaded kept t where
  actions := ha.trans h.actions
  checkpoint := hc.trans h.checkpoint
  applied := by rw [hp]; exact h.applied
  hashes := by rw [ht]; exact h.hashes

theorem actionsAfter_concat (p : Pos) (kept : List Frame) (f : Frame) :
    actionsAfter p (kept ++ [f])
      = actionsAfter p kept ++ if isAfter p f then (frameAction f).toList else [] := by
  rw [actionsAfter, List.filter_append, List.filterMap_append]
  congr 1
  by_cases h : isAfter p f = true
  · rw [if_pos h, List.filter_cons_of_pos h]
    cases hf : frameAction f <;> simp [hf]
  · rw [if_neg h, List.filter_cons_of_neg h]
    rfl

variable (hash) in
/-- **A frame that is noted**, with its action applied when it is behind the checkpoint. -/
theorem Replaying.note (h : Replaying p loaded kept s) (hc : t.checkpointPos = s.checkpointPos)
    (hp : t.appliedPos = s.appliedPos) (ht : t.txnHash = s.txnHash)
    (ha : t.actions = s.actions.setAll (if isAfter p f then (frameAction f).toList else [])) :
    Replaying p loaded (kept ++ [f]) (noteApplied f hash t) where
  actions := by
    rw [actionsAfter_concat]
    show t.actions = _
    rw [ha, h.actions]
    simp only [OrdMap.setAll, List.foldl_append]
  checkpoint := hc.trans h.checkpoint
  applied k := by
    show k ∈ t.appliedPos ++ [posKey f.pos] ↔ _
    rw [List.mem_append, hp, h.applied, List.mem_singleton]
    constructor
    · rintro (⟨g, hg, hk⟩ | rfl)
      · exact ⟨g, List.mem_append_left _ hg, hk⟩
      · exact ⟨f, List.mem_append_right _ (List.mem_singleton_self f), rfl⟩
    · rintro ⟨g, hg, hk⟩
      rcases List.mem_append.mp hg with hg | hg
      · exact .inl ⟨g, hg, hk⟩
      · rw [List.mem_singleton.mp hg] at hk
        exact .inr hk.symm
  hashes k := by
    have hset : ∀ (m : OrdMap Text Text) (j v : Text), (m.set j v).has k = true ↔
        k = j ∨ m.has k = true := by
      intro m j v
      rw [OrdMap.has, OrdMap.get?_set]
      split
      · next hk => simp [hk]
      · next hk => simp [hk, OrdMap.has]
    have htxn : (if f.txn = [] then t.txnHash else t.txnHash.set f.txn hash).has k = true ↔
        (k ≠ [] ∧ f.txn = k) ∨ s.txnHash.has k = true := by
      rw [ht]
      split
      · next hnil =>
        constructor
        · exact .inr
        · rintro (⟨hk, he⟩ | hk)
          · exact absurd (he.symm.trans hnil) hk
          · exact hk
      · next hne =>
        rw [hset]
        constructor
        · rintro (rfl | hk)
          · exact .inl ⟨hne, rfl⟩
          · exact .inr hk
        · rintro (⟨-, rfl⟩ | hk)
          · exact .inl rfl
          · exact .inr hk
    show ((if f.txn = [] then t.txnHash else t.txnHash.set f.txn hash).set (posKey f.pos) hash).has k
      = true ↔ _
    rw [hset, htxn, h.hashes]
    simp only [List.mem_append, List.mem_singleton, or_and_right, exists_or, exists_eq_left]
    constructor
    · rintro (rfl | h' | h' | h')
      · exact .inr (.inr rfl)
      · exact .inl ⟨h'.1, .inr h'.2⟩
      · exact .inl ⟨h'.1, .inl h'.2⟩
      · exact .inr (.inl h')
    · rintro (⟨hk, h' | h'⟩ | h' | h')
      · exact .inr (.inr (.inl ⟨hk, h'⟩))
      · exact .inr (.inl ⟨hk, h'⟩)
      · exact .inr (.inr (.inr h'))
      · exact .inl h'.symm

/-- What a frame does to the actions. -/
theorem actions_applyFrame {e : List Effect} (h : applyFrame replayCtx f s = .ok (t, e)) :
    t.actions = s.actions.setAll (frameAction f).toList := by
  have hkeeps : CtxKeeps replayCtx fun s t : State => t.actions = s.actions :=
    ⟨fun _ => rfl, fun _ _ _ h h' => h'.trans h, fun _ _ _ => rfl, fun _ _ => rfl⟩
  cases hbody : f.body with
  | iact action pending =>
    unfold applyFrame at h
    simp only [hbody] at h
    cases h
    rw [frameAction, hbody]
    rfl
  | _ =>
    rw [frameAction, hbody]
    exact hkeeps.applyFrame (fun a p ha => by rw [hbody] at ha; cases ha) h

/-- **One frame of the replay.** -/
theorem Replaying.replayFrame (manifest : Manifest) {fr : DecodedFrame}
    (h : Replaying p loaded kept s) (hr : replayFrame manifest fr s = .ok t) :
    Replaying p loaded (keepNew kept (Frame.ofJson fr.obj)) t := by
  unfold Ledger.replayFrame at hr
  dsimp only at hr
  have hrep : (posKey (Frame.ofJson fr.obj).pos ∈ s.appliedPos ∨ ((Frame.ofJson fr.obj).txn ≠ [] ∧
      s.txnHash.has (Frame.ofJson fr.obj).txn = true)) ↔ Repeats kept (Frame.ofJson fr.obj) := by
    rw [h.applied, h.hashes, Repeats]
    constructor
    · rintro (h' | ⟨hne, ⟨-, g, hg, he⟩ | ⟨g, hg, he⟩⟩)
      · exact .inl h'
      · exact .inr ⟨hne, g, hg, .inl he⟩
      · exact .inr ⟨hne, g, hg, .inr he⟩
    · rintro (h' | ⟨hne, g, hg, he | he⟩)
      · exact .inl h'
      · exact .inr ⟨hne, .inl ⟨hne, g, hg, he⟩⟩
      · exact .inr ⟨hne, .inr ⟨g, hg, he⟩⟩
  split at hr
  · next hcopy =>
    rw [keepNew, if_pos (hrep.mp hcopy)]
    split at hr
    · split at hr
      · cases hr
      · cases hr
        exact h
    · cases hr
      exact h
  next hnew =>
  rw [keepNew, if_neg fun hc => hnew (hrep.mpr hc)]
  split at hr
  · next hle =>
    cases hr
    have hafter : isAfter p (Frame.ofJson fr.obj) = false := by
      rw [h.checkpoint] at hle
      simpa [isAfter] using hle
    refine h.note _ rfl rfl rfl ?_
    rw [hafter]
    rfl
  next hgt =>
  split at hr
  · cases hr
  next u e happ =>
  cases hr
  obtain ⟨hsame, -, hap, hth⟩ := sameCheckpoint_applyFrame happ
  have hafter : isAfter p (Frame.ofJson fr.obj) = true := by
    rw [h.checkpoint] at hgt
    simpa [isAfter] using hgt
  refine (h.note fr.hash hsame.checkpointPos hap hth ?_).congr rfl rfl rfl rfl
  rw [hafter]
  exact actions_applyFrame happ

/-- The frames of one segment. -/
theorem Replaying.walks (manifest : Manifest) {frs : List DecodedFrame}
    (h : Replaying p loaded kept s) (hw : Walks (Ledger.replayFrame manifest) frs s t) :
    Replaying p loaded ((frs.map fun fr => Frame.ofJson fr.obj).foldl keepNew kept) t := by
  induction frs generalizing s kept with
  | nil =>
    cases hw
    exact h
  | cons fr frs ih =>
    obtain ⟨u, hu, hw⟩ := hw
    exact ih (h.replayFrame manifest hu) hw

/-! ## The replay -/

variable {m : Machine State Post} {manifest : Manifest}

/-- A walk over lines ends where its steps lead. -/
theorem wp_stepAll {α : Type} {step : α → State → Except Failure State} {l : List α}
    {Q : Ensures State Post Unit}
    (hd : ∀ t, Walks step l m.mem t → Q.done () { m with mem := t }) (hr : ∀ e m', Q.raised e m') :
    wp (stepAll step l) Q m := by
  induction l generalizing m with
  | nil => exact hd m.mem rfl
  | cons x l ih =>
    rw [stepAll, wp_bind, wp_get]
    dsimp only
    cases hs : step x m.mem with
    | error e => exact hr e m
    | ok s =>
      dsimp only
      rw [wp_bind, wp_modify]
      exact ih (m := { m with mem := s }) fun t ht => hd t ⟨s, hs, ht⟩

/-- The frames of a disk in some of its segments. -/
def framesIn (D : Digests) (fs : FS) (files : List SegmentRef) : List Frame :=
  files.flatMap fun f =>
    match fs.readFile (segmentFile f.name) with
    | .ok buf => segmentFrames D buf
    | .error _ => []

/-- **A segment that is replayed.** -/
theorem wp_replaySegment {f : SegmentRef} {Q : Ensures State Post (Option Bytes)}
    (h : Replaying p loaded kept m.mem)
    (hd : ∀ last t, Replaying p loaded ((framesIn o.digests m.disk [f]).foldl keepNew kept) t →
      Q.done last { m with mem := t }) (hr : ∀ e m', Q.raised e m') :
    wp (replaySegment o manifest f) Q m := by
  unfold replaySegment
  simp only [wp_bind, wp_disk, wp_ofExcept]
  cases hread : m.disk.readFile (segmentFile f.name) with
  | error e => exact hr _ m
  | ok buf =>
    simp only [ioResult]
    split
    · exact hr _ m
    · rw [wp_bind]
      refine wp_stepAll (fun t ht => ?_) fun e m' => hr e m'
      simp only [wp_bind, wp_modify, wp_pure]
      have hw := h.walks manifest ht
      refine hd _ _ ?_
      obtain ⟨x, hx⟩ := noteUnapplied_eq f.name (groupFrames (decodeFrames o.digests buf).frames)
        (decodeFrames o.digests buf).tail
        { t with segments := t.segments ++ [⟨f.name, f.epoch, f.n, true, buf.length⟩] }
      rw [hx, framesIn, List.flatMap_singleton, hread]
      exact hw.congr rfl rfl rfl rfl

/-- **The segments that are replayed.** -/
theorem wp_replaySegments {files : List SegmentRef} {last : Option Bytes}
    {Q : Ensures State Post (Option Bytes)} (h : Replaying p loaded kept m.mem)
    (hd : ∀ last t, Replaying p loaded ((framesIn o.digests m.disk files).foldl keepNew kept) t →
      Q.done last { m with mem := t }) (hr : ∀ e m', Q.raised e m') :
    wp (replaySegments o manifest files last) Q m := by
  induction files generalizing m kept last with
  | nil => exact hd last m.mem h
  | cons f files ih =>
    rw [replaySegments, wp_bind]
    refine wp_replaySegment h (fun bytes t ht => ?_) hr
    refine ih (m := { m with mem := t }) ht fun last' u hu => hd last' u ?_
    have happ : framesIn o.digests m.disk (f :: files)
        = framesIn o.digests m.disk [f] ++ framesIn o.digests m.disk files := by
      simp [framesIn]
    rw [happ, List.foldl_append]
    exact hu

/-! ## The checkpoint -/

/-- What the memory has loaded before the replay. -/
structure Loaded (p : Pos) (actions : OrdMap Text Json) (s : State) : Prop where
  actions : s.actions = actions
  checkpoint : s.checkpointPos = p
  applied : s.appliedPos = []
  hashes : s.txnHash = .empty

theorem Loaded.replaying {actions : OrdMap Text Json} (h : Loaded p actions s) :
    Replaying p actions [] s where
  actions := h.actions
  checkpoint := h.checkpoint
  applied k := by simp [h.applied]
  hashes k := by
    rw [h.hashes]
    simp [OrdMap.has]

theorem loaded_hotLine {actions : OrdMap Text Json} {text : Text} (h : Loaded p actions s)
    (hl : hotLine text s = .ok t) : Loaded p (actions.setAll (lineAction text).toList) t := by
  unfold hotLine at hl
  unfold lineAction
  cases hp : Json.parse text with
  | none => rw [hp] at hl; cases hl
  | some obj =>
    simp only [hp] at hl ⊢
    split at hl
    · next hrec =>
      rw [if_neg (by rw [hrec]; decide)]
      split at hl
      · cases hl
      · cases hl
        exact ⟨h.actions, h.checkpoint, h.applied, h.hashes⟩
    split at hl
    · next hact =>
      rw [if_pos hact]
      split at hl
      · cases hl
      · next action ha =>
        cases hl
        rw [ha]
        refine ⟨?_, h.checkpoint, h.applied, h.hashes⟩
        show s.actions.set _ _ = _
        rw [h.actions]
        rfl
    · next hact =>
      rw [if_neg hact]
      split at hl
      · split at hl
        · cases hl
        · cases hl
          exact ⟨h.actions, h.checkpoint, h.applied, h.hashes⟩
      · cases hl
        exact ⟨h.actions, h.checkpoint, h.applied, h.hashes⟩

theorem loaded_hotLines {actions : OrdMap Text Json} {lines : List Text} (h : Loaded p actions s)
    (hw : Walks hotLine lines s t) : Loaded p (actions.setAll (lines.filterMap lineAction)) t := by
  induction lines generalizing s actions with
  | nil =>
    cases hw
    exact h
  | cons text lines ih =>
    obtain ⟨u, hu, hw⟩ := hw
    have hrest := ih (loaded_hotLine h hu) hw
    have hsplit : (text :: lines).filterMap lineAction
        = (lineAction text).toList ++ lines.filterMap lineAction := by
      cases hl : lineAction text <;> simp [hl]
    rw [hsplit]
    simp only [OrdMap.setAll, List.foldl_append] at hrest ⊢
    exact hrest

/-- What the step on each line keeps, the walk keeps. -/
theorem walks_keep {α : Type} {step : α → State → Except Failure State} {P : State → Prop}
    (hstep : ∀ x s t, P s → step x s = .ok t → P t) {l : List α} (h : P s) (hw : Walks step l s t) :
    P t := by
  induction l generalizing s with
  | nil =>
    cases hw
    exact h
  | cons x l ih =>
    obtain ⟨u, hu, hw⟩ := hw
    exact ih (hstep x s u h hu) hw

variable {actions : OrdMap Text Json}

theorem wp_loadHot {n : Nat} {Q : Ensures State Post Unit} (h : Loaded p .empty m.mem)
    (hn : (truthy manifest.hotN).getD 1 = n)
    (hd : ∀ t, Loaded p (OrdMap.empty.setAll (hotActions m.disk manifest)) t →
      Q.done () { m with mem := t }) (hr : ∀ e m', Q.raised e m') : wp (loadHot n) Q m := by
  unfold loadHot
  simp only [wp_bind, wp_disk]
  rw [hotActions, hn] at hd
  split
  · next hex =>
    rw [if_pos hex] at hd
    simp only [wp_bind, wp_ofExcept]
    cases hlines : readLines m.disk (hotFile n) with
    | error e => exact hr e m
    | ok lines =>
      rw [hlines] at hd
      exact wp_stepAll (fun t ht => hd t (loaded_hotLines h ht)) hr
  · next hex =>
    rw [if_neg hex] at hd
    exact hd m.mem h

theorem wp_loadReceipts {n : Nat} {Q : Ensures State Post Unit} (h : Loaded p actions m.mem)
    (hd : ∀ t, Loaded p actions t → Q.done () { m with mem := t }) (hr : ∀ e m', Q.raised e m') :
    wp (loadReceipts n) Q m := by
  unfold loadReceipts
  simp only [wp_bind, wp_disk]
  split
  · simp only [wp_bind, wp_ofExcept]
    split
    · refine wp_stepAll (fun t ht => ?_) hr
      have hkeep := walks_keep (P := Loaded p actions) (fun text s t hs hl => by
        unfold receiptLine at hl
        split at hl
        · cases hl
        · cases hl
          exact ⟨hs.actions, hs.checkpoint, hs.applied, hs.hashes⟩) h ht
      exact hd _ ⟨hkeep.actions, hkeep.checkpoint, hkeep.applied, hkeep.hashes⟩
    · exact hr _ m
  · exact hd m.mem h

theorem wp_loadFacts {n : Nat} {Q : Ensures State Post Unit} (h : Loaded p actions m.mem)
    (hd : ∀ t, Loaded p actions t → Q.done () { m with mem := t }) (hr : ∀ e m', Q.raised e m') :
    wp (loadFacts n) Q m := by
  unfold loadFacts
  simp only [wp_bind, wp_disk]
  split
  · simp only [wp_bind, wp_ofExcept]
    split
    · refine wp_stepAll (fun t ht => ?_) hr
      exact hd t (walks_keep (P := Loaded p actions) (fun text s t hs hl => by
        unfold factLine at hl
        split at hl
        · cases hl
        · cases hl
          exact ⟨hs.actions, hs.checkpoint, hs.applied, hs.hashes⟩) h ht)
    · exact hr _ m
  · exact hd m.mem h

/-- **The checkpoint that is loaded.** -/
theorem wp_loadCheckpoint {Q : Ensures State Post Unit} (h : Loaded p .empty m.mem)
    (hd : ∀ t, Loaded p (OrdMap.empty.setAll (hotActions m.disk manifest)) t →
      Q.done () { m with mem := t }) (hr : ∀ e m', Q.raised e m') :
    wp (loadCheckpoint o manifest) Q m := by
  have hreceipts : ∀ (n : Option Nat) {R : Ensures State Post Unit} {m₁ : Machine State Post}
      {actions : OrdMap Text Json}, Loaded p actions m₁.mem →
      (∀ t, Loaded p actions t → R.done () { m₁ with mem := t }) → (∀ e m', R.raised e m') →
      wp (n.elim (pure ()) loadReceipts) R m₁ := by
    intro n R m₁ actions h₁ hd₁ hr₁
    cases n with
    | none => exact hd₁ _ h₁
    | some n => exact wp_loadReceipts h₁ hd₁ hr₁
  unfold loadCheckpoint
  rw [wp_bind]
  refine wp_loadHot h rfl (fun t₁ h₁ => ?_) fun e m' => hr e m'
  dsimp only
  rw [wp_bind]
  refine hreceipts _ h₁ (fun t₂ h₂ => ?_) fun e m' => hr e m'
  dsimp only
  rw [wp_bind]
  refine hreceipts _ h₂ (fun t₃ h₃ => ?_) fun e m' => hr e m'
  dsimp only
  rw [wp_bind, wp_modify]
  dsimp only
  rw [wp_bind]
  refine wp_loadFacts (show Loaded p (OrdMap.empty.setAll (hotActions m.disk manifest)) _ from
    ⟨h₃.actions, h₃.checkpoint, h₃.applied, h₃.hashes⟩) (fun t₄ h₄ => ?_) fun e m' => hr e m'
  simp only [wp_bind, wp_modify, wp_disk, wp_ofExcept]
  split
  · exact hd _ ⟨h₄.actions, h₄.checkpoint, h₄.applied, h₄.hashes⟩
  · exact hr _ _

/-! ## The open -/

/-- **A recovery comes to the actions that the disk records.** -/
theorem wp_recover (h : Loaded s.checkpointPos .empty m.mem) :
    wp (recover o manifest)
      ⟨fun _ m' => m'.mem.actions = recordedActions o.digests m.disk manifest,
        fun _ _ => True, fun _ => True⟩ m := by
  unfold recover
  rw [wp_bind, wp_modify]
  dsimp only
  rw [wp_bind]
  refine wp_loadCheckpoint (p := manifest.checkpoint) ⟨h.actions, rfl, h.applied, h.hashes⟩
    (fun t₁ h₁ => ?_) fun _ _ => trivial
  dsimp only
  rw [wp_bind, wp_disk]
  dsimp only
  rw [wp_bind, wp_ofExcept]
  split
  · next alloc _ =>
    dsimp only
    rw [wp_bind, wp_modify]
    dsimp only
    rw [wp_bind]
    have h₂ : Replaying manifest.checkpoint (OrdMap.empty.setAll (hotActions m.disk manifest)) []
        { t₁ with allocHot := alloc.1, allocCold := alloc.2 } :=
      Loaded.replaying ⟨h₁.actions, h₁.checkpoint, h₁.applied, h₁.hashes⟩
    refine wp_replaySegments h₂ (fun last t₃ h₃ => ?_) fun _ _ => trivial
    have hrecorded : t₃.actions = recordedActions o.digests m.disk manifest := h₃.actions
    -- what follows leaves the actions alone
    have hR := respects_fixes o FileOp.Tame State.actions
    have hS := respects_fixes o Respects.OnSegments State.actions
    have hfix : Fixes State.actions (do
        let _ ← sys o.env (.mkdirp segmentsDir)
        openSegment o (manifest.epoch + 1) 1
        copyLast o (segmentName (manifest.epoch + 1) 1) last
        writeManifest o false none) :=
      .bind (.sys _) fun _ => .bind (hS.openSegment (fun _ _ _ => rfl) _ _) fun _ =>
        .bind (hS.copyLast (fun _ _ _ => rfl) _ _) fun _ => hR.writeManifest (fun _ _ => rfl) _ _
    dsimp only
    rw [wp_bind, wp_modify]
    exact wp_mono (hfix _) (fun _ _ h => h.trans hrecorded) (fun _ _ _ => trivial) fun _ _ => trivial
  · trivial

/-- **An open of a published store** that ends with a store that is available has the actions that
the disk records. -/
theorem wp_openStore (liveSids : List Text) (h : Loaded s.checkpointPos .empty m.mem)
    (hp : classifyPath o m.disk = .ok (.published manifest)) :
    wp (openStore o liveSids)
      ⟨fun _ m' => m'.mem.state = .available →
          m'.mem.actions = recordedActions o.digests m.disk manifest,
        fun _ _ => False, fun _ => True⟩ m := by
  unfold openStore postState
  simp only [wp_bind, wp_modify, wp_get, wp_post, wp_catching]
  unfold openBody
  simp only [wp_bind, wp_get, wp_disk]
  split
  · unfold postState
    simp only [wp_bind, wp_modify, wp_get, wp_post, wp_pure]
    exact fun hs => by cases hs
  · simp only [wp_bind, wp_ofExcept, hp, openPath, wp_pure]
    refine wp_mono (wp_recover (s := s)
      ⟨h.actions, h.checkpoint, h.applied, h.hashes⟩) ?_ ?_ fun _ _ => trivial
    · intro _ m' hm
      dsimp only
      rw [if_pos trivial]
      simp only [wp_bind, wp_modify, wp_get, wp_post]
      exact fun _ => hm
    · intro e m' _
      refine wp_postOpenError fun m'' hs => ?_
      dsimp only
      rw [if_neg (by decide)]
      exact fun hav => absurd hav hs

/-! ## Restarts -/

/-- No action of a table is without an outcome. -/
def Settled (actions : OrdMap Text Json) : Prop := ∀ k a, actions.get? k = some a → inFlight a = false

/-- **An open leaves no action in flight exactly when the disk recorded none**, whatever happened to
the store before. -/
theorem settled_iff_recorded (o : Options) (sys₀ : Sys) (acts : List Act) (pid : Nat) (token : Text)
    (liveSids : List Text) (manifest : Manifest) (s : State)
    (hdown : (run o sys₀ acts).owner = none)
    (hpublished : classifyPath o (run o sys₀ acts).disk = .ok (.published manifest))
    (hopen : (step o (run o sys₀ acts) (.start pid token liveSids)).owner = some s)
    (havailable : s.state = .available) :
    Settled s.actions ↔
      Settled (recordedActions o.digests (run o sys₀ acts).disk manifest) := by
  generalize run o sys₀ acts = sys at *
  have hwp := wp_openStore liveSids (s := .initial pid token liveSids)
    (m := sys.machine (.initial pid token liveSids)) ⟨rfl, rfl, rfl, rfl⟩ hpublished
  have hstep : step o sys (.start pid token liveSids) = sys.start o pid token liveSids := by
    unfold step
    rw [hdown]
  rw [hstep] at hopen
  have hactions : s.actions = recordedActions o.digests sys.disk manifest := by
    refine Sys.of_wp (P := fun sys' => sys'.owner = some s → s.actions = _) hwp ?_ ?_ ?_ hopen
    · intro m' hm hs
      cases hs
      exact hm havailable
    · exact fun _ _ hf => hf.elim
    · intro m' _ hs
      cases hs
  rw [hactions]

end

/-! ## A store with one action -/

/-- The record that the interaction core saves for an action, at a stage. -/
def actionAt (id stage : Text) (seq : Nat) : Json :=
  .obj [("action_id", .str id), ("sid", .str "s"), ("pending_inject_id", .null),
    ("stage", .str stage), ("reason", .null), ("terminal", .bool (stage ∈ (["refused"] : List Text))),
    ("bytes_written", .num 0), ("receipt_seq", .num seq)]

/-- The stages of an action are committed one after another, and the process dies. -/
def stagesThenCrash (stages : List Text) : List Act :=
  .start 7 "T" [] :: stages.zipIdx.flatMap (fun (stage, n) =>
    [.send (.submit ⟨natText n, "iact", .obj [("action", actionAt "a" stage (n + 1))]⟩),
      .send .flush]) ++ [.crash]

/-- Whether a disk has a published store. -/
def isPublished (o : Options) (fs : FS) : Bool :=
  match classifyPath o fs with
  | .ok (.published _) => true
  | _ => false

/-- The store of one action that was refused, after the crash. -/
def refusedStore : Sys :=
  run (defaultOptions plainEnv) (lockedDisk []) (stagesThenCrash ["refused"])

set_option maxRecDepth 100000 in
theorem settled_after_refusal : ∃ s manifest,
    (step (defaultOptions plainEnv) refusedStore (.start 7 "T" [])).owner = some s ∧
      (Settled s.actions ↔
        Settled (recordedActions nodeCrypto refusedStore.disk manifest)) := by
  have hall : (refusedStore.owner.isNone, isPublished (defaultOptions plainEnv) refusedStore.disk,
      (step (defaultOptions plainEnv) refusedStore (.start 7 "T" [])).owner.map State.state)
      = (true, true, some .available) := by decide +kernel
  simp only [Prod.mk.injEq] at hall
  obtain ⟨hdown, hpub, hstate⟩ := hall
  obtain ⟨s, hs, havailable⟩ := Option.map_eq_some_iff.mp hstate
  unfold isPublished at hpub
  split at hpub
  · next manifest hm =>
    exact ⟨s, manifest, hs, settled_iff_recorded (defaultOptions plainEnv) (lockedDisk [])
      (stagesThenCrash ["refused"]) 7 "T" [] manifest s (Option.isNone_iff_eq_none.mp hdown) hm hs
      havailable⟩
  · cases hpub

set_option maxRecDepth 100000 in
/-- An action that was prepared when the process died is prepared after the next open. -/
theorem prepared_outlives_restart :
    let sys := run (defaultOptions plainEnv) (lockedDisk [])
      (stagesThenCrash ["prepared"] ++ [.start 7 "T" []])
    sys.owner.map State.state = some .available ∧
      (sys.owner.bind fun s => s.actions.get? "a").map inFlight = some true := by
  decide +kernel

end Telepty.Ledger
