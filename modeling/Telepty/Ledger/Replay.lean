import Telepty.Ledger.Log

/-!
# Replay applies the log

`replaySegments` walks over every committed frame on the disk, copies included. What it does to the
memory is to apply the frames of the log after the checkpoint, each once: a copy is recognised by
its position and its transaction, whose hashes are remembered, and a frame up to the checkpoint is
remembered without being applied.
-/

namespace Telepty.Ledger

open Infra Prog

/-! ## Walks -/

/-- The steps on the elements of a list succeed one after another. -/
def Walks {α : Type} (step : α → State → Except Failure State) : List α → State → State → Prop
  | [], s, t => s = t
  | x :: xs, s, t => ∃ u, step x s = .ok u ∧ Walks step xs u t

theorem walks_append {α : Type} {step : α → State → Except Failure State} {xs ys : List α}
    {s t u : State} (h : Walks step xs s t) (h' : Walks step ys t u) : Walks step (xs ++ ys) s u := by
  induction xs generalizing s with
  | nil => cases h; exact h'
  | cons x xs ih =>
    obtain ⟨v, hv, ht⟩ := h
    exact ⟨v, hv, ih ht⟩

theorem stepAll_of_walks {α : Type} {step : α → State → Except Failure State} {xs : List α}
    {m : Machine State Post} {s : State} (h : Walks step xs m.mem s) :
    stepAll step xs m = .done () { m with mem := s } := by
  induction xs generalizing m with
  | nil => cases h; rfl
  | cons x xs ih =>
    obtain ⟨u, hu, hw⟩ := h
    have htail := ih (m := { m with mem := u }) hw
    have hget : (get : Owner State) m = .done m.mem m := rfl
    have hset : (modify fun _ => u : Owner Unit) m = .done () { m with mem := u } := rfl
    rw [stepAll, bind_of_done hget, hu]
    exact (bind_of_done hset).trans htail

/-! ## One frame -/

/-- The fields that neither a checkpoint nor a replay of frames writes. -/
structure SameRest (s t : State) : Prop where
  pid : t.pid = s.pid
  token : t.token = s.token
  state : t.state = s.state
  epoch : t.epoch = s.epoch
  manifest : t.manifest = s.manifest
  seg : t.seg = s.seg
  segments : t.segments = s.segments
  group : t.group = s.group
  closing : t.closing = s.closing
  legacy : t.legacy = s.legacy
  checkpointPos : t.checkpointPos = s.checkpointPos
  allocHot : t.allocHot = s.allocHot
  allocCold : t.allocCold = s.allocCold
  liveSids : t.liveSids = s.liveSids

/-- The fields that a replay of frames leaves alone. -/
structure SameCheckpoint (s t : State) : Prop extends SameRest s t where
  cold : t.cold = s.cold
  checkpointN : t.checkpointN = s.checkpointN
  receiptCkpts : t.receiptCkpts = s.receiptCkpts

theorem SameRest.refl (s : State) : SameRest s s := by
  constructor <;> rfl

theorem SameRest.trans {s t u : State} (h : SameRest s t) (h' : SameRest t u) : SameRest s u where
  pid := h'.pid.trans h.pid
  token := h'.token.trans h.token
  state := h'.state.trans h.state
  epoch := h'.epoch.trans h.epoch
  manifest := h'.manifest.trans h.manifest
  seg := h'.seg.trans h.seg
  segments := h'.segments.trans h.segments
  group := h'.group.trans h.group
  closing := h'.closing.trans h.closing
  legacy := h'.legacy.trans h.legacy
  checkpointPos := h'.checkpointPos.trans h.checkpointPos
  allocHot := h'.allocHot.trans h.allocHot
  allocCold := h'.allocCold.trans h.allocCold
  liveSids := h'.liveSids.trans h.liveSids

theorem SameCheckpoint.refl (s : State) : SameCheckpoint s s := ⟨.refl s, rfl, rfl, rfl⟩

theorem SameCheckpoint.trans {s t u : State} (h : SameCheckpoint s t) (h' : SameCheckpoint t u) :
    SameCheckpoint s u where
  toSameRest := h.toSameRest.trans h'.toSameRest
  cold := h'.cold.trans h.cold
  checkpointN := h'.checkpointN.trans h.checkpointN
  receiptCkpts := h'.receiptCkpts.trans h.receiptCkpts

theorem sameCheckpoint_hot (s : State) (hot : HotSet) : SameCheckpoint s { s with hot := hot } := by
  constructor <;> first | rfl | (constructor <;> rfl)

/-- A frame changes the core only. -/
theorem sameCheckpoint_applyFrame {f : Frame} {s t : State} {e : List Effect}
    (h : applyFrame replayCtx f s = .ok (t, e)) : SameCheckpoint s t ∧ t.receipts = s.receipts ∧
      t.appliedPos = s.appliedPos ∧ t.txnHash = s.txnHash := by
  have hkeeps : CtxKeeps replayCtx fun s t : State => SameCheckpoint s t ∧
      t.receipts = s.receipts ∧ t.appliedPos = s.appliedPos ∧ t.txnHash = s.txnHash := by
    refine ⟨fun s => ⟨.refl s, rfl, rfl, rfl⟩, ?_, ?_, ?_⟩
    · rintro a b c ⟨h1, h2, h3, h4⟩ ⟨h1', h2', h3', h4'⟩
      exact ⟨h1.trans h1', h2'.trans h2, h3'.trans h3, h4'.trans h4⟩
    · exact fun s id r => ⟨sameCheckpoint_hot s _, rfl, rfl, rfl⟩
    · intro s f
      refine ⟨?_, rfl, rfl, rfl⟩
      constructor <;> first | rfl | (constructor <;> rfl)
  refine hkeeps.applyFrame (fun a p _ => ⟨?_, rfl, rfl, rfl⟩) h
  constructor <;> first | rfl | (constructor <;> rfl)

variable {D : Digests}

def hashOf (D : Digests) (f : Frame) : Text := D.frameHash f.toJson.stringify

/-- The memory remembers exactly the frames that were seen. -/
structure Remembers (D : Digests) (seen : List Frame) (s : State) : Prop where
  pos : ∀ p, posKey p ∈ s.appliedPos ↔ ∃ f ∈ seen, f.pos = p
  hash : ∀ f ∈ seen, s.txnHash.get? f.txn = some (hashOf D f) ∧
    s.txnHash.get? (posKey f.pos) = some (hashOf D f)
  only : ∀ k h, s.txnHash.get? k = some h → ∃ f ∈ seen, k = f.txn ∨ k = posKey f.pos

theorem remembers_initial (pid : Nat) (token : Text) (liveSids : List Text) :
    Remembers D [] (.initial pid token liveSids) where
  pos p := by simp [State.initial]
  hash f hf := by cases hf
  only k h hk := by cases hk

theorem Remembers.congr {seen : List Frame} {s t : State} (h : Remembers D seen s)
    (hp : t.appliedPos = s.appliedPos) (ht : t.txnHash = s.txnHash) : Remembers D seen t where
  pos p := by rw [hp]; exact h.pos p
  hash f hf := by rw [ht]; exact h.hash f hf
  only k x hk := by rw [ht] at hk; exact h.only k x hk

/-- A frame that is neither of a position nor of a transaction that was seen is remembered too. -/
theorem Remembers.note {seen : List Frame} {s : State} {f : Frame} (h : Remembers D seen s)
    (hplain : ∀ g ∈ seen ++ [f], g.txn ≠ [] ∧ ':' ∉ g.txn) (hpos : ∀ g ∈ seen, g.pos ≠ f.pos)
    (htxn : ∀ g ∈ seen, g.txn ≠ f.txn) :
    Remembers D (seen ++ [f]) (noteApplied f (hashOf D f) s) := by
  have hkey : ∀ g ∈ seen ++ [f], ∀ p, g.txn ≠ posKey p := by
    intro g hg p he
    exact (hplain g hg).2 (he ▸ mem_posKey p)
  have hfm : f ∈ seen ++ [f] := List.mem_append_right _ (List.mem_singleton_self f)
  have hget : ∀ k, (noteApplied f (hashOf D f) s).txnHash.get? k
      = if k = posKey f.pos then some (hashOf D f)
        else if k = f.txn then some (hashOf D f) else s.txnHash.get? k := by
    intro k
    simp only [noteApplied, if_neg (hplain f hfm).1, OrdMap.get?_set]
  refine ⟨fun p => ?_, fun g hg => ?_, fun k x hk => ?_⟩
  · simp only [noteApplied, List.mem_append, List.mem_singleton, h.pos p]
    constructor
    · rintro (⟨g, hg, rfl⟩ | he)
      · exact ⟨g, .inl hg, rfl⟩
      · exact ⟨f, .inr rfl, (posKey_injective he).symm⟩
    · rintro ⟨g, hg | rfl, rfl⟩
      · exact .inl ⟨g, hg, rfl⟩
      · exact .inr rfl
  · rw [hget, hget]
    rcases List.mem_append.mp hg with hg' | hg'
    · obtain ⟨h1, h2⟩ := h.hash g hg'
      rw [if_neg (hkey g hg _), if_neg (htxn g hg'), if_neg fun he => hpos g hg' (posKey_injective he),
        if_neg fun he => hkey f hfm _ he.symm]
      exact ⟨h1, h2⟩
    · cases List.mem_singleton.mp hg'
      rw [if_neg (hkey f hfm _), if_pos rfl, if_pos rfl]
      exact ⟨rfl, rfl⟩
  · rw [hget] at hk
    split at hk
    · next he => exact ⟨f, hfm, .inr he⟩
    split at hk
    · next he => exact ⟨f, hfm, .inl he⟩
    · obtain ⟨g, hg, he⟩ := h.only k x hk
      exact ⟨g, List.mem_append_left _ hg, he⟩

/-- The receipt that replay makes for a frame. -/
def replayReceipt (f : Frame) : Text × Receipt := (f.txn, ⟨f.pos, f.kind, f.id?, .replay⟩)

/-- Behind the checkpoint. -/
def isAfter (p : Pos) (f : Frame) : Bool := 0 < comparePos f.pos p

/-- What replay did to the memory when it went over frames that add `added` to what was seen. -/
structure ReplayedTo (D : Digests) (seen added : List Frame) (s t : State) : Prop where
  remembers : Remembers D (seen ++ added) t
  core : Core.Steps (added.filter (isAfter s.checkpointPos)) (coreOf s) (coreOf t)
  receipts : t.receipts = s.receipts.setAll
    ((added.filter (isAfter s.checkpointPos)).map replayReceipt)
  same : SameCheckpoint s t

theorem ReplayedTo.refl {seen : List Frame} {s : State} (h : Remembers D seen s) :
    ReplayedTo D seen [] s s where
  remembers := by rwa [List.append_nil]
  core := rfl
  receipts := rfl
  same := .refl s

theorem ReplayedTo.trans {seen a b : List Frame} {s t u : State} (h : ReplayedTo D seen a s t)
    (h' : ReplayedTo D (seen ++ a) b t u) : ReplayedTo D seen (a ++ b) s u where
  remembers := by rw [← List.append_assoc]; exact h'.remembers
  core := by
    rw [List.filter_append, Core.steps_append]
    refine ⟨coreOf t, h.core, ?_⟩
    rw [← h.same.checkpointPos]
    exact h'.core
  receipts := by
    rw [List.filter_append, List.map_append, h'.receipts, h.receipts, h.same.checkpointPos]
    simp only [OrdMap.setAll, List.foldl_append]
  same := h.same.trans h'.same

/-- A frame as it was read back. -/
def IsRead (D : Digests) (fr : DecodedFrame) (f : Frame) : Prop :=
  fr.obj = f.toJson ∧ fr.hash = hashOf D f

/-- **A copy is passed over.** -/
theorem replayFrame_copy {manifest : Manifest} {fr : DecodedFrame} {f : Frame} {seen : List Frame}
    {s : State} (hr : IsRead D fr f) (hf : f.Sound) (hs : Remembers D seen s) (hm : f ∈ seen) :
    replayFrame manifest fr s = .ok s := by
  have hjson : Frame.ofJson fr.obj = f := by rw [hr.1, Frame.ofJson_toJson hf.wellFormed]
  have hpos : posKey f.pos ∈ s.appliedPos := (hs.pos f.pos).mpr ⟨f, hm, rfl⟩
  unfold replayFrame
  simp only [hjson]
  rw [if_pos (.inl hpos), (hs.hash f hm).1]
  simp only [Option.some_or, hr.2, ne_eq, not_true_eq_false, if_false]

/-- **A new frame** is remembered, and applied when it is behind the checkpoint. -/
theorem replayFrame_new (manifest : Manifest) {fr : DecodedFrame} {f : Frame} {seen : List Frame}
    {s : State} {c : Core} (hr : IsRead D fr f) (hf : f.Sound) (hs : Remembers D seen s)
    (hplain : ∀ g ∈ seen ++ [f], g.txn ≠ [] ∧ ':' ∉ g.txn) (hpos : ∀ g ∈ seen, g.pos ≠ f.pos)
    (htxn : ∀ g ∈ seen, g.txn ≠ f.txn)
    (hc : Core.Steps ([f].filter (isAfter s.checkpointPos)) (coreOf s) c) :
    ∃ t, replayFrame manifest fr s = .ok t ∧ ReplayedTo D seen [f] s t ∧ coreOf t = c := by
  have hjson : Frame.ofJson fr.obj = f := by rw [hr.1, Frame.ofJson_toJson hf.wellFormed]
  have hfm : f ∈ seen ++ [f] := List.mem_append_right _ (List.mem_singleton_self f)
  have hnew : ¬ (posKey f.pos ∈ s.appliedPos ∨ (f.txn ≠ [] ∧ s.txnHash.has f.txn = true)) := by
    rintro (h | ⟨-, h⟩)
    · obtain ⟨g, hg, he⟩ := (hs.pos f.pos).mp h
      exact hpos g hg he
    · obtain ⟨x, hx⟩ := s.txnHash.has_iff.mp h
      obtain ⟨g, hg, he | he⟩ := hs.only f.txn x hx
      · exact htxn g hg he.symm
      · exact (hplain f hfm).2 (he ▸ mem_posKey _)
  have hnote := hs.note hplain hpos htxn
  unfold replayFrame
  simp only [hjson]
  rw [if_neg hnew]
  by_cases hle : comparePos f.pos s.checkpointPos ≤ 0
  · have hafter : isAfter s.checkpointPos f = false := by simpa [isAfter] using hle
    have hfilter : [f].filter (isAfter s.checkpointPos) = [] := by simp [hafter]
    rw [if_pos hle, hr.2]
    rw [hfilter] at hc
    refine ⟨_, rfl, ⟨hnote, ?_, ?_, ?_⟩, ?_⟩
    · rw [hfilter]; rfl
    · rw [hfilter]; rfl
    · constructor <;> first | rfl | (constructor <;> rfl)
    · exact hc
  · have hafter : isAfter s.checkpointPos f = true := by simpa [isAfter] using hle
    have hfilter : [f].filter (isAfter s.checkpointPos) = [f] := by simp [hafter]
    rw [hfilter] at hc
    obtain ⟨c', hstep, hc'⟩ := hc
    cases hc'
    obtain ⟨e, he⟩ := hstep.applies
    rw [if_neg hle]
    have happ := replayCtx_hom.applyFrame f s
    rw [he] at happ
    cases hrep : applyFrame replayCtx f s with
    | error err => rw [hrep] at happ; cases happ
    | ok r =>
      obtain ⟨t, e'⟩ := r
      rw [hrep] at happ
      cases happ
      obtain ⟨hsame, hrec, hap, hth⟩ := sameCheckpoint_applyFrame hrep
      have hnote' := (hs.congr hap hth).note hplain hpos htxn
      simp only [hr.2]
      refine ⟨_, rfl, ⟨hnote'.congr rfl rfl, ?_, ?_, ?_⟩, rfl⟩
      · rw [hfilter]
        exact ⟨_, hstep, rfl⟩
      · rw [hfilter, if_neg (hplain f hfm).1]
        change (noteApplied f (hashOf D f) t).receipts.set _ _ = _
        rw [show (noteApplied f (hashOf D f) t).receipts = t.receipts from rfl, hrec]
        rfl
      · refine hsame.trans ?_
        constructor <;> first | rfl | (constructor <;> rfl)

/-! ## The frames of a segment -/

theorem pos_ne_of_mem_news {seen fs : List Frame} {f g : Frame} (hf : f ∈ news seen fs)
    (hg : g ∈ seen) : g.pos ≠ f.pos := by
  induction fs generalizing seen with
  | nil => cases hf
  | cons x fs ih =>
    rw [news] at hf
    split at hf
    · exact ih hf hg
    · next hn =>
      rcases List.mem_cons.mp hf with rfl | hf
      · intro he
        exact hn (List.any_eq_true.mpr ⟨g, hg, by simpa using he⟩)
      · exact ih hf (List.mem_append_left _ hg)

/-- What is asked of the frames that a replay goes over after some others. -/
structure Replayable (seen fs : List Frame) : Prop where
  coherent : ∀ f ∈ fs, f ∈ seen ++ news seen fs
  plain : ∀ f ∈ seen ++ news seen fs, f.txn ≠ [] ∧ ':' ∉ f.txn
  txns : ((seen ++ news seen fs).map Frame.txn).Nodup
  sound : ∀ f ∈ fs, f.Sound

theorem LogOk.replayable {all log : List Frame} (h : LogOk all log) : Replayable [] all where
  coherent f hf := by rw [h.read, List.nil_append]; exact h.coherent f hf
  plain f hf := by rw [h.read, List.nil_append] at hf; exact h.plain f hf
  txns := by rw [h.read, List.nil_append]; exact h.txns
  sound f hf := h.sound f (h.coherent f hf)

/-- What is left to replay after a first part. -/
theorem Replayable.append {seen a b : List Frame} (h : Replayable seen (a ++ b)) :
    Replayable seen a ∧ Replayable (seen ++ news seen a) b := by
  have heq : seen ++ news seen (a ++ b) = seen ++ news seen a ++ news (seen ++ news seen a) b := by
    rw [news_append, List.append_assoc]
  have hin : ∀ f ∈ a, f ∈ seen ++ news seen a := by
    intro f hf
    have hall := h.coherent f (List.mem_append_left _ hf)
    rw [heq, List.mem_append] at hall
    rcases hall with hm | hm
    · exact hm
    · -- a frame at a position of the first part is not new in the second
      exfalso
      have hpos : ∃ g ∈ seen ++ news seen a, g.pos = f.pos := by
        clear hm heq h
        induction a generalizing seen with
        | nil => cases hf
        | cons x a ih =>
          rw [news]
          split
          · next hx =>
            rcases List.mem_cons.mp hf with rfl | hf
            · obtain ⟨g, hg, he⟩ := List.any_eq_true.mp hx
              exact ⟨g, List.mem_append_left _ hg, by simpa using he⟩
            · exact ih hf
          · rcases List.mem_cons.mp hf with rfl | hf
            · exact ⟨f, by simp, rfl⟩
            · obtain ⟨g, hg, he⟩ := @ih (seen ++ [x]) hf
              rw [List.append_assoc] at hg
              exact ⟨g, hg, he⟩
      obtain ⟨g, hg, he⟩ := hpos
      exact pos_ne_of_mem_news hm hg he
  refine ⟨⟨hin, fun f hf => h.plain f ?_, ?_, fun f hf => h.sound f (List.mem_append_left _ hf)⟩,
    ⟨fun f hf => ?_, fun f hf => h.plain f (heq ▸ hf), heq ▸ h.txns,
      fun f hf => h.sound f (List.mem_append_right _ hf)⟩⟩
  · rw [heq]
    exact List.mem_append_left _ hf
  · have ht := h.txns
    rw [heq, List.map_append] at ht
    exact (List.nodup_append.mp ht).1
  · have hall := h.coherent f (List.mem_append_right _ hf)
    rwa [heq] at hall

/-- **A walk over frames that were read** applies the new ones behind the checkpoint. -/
theorem walks_replay (manifest : Manifest) {frs : List DecodedFrame} {fs seen : List Frame}
    {s : State} {c : Core} (hr : List.Forall₂ (IsRead D) frs fs) (hok : Replayable seen fs)
    (hs : Remembers D seen s)
    (hc : Core.Steps ((news seen fs).filter (isAfter s.checkpointPos)) (coreOf s) c) :
    ∃ t, Walks (replayFrame manifest) frs s t ∧ ReplayedTo D seen (news seen fs) s t ∧
      coreOf t = c := by
  induction hr generalizing seen s with
  | nil => exact ⟨s, rfl, .refl hs, hc⟩
  | @cons fr f frs fs hread hall ih =>
    have hone : [f] ++ fs = f :: fs := rfl
    obtain ⟨hfirst, hrest⟩ := Replayable.append (hone ▸ hok)
    have hfsound := hok.sound f List.mem_cons_self
    by_cases hold : seen.any fun g => g.pos = f.pos
    · -- a copy
      have hnews : news seen (f :: fs) = news seen fs := by rw [news, if_pos hold]
      have hnil : news seen [f] = [] := by rw [news, if_pos hold]; rfl
      have hmem : f ∈ seen := by
        have := hfirst.coherent f (List.mem_singleton_self f)
        rwa [hnil, List.append_nil] at this
      rw [hnil, List.append_nil] at hrest
      rw [hnews] at hc ⊢
      obtain ⟨t, hw, ht, htc⟩ := ih hrest hs hc
      exact ⟨t, ⟨s, replayFrame_copy hread hfsound hs hmem, hw⟩, ht, htc⟩
    · have hnews : news seen (f :: fs) = [f] ++ news (seen ++ [f]) fs := by rw [news, if_neg hold]; rfl
      have hsingle : news seen [f] = [f] := by rw [news, if_neg hold]; rfl
      rw [hsingle] at hrest
      have hplain := hfirst.plain
      have htxns := hfirst.txns
      rw [hsingle] at hplain htxns
      rw [hnews, List.filter_append, Core.steps_append] at hc
      obtain ⟨b, hb, hc⟩ := hc
      obtain ⟨u, hu, hut, huc⟩ := replayFrame_new manifest hread hfsound hs hplain
        (fun g hg he => hold (List.any_eq_true.mpr ⟨g, hg, by simpa using he⟩))
        (fun g hg he => by
          rw [List.map_append, List.nodup_append] at htxns
          exact htxns.2.2 _ (List.mem_map_of_mem hg) _ (List.mem_singleton_self _) he) hb
      obtain ⟨t, hw, ht, htc⟩ := ih hrest hut.remembers (by
        rw [hut.same.checkpointPos, huc]
        exact hc)
      rw [hnews]
      exact ⟨t, ⟨u, hu, hw⟩, hut.trans ht, htc⟩

/-! ## The segments -/

theorem forall₂_isRead {frs : List DecodedFrame} {fs : List Frame}
    (h : frs.map readFrame = fs.map (frameLine D)) : List.Forall₂ (IsRead D) frs fs := by
  induction frs generalizing fs with
  | nil =>
    cases fs with
    | nil => exact .nil
    | cons f fs => cases h
  | cons fr frs ih =>
    cases fs with
    | nil => cases h
    | cons f fs =>
      rw [List.map_cons, List.map_cons, List.cons.injEq, readFrame, frameLine, Prod.mk.injEq] at h
      exact .cons h.1 (ih h.2)

/-- What recovery keeps of a segment. -/
def SegView.meta (D : Digests) (v : SegView) : Segment :=
  ⟨v.name, v.epoch, v.n, true, (v.bytes D).length⟩

/-- The bytes of the last group of some segments. -/
def lastGroup (D : Digests) (segs : List SegView) : Option Bytes :=
  (segs.flatMap SegView.groups).getLast?.map fun g => encodeFrames D g.objs

/-- The same memory but for the list of segments. -/
theorem ReplayedTo.segments {seen added : List Frame} {s t : State}
    (h : ReplayedTo D seen added s t) (x : List Segment) :
    ReplayedTo D seen added { s with segments := x } { t with segments := x } where
  remembers := h.remembers.congr rfl rfl
  core := h.core
  receipts := h.receipts
  same := ⟨⟨h.same.pid, h.same.token, h.same.state, h.same.epoch, h.same.manifest, h.same.seg, rfl,
    h.same.group, h.same.closing, h.same.legacy, h.same.checkpointPos, h.same.allocHot,
    h.same.allocCold, h.same.liveSids⟩, h.same.cold, h.same.checkpointN, h.same.receiptCkpts⟩

theorem not_corrupted {o : Options} {v : SegView} (hv : v.Ok) :
    corrupted o (v.bytes o.digests) (decodeFrames o.digests (v.bytes o.digests)).tail = false := by
  rw [SegView.decoded hv]
  simp only
  split
  · rfl
  · simp [corrupted]

/-- What `noteUnapplied` changes is not looked at again. -/
theorem noteUnapplied_eq (segment : Text) (g : Grouped) (tail : Option Tail) (s : State) :
    ∃ x, noteUnapplied segment g tail s = { s with unappliedTxns := x } := by
  unfold noteUnapplied
  split
  · exact ⟨s.unappliedTxns, rfl⟩
  · exact ⟨_, rfl⟩

theorem ReplayedTo.unapplied {seen added : List Frame} {s t : State}
    (h : ReplayedTo D seen added s t) (x : OrdMap Text (Text × Nat)) :
    ReplayedTo D seen added s { t with unappliedTxns := x } where
  remembers := h.remembers.congr rfl rfl
  core := h.core
  receipts := h.receipts
  same := ⟨⟨h.same.pid, h.same.token, h.same.state, h.same.epoch, h.same.manifest, h.same.seg,
    h.same.segments, h.same.group, h.same.closing, h.same.legacy, h.same.checkpointPos,
    h.same.allocHot, h.same.allocCold, h.same.liveSids⟩, h.same.cold, h.same.checkpointN,
    h.same.receiptCkpts⟩

/-- **One segment**: its frames are replayed, and its last group's bytes are handed on. -/
theorem replaySegment_shows {o : Options} (manifest : Manifest) {v : SegView}
    {m : Machine State Post} {seen : List Frame} {c : Core} (hv : v.Ok)
    (hfile : m.disk.get? (segmentFile v.name) = some (.file (v.bytes o.digests)))
    (hok : Replayable seen v.frames) (hs : Remembers o.digests seen m.mem)
    (hc : Core.Steps ((news seen v.frames).filter (isAfter m.mem.checkpointPos)) (coreOf m.mem) c) :
    ∃ t, replaySegment o manifest v.ref m
        = .done (lastGroup o.digests [v]) { m with mem := t } ∧
      ReplayedTo o.digests seen (news seen v.frames) m.mem { t with segments := m.mem.segments } ∧
      t.segments = m.mem.segments ++ [v.meta o.digests] ∧ coreOf t = c := by
  obtain ⟨Γ, offset, hg, hall⟩ := SegView.grouped (D := o.digests) hv
  obtain ⟨u, hw, hut, huc⟩ := walks_replay manifest
    (forall₂_isRead (readAs_frames hall)) hok hs hc
  obtain ⟨x, hx⟩ := noteUnapplied_eq v.name (groupFrames (decodeFrames o.digests
    (v.bytes o.digests)).frames) (decodeFrames o.digests (v.bytes o.digests)).tail
    { u with segments := u.segments ++ [v.meta o.digests] }
  refine ⟨{ u with segments := u.segments ++ [v.meta o.digests], unappliedTxns := x }, ?_, ?_, ?_, huc⟩
  · have hread : ioResult (m.disk.readFile (segmentFile v.ref.name)) = .ok (v.bytes o.digests) := by
      rw [SegView.ref, FS.readFile_of_get? hfile]
      rfl
    have hlast : Γ.getLast?.map FrameGroup.bytes = lastGroup o.digests [v] := by
      rw [readAs_last hall, lastGroup, List.flatMap_singleton]
    unfold replaySegment
    rw [bind_eq_done]
    refine ⟨m.disk, m, rfl, ?_⟩
    rw [bind_eq_done]
    refine ⟨v.bytes o.digests, m, ?_, ?_⟩
    · rw [hread]; rfl
    simp only [not_corrupted hv, Bool.false_eq_true, if_false]
    rw [bind_eq_done]
    refine ⟨(), { m with mem := u }, stepAll_of_walks ?_, ?_⟩
    · rw [hg]
      exact hw
    rw [bind_eq_done]
    refine ⟨(), { m with mem := { u with
      segments := u.segments ++ [v.meta o.digests], unappliedTxns := x } }, ?_, ?_⟩
    · exact congrArg (fun s => Outcome.done () { m with mem := s }) hx
    · rw [hg]
      simp only [hlast]
      rfl
  · have hrest := hut.unapplied x
    have hseg : u.segments = m.mem.segments := hut.same.segments
    rw [← hseg]
    exact hrest
  · rw [hut.same.segments]

theorem lastGroup_append (a b : List SegView) :
    lastGroup D (a ++ b) = (lastGroup D b).or (lastGroup D a) := by
  rw [lastGroup, lastGroup, lastGroup, List.flatMap_append, List.getLast?_append]
  cases (List.flatMap SegView.groups b).getLast? <;> rfl

/-- **All segments.** -/
theorem replaySegments_shows {o : Options} {manifest : Manifest} {segs : List SegView}
    (m : Machine State Post) {seen : List Frame} {c : Core} (last : Option Bytes)
    (hv : ∀ v ∈ segs, v.Ok)
    (hfile : ∀ v ∈ segs, m.disk.get? (segmentFile v.name) = some (.file (v.bytes o.digests)))
    (hok : Replayable seen (allFrames segs)) (hs : Remembers o.digests seen m.mem)
    (hc : Core.Steps ((news seen (allFrames segs)).filter (isAfter m.mem.checkpointPos))
      (coreOf m.mem) c) :
    ∃ t, replaySegments o manifest (segs.map SegView.ref) last m
        = .done ((lastGroup o.digests segs).or last) { m with mem := t } ∧
      ReplayedTo o.digests seen (news seen (allFrames segs)) m.mem
        { t with segments := m.mem.segments } ∧
      t.segments = m.mem.segments ++ segs.map (SegView.meta o.digests) ∧ coreOf t = c := by
  induction segs generalizing m seen last with
  | nil => exact ⟨m.mem, rfl, .refl hs, (List.append_nil _).symm, hc⟩
  | cons v segs ih =>
    have hall : allFrames (v :: segs) = v.frames ++ allFrames segs := List.flatMap_cons
    rw [hall] at hok hc ⊢
    obtain ⟨hfirst, hrest⟩ := hok.append
    rw [news_append, List.filter_append, Core.steps_append] at hc
    obtain ⟨b, hb, hc⟩ := hc
    obtain ⟨u, hu, hut, hus, huc⟩ := replaySegment_shows manifest
      (hv v List.mem_cons_self) (hfile v List.mem_cons_self) hfirst hs hb
    obtain ⟨t, ht, htt, hts, htc⟩ := ih { m with mem := u }
      ((lastGroup o.digests [v]).or last)
      (fun w hw => hv w (List.mem_cons_of_mem _ hw)) (fun w hw => hfile w (List.mem_cons_of_mem _ hw))
      hrest (hut.remembers.congr rfl rfl) (by
        rw [huc]
        have hp : u.checkpointPos = m.mem.checkpointPos := hut.same.checkpointPos
        rw [hp]
        exact hc)
    refine ⟨t, ?_, ?_, ?_, htc⟩
    · rw [List.map_cons, replaySegments, bind_eq_done]
      refine ⟨_, _, hu, ?_⟩
      rw [ht, show v :: segs = [v] ++ segs from rfl, lastGroup_append, Option.or_assoc]
    · rw [news_append]
      exact hut.trans (htt.segments m.mem.segments)
    · rw [hts, hus, List.map_cons, List.append_assoc]
      rfl

end Telepty.Ledger
