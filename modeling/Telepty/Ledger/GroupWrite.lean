import Telepty.Ledger.Bookkeeping
import Telepty.Ledger.Group

/-!
# Writing a group

`writeGroup` appends the bytes of a group to the segment that is open, and tries once more in a new
segment when that fails. At its end the group is in the log of the disk; when both tries fail, and
when the process dies in one of them, it is there or the log is as it was.
-/

namespace Telepty.Ledger

open Infra Prog

/-! ## The segments in memory -/

/-- The memory knows every segment of its own epoch. -/
structure Covers (s : State) (b : Book) : Prop where
  epoch : s.epoch = b.man.epoch
  segments : ∀ v ∈ b.segs, v.epoch ≤ s.epoch ∧
    (v.epoch = s.epoch → ∃ x ∈ s.segments, x.epoch = v.epoch ∧ x.n = v.n)

/-- The segment that is open is the last one, with nothing cut off. -/
structure AtEnd (s : State) (b : Book) : Prop extends Covers s b where
  seg : ∀ x, s.seg = some x →
    ∃ init v, b.segs = init ++ [v] ∧ v.Clean ∧ v.epoch = s.epoch ∧ x.name = v.name

/-- Only what the memory knows of the segments changed. -/
def SegmentsOnly (s s' : State) : Prop := ∃ seg segments, s' = { s with seg := seg, segments := segments }

theorem SegmentsOnly.refl (s : State) : SegmentsOnly s s := ⟨s.seg, s.segments, rfl⟩

theorem SegmentsOnly.trans {s s' s'' : State} (h : SegmentsOnly s s') (h' : SegmentsOnly s' s'') :
    SegmentsOnly s s'' := by
  obtain ⟨x, y, rfl⟩ := h
  obtain ⟨x', y', rfl⟩ := h'
  exact ⟨x', y', rfl⟩

theorem segmentsOnly_withSegment (e n : Nat) (s : State) : SegmentsOnly s (withSegment e n s) :=
  ⟨_, _, rfl⟩

section

variable {o : Options} {m : Machine State Post} {b : Book} {s : State}

theorem le_foldl_max (l : List Segment) (k : Nat) :
    k ≤ l.foldl (fun m x => max m x.n) k ∧ ∀ x ∈ l, x.n ≤ l.foldl (fun m x => max m x.n) k := by
  induction l generalizing k with
  | nil => exact ⟨Nat.le_refl _, by simp⟩
  | cons y l ih =>
    obtain ⟨h1, h2⟩ := ih (max k y.n)
    refine ⟨Nat.le_trans (Nat.le_max_left _ _) h1, fun x hx => ?_⟩
    rcases List.mem_cons.mp hx with rfl | hx
    · exact Nat.le_trans (Nat.le_max_right _ _) h1
    · exact h2 x hx

/-- The next segment comes after all others. -/
theorem Covers.before_next (h : Covers s b) :
    ∀ v ∈ b.segs, v.Before (emptySegment s.epoch (nextSegmentN s)) := by
  intro v hv
  obtain ⟨hle, hx⟩ := h.segments v hv
  rcases Nat.lt_or_eq_of_le hle with hlt | heq
  · exact .inl hlt
  · obtain ⟨x, hxm, hxe, hxn⟩ := hx heq
    refine .inr ⟨heq, ?_⟩
    have hmem : x ∈ s.segments.filter fun x => x.epoch = s.epoch := by
      rw [List.mem_filter]
      exact ⟨hxm, by simp [hxe, heq]⟩
    have hmax := (le_foldl_max _ 0).2 x hmem
    show v.n < nextSegmentN s
    rw [nextSegmentN, ← hxn]
    exact Nat.lt_succ_of_le hmax

/-- A new segment is the open one. -/
theorem AtEnd.of_new {segs : List SegView} {n : Nat} (h : Covers s b)
    (ho : OpenedAs b.segs s.epoch n segs) (hb : ∀ v ∈ b.segs, v.Before (emptySegment s.epoch n)) :
    AtEnd (withSegment s.epoch n s) { b with segs := segs } := by
  have hsegs : segs = b.segs ++ [emptySegment s.epoch n] := by
    cases ho with
    | @last init v hs he hn =>
      exfalso
      have hv := hb v (by rw [hs]; simp)
      simp only [SegView.Before, emptySegment] at hv
      omega
    | new => rfl
  subst hsegs
  refine ⟨⟨h.epoch, fun v hv => ?_⟩, fun x hx => ?_⟩
  · rcases List.mem_append.mp hv with hv | hv
    · obtain ⟨hle, hx⟩ := h.segments v hv
      refine ⟨hle, fun he => ?_⟩
      obtain ⟨x, hxm, hxn⟩ := hx he
      exact ⟨x, List.mem_append_left _ hxm, hxn⟩
    · rw [List.mem_singleton.mp hv]
      exact ⟨Nat.le_refl _, fun _ => ⟨_, List.mem_append_right _ (List.mem_singleton_self _), rfl, rfl⟩⟩
  · cases hx
    exact ⟨b.segs, _, rfl, ⟨rfl, rfl⟩, rfl, rfl⟩

theorem mem_markClosed (name : Text) (bytes : Nat) {l : List Segment} {x : Segment} (hx : x ∈ l) :
    ∃ y ∈ markClosed name bytes l, y.epoch = x.epoch ∧ y.n = x.n := by
  induction l with
  | nil => cases hx
  | cons z l ih =>
    rw [markClosed]
    split
    · rcases List.mem_cons.mp hx with rfl | hx
      · exact ⟨_, List.mem_cons_self, rfl, rfl⟩
      · exact ⟨x, List.mem_cons_of_mem _ hx, rfl, rfl⟩
    · rcases List.mem_cons.mp hx with rfl | hx
      · exact ⟨x, List.mem_cons_self, rfl, rfl⟩
      · obtain ⟨y, hy, hn⟩ := ih hx
        exact ⟨y, List.mem_cons_of_mem _ hy, hn⟩

/-- **Closing the segment** leaves the disk as it is and no segment open. -/
theorem wp_closeSegment {Q : Ensures State Post Unit} (hs : o.env.NoShort) (h : Covers m.mem b)
    (hd : ∀ m', m'.disk = m.disk → m'.sent = m.sent → SegmentsOnly m.mem m'.mem →
      m'.mem.seg = none → AtEnd m'.mem b → Q.done () m')
    (hc : ∀ m', m'.disk = m.disk → m'.sent = m.sent → Q.crashed m') :
    wp (closeSegment o) Q m := by
  simp only [closeSegment, wp_bind, wp_get]
  cases hseg : m.mem.seg with
  | none =>
    exact hd m rfl rfl (.refl _) hseg ⟨h, fun x hx => by rw [hseg] at hx; cases hx⟩
  | some seg =>
    have hend : ∀ m', Quiet m m' → Q.done () { m' with mem := { m'.mem with
        segments := markClosed seg.name seg.bytes m'.mem.segments, seg := none } } := by
      intro m' hq
      refine hd _ hq.disk hq.sent
        ⟨none, markClosed seg.name seg.bytes m.mem.segments, ?_⟩ rfl ⟨⟨?_, ?_⟩, nofun⟩
      · rw [hq.mem]
      · rw [← h.epoch, ← hq.mem]
      · intro v hv
        obtain ⟨hle, hx⟩ := h.segments v hv
        rw [← hq.mem] at hle hx
        refine ⟨hle, fun he => ?_⟩
        obtain ⟨x, hxm, hxe, hxn⟩ := hx he
        obtain ⟨y, hy, hye, hyn⟩ := mem_markClosed seg.name seg.bytes hxm
        exact ⟨y, hy, hye.trans hxe, hyn.trans hxn⟩
    simp only [wp_bind, wp_catching, wp_pure, wp_modify]
    exact wp_sys_quiet hs (harmless_close _) hend (fun _ m' hq _ => hend m' hq)
      fun m' hq => hc m' hq.disk hq.sent

/-- **Rolling the segment**: a new segment is open, or none is when it could not be opened. -/
theorem wp_rollSegment {Q : Ensures State Post Unit} (hs : o.env.NoShort) (hh : Holds o m.disk b)
    (h : Covers m.mem b)
    (hd : ∀ m' segs, m'.sent = m.sent → SegmentsOnly m.mem m'.mem →
      allFrames segs = allFrames b.segs → Holds o m'.disk { b with segs := segs } →
      AtEnd m'.mem { b with segs := segs } → m'.mem.seg.isSome → Q.done () m')
    (hr : ∀ e m' segs, ¬ o.env.Calm → m'.sent = m.sent → SegmentsOnly m.mem m'.mem →
      allFrames segs = allFrames b.segs → Holds o m'.disk { b with segs := segs } →
      AtEnd m'.mem { b with segs := segs } → Q.raised e m')
    (hc : ∀ m' segs, m'.sent = m.sent → allFrames segs = allFrames b.segs →
      Holds o m'.disk { b with segs := segs } → Q.crashed m') :
    wp (rollSegment o) Q m := by
  unfold rollSegment
  rw [wp_bind]
  refine wp_closeSegment hs h ?_ ?_
  · intro m₁ hdisk hsent hsegs hnone hend
    simp only [wp_bind, wp_get]
    have hh₁ : Holds o m₁.disk b := hdisk ▸ hh
    have hnext := hend.before_next
    refine wp_openSegment hs hh₁ (.inr hnext) (.inl (Nat.le_of_eq hend.epoch)) ?_ ?_ ?_
    · intro m₂ segs hmem hsent' hopened hh₂
      refine hd m₂ segs (hsent'.trans hsent) ?_ hopened.allFrames hh₂ ?_ ?_
      · rw [hmem]
        exact hsegs.trans (segmentsOnly_withSegment _ _ _)
      · rw [hmem]
        exact AtEnd.of_new hend.toCovers hopened hnext
      · rw [hmem]
        rfl
    · rintro e m₂ hn hsent' (⟨hmem, hh₂⟩ | ⟨hmem, segs, hopened, hh₂⟩)
      · exact hr e m₂ b.segs hn (hsent'.trans hsent) (by rw [hmem]; exact hsegs) rfl hh₂
          (by rw [hmem]; exact hend)
      · refine hr e m₂ segs hn (hsent'.trans hsent) ?_ hopened.allFrames hh₂ ?_
        · rw [hmem]
          exact hsegs.trans (segmentsOnly_withSegment _ _ _)
        · rw [hmem]
          exact AtEnd.of_new hend.toCovers hopened hnext
    · rintro m₂ hsent' (hh₂ | ⟨segs, hopened, hh₂⟩)
      · exact hc m₂ b.segs (hsent'.trans hsent) rfl hh₂
      · exact hc m₂ segs (hsent'.trans hsent) hopened.allFrames hh₂
  · intro m₁ hdisk hsent
    exact hc m₁ b.segs hsent rfl (hdisk ▸ hh)

end

/-! ## The write -/

/-- The book once the group that is being written is in the log. -/
structure Target where
  log : List Frame
  whole : Core
  part : Core

/-- A book on the way to a target: the group is not in its log yet, or it is. -/
structure Toward (b : Book) (g : LogGroup) (t : Target) (b' : Book) : Prop where
  man : b'.man = b.man
  snap : b'.snap = b.snap
  base : b'.base = b.base
  either : b'.log = b.log ∧ b'.spec = b.spec ∧ b'.recovered = b.recovered ∨
    b'.log = t.log ∧ b'.spec = t.whole ∧ b'.recovered = t.part
  grows : b'.Grows g.frames t.log t.whole t.part

/-- The group is in the log. -/
structure Arrived (b : Book) (t : Target) (b' : Book) : Prop where
  man : b'.man = b.man
  snap : b'.snap = b.snap
  base : b'.base = b.base
  log : b'.log = t.log
  spec : b'.spec = t.whole
  recovered : b'.recovered = t.part

section

variable {o : Options} {m : Machine State Post} {b b₀ : Book} {g : LogGroup} {t : Target}

theorem Book.Grows.resegment {b : Book} {added log : List Frame} {whole part : Core}
    (h : b.Grows added log whole part) {segs : List SegView}
    (hf : allFrames segs = allFrames b.segs) :
    ({ b with segs := segs } : Book).Grows added log whole part :=
  { h with logOk := hf ▸ h.logOk }

theorem Toward.resegment (h : Toward b₀ g t b) {segs : List SegView}
    (hf : allFrames segs = allFrames b.segs) : Toward b₀ g t { b with segs := segs } :=
  ⟨h.man, h.snap, h.base, h.either, h.grows.resegment hf⟩

/-- Once the group is in the log, it may be written again. -/
theorem Toward.of_holds {fs : FS} (h : Toward b₀ g t b) {segs : List SegView}
    (hh : Holds o fs { b with segs := segs, log := t.log, spec := t.whole, recovered := t.part })
    (hg : ∀ f ∈ g.frames, f ∈ t.log) :
    Toward b₀ g t { b with segs := segs, log := t.log, spec := t.whole, recovered := t.part } :=
  ⟨h.man, h.snap, h.base, .inr ⟨rfl, rfl, rfl⟩, hh.growsCopy hg⟩

theorem SegView.Clean.add {v : SegView} (h : v.Clean) (g : LogGroup) : (v.add g).Clean :=
  SegView.clean_add h

/-- **One try**: the group is in the log at its end. When it fails, the group is there or the log is
as it was, and the segment may be cut off. -/
theorem wp_tryWrite {Q : Ensures State Post Unit} (hs : o.env.NoShort) (hh : Holds o m.disk b)
    (h : AtEnd m.mem b) (ht : Toward b₀ g t b) (hg : g.Ok) (hgt : ∀ f ∈ g.frames, f ∈ t.log)
    (hd : ∀ m' b', m'.sent = m.sent → SegmentsOnly m.mem m'.mem → Holds o m'.disk b' →
      Arrived b₀ t b' → AtEnd m'.mem b' → Q.done () m')
    (hr : ∀ e m' b', ¬ o.env.Calm → m'.sent = m.sent → SegmentsOnly m.mem m'.mem →
      Holds o m'.disk b' → Toward b₀ g t b' → Covers m'.mem b' → Q.raised e m')
    (hc : ∀ m' b', m'.sent = m.sent → Holds o m'.disk b' → Toward b₀ g t b' → Q.crashed m') :
    wp (tryWrite o (encodeFrames o.digests g.objs)) Q m := by
  -- once a segment is open
  have hwrite : ∀ (m₁ : Machine State Post) (b₁ : Book) (seg : OpenSegment), m₁.sent = m.sent →
      SegmentsOnly m.mem m₁.mem → Holds o m₁.disk b₁ → Toward b₀ g t b₁ → AtEnd m₁.mem b₁ →
      m₁.mem.seg = some seg →
      wp (do
        let _ ← sys o.env (.write (segmentFile seg.name) (encodeFrames o.digests g.objs))
        let _ ← sys o.env (.fsync (segmentFile seg.name))
        modify fun s => { s with seg := some { seg with
          bytes := seg.bytes + (encodeFrames o.digests g.objs).length } }) Q m₁ := by
    intro m₁ b₁ seg hsent hsegs hh₁ ht₁ hend hseg
    obtain ⟨init, v, hlast, hclean, hve, hname⟩ := hend.seg seg hseg
    have hcov : ∀ w : SegView, w.epoch = v.epoch → w.n = v.n → ∀ u ∈ init ++ [w],
        u.epoch ≤ m₁.mem.epoch ∧ (u.epoch = m₁.mem.epoch →
          ∃ x ∈ m₁.mem.segments, x.epoch = u.epoch ∧ x.n = u.n) := by
      intro w he hn u hu
      rcases List.mem_append.mp hu with hu | hu
      · exact hend.segments u (by rw [hlast]; exact List.mem_append_left _ hu)
      · rw [List.mem_singleton.mp hu, he, hn]
        exact hend.segments v (by rw [hlast]; simp)
    have hcut : ∀ k, (∃ b₂, Holds o (FS.append m₁.disk (segmentFile seg.name)
        ((encodeFrames o.digests g.objs).take k)) b₂ ∧ Toward b₀ g t b₂ ∧ Covers m₁.mem b₂) := by
      intro k
      rw [hname]
      rcases hh₁.writeCut hlast hclean hg ht₁.grows k with hw | ⟨w, he, hn, hgr, hw⟩
      · exact ⟨_, hw, ht₁.of_holds hw hgt, hend.epoch, hcov _ rfl rfl⟩
      · refine ⟨_, hw, ht₁.resegment ?_, hend.epoch, hcov w he hn⟩
        rw [hlast]
        simp [allFrames, SegView.frames, hgr]
    simp only [wp_bind, wp_modify]
    refine wp_sys hs ?_ ?_ ?_ ?_
    · intro fs hrun
      cases hrun
      have hfull := hh₁.writeAll hlast hg ht₁.grows (SegView.bytes_add hclean)
      rw [← hname] at hfull
      have harr : Arrived b₀ t { b₁ with
          segs := init ++ [v.add g], log := t.log, spec := t.whole, recovered := t.part } :=
        ⟨ht₁.man, ht₁.snap, ht₁.base, rfl, rfl, rfl⟩
      refine wp_sys_quiet hs (harmless_fsync _) ?_ ?_ ?_
      · intro m₂ hq
        refine hd _ _ (hq.sent.trans hsent) ?_ (by rw [hq.disk]; exact hfull) harr ?_
        · refine hsegs.trans ⟨some { seg with
            bytes := seg.bytes + (encodeFrames o.digests g.objs).length }, m₁.mem.segments, ?_⟩
          rw [hq.mem]
        · refine ⟨⟨?_, ?_⟩, ?_⟩
          · rw [hq.mem]
            exact hend.epoch
          · rw [hq.mem]
            exact hcov (v.add g) rfl rfl
          · intro x hx
            cases hx
            exact ⟨init, v.add g, rfl, hclean.add g, by rw [hq.mem]; exact hve, hname⟩
      · intro e m₂ hq hx
        refine hr e m₂ _ (fun hcalm => ?_) (hq.sent.trans hsent) (by rw [hq.mem]; exact hsegs)
          (by rw [hq.disk]; exact hfull) (ht₁.of_holds hfull hgt) ⟨?_, ?_⟩
        · obtain ⟨err, herr⟩ := hx hcalm
          cases herr
        · rw [hq.mem]
          exact hend.epoch
        · rw [hq.mem]
          exact hcov (v.add g) rfl rfl
      · intro m₂ hq
        exact hc m₂ _ (hq.sent.trans hsent) (by rw [hq.disk]; exact hfull) (ht₁.of_holds hfull hgt)
    · intro hn e kept
      obtain ⟨b₂, hh₂, ht₂, hc₂⟩ := hcut kept
      exact hr e _ b₂ hn hsent hsegs hh₂ ht₂ hc₂
    · intro e hrun
      cases hrun
    · intro kept
      obtain ⟨b₂, hh₂, ht₂, -⟩ := hcut kept
      exact hc _ b₂ hsent hh₂ ht₂
  unfold tryWrite ensureSegment
  simp only [wp_bind, wp_get]
  cases hseg : m.mem.seg with
  | some seg =>
    simp only [wp_pure]
    rw [hseg]
    exact hwrite m b seg rfl (.refl _) hh ht h hseg
  | none =>
    have hnext := h.before_next
    refine wp_openSegment hs hh (.inr hnext) (.inl (Nat.le_of_eq h.epoch)) ?_ ?_ ?_
    · intro m₁ segs hmem hsent hopened hh₁
      have hseg₁ : m₁.mem.seg = some ⟨segmentName m.mem.epoch (nextSegmentN m.mem), 0, m.mem.epoch,
          nextSegmentN m.mem⟩ := by rw [hmem]; rfl
      simp only [hseg₁]
      refine hwrite m₁ _ _ hsent ?_ hh₁ (ht.resegment hopened.allFrames) ?_ hseg₁
      · rw [hmem]
        exact segmentsOnly_withSegment _ _ _
      · rw [hmem]
        exact AtEnd.of_new h.toCovers hopened hnext
    · rintro e m₁ hn hsent (⟨hmem, hh₁⟩ | ⟨hmem, segs, hopened, hh₁⟩)
      · exact hr e m₁ b hn hsent (by rw [hmem]; exact .refl _) hh₁ ht (by rw [hmem]; exact h.toCovers)
      · refine hr e m₁ _ hn hsent ?_ hh₁ (ht.resegment hopened.allFrames) ?_
        · rw [hmem]
          exact segmentsOnly_withSegment _ _ _
        · rw [hmem]
          exact (AtEnd.of_new h.toCovers hopened hnext).toCovers
    · rintro m₁ hsent (hh₁ | ⟨segs, hopened, hh₁⟩)
      · exact hc m₁ b hsent hh₁ ht
      · exact hc m₁ _ hsent hh₁ (ht.resegment hopened.allFrames)

/-- **Two tries**: the group is in the log, or the error of the second is handed on and the group is
in the log or the log is as it was. -/
theorem wp_writeGroup {Q : Ensures State Post (Option Failure)} (hs : o.env.NoShort)
    (hh : Holds o m.disk b) (h : AtEnd m.mem b) (hgrow : b.Grows g.frames t.log t.whole t.part)
    (hg : g.Ok) (hgt : ∀ f ∈ g.frames, f ∈ t.log)
    (hd : ∀ m' b', m'.sent = m.sent → SegmentsOnly m.mem m'.mem → Holds o m'.disk b' →
      Arrived b t b' → AtEnd m'.mem b' → Q.done none m')
    (hd' : ∀ e m' b', ¬ o.env.Calm → m'.sent = m.sent → SegmentsOnly m.mem m'.mem →
      Holds o m'.disk b' → Toward b g t b' → Covers m'.mem b' → Q.done (some e) m')
    (hc : ∀ m' b', m'.sent = m.sent → Holds o m'.disk b' → Toward b g t b' → Q.crashed m') :
    wp (writeGroup o (encodeFrames o.digests g.objs)) Q m := by
  have ht : Toward b g t b := ⟨rfl, rfl, rfl, .inl ⟨rfl, rfl, rfl⟩, hgrow⟩
  unfold writeGroup
  simp only [wp_catching, wp_bind, wp_pure]
  refine wp_tryWrite hs hh h ht hg hgt hd ?_ hc
  intro e m₁ b₁ hn hsent₁ hsegs₁ hh₁ ht₁ hcov₁
  refine wp_rollSegment hs hh₁ hcov₁ ?_ ?_ ?_
  · intro m₂ segs hsent₂ hsegs₂ hframes hh₂ hend₂ _
    have ht₂ := ht₁.resegment hframes
    refine wp_tryWrite hs hh₂ hend₂ ht₂ hg hgt ?_ ?_ ?_
    · intro m₃ b₃ hsent₃ hsegs₃ hh₃ harr hend₃
      exact hd m₃ b₃ (hsent₃.trans (hsent₂.trans hsent₁)) (hsegs₁.trans (hsegs₂.trans hsegs₃)) hh₃
        harr hend₃
    · intro e' m₃ b₃ hn' hsent₃ hsegs₃ hh₃ ht₃ hcov₃
      exact hd' e' m₃ b₃ hn' (hsent₃.trans (hsent₂.trans hsent₁))
        (hsegs₁.trans (hsegs₂.trans hsegs₃)) hh₃ ht₃ hcov₃
    · intro m₃ b₃ hsent₃ hh₃ ht₃
      exact hc m₃ b₃ (hsent₃.trans (hsent₂.trans hsent₁)) hh₃ ht₃
  · intro e' m₂ segs hn' hsent₂ hsegs₂ hframes hh₂ hend₂
    exact hd' e' m₂ _ hn' (hsent₂.trans hsent₁) (hsegs₁.trans hsegs₂) hh₂ (ht₁.resegment hframes)
      hend₂.toCovers
  · intro m₂ segs hsent₂ hframes hh₂
    exact hc m₂ _ (hsent₂.trans hsent₁) hh₂ (ht₁.resegment hframes)

end

end Telepty.Ledger
