import Telepty.Ledger.Compaction

/-!
# Committing the open group

`flushGroup` writes the group and merges it into the memory once its bytes are on the disk. The
members are acknowledged over a disk whose log has their frames. Where both writes fail the owner
stops serving, and the disk has the log with the group or without it.
-/

namespace Telepty.Ledger

open Infra Prog

/-! ## What writing to a segment keeps -/

/-- All that a store keeps apart from its segments stays. -/
def KeepsOurs (fs fs' : FS) : Prop := ∀ p n, Ours p → fs.get? p = some n → fs'.get? p = some n

/-- What is kept of a machine's disk. -/
abbrev KeepsDisk (m m' : Machine State Post) : Prop := KeepsOurs m.disk m'.disk

theorem OnlySegments.keepsOurs {fs fs' : FS} (h : OnlySegments fs fs') : KeepsOurs fs fs' :=
  fun p n hp hn => by rw [h.ours hp, hn]

theorem keepsDisk_rollSegment (o : Options) : Keeps KeepsDisk (rollSegment o) :=
  ((respects_onlySegments o).rollSegment fun _ _ _ => rfl).mono fun _ _ h => h.keepsOurs

theorem keepsDisk_writeGroup (o : Options) (bytes : Bytes) : Keeps KeepsDisk (writeGroup o bytes) :=
  ((respects_onlySegments o).writeGroup (fun _ _ _ => rfl) bytes).mono fun _ _ h => h.keepsOurs

/-! ## The memory after the merge -/

/-- What the merge does for one member. -/
def mergeMember (s : State) (m : Member) : State :=
  { s with
    appliedPos := s.appliedPos ++ [posKey m.pos]
    txnHash := (s.txnHash.set m.txn m.hash).set (posKey m.pos) m.hash
    receipts := s.receipts.set m.txn ⟨m.pos, m.kind, m.id, .open⟩ }

/-- What the merge does before the members. -/
def mergeContent (g : Group) (s : State) : State :=
  g.actions.foldl (fun s a => s.setAction a.1 a.2)
    { s with
      hot := s.hot.setAll g.overlay.entries
      facts := g.facts
      seqCommitted := g.seqTo
      framesSinceCheckpoint := s.framesSinceCheckpoint + g.frames.length }

theorem merged_eq (g : Group) (s : State) : merged g s = g.members.foldl mergeMember (mergeContent g s) :=
  rfl

/-- The fields that the merge leaves alone. -/
structure MergeKeeps (s t : State) : Prop where
  pid : t.pid = s.pid
  token : t.token = s.token
  state : t.state = s.state
  reason : t.reason = s.reason
  epoch : t.epoch = s.epoch
  seqNext : t.seqNext = s.seqNext
  manifest : t.manifest = s.manifest
  receiptCkpts : t.receiptCkpts = s.receiptCkpts
  cold : t.cold = s.cold
  segments : t.segments = s.segments
  seg : t.seg = s.seg
  checkpointN : t.checkpointN = s.checkpointN
  checkpointPos : t.checkpointPos = s.checkpointPos
  group : t.group = s.group
  liveSids : t.liveSids = s.liveSids
  closing : t.closing = s.closing

theorem MergeKeeps.trans {s t u : State} (h : MergeKeeps s t) (h' : MergeKeeps t u) :
    MergeKeeps s u := by
  constructor
  · exact h'.pid.trans h.pid
  · exact h'.token.trans h.token
  · exact h'.state.trans h.state
  · exact h'.reason.trans h.reason
  · exact h'.epoch.trans h.epoch
  · exact h'.seqNext.trans h.seqNext
  · exact h'.manifest.trans h.manifest
  · exact h'.receiptCkpts.trans h.receiptCkpts
  · exact h'.cold.trans h.cold
  · exact h'.segments.trans h.segments
  · exact h'.seg.trans h.seg
  · exact h'.checkpointN.trans h.checkpointN
  · exact h'.checkpointPos.trans h.checkpointPos
  · exact h'.group.trans h.group
  · exact h'.liveSids.trans h.liveSids
  · exact h'.closing.trans h.closing

/-- What the members do: their receipts, and nothing that a core or the fields above show. -/
theorem mergeMembers (ms : List Member) (s : State) :
    MergeKeeps s (ms.foldl mergeMember s) ∧ (ms.foldl mergeMember s).seqCommitted = s.seqCommitted ∧
      (ms.foldl mergeMember s).actions = s.actions ∧ (ms.foldl mergeMember s).pending = s.pending ∧
      ∀ k r, (ms.foldl mergeMember s).receipts.get? k = some r → s.receipts.get? k = some r ∨
        ∃ m ∈ ms, k = m.txn ∧ r = ⟨m.pos, m.kind, m.id, .open⟩ := by
  induction ms generalizing s with
  | nil => exact ⟨by constructor <;> rfl, rfl, rfl, rfl, fun k r h => .inl h⟩
  | cons m ms ih =>
    obtain ⟨h1, h2, h3, h4, h5⟩ := ih (mergeMember s m)
    have hone : MergeKeeps s (mergeMember s m) := by constructor <;> rfl
    refine ⟨hone.trans h1, h2, h3, h4, fun k r hr => ?_⟩
    rcases h5 k r hr with h | ⟨m', hm', hk⟩
    · change (s.receipts.set m.txn ⟨m.pos, m.kind, m.id, .open⟩).get? k = some r at h
      rw [OrdMap.get?_set] at h
      split at h
      · next hk =>
        cases h
        exact .inr ⟨m, List.mem_cons_self, hk, rfl⟩
      · exact .inl h
    · exact .inr ⟨m', List.mem_cons_of_mem _ hm', hk⟩

/-- What the actions do: they stand under their own ids. -/
theorem mergeActions (as : List (Json × Option Json)) (s : State)
    (ha : ∀ k a, s.actions.get? k = some a → actionId a = k)
    (hp : ∀ k p, s.pending.get? k = some p → injectId p = k) :
    MergeKeeps s (as.foldl (fun s a => s.setAction a.1 a.2) s) ∧
      (as.foldl (fun s a => s.setAction a.1 a.2) s).seqCommitted = s.seqCommitted ∧
      (as.foldl (fun s a => s.setAction a.1 a.2) s).receipts = s.receipts ∧
      (∀ k a, (as.foldl (fun s a => s.setAction a.1 a.2) s).actions.get? k = some a →
        actionId a = k) ∧
      ∀ k p, (as.foldl (fun s a => s.setAction a.1 a.2) s).pending.get? k = some p →
        injectId p = k := by
  induction as generalizing s with
  | nil => exact ⟨by constructor <;> rfl, rfl, rfl, ha, hp⟩
  | cons a as ih =>
    have hone : MergeKeeps s (s.setAction a.1 a.2) := by constructor <;> rfl
    obtain ⟨h1, h2, h3, h4, h5⟩ := ih (s.setAction a.1 a.2) (fun k x hx => by
        change (s.actions.set (a.1.textField "action_id") a.1).get? k = some x at hx
        rw [OrdMap.get?_set] at hx
        split at hx
        · next hk =>
          cases hx
          exact hk.symm
        · exact ha k x hx) (fun k x hx => by
        cases hq : a.2 with
        | none =>
          rw [hq] at hx
          exact hp k x hx
        | some q =>
          rw [hq] at hx
          change (s.pending.set (q.textField "inject_id") q).get? k = some x at hx
          rw [OrdMap.get?_set] at hx
          split at hx
          · next hk =>
            cases hx
            exact hk.symm
          · exact hp k x hx)
    exact ⟨hone.trans h1, h2, h3, h4, h5⟩

/-- **The memory after the merge.** -/
theorem merged_spec {g : Group} {s : State} (ha : ∀ k a, s.actions.get? k = some a → actionId a = k)
    (hp : ∀ k p, s.pending.get? k = some p → injectId p = k) :
    MergeKeeps s (merged g s) ∧ (merged g s).seqCommitted = g.seqTo ∧
      (∀ k a, (merged g s).actions.get? k = some a → actionId a = k) ∧
      (∀ k p, (merged g s).pending.get? k = some p → injectId p = k) ∧
      ∀ k r, (merged g s).receipts.get? k = some r → s.receipts.get? k = some r ∨
        ∃ m ∈ g.members, k = m.txn ∧ r = ⟨m.pos, m.kind, m.id, .open⟩ := by
  obtain ⟨a1, a2, a3, a4, a5⟩ := mergeActions g.actions { s with
    hot := s.hot.setAll g.overlay.entries
    facts := g.facts
    seqCommitted := g.seqTo
    framesSinceCheckpoint := s.framesSinceCheckpoint + g.frames.length } ha hp
  obtain ⟨m1, m2, m3, m4, m5⟩ := mergeMembers g.members (mergeContent g s)
  have hone : MergeKeeps s { s with
      hot := s.hot.setAll g.overlay.entries
      facts := g.facts
      seqCommitted := g.seqTo
      framesSinceCheckpoint := s.framesSinceCheckpoint + g.frames.length } := by
    constructor <;> rfl
  rw [merged_eq]
  refine ⟨(hone.trans a1).trans m1, m2.trans a2, ?_, ?_, fun k r hr => ?_⟩
  · rw [m3]
    exact a4
  · rw [m4]
    exact a5
  · rcases m5 k r hr with h | h
    · rw [show (mergeContent g s).receipts = s.receipts from a3] at h
      exact .inl h
    · exact .inr h

section

variable {o : Options} {I : Regime} {m m' : Machine State Post} {b b' : Book} {gens : List Gen}
  {g : Group}

/-! ## The book that the group leads to -/

/-- The frames of the group come after the log. -/
theorem GroupOk.sorted {s : State} {fs : FS} (hg : GroupOk s g gens b.log)
    (hl : Live o s fs b gens) (hb : b.log.Pairwise fun a b => comparePos a.pos b.pos < 0) :
    (b.log ++ g.frames).Pairwise fun a b => comparePos a.pos b.pos < 0 := by
  rw [List.pairwise_append]
  refine ⟨hb, hg.seqs.imp_of_mem fun {x y} hx hy hxy => ?_, fun x hx y hy => ?_⟩
  · exact comparePos_neg_iff.mpr (.inr ⟨(hg.epoch x hx).trans (hg.epoch y hy).symm, hxy⟩)
  · have hle := comparePos_nonpos_iff.mp (hl.log x hx)
    have hlt := (hg.next y hy).1
    have hey := hg.epoch y hy
    rw [comparePos_neg_iff]
    simp only [Frame.pos] at hle ⊢
    omega

/-- **What the log becomes** when the group is in it. -/
theorem Good.target (h : Good o I m b gens) (hg : m.mem.group = some g) :
    ∃ t : Target, t.log = b.log ++ g.frames ∧ b.Grows g.frames t.log t.whole t.part ∧
      (groupCore m.mem g).Sub t.part ∧ Tier (groupCore m.mem g) t.whole (coldAll gens) ∧
      (o.env.Calm → t.part = groupCore m.mem g) := by
  have hok := h.group g hg
  have hlive := h.live
  have hspec : ∀ f ∈ g.frames, ∀ id, f.begins = some id → b.spec.records id = none := by
    intro f hf id hb
    rw [hlive.tier.records, hok.steps.begins_fresh hok.sound hf hb, hok.fresh f hf id hb]
    rfl
  have hrecovered : ∀ f ∈ g.frames, ∀ id, f.begins = some id → b.recovered.records id = none := by
    intro f hf id hb
    have hnone := hspec f hf id hb
    rw [h.holds.tier.records] at hnone
    exact (Option.or_eq_none_iff.mp hnone).1
  have hafter : ∀ f ∈ g.frames, isAfter b.man.checkpoint f := by
    intro f hf
    have hle := comparePos_nonpos_iff.mp hlive.checkpoint
    have hlt := (hok.next f hf).1
    have he := hok.epoch f hf
    rw [isAfter, decide_eq_true_iff, comparePos_swap]
    have hneg := comparePos_neg_iff.mpr (show b.man.checkpoint.epoch < f.pos.epoch ∨
      b.man.checkpoint.epoch = f.pos.epoch ∧ b.man.checkpoint.seq < f.pos.seq by
        simp only [Frame.pos] at hle ⊢
        omega)
    omega
  obtain ⟨part, hpart, hsub⟩ := hlive.sub.steps hrecovered hok.steps
  obtain ⟨whole, hwhole, hgrow⟩ := h.holds.growsNew (hok.sorted hlive h.holds.logOk.sorted) hok.txns
    hok.plain hok.sound hafter
    (fun f hf => by rw [hok.epoch f hf, hlive.atEnd.epoch]) hpart hspec
  obtain ⟨whole', hwhole', htier⟩ := hlive.tier.steps hok.fresh hok.steps
  cases hwhole.unique hwhole'
  refine ⟨⟨b.log ++ g.frames, whole, part⟩, rfl, hgrow, hsub, htier, fun hc => ?_⟩
  have hsteps := hok.steps
  rw [(hlive.synced hc).1] at hsteps
  exact hpart.unique hsteps

theorem SegmentsOnly.groupCore {s s' : State} (h : SegmentsOnly s s') (g : Group) :
    groupCore s' g = groupCore s g := by
  obtain ⟨seg, segments, rfl⟩ := h
  rfl

theorem SegmentsOnly.actions {s s' : State} (h : SegmentsOnly s s') : s'.actions = s.actions := by
  obtain ⟨seg, segments, rfl⟩ := h
  rfl

theorem SegmentsOnly.pending {s s' : State} (h : SegmentsOnly s s') : s'.pending = s.pending := by
  obtain ⟨seg, segments, rfl⟩ := h
  rfl

/-- A receipt of a member is a receipt of its frame. -/
theorem receiptOf_member {ms : List Member} {fs log : List Frame} (h : List.Forall₂ MemberOf ms fs)
    (hf : ∀ f ∈ fs, f ∈ log) {x : Member} (hx : x ∈ ms) :
    ReceiptOf log x.txn ⟨x.pos, x.kind, x.id, .open⟩ := by
  induction h with
  | nil => cases hx
  | @cons x' f ms fs hm _ ih =>
    rcases List.mem_cons.mp hx with rfl | hx
    · exact ⟨f, hf f List.mem_cons_self, hm.txn.symm, hm.pos, hm.kind, hm.id⟩
    · exact ih (fun g hg => hf g (List.mem_cons_of_mem _ hg)) hx

/-- **The owner serves on** when the group is on the disk and merged. -/
theorem Good.merged {t : Target} (h : Good o I m b gens) (hg : m.mem.group = some g)
    (hne : g.frames ≠ []) (hlog : t.log = b.log ++ g.frames) (hsub : (groupCore m.mem g).Sub t.part)
    (htier : Tier (groupCore m.mem g) t.whole (coldAll gens))
    (hcalm : o.env.Calm → t.part = groupCore m.mem g)
    (hm : SegmentsOnly { m.mem with group := none } m'.mem) (hsent : m'.sent = m.sent)
    (hk : KeepsOurs m.disk m'.disk) (hh : Holds o m'.disk b') (ha : Arrived b t b')
    (he : AtEnd m'.mem b') :
    Good o I { m' with mem := Ledger.merged g m'.mem } b' gens ∧
      (Ledger.merged g m'.mem).group = none := by
  have hok := h.group g hg
  have hlive := h.live
  have hcore : coreOf (Ledger.merged g m'.mem) = groupCore m.mem g := by
    rw [coreOf_merged, hm.groupCore]
    rfl
  have hact : m'.mem.actions = m.mem.actions ∧ m'.mem.pending = m.mem.pending ∧
      m'.mem.receipts = m.mem.receipts ∧ m'.mem.epoch = m.mem.epoch ∧
      m'.mem.seqNext = m.mem.seqNext ∧ m'.mem.cold = m.mem.cold ∧
      m'.mem.receiptCkpts = m.mem.receiptCkpts ∧ m'.mem.manifest = m.mem.manifest ∧
      m'.mem.state = m.mem.state ∧ m'.mem.group = none := by
    obtain ⟨seg, segments, hm⟩ := hm
    rw [hm]
    exact ⟨rfl, rfl, rfl, rfl, rfl, rfl, rfl, rfl, rfl, rfl⟩
  obtain ⟨e1, e2, e3, e4, e5, e6, e7, e8, e9, e10⟩ := hact
  obtain ⟨hkeep, hseq, hka, hkp, hrec⟩ := merged_spec (g := g) (s := m'.mem)
    (by rw [e1]; exact hlive.actions) (by rw [e2]; exact hlive.pending)
  obtain ⟨f₀, hf₀⟩ := List.exists_mem_of_ne_nil _ hne
  have hgrew : b.Grew b' := ⟨ha.base, by rw [ha.log, hlog]; exact List.prefix_append _ _⟩
  have hmono : ∀ f ∈ b.log, f ∈ b'.log := fun f hf => hgrew.log.subset hf
  have hkept := hlive.kept hk
  refine ⟨⟨hkeep.state.trans (e9.trans h.state), hh, ?_, ?_, ?_, ?_, ?_⟩, hkeep.group.trans e10⟩
  · refine ⟨⟨⟨?_, ?_⟩, ?_⟩, ?_, ?_, ?_, ?_, hkept.ascending, ?_, ?_, hka, hkp, ?_, ?_, hkept.counted,
      ?_, ?_⟩
    · rw [hkeep.epoch]
      exact he.epoch
    · rw [hkeep.epoch, hkeep.segments]
      exact he.segments
    · rw [hkeep.seg, hkeep.epoch]
      exact he.seg
    · have hle := comparePos_nonpos_iff.mp hlive.checkpoint
      have hlt := hok.next f₀ hf₀
      rw [ha.man, hkeep.epoch, hseq, e4, comparePos_nonpos_iff]
      simp only at hle ⊢
      omega
    · rw [hseq, hkeep.seqNext, e5]
      exact hok.last hne
    · rw [ha.log, hlog, hkeep.epoch, hseq, e4]
      intro f hf
      rw [comparePos_nonpos_iff]
      rcases List.mem_append.mp hf with hf | hf
      · have hle := comparePos_nonpos_iff.mp (hlive.log f hf)
        have hlt := hok.next f₀ hf₀
        simp only at hle ⊢
        omega
      · exact .inr ⟨hok.epoch f hf, (hok.next f hf).2⟩
    · rw [hkeep.cold, e6]
      exact hkept.cold
    · rw [hcore, ha.spec]
      exact htier
    · rw [hcore, ha.recovered]
      exact hsub
    · intro k r hr
      rcases hrec k r hr with hr | ⟨x, hx, rfl, rfl⟩
      · rw [e3] at hr
        exact (hlive.receipts k r hr).mono hmono
      · refine receiptOf_member hok.members (fun f hf => ?_) hx
        rw [ha.log, hlog]
        exact List.mem_append_right _ hf
    · rw [hkeep.receiptCkpts, e7]
      intro n hn
      obtain ⟨h1, h2, l, hl, hr⟩ := hkept.saved n hn
      exact ⟨h1, h2, l, hl, fun e he => (hr e he).mono hmono⟩
    · rw [hkeep.manifest, e8]
      exact hlive.lastCheckpoint
    · intro hc
      rw [hcore, ha.recovered, ha.snap]
      exact ⟨(hcalm hc).symm, (hlive.synced hc).2⟩
  · intro g' hg'
    rw [hkeep.group, e10] at hg'
    cases hg'
  · intro hc
    refine ⟨?_, fun g' hg' => ?_⟩
    · rw [hcore]
      exact (h.inv hc).2 g hg
    · rw [hkeep.group, e10] at hg'
      cases hg'
  · have hknown := h.known
    rw [openFrames, hg] at hknown
    rw [openFrames, hkeep.group, e10, ha.log, hlog]
    simpa using hknown
  · rw [hsent]
    exact fun x hx => (h.sent x hx).mono hgrew

/-! ## Acknowledging the group -/

theorem wp_postAll (ps : List Post) {Q : Ensures State Post Unit} :
    wp (postAll ps) Q m = Q.done () { m with sent := m.sent ++ ps.map fun p => (p, m.disk) } := by
  induction ps generalizing m with
  | nil =>
    rw [List.map_nil, List.append_nil]
    rfl
  | cons p ps ih =>
    rw [postAll, wp_bind, wp_post]
    dsimp only
    rw [ih, List.append_assoc]
    rfl

theorem Good.postAll (ps : List Post) (h : Good o I m b gens)
    (hp : ∀ p ∈ ps, PostOk o b (p, m.disk)) :
    Good o I { m with sent := m.sent ++ ps.map fun p => (p, m.disk) } b gens :=
  { h with
    sent := fun x hx => by
      rcases List.mem_append.mp hx with hx | hx
      · exact h.sent x hx
      · obtain ⟨p, hpm, rfl⟩ := List.mem_map.mp hx
        exact hp p hpm }

/-- The acknowledgement of a member rests on the log that has its frame. -/
theorem postOk_memberAck {fs : FS} {x : Member} (hh : Holds o fs b)
    (hx : ReceiptOf b.log x.txn ⟨x.pos, x.kind, x.id, .open⟩) :
    PostOk o b (.ack (memberAck x), fs) where
  committed a ha _ := by
    cases ha
    obtain ⟨f, hf, htxn, -⟩ := hx
    exact ⟨b, hh, .refl b, f, hf, htxn⟩

theorem idle_noopAck {epoch : Nat} {basis : Text} {n : PendingNoop} (hn : n.result ≠ "committed") :
    Idle.Post (.ack (noopAck epoch basis n)) := by
  intro a ha
  cases ha
  exact hn

/-- Only the segments changed, and the log is as it was. -/
theorem Good.resegment {segs : List SegView} (h : Good o I m b gens)
    (hm : SegmentsOnly m.mem m'.mem) (hsent : m'.sent = m.sent) (hk : KeepsOurs m.disk m'.disk)
    (hh : Holds o m'.disk { b with segs := segs }) (he : AtEnd m'.mem { b with segs := segs }) :
    Good o I m' { b with segs := segs } gens := by
  obtain ⟨mem, disk, tick, sent⟩ := m'
  obtain ⟨seg, segments, rfl⟩ := hm
  subst hsent
  have hkept := h.live.kept hk
  exact ⟨h.state, hh, { hkept with atEnd := he }, fun g hg => { h.group g hg with }, h.inv, h.known,
    fun x hx => (h.sent x hx).mono ⟨rfl, List.prefix_refl _⟩⟩

theorem beside_trimIfMany (m : Machine State Post) : Beside m { m with mem := trimIfMany m.mem } := by
  refine ⟨⟨m.mem.allocHot, m.mem.allocCold, (trimIfMany m.mem).receipts, ?_, ?_⟩, .refl _, rfl⟩
  · unfold trimIfMany
    split
    · intro k x hx
      change (OrdMap.filter m.mem.receipts _).get? k = some x at hx
      rw [OrdMap.get?_filter] at hx
      exact ⟨x, Option.eq_some_of_filter_eq_some hx, rfl⟩
    · exact .refl _
  · unfold trimIfMany
    split <;> rfl

/-! ## What may follow a commit -/

/-- The book of the same store with the same log. -/
structure SameTale (b b' : Book) : Prop where
  base : b'.base = b.base
  log : b'.log = b.log

theorem SameTale.refl (b : Book) : SameTale b b := ⟨rfl, rfl⟩

theorem SameTale.trans {b b' b'' : Book} (h : SameTale b b') (h' : SameTale b' b'') :
    SameTale b b'' := ⟨h'.base.trans h.base, h'.log.trans h.log⟩

theorem SameTale.grew (h : SameTale b b') : b.Grew b' := ⟨h.base, h.log ▸ List.prefix_refl _⟩

theorem SameLog.tale (h : SameLog b b') : SameTale b b' := ⟨h.base, h.log⟩

/-- **The checkpoint that may be due** after a commit. -/
theorem wp_compactIfDue {Q : Ensures State Post Unit} (hs : o.env.NoShort) (hI : Downward I)
    (h : Good o I m b gens) (hg : m.mem.group = none)
    (hd : ∀ m' b' gens', SameTale b b' → Good o I m' b' gens' → Level m.mem m'.mem → Q.done () m')
    (hc : ∀ m' b', Rest o I b m' b' → Q.crashed m') : wp (compactIfDue o) Q m := by
  unfold compactIfDue
  rw [wp_bind, wp_get]
  dsimp only
  split
  · simp only [wp_catching, wp_bind, wp_pure, wp_post]
    refine wp_checkpointBody hs hI h (fun g hgr => by rw [hg] at hgr; cases hgr) ?_ ?_ hc
    · intro _ m' b' gens' hsame hgood _ hlevel
      exact hd m' b' gens' hsame.tale hgood hlevel
    · intro e m' b' gens' hsame hgood hlevel
      exact hd _ b' gens' hsame.tale (hgood.post (.of_idle nofun)) hlevel
  · exact hd m b gens (.refl b) h (.refl _)

theorem SegmentsOnly.level {s s' : State} (h : SegmentsOnly s s') : Level s s' := by
  obtain ⟨seg, segments, rfl⟩ := h
  exact ⟨rfl, rfl⟩

/-- **The roll of the segment** that may be due after a commit. -/
theorem wp_rollIfFull {Q : Ensures State Post Unit} (hs : o.env.NoShort) (h : Good o I m b gens)
    (hd : ∀ m' b' gens', SameTale b b' → Good o I m' b' gens' → Level m.mem m'.mem → Q.done () m')
    (hc : ∀ m' b', Rest o I b m' b' → Q.crashed m') : wp (rollIfFull o) Q m := by
  have hend : ∀ m' segs, m'.sent = m.sent → SegmentsOnly m.mem m'.mem →
      Holds o m'.disk { b with segs := segs } → AtEnd m'.mem { b with segs := segs } →
      KeepsOurs m.disk m'.disk → Q.done () m' := by
    intro m' segs hsent hsegs hh hend hk
    exact hd m' { b with segs := segs } gens ⟨rfl, rfl⟩ (h.resegment hsegs hsent hk hh hend) hsegs.level
  unfold rollIfFull
  rw [wp_bind, wp_get]
  dsimp only
  split
  · rw [wp_catching]
    refine wp_of_keeps (keepsDisk_rollSegment o) ?_
    refine wp_rollSegment hs h.holds h.live.atEnd.toCovers ?_ ?_ ?_
    · intro m' segs hsent hsegs _ hh he _ hk
      exact hend m' segs hsent hsegs hh he hk
    · intro e m' segs _ hsent hsegs _ hh he hk
      exact hend m' segs hsent hsegs hh he hk
    · intro m' segs hsent _ hh _
      exact hc m' { b with segs := segs } ⟨⟨rfl, List.prefix_refl _⟩, hh, h.rest.inv, h.rest.known, by
        rw [hsent]
        exact fun x hx => (h.sent x hx).mono ⟨rfl, List.prefix_refl _⟩⟩
  · exact hd m b gens (.refl b) h (.refl _)

/-- **A commit** acknowledges the members of a group that is in the log. -/
theorem wp_commitGroup {Q : Ensures State Post Unit} (hs : o.env.NoShort) (hI : Downward I)
    (h : Good o I { m with mem := Ledger.merged g m.mem } b gens)
    (hg : (Ledger.merged g m.mem).group = none)
    (hm : ∀ x ∈ g.members, ReceiptOf b.log x.txn ⟨x.pos, x.kind, x.id, .open⟩)
    (hn : ∀ n ∈ g.noops, n.result ≠ "committed")
    (hd : ∀ m' b' gens', SameTale b b' → Good o I m' b' gens' →
      Level (Ledger.merged g m.mem) m'.mem → Q.done () m')
    (hc : ∀ m' b', Rest o I b m' b' → Q.crashed m') : wp (commitGroup o g) Q m := by
  unfold commitGroup
  simp only [wp_bind, wp_modify, wp_get, wp_postAll]
  have h₁ := h.postAll (g.members.map fun x => .ack (memberAck x)) (by
    intro p hp
    obtain ⟨x, hx, rfl⟩ := List.mem_map.mp hp
    exact postOk_memberAck h.holds (hm x hx))
  have h₂ := h₁.postAll
    (g.noops.map fun n => .ack (noopAck (Ledger.merged g m.mem).epoch "pending" n)) (by
      intro p hp
      obtain ⟨n, hnm, rfl⟩ := List.mem_map.mp hp
      exact .of_idle (idle_noopAck (hn n hnm)))
  have h₃ := h₂.beside (beside_trimIfMany _)
  have hlevel₃ : Level (Ledger.merged g m.mem) (trimIfMany (Ledger.merged g m.mem)) :=
    Level.of_beside (beside_trimIfMany { m with mem := Ledger.merged g m.mem })
  refine wp_compactIfDue hs hI h₃ (hlevel₃.group.trans hg) ?_ hc
  intro m₄ b₄ gens₄ hsame₄ hgood₄ hlevel₄
  refine wp_rollIfFull hs hgood₄ ?_ fun m' b' hrest => hc m' b' (hrest.from hsame₄.grew)
  intro m₅ b₅ gens₅ hsame₅ hgood₅ hlevel₅
  exact hd m₅ b₅ gens₅ (hsame₄.trans hsame₅) hgood₅ ((hlevel₃.trans hlevel₄).trans hlevel₅)

/-! ## The flush -/

/-- The owner serves on without its open group. -/
theorem Good.letGo (h : Good o I m b gens) :
    Good o I { m with mem := { m.mem with group := none } } b gens where
  state := h.state
  holds := h.holds
  live := { h.live with atEnd := ⟨⟨h.live.atEnd.epoch, h.live.atEnd.segments⟩, h.live.atEnd.seg⟩ }
  group := nofun
  inv hc := ⟨(h.inv hc).1, nofun⟩
  known f hf := h.known f (List.mem_append_left _ (by
    rw [show openFrames { m.mem with group := none } = [] from rfl, List.append_nil] at hf
    exact hf))
  sent := h.sent

/-- What is left while the group is being written: a recovery comes to the memory, or to the memory
under the group. -/
theorem Good.toward {t : Target} {lg : LogGroup} (h : Good o I m b gens)
    (hg : m.mem.group = some g) (hlog : t.log = b.log ++ g.frames)
    (hcalm : o.env.Calm → t.part = groupCore m.mem g) (hsent : m'.sent = m.sent)
    (hh : Holds o m'.disk b') (ht : Toward b lg t b') : Rest o I b m' b' := by
  have hgrew : b.Grew b' := by
    refine ⟨ht.base, ?_⟩
    rcases ht.either with ⟨hl, -, -⟩ | ⟨hl, -, -⟩
    · rw [hl]
    · rw [hl, hlog]
      exact List.prefix_append _ _
  have hknown := h.known
  rw [openFrames, hg] at hknown
  refine ⟨hgrew, hh, fun hc => ?_, fun f hf => hknown f ?_, ?_⟩
  · rcases ht.either with ⟨-, -, hr⟩ | ⟨-, -, hr⟩
    · rw [hr, ← (h.live.synced hc).1]
      exact (h.inv hc).1
    · rw [hr, hcalm hc]
      exact (h.inv hc).2 g hg
  · rcases ht.either with ⟨hl, -, -⟩ | ⟨hl, -, -⟩
    · exact List.mem_append_left _ (hl ▸ hf)
    · rw [hl, hlog] at hf
      exact hf
  · rw [hsent]
    exact fun x hx => (h.sent x hx).mono hgrew

/-- **A group that is given up** is neither acknowledged nor merged, and the owner stops serving. -/
theorem wp_abandonGroup {e : Failure} {Q : Ensures State Post Unit} (h : Rest o I b m b')
    (hg : m.mem.group = none)
    (hd : ∀ m', Rest o I b m' b' → m'.mem.state ≠ .available → m'.mem.group = none → Q.done () m') :
    wp (abandonGroup g e) Q m := by
  unfold abandonGroup postState
  simp only [wp_bind, wp_modify, wp_get, wp_post]
  refine hd _ ⟨h.grew, h.holds, h.inv, h.known, fun x hx => ?_⟩ (fun hs => by cases hs) hg
  rcases List.mem_append.mp hx with hx | hx
  · rcases List.mem_append.mp hx with hx | hx
    · exact h.sent x hx
    · rw [List.mem_singleton.mp hx]
      exact .of_idle (fun a ha => by cases ha)
  · rw [List.mem_singleton.mp hx]
    exact .of_idle (fun a ha => by cases ha)

/-- **A flush**: the group is in the log and acknowledged, or the owner stops serving. -/
theorem wp_flushGroup {Q : Ensures State Post Unit} (hs : o.env.NoShort) (hI : Downward I)
    (h : Good o I m b gens)
    (hd : ∀ m' b' gens', b'.base = b.base → b'.log = b.log ++ openFrames m.mem →
      Good o I m' b' gens' → Level { m.mem with group := none } m'.mem → Q.done () m')
    (hp : ∀ m' b', ¬ o.env.Calm → Rest o I b m' b' → m'.mem.state ≠ .available →
      m'.mem.group = none → Q.done () m')
    (hc : ∀ m' b', Rest o I b m' b' → Q.crashed m') : wp (flushGroup o) Q m := by
  unfold flushGroup
  simp only [wp_bind, wp_get, wp_modify]
  have h₀ := h.letGo
  cases hg : m.mem.group with
  | none =>
    refine hd _ b gens rfl ?_ h₀ (.refl _)
    rw [openFrames, hg]
    exact (List.append_nil _).symm
  | some g =>
    have hok := h.group g hg
    have hopen : openFrames m.mem = g.frames := by
      rw [openFrames, hg]
      rfl
    dsimp only
    split
    · next hnil =>
      rw [wp_postAll]
      refine hd _ b gens rfl (by rw [hopen, hnil, List.append_nil]) (h₀.postAll _ fun p hp => ?_) (.refl _)
      obtain ⟨n, hn, rfl⟩ := List.mem_map.mp hp
      exact .of_idle (idle_noopAck (hok.noops n hn))
    · next hne =>
      obtain ⟨t, hlog, hgrow, hsub, htier, hcalm⟩ := h.target hg
      let lg : LogGroup := ⟨g.frames, ⟨m.mem.epoch, g.seqFrom.getD 0, g.seqTo, g.frames.length⟩⟩
      have hlg : lg.Ok := ⟨rfl, hok.sound⟩
      rw [wp_bind]
      refine wp_of_keeps (keepsDisk_writeGroup o _) ?_
      refine wp_writeGroup (g := lg) hs h₀.holds h₀.live.atEnd hgrow hlg ?_ ?_ ?_ ?_
      · intro f hf
        rw [hlog]
        exact List.mem_append_right _ hf
      · intro m₁ b₁ hsent hsegs hh harr hend hk
        obtain ⟨hgood, hnone⟩ := h.merged hg hne hlog hsub htier hcalm hsegs hsent hk hh harr hend
        have hmerged : Level m₁.mem (Ledger.merged g m₁.mem) := by
          have hkeep := (merged_spec (g := g) (s := m₁.mem) (hsegs.actions ▸ h.live.actions)
            (hsegs.pending ▸ h.live.pending)).1
          exact ⟨hkeep.group, by rw [offlineCold, hkeep.cold]; rfl⟩
        have hmem : ∀ f ∈ g.frames, f ∈ b₁.log := fun f hf => by
          rw [harr.log, hlog]
          exact List.mem_append_right _ hf
        have hgrew : b.Grew b₁ := ⟨harr.base, by rw [harr.log, hlog]; exact List.prefix_append _ _⟩
        refine wp_commitGroup hs hI hgood hnone (fun x hx => receiptOf_member hok.members hmem hx)
          hok.noops ?_ fun m' b' hrest => hc m' b' (hrest.from hgrew)
        intro m₂ b₂ gens₂ hsame hgood₂ hlevel₂
        refine hd m₂ b₂ gens₂ (hsame.base.trans harr.base) ?_ hgood₂
          (hsegs.level.trans (hmerged.trans hlevel₂))
        rw [hsame.log, harr.log, hlog, hopen]
      · intro e m₁ b₁ hn hsent hsegs hh ht _ _
        have hrest : Rest o I b m₁ b₁ := h.toward hg hlog hcalm hsent hh ht
        exact wp_abandonGroup hrest hsegs.level.group fun m' => hp m' b₁ hn
      · intro m₁ b₁ hsent hh ht _
        exact hc m₁ b₁ (h.toward hg hlog hcalm hsent hh ht)

end

end Telepty.Ledger
