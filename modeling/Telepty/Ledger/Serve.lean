import Telepty.Ledger.Commit
import Telepty.Ledger.Owner

/-!
# Serving the client

Every message leaves an owner that serves with the invariant, or parked, and when the process dies
in one the disk holds a book of the store. A submission has to keep to three things that the owner
does not check itself: its transaction is a new one, the text of its transaction is not that of a
position, and a `begin` names no record of an offline generation (`Fair`).
-/

namespace Telepty.Ledger

open Infra Prog

section

variable {o : Options} {I : Regime} {m m' : Machine State Post} {b b' : Book} {gens : List Gen}
  {g g' : Group} {s : State} {msg : Submit} {f : Frame}

/-! ## The open group -/

/-- A frame changes what the group shows, and nothing else of it. -/
structure SameGroup (g g' : Group) : Prop where
  frames : g'.frames = g.frames
  members : g'.members = g.members
  noops : g'.noops = g.noops

theorem sameGroup_applyFrame {hot : HotSet} {e : List Effect}
    (h : applyFrame (groupCtx hot) f g = .ok (g', e)) : SameGroup g g' :=
  CtxKeeps.applyFrame (R := SameGroup) ⟨fun _ => ⟨rfl, rfl, rfl⟩,
    fun _ _ _ h h' => ⟨h'.frames.trans h.frames, h'.members.trans h.members,
      h'.noops.trans h.noops⟩,
    fun _ _ _ => ⟨rfl, rfl, rfl⟩, fun _ _ => ⟨rfl, rfl, rfl⟩⟩ (fun _ _ _ => ⟨rfl, rfl, rfl⟩) h

theorem GroupOk.new (hl : (b.log.map Frame.txn).Nodup) : GroupOk s (newGroup s) gens b.log where
  steps := rfl
  sound := nofun
  plain := nofun
  epoch := nofun
  seqs := .nil
  next := nofun
  last h := absurd rfl h
  txns := by rwa [show (newGroup s).frames = [] from rfl, List.append_nil]
  fresh := nofun
  members := .nil
  blank _ := ⟨rfl, rfl, rfl⟩
  noops := nofun

/-- The group that a submission goes to. -/
def groupOr (s : State) : Group := s.group.getD (newGroup s)

theorem openFrames_groupOr (s : State) : (groupOr s).frames = openFrames s := by
  unfold groupOr openFrames
  cases s.group <;> rfl

theorem Good.groupOk (h : Good o I m b gens) : GroupOk m.mem (groupOr m.mem) gens b.log := by
  unfold groupOr
  cases hg : m.mem.group with
  | none => exact .new h.holds.logOk.txns
  | some g => exact h.group g hg

/-- The memory under the group that a submission goes to has the property. -/
theorem Good.core_groupOr (h : Good o I m b gens) (hc : o.env.Calm) :
    I.core (groupCore m.mem (groupOr m.mem)) := by
  unfold groupOr
  cases hg : m.mem.group with
  | none => exact (h.inv hc).1
  | some g => exact (h.inv hc).2 g hg

/-- Another group is open. -/
theorem Good.regroup {s : State} (h : Good o I m b gens) (hs : ∃ n, m.mem.seqNext ≤ n ∧
      s = { m.mem with seqNext := n, group := some g })
    (hg : GroupOk s g gens b.log) (hc : o.env.Calm → I.core (groupCore m.mem g))
    (hk : ∀ f ∈ g.frames, I.txn f.txn) : Good o I { m with mem := s } b gens := by
  obtain ⟨n, hn, rfl⟩ := hs
  have hlive := h.live
  refine ⟨h.state, h.holds, { hlive with
    atEnd := ⟨⟨hlive.atEnd.epoch, hlive.atEnd.segments⟩, hlive.atEnd.seg⟩
    seqs := Nat.lt_of_lt_of_le hlive.seqs hn }, ?_, fun hcalm => ⟨(h.inv hcalm).1, ?_⟩, ?_, h.sent⟩
  · intro g' hg'
    cases hg'
    exact hg
  · intro g' hg'
    cases hg'
    exact hc hcalm
  · intro f hf
    rcases List.mem_append.mp hf with hf | hf
    · exact h.known f (List.mem_append_left _ hf)
    · exact hk f hf

theorem Good.known_groupOr (h : Good o I m b gens) : ∀ f ∈ (groupOr m.mem).frames, I.txn f.txn :=
  fun f hf => h.known f (List.mem_append_right _ (openFrames_groupOr m.mem ▸ hf))

/-- **The group that a submission goes to is open.** -/
theorem Good.withGroup (h : Good o I m b gens) :
    Good o I { m with mem := { m.mem with group := some (groupOr m.mem) } } b gens :=
  h.regroup ⟨m.mem.seqNext, Nat.le_refl _, rfl⟩ { h.groupOk with } h.core_groupOr h.known_groupOr

/-! ## One more frame -/

theorem coldOfflineHas_congr {s s' : State} (h : offlineCold s' = offlineCold s) (id : Text) :
    coldOfflineHas o s' id = coldOfflineHas o s id := by
  have hany : ∀ t : State, coldOfflineHas o t id = (offlineCold t).any fun c =>
      (findIndexEntry c.idIdx (o.digests.keyPrefix id)).isSome := fun t => by
    rw [coldOfflineHas, offlineCold, List.any_filter]
  rw [hany, hany, h]

/-- The frame of a submission would keep the property. -/
def Room (o : Options) (I : Regime) (s : State) (g : Group) (msg : Submit) : Prop :=
  ∀ fs f g' e, Framed o fs s g msg f.body → applyFrame (groupCtx s.hot) f g = .ok (g', e) →
    I.core (groupCore s g')

/-- What a submission keeps to that the owner does not check. -/
structure Fair (o : Options) (I : Regime) (s : State) (log : List Frame) (msg : Submit) : Prop where
  plain : ':' ∉ msg.txn
  named : I.txn msg.txn
  new : s.receipts.get? msg.txn = none → ∀ f ∈ log ++ openFrames s, f.txn ≠ msg.txn
  offline : msg.kind = "begin" → coldOfflineHas o s msg.id = false
  room : o.env.Calm → Room o I s (groupOr s) msg
  /-- also when the open group had to go first -/
  later : o.env.Calm → ∀ t : State, Room o I t (newGroup t) msg

/-- **A frame joins the open group.** -/
theorem GroupOk.addFrame {e : List Effect} (size : Nat) (hash : Text)
    (hok : GroupOk m.mem g gens b.log) (hlive : Live o m.mem m.disk b gens)
    (hf : f = ⟨m.mem.epoch, m.mem.seqNext, msg.txn, f.body⟩)
    (hframed : Framed o m.disk m.mem g msg f.body)
    (ha : applyFrame (groupCtx m.mem.hot) f g = .ok (g', e))
    (htxn : msg.txn ≠ [] ∧ ':' ∉ msg.txn) (hnew : ∀ x ∈ b.log ++ g.frames, x.txn ≠ msg.txn)
    (hoff : msg.kind = "begin" → coldOfflineHas o m.mem msg.id = false) :
    GroupOk { m.mem with seqNext := m.mem.seqNext + 1, group := some (addFrame msg f size hash g' e) }
      (addFrame msg f size hash g' e) gens b.log := by
  have hsame := sameGroup_applyFrame ha
  have hframes : (Ledger.addFrame msg f size hash g' e).frames = g.frames ++ [f] :=
    congrArg (· ++ [f]) hsame.frames
  have hepoch : f.epoch = m.mem.epoch := by rw [hf]
  have hseq : f.seq = m.mem.seqNext := by rw [hf]
  have hftxn : f.txn = msg.txn := by rw [hf]
  have hbound : ∀ x ∈ g.frames, x.seq < m.mem.seqNext := fun x hx =>
    Nat.lt_of_le_of_lt (hok.next x hx).2 (hok.last (List.ne_nil_of_mem hx))
  -- what holds of the frames before and of the new one holds of all
  have hall : ∀ {P : Frame → Prop}, (∀ x ∈ g.frames, P x) → P f →
      ∀ x ∈ (Ledger.addFrame msg f size hash g' e).frames, P x := by
    intro P h h' x hx
    rw [hframes] at hx
    rcases List.mem_append.mp hx with hx | hx
    · exact h x hx
    · rw [List.mem_singleton.mp hx]
      exact h'
  refine ⟨?_, hall hok.sound hframed.sound, hall hok.plain (by rw [hftxn]; exact htxn),
    hall hok.epoch hepoch, ?_, ?_, ?_, ?_, ?_, ?_, ?_, ?_⟩
  · rw [hframes]
    show Core.Steps _ (coreOf m.mem) (groupCore m.mem g')
    exact Core.steps_concat hok.steps (hframed.step ha)
  · rw [hframes, List.pairwise_append]
    refine ⟨hok.seqs, List.pairwise_singleton _ _, fun x hx y hy => ?_⟩
    rw [List.mem_singleton.mp hy, hseq]
    exact hbound x hx
  · refine hall (fun x hx => ⟨(hok.next x hx).1, ?_⟩) ⟨?_, Nat.le_refl _⟩
    · show x.seq ≤ f.seq
      rw [hseq]
      exact Nat.le_of_lt (hbound x hx)
    · show m.mem.seqCommitted < f.seq
      rw [hseq]
      exact hlive.seqs
  · intro _
    show f.seq < m.mem.seqNext + 1
    rw [hseq]
    exact Nat.lt_succ_self _
  · rw [hframes, ← List.append_assoc, List.map_append, List.nodup_append]
    refine ⟨hok.txns, by simp, fun t ht t' ht' he => ?_⟩
    obtain ⟨x, hx, rfl⟩ := List.mem_map.mp ht
    rw [List.map_singleton, List.mem_singleton, hftxn] at ht'
    exact hnew x hx (he.trans ht')
  · refine hall hok.fresh fun id hb => ?_
    obtain ⟨-, hcold⟩ := hframed.begins hb
    refine coldAll_of_coldLookup hlive.cold hcold ?_
    unfold Frame.begins at hb
    cases hbody : f.body with
    | begin id' sid record supersede =>
      simp only [hbody, Option.some.injEq] at hb
      subst hb
      rw [hbody] at hframed
      cases hframed with
      | begin kind => exact hoff kind
    | _ => simp only [hbody] at hb; cases hb
  · rw [hframes]
    show List.Forall₂ MemberOf (g'.members ++ _) _
    rw [hsame.members]
    refine List.rel_append hok.members (.cons ⟨hftxn.symm, ?_, rfl, rfl⟩ .nil)
    exact (hframed.kind_eq f.epoch f.seq f.txn).symm
  · intro hnil
    rw [hframes] at hnil
    simp at hnil
  · intro n hn
    exact hok.noops n (hsame.noops ▸ hn)

/-! ## Answers that change nothing -/

/-- A receipt stands for a frame of the log. -/
theorem Good.duplicateAck (h : Good o I m b gens) {txn : Text} {r : Receipt}
    (hr : m.mem.receipts.get? txn = some r) :
    PostOk o b (.ack ⟨txn, some r.pos.seq, r.pos.epoch, "committed", "committed", true, []⟩, m.disk) := by
  refine ⟨fun a ha _ => ?_⟩
  cases ha
  obtain ⟨f, hf, htxn, -⟩ := h.live.receipts txn r hr
  exact ⟨b, h.holds, .refl b, f, hf, htxn⟩

/-- **A submission that changes nothing** is answered now or with the open group. -/
theorem wp_noopVerdict {txn result : Text} {pendingBasis : Bool} {Q : Ensures State Post Unit}
    (h : Good o I m b gens) (hg : m.mem.group = some g) (hr : result ≠ "committed")
    (hd : ∀ m', Good o I m' b gens → (∀ f ∈ openFrames m'.mem, f ∈ openFrames m.mem) →
      offlineCold m'.mem = offlineCold m.mem → Q.done () m') :
    wp (noopVerdict g txn result pendingBasis) Q m := by
  have hok := h.group g hg
  have hopen : openFrames m.mem = g.frames := by rw [openFrames, hg]; rfl
  unfold noopVerdict
  split
  · rw [wp_modify]
    refine hd _ (h.regroup ⟨m.mem.seqNext, Nat.le_refl _, rfl⟩ { hok with noops := ?_ }
      (fun hc => (h.inv hc).2 g hg) fun f hf => h.known f ?_) ?_ rfl
    · intro n hn
      rcases List.mem_append.mp hn with hn | hn
      · exact hok.noops n hn
      · rw [List.mem_singleton.mp hn]
        exact hr
    · exact List.mem_append_right _ (hopen ▸ hf)
    · rw [hopen]
      exact fun f hf => hf
  · simp only [wp_bind, wp_get, wp_post]
    have hidle : Idle.Post (.ack ⟨txn, none, m.mem.epoch, result, "committed", false, []⟩) := by
      intro a ha
      cases ha
      exact hr
    have h' := h.post (.of_idle hidle)
    split
    · rw [wp_modify]
      exact hd _ h'.letGo (fun f hf => absurd hf List.not_mem_nil) rfl
    · exact hd _ h' (fun f hf => hf) rfl

/-! ## A submission -/

theorem idle_nack (txn reason code : Text) : Idle.Post (.nack txn reason code) := nofun

/-- **One pass over a submission.** -/
theorem wp_submitOnce {Q : Ensures State Post Bool} (hs : o.env.NoShort) (hI : Downward I)
    (h : Good o I m b gens) (hfair : Fair o I m.mem b.log msg)
    (hd : ∀ m' b' gens', b.Grew b' → Good o I m' b' gens' → Q.done false m')
    (ht : ∀ m' b' gens', m.mem.receipts.get? msg.txn = none → b'.base = b.base →
      b'.log = b.log ++ openFrames m.mem → Good o I m' b' gens' →
      Level { m.mem with group := none } m'.mem → Q.done true m')
    (hp : ∀ again m' b', ¬ o.env.Calm → Rest o I b m' b' → m'.mem.state ≠ .available →
      m'.mem.group = none → Q.done again m')
    (hc : ∀ m' b', Rest o I b m' b' → Q.crashed m') : wp (submitOnce o msg) Q m := by
  have hnack : ∀ (m' : Machine State Post) (reason code : Text), Good o I m' b gens →
      wp (do
        post (.nack msg.txn reason code)
        return false) Q m' := by
    intro m' reason code h'
    simp only [wp_bind, wp_post, wp_pure]
    exact hd _ b gens (.refl b) (h'.post (.of_idle (idle_nack _ _ _)))
  unfold submitOnce
  rw [wp_bind, wp_get]
  dsimp only
  split
  · exact hnack m _ _ h
  next hshape =>
  split
  · exact hnack m _ _ h
  split
  · next r hr =>
    simp only [wp_bind, wp_post, wp_pure]
    exact hd _ b gens (.refl b) (h.post (h.duplicateAck hr))
  next hreceipt =>
  simp only [wp_bind, wp_modify, wp_disk, wp_now]
  have h₁ := h.withGroup
  have hnew := hfair.new hreceipt
  have hgroup : m.mem.group.getD (newGroup m.mem) = groupOr m.mem := rfl
  rw [hgroup]
  split
  · exact hnack _ _ _ h₁
  · exact hnack _ _ _ h₁
  · next result pendingBasis hj =>
    rw [wp_bind]
    refine wp_noopVerdict h₁ rfl (judge_unchanged hj).result_ne ?_
    intro m' hgood _ _
    exact hd m' b gens (.refl b) hgood
  · next f hj =>
    obtain ⟨hf, hframed⟩ := judge_framed hj
    have hok := h.groupOk
    split
    · exact hnack _ _ _ h₁
    split
    · rw [wp_bind]
      refine wp_flushGroup hs hI h₁ ?_ ?_ hc
      · intro m' b' gens' hbase hlog hgood hlevel
        refine ht m' b' gens' hreceipt hbase ?_ hgood ⟨hlevel.group, hlevel.offline⟩
        rw [hlog, ← openFrames_groupOr m.mem]
        rfl
      · exact fun m' b' => hp true m' b'
    · split
      · exact hnack _ _ _ h₁
      · next g' e ha =>
        rw [wp_bind, wp_modify]
        dsimp only
        have hadd := hok.addFrame (encodeFrame o.digests f.toJson).length
          (o.digests.frameHash f.toJson.stringify) h.live hf hframed ha
          ⟨fun hnil => hshape (.inl hnil), hfair.plain⟩
          (fun x hx => hnew x (by rwa [← openFrames_groupOr])) hfair.offline
        have hgood := h.regroup ⟨m.mem.seqNext + 1, Nat.le_succ _, rfl⟩ hadd
          (fun hcalm => show I.core (groupCore m.mem g') from
            hfair.room hcalm _ _ _ _ hframed ha) (fun x hx => ?_)
        · split
          · rw [wp_bind]
            refine wp_flushGroup hs hI hgood ?_ (fun m' b' => hp false m' b') hc
            intro m' b' gens' hbase hlog hgood' _
            exact hd m' b' gens' ⟨hbase, by rw [hlog]; exact List.prefix_append _ _⟩ hgood'
          · exact hd _ b gens (.refl b) hgood
        · have hframes : (addFrame msg f (encodeFrame o.digests f.toJson).length
              (o.digests.frameHash f.toJson.stringify) g' e).frames = (groupOr m.mem).frames ++ [f] :=
            congrArg (· ++ [f]) (sameGroup_applyFrame ha).frames
          rw [hframes] at hx
          rcases List.mem_append.mp hx with hx | hx
          · exact h.known_groupOr x hx
          · rw [List.mem_singleton.mp hx, hf]
            exact hfair.named

/-- An owner that has given up serving refuses. -/
theorem refusal_of_not_available (h : s.state ≠ .available) : ∃ r, refusal s = some r := by
  unfold refusal
  split
  · exact ⟨_, rfl⟩
  · exact ⟨_, rfl⟩
  · exact ⟨_, rfl⟩
  · next hs => exact absurd hs h
  · exact ⟨_, rfl⟩

/-- **A submission to an owner that has given up serving** is refused. -/
theorem wp_submitOnce_parked {Q : Ensures State Post Bool} (h : m.mem.state ≠ .available)
    (hd : ∀ p, Idle.Post p → Q.done false { m with sent := m.sent ++ [(p, m.disk)] }) :
    wp (submitOnce o msg) Q m := by
  unfold submitOnce
  rw [wp_bind, wp_get]
  dsimp only
  split
  · simp only [wp_bind, wp_post, wp_pure]
    exact hd _ (idle_nack _ _ _)
  · obtain ⟨r, hr⟩ := refusal_of_not_available h
    rw [hr]
    simp only [wp_bind, wp_post, wp_pure]
    exact hd _ (idle_nack _ _ _)

/-- **A submission.** -/
theorem wp_submit {Q : Ensures State Post Unit} (hs : o.env.NoShort) (hI : Downward I)
    (h : Good o I m b gens) (hfair : Fair o I m.mem b.log msg)
    (hd : ∀ m', After o I b m' → Q.done () m') (hc : ∀ m' b', Rest o I b m' b' → Q.crashed m') :
    wp (submit o msg) Q m := by
  unfold submit
  rw [wp_bind]
  refine wp_submitOnce hs hI h hfair ?_ ?_ ?_ hc
  · intro m' b' gens' hgrew hgood
    exact hd m' (.serves hgrew hgood)
  · intro m' b' gens' hreceipt hbase hlog hgood hlevel
    have hgrew : b.Grew b' := ⟨hbase, by rw [hlog]; exact List.prefix_append _ _⟩
    have hgroup : m'.mem.group = none := hlevel.group
    have hfair' : Fair o I m'.mem b'.log msg := by
      refine ⟨hfair.plain, hfair.named, fun _ f hf => ?_, fun hk => ?_, fun hcalm => ?_, hfair.later⟩
      · rw [openFrames, hgroup, hlog] at hf
        exact hfair.new hreceipt f (by simpa using hf)
      · rw [coldOfflineHas_congr hlevel.offline]
        exact hfair.offline hk
      · rw [groupOr, hgroup]
        exact hfair.later hcalm m'.mem
    dsimp only
    rw [if_pos rfl, wp_bind]
    simp only [wp_pure]
    refine wp_submitOnce hs hI hgood hfair' ?_ ?_ ?_ fun m₂ b₂ hrest => hc m₂ b₂ (hrest.from hgrew)
    · intro m₂ b₂ gens₂ hgrew₂ hgood₂
      exact hd m₂ (.serves (hgrew.trans hgrew₂) hgood₂)
    · intro m₂ b₂ gens₂ _ hbase₂ hlog₂ hgood₂ _
      refine hd m₂ (.serves (hgrew.trans ⟨hbase₂, ?_⟩) hgood₂)
      rw [hlog₂]
      exact List.prefix_append _ _
    · intro _ m₂ b₂ _ hrest hstate hnone
      exact hd m₂ (.parked (hrest.from hgrew) hstate hnone)
  · intro again m' b' _ hrest hstate hnone
    cases again with
    | false => exact hd m' (.parked hrest hstate hnone)
    | true =>
      dsimp only
      rw [if_pos rfl, wp_bind]
      refine wp_submitOnce_parked hstate fun p hp => ?_
      exact hd _ (.parked (hrest.post (.of_idle hp)) hstate hnone)

/-! ## The other messages -/

/-- **A read** posts at most one answer. -/
theorem wp_read {req : Text} {op : ReadOp} {Q : Ensures State Post Unit} (h : Q.done () m)
    (hp : ∀ p, Idle.Post p → Q.done () { m with sent := m.sent ++ [(p, m.disk)] }) :
    wp (read o req op) Q m := by
  have hchunk : ∀ (items : List Json) (reason tier : Text),
      wp (post (.readChunk req items reason tier)) Q m := fun _ _ _ => hp _ nofun
  unfold read
  simp only [wp_bind, wp_get, wp_disk]
  split
  · exact h
  split
  · exact hchunk _ _ _
  · exact hchunk _ _ _
  · split
    · split <;> exact hchunk _ _ _
    · split <;> exact hchunk _ _ _
    · exact hchunk _ _ _
    · exact hchunk _ _ _

/-- What the memory is changed to still serves, when only what no invariant reads has changed. -/
theorem Good.aside (h : Good o I m b gens) (closing : Bool) (liveSids : List Text) :
    Good o I { m with mem := { m.mem with closing := closing, liveSids := liveSids } } b gens where
  state := h.state
  holds := h.holds
  live := { h.live with atEnd := ⟨⟨h.live.atEnd.epoch, h.live.atEnd.segments⟩, h.live.atEnd.seg⟩ }
  group g hg := { h.group g hg with }
  inv := h.inv
  known := h.known
  sent := h.sent

/-- **A requested checkpoint**: the open group goes first. -/
theorem wp_checkpoint {reason : Text} {Q : Ensures State Post Json} (hs : o.env.NoShort)
    (hI : Downward I) (h : Good o I m b gens) (hq : o.env.Calm ∨ openFrames m.mem = [])
    (hd : ∀ v m' b' gens', b.Grew b' → Good o I m' b' gens' → Describes o m'.mem m'.disk b' →
      (m.mem.group = none → m'.mem.group = none) → Q.done v m')
    (hr : ∀ e m' b' gens', b.Grew b' → Good o I m' b' gens' →
      (m.mem.group = none → m'.mem.group = none) → Q.raised e m')
    (hc : ∀ m' b', Rest o I b m' b' → Q.crashed m') : wp (checkpoint o reason) Q m := by
  have hbody : ∀ m₁ b₁ gens₁, b.Grew b₁ → Good o I m₁ b₁ gens₁ →
      (∀ g, m₁.mem.group = some g → g.frames = []) → (m.mem.group = none → m₁.mem.group = none) →
      wp (checkpointBody o reason) Q m₁ := by
    intro m₁ b₁ gens₁ hgrew hgood hblank hnone
    refine wp_checkpointBody hs hI hgood hblank ?_ ?_ fun m₂ b₂ hrest => hc m₂ b₂ (hrest.from hgrew)
    · intro v m₂ b₂ gens₂ hsame hgood₂ hdesc hlevel
      exact hd v m₂ b₂ gens₂ (hgrew.trans hsame.grew) hgood₂ hdesc
        fun hg => hlevel.group.trans (hnone hg)
    · intro e m₂ b₂ gens₂ hsame hgood₂ hlevel
      exact hr e m₂ b₂ gens₂ (hgrew.trans hsame.grew) hgood₂ fun hg => hlevel.group.trans (hnone hg)
  unfold checkpoint flushFrames
  simp only [wp_bind, wp_get]
  cases hg : m.mem.group with
  | none => exact hbody m b gens (.refl b) h (fun g hg' => by rw [hg] at hg'; cases hg') fun _ => hg
  | some g =>
    dsimp only
    split
    · next hnil =>
      refine hbody m b gens (.refl b) h (fun g' hg' => ?_) fun hg => hg
      rw [hg] at hg'
      cases hg'
      exact hnil
    · next hne =>
      refine wp_flushGroup hs hI h ?_ ?_ hc
      · intro m₁ b₁ gens₁ hbase hlog hgood hlevel
        refine hbody m₁ b₁ gens₁ ⟨hbase, by rw [hlog]; exact List.prefix_append _ _⟩ hgood
          (fun g' hg' => ?_) fun _ => hlevel.group
        rw [show m₁.mem.group = none from hlevel.group] at hg'
        cases hg'
      · intro m₁ b₁ hn _ _ _
        rcases hq with hcalm | hnil
        · exact absurd hcalm hn
        · rw [openFrames, hg] at hnil
          exact absurd hnil hne

/-- **A request for a checkpoint.** -/
theorem wp_compact {req : Text} {Q : Ensures State Post Unit} (hs : o.env.NoShort) (hI : Downward I)
    (h : Good o I m b gens) (hq : o.env.Calm ∨ openFrames m.mem = [])
    (hd : ∀ m', After o I b m' → Q.done () m') (hc : ∀ m' b', Rest o I b m' b' → Q.crashed m') :
    wp (compact o req) Q m := by
  unfold compact
  simp only [wp_catching, wp_bind, wp_post]
  refine wp_checkpoint hs hI h hq ?_ ?_ hc
  · intro v m' b' gens' hgrew hgood _ _
    exact hd _ (.serves hgrew (hgood.post (.of_idle nofun)))
  · intro e m' b' gens' hgrew hgood _
    exact hd _ (.serves hgrew (hgood.post (.of_idle nofun)))

/-! ## Closing -/

/-- Closing the segment, whatever is known of it, changes no file. -/
theorem wp_closeSegment_rest {Q : Ensures State Post Unit} (hs : o.env.NoShort)
    (hd : ∀ m', m'.disk = m.disk → m'.sent = m.sent → m'.mem.group = m.mem.group → Q.done () m')
    (hc : ∀ m', m'.disk = m.disk → m'.sent = m.sent → Q.crashed m') : wp (closeSegment o) Q m := by
  simp only [closeSegment, wp_bind, wp_get]
  split
  · exact hd m rfl rfl rfl
  · have hend : ∀ (seg : OpenSegment) m', Quiet m m' → Q.done () { m' with mem := { m'.mem with
        segments := markClosed seg.name seg.bytes m'.mem.segments, seg := none } } :=
      fun seg m' hq => hd _ hq.disk hq.sent (show m'.mem.group = m.mem.group by rw [hq.mem])
    simp only [wp_bind, wp_catching, wp_pure, wp_modify]
    exact wp_sys_quiet hs (harmless_close _) (hend _) (fun _ m' hq _ => hend _ m' hq)
      fun m' hq => hc m' hq.disk hq.sent

/-- What a published manifest leaves of a store. -/
theorem Rest.publish {man : Manifest} (h : Rest o I b m b') (hsent : m'.sent = m.sent)
    (hh : Holds o m'.disk (b'.publish man b'.snap b'.recovered)) :
    Rest o I b m' (b'.publish man b'.snap b'.recovered) where
  grew := ⟨h.grew.base, h.grew.log⟩
  holds := hh
  inv := h.inv
  known := h.known
  sent := by
    rw [hsent]
    exact fun x hx => (h.sent x hx).mono ⟨rfl, List.prefix_refl _⟩

/-- The same posts over a disk that holds the same book. -/
theorem Rest.congr (h : Rest o I b m b') (hsent : m'.sent = m.sent) (hh : Holds o m'.disk b') :
    Rest o I b m' b' := ⟨h.grew, hh, h.inv, h.known, by rw [hsent]; exact h.sent⟩

/-- **The last flush and the last checkpoint.** -/
theorem wp_closeBody {Q : Ensures State Post Bool} (hs : o.env.NoShort) (hI : Downward I)
    (h : Good o I m b gens)
    (hd : ∀ v m' b', Rest o I b m' b' → m'.mem.group = none → Q.done v m')
    (hr : ∀ e m' b', Rest o I b m' b' → m'.mem.group = none → Q.raised e m')
    (hc : ∀ m' b', Rest o I b m' b' → Q.crashed m') : wp (closeBody o) Q m := by
  unfold closeBody
  rw [wp_bind, wp_get]
  dsimp only
  rw [if_pos h.state, wp_bind]
  refine wp_flushGroup hs hI h ?_ ?_ hc
  · intro m₁ b₁ gens₁ hbase hlog hgood hlevel
    have hgrew : b.Grew b₁ := ⟨hbase, by rw [hlog]; exact List.prefix_append _ _⟩
    have hnone : m₁.mem.group = none := hlevel.group
    dsimp only
    rw [wp_bind, wp_get]
    dsimp only
    rw [if_pos hgood.state, wp_bind]
    refine wp_checkpoint hs hI hgood (.inr (by rw [openFrames, hnone]; rfl)) ?_ ?_
      fun m₂ b₂ hrest => hc m₂ b₂ (hrest.from hgrew)
    · intro v m₂ b₂ gens₂ hgrew₂ hgood₂ hdesc hg₂
      have hrest₂ : Rest o I b m₂ b₂ := hgood₂.rest.from (hgrew.trans hgrew₂)
      simp only [wp_bind, wp_pure]
      refine wp_writeManifest b₂.snap b₂.recovered hs hgood₂.holds ?_ ?_ ?_ ?_
      · exact fun tok => hdesc.publishes hgood₂.holds (.inl hgood₂.live.atEnd.epoch) tok true
      · intro tok m₃ hmem hsent _ hh
        refine hd true m₃ _ (hrest₂.publish hsent hh) ?_
        rw [hmem]
        exact hg₂ hnone
      · intro tok e m₃ _ hsm _ hh
        have hg₃ : m₃.mem.group = none := by
          rw [hsm.mem]
          exact hg₂ hnone
        rcases hh with hh | hh
        · exact hr e m₃ b₂ (hrest₂.congr hsm.sent hh) hg₃
        · exact hr e m₃ _ (hrest₂.publish hsm.sent hh) hg₃
      · intro tok m₃ hsent hh
        rcases hh with hh | hh
        · exact hc m₃ b₂ (hrest₂.congr hsent hh)
        · exact hc m₃ _ (hrest₂.publish hsent hh)
    · intro e m₂ b₂ gens₂ hgrew₂ hgood₂ hg₂
      exact hr e m₂ b₂ (hgood₂.rest.from (hgrew.trans hgrew₂)) (hg₂ hnone)
  · intro m₁ b₁ _ hrest hstate hnone
    dsimp only
    rw [wp_bind, wp_get]
    dsimp only
    rw [if_neg hstate]
    exact hd false m₁ b₁ hrest hnone

/-- The end of a close. -/
theorem wp_closed {clean : Bool} {Q : Ensures State Post Unit} (hs : o.env.NoShort)
    (h : Rest o I b m b') (hg : m.mem.group = none) (hd : ∀ m', After o I b m' → Q.done () m')
    (hc : ∀ m' b', Rest o I b m' b' → Q.crashed m') :
    wp (do
      let s ← get
      closeSegment o
      postState .closed [] []
      post (.closed clean (s.possiblyDurable.elim 0 fun p => p.txns.length))) Q m := by
  simp only [wp_bind, wp_get]
  refine wp_closeSegment_rest hs ?_ fun m' hdisk hsent =>
    hc m' b' (h.congr hsent (by rw [hdisk]; exact h.holds))
  intro m₁ hdisk hsent hgroup
  have h₁ : Rest o I b m₁ b' := h.congr hsent (by rw [hdisk]; exact h.holds)
  unfold postState
  simp only [wp_bind, wp_modify, wp_get, wp_post]
  refine hd _ (.parked (show Rest o I b _ b' from ⟨h₁.grew, h₁.holds, h₁.inv, h₁.known, ?_⟩) (fun hs => by cases hs)
    (hgroup.trans hg))
  intro x hx
  rcases List.mem_append.mp hx with hx | hx
  · rcases List.mem_append.mp hx with hx | hx
    · exact h₁.sent x hx
    · rw [List.mem_singleton.mp hx]
      exact .of_idle (fun a ha => by cases ha)
  · rw [List.mem_singleton.mp hx]
    exact .of_idle (fun a ha => by cases ha)

/-- **A close.** -/
theorem wp_close {Q : Ensures State Post Unit} (hs : o.env.NoShort) (hI : Downward I)
    (h : Good o I m b gens) (hd : ∀ m', After o I b m' → Q.done () m')
    (hc : ∀ m' b', Rest o I b m' b' → Q.crashed m') : wp (close o) Q m := by
  have h₁ := h.aside true m.mem.liveSids
  unfold close
  rw [wp_bind, wp_modify]
  dsimp only
  rw [wp_bind, wp_catching]
  refine wp_closeBody hs hI h₁ ?_ ?_ hc
  · intro clean m₂ b₂ hrest hg
    exact wp_closed hs hrest hg hd hc
  · intro e m₂ b₂ hrest hg
    have hidle : Idle.Post (.progress "close" e.code) := nofun
    exact wp_closed hs (hrest.post (.of_idle hidle)) hg hd hc

/-- An owner that has given up serving is closed without a write. -/
theorem wp_close_parked {Q : Ensures State Post Unit} (hs : o.env.NoShort) (h : Rest o I b m b')
    (hstate : m.mem.state ≠ .available) (hg : m.mem.group = none)
    (hd : ∀ m', After o I b m' → Q.done () m') (hc : ∀ m' b', Rest o I b m' b' → Q.crashed m') :
    wp (close o) Q m := by
  unfold close
  rw [wp_bind, wp_modify]
  dsimp only
  rw [wp_bind, wp_catching, closeBody, wp_bind, wp_get]
  dsimp only
  rw [if_neg hstate]
  exact wp_closed hs (m := { m with mem := { m.mem with closing := true } })
    ⟨h.grew, h.holds, h.inv, h.known, h.sent⟩ hg hd hc

/-! ## Every message -/

/-- What a message keeps to. -/
def Message.Fair (o : Options) (I : Regime) (s : State) (log : List Frame) : Message → Prop
  | .open _ => False
  | .submit msg => s.state = .available → Ledger.Fair o I s log msg
  | .compact _ => s.state = .available ∧ (o.env.Calm ∨ openFrames s = [])
  | _ => True

/-- **Every message leaves the owner serving, or parked**, and a crash leaves the store. -/
theorem Good.handle {msg : Message} (hs : o.env.NoShort) (hI : Downward I) (h : Good o I m b gens)
    (hfair : msg.Fair o I m.mem b.log) :
    wp (handle o msg)
      ⟨fun _ => After o I b, fun _ _ => False, fun m' => ∃ b', Rest o I b m' b'⟩ m := by
  have hserves : ∀ m', Good o I m' b gens → After o I b m' := fun m' h => .serves (.refl b) h
  cases msg with
  | «open» liveSids => exact hfair.elim
  | submit msg => exact wp_submit hs hI h (hfair h.state) (fun _ h => h) fun _ b' h => ⟨b', h⟩
  | read req op => exact wp_read (hserves m h) fun p hp => hserves _ (h.post (.of_idle hp))
  | live sid on =>
    unfold Ledger.handle
    rw [wp_modify]
    exact hserves _ (h.aside m.mem.closing _)
  | compact req => exact wp_compact hs hI h hfair.2 (fun _ h => h) fun _ b' h => ⟨b', h⟩
  | resolve req txns => exact hserves _ (h.post (.of_idle nofun))
  | close => exact wp_close hs hI h (fun _ h => h) fun _ b' h => ⟨b', h⟩
  | flush =>
    refine wp_flushGroup hs hI h ?_ ?_ fun _ b' h => ⟨b', h⟩
    · intro m' b' gens' hbase hlog hgood _
      exact .serves ⟨hbase, by rw [hlog]; exact List.prefix_append _ _⟩ hgood
    · exact fun m' b' _ hrest hstate hg => .parked hrest hstate hg

/-- **A parked owner stays parked.** -/
theorem Rest.handle {msg : Message} (hs : o.env.NoShort) (h : Rest o I b m b')
    (hstate : m.mem.state ≠ .available) (hg : m.mem.group = none)
    (hfair : msg.Fair o I m.mem b'.log) :
    wp (Ledger.handle o msg)
      ⟨fun _ => After o I b, fun _ _ => False, fun m' => ∃ b', Rest o I b m' b'⟩ m := by
  have hidle : ∀ p, Idle.Post p → After o I b { m with sent := m.sent ++ [(p, m.disk)] } :=
    fun p hp => .parked (h.post (.of_idle hp)) hstate hg
  cases msg with
  | «open» liveSids => exact hfair.elim
  | submit msg =>
    unfold Ledger.handle submit
    rw [wp_bind]
    exact wp_submitOnce_parked hstate hidle
  | read req op => exact wp_read (.parked h hstate hg) hidle
  | live sid on => exact .parked ⟨h.grew, h.holds, h.inv, h.known, h.sent⟩ hstate hg
  | compact req => exact absurd hfair.1 hstate
  | resolve req txns => exact hidle _ nofun
  | close => exact wp_close_parked hs h hstate hg (fun _ h => h) fun _ b' h => ⟨b', h⟩
  | flush =>
    unfold Ledger.handle flushGroup
    simp only [wp_bind, wp_get, wp_modify, hg]
    exact .parked ⟨h.grew, h.holds, h.inv, h.known, h.sent⟩ hstate rfl

end

end Telepty.Ledger
