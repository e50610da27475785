import Telepty.Ledger.GroupWrite
import Telepty.Ledger.Judge

/-!
# An owner that serves a store

`Live` ties the memory of an owner to the book that its disk holds: the hot records over the cold
generations are what the log means, and they are among what a recovery would come to. `GroupOk` says
that the open group is a run of frames after the log that applies to that memory. `Good` is the
invariant of an owner that serves, `Rest` what is left when the process dies.

The book on the disk may lag behind the memory: a checkpoint whose manifest could not be published
has demoted records that the published one still has as hot. Only where every operation is performed
until the process dies are they the same (`Live.synced`).

`Good` is followed along a run for a `Regime`: a predicate on cores that holds of the memory, of the
memory under the open group and, after a crash, of what a recovery comes to, and the names that the
transactions of the run may have.
-/

namespace Telepty.Ledger

open Infra Prog

/-! ## The log grows -/

/-- `b'` is the book of the same store later on. -/
structure Book.Grew (b b' : Book) : Prop where
  base : b'.base = b.base
  log : b.log <+: b'.log

theorem Book.Grew.refl (b : Book) : b.Grew b := ⟨rfl, List.prefix_refl _⟩

theorem Book.Grew.trans {b b' b'' : Book} (h : b.Grew b') (h' : b'.Grew b'') : b.Grew b'' :=
  ⟨h'.base.trans h.base, h.log.trans h'.log⟩

/-- What was posted over a disk rests on what the disk held: a transaction that was acknowledged as
committed is in the log of the disk, and that is a beginning of the log now. -/
structure PostOk (o : Options) (b : Book) (x : Post × FS) : Prop where
  committed : ∀ a, x.1 = .ack a → a.result = "committed" →
    ∃ b', Holds o x.2 b' ∧ b'.Grew b ∧ ∃ f ∈ b'.log, f.txn = a.txn

theorem PostOk.mono {o : Options} {b b' : Book} {x : Post × FS} (h : PostOk o b x)
    (hg : b.Grew b') : PostOk o b' x where
  committed a ha hr := by
    obtain ⟨b₀, hh, hg₀, hf⟩ := h.committed a ha hr
    exact ⟨b₀, hh, hg₀.trans hg, hf⟩

/-- A message that acknowledges nothing as committed. -/
def Idle.Post (p : Post) : Prop := ∀ a, p = .ack a → a.result ≠ "committed"

theorem PostOk.of_idle {o : Options} {b : Book} {p : Post} {fs : FS} (h : Idle.Post p) :
    PostOk o b (p, fs) := ⟨fun a ha hr => absurd hr (h a ha)⟩

/-! ## The memory -/

structure Live (o : Options) (s : State) (fs : FS) (b : Book) (gens : List Gen) : Prop where
  atEnd : AtEnd s b
  checkpoint : comparePos b.man.checkpoint ⟨s.epoch, s.seqCommitted⟩ ≤ 0
  seqs : s.seqCommitted < s.seqNext
  log : ∀ f ∈ b.log, comparePos f.pos ⟨s.epoch, s.seqCommitted⟩ ≤ 0
  cold : List.Forall₂ (Stored o.digests fs) s.cold gens
  ascending : gens.Pairwise fun a b => a.n < b.n
  tier : Tier (coreOf s) b.spec (coldAll gens)
  sub : (coreOf s).Sub b.recovered
  actions : ∀ k a, s.actions.get? k = some a → actionId a = k
  pending : ∀ k p, s.pending.get? k = some p → injectId p = k
  receipts : ∀ k r, s.receipts.get? k = some r → ReceiptOf b.log k r
  saved : ∀ n ∈ s.receiptCkpts, 0 < n ∧ n ≤ maxSafeInteger ∧ ∃ l : List (Text × Receipt),
    fs.get? (receiptsFile n) = some (.file (linesBytes (receiptValues l))) ∧
      ∀ e ∈ l, ReceiptOf b.log e.1 e.2
  counted : ∀ g ∈ gens, g.n ≤ maxSafeInteger
  lastCheckpoint : ∀ n, s.manifest.bind Manifest.lastCheckpointN = some n → n ≤ maxSafeInteger
  synced : o.env.Calm → coreOf s = b.recovered ∧ gens = b.snap.gens

/-- A member of the group is the entry of its frame. -/
structure MemberOf (m : Member) (f : Frame) : Prop where
  txn : m.txn = f.txn
  kind : m.kind = f.kind
  id : m.id = f.id?
  pos : m.pos = f.pos

structure GroupOk (s : State) (g : Group) (gens : List Gen) (log : List Frame) : Prop where
  steps : Core.Steps g.frames (coreOf s) (groupCore s g)
  sound : ∀ f ∈ g.frames, f.Sound
  plain : ∀ f ∈ g.frames, f.txn ≠ [] ∧ ':' ∉ f.txn
  epoch : ∀ f ∈ g.frames, f.epoch = s.epoch
  seqs : g.frames.Pairwise fun a b => a.seq < b.seq
  next : ∀ f ∈ g.frames, s.seqCommitted < f.seq ∧ f.seq ≤ g.seqTo
  last : g.frames ≠ [] → g.seqTo < s.seqNext
  txns : ((log ++ g.frames).map Frame.txn).Nodup
  fresh : ∀ f ∈ g.frames, ∀ id, f.begins = some id → coldAll gens id = none
  members : List.Forall₂ MemberOf g.members g.frames
  blank : g.frames = [] → g.overlay.entries = [] ∧ g.facts = s.facts ∧ g.actions = []
  noops : ∀ n ∈ g.noops, n.result ≠ "committed"

/-- The group does not depend on the rest of the memory. -/
theorem GroupOk.congr {s s' : State} {g : Group} {gens : List Gen} {log : List Frame}
    (h : GroupOk s g gens log) (hc : coreOf s' = coreOf s) (hg : groupCore s' g = groupCore s g)
    (he : s'.epoch = s.epoch) (hcommitted : s'.seqCommitted = s.seqCommitted)
    (hn : s'.seqNext = s.seqNext) : GroupOk s' g gens log where
  steps := by rw [hc, hg]; exact h.steps
  sound := h.sound
  plain := h.plain
  epoch := by rw [he]; exact h.epoch
  seqs := h.seqs
  next := by rw [hcommitted]; exact h.next
  last := by rw [hn]; exact h.last
  txns := h.txns
  fresh := h.fresh
  members := h.members
  blank := by
    have hf : s'.facts = s.facts := congrArg Core.facts hc
    rw [hf]
    exact h.blank
  noops := h.noops

/-- A group without frames changes nothing. -/
theorem GroupOk.groupCore_blank {s s' : State} {g : Group} {gens : List Gen} {log : List Frame}
    (h : GroupOk s g gens log) (hg : g.frames = []) (hf : s'.facts = s.facts) :
    groupCore s' g = coreOf s' := by
  obtain ⟨ho, hfacts, ha⟩ := h.blank hg
  rw [groupCore, ha, hfacts, ← hf, setActions, List.foldl_nil, coreOf]
  congr 1
  funext id
  rw [OrdMap.get?, ho]
  rfl

/-- A group without frames stays open over a memory that has changed. -/
theorem GroupOk.of_blank {s s' : State} {g : Group} {gens gens' : List Gen} {log log' : List Frame}
    (h : GroupOk s g gens log) (hg : g.frames = []) (hf : s'.facts = s.facts)
    (hl : (log'.map Frame.txn).Nodup) : GroupOk s' g gens' log' where
  steps := by
    rw [hg, h.groupCore_blank hg hf]
    rfl
  sound f hm := by rw [hg] at hm; cases hm
  plain f hm := by rw [hg] at hm; cases hm
  epoch f hm := by rw [hg] at hm; cases hm
  seqs := by rw [hg]; exact .nil
  next f hm := by rw [hg] at hm; cases hm
  last hne := absurd hg hne
  txns := by rwa [hg, List.append_nil]
  fresh f hm := by rw [hg] at hm; cases hm
  members := by
    have hm := h.members
    rw [hg] at hm ⊢
    exact hm
  blank _ := by
    obtain ⟨ho, hfacts, ha⟩ := h.blank hg
    exact ⟨ho, hfacts.trans hf.symm, ha⟩
  noops := h.noops

/-- The frames of the open group. -/
def openFrames (s : State) : List Frame := s.group.elim [] Group.frames

/-- What is kept along a run: a property of the memory, and the names of the transactions. -/
structure Regime where
  core : Core → Prop
  txn : Text → Prop

/-- **The invariant of an owner that serves.** -/
structure Good (o : Options) (I : Regime) (m : Machine State Post) (b : Book)
    (gens : List Gen) : Prop where
  state : m.mem.state = .available
  holds : Holds o m.disk b
  live : Live o m.mem m.disk b gens
  group : ∀ g, m.mem.group = some g → GroupOk m.mem g gens b.log
  inv : o.env.Calm → I.core (coreOf m.mem) ∧
    ∀ g, m.mem.group = some g → I.core (groupCore m.mem g)
  known : ∀ f ∈ b.log ++ openFrames m.mem, I.txn f.txn
  sent : ∀ x ∈ m.sent, PostOk o b x

/-- **What is left after a crash**: the disk holds a book of the same store. -/
structure Rest (o : Options) (I : Regime) (b : Book) (m : Machine State Post) (b' : Book) : Prop where
  grew : b.Grew b'
  holds : Holds o m.disk b'
  inv : o.env.Calm → I.core b'.recovered
  known : ∀ f ∈ b'.log, I.txn f.txn
  sent : ∀ x ∈ m.sent, PostOk o b' x

/-- **How a message ends**: the owner serves on, or it has given up serving. -/
inductive After (o : Options) (I : Regime) (b : Book) (m : Machine State Post) : Prop where
  | serves {b' : Book} {gens : List Gen} (grew : b.Grew b') (good : Good o I m b' gens)
  | parked {b' : Book} (rest : Rest o I b m b') (state : m.mem.state ≠ .available)
      (group : m.mem.group = none)

section

variable {o : Options} {I : Regime} {m m' : Machine State Post} {b b' b'' : Book}
  {gens : List Gen} {s : State} {fs fs' : FS}

theorem Live.kept (h : Live o s fs b gens)
    (hk : ∀ p n, Ours p → fs.get? p = some n → fs'.get? p = some n) : Live o s fs' b gens :=
  { h with
    cold := h.cold.imp fun c g hc => hc.congr (by
      rintro p buf hp (rfl | rfl | rfl)
      · exact hk _ _ (ours_cold _) hp
      · exact hk _ _ (ours_cold _) hp
      · exact hk _ _ (ours_cold _) hp)
    saved := fun n hn => by
      obtain ⟨hpos, hmax, l, hl, hr⟩ := h.saved n hn
      exact ⟨hpos, hmax, l, hk _ _ (ours_hot _) hl, hr⟩ }

/-- Where every operation is performed until a crash, a recovery comes to the memory. -/
theorem Good.rest (h : Good o I m b gens) : Rest o I b m b where
  grew := .refl b
  holds := h.holds
  inv hc := (h.live.synced hc).1 ▸ (h.inv hc).1
  known f hf := h.known f (List.mem_append_left _ hf)
  sent := h.sent

theorem Rest.from (h : Rest o I b' m b'') (hg : b.Grew b') : Rest o I b m b'' :=
  { h with grew := hg.trans h.grew }

theorem After.from (h : After o I b' m) (hg : b.Grew b') : After o I b m := by
  cases h with
  | serves grew good => exact .serves (hg.trans grew) good
  | parked rest state group => exact .parked (rest.from hg) state group

theorem After.rest (h : After o I b m) : ∃ b', Rest o I b m b' := by
  cases h with
  | serves grew good => exact ⟨_, good.rest.from grew⟩
  | parked rest => exact ⟨_, rest⟩

/-- One more post. -/
theorem sent_post {p : Post} (h : ∀ x ∈ m.sent, PostOk o b x) (hp : PostOk o b (p, m.disk)) :
    ∀ x ∈ m.sent ++ [(p, m.disk)], PostOk o b x := by
  intro x hx
  rcases List.mem_append.mp hx with hx | hx
  · exact h x hx
  · rw [List.mem_singleton.mp hx]
    exact hp

theorem Good.post (h : Good o I m b gens) {p : Post} (hp : PostOk o b (p, m.disk)) :
    Good o I { m with sent := m.sent ++ [(p, m.disk)] } b gens :=
  { h with sent := sent_post h.sent hp }

theorem Rest.post (h : Rest o I b m b') {p : Post} (hp : PostOk o b' (p, m.disk)) :
    Rest o I b { m with sent := m.sent ++ [(p, m.disk)] } b' :=
  { h with sent := sent_post h.sent hp }

end

end Telepty.Ledger
