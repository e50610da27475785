import Telepty.Ledger.Live
import Telepty.Ledger.Tiers

/-!
# What a checkpoint does to the book

A checkpoint creates its files under numbers that are free, which leaves the book as it is, and then
publishes a manifest that names them. The records it demotes move from the hot tier to a new cold
generation; what the two tiers hold together stays the same.
-/

namespace Telepty.Ledger

open Infra Prog

/-! ## Values under their own keys -/

section

variable {m : OrdMap Text Json} {key : Json → Text}

theorem byKey_values (h : ∀ k v, m.get? k = some v → key v = k) (p : Json → Bool) :
    byKey key (m.values.filter p) = (m.filter fun e => p e.2).entries := by
  have hk : ∀ e ∈ m.entries, key e.2 = e.1 := fun e he => h e.1 e.2 (m.mem_entries_iff.mp he)
  change List.map (fun v => (key v, v)) ((m.entries.map Prod.snd).filter p) = m.entries.filter _
  rw [List.filter_map, List.map_map]
  conv => rhs; rw [← List.map_id (m.entries.filter fun e => p e.2)]
  refine List.map_congr_left fun e he => ?_
  rw [Function.comp, hk e (List.mem_of_mem_filter he)]
  rfl

theorem byKey_values_all (h : ∀ k v, m.get? k = some v → key v = k) :
    byKey key m.values = m.entries := by
  have hall := byKey_values h fun _ => true
  rwa [List.filter_true, show (m.filter fun _ => true).entries = m.entries from
    List.filter_true _] at hall

/-- Some of the values of a map, set again under their own keys. -/
theorem get?_byKey_values (h : ∀ k v, m.get? k = some v → key v = k) (p : Json → Bool) (k : Text) :
    (OrdMap.empty.setAll (byKey key (m.values.filter p))).get? k = (m.get? k).filter p := by
  rw [byKey_values h, OrdMap.get?_setAll_entries, OrdMap.get?_filter, OrdMap.get?_empty,
    Option.or_none]

theorem get?_byKey_values_all (h : ∀ k v, m.get? k = some v → key v = k) (k : Text) :
    (OrdMap.empty.setAll (byKey key m.values)).get? k = m.get? k := by
  rw [byKey_values_all h, OrdMap.get?_setAll_entries, OrdMap.get?_empty, Option.or_none]

theorem find?_values (h : ∀ k v, m.get? k = some v → key v = k) (p : Json → Bool) (k : Text) :
    ((m.values.filter p).find? fun v => key v = k) = (m.get? k).filter p := by
  have hassoc : ∀ l : List Json, (l.find? fun v => key v = k) = assoc k (byKey key l) := by
    intro l
    induction l with
    | nil => rfl
    | cons v l ih =>
      rw [byKey, List.map_cons, assoc, List.find?_cons]
      by_cases hv : key v = k
      · simp [hv]
      · simp only [hv, decide_false, if_false]
        exact ih
  rw [hassoc, byKey_values h]
  exact OrdMap.get?_filter _

theorem nodup_values (h : ∀ k v, m.get? k = some v → key v = k) (p : Json → Bool) :
    ((m.values.filter p).map key).Nodup := by
  have hmap : (m.values.filter p).map key = (byKey key (m.values.filter p)).map Prod.fst := by
    rw [byKey, List.map_map]
    rfl
  rw [hmap, byKey_values h]
  exact (m.filter _).nodup

end

/-! ## Files beside the book -/

/-- Receipts that differ at most in the checkpoint that holds them. -/
def SameReceipts (a b : OrdMap Text Receipt) : Prop :=
  ∀ k x, b.get? k = some x → ∃ y, a.get? k = some y ∧ x = { y with ckpt := x.ckpt }

theorem SameReceipts.refl (a : OrdMap Text Receipt) : SameReceipts a a := fun _ x h => ⟨x, h, rfl⟩

theorem SameReceipts.trans {a b c : OrdMap Text Receipt} (h : SameReceipts a b)
    (h' : SameReceipts b c) : SameReceipts a c := by
  intro k x hx
  obtain ⟨y, hy, hxy⟩ := h' k x hx
  obtain ⟨z, hz, hyz⟩ := h k y hy
  exact ⟨z, hz, by rw [hxy, hyz]⟩

/-- Files were created beside the book, and numbers taken for them. -/
structure Beside (m m' : Machine State Post) : Prop where
  mem : ∃ hot cold receipts, SameReceipts m.mem.receipts receipts ∧
    m'.mem = { m.mem with allocHot := hot, allocCold := cold, receipts := receipts }
  disk : Apart m.disk m'.disk
  sent : m'.sent = m.sent

theorem Beside.refl (m : Machine State Post) : Beside m m :=
  ⟨⟨_, _, _, .refl _, rfl⟩, .refl _, rfl⟩

theorem Beside.trans {m m' m'' : Machine State Post} (h : Beside m m') (h' : Beside m' m'') :
    Beside m m'' := by
  obtain ⟨hot, cold, receipts, hr, hm⟩ := h.mem
  obtain ⟨hot', cold', receipts', hr', hm'⟩ := h'.mem
  refine ⟨⟨hot', cold', receipts', ?_, ?_⟩, h.disk.trans h'.disk, h'.sent.trans h.sent⟩
  · rw [hm] at hr'
    exact hr.trans hr'
  · rw [hm', hm]

theorem Beside.of_sameMind {m m' : Machine State Post} (h : SameMind m m')
    (hd : Apart m.disk m'.disk) : Beside m m' :=
  ⟨⟨m.mem.allocHot, m.mem.allocCold, m.mem.receipts, .refl _, h.mem⟩, hd, h.sent⟩

theorem Beside.of_quiet {m m' : Machine State Post} (h : Quiet m m') : Beside m m' :=
  .of_sameMind ⟨h.mem, h.sent⟩ (by rw [h.disk]; exact .refl _)

theorem ReceiptOf.ckpt {log : List Frame} {txn : Text} {r : Receipt} {c : ReceiptCkpt} :
    ReceiptOf log txn { r with ckpt := c } ↔ ReceiptOf log txn r := Iff.rfl

section

variable {o : Options} {m m' : Machine State Post} {b : Book} {gens : List Gen}

/-- The memory still serves the book. -/
theorem Live.beside (h : Live o m.mem m.disk b gens) (hb : Beside m m') :
    Live o m'.mem m'.disk b gens := by
  obtain ⟨hot, cold, receipts, hr, hm⟩ := hb.mem
  have hk := h.kept hb.disk.kept
  rw [hm]
  exact { hk with
    atEnd := ⟨⟨h.atEnd.epoch, h.atEnd.segments⟩, h.atEnd.seg⟩
    receipts := fun k r hkr => by
      obtain ⟨y, hy, hx⟩ := hr k r hkr
      rw [hx]
      exact ReceiptOf.ckpt.mpr (h.receipts k y hy) }

/-- **A file of a tier** under a number that can be counted on. -/
theorem wp_createIn {d : Path} {n : Nat} {buf : Bytes} {Q : Ensures State Post Unit} (rest : Text)
    (hs : o.env.NoShort) (hd : d ∈ tierDirs) (hn : n ≤ maxSafeInteger) (hrest : rest.head? = some '.')
    (hdone : ∀ m', SameMind m m' → Apart m.disk m'.disk →
      m'.disk.get? (joinPath d (natText n ++ rest)) = some (.file buf) → Q.done () m')
    (hr : ∀ e m', SameMind m m' → Apart m.disk m'.disk → Q.raised e m')
    (hc : ∀ m', SameMind m m' → Apart m.disk m'.disk → Q.crashed m') :
    wp (createFileDurable o (joinPath d (natText n ++ rest)) buf) Q m := by
  have hap : ∀ {fs' : FS}, Creates (joinPath d (natText n ++ rest)) m.disk fs' →
      Apart m.disk fs' := by
    intro fs' h
    refine .of_creates hd (fun k hk => ?_) h
    rw [generationOfName_numbered n hrest] at hk
    cases hk
    exact hn
  exact wp_createFileDurable hs (fun m' hsm h hf => hdone m' hsm (hap h) hf)
    (fun e m' hsm h => hr e m' hsm (hap h)) fun m' hsm h => hc m' hsm (hap h)

/-! ## The cold generation -/

/-- **A cold generation** holds the records it was given, under a number above all others. -/
theorem wp_writeColdGeneration {records : List Json} {Q : Ensures State Post ColdMeta}
    (hs : o.env.NoShort) (hdist : (records.map injectId).Nodup)
    (hd : ∀ c m', Beside m m' → Stored o.digests m'.disk c ⟨c.n, records⟩ → c.n ≤ maxSafeInteger →
      c.offline = false → (∀ x ∈ m.mem.cold, x.n < c.n) → Q.done c m')
    (hr : ∀ e m', Beside m m' → Q.raised e m') (hc : ∀ m', Beside m m' → Q.crashed m') :
    wp (writeColdGeneration o records) Q m := by
  have hcold : coldDir ∈ tierDirs := by simp [tierDirs]
  unfold writeColdGeneration
  rw [wp_bind]
  refine wp_reserve ?_ fun e _ => hr e m (.refl m)
  intro n s htake
  have hn : n ≤ maxSafeInteger ∧ (∀ x ∈ m.mem.cold, x.n < n) ∧
      s = { m.mem with allocCold := n } := by
    unfold reserveCold at htake
    simp only at htake
    split at htake
    · next hle =>
      cases htake
      refine ⟨hle, fun x hx => ?_, rfl⟩
      exact Nat.lt_succ_of_le (Nat.le_trans ((le_foldl_max_cold _ 0).2 x hx) (Nat.le_max_right _ _))
    · cases htake
  obtain ⟨hmax, hlt, rfl⟩ := hn
  have h₀ : Beside m { m with mem := { m.mem with allocCold := n } } :=
    ⟨⟨m.mem.allocHot, n, m.mem.receipts, .refl _, rfl⟩, .refl _, rfl⟩
  dsimp only
  simp only [wp_bind, wp_ofExcept]
  cases hfiles : coldFilesFrom o.digests n 0 records with
  | error e => exact hr e _ h₀
  | ok files =>
  dsimp only
  cases hids : buildIndex files.ids with
  | error e => exact hr e _ h₀
  | ok idIdx =>
  dsimp only
  cases hsids : buildIndex files.sids with
  | error e => exact hr e _ h₀
  | ok sidIdx =>
  dsimp only
  refine wp_createIn ".jsonl" hs hcold hmax rfl ?_ ?_ ?_
  · intro m₁ hsm₁ hap₁ hf₁
    have h₁ := h₀.trans (.of_sameMind hsm₁ hap₁)
    refine wp_createIn ".id.idx" hs hcold hmax rfl ?_ ?_ ?_
    · intro m₂ hsm₂ hap₂ hf₂
      have h₂ := h₁.trans (.of_sameMind hsm₂ hap₂)
      refine wp_createIn ".sid.idx" hs hcold hmax rfl ?_ ?_ ?_
      · intro m₃ hsm₃ hap₃ hf₃
        have h₃ := h₂.trans (.of_sameMind hsm₃ hap₃)
        refine wp_fsyncDir hs ?_ ?_ ?_
        · intro m₄ hq
          refine hd _ m₄ (h₃.trans (.of_quiet hq)) ⟨rfl, rfl, rfl, hdist, ?_, ?_, ?_⟩ hmax rfl hlt
          · refine ⟨files, hfiles, hids, hsids, rfl, ?_⟩
            rw [hq.disk]
            exact hap₃.kept _ _ (ours_cold _) (hap₂.kept _ _ (ours_cold _) hf₁)
          · rw [hq.disk]
            exact hap₃.kept _ _ (ours_cold _) hf₂
          · rw [hq.disk]
            exact hf₃
        · exact fun e m₄ hq _ => hr e m₄ (h₃.trans (.of_quiet hq))
        · exact fun m₄ hq => hc m₄ (h₃.trans (.of_quiet hq))
      · exact fun e m₃ hsm₃ hap₃ => hr e m₃ (h₂.trans (.of_sameMind hsm₃ hap₃))
      · exact fun m₃ hsm₃ hap₃ => hc m₃ (h₂.trans (.of_sameMind hsm₃ hap₃))
    · exact fun e m₂ hsm₂ hap₂ => hr e m₂ (h₁.trans (.of_sameMind hsm₂ hap₂))
    · exact fun m₂ hsm₂ hap₂ => hc m₂ (h₁.trans (.of_sameMind hsm₂ hap₂))
  · exact fun e m₁ hsm₁ hap₁ => hr e m₁ (h₀.trans (.of_sameMind hsm₁ hap₁))
  · exact fun m₁ hsm₁ hap₁ => hc m₁ (h₀.trans (.of_sameMind hsm₁ hap₁))

/-- The new generation, when there are records to demote. -/
theorem wp_writeCold {records : List Json} {Q : Ensures State Post (Option ColdMeta)}
    (hs : o.env.NoShort) (hdist : (records.map injectId).Nodup)
    (hd : ∀ c new m', Beside m m' → List.Forall₂ (Stored o.digests m'.disk) c.toList new →
      (∀ id, coldAll new id = records.find? fun r => injectId r = id) →
      (new.Pairwise fun a b => a.n < b.n) →
      (∀ g ∈ new, g.n ≤ maxSafeInteger ∧ ∀ x ∈ m.mem.cold, x.n < g.n) →
      (∀ x ∈ c.toList, x.offline = false) → Q.done c m')
    (hr : ∀ e m', Beside m m' → Q.raised e m') (hc : ∀ m', Beside m m' → Q.crashed m') :
    wp (writeCold o records) Q m := by
  unfold writeCold
  split
  · next hnil =>
    subst hnil
    exact hd none [] m (.refl m) .nil (fun _ => rfl) .nil (by simp) (by simp)
  · rw [wp_bind]
    refine wp_writeColdGeneration hs hdist ?_ hr hc
    intro c m' hb hstored hmax hoff hlt
    refine hd (some c) [⟨c.n, records⟩] m' hb (.cons hstored .nil) (fun id => ?_)
      (List.pairwise_singleton _ _) ?_ fun x hx => by rw [List.mem_singleton.mp hx]; exact hoff
    · rw [coldAll, coldAll, Option.none_or]
      rfl
    · intro g hg
      rw [List.mem_singleton.mp hg]
      exact ⟨hmax, hlt⟩

/-! ## The files of the checkpoint -/

/-- The files that checkpoint `n` made of the memory `s`. -/
structure WrittenBy (fs : FS) (n : Nat) (s : State) : Prop where
  hot : fs.get? (hotFile n) = some (.file (linesBytes (hotValues s)))
  receipts : fs.get? (receiptsFile n) = some (.file (linesBytes (receiptValues (unsavedReceipts s))))
  facts : fs.get? (factsFile n) = some (.file (linesBytes (s.facts.map Fact.toJson)))

theorem sameReceipts_markSaved (n : Nat) (s : State) :
    SameReceipts s.receipts (markSaved n s).receipts := by
  intro k x hx
  simp only [markSaved, OrdMap.get?_mapVal] at hx
  obtain ⟨y, hy, rfl⟩ := Option.map_eq_some_iff.mp hx
  refine ⟨y, hy, ?_⟩
  split <;> rfl

/-- **The files of a checkpoint** hold the memory they were made of. -/
theorem wp_writeCheckpointFiles {n : Nat} {Q : Ensures State Post Unit} (hs : o.env.NoShort)
    (hn : n ≤ maxSafeInteger)
    (hd : ∀ m', Beside m m' → m'.mem = markSaved n m.mem → WrittenBy m'.disk n m.mem → Q.done () m')
    (hr : ∀ e m', Beside m m' → Q.raised e m') (hc : ∀ m', Beside m m' → Q.crashed m') :
    wp (writeCheckpointFiles o n) Q m := by
  have hhot : hotDir ∈ tierDirs := by simp [tierDirs]
  have hfacts : factsDir ∈ tierDirs := by simp [tierDirs]
  unfold writeCheckpointFiles
  simp only [wp_bind, wp_get, wp_modify]
  refine wp_createIn ".jsonl" hs hhot hn rfl ?_ ?_ ?_
  · intro m₁ hsm₁ hap₁ hf₁
    -- the receipts are marked before they are written
    have h₁ : Beside m { m₁ with mem := markSaved n m₁.mem } := by
      refine ⟨⟨m.mem.allocHot, m.mem.allocCold, (markSaved n m.mem).receipts,
        sameReceipts_markSaved n m.mem, ?_⟩, hap₁, hsm₁.sent⟩
      rw [hsm₁.mem]
      rfl
    have hmem₁ : markSaved n m₁.mem = markSaved n m.mem := by rw [hsm₁.mem]
    refine wp_createIn ".receipts.jsonl" hs hhot hn rfl ?_ ?_ ?_
    · intro m₂ hsm₂ hap₂ hf₂
      have h₂ := h₁.trans (.of_sameMind hsm₂ hap₂)
      refine wp_createIn ".jsonl" hs hfacts hn rfl ?_ ?_ ?_
      · intro m₃ hsm₃ hap₃ hf₃
        have h₃ := h₂.trans (.of_sameMind hsm₃ hap₃)
        simp only [wp_ofExcept]
        cases buildIndex (factsIndexEntries o.digests n m.mem.facts) with
        | error e => exact hr e m₃ h₃
        | ok idx =>
        dsimp only
        refine wp_createIn ".sid.idx" hs hfacts hn rfl ?_ ?_ ?_
        · intro m₄ hsm₄ hap₄ _
          have h₄ := h₃.trans (.of_sameMind hsm₄ hap₄)
          refine wp_fsyncDir hs ?_ (fun e m₅ hq _ => hr e m₅ (h₄.trans (.of_quiet hq)))
            fun m₅ hq => hc m₅ (h₄.trans (.of_quiet hq))
          intro m₅ hq₅
          have h₅ := h₄.trans (.of_quiet hq₅)
          refine wp_fsyncDir hs ?_ (fun e m₆ hq _ => hr e m₆ (h₅.trans (.of_quiet hq)))
            fun m₆ hq => hc m₆ (h₅.trans (.of_quiet hq))
          intro m₆ hq₆
          have hdisk : m₆.disk = m₄.disk := hq₆.disk.trans hq₅.disk
          refine hd m₆ (h₅.trans (.of_quiet hq₆)) ?_ ⟨?_, ?_, ?_⟩
          · rw [hq₆.mem, hq₅.mem, hsm₄.mem, hsm₃.mem, hsm₂.mem, hmem₁]
          · rw [hdisk]
            exact hap₄.kept _ _ (ours_hot _) (hap₃.kept _ _ (ours_hot _)
              (hap₂.kept _ _ (ours_hot _) hf₁))
          · rw [hdisk]
            exact hap₄.kept _ _ (ours_hot _) (hap₃.kept _ _ (ours_hot _) hf₂)
          · rw [hdisk]
            exact hap₄.kept _ _ (ours_facts _) hf₃
        · exact fun e m₄ hsm₄ hap₄ => hr e m₄ (h₃.trans (.of_sameMind hsm₄ hap₄))
        · exact fun m₄ hsm₄ hap₄ => hc m₄ (h₃.trans (.of_sameMind hsm₄ hap₄))
      · exact fun e m₃ hsm₃ hap₃ => hr e m₃ (h₂.trans (.of_sameMind hsm₃ hap₃))
      · exact fun m₃ hsm₃ hap₃ => hc m₃ (h₂.trans (.of_sameMind hsm₃ hap₃))
    · exact fun e m₂ hsm₂ hap₂ => hr e m₂ (h₁.trans (.of_sameMind hsm₂ hap₂))
    · exact fun m₂ hsm₂ hap₂ => hc m₂ (h₁.trans (.of_sameMind hsm₂ hap₂))
  · exact fun e m₁ hsm₁ hap₁ => hr e m₁ (.of_sameMind hsm₁ hap₁)
  · exact fun m₁ hsm₁ hap₁ => hc m₁ (.of_sameMind hsm₁ hap₁)

/-! ## What is demoted -/

/-- What checkpoint `n` of the memory `s` holds, over the cold generations `gens`. -/
def checkpointSnap (n : Nat) (s : State) (gens : List Gen) (prevReceipts : List (Text × Receipt)) :
    Snap where
  n := n
  prev := s.receiptCkpts.getLast?
  records := s.hot.records.values.filter fun r => !demotionEligible s r
  actions := s.actions.values
  pending := s.pending.values
  facts := s.facts
  receipts := unsavedReceipts s
  prevReceipts := prevReceipts
  gens := gens

/-- The hot records stand under their own ids. -/
def HotKeyed (s : State) : Prop := ∀ id r, s.hot.get? id = some r → injectId r = id

theorem mem_demoted_ids {s : State} (hk : HotKeyed s) {id : Text} :
    id ∈ (demoted s).map (fun r => r.textField "inject_id") ↔
      ∃ r, s.hot.get? id = some r ∧ demotionEligible s r = true := by
  constructor
  · intro h
    obtain ⟨r, hr, rfl⟩ := List.mem_map.mp h
    obtain ⟨hm, he⟩ := List.mem_filter.mp hr
    obtain ⟨k, hkr⟩ := s.hot.records.mem_values_iff.mp hm
    have hid : injectId r = k := hk k r hkr
    exact ⟨r, by rw [show r.textField "inject_id" = k from hid]; exact hkr, he⟩
  · rintro ⟨r, hr, he⟩
    refine List.mem_map.mpr ⟨r, List.mem_filter.mpr ⟨s.hot.records.mem_values_iff.mpr ⟨id, hr⟩, he⟩, ?_⟩
    exact hk id r hr

theorem coreOf_released (n : Nat) (demote : List Json) (cold : Option ColdMeta) (s : State) :
    coreOf (released n demote cold s) =
      { coreOf s with records := fun id =>
          if id ∈ demote.map (fun r => r.textField "inject_id") then none else s.hot.get? id } := by
  refine Core.eq_of (fun id => ?_) rfl (fun _ => rfl) fun _ => rfl
  exact HotSet.get?_removeAll _ _ _

/-- The hot records that stay. -/
theorem released_hot {s : State} (hk : HotKeyed s) (id : Text) :
    (if id ∈ (demoted s).map (fun r => r.textField "inject_id") then none else s.hot.get? id)
      = (s.hot.get? id).filter fun r => !demotionEligible s r := by
  cases hr : s.hot.get? id with
  | none => split <;> rfl
  | some r =>
    cases he : demotionEligible s r with
    | true =>
      rw [if_pos ((mem_demoted_ids hk).mpr ⟨r, hr, he⟩), Option.filter_some, he]
      rfl
    | false =>
      rw [if_neg, Option.filter_some, he]
      · rfl
      · intro hm
        obtain ⟨r', hr', he'⟩ := (mem_demoted_ids hk).mp hm
        rw [hr] at hr'
        cases hr'
        rw [he] at he'
        cases he'

/-- **A recovery from the checkpoint comes to the memory** after the demotion. -/
theorem core_checkpointSnap {n : Nat} {s t : State} {gens : List Gen} {cold : Option ColdMeta}
    {prevReceipts : List (Text × Receipt)} (hk : HotKeyed s)
    (ha : ∀ k a, s.actions.get? k = some a → actionId a = k)
    (hp : ∀ k p, s.pending.get? k = some p → injectId p = k) (ht : coreOf t = coreOf s) :
    (checkpointSnap n s gens prevReceipts).core = coreOf (released n (demoted s) cold t) := by
  have hhot : ∀ id, t.hot.get? id = s.hot.get? id := fun id => congrFun (congrArg Core.records ht) id
  rw [coreOf_released, ht]
  refine Core.eq_of (fun id => ?_) rfl (fun k => get?_byKey_values_all ha k)
    fun k => get?_byKey_values_all hp k
  change _ = if id ∈ (demoted s).map (fun r => r.textField "inject_id") then none else t.hot.get? id
  rw [hhot, released_hot hk]
  exact get?_byKey_values hk _ id

/-- **The tiers together hold what they held before.** -/
theorem Tier.released {n : Nat} {s t : State} {gens new : List Gen} {cold : Option ColdMeta}
    {spec : Core} (h : Tier (coreOf s) spec (coldAll gens)) (hk : HotKeyed s)
    (hnew : ∀ id, coldAll new id = (demoted s).find? fun r => injectId r = id)
    (ht : coreOf t = coreOf s) :
    Tier (coreOf (released n (demoted s) cold t)) spec (coldAll (gens ++ new)) := by
  have hhot : ∀ id, t.hot.get? id = s.hot.get? id := fun id => congrFun (congrArg Core.records ht) id
  rw [coreOf_released, ht]
  refine ⟨fun id => ?_, h.facts, h.actions, h.pending⟩
  simp only
  rw [hhot, released_hot hk, coldAll_append, hnew, demoted, find?_values hk, h.records]
  change (s.hot.get? id).or (coldAll gens id) = ((s.hot.get? id).filter _).or
    (((s.hot.get? id).filter _).or _)
  cases s.hot.get? id with
  | none => rfl
  | some r =>
    cases he : demotionEligible s r with
    | true => simp [Option.filter_some, he]
    | false => simp [Option.filter_some, he]

theorem sub_released (n : Nat) (demote : List Json) (cold : Option ColdMeta) (s : State) :
    (coreOf (released n demote cold s)).Sub (coreOf s) := by
  rw [coreOf_released]
  refine ⟨fun id => ?_, rfl, rfl, rfl⟩
  change s.hot.get? id = (if id ∈ demote.map (fun r => r.textField "inject_id") then none
    else s.hot.get? id).or (s.hot.get? id)
  split
  · rfl
  · cases s.hot.get? id <;> rfl

/-- The checkpoint before the last one whose receipts are held. -/
theorem prev_released (l : List Nat) (n : Nat) :
    ((l ++ [n]).drop ((l ++ [n]).length - 2)).dropLast.getLast? = l.getLast? := by
  rcases List.eq_nil_or_concat l with rfl | ⟨init, p, rfl⟩
  · rfl
  · have hdrop : ((init ++ [p]) ++ [n]).drop (((init ++ [p]) ++ [n]).length - 2) = [p, n] := by
      rw [List.append_assoc, List.drop_append_of_le_length (by simp)]
      simp
    rw [List.concat_eq_append, hdrop]
    simp

/-! ## The memory after the demotion -/

/-- The manifest that the memory describes names the checkpoint of the book. -/
structure Describes (o : Options) (s : State) (fs : FS) (b : Book) : Prop where
  files : ∀ tok clean last, b.snap.Files o.digests fs (manifestOf s tok clean last)
  checkpoint : s.checkpointPos = b.man.checkpoint
  counted : ∀ tok clean, (manifestOf s tok clean none).Counted

/-- Such a manifest may be published once more. -/
theorem Describes.publishes {s : State} {fs : FS} (h : Describes o s fs b) (hh : Holds o fs b)
    (he : s.epoch = b.man.epoch ∨ s.epoch = b.man.epoch + 1) (tok : Text) (clean : Bool) :
    b.Publishes o fs (manifestOf s tok clean none) b.snap b.recovered where
  format := rfl
  published := rfl
  counted := h.counted tok clean
  checkpoint := by
    have hcheckpoint := hh.checkpoint
    change s.checkpointPos.epoch ≤ s.epoch
    rw [h.checkpoint]
    omega
  files := h.files tok clean none
  epoch := he
  recovered := by
    rw [show (manifestOf s tok clean none).checkpoint = b.man.checkpoint from h.checkpoint]
    exact hh.recovered
  tier := hh.tier
  receipts := hh.receipts

/-- What a checkpoint leaves of the book. -/
structure SameLog (b b' : Book) : Prop where
  segs : b'.segs = b.segs
  log : b'.log = b.log
  base : b'.base = b.base
  spec : b'.spec = b.spec
  epoch : b'.man.epoch = b.man.epoch

theorem SameLog.refl (b : Book) : SameLog b b := ⟨rfl, rfl, rfl, rfl, rfl⟩

theorem SameLog.grew {b' : Book} (h : SameLog b b') : b.Grew b' :=
  ⟨h.base, by rw [h.log]⟩

theorem SameLog.atEnd {b' : Book} (h : SameLog b b') {s : State} (hs : AtEnd s b) : AtEnd s b' :=
  ⟨⟨hs.epoch.trans h.epoch.symm, by rw [h.segs]; exact hs.segments⟩, by rw [h.segs]; exact hs.seg⟩

theorem forall₂_cold_lt {fs : FS} {cold : List ColdMeta} {gens new : List Gen}
    (h : List.Forall₂ (Stored o.digests fs) cold gens)
    (hn : ∀ g ∈ new, ∀ x ∈ cold, x.n < g.n) : ∀ a ∈ gens, ∀ g ∈ new, a.n < g.n := by
  intro a ha g hg
  induction h with
  | nil => cases ha
  | @cons c g' cold gens hc _ ih =>
    rcases List.mem_cons.mp ha with rfl | ha
    · rw [← hc.n]
      exact hn g hg c List.mem_cons_self
    · exact ih (fun g hg x hx => hn g hg x (List.mem_cons_of_mem _ hx)) ha

/-- The files of checkpoint `n` are there: the records that it demotes from `s` are the generations
`new`, which come after all others. -/
structure Demotion (o : Options) (fs : FS) (s : State) (n : Nat) (cold : Option ColdMeta)
    (new : List Gen) : Prop where
  pos : 0 < n
  max : n ≤ maxSafeInteger
  stored : List.Forall₂ (Stored o.digests fs) cold.toList new
  found : ∀ id, coldAll new id = (demoted s).find? fun r => injectId r = id
  sorted : new.Pairwise fun a b => a.n < b.n
  counted : ∀ g ∈ new, g.n ≤ maxSafeInteger
  above : ∀ g ∈ new, ∀ x ∈ s.cold, x.n < g.n
  resident : ∀ x ∈ cold.toList, x.offline = false

theorem Demotion.marked {fs : FS} {s : State} {n : Nat} {cold : Option ColdMeta} {new : List Gen}
    (d : Demotion o fs s n cold new) : Demotion o fs (markSaved n s) n cold new :=
  ⟨d.pos, d.max, d.stored, d.found, d.sorted, d.counted, d.above, d.resident⟩

/-- **The memory after the demotion** serves the book, whichever manifest it is under. -/
theorem Live.released {s : State} {fs : FS} {b' : Book} {n : Nat} {new : List Gen}
    {cold : Option ColdMeta} {l : List (Text × Receipt)} (h : Live o s fs b gens)
    (hk : HotKeyed s) (d : Demotion o fs s n cold new)
    (hfile : fs.get? (receiptsFile n) = some (.file (linesBytes (receiptValues l))))
    (hl : ∀ e ∈ l, ReceiptOf b.log e.1 e.2) (hb : SameLog b b')
    (hcheck : comparePos b'.man.checkpoint ⟨s.epoch, s.seqCommitted⟩ ≤ 0)
    (hsub : (coreOf (released n (demoted s) cold s)).Sub b'.recovered)
    (hsync : o.env.Calm → coreOf (released n (demoted s) cold s) = b'.recovered ∧
      gens ++ new = b'.snap.gens) :
    Live o (released n (demoted s) cold s) fs b' (gens ++ new) where
  atEnd := by
    have ha := hb.atEnd h.atEnd
    exact ⟨⟨ha.epoch, ha.segments⟩, ha.seg⟩
  checkpoint := hcheck
  seqs := h.seqs
  log := by rw [hb.log]; exact h.log
  cold := List.rel_append h.cold d.stored
  ascending := List.pairwise_append.mpr
    ⟨h.ascending, d.sorted, forall₂_cold_lt h.cold d.above⟩
  tier := by
    rw [hb.spec]
    exact h.tier.released hk d.found rfl
  sub := hsub
  actions := h.actions
  pending := h.pending
  receipts k r hr := by
    rw [hb.log]
    change (OrdMap.filter s.receipts _).get? k = some r at hr
    rw [OrdMap.get?_filter] at hr
    exact h.receipts k r (Option.eq_some_of_filter_eq_some hr)
  saved k hkm := by
    rw [hb.log]
    have hm : k ∈ s.receiptCkpts ++ [n] := List.mem_of_mem_drop hkm
    rcases List.mem_append.mp hm with hm | hm
    · exact h.saved k hm
    · rw [List.mem_singleton.mp hm]
      exact ⟨d.pos, d.max, l, hfile, hl⟩
  counted g hg := by
    rcases List.mem_append.mp hg with hg | hg
    · exact h.counted g hg
    · exact d.counted g hg
  lastCheckpoint := h.lastCheckpoint
  synced := hsync

/-! ## Publishing the checkpoint -/

/-- The receipts of the checkpoint before, where one is held. -/
theorem Live.prevReceipts {s : State} {fs : FS} (h : Live o s fs b gens) :
    ∃ l : List (Text × Receipt), (∀ e ∈ l, ReceiptOf b.log e.1 e.2) ∧
      ∀ p, s.receiptCkpts.getLast? = some p → 0 < p ∧ p ≤ maxSafeInteger ∧
        fs.get? (receiptsFile p) = some (.file (linesBytes (receiptValues l))) := by
  cases hp : s.receiptCkpts.getLast? with
  | none => exact ⟨[], by simp, nofun⟩
  | some p =>
    obtain ⟨hpos, hmax, l, hfile, hl⟩ := h.saved p (List.mem_of_getLast? hp)
    refine ⟨l, hl, fun q hq => ?_⟩
    cases hq
    exact ⟨hpos, hmax, hfile⟩

theorem Live.hotKeyed {s : State} {fs fs' : FS} (h : Live o s fs b gens) (hh : Holds o fs' b) :
    HotKeyed s := fun id r hr => hh.specKeyed id r (h.tier.of_hot hr)

/-- No frame of the log is behind the committed position. -/
theorem Live.filter_log {s : State} {fs : FS} (h : Live o s fs b gens) :
    b.log.filter (isAfter ⟨s.epoch, s.seqCommitted⟩) = [] := by
  refine List.filter_eq_nil_iff.mpr fun f hf => ?_
  have hle := h.log f hf
  simpa [isAfter] using hle

section

variable {s : State} {fs fs' : FS} {n : Nat} {new : List Gen} {cold : Option ColdMeta}
  {l : List (Text × Receipt)}

/-- The manifest after the demotion names the files of the checkpoint. -/
theorem files_released (h : Live o s fs b gens) (hh : Holds o fs' b)
    (d : Demotion o fs s n cold new) (hw : WrittenBy fs n s)
    (hl : ∀ p, s.receiptCkpts.getLast? = some p → 0 < p ∧ p ≤ maxSafeInteger ∧
      fs.get? (receiptsFile p) = some (.file (linesBytes (receiptValues l))))
    (tok : Text) (clean : Bool) (last : Option Nat) :
    (checkpointSnap n s (gens ++ new) l).Files o.digests fs
      (manifestOf (released n (demoted s) cold (markSaved n s)) tok clean last) where
  hotN := rfl
  receiptsN := rfl
  factsN := rfl
  receiptsPrev := prev_released s.receiptCkpts n
  pos := d.pos
  prevPos p hp := (hl p hp).1
  hot := hw.hot
  receipts := hw.receipts
  prevReceipts p hp := (hl p hp).2.2
  facts := hw.facts
  sorted := by
    have hfacts : s.facts = b.spec.facts := h.tier.facts.symm
    change s.facts.Pairwise Fact.le
    rw [hfacts]
    exact hh.factsSorted
  cold := ⟨s.cold ++ cold.toList, List.rel_append h.cold d.stored, rfl⟩
  ascending := List.pairwise_append.mpr
    ⟨h.ascending, d.sorted, forall₂_cold_lt h.cold d.above⟩

/-- Its numbers can be counted on. -/
theorem counted_released (h : Live o s fs b gens) (d : Demotion o fs s n cold new) (tok : Text)
    (clean : Bool) {last : Option Nat}
    (hlast : ∀ k, last.or (s.manifest.bind Manifest.lastCheckpointN) = some k → k ≤ maxSafeInteger) :
    (manifestOf (released n (demoted s) cold (markSaved n s)) tok clean last).Counted where
  named := by
    intro v hv k hk
    subst hk
    simp only [List.mem_cons, List.not_mem_nil, or_false] at hv
    rcases hv with hv | hv | hv | hv | hv
    · cases hv
      exact d.max
    · cases hv
      exact d.max
    · have hp : some k = s.receiptCkpts.getLast? := hv.trans (prev_released s.receiptCkpts n)
      exact (h.saved k (List.mem_of_getLast? hp.symm)).2.1
    · cases hv
      exact d.max
    · exact hlast k hv.symm
  cold := by
    have hall : ∀ {metas : List ColdMeta} {gs : List Gen}, List.Forall₂ (Stored o.digests fs) metas gs →
        (∀ g ∈ gs, g.n ≤ maxSafeInteger) → ∀ c ∈ metas, c.n ≤ maxSafeInteger := by
      intro metas gs hf hg c hc
      induction hf with
      | nil => cases hc
      | @cons c' g metas gs hx _ ih =>
        rcases List.mem_cons.mp hc with rfl | hc
        · rw [hx.n]
          exact hg g List.mem_cons_self
        · exact ih (fun g hm => hg g (List.mem_cons_of_mem _ hm)) hc
    intro ref href
    obtain ⟨c, hc, rfl⟩ := List.mem_map.mp href
    refine hall (List.rel_append h.cold d.stored) (fun g hg => ?_) c hc
    rcases List.mem_append.mp hg with hg | hg
    · exact h.counted g hg
    · exact d.counted g hg

/-- **The manifest after the demotion may be published.** -/
theorem publishes_released (h : Live o s fs b gens) (hh : Holds o fs' b)
    (d : Demotion o fs s n cold new) (hw : WrittenBy fs n s)
    (hl : ∀ p, s.receiptCkpts.getLast? = some p → 0 < p ∧ p ≤ maxSafeInteger ∧
      fs.get? (receiptsFile p) = some (.file (linesBytes (receiptValues l))))
    (hlr : ∀ e ∈ l, ReceiptOf b.log e.1 e.2) (tok : Text) (clean : Bool) {last : Option Nat}
    (hlast : ∀ k, last.or (s.manifest.bind Manifest.lastCheckpointN) = some k → k ≤ maxSafeInteger) :
    b.Publishes o fs (manifestOf (released n (demoted s) cold (markSaved n s)) tok clean last)
      (checkpointSnap n s (gens ++ new) l)
      (coreOf (released n (demoted s) cold (markSaved n s))) where
  format := rfl
  published := rfl
  counted := counted_released h d tok clean hlast
  checkpoint := le_refl s.epoch
  files := files_released h hh d hw hl tok clean last
  epoch := .inl h.atEnd.epoch
  recovered := by
    change Core.Steps (b.log.filter (isAfter ⟨s.epoch, s.seqCommitted⟩)) _ _
    rw [h.filter_log]
    exact core_checkpointSnap (h.hotKeyed hh) h.actions h.pending rfl
  tier := h.tier.released (h.hotKeyed hh) d.found rfl
  receipts e he := by
    rcases List.mem_append.mp he with he | he
    · exact h.receipts e.1 e.2 (s.receipts.mem_entries_iff.mp (List.mem_of_mem_filter he))
    · exact hlr e he

end

/-- A part of a core has the property that the core has. -/
def Downward (I : Regime) : Prop := ∀ a b : Core, a.Sub b → I.core b → I.core a

variable {I : Regime}

/-- Files beside the book change nothing. -/
theorem Good.beside (h : Good o I m b gens) (hb : Beside m m') : Good o I m' b gens := by
  obtain ⟨hot, cold, receipts, hr, hm⟩ := hb.mem
  have hcore : coreOf m'.mem = coreOf m.mem := by rw [hm]; rfl
  have hgroup : ∀ g, groupCore m'.mem g = groupCore m.mem g := fun g => by rw [hm]; rfl
  have hopen : m'.mem.group = m.mem.group := by rw [hm]
  refine ⟨by rw [hm]; exact h.state, h.holds.apart hb.disk, h.live.beside hb, ?_, ?_, ?_, ?_⟩
  · intro g hg
    rw [hopen] at hg
    exact (h.group g hg).congr hcore (hgroup g) (by rw [hm]) (by rw [hm]) (by rw [hm])
  · intro hc
    obtain ⟨h1, h2⟩ := h.inv hc
    refine ⟨hcore ▸ h1, fun g hg => ?_⟩
    rw [hopen] at hg
    exact hgroup g ▸ h2 g hg
  · rw [openFrames, hopen]
    exact h.known
  · rw [hb.sent]
    exact h.sent

theorem Rest.beside {b' : Book} (h : Rest o I b m b') (hb : Beside m m') : Rest o I b m' b' :=
  ⟨h.grew, h.holds.apart hb.disk, h.inv, h.known, by rw [hb.sent]; exact h.sent⟩

/-- A directory of the store is there. -/
theorem wp_mkdirTier {d : Path} {Q : Ensures State Post Nat} (hs : o.env.NoShort)
    (hl : Layout m.disk) (hd : d ∈ tierDirs) (hdone : ∀ k m', Quiet m m' → Q.done k m')
    (hr : ∀ e m', Quiet m m' → Q.raised e m') (hc : ∀ m', Quiet m m' → Q.crashed m') :
    wp (sys o.env (.mkdirp d)) Q m := by
  refine wp_sys hs ?_ ?_ ?_ ?_
  · intro fs hrun
    change m.disk.mkdirp d = _ at hrun
    rw [hl.mkdirp hd] at hrun
    cases hrun
    exact hdone _ _ ⟨rfl, rfl, rfl⟩
  · exact fun _ e kept => hr _ _ ⟨rfl, rfl, rfl⟩
  · intro e _
    exact hr _ _ ⟨rfl, rfl, rfl⟩
  · exact fun kept => hc _ ⟨rfl, rfl, rfl⟩

/-- The memory after the demotion is that of an owner that serves. -/
theorem Good.released {n : Nat} {new : List Gen} {cold : Option ColdMeta}
    {l : List (Text × Receipt)} {b' : Book} {manifest : Option Manifest}
    (h : Good o I m b gens) (hI : Downward I)
    (hg : ∀ g, m.mem.group = some g → g.frames = []) (d : Demotion o m.disk m.mem n cold new)
    (hfile : m.disk.get? (receiptsFile n) = some (.file (linesBytes (receiptValues l))))
    (hl : ∀ e ∈ l, ReceiptOf b.log e.1 e.2) (hb : SameLog b b')
    (hcheck : comparePos b'.man.checkpoint ⟨m.mem.epoch, m.mem.seqCommitted⟩ ≤ 0)
    (hsub : (coreOf (Ledger.released n (demoted m.mem) cold m.mem)).Sub b'.recovered)
    (hsync : o.env.Calm → coreOf (Ledger.released n (demoted m.mem) cold m.mem) = b'.recovered ∧
      gens ++ new = b'.snap.gens)
    (hmem : m'.mem = { Ledger.released n (demoted m.mem) cold m.mem with manifest := manifest })
    (hsent : m'.sent = m.sent) (hkept : Republished m.disk m'.disk) (hh : Holds o m'.disk b')
    (hlast : ∀ k, manifest.bind Manifest.lastCheckpointN = some k → k ≤ maxSafeInteger) :
    Good o I m' b' (gens ++ new) := by
  obtain ⟨mem, disk, tick, sent⟩ := m'
  subst hmem hsent
  have hlive := h.live.released (h.live.hotKeyed h.holds) d hfile hl hb hcheck hsub hsync
  have hblank : ∀ g, m.mem.group = some g →
      groupCore (Ledger.released n (demoted m.mem) cold m.mem) g
        = coreOf (Ledger.released n (demoted m.mem) cold m.mem) := fun g hgr =>
    (h.group g hgr).groupCore_blank (hg g hgr) rfl
  refine ⟨h.state, hh, ?_, ?_, ?_, by rw [hb.log]; exact h.known, ?_⟩
  · -- no file of the store is the manifest
    have hours : ∀ p, (∃ d ∈ tierDirs, ∃ name, p = joinPath d name) → Ours p ∧ p ≠ manifestPath := by
      rintro p ⟨d, hd, name, rfl⟩
      exact ⟨.inr ⟨d, hd, name, rfl⟩, tier_ne_store hd name "MANIFEST.json"⟩
    have hhot : ∀ name, Ours (joinPath hotDir name) ∧ joinPath hotDir name ≠ manifestPath :=
      fun name => hours _ ⟨hotDir, by simp [tierDirs], name, rfl⟩
    have hcold : ∀ name, Ours (joinPath coldDir name) ∧ joinPath coldDir name ≠ manifestPath :=
      fun name => hours _ ⟨coldDir, by simp [tierDirs], name, rfl⟩
    exact { hlive with
      atEnd := ⟨⟨hlive.atEnd.epoch, hlive.atEnd.segments⟩, hlive.atEnd.seg⟩
      cold := hlive.cold.imp fun c g hc => hc.congr (by
        rintro p buf hp (rfl | rfl | rfl)
        · exact hkept _ _ (hcold _).1 (hcold _).2 hp
        · exact hkept _ _ (hcold _).1 (hcold _).2 hp
        · exact hkept _ _ (hcold _).1 (hcold _).2 hp)
      saved := fun k hk => by
        obtain ⟨h1, h2, l', hl', hr'⟩ := hlive.saved k hk
        exact ⟨h1, h2, l', hkept _ _ (hhot _).1 (hhot _).2 hl', hr'⟩
      lastCheckpoint := hlast }
  · intro g hgr
    refine (h.group g hgr).of_blank (hg g hgr) rfl ?_
    have htx := hh.logOk.txns
    exact htx
  · intro hc
    have hdown := hI _ _ (sub_released n (demoted m.mem) cold m.mem) (h.inv hc).1
    exact ⟨hdown, fun g hgr => (hblank g hgr).symm ▸ hdown⟩
  · exact fun x hx => (h.sent x hx).mono hb.grew

/-- The generations that cannot be looked into. -/
def offlineCold (s : State) : List ColdMeta := s.cold.filter ColdMeta.offline

/-- The open group and the offline generations are the same. -/
structure Level (s s' : State) : Prop where
  group : s'.group = s.group
  offline : offlineCold s' = offlineCold s

theorem Level.refl (s : State) : Level s s := ⟨rfl, rfl⟩

theorem Level.trans {s s' s'' : State} (h : Level s s') (h' : Level s' s'') : Level s s'' :=
  ⟨h'.group.trans h.group, h'.offline.trans h.offline⟩

theorem Level.of_beside (hb : Beside m m') : Level m.mem m'.mem := by
  obtain ⟨_, _, _, -, hm⟩ := hb.mem
  rw [hm]
  exact ⟨rfl, rfl⟩

theorem Demotion.level {fs : FS} {s : State} {n : Nat} {cold : Option ColdMeta} {new : List Gen}
    {manifest : Option Manifest} (d : Demotion o fs s n cold new) (l : List Json) :
    Level s { Ledger.released n l cold s with manifest := manifest } := by
  have hnone : cold.toList.filter ColdMeta.offline = [] :=
    List.filter_eq_nil_iff.mpr fun x hx => by rw [d.resident x hx]; decide
  refine ⟨rfl, ?_⟩
  show (s.cold ++ cold.toList).filter ColdMeta.offline = _
  rw [List.filter_append, hnone, List.append_nil]
  rfl

/-- The book under the manifest of checkpoint `n` of the memory `u`, which became `s`. -/
def Book.compacted (b : Book) (n : Nat) (u s : State) (gens : List Gen)
    (prevReceipts : List (Text × Receipt)) (tok : Text) : Book :=
  b.publish (manifestOf s tok false (some n)) (checkpointSnap n u gens prevReceipts) (coreOf s)

/-- **The manifest of a checkpoint** is published over the memory after the demotion. -/
theorem wp_publishCheckpoint {u : State} {n : Nat} {cold : Option ColdMeta} {new : List Gen}
    {Q : Ensures State Post Unit} (hs : o.env.NoShort) (hI : Downward I) (h : Good o I m b gens)
    (hg : ∀ g, m.mem.group = some g → g.frames = []) (hmem : m.mem = markSaved n u)
    (hlive : Live o u m.disk b gens) (d : Demotion o m.disk u n cold new)
    (hw : WrittenBy m.disk n u)
    (hd : ∀ m' b' gens', SameLog b b' → Good o I m' b' gens' → Describes o m'.mem m'.disk b' →
      Level m.mem m'.mem → Q.done () m')
    (hr : ∀ e m' b' gens', SameLog b b' → Good o I m' b' gens' → Level m.mem m'.mem →
      Q.raised e m')
    (hc : ∀ m' b', Rest o I b m' b' → Q.crashed m') :
    wp (writeManifest o false (some n)) Q
      { m with mem := Ledger.released n (demoted u) cold m.mem } := by
  obtain ⟨l, hlr, hl⟩ := hlive.prevReceipts
  have hlast : ∀ k, (some n).or (u.manifest.bind Manifest.lastCheckpointN) = some k →
      k ≤ maxSafeInteger := fun k hk => by
    cases hk
    exact d.max
  have hunsaved : ∀ e ∈ unsavedReceipts u, ReceiptOf b.log e.1 e.2 := fun e he =>
    hlive.receipts e.1 e.2 (u.receipts.mem_entries_iff.mp (List.mem_of_mem_filter he))
  have hdem : demoted m.mem = demoted u := by rw [hmem]; rfl
  have hd₀ : Demotion o m.disk m.mem n cold new := hmem ▸ d.marked
  have hepoch : m.mem.epoch = b.man.epoch := h.live.atEnd.epoch
  have hsame : ∀ tok, SameLog b (b.compacted n u (Ledger.released n (demoted u) cold m.mem)
      (gens ++ new) l tok) := fun tok => ⟨rfl, rfl, rfl, rfl, hepoch⟩
  have hself : ∀ p : Pos, comparePos p p ≤ 0 := fun p => comparePos_nonpos_iff.mpr (.inr ⟨rfl, Nat.le_refl _⟩)
  have hsub : (coreOf (Ledger.released n (demoted u) cold m.mem)).Sub b.recovered :=
    (sub_released _ _ _ _).trans h.live.sub
  refine wp_writeManifest (b := b) (checkpointSnap n u (gens ++ new) l)
    (coreOf (Ledger.released n (demoted u) cold m.mem)) hs h.holds ?_ ?_ ?_ ?_
  · intro tok
    dsimp only
    rw [hmem]
    exact publishes_released hlive h.holds d hw hl hlr tok false hlast
  · intro tok m₁ hmem₁ hsent₁ hkept₁ hh₁
    have hgood : Good o I m₁ (b.compacted n u (Ledger.released n (demoted u) cold m.mem)
        (gens ++ new) l tok) (gens ++ new) := by
      refine h.released hI hg hd₀ hw.receipts hunsaved (hsame tok) (hself _)
        ?_ ?_ (by rw [hdem]; exact hmem₁) hsent₁ hkept₁ hh₁ ?_
      · rw [hdem]
        exact .refl _
      · intro _
        rw [hdem]
        exact ⟨rfl, rfl⟩
      · intro k hk
        cases hk
        exact d.max
    refine hd m₁ _ _ (hsame tok) hgood ⟨fun tok' clean last => ?_, ?_, fun tok' clean => ?_⟩ ?_
    · rw [hmem₁, hmem]
      exact filesRepublished (files_released hlive h.holds d hw hl tok' clean last) hkept₁ rfl rfl rfl
        rfl rfl
    · rw [hmem₁]
      rfl
    · have hcounted := counted_released hlive d tok' clean hlast
      rw [hmem₁, hmem]
      exact ⟨hcounted.named, hcounted.cold⟩
    · rw [hmem₁]
      exact hd₀.level _
  · intro tok e m₁ hn hsm hkept₁ hh₁
    have hmem₁ : m₁.mem = { Ledger.released n (demoted m.mem) cold m.mem with
        manifest := m.mem.manifest } := by
      rw [hdem]
      exact hsm.mem
    rcases hh₁ with hh₁ | hh₁
    · refine hr e m₁ b (gens ++ new) (.refl b) ?_ (by rw [hmem₁]; exact hd₀.level _)
      refine h.released hI hg hd₀ hw.receipts hunsaved (.refl b) h.live.checkpoint ?_
        (fun hcalm => absurd hcalm hn) hmem₁ hsm.sent hkept₁ hh₁ h.live.lastCheckpoint
      rw [hdem]
      exact hsub
    · refine hr e m₁ _ (gens ++ new) (hsame tok) ?_ (by rw [hmem₁]; exact hd₀.level _)
      refine h.released hI hg hd₀ hw.receipts hunsaved (hsame tok) (hself _)
        ?_ (fun hcalm => absurd hcalm hn) hmem₁ hsm.sent hkept₁ hh₁ h.live.lastCheckpoint
      rw [hdem]
      exact .refl _
  · intro tok m₁ hsent₁ hh₁
    rcases hh₁ with hh₁ | hh₁
    · exact hc m₁ b ⟨.refl b, hh₁, h.rest.inv, h.rest.known, by rw [hsent₁]; exact h.sent⟩
    · refine hc m₁ _ ⟨(hsame tok).grew, hh₁, fun hcalm => ?_, h.rest.known, ?_⟩
      · exact hI _ _ (sub_released _ _ _ _) (h.inv hcalm).1
      · rw [hsent₁]
        exact fun x hx => (h.sent x hx).mono (hsame tok).grew

/-- **A checkpoint** keeps the log and what it means. When it fails the owner still serves. -/
theorem wp_checkpointBody {reason : Text} {Q : Ensures State Post Json} (hs : o.env.NoShort)
    (hI : Downward I) (h : Good o I m b gens) (hg : ∀ g, m.mem.group = some g → g.frames = [])
    (hd : ∀ v m' b' gens', SameLog b b' → Good o I m' b' gens' → Describes o m'.mem m'.disk b' →
      Level m.mem m'.mem → Q.done v m')
    (hr : ∀ e m' b' gens', SameLog b b' → Good o I m' b' gens' → Level m.mem m'.mem →
      Q.raised e m')
    (hc : ∀ m' b', Rest o I b m' b' → Q.crashed m') :
    wp (checkpointBody o reason) Q m := by
  have hraise : ∀ e m', Beside m m' → Q.raised e m' := fun e m' hb =>
    hr e m' b gens (.refl b) (h.beside hb) (.of_beside hb)
  have hcrash : ∀ m', Beside m m' → Q.crashed m' := fun m' hb => hc m' b (h.rest.beside hb)
  unfold checkpointBody
  rw [wp_bind]
  refine wp_reserve ?_ fun e _ => hraise e m (.refl m)
  intro n s htake
  have hn : 0 < n ∧ n ≤ maxSafeInteger ∧ s = { m.mem with allocHot := n } := by
    unfold reserveHot at htake
    simp only at htake
    split at htake
    · next hle =>
      cases htake
      exact ⟨Nat.succ_pos _, hle, rfl⟩
    · cases htake
  obtain ⟨hpos, hmax, rfl⟩ := hn
  have h₀ : Beside m { m with mem := { m.mem with allocHot := n } } :=
    ⟨⟨n, m.mem.allocCold, m.mem.receipts, .refl _, rfl⟩, .refl _, rfl⟩
  have hl := h.holds.layout
  dsimp only
  rw [wp_bind]
  refine wp_mkdirTier hs hl (by simp [tierDirs]) ?_ (fun e m' hq => hraise e m' (h₀.trans (.of_quiet hq)))
    fun m' hq => hcrash m' (h₀.trans (.of_quiet hq))
  intro _ m₁ hq₁
  have h₁ := h₀.trans (.of_quiet hq₁)
  dsimp only
  rw [wp_bind]
  refine wp_mkdirTier hs (h₁.disk.layout hl) (by simp [tierDirs]) ?_
    (fun e m' hq => hraise e m' (h₁.trans (.of_quiet hq)))
    fun m' hq => hcrash m' (h₁.trans (.of_quiet hq))
  intro _ m₂ hq₂
  have h₂ := h₁.trans (.of_quiet hq₂)
  dsimp only
  rw [wp_bind]
  refine wp_mkdirTier hs (h₂.disk.layout hl) (by simp [tierDirs]) ?_
    (fun e m' hq => hraise e m' (h₂.trans (.of_quiet hq)))
    fun m' hq => hcrash m' (h₂.trans (.of_quiet hq))
  intro _ m₃ hq₃
  have h₃ := h₂.trans (.of_quiet hq₃)
  have hgood₃ := h.beside h₃
  dsimp only
  simp only [wp_bind, wp_get]
  refine wp_writeCold hs (nodup_values (hgood₃.live.hotKeyed hgood₃.holds) _) ?_
    (fun e m' hb => hraise e m' (h₃.trans hb)) fun m' hb => hcrash m' (h₃.trans hb)
  intro cold new m₄ hb₄ hstored hfound hsorted hcount hresident
  have h₄ := h₃.trans hb₄
  have hgood₄ := h.beside h₄
  have hdem : demoted m₃.mem = demoted m₄.mem ∧ m₃.mem.cold = m₄.mem.cold := by
    obtain ⟨_, _, _, -, hm⟩ := hb₄.mem
    rw [hm]
    exact ⟨rfl, rfl⟩
  rw [hdem.1] at hfound ⊢
  dsimp only
  refine wp_writeCheckpointFiles hs hmax ?_ (fun e m' hb => hraise e m' (h₄.trans hb))
    fun m' hb => hcrash m' (h₄.trans hb)
  intro m₅ hb₅ hmem₅ hw
  have h₅ := h₄.trans hb₅
  have hgood₅ := h.beside h₅
  have d : Demotion o m₅.disk m₄.mem n cold new := by
    refine ⟨hpos, hmax, ?_, hfound, hsorted, fun g hg => (hcount g hg).1, fun g hg x hx => ?_,
      hresident⟩
    · refine hstored.imp fun c g hc => hc.congr ?_
      rintro p buf hp (rfl | rfl | rfl)
      · exact hb₅.disk.kept _ _ (ours_cold _) hp
      · exact hb₅.disk.kept _ _ (ours_cold _) hp
      · exact hb₅.disk.kept _ _ (ours_cold _) hp
    · exact (hcount g hg).2 x (by rw [hdem.2]; exact hx)
  have hlive : Live o m₄.mem m₅.disk b gens := hgood₄.live.kept hb₅.disk.kept
  have hblank : ∀ g, m₅.mem.group = some g → g.frames = [] := fun g hgr =>
    hg g (by rw [← (Level.of_beside h₅).group, hgr])
  simp only [wp_modify]
  refine wp_publishCheckpoint hs hI hgood₅ hblank hmem₅ hlive d hw ?_
    (fun e m' b' gens' hsame hgood hv => hr e m' b' gens' hsame hgood ((Level.of_beside h₅).trans hv)) hc
  intro m₆ b' gens' hsame hgood hdesc hlevel
  have hidle : Idle.Post (.demoted ((demoted m₄.mem).map fun r => r.textField "inject_id") n) :=
    fun a ha => by cases ha
  have hend : ∀ m₇, Good o I m₇ b' gens' → Describes o m₇.mem m₇.disk b' →
      Level m₅.mem m₇.mem → Q.done (.obj [("n", .num n), ("demoted",
        .num (demoted m₄.mem).length)])
        { m₇ with sent := m₇.sent ++ [(.progress "compact" reason, m₇.disk)] } := by
    intro m₇ hgood₇ hdesc₇ hlevel₇
    exact hd _ _ b' gens' hsame (hgood₇.post (.of_idle fun a ha => by cases ha)) hdesc₇
      ((Level.of_beside h₅).trans hlevel₇)
  unfold postDemoted
  dsimp only
  split
  · exact hend m₆ hgood hdesc hlevel
  · exact hend _ (hgood.post (.of_idle hidle)) hdesc hlevel

end

end Telepty.Ledger
