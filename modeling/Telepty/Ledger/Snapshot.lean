import Telepty.Ledger.Cold
import Telepty.Ledger.Replay

/-!
# What a checkpoint holds

`Snap` is the content of the files that a published manifest names: the hot records, the actions and
the pending interactions, the receipts of the last two checkpoints, the facts and the cold
generations. `Snap.Files` says that the files of a disk hold it, and `loadCheckpoint_done` that a
recovery loads exactly that.
-/

namespace Telepty.Ledger

open Infra Prog

/-! ## Lines -/

theorem unbroken_stringify (v : Json) : Unbroken (encodeText v.stringify) := by
  intro h
  have hm := mem_of_mem_encodeText h (by decide)
  have hc := Json.le_of_mem_stringify v hm
  exact absurd hc (by decide)

theorem stringify_ne_nil (v : Json) : v.stringify ≠ [] := by
  obtain ⟨c, t, h, -⟩ := Json.stringify_cons v
  rw [h]
  exact List.cons_ne_nil _ _

theorem linesBytes_eq_joinLines (values : List Json) :
    linesBytes values = joinLines (values.map fun v => encodeText v.stringify) := by
  induction values with
  | nil => rfl
  | cons v values ih =>
    rw [List.map_cons, joinLines_cons, ← ih, linesBytes, List.flatMap_cons, encodeText_append,
      List.append_assoc]
    rfl

/-- **Lines are read as they were written.** -/
theorem linesOf_linesBytes (values : List Json) :
    linesOf (linesBytes values) = values.map Json.stringify := by
  have hu : ∀ l ∈ values.map fun v => encodeText v.stringify, Unbroken l := by
    intro l hl
    obtain ⟨v, -, rfl⟩ := List.mem_map.mp hl
    exact unbroken_stringify v
  have hsplit : splitLines (linesBytes values)
      = (values.map fun v => encodeText v.stringify, []) := by
    have h := splitLines_joinLines hu (show Unbroken [] by simp [Unbroken])
    rwa [List.append_nil, ← linesBytes_eq_joinLines] at h
  have hne : ∀ v : Json, encodeText v.stringify ≠ [] := by
    intro v h
    exact stringify_ne_nil v (encodeText_injective (h.trans encodeText_nil.symm))
  rw [linesOf, hsplit, List.filter_append, List.filter_eq_self.mpr]
  · simp [List.map_map, Function.comp_def, decodeText_encodeText]
  · intro l hl
    obtain ⟨v, -, rfl⟩ := List.mem_map.mp hl
    simpa using hne v

theorem readLines_of_get? {fs : FS} {p : Path} {values : List Json}
    (h : fs.get? p = some (.file (linesBytes values))) :
    readLines fs p = .ok (values.map Json.stringify) := by
  rw [readLines, FS.readFile_of_get? h, ← linesOf_linesBytes]
  rfl

/-! ## The content of a checkpoint -/

def actionId (a : Json) : Text := a.textField "action_id"

/-- Values under their own keys. -/
def byKey (key : Json → Text) (values : List Json) : List (Text × Json) :=
  values.map fun v => (key v, v)

structure Snap where
  /-- the number of the checkpoint -/
  n : Nat
  /-- the number of the checkpoint before, when its receipts are still held -/
  prev : Option Nat
  records : List Json
  actions : List Json
  pending : List Json
  facts : List Fact
  receipts : List (Text × Receipt)
  prevReceipts : List (Text × Receipt)
  gens : List Gen

namespace Snap

/-- What a checkpoint means: the memory that is loaded from it. -/
def core (x : Snap) : Core where
  records := (OrdMap.empty.setAll (byKey injectId x.records)).get?
  facts := x.facts
  actions := (OrdMap.empty.setAll (byKey actionId x.actions)).get?
  pending := (OrdMap.empty.setAll (byKey injectId x.pending)).get?

def hotValues (x : Snap) : List Json :=
  x.records.map recordLineJson ++ x.actions.map actionLineJson ++ x.pending.map pendingLineJson

/-- Receipts as the file of checkpoint `n` gives them back. -/
def numbered (n : Nat) (receipts : List (Text × Receipt)) : List (Text × Receipt) :=
  receipts.map fun e => (e.1, { e.2 with ckpt := .number n })

/-- The memory with the content of the hot file. -/
def withHot (x : Snap) (s : State) : State :=
  { s with
    hot := s.hot.setAll (byKey injectId x.records)
    actions := s.actions.setAll (byKey actionId x.actions)
    pending := s.pending.setAll (byKey injectId x.pending) }

/-- The memory with the receipts of checkpoint `n`. -/
def withReceipts (n : Nat) (receipts : List (Text × Receipt)) (s : State) : State :=
  { s with
    receipts := s.receipts.setAll (numbered n receipts)
    receiptCkpts := s.receiptCkpts ++ [n] }

/-- The memory with the receipts of the checkpoint before, when there is one. -/
def withPrev (x : Snap) (s : State) : State :=
  x.prev.elim s fun p => withReceipts p x.prevReceipts s

/-- The memory with the content of the checkpoint. -/
def load (x : Snap) (cold : List ColdMeta) (s : State) : State :=
  { withReceipts x.n x.receipts (x.withPrev (x.withHot s)) with
    checkpointN := x.n
    facts := s.facts ++ x.facts
    cold := cold }

end Snap

/-- The lines of a receipts file. -/
def receiptValues (receipts : List (Text × Receipt)) : List Json :=
  receipts.map fun e => receiptJson e.1 e.2

def refOf (c : ColdMeta) : ColdRef := ⟨c.n, c.records, c.bytes⟩

/-- The files that a manifest names hold a checkpoint. -/
structure Snap.Files (D : Digests) (fs : FS) (m : Manifest) (x : Snap) : Prop where
  hotN : m.hotN = some x.n
  receiptsN : m.receiptsN = some x.n
  factsN : m.factsN = some x.n
  receiptsPrev : m.receiptsPrev = x.prev
  pos : 0 < x.n
  prevPos : ∀ p, x.prev = some p → 0 < p
  hot : fs.get? (hotFile x.n) = some (.file (linesBytes x.hotValues))
  receipts : fs.get? (receiptsFile x.n) = some (.file (linesBytes (receiptValues x.receipts)))
  prevReceipts : ∀ p, x.prev = some p →
    fs.get? (receiptsFile p) = some (.file (linesBytes (receiptValues x.prevReceipts)))
  facts : fs.get? (factsFile x.n) = some (.file (linesBytes (x.facts.map Fact.toJson)))
  sorted : x.facts.Pairwise Fact.le
  cold : ∃ metas, List.Forall₂ (Stored D fs) metas x.gens ∧ m.cold = metas.map refOf
  ascending : x.gens.Pairwise fun a b => a.n < b.n

/-! ## Loading -/

theorem truthy_of_pos {n : Nat} (h : 0 < n) : truthy (some n) = some n := by
  obtain ⟨k, rfl⟩ : ∃ k, n = k + 1 := ⟨n - 1, by omega⟩
  rfl

theorem hotLine_record (r : Json) (s : State) :
    hotLine (recordLineJson r).stringify s = .ok { s with hot := s.hot.set (injectId r) r } := by
  rw [hotLine, Json.parse_stringify]
  rfl

theorem hotLine_action (a : Json) (s : State) : hotLine (actionLineJson a).stringify s
    = .ok { s with actions := s.actions.set (actionId a) a } := by
  rw [hotLine, Json.parse_stringify]
  rfl

theorem hotLine_pending (p : Json) (s : State) : hotLine (pendingLineJson p).stringify s
    = .ok { s with pending := s.pending.set (injectId p) p } := by
  rw [hotLine, Json.parse_stringify]
  rfl

theorem receiptLine_receipt (n : Nat) (e : Text × Receipt) (s : State) :
    receiptLine n (receiptJson e.1 e.2).stringify s
      = .ok { s with receipts := s.receipts.set e.1 { e.2 with ckpt := .number n } } := by
  obtain ⟨txn, pos, kind, id, ckpt⟩ := e
  rw [receiptLine, Json.parse_stringify]
  cases id <;> rfl

theorem factLine_fact (f : Fact) (s : State) :
    factLine f.toJson.stringify s = .ok { s with facts := s.facts ++ [f] } := by
  rw [factLine, Json.parse_stringify]
  simp only [Fact.ofJson_toJson]

theorem walks_records (rs : List Json) (s : State) :
    Walks hotLine ((rs.map recordLineJson).map Json.stringify) s
      { s with hot := s.hot.setAll (byKey injectId rs) } := by
  induction rs generalizing s with
  | nil => rfl
  | cons r rs ih => exact ⟨_, hotLine_record r s, ih _⟩

theorem walks_actions (as : List Json) (s : State) :
    Walks hotLine ((as.map actionLineJson).map Json.stringify) s
      { s with actions := s.actions.setAll (byKey actionId as) } := by
  induction as generalizing s with
  | nil => rfl
  | cons a as ih => exact ⟨_, hotLine_action a s, ih _⟩

theorem walks_pending (ps : List Json) (s : State) :
    Walks hotLine ((ps.map pendingLineJson).map Json.stringify) s
      { s with pending := s.pending.setAll (byKey injectId ps) } := by
  induction ps generalizing s with
  | nil => rfl
  | cons p ps ih => exact ⟨_, hotLine_pending p s, ih _⟩

theorem walks_hotValues (x : Snap) (s : State) :
    Walks hotLine (x.hotValues.map Json.stringify) s (x.withHot s) := by
  rw [Snap.hotValues, List.map_append, List.map_append]
  exact walks_append (walks_append (walks_records _ _) (walks_actions _ _)) (walks_pending _ _)

theorem walks_receipts (n : Nat) (receipts : List (Text × Receipt)) (s : State) :
    Walks (receiptLine n) ((receiptValues receipts).map Json.stringify) s
      { s with receipts := s.receipts.setAll (Snap.numbered n receipts) } := by
  induction receipts generalizing s with
  | nil => rfl
  | cons e receipts ih => exact ⟨_, receiptLine_receipt n e s, ih _⟩

theorem walks_facts (facts : List Fact) (s : State) :
    Walks factLine ((facts.map Fact.toJson).map Json.stringify) s
      { s with facts := s.facts ++ facts } := by
  induction facts generalizing s with
  | nil =>
    rw [List.append_nil]
    rfl
  | cons f facts ih =>
    refine ⟨_, factLine_fact f s, ?_⟩
    have h := ih { s with facts := s.facts ++ [f] }
    simp only [List.append_assoc, List.singleton_append] at h
    exact h

section

variable {o : Options} {m : Machine State Post} {n : Nat}

theorem loadHot_done {x : Snap} (h : m.disk.get? (hotFile n) = some (.file (linesBytes x.hotValues))) :
    loadHot n m = .done () { m with mem := x.withHot m.mem } := by
  rw [loadHot, bind_eq_done]
  refine ⟨m.disk, m, rfl, ?_⟩
  rw [if_pos (by rw [FS.lstat, h]; rfl), bind_eq_done]
  refine ⟨x.hotValues.map Json.stringify, m, ?_, stepAll_of_walks (walks_hotValues x m.mem)⟩
  rw [readLines_of_get? h]
  rfl

theorem loadReceipts_done {receipts : List (Text × Receipt)}
    (h : m.disk.get? (receiptsFile n) = some (.file (linesBytes (receiptValues receipts)))) :
    loadReceipts n m = .done () { m with mem := Snap.withReceipts n receipts m.mem } := by
  rw [loadReceipts, bind_eq_done]
  refine ⟨m.disk, m, rfl, ?_⟩
  rw [if_pos (by rw [FS.lstat, h]; rfl), bind_eq_done]
  refine ⟨(receiptValues receipts).map Json.stringify, m, ?_, ?_⟩
  · rw [readLines_of_get? h]
    rfl
  · rw [bind_eq_done]
    exact ⟨(), _, stepAll_of_walks (walks_receipts n receipts m.mem), rfl⟩

theorem loadFacts_done {facts : List Fact}
    (h : m.disk.get? (factsFile n) = some (.file (linesBytes (facts.map Fact.toJson)))) :
    loadFacts n m = .done () { m with mem := { m.mem with facts := m.mem.facts ++ facts } } := by
  rw [loadFacts, bind_eq_done]
  refine ⟨m.disk, m, rfl, ?_⟩
  rw [if_pos (by rw [FS.lstat, h]; rfl), bind_eq_done]
  refine ⟨(facts.map Fact.toJson).map Json.stringify, m, ?_, stepAll_of_walks (walks_facts facts m.mem)⟩
  rw [readLines_of_get? h]
  rfl

end

/-! ## The cold generations -/

/-- The same generation, resident or not. -/
theorem Stored.offline {D : Digests} {fs : FS} {c : ColdMeta} {g : Gen} (h : Stored D fs c g)
    (b : Bool) : Stored D fs { c with offline := b } g :=
  ⟨h.n, h.file, h.records, h.distinct, h.written, h.idFile, h.sidFile⟩

/-- The number of records is stored, or it is none and the index is empty. -/
theorem Stored.recount {D : Digests} {fs : FS} {c : ColdMeta} {g : Gen} (h : Stored D fs c g) :
    (if c.records = 0 then c.idIdx.length / indexEntryBytes else c.records) = c.records := by
  split
  · next hz =>
    obtain ⟨files, hfiles, hids, -⟩ := h.written
    have hnil : g.records = [] := List.length_eq_zero_iff.mp (h.records.symm.trans hz)
    rw [hnil] at hfiles
    cases hfiles
    have hidx : c.idIdx = [] := (Except.ok.inj hids).symm
    rw [hidx, hz]
    rfl
  · rfl

/-- **The generations are loaded as they are stored**, each resident or offline. -/
theorem loadCold_stored {D : Digests} {fs : FS} {metas : List ColdMeta} {gens : List Gen}
    (budget : Nat) (h : List.Forall₂ (Stored D fs) metas gens) :
    ∃ cold, loadCold fs budget (metas.map refOf) = .ok cold ∧
      List.Forall₂ (Stored D fs) cold gens ∧
      cold.map (fun c => { c with offline := false }) = metas.map fun c => { c with offline := false } := by
  induction h generalizing budget with
  | nil => exact ⟨[], rfl, .nil, rfl⟩
  | @cons c g metas gens hc _ ih =>
    obtain ⟨cold, hcold, hall, hmap⟩ := ih (if budget < c.idIdx.length + c.sidIdx.length then budget
      else budget - (c.idIdx.length + c.sidIdx.length))
    have hid : ioResult (fs.readFile (coldIdIndexFile c.n)) = .ok c.idIdx := by
      rw [hc.n, FS.readFile_of_get? hc.idFile]
      rfl
    have hsid : ioResult (fs.readFile (coldSidIndexFile c.n)) = .ok c.sidIdx := by
      rw [hc.n, FS.readFile_of_get? hc.sidFile]
      rfl
    have hself : (⟨c.n, coldFile c.n, c.idIdx, c.sidIdx, c.records, c.bytes,
        decide (budget < c.idIdx.length + c.sidIdx.length)⟩ : ColdMeta)
        = { c with offline := decide (budget < c.idIdx.length + c.sidIdx.length) } := by
      rw [hc.n, ← hc.file, ← hc.n]
    refine ⟨{ c with offline := decide (budget < c.idIdx.length + c.sidIdx.length) } :: cold, ?_,
      .cons (hc.offline _) hall, ?_⟩
    · have hcount : (if (refOf c).records = 0 then c.idIdx.length / indexEntryBytes
          else (refOf c).records) = c.records := hc.recount
      have hn : (refOf c).n = c.n := rfl
      have hb : (refOf c).bytes = c.bytes := rfl
      rw [List.map_cons, loadCold, hn, hid, hsid]
      simp only [Bind.bind, Except.bind, Pure.pure, Except.pure, hcold, hcount, hb, hself]
    · rw [List.map_cons, List.map_cons, hmap]

theorem coldRefs_sorted {D : Digests} {fs : FS} {metas : List ColdMeta} {gens : List Gen}
    (h : List.Forall₂ (Stored D fs) metas gens) (ha : gens.Pairwise fun a b => a.n < b.n) :
    (metas.map refOf).Pairwise ColdRef.le := by
  rw [List.pairwise_map]
  induction h with
  | nil => exact .nil
  | @cons c g metas gens hc hall ih =>
    rw [List.pairwise_cons] at ha
    refine .cons (fun c' hc' => ?_) (ih ha.2)
    obtain ⟨g', hg', hs⟩ : ∃ g' ∈ gens, Stored D fs c' g' := by
      clear ih ha
      induction hall with
      | nil => cases hc'
      | cons hx _ ih =>
        rcases List.mem_cons.mp hc' with rfl | hc'
        · exact ⟨_, List.mem_cons_self, hx⟩
        · obtain ⟨g', hg', hs⟩ := ih hc'
          exact ⟨g', List.mem_cons_of_mem _ hg', hs⟩
    have hlt := ha.1 g' hg'
    show c.n ≤ c'.n
    rw [hc.n, hs.n]
    exact Nat.le_of_lt hlt

/-! ## The checkpoint -/

/-- **A recovery loads what the checkpoint holds.** -/
theorem loadCheckpoint_done {o : Options} {manifest : Manifest} {x : Snap} {m : Machine State Post}
    (h : x.Files o.digests m.disk manifest) (hf : m.mem.facts = []) :
    ∃ cold, loadCheckpoint o manifest m = .done () { m with mem := x.load cold m.mem } ∧
      List.Forall₂ (Stored o.digests m.disk) cold x.gens := by
  obtain ⟨metas, hall, hrefs⟩ := h.cold
  obtain ⟨cold, hcold, hstored, -⟩ := loadCold_stored o.coldIndexMaxBytes (List.rel_reverse hall)
  have hsort : manifest.cold.insertionSort ColdRef.le = metas.map refOf := by
    rw [hrefs]
    exact (coldRefs_sorted hall h.ascending).insertionSort_eq
  have hreverse : (manifest.cold.insertionSort ColdRef.le).reverse = metas.reverse.map refOf := by
    rw [hsort, List.map_reverse]
  have hn : (truthy manifest.hotN).getD 1 = x.n := by rw [h.hotN, truthy_of_pos h.pos]; rfl
  have hfn : (truthy manifest.factsN).getD 1 = x.n := by rw [h.factsN, truthy_of_pos h.pos]; rfl
  have hrn : truthy manifest.receiptsN = some x.n := by rw [h.receiptsN, truthy_of_pos h.pos]
  refine ⟨cold.reverse, ?_, by simpa using List.rel_reverse hstored⟩
  have hprev : ∀ s : State, (truthy manifest.receiptsPrev).elim (pure ()) loadReceipts
      { m with mem := s } = .done () { m with mem := x.withPrev s } := by
    intro s
    rw [h.receiptsPrev, Snap.withPrev]
    cases hp : x.prev with
    | none => rfl
    | some p =>
      rw [truthy_of_pos (h.prevPos p hp)]
      exact loadReceipts_done (h.prevReceipts p hp)
  have hcurrent : ∀ s : State, (some x.n).elim (pure ()) loadReceipts { m with mem := s }
      = .done () { m with mem := Snap.withReceipts x.n x.receipts s } := fun s =>
    loadReceipts_done h.receipts
  have hfact : ∀ s : State, loadFacts x.n { m with mem := s }
      = .done () { m with mem := { s with facts := s.facts ++ x.facts } } := fun s =>
    loadFacts_done h.facts
  have hload : (ofExcept (loadCold m.disk o.coldIndexMaxBytes
      (manifest.cold.insertionSort ColdRef.le).reverse) : Owner (List ColdMeta)) = pure cold := by
    rw [hreverse, hcold]
    rfl
  have hfacts : (m.mem.facts ++ x.facts).insertionSort Fact.le = m.mem.facts ++ x.facts := by
    rw [hf, List.nil_append]
    exact h.sorted.insertionSort_eq
  have hmem : (x.withPrev (x.withHot m.mem)).facts = m.mem.facts := by
    unfold Snap.withPrev
    cases x.prev <;> rfl
  unfold loadCheckpoint
  rw [hn, hfn, hrn]
  refine (bind_of_done (loadHot_done h.hot)).trans ?_
  refine (bind_of_done (hprev (x.withHot m.mem))).trans ?_
  refine (bind_of_done (hcurrent _)).trans ?_
  refine (bind_of_done rfl).trans ?_
  refine (bind_of_done (hfact _)).trans ?_
  refine (bind_of_done rfl).trans ?_
  refine (bind_of_done rfl).trans ?_
  refine (bind_of_done (congrFun hload _)).trans ?_
  refine congrArg (fun l => Outcome.done () { m with mem := { x.load cold.reverse m.mem with
    facts := l } }) (?_ : ((x.withPrev (x.withHot m.mem)).facts ++ x.facts).insertionSort Fact.le
      = m.mem.facts ++ x.facts)
  rw [hmem, hfacts]

end Telepty.Ledger
