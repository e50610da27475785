import Telepty.Ledger.Format

/-!
# When observations are folded

A fact is one line in the log, however many records it applies to. It becomes an observation of a
record when the record is next written (`materialize`) or read (`overlay`), so a record can be
materialized at any positions of the log in between. `overlay_materializeParts` says that these
positions cannot be seen in the record: they only show in its field `materialized_through`, which
is the owner's own and which `toLegacyRecord` takes away.
-/

namespace Telepty.Ledger

open Infra

/-! ## The fields of a record -/

/-- The same fields but for the position the record is materialized through. -/
def SameRecord (a b : Json) : Prop :=
  ∀ k : Text, k ≠ "materialized_through" → a.field k = b.field k

namespace SameRecord

variable {a b c : Json}

theorem refl (a : Json) : SameRecord a a := fun _ _ => rfl

theorem trans (h : SameRecord a b) (h' : SameRecord b c) : SameRecord a c := fun k hk =>
  (h k hk).trans (h' k hk)

/-- A field that is written becomes the same. -/
theorem set (h : SameRecord a b) (k : Text) (v : Json) : SameRecord (a.set k v) (b.set k v) := by
  intro k' hk'
  by_cases he : k' = k
  · subst he
    rw [Json.field_set_self, Json.field_set_self]
  · rw [Json.field_set_of_ne _ _ he, Json.field_set_of_ne _ _ he, h k' hk']

/-- The position a record is materialized through is no other field. -/
theorem set_through (h : SameRecord a b) (v : Json) :
    SameRecord (a.set "materialized_through" v) b := fun k hk =>
  (Json.field_set_of_ne _ _ hk).trans (h k hk)

theorem observationEntry (h : SameRecord a b) (observation : Json) :
    observationEntry a observation = observationEntry b observation := by
  rw [Ledger.observationEntry, Ledger.observationEntry, Json.natField, Json.natField,
    h "observation_seq" (by decide)]

theorem appendObservation (h : SameRecord a b) (observation : Json) :
    SameRecord (appendObservation a observation) (appendObservation b observation) := by
  have hseq : a.natField "observation_seq" = b.natField "observation_seq" := by
    rw [Json.natField, Json.natField, h "observation_seq" (by decide)]
  have hobs : observationsOf a = observationsOf b := by
    rw [observationsOf, observationsOf, h "observations" (by decide)]
  rw [Ledger.appendObservation, Ledger.appendObservation, h.observationEntry, hseq, hobs]
  exact ((h.set _ _).set _ _).set _ _

theorem foldFacts (h : SameRecord a b) (facts : List Fact) :
    SameRecord (foldFacts a facts) (foldFacts b facts) := by
  induction facts generalizing a b with
  | nil => exact h
  | cons f facts ih => exact ih (h.appendObservation f.observation)

end SameRecord

theorem foldFacts_append (record : Json) (l l' : List Fact) :
    foldFacts record (l ++ l') = foldFacts (foldFacts record l) l' := List.foldl_append ..

/-- Observations change three fields. -/
theorem field_appendObservation {k : Text}
    (hk : k ∉ (["observation_seq", "last_observation", "observations"] : List Text))
    (record observation : Json) : (appendObservation record observation).field k = record.field k := by
  simp only [List.mem_cons, List.not_mem_nil, or_false, not_or] at hk
  rw [appendObservation, Json.field_set_of_ne _ _ hk.2.2, Json.field_set_of_ne _ _ hk.2.1,
    Json.field_set_of_ne _ _ hk.1]

theorem field_foldFacts {k : Text}
    (hk : k ∉ (["observation_seq", "last_observation", "observations"] : List Text))
    (record : Json) (facts : List Fact) : (foldFacts record facts).field k = record.field k := by
  induction facts generalizing record with
  | nil => rfl
  | cons f facts ih => exact (ih _).trans (field_appendObservation hk record f.observation)

@[simp] theorem materializedThrough_foldFacts (record : Json) (facts : List Fact) :
    materializedThrough (foldFacts record facts) = materializedThrough record := by
  rw [materializedThrough, field_foldFacts (by decide), materializedThrough]

@[simp] theorem materializedThrough_materialize (record : Json) (facts : List Fact) (at_ : Pos) :
    materializedThrough (materialize record facts at_) = at_ := by
  rw [materializedThrough, materialize, Json.field_set_self]
  exact Pos.ofJson_toJson at_

theorem sameRecord_materialize (record : Json) (facts : List Fact) (at_ : Pos) :
    SameRecord (materialize record facts at_) (foldFacts record facts) :=
  (SameRecord.refl _).set_through _

/-! ## The facts that are pending -/

/-- `p` comes after `q` in the log. -/
def Pos.After (p q : Pos) : Prop := 0 < comparePos p q

instance (p q : Pos) : Decidable (p.After q) := inferInstanceAs (Decidable (_ < _))

theorem Pos.after_iff {p q : Pos} :
    p.After q ↔ q.epoch < p.epoch ∨ q.epoch = p.epoch ∧ q.seq < p.seq := by
  rw [Pos.After, ← comparePos_neg_iff, comparePos_swap p q]
  omega

theorem Pos.not_after_iff {p q : Pos} : ¬ p.After q ↔ comparePos p q ≤ 0 := Int.not_lt

theorem Pos.not_after_self (p : Pos) : ¬ p.After p := by
  rw [Pos.after_iff]
  omega

theorem Pos.after_of_ne {p q : Pos} (h : p ≠ q) (h' : ¬ q.After p) : p.After q := by
  obtain ⟨e, n⟩ := p
  obtain ⟨e', n'⟩ := q
  rw [ne_eq, Pos.mk.injEq] at h
  rw [Pos.after_iff] at h' ⊢
  simp only at h' ⊢
  omega

/-- Without an upper bound every fact after `through` that applies is pending. -/
theorem factsBetween_none (record : Json) (through : Pos) (facts : List Fact) :
    factsBetween record through none facts
      = facts.filter fun f => decide (f.pos.After through) && factApplies f record := by
  induction facts with
  | nil => rfl
  | cons f facts ih =>
    rw [factsBetween, List.filter_cons, ih]
    by_cases hf : f.pos.After through
    · rw [if_neg (by rwa [← Pos.not_after_iff, not_not]), if_neg (by simp)]
      simp [hf]
    · rw [if_pos (Pos.not_after_iff.mp hf)]
      simp [hf]

theorem pendingFactsFor_none (record : Json) (facts : List Fact) :
    pendingFactsFor record facts none = facts.filter fun f =>
      decide (f.pos.After (materializedThrough record)) && factApplies f record :=
  factsBetween_none record _ facts

/-- Whether a fact applies is a question of the session of the record. -/
theorem SameRecord.factApplies {a b : Json} (h : SameRecord a b) (f : Fact) :
    factApplies f a = factApplies f b := by
  rw [Ledger.factApplies, Ledger.factApplies, h "session_id" (by decide)]

/-! ## Materializing on the way -/

/-- The record after it was materialized again and again: each time with some facts, through some
position. -/
def materializeParts (record : Json) (parts : List (List Fact × Pos)) : Json :=
  parts.foldl (fun r part => materialize r part.1 part.2) record

/-- Where the record is materialized through in the end. -/
def lastCut (from_ : Pos) (parts : List (List Fact × Pos)) : Pos :=
  parts.foldl (fun _ part => part.2) from_

/-- The facts after `from_` are cut into parts and a rest: the positions of the cuts do not fall,
each part lies between the cut before it and its own, the rest lies after the last cut. -/
def CutFrom : Pos → List (List Fact × Pos) → List Fact → Prop
  | from_, [], rest => ∀ f ∈ rest, f.pos.After from_
  | from_, (part, cut) :: parts, rest =>
    ¬ from_.After cut ∧ (∀ f ∈ part, f.pos.After from_ ∧ ¬ f.pos.After cut) ∧ CutFrom cut parts rest

/-- The facts of all parts, one part after another. -/
def allOf (parts : List (List Fact × Pos)) : List Fact := parts.flatMap Prod.fst

variable {record : Json} {parts : List (List Fact × Pos)} {rest : List Fact} {from_ : Pos}

theorem sameRecord_materializeParts (record : Json) (parts : List (List Fact × Pos)) :
    SameRecord (materializeParts record parts) (foldFacts record (allOf parts)) := by
  have hgen : ∀ (parts : List (List Fact × Pos)) {a b : Json}, SameRecord a b →
      SameRecord (materializeParts a parts) (foldFacts b (allOf parts)) := by
    intro parts
    induction parts with
    | nil => exact fun h => h
    | cons part parts ih =>
      intro a b h
      rw [allOf, List.flatMap_cons, foldFacts_append]
      exact ih ((sameRecord_materialize a part.1 part.2).trans (h.foldFacts part.1))
  exact hgen parts (SameRecord.refl record)

theorem materializedThrough_materializeParts (record : Json) (parts : List (List Fact × Pos)) :
    materializedThrough (materializeParts record parts)
      = lastCut (materializedThrough record) parts := by
  induction parts generalizing record with
  | nil => rfl
  | cons part parts ih =>
    exact (ih _).trans (by rw [materializedThrough_materialize]; rfl)

theorem not_after_lastCut (h : CutFrom from_ parts rest) : ¬ from_.After (lastCut from_ parts) := by
  induction parts generalizing from_ with
  | nil => exact Pos.not_after_self _
  | cons part parts ih =>
    obtain ⟨h1, -, h3⟩ := h
    have h4 := ih h3
    rw [Pos.after_iff] at h1 h4 ⊢
    rw [lastCut, List.foldl_cons]
    rw [lastCut] at h4
    omega

/-- What was folded does not lie after the last cut. -/
theorem not_after_lastCut_of_mem (h : CutFrom from_ parts rest) {f : Fact} (hf : f ∈ allOf parts) :
    ¬ f.pos.After (lastCut from_ parts) := by
  induction parts generalizing from_ with
  | nil => exact absurd hf List.not_mem_nil
  | cons part parts ih =>
    obtain ⟨-, h2, h3⟩ := h
    rw [allOf, List.flatMap_cons, List.mem_append] at hf
    rcases hf with hf | hf
    · have h4 := (h2 f hf).2
      have h5 := not_after_lastCut h3
      rw [lastCut, List.foldl_cons]
      rw [Pos.after_iff] at h4 h5 ⊢
      rw [lastCut] at h5
      omega
    · exact ih h3 hf

/-- What remains lies after the last cut. -/
theorem after_lastCut_of_mem (h : CutFrom from_ parts rest) {f : Fact} (hf : f ∈ rest) :
    f.pos.After (lastCut from_ parts) := by
  induction parts generalizing from_ with
  | nil => exact h f hf
  | cons part parts ih => exact ih h.2.2

theorem factApplies_materializeParts (record : Json) (parts : List (List Fact × Pos)) (f : Fact) :
    factApplies f (materializeParts record parts) = factApplies f record := by
  rw [(sameRecord_materializeParts record parts).factApplies, factApplies,
    field_foldFacts (by decide), factApplies]

/-- After the cuts, the facts that are pending in the whole log are those of the rest. -/
theorem pendingFactsFor_materializeParts {facts : List Fact}
    (hpending : pendingFactsFor record facts none = allOf parts ++ rest)
    (hcut : CutFrom (materializedThrough record) parts rest) :
    pendingFactsFor (materializeParts record parts) facts none = rest := by
  have hthrough := not_after_lastCut hcut
  have hparts : (allOf parts).filter
      (fun f => decide (f.pos.After (lastCut (materializedThrough record) parts))) = [] :=
    List.filter_eq_nil_iff.mpr fun f hf => by simpa using not_after_lastCut_of_mem hcut hf
  have hrest : rest.filter
      (fun f => decide (f.pos.After (lastCut (materializedThrough record) parts))) = rest :=
    List.filter_eq_self.mpr fun f hf => by simpa using after_lastCut_of_mem hcut hf
  rw [pendingFactsFor_none, materializedThrough_materializeParts]
  calc facts.filter (fun f => decide (f.pos.After (lastCut (materializedThrough record) parts))
          && factApplies f (materializeParts record parts))
      = (pendingFactsFor record facts none).filter
          (fun f => decide (f.pos.After (lastCut (materializedThrough record) parts))) := by
        rw [pendingFactsFor_none, List.filter_filter]
        refine List.filter_congr fun f _ => ?_
        rw [factApplies_materializeParts]
        by_cases hf : f.pos.After (lastCut (materializedThrough record) parts)
        · have hafter : f.pos.After (materializedThrough record) := by
            rw [Pos.after_iff] at hf hthrough ⊢
            omega
          simp [hf, hafter]
        · simp [hf]
    _ = rest := by
        rw [hpending, List.filter_append, hparts, hrest, List.nil_append]

/-- The facts of the rest are pending when they alone are overlaid. -/
theorem pendingFactsFor_rest {facts : List Fact}
    (hpending : pendingFactsFor record facts none = allOf parts ++ rest)
    (hcut : CutFrom (materializedThrough record) parts rest) :
    pendingFactsFor (materializeParts record parts) rest none = rest := by
  rw [pendingFactsFor_none, materializedThrough_materializeParts]
  refine List.filter_eq_self.mpr fun f hf => ?_
  have happlies : factApplies f record = true := by
    have hmem : f ∈ pendingFactsFor record facts none := by
      rw [hpending]
      exact List.mem_append_right _ hf
    rw [pendingFactsFor_none] at hmem
    exact ((Bool.and_eq_true _ _).mp (List.mem_filter.mp hmem).2).2
  rw [factApplies_materializeParts, happlies, Bool.and_true]
  exact decide_eq_true (after_lastCut_of_mem hcut hf)

theorem sameRecord_overlay {facts seen : List Fact}
    (hpending : pendingFactsFor record facts none = allOf parts ++ rest)
    (hseen : pendingFactsFor (materializeParts record parts) seen none = rest) :
    SameRecord (overlay (materializeParts record parts) seen) (overlay record facts) := by
  rw [overlay, overlay, hseen, hpending, foldFacts_append]
  exact (sameRecord_materializeParts record parts).foldFacts rest

/-- **Materializing on the way cannot be seen.** The facts that are pending for a record are cut
into parts and a rest. Materializing the record with each part and overlaying the rest, or the whole
log, gives the record that has all of them appended one at a time, which is also the overlay of the
whole log; only `materialized_through` names the last cut instead. -/
theorem overlay_materializeParts {facts : List Fact}
    (hpending : pendingFactsFor record facts none = allOf parts ++ rest)
    (hcut : CutFrom (materializedThrough record) parts rest) :
    SameRecord (overlay (materializeParts record parts) rest) (overlay record facts) ∧
      SameRecord (overlay (materializeParts record parts) facts) (overlay record facts) ∧
      overlay record facts
        = (allOf parts ++ rest).foldl (fun r f => appendObservation r f.observation) record ∧
      materializedThrough (overlay (materializeParts record parts) rest)
        = lastCut (materializedThrough record) parts := by
  refine ⟨sameRecord_overlay hpending (pendingFactsFor_rest hpending hcut),
    sameRecord_overlay hpending (pendingFactsFor_materializeParts hpending hcut), ?_, ?_⟩
  · rw [overlay, hpending, foldFacts]
  · rw [overlay, materializedThrough_foldFacts, materializedThrough_materializeParts]

/-- A restart that was observed at a position. -/
def restartSeen (at_ : Pos) : Fact :=
  ⟨at_, "global", none, .obj [("kind", .str "daemon_restart_observed"), ("at", .str "t")]⟩

/-- Three facts, the first two of them folded on the way. -/
theorem overlay_materializeParts_restarts :
    let record : Json := .obj [("session_id", .str "s")]
    let facts := [restartSeen ⟨1, 1⟩, restartSeen ⟨1, 2⟩, restartSeen ⟨2, 1⟩]
    let parts := [([restartSeen ⟨1, 1⟩], (⟨1, 1⟩ : Pos)), ([restartSeen ⟨1, 2⟩], ⟨1, 7⟩)]
    SameRecord (overlay (materializeParts record parts) [restartSeen ⟨2, 1⟩])
        (overlay record facts) ∧
      SameRecord (overlay (materializeParts record parts) facts) (overlay record facts) ∧
      overlay record facts = (allOf parts ++ [restartSeen ⟨2, 1⟩]).foldl
        (fun r f => appendObservation r f.observation) record ∧
      materializedThrough (overlay (materializeParts record parts) [restartSeen ⟨2, 1⟩])
        = lastCut (materializedThrough record) parts :=
  overlay_materializeParts rfl (by simp only [CutFrom]; decide)

/-- What materializing on the way does show: its position is a field of the record, and a fact that
stands at the very position a record is materialized at is taken for folded. -/
theorem materialize_shows :
    (let record : Json := .obj [("session_id", .str "s")]
     let fact := restartSeen ⟨1, 1⟩
     ((overlay (materialize record [fact] ⟨1, 1⟩) []).field "materialized_through").isSome = true ∧
       ((overlay record [fact]).field "materialized_through").isSome = false) ∧
    (let record : Json := .obj [("session_id", .str "s")]
     let fact := restartSeen ⟨1, 1⟩
     let written := materialize record (pendingFactsFor record [fact] (some ⟨1, 1⟩)) ⟨1, 1⟩
     ((overlay written [fact]).field "last_observation").isSome = false ∧
       ((overlay record [fact]).field "last_observation").isSome = true) := by
  decide

/-! ## Every split has its cuts -/

/-- The parts of a list of facts, each cut at its last fact. -/
def cutAtLast : Pos → List (List Fact) → List (List Fact × Pos)
  | _, [] => []
  | from_, part :: parts =>
    let cut := (part.getLast?.map Fact.pos).getD from_
    (part, cut) :: cutAtLast cut parts

theorem allOf_cutAtLast (from_ : Pos) (parts : List (List Fact)) :
    allOf (cutAtLast from_ parts) = parts.flatten := by
  induction parts generalizing from_ with
  | nil => rfl
  | cons part parts ih =>
    rw [cutAtLast, allOf, List.flatMap_cons, List.flatten_cons]
    exact congrArg (part ++ ·) (ih _)

/-- **Facts at rising positions can be split anywhere.** -/
theorem cutFrom_cutAtLast {parts : List (List Fact)}
    (hfrom : ∀ f ∈ parts.flatten ++ rest, f.pos.After from_)
    (hsorted : (parts.flatten ++ rest).Pairwise fun f g => g.pos.After f.pos) :
    CutFrom from_ (cutAtLast from_ parts) rest := by
  induction parts generalizing from_ with
  | nil => exact hfrom
  | cons part parts ih =>
    rw [List.flatten_cons, List.append_assoc] at hfrom hsorted
    obtain ⟨hpart, hlater, hbetween⟩ := List.pairwise_append.mp hsorted
    rcases List.eq_nil_or_concat' part with rfl | ⟨init, last, rfl⟩
    · exact ⟨Pos.not_after_self _, fun f hf => absurd hf List.not_mem_nil, ih hfrom hlater⟩
    · have hcut : ((init ++ [last]).getLast?.map Fact.pos).getD from_ = last.pos := by simp
      have hlast : last.pos.After from_ := hfrom last (by simp)
      rw [cutAtLast, hcut]
      refine ⟨?_, fun f hf => ⟨hfrom f (List.mem_append_left _ hf), ?_⟩, ih ?_ hlater⟩
      · rw [Pos.after_iff] at hlast ⊢
        omega
      · rcases List.mem_append.mp hf with hf | hf
        · have := (List.pairwise_append.mp hpart).2.2 f hf last (by simp)
          rw [Pos.after_iff] at this ⊢
          omega
        · rw [List.mem_singleton.mp hf]
          exact Pos.not_after_self _
      · exact fun g hg => hbetween last (by simp) g hg

/-! ## The cuts of the owner -/

/-- The record as the owner has it when frames at some positions have written it: before each it
is materialized with the facts that are pending then. -/
def materializeAt (record : Json) (facts : List Fact) (cuts : List Pos) : Json :=
  cuts.foldl (fun r cut => materialize r (pendingFactsFor r facts (some cut)) cut) record

/-- At a position at which no fact stands, what is pending falls into what is before and what is
after it. -/
theorem factsBetween_split {through cut : Pos} {facts : List Fact} (hle : ¬ through.After cut)
    (hsorted : facts.Pairwise fun f g => ¬ f.pos.After g.pos)
    (hfree : ∀ f ∈ facts, factApplies f record → f.pos ≠ cut) :
    factsBetween record through none facts
      = factsBetween record through (some cut) facts ++ factsBetween record cut none facts := by
  induction facts with
  | nil => rfl
  | cons f facts ih =>
    obtain ⟨hhead, htail⟩ := List.pairwise_cons.mp hsorted
    have hrec := ih htail fun g hg => hfree g (List.mem_cons_of_mem _ hg)
    by_cases hf : f.pos.After through
    · have h1 : ¬ comparePos f.pos through ≤ 0 := by rwa [← Pos.not_after_iff, not_not]
      by_cases hc : 0 ≤ comparePos f.pos cut
      · -- the walk stops here, and all the facts from here on are after the cut
        have hpast : ∀ g ∈ f :: facts, ¬ cut.After g.pos := by
          have hfc : ¬ cut.After f.pos := by
            rw [Pos.not_after_iff, comparePos_swap f.pos cut]
            omega
          refine List.forall_mem_cons.mpr ⟨hfc, fun g hg => ?_⟩
          have hfg := hhead g hg
          rw [Pos.after_iff] at hfc hfg ⊢
          omega
        rw [factsBetween_none, factsBetween_none, factsBetween, if_neg h1,
          if_pos (by simpa using hc), List.nil_append]
        refine List.filter_congr fun g hg => ?_
        cases happ : factApplies g record with
        | false => simp
        | true =>
          have hne := hfree g hg happ
          have hge := hpast g hg
          have hafter : g.pos.After cut := Pos.after_of_ne hne hge
          have hthrough : g.pos.After through := by
            rw [Pos.after_iff] at hafter hle ⊢
            omega
          simp [hafter, hthrough]
      · have h2 : comparePos f.pos cut ≤ 0 := by omega
        have hall : factsBetween record through none (f :: facts)
            = if factApplies f record then f :: factsBetween record through none facts
              else factsBetween record through none facts := by
          rw [factsBetween, if_neg h1, if_neg (by simp)]
        have hbefore : factsBetween record through (some cut) (f :: facts)
            = if factApplies f record then f :: factsBetween record through (some cut) facts
              else factsBetween record through (some cut) facts := by
          rw [factsBetween, if_neg h1, if_neg (by simpa using hc)]
        have hafter : factsBetween record cut none (f :: facts)
            = factsBetween record cut none facts := by rw [factsBetween, if_pos h2]
        rw [hall, hbefore, hafter, hrec]
        split
        · rfl
        · rfl
    · have h1 : comparePos f.pos through ≤ 0 := Pos.not_after_iff.mp hf
      have h2 : comparePos f.pos cut ≤ 0 := by
        rw [← Pos.not_after_iff]
        rw [Pos.after_iff] at hf hle ⊢
        omega
      rw [factsBetween, factsBetween, factsBetween, if_pos h1, if_pos h1, if_pos h2, hrec]

/-- One cut of the owner. -/
theorem sameRecord_overlay_materialize {facts : List Fact} {cut : Pos}
    (hsorted : facts.Pairwise fun f g => ¬ f.pos.After g.pos)
    (hle : ¬ (materializedThrough record).After cut)
    (hfree : ∀ f ∈ facts, factApplies f record → f.pos ≠ cut) :
    SameRecord (overlay (materialize record (pendingFactsFor record facts (some cut)) cut) facts)
      (overlay record facts) := by
  have hsplit : pendingFactsFor record facts none
      = pendingFactsFor record facts (some cut) ++ factsBetween record cut none facts :=
    factsBetween_split hle hsorted hfree
  have hpending : pendingFactsFor (materialize record
      (pendingFactsFor record facts (some cut)) cut) facts none
        = factsBetween record cut none facts := by
    rw [pendingFactsFor_none, materializedThrough_materialize, factsBetween_none]
    refine List.filter_congr fun f _ => ?_
    rw [(sameRecord_materialize _ _ _).factApplies, factApplies, field_foldFacts (by decide),
      factApplies]
  rw [overlay, overlay, hpending, hsplit, foldFacts_append]
  exact (sameRecord_materialize _ _ _).foldFacts _

/-- The positions do not fall, from a first one on. -/
def Rising : Pos → List Pos → Prop
  | _, [] => True
  | from_, cut :: cuts => ¬ from_.After cut ∧ Rising cut cuts

/-- **The frames that write a record on the way cannot be seen in its observations**, as no two
frames have one position. -/
theorem overlay_materializeAt {facts : List Fact} {cuts : List Pos}
    (hsorted : facts.Pairwise fun f g => ¬ f.pos.After g.pos)
    (hrise : Rising (materializedThrough record) cuts)
    (hfree : ∀ f ∈ facts, factApplies f record → f.pos ∉ cuts) :
    SameRecord (overlay (materializeAt record facts cuts) facts) (overlay record facts) := by
  induction cuts generalizing record with
  | nil => exact SameRecord.refl _
  | cons cut cuts ih =>
    have hone := sameRecord_overlay_materialize hsorted hrise.1 fun f hf happ =>
      List.ne_of_not_mem_cons (hfree f hf happ)
    refine SameRecord.trans (ih ?_ fun f hf happ => ?_) hone
    · rw [materializedThrough_materialize]
      exact hrise.2
    · rw [(sameRecord_materialize _ _ _).factApplies, factApplies, field_foldFacts (by decide)] at happ
      exact List.not_mem_of_not_mem_cons (hfree f hf happ)

end Telepty.Ledger
