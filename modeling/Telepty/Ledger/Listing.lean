import Telepty.Ledger.Fresh
import Telepty.Ledger.Supersede

/-!
# The listing of a session

`listSession` shows the hot records of a session and, from every generation that can be read, the
cold ones whose id is not hot. An inject that was demoted, reheated and demoted again has a record
in two generations, and the listing shows both.

* `listsOnce_iff` — a listing shows each inject once, as `getRecord` returns it, just when the
  versions of an inject agree on its session and an inject that is not hot is in one generation
* `run_listsOnce_iff` — the same of every state that a run reaches
-/

namespace Telepty.Ledger

open Infra Prog

/-! ## What a listing shows of a record -/

theorem lookup_shown {r : Json} (k : Text) (ks : List Text) :
    Json.lookup k (ks.filterMap fun k => (r.field k).map fun v => (k, v))
      = if k ∈ ks then r.field k else none := by
  induction ks with
  | nil => rfl
  | cons k' ks ih =>
    cases hf : r.field k' with
    | none =>
      rw [List.filterMap_cons_none (by rw [hf]; rfl), ih]
      by_cases hk : k = k'
      · rw [hk, hf, ite_self, ite_self]
      · simp only [List.mem_cons, hk, false_or]
    | some v =>
      rw [List.filterMap_cons_some (by rw [hf]; rfl), Json.lookup, ih]
      by_cases hk : k = k'
      · rw [hk, hf, if_pos List.mem_cons_self, if_pos rfl]
        by_cases hks : k' ∈ ks
        · rw [if_pos hks]
        · rw [if_neg hks]
      · simp only [List.mem_cons, hk, false_or, if_neg (Ne.symm hk)]
        split <;> simp [*]

theorem textField_minimal (r : Json) {k : Text} (hk : k ∈ (["inject_id", "session_id"] : List Text)) :
    (minimal r).textField k = r.textField k := by
  rw [Json.textField, Json.textField, minimal, Json.field, lookup_shown, if_pos]
  simp only [List.mem_cons, List.not_mem_nil, or_false] at hk ⊢
  rcases hk with rfl | rfl
  · exact Or.inl rfl
  · exact Or.inr (Or.inl rfl)

/-- The entry of a listing for a record. -/
def shownAs (facts : List Fact) (r : Json) : Json := minimal (overlay r facts)

theorem injectId_shownAs (facts : List Fact) (r : Json) :
    injectId (shownAs facts r) = injectId r := by
  rw [injectId, shownAs, textField_minimal _ (by decide)]
  exact textField_foldFacts (by decide) r _

theorem sessionOf_shownAs (facts : List Fact) (r : Json) :
    sessionOf (shownAs facts r) = sessionOf r := by
  rw [sessionOf, shownAs, textField_minimal _ (by decide)]
  exact textField_foldFacts (by decide) r _

/-! ## The records that can be read -/

/-- The records of the generations that are not offline, the oldest generation first. -/
def residentRecords (cold : List ColdMeta) (gens : List Gen) : List Json :=
  (cold.zipWith (fun c g => if c.offline then [] else g.records) gens).flatten

theorem residentRecords_cons (c : ColdMeta) (g : Gen) (cold : List ColdMeta) (gens : List Gen) :
    residentRecords (c :: cold) (g :: gens)
      = (if c.offline then [] else g.records) ++ residentRecords cold gens := rfl

section

variable {o : Options} {fs : FS} {s : State} {gens : List Gen} {id sid : Text} {r : Json}

/-- The cold records of a session are those of the generations that can be read. -/
theorem coldRecordsOf_stored {cold : List ColdMeta} (sid : Text)
    (h : List.Forall₂ (Stored o.digests fs) cold gens) :
    ∃ rs, coldRecordsOf o fs sid cold = .ok rs ∧
      rs.Perm ((residentRecords cold gens).filter fun r => sessionOf r = sid) := by
  induction h with
  | nil => exact ⟨[], rfl, .nil⟩
  | @cons c g cold gens hc _ ih =>
    obtain ⟨more, hmore, hp'⟩ := ih
    rw [coldRecordsOf, residentRecords_cons]
    cases hoff : c.offline with
    | true => exact ⟨more, hmore, hp'⟩
    | false =>
      obtain ⟨here, hhere, hp⟩ := sessionEntries_stored hc sid
      refine ⟨here ++ more, ?_, ?_⟩
      · rw [if_neg (by decide), hhere, hmore]
        rfl
      · rw [if_neg (by decide), List.filter_append]
        exact hp.append hp'

theorem lookupGenerations_stored {D : Digests} {cold : List ColdMeta} (id : Text)
    (h : List.Forall₂ (Stored D fs) cold gens) :
    lookupGenerations fs (D.keyPrefix id) id cold
      = .ok ((residentRecords cold gens).find? fun r => injectId r = id) := by
  induction h with
  | nil => rfl
  | @cons c g cold gens hc _ ih =>
    rw [lookupGenerations, residentRecords_cons, List.find?_append]
    cases hoff : c.offline with
    | true => exact ih
    | false =>
      rw [if_neg (by decide), if_neg (by decide), lookupEntries_stored hc, ih]
      change _ = Except.ok ((g.find id).or _)
      cases g.find id <;> rfl

theorem residentRecords_reverse {cold : List ColdMeta} (h : cold.length = gens.length) :
    (residentRecords cold.reverse gens.reverse).Perm (residentRecords cold gens) := by
  rw [residentRecords, ← List.reverse_zipWith h]
  exact (List.reverse_perm _).flatten

/-- A lookup finds a record of the id when a generation that can be read has one. -/
theorem coldLookup_stored (id : Text) (h : List.Forall₂ (Stored o.digests fs) s.cold gens) :
    coldLookup o fs s id
      = .ok ((residentRecords s.cold.reverse gens.reverse).find? fun r => injectId r = id) :=
  lookupGenerations_stored id (List.rel_reverse h)

/-- The records that a listing of the session goes through. -/
def listed (s : State) (gens : List Gen) (sid : Text) : List Json :=
  (idsOf s.hot.bySession sid).filterMap (fun id => s.hot.get? id) ++
    ((residentRecords s.cold gens).filter fun r => sessionOf r = sid).filter fun r =>
      injectId r ∉ idsOf s.hot.bySession sid

/-- A listing shows the records that it goes through. -/
theorem listSession_stored (sid : Text) (h : List.Forall₂ (Stored o.digests fs) s.cold gens) :
    ∃ items, listSession o fs s sid = .ok items ∧
      items.Perm ((listed s gens sid).map (shownAs s.facts)) := by
  obtain ⟨rs, hrs, hp⟩ := coldRecordsOf_stored sid h
  refine ⟨_, by rw [listSession, hrs]; rfl, ?_⟩
  refine (List.perm_insertionSort _ _).trans (List.Perm.map _ ?_)
  exact List.Perm.append_left _ (hp.filter _)

/-- Distinct ids, each with its record: an id has its own record among them. -/
theorem filter_filterMap_get {f : Text → Option Json} (hf : ∀ i r, f i = some r → injectId r = i)
    {ids : List Text} (hd : ids.Nodup) (id : Text) :
    (ids.filterMap f).filter (fun r => injectId r = id) = if id ∈ ids then (f id).toList else [] := by
  induction ids with
  | nil => rfl
  | cons i ids ih =>
    obtain ⟨hi, hd⟩ := List.nodup_cons.mp hd
    cases hfi : f i with
    | none =>
      rw [List.filterMap_cons_none hfi, ih hd]
      by_cases hid : id = i
      · rw [hid, if_neg hi, if_pos List.mem_cons_self, hfi, Option.toList_none]
      · simp only [List.mem_cons, hid, false_or]
    | some r =>
      rw [List.filterMap_cons_some hfi]
      by_cases hid : id = i
      · rw [List.filter_cons_of_pos (by simpa [hid] using hf i r hfi), ih hd, hid, if_neg hi,
          if_pos List.mem_cons_self, hfi, Option.toList_some]
      · rw [List.filter_cons_of_neg (by simpa [hf i r hfi] using Ne.symm hid), ih hd]
        simp only [List.mem_cons, hid, false_or]

theorem not_mem_idsOf (hn : s.hot.get? id = none) : id ∉ idsOf s.hot.bySession sid := by
  rw [s.hot.indexed]
  rintro ⟨r, hr, -⟩
  exact absurd (hn.symm.trans hr) (by simp)

theorem mem_idsOf {r : Json} (hr : s.hot.get? id = some r) :
    id ∈ idsOf s.hot.bySession sid ↔ sessionOf r = sid := by
  rw [s.hot.indexed]
  constructor
  · rintro ⟨r', hr', hs⟩
    obtain rfl : r' = r := Option.some.inj (hr'.symm.trans hr)
    exact hs
  · exact fun hs => ⟨r, hr, hs⟩

/-- A hot inject of the session is gone through once. -/
theorem filter_listed_hot (hk : HotKeyed s) (hr : s.hot.get? id = some r) (hs : sessionOf r = sid) :
    (listed s gens sid).filter (fun r => injectId r = id) = [r] := by
  have hmem : id ∈ idsOf s.hot.bySession sid := (mem_idsOf hr).mpr hs
  rw [listed, List.filter_append, filter_filterMap_get hk (s.hot.nodup sid), if_pos hmem, hr,
    Option.toList_some, List.filter_filter, List.filter_eq_nil_iff.mpr, List.append_nil]
  intro r' _
  simp only [Bool.and_eq_true, decide_eq_true_eq, not_and]
  rintro rfl
  exact not_not_intro hmem

/-- Of any other inject of the session all records that can be read are gone through. -/
theorem filter_listed_cold (hk : HotKeyed s) (hn : id ∉ idsOf s.hot.bySession sid) :
    (listed s gens sid).filter (fun r => injectId r = id)
      = ((residentRecords s.cold gens).filter fun r => injectId r = id).filter fun r =>
        sessionOf r = sid := by
  rw [listed, List.filter_append, filter_filterMap_get hk (s.hot.nodup sid), if_neg hn,
    List.nil_append, List.filter_filter, List.filter_filter, List.filter_filter]
  refine List.filter_congr fun r _ => ?_
  by_cases hid : injectId r = id
  · simp [hid, hn]
  · simp [hid]

/-! ## Once each -/

/-- A version of an inject that some tier holds. -/
def Version (s : State) (gens : List Gen) (id : Text) (r : Json) : Prop :=
  s.hot.get? id = some r ∨ ∃ g ∈ gens, r ∈ g.records ∧ injectId r = id

/-- The listing of every session has one entry for each inject of the session that some tier holds,
and it is the one that `getRecord` returns. -/
def ListsOnce (o : Options) (fs : FS) (s : State) (gens : List Gen) : Prop :=
  ∀ sid, ∃ items, listSession o fs s sid = .ok items ∧
    ∀ id r, id ≠ [] → Version s gens id r → sessionOf r = sid →
      ∃ r' tier, getRecord o fs s id = .ok (.ok (r', tier)) ∧
        items.filter (fun i => injectId i = id) = [minimal r']

/-- The versions of an inject agree on its session, and an inject that is not hot has one record in
the generations that can be read. -/
structure Unrepeated (s : State) (gens : List Gen) : Prop where
  session : ∀ id r r', id ≠ [] → Version s gens id r → Version s gens id r' →
    sessionOf r = sessionOf r'
  single : ∀ id r, id ≠ [] → s.hot.get? id = none → Version s gens id r →
    ∃ r', (residentRecords s.cold gens).filter (fun r => injectId r = id) = [r']

theorem exists_gen_of_resident {cold : List ColdMeta} (hr : r ∈ residentRecords cold gens) :
    ∃ g ∈ gens, r ∈ g.records := by
  induction cold generalizing gens with
  | nil => cases hr
  | cons c cold ih =>
    cases gens with
    | nil => cases hr
    | cons g gens =>
      rw [residentRecords_cons, List.mem_append] at hr
      rcases hr with hr | hr
      · cases hoff : c.offline with
        | true => rw [hoff, if_pos rfl] at hr; cases hr
        | false => exact ⟨g, List.mem_cons_self, by rwa [hoff, if_neg (by decide)] at hr⟩
      · obtain ⟨g', hg', hr'⟩ := ih hr
        exact ⟨g', List.mem_cons_of_mem _ hg', hr'⟩

theorem version_of_resident {cold : List ColdMeta} (hr : r ∈ residentRecords cold gens) :
    Version s gens (injectId r) r := by
  obtain ⟨g, hg, hr⟩ := exists_gen_of_resident hr
  exact Or.inr ⟨g, hg, hr, rfl⟩

theorem sessionOf_of_mem_listed (hr : r ∈ listed s gens sid) : sessionOf r = sid := by
  rw [listed, List.mem_append] at hr
  rcases hr with hr | hr
  · obtain ⟨id, hid, hget⟩ := List.mem_filterMap.mp hr
    obtain ⟨r', hr', hs⟩ := (s.hot.indexed sid id).mp hid
    obtain rfl : r' = r := Option.some.inj (hr'.symm.trans hget)
    exact hs
  · simpa using (List.mem_filter.mp (List.mem_filter.mp hr).1).2

/-- What is shown for an id is shown for the records of the id. -/
theorem filter_shown {items : List Json}
    (hp : items.Perm ((listed s gens sid).map (shownAs s.facts))) (id : Text) :
    (items.filter fun i => injectId i = id).Perm
      (((listed s gens sid).filter fun r => injectId r = id).map (shownAs s.facts)) := by
  refine (hp.filter _).trans (List.Perm.of_eq ?_)
  rw [List.filter_map]
  congr 1
  exact List.filter_congr fun r _ => by simp only [Function.comp, injectId_shownAs]

theorem getRecord_hot (hid : id ≠ []) (hr : s.hot.get? id = some r) :
    getRecord o fs s id = .ok (.ok (overlay r s.facts, "hot")) := by
  rw [getRecord, if_neg hid, hr]

theorem getRecord_cold (h : List.Forall₂ (Stored o.digests fs) s.cold gens) (hid : id ≠ [])
    (hn : s.hot.get? id = none)
    (hr : (residentRecords s.cold gens).filter (fun r => injectId r = id) = [r]) :
    getRecord o fs s id = .ok (.ok (overlay r s.facts, "cold")) := by
  have hp := residentRecords_reverse h.length_eq
  have hfind : ((residentRecords s.cold.reverse gens.reverse).find? fun r => injectId r = id)
      = some r := by
    have hf := hp.filter fun r => decide (injectId r = id)
    rw [hr] at hf
    rw [← List.head?_filter, List.perm_singleton.mp hf]
    rfl
  rw [getRecord, if_neg hid, hn, coldLookup_stored id h, hfind]
  rfl

/-- Where nothing is repeated, a listing shows each inject once. -/
theorem Unrepeated.listsOnce (h : List.Forall₂ (Stored o.digests fs) s.cold gens)
    (hk : HotKeyed s) (hu : Unrepeated s gens) : ListsOnce o fs s gens := by
  intro sid
  obtain ⟨items, hitems, hp⟩ := listSession_stored (o := o) sid h
  refine ⟨items, hitems, fun id r hid hv hs => ?_⟩
  have hshown := filter_shown hp id
  cases hhot : s.hot.get? id with
  | some r₀ =>
    have hs₀ : sessionOf r₀ = sid := (hu.session id r₀ r hid (Or.inl hhot) hv).trans hs
    refine ⟨_, _, getRecord_hot hid hhot, ?_⟩
    rw [filter_listed_hot hk hhot hs₀] at hshown
    exact List.perm_singleton.mp hshown
  | none =>
    obtain ⟨r', hr'⟩ := hu.single id r hid hhot hv
    refine ⟨_, _, getRecord_cold h hid hhot hr', ?_⟩
    have hmem : r' ∈ (residentRecords s.cold gens).filter fun r => injectId r = id := by
      rw [hr']
      exact List.mem_singleton.mpr rfl
    obtain ⟨hres, hid'⟩ := List.mem_filter.mp hmem
    have hid' : injectId r' = id := by simpa using hid'
    have hs' : sessionOf r' = sid :=
      (hu.session id r' r hid (hid' ▸ version_of_resident hres) hv).trans hs
    rw [filter_listed_cold hk (not_mem_idsOf hhot), hr', List.filter_cons_of_pos (by simpa using hs')] at hshown
    exact List.perm_singleton.mp hshown

/-- Where each inject is shown once, nothing is repeated. -/
theorem ListsOnce.unrepeated (hk : HotKeyed s) (h : List.Forall₂ (Stored o.digests fs) s.cold gens)
    (hl : ListsOnce o fs s gens) : Unrepeated s gens := by
  -- the listing of a session shows one record of the inject, and it is one of the session
  have hone : ∀ id r, id ≠ [] → Version s gens id r → ∃ r' tier,
      getRecord o fs s id = .ok (.ok (r', tier)) ∧ ∃ x,
        (listed s gens (sessionOf r)).filter (fun r => injectId r = id) = [x] ∧
          shownAs s.facts x = minimal r' := by
    intro id r hid hv
    obtain ⟨items, hitems, hp⟩ := listSession_stored (o := o) (sessionOf r) h
    obtain ⟨items', hitems', hall⟩ := hl (sessionOf r)
    obtain rfl : items = items' := Except.ok.inj (hitems.symm.trans hitems')
    obtain ⟨r', tier, hget, hitem⟩ := hall id r hid hv rfl
    have hshown := filter_shown hp id
    rw [hitem] at hshown
    have hmap := List.perm_singleton.mp hshown.symm
    obtain ⟨x, hx, hxr⟩ := List.map_eq_singleton_iff.mp hmap
    exact ⟨r', tier, hget, x, hx, hxr⟩
  have hsession : ∀ id r, id ≠ [] → Version s gens id r → ∀ r' tier,
      getRecord o fs s id = .ok (.ok (r', tier)) → sessionOf (minimal r') = sessionOf r := by
    intro id r hid hv r' tier hget
    obtain ⟨r₁, tier₁, hget₁, x, hx, hxr⟩ := hone id r hid hv
    rw [hget] at hget₁
    cases hget₁
    rw [← hxr, sessionOf_shownAs]
    exact sessionOf_of_mem_listed (List.mem_filter.mp (hx ▸ List.mem_singleton.mpr rfl)).1
  have hagree : ∀ id r r', id ≠ [] → Version s gens id r → Version s gens id r' →
      sessionOf r = sessionOf r' := by
    intro id r r' hid hv hv'
    obtain ⟨r₁, tier₁, hget₁, -⟩ := hone id r hid hv
    exact (hsession id r hid hv r₁ tier₁ hget₁).symm.trans (hsession id r' hid hv' r₁ tier₁ hget₁)
  refine ⟨hagree, fun id r hid hhot hv => ?_⟩
  obtain ⟨r₁, tier₁, hget₁, x, hx, -⟩ := hone id r hid hv
  rw [filter_listed_cold hk (not_mem_idsOf hhot), List.filter_eq_self.mpr] at hx
  · exact ⟨x, hx⟩
  · intro r' hr'
    obtain ⟨hres, hid'⟩ := List.mem_filter.mp hr'
    have hid' : injectId r' = id := by simpa using hid'
    simpa using hagree id r' r hid (hid' ▸ version_of_resident hres) hv

/-- **A listing shows each inject once, as `getRecord` returns it, just when nothing is repeated.** -/
theorem listsOnce_iff (h : List.Forall₂ (Stored o.digests fs) s.cold gens) (hk : HotKeyed s) :
    ListsOnce o fs s gens ↔ Unrepeated s gens :=
  ⟨ListsOnce.unrepeated hk h, Unrepeated.listsOnce h hk⟩

end

/-! ## Runs -/

/-- **In every available state that a run reaches, a listing shows each inject once just when
nothing is repeated.** -/
theorem run_listsOnce_iff {o : Options} {I : Regime} {b : Book} {sys : Sys} {acts : List Act}
    {s : State} (hs : o.env.NoShort) (hI : Downward I) (h : sys.Sound o I b)
    (hf : FairRun o I sys acts) (hown : (run o sys acts).owner = some s)
    (havail : s.state = .available) :
    ∃ gens, List.Forall₂ (Stored o.digests (run o sys acts).disk) s.cold gens ∧
      (ListsOnce o (run o sys acts).disk s gens ↔ Unrepeated s gens) := by
  have hsound := h.run hs hI hf
  unfold Sys.Sound at hsound
  rw [hown] at hsound
  cases hsound with
  | serves grew good =>
    have hcold := good.live.cold
    exact ⟨_, hcold, listsOnce_iff hcold (good.live.hotKeyed good.holds)⟩
  | parked rest state => exact absurd havail state

/-- No property of the memory is asked for. -/
def anyRegime : Regime := ⟨fun _ => True, fun _ => True⟩

/-- A store that has just been created, locked by the daemon 7. -/
def freshSys : Sys := ⟨none, freshDisk "T", 0, []⟩

def beginA : Submit := ⟨"1", "begin", beginDelta "a" "s"⟩

/-- The inject `a` of a session that is not live is demoted. -/
def demotedOnce : List Act := [.start 7 "T" [], .send (.submit beginA), .send (.compact "q")]

/-- What is asked of the submission of `beginA`. -/
def beginReady (o : Options) (sys : Sys) : Bool :=
  sys.owner.all fun s => !coldOfflineHas o s beginA.id &&
    (committedLog o.digests sys.disk ++ openFrames s).all fun f => f.txn ≠ beginA.txn

/-- The store serves after the submission of `beginA`. -/
def beginServed (sys : Sys) : Bool := sys.owner.all fun s => s.state = .available

theorem demotedOnce_fair {o : Options} {sys : Sys} (hcalm : o.env.Calm)
    (hready : copyReady o.digests sys.disk = true)
    (hbegin : beginReady o (step o sys (.start 7 "T" [])) = true)
    (hserved : beginServed (run o sys [.start 7 "T" [], .send (.submit beginA)]) = true) :
    FairRun o anyRegime sys demotedOnce := by
  refine ⟨fun _ => hready, fun s hs _ => ?_, fun s hs => ?_, trivial⟩
  · rw [beginReady, hs, Option.all_some, Bool.and_eq_true, List.all_eq_true] at hbegin
    exact {
      plain := by decide
      named := trivial
      new := fun _ f hf => by simpa using hbegin.2 f hf
      offline := fun _ => by simpa using hbegin.1
      room := fun _ _ _ _ _ _ _ => trivial
      later := fun _ _ _ _ _ _ _ _ => trivial }
  · rw [beginServed, run_cons, run_cons, run, List.foldl_nil, hs] at hserved
    exact ⟨by simpa using hserved, Or.inl hcalm⟩

set_option maxRecDepth 100000 in
theorem run_listsOnce_iff_demotedOnce : ∃ s gens,
    (run (defaultOptions plainEnv) freshSys demotedOnce).owner = some s ∧
    List.Forall₂ (Stored (defaultOptions plainEnv).digests
      (run (defaultOptions plainEnv) freshSys demotedOnce).disk) s.cold gens ∧
    (ListsOnce (defaultOptions plainEnv) (run (defaultOptions plainEnv) freshSys demotedOnce).disk
      s gens ↔ Unrepeated s gens) := by
  have hcalm : (defaultOptions plainEnv).env.Calm := fun _ => Or.inl rfl
  obtain ⟨hready, hbegin, hserved, hend⟩ :
      copyReady (defaultOptions plainEnv).digests freshSys.disk = true ∧
        beginReady (defaultOptions plainEnv)
          (step (defaultOptions plainEnv) freshSys (.start 7 "T" [])) = true ∧
        beginServed (run (defaultOptions plainEnv) freshSys
          [.start 7 "T" [], .send (.submit beginA)]) = true ∧
        (run (defaultOptions plainEnv) freshSys demotedOnce).owner.map State.state
          = some .available := by decide +kernel
  obtain ⟨s, hs, hstate⟩ := Option.map_eq_some_iff.mp hend
  have hsound : freshSys.Sound (defaultOptions plainEnv) anyRegime (freshBook "T") :=
    (freshDisk_fresh "T").sound rfl rfl trivial
  obtain ⟨gens, hcold, hiff⟩ := run_listsOnce_iff hcalm.noShort (fun _ _ _ _ => trivial) hsound
    (demotedOnce_fair hcalm hready hbegin hserved) hs hstate
  exact ⟨s, gens, hs, hcold, hiff⟩

def reheatA : Submit :=
  ⟨"2", "reheat", .obj [("id", .str "a"), ("job_reserved", .bool true)]⟩

/-- The inject `a` of a session that is not live is demoted, reheated and demoted again. -/
def demotedTwice : List Act :=
  demotedOnce ++ [.send (.submit reheatA), .send (.compact "r")]

/-- The ids that a listing of the session shows. -/
def idsShown (o : Options) (sys : Sys) (sid : Text) : Option (List Text) :=
  sys.owner.bind fun s =>
    match listSession o sys.disk s sid with
    | .ok items => some (items.map injectId)
    | .error _ => none

set_option maxRecDepth 100000 in
/-- An inject that was demoted twice is listed twice. -/
theorem demoted_twice_listed_twice :
    let sys := run (defaultOptions plainEnv) (lockedDisk []) demotedTwice
    sys.owner.map State.state = some .available ∧
      idsShown (defaultOptions plainEnv) sys "s" = some ["a".toList, "a".toList] := by
  decide +kernel

end Telepty.Ledger
