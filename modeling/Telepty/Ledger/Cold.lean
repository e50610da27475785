import Mathlib.Data.List.Perm.Basic
import Telepty.Ledger.Checkpoint

/-!
# Cold generations

A cold generation is written once: a line for each record and two indexes into the lines. What is
looked up in its files by the id of a record is that record (`lookupEntries_stored`), and what is
listed for a session is the records of the session (`sessionEntries_stored`).

The newest generation that knows an id has the record of the id (`coldAll`); an owner whose
generations are all resident looks up exactly that (`coldLookup_of_resident`).
-/

namespace Telepty.Ledger

open Infra

/-- A cold generation: its number and its records. -/
structure Gen where
  n : Nat
  records : List Json

def injectId (r : Json) : Text := r.textField "inject_id"

def Gen.find (g : Gen) (id : Text) : Option Json := g.records.find? fun r => injectId r = id

/-- The record of an id over some generations, the oldest of which comes first. -/
def coldAll : List Gen → Text → Option Json
  | [], _ => none
  | g :: newer, id => (coldAll newer id).or (g.find id)

theorem coldAll_append (a b : List Gen) (id : Text) :
    coldAll (a ++ b) id = (coldAll b id).or (coldAll a id) := by
  induction a with
  | nil => simp [coldAll]
  | cons g a ih => rw [List.cons_append, coldAll, coldAll, ih, Option.or_assoc]

theorem coldAll_eq_none {gens : List Gen} {id : Text} (h : ∀ g ∈ gens, g.find id = none) :
    coldAll gens id = none := by
  induction gens with
  | nil => rfl
  | cons g gens ih =>
    rw [coldAll, ih fun g' hg' => h g' (List.mem_cons_of_mem _ hg'), h g List.mem_cons_self]
    rfl

/-! ## The files of a generation -/

theorem length_encodeText_le (t : Text) : (encodeText t).length ≤ 3 * utf16Length t := by
  induction t with
  | nil => exact Nat.zero_le _
  | cons c t ih =>
    have hc : (encodeChar c).length ≤ 3 * (if c.toNat < 0x10000 then 1 else 2) := by
      unfold encodeChar
      simp only
      repeat' split
      all_goals simp_all
    have hu : utf16Length (c :: t) = (if c.toNat < 0x10000 then 1 else 2) + utf16Length t := rfl
    rw [show encodeText (c :: t) = encodeChar c ++ encodeText t from rfl, List.length_append, hu]
    omega

/-- The line of a record that is short enough. -/
theorem recordLine_ok {r : Json} {line : Bytes} (h : recordLine r = .ok line) :
    line = encodeText r.stringify ++ [newline] ∧ (encodeText r.stringify).length < 4294967296 := by
  unfold recordLine at h
  split at h
  · cases h
  · next hlen =>
    cases h
    have hle := length_encodeText_le r.stringify
    have hmax : utf16Length r.stringify ≤ 536870888 := Nat.le_of_not_lt hlen
    exact ⟨by rw [encodeText_append]; rfl, by omega⟩

/-- An entry of an index by `key` leads to the text of a record in `buf`. -/
structure EntryOf (D : Digests) (key : Json → Text) (buf : Bytes) (e : IndexEntry) (r : Json) :
    Prop where
  key : e.key = D.keyPrefix (key r)
  held : slice buf e.offset e.len = encodeText r.stringify
  len : e.len = (encodeText r.stringify).length
  small : e.len < 4294967296

theorem coldFilesFrom_entries {D : Digests} {n : Nat} {records : List Json} (pre : Bytes)
    {files : ColdFiles} (h : coldFilesFrom D n pre.length records = .ok files) :
    List.Forall₂ (EntryOf D injectId (pre ++ files.lines)) files.ids records ∧
      List.Forall₂ (EntryOf D sessionOf (pre ++ files.lines)) files.sids records := by
  induction records generalizing pre files with
  | nil =>
    cases h
    exact ⟨.nil, .nil⟩
  | cons r rest ih =>
    rw [coldFilesFrom] at h
    cases hline : recordLine r with
    | error e => rw [hline] at h; cases h
    | ok line =>
      obtain ⟨hl, hsmall⟩ := recordLine_ok hline
      rw [hline] at h
      cases hmore : coldFilesFrom D n (pre.length + line.length) rest with
      | error e =>
        simp only [bind, Except.bind, hmore] at h
        cases h
      | ok more =>
        simp only [bind, Except.bind, hmore, pure, Except.pure] at h
        cases h
        have hlen : (pre ++ line).length = pre.length + line.length := List.length_append
        rw [← hlen] at hmore
        obtain ⟨h1, h2⟩ := ih _ hmore
        rw [List.append_assoc] at h1 h2
        have hlenline : line.length - 1 = (encodeText r.stringify).length := by
          rw [hl, List.length_append]
          rfl
        have hheld : slice (pre ++ (line ++ more.lines)) pre.length (line.length - 1)
            = encodeText r.stringify := by
          rw [hlenline, hl, List.append_assoc, ← List.append_assoc]
          exact slice_append pre _ _ rfl rfl
        exact ⟨.cons ⟨rfl, hheld, hlenline, hlenline ▸ hsmall⟩ h1,
          .cons ⟨rfl, hheld, hlenline, hlenline ▸ hsmall⟩ h2⟩

theorem offset_lt_of_buildIndex {l : List IndexEntry} {buf : Bytes} (h : buildIndex l = .ok buf) :
    ∀ e ∈ l, e.offset < 281474976710656 := by
  have hmap : ∀ (l : List IndexEntry) (out : List Bytes), l.mapM encodeIndexEntry = .ok out →
      ∀ e ∈ l, e.offset < 281474976710656 := by
    intro l
    induction l with
    | nil => exact fun _ _ e he => (by cases he)
    | cons x l ih =>
      intro out hout e he
      rw [List.mapM_cons] at hout
      cases hx : encodeIndexEntry x with
      | error err => rw [hx] at hout; cases hout
      | ok b =>
        rw [hx] at hout
        cases hl : l.mapM encodeIndexEntry with
        | error err => rw [hl] at hout; cases hout
        | ok bs =>
          rcases List.mem_cons.mp he with rfl | he
          · unfold encodeIndexEntry at hx
            split at hx
            · cases hx
            · next hlt => exact Nat.lt_of_not_le hlt
          · exact ih bs hl e he
  rw [buildIndex] at h
  cases hm : (l.insertionSort keyLe).mapM encodeIndexEntry with
  | error err => rw [hm] at h; cases h
  | ok out =>
    intro e he
    exact hmap _ out hm e ((List.perm_insertionSort keyLe l).mem_iff.mpr he)

theorem EntryOf.fits {D : Digests} {key : Json → Text} {buf : Bytes} {l : List IndexEntry}
    {records : List Json} {idx : Bytes} (h : List.Forall₂ (EntryOf D key buf) l records)
    (hb : buildIndex l = .ok idx) : ∀ e ∈ l, e.Fits := by
  intro e he
  obtain ⟨r, -, hr⟩ : ∃ r ∈ records, EntryOf D key buf e r := by
    clear hb
    induction h with
    | nil => cases he
    | cons hx _ ih =>
      rcases List.mem_cons.mp he with rfl | he
      · exact ⟨_, List.mem_cons_self, hx⟩
      · obtain ⟨r, hr, hr'⟩ := ih he
        exact ⟨r, List.mem_cons_of_mem _ hr, hr'⟩
  exact ⟨by rw [hr.key, D.keyPrefix_length], offset_lt_of_buildIndex hb e he, hr.small⟩

/-- The generation `g` as the memory knows it, and its three files. -/
structure Stored (D : Digests) (fs : FS) (c : ColdMeta) (g : Gen) : Prop where
  n : c.n = g.n
  file : c.file = coldFile g.n
  records : c.records = g.records.length
  distinct : (g.records.map injectId).Nodup
  written : ∃ files, coldFilesFrom D g.n 0 g.records = .ok files ∧
    buildIndex files.ids = .ok c.idIdx ∧ buildIndex files.sids = .ok c.sidIdx ∧
    c.bytes = files.lines.length ∧ fs.get? (coldFile g.n) = some (.file files.lines)
  idFile : fs.get? (coldIdIndexFile g.n) = some (.file c.idIdx)
  sidFile : fs.get? (coldSidIndexFile g.n) = some (.file c.sidIdx)

/-! ## Looking up -/

variable {D : Digests} {fs : FS} {c : ColdMeta} {g : Gen} {key : Json → Text}

/-- What an entry that was found is read as. -/
theorem readColdRecord_entry {buf : Bytes} {e : IndexEntry} {r : Json}
    (h : EntryOf D key buf e r) (hf : fs.get? c.file = some (.file buf)) :
    readColdRecord fs c e.stored = .ok (some r) := by
  have hl : (encodeText r.stringify).length = e.stored.len := h.len.symm
  have hh : slice buf e.stored.offset e.stored.len = encodeText r.stringify := h.held
  unfold readColdRecord
  rw [FS.readFile_of_get? hf]
  simp only
  rw [hh, hl, Nat.sub_self, List.replicate_zero, List.append_nil, decodeText_encodeText,
    Json.parse_stringify]

/-- What an index leads to: each entry found for a key to a record with that key, and to every
such record. -/
theorem found_entries {buf idx : Bytes} {l : List IndexEntry} {records : List Json}
    (h : List.Forall₂ (EntryOf D key buf) l records) (hb : buildIndex l = .ok idx) (k : Text) :
    ∃ rs, List.Forall₂ (fun e r => ∃ e', EntryOf D key buf e' r ∧ e'.stored = e)
        (findIndexEntries idx (D.keyPrefix k)) rs ∧
      rs.Perm (records.filter fun r => D.keyPrefix (key r) = D.keyPrefix k) := by
  have hfits := EntryOf.fits h hb
  rw [buildIndex_of_fits hfits] at hb
  cases hb
  have hp := List.perm_insertionSort keyLe l
  rw [findIndexEntries_entriesBytes (fun e he => hfits e (hp.mem_iff.mp he))
    (List.pairwise_insertionSort keyLe l)]
  -- the entries with the key, in the order of the records
  have hsel : ∃ rs, List.Forall₂ (EntryOf D key buf)
      (l.filter fun e => e.key = D.keyPrefix k) rs ∧
        rs = records.filter fun r => D.keyPrefix (key r) = D.keyPrefix k := by
    clear hfits hp
    induction h with
    | nil => exact ⟨[], .nil, rfl⟩
    | @cons e r l records hx _ ih =>
      obtain ⟨rs, hrs, rfl⟩ := ih
      have hk : (e.key = D.keyPrefix k) ↔ D.keyPrefix (key r) = D.keyPrefix k := by rw [hx.key]
      by_cases hd : e.key = D.keyPrefix k
      · refine ⟨_, ?_, rfl⟩
        rw [List.filter_cons_of_pos (by simpa using hd),
          List.filter_cons_of_pos (by simpa using hk.mp hd)]
        exact .cons hx hrs
      · refine ⟨_, ?_, rfl⟩
        rw [List.filter_cons_of_neg (by simpa using hd),
          List.filter_cons_of_neg (by simpa using mt hk.mpr hd)]
        exact hrs
  obtain ⟨rs, hrs, rfl⟩ := hsel
  obtain ⟨rs', hrs', hperm⟩ := List.perm_comp_forall₂
    ((hp.filter fun e => e.key = D.keyPrefix k)) hrs
  exact ⟨rs', List.forall₂_map_left_iff.mpr (hrs'.imp fun e r he => ⟨e, he, rfl⟩), hperm⟩

theorem readAll_entries {buf : Bytes} {es : List IndexEntry} {rs : List Json}
    (hf : fs.get? c.file = some (.file buf))
    (h : List.Forall₂ (fun e r => ∃ e', EntryOf D key buf e' r ∧ e'.stored = e) es rs) :
    List.Forall₂ (fun e r => readColdRecord fs c e = .ok (some r)) es rs := by
  refine List.Forall₂.imp ?_ h
  rintro e r ⟨e', he', rfl⟩
  exact readColdRecord_entry he' hf

theorem lookupEntries_of_read {id : Text} {es : List IndexEntry} {rs : List Json}
    (h : List.Forall₂ (fun e r => readColdRecord fs c e = .ok (some r)) es rs) :
    lookupEntries fs c id es = .ok (rs.find? fun r => injectId r = id) := by
  induction h with
  | nil => rfl
  | @cons e r es rs hx _ ih =>
    rw [lookupEntries, hx]
    simp only [bind, Except.bind, pure, Except.pure, List.find?_cons]
    by_cases hid : injectId r = id
    · rw [if_pos (show r.textField "inject_id" = id from hid)]
      simp [hid]
    · rw [if_neg (show ¬ r.textField "inject_id" = id from hid), ih]
      simp [hid]

/-- The record with an id in a list whose ids are distinct does not depend on the order. -/
theorem find?_injectId_perm {l l' : List Json} {id : Text} (hp : l.Perm l')
    (hd : (l'.map injectId).Nodup) :
    (l.find? fun r => injectId r = id) = l'.find? fun r => injectId r = id := by
  cases h : l'.find? fun r => injectId r = id with
  | none =>
    rw [List.find?_eq_none] at h ⊢
    exact fun r hr => h r (hp.mem_iff.mp hr)
  | some r =>
    have hr : r ∈ l := hp.mem_iff.mpr (List.mem_of_find?_eq_some h)
    have hid : injectId r = id := by simpa using List.find?_some h
    cases h' : l.find? fun r => injectId r = id with
    | none =>
      rw [List.find?_eq_none] at h'
      exact absurd (by simpa using hid) (h' r hr)
    | some r' =>
      have hr' : r' ∈ l' := hp.mem_iff.mp (List.mem_of_find?_eq_some h')
      have hid' : injectId r' = id := by simpa using List.find?_some h'
      rw [List.inj_on_of_nodup_map hd hr' (hp.mem_iff.mp hr) (hid'.trans hid.symm)]

/-- **The record of an id is found in the files of its generation.** -/
theorem lookupEntries_stored (h : Stored D fs c g) (id : Text) :
    lookupEntries fs c id (findIndexEntries c.idIdx (D.keyPrefix id)) = .ok (g.find id) := by
  obtain ⟨files, hfiles, hids, -, -, hlines⟩ := h.written
  have hent := (coldFilesFrom_entries [] hfiles).1
  obtain ⟨rs, hrs, hperm⟩ := found_entries hent hids id
  rw [lookupEntries_of_read (readAll_entries (h.file ▸ hlines) hrs),
    find?_injectId_perm hperm (h.distinct.sublist (List.filter_sublist.map injectId)), Gen.find]
  congr 1
  -- a record with the id has the key of the id
  generalize g.records = l
  induction l with
  | nil => rfl
  | cons r l ih =>
    by_cases hid : injectId r = id
    · rw [List.filter_cons_of_pos (by simp [hid])]
      simp [hid]
    · by_cases hk : D.keyPrefix (injectId r) = D.keyPrefix id
      · rw [List.filter_cons_of_pos (by simpa using hk)]
        simpa [hid] using ih
      · rw [List.filter_cons_of_neg (by simpa using hk)]
        simpa [hid] using ih

/-- An id whose key is not in the index of a generation is not in the generation. -/
theorem find_eq_none_of_index (h : Stored D fs c g) {id : Text}
    (hn : findIndexEntry c.idIdx (D.keyPrefix id) = none) : g.find id = none := by
  have hl := lookupEntries_stored h id
  rw [findIndexEntries, hn] at hl
  exact (Except.ok.inj hl).symm

theorem lookupGenerations_none {cold : List ColdMeta} {gens : List Gen} {id : Text}
    (h : List.Forall₂ (Stored D fs) cold gens)
    (hl : lookupGenerations fs (D.keyPrefix id) id cold = .ok none)
    (ho : ∀ c ∈ cold, c.offline = true → findIndexEntry c.idIdx (D.keyPrefix id) = none) :
    ∀ g ∈ gens, g.find id = none := by
  induction h with
  | nil => exact fun g hg => (by cases hg)
  | @cons c g cold gens hc _ ih =>
    have hrest := fun hl => ih hl fun c' hc' => ho c' (List.mem_cons_of_mem _ hc')
    rw [lookupGenerations] at hl
    cases hoff : c.offline with
    | true =>
      rw [hoff, if_pos rfl] at hl
      intro g' hg'
      rcases List.mem_cons.mp hg' with rfl | hg'
      · exact find_eq_none_of_index hc (ho c List.mem_cons_self hoff)
      · exact hrest hl g' hg'
    | false =>
      rw [hoff, if_neg (by decide), lookupEntries_stored hc] at hl
      cases hf : g.find id with
      | some r =>
        simp only [hf, bind, Except.bind, pure, Except.pure] at hl
        cases hl
      | none =>
        simp only [hf, bind, Except.bind] at hl
        intro g' hg'
        rcases List.mem_cons.mp hg' with rfl | hg'
        · exact hf
        · exact hrest hl g' hg'

theorem lookupGenerations_resident {cold : List ColdMeta} {gens : List Gen} {id : Text}
    (h : List.Forall₂ (Stored D fs) cold gens) (hr : ∀ c ∈ cold, c.offline = false) :
    lookupGenerations fs (D.keyPrefix id) id cold = .ok (gens.findSome? fun g => g.find id) := by
  induction h with
  | nil => rfl
  | @cons c g cold gens hc _ ih =>
    rw [lookupGenerations, hr c List.mem_cons_self, if_neg (by decide), lookupEntries_stored hc]
    cases hf : g.find id with
    | some r => simp [hf, bind, Except.bind, pure, Except.pure]
    | none =>
      simp only [bind, Except.bind]
      rw [ih fun c' hc' => hr c' (List.mem_cons_of_mem _ hc')]
      simp [hf]

theorem findSome?_reverse (gens : List Gen) (id : Text) :
    (gens.reverse.findSome? fun g => g.find id) = coldAll gens id := by
  induction gens with
  | nil => rfl
  | cons g gens ih =>
    rw [List.reverse_cons, List.findSome?_append, ih, coldAll]
    simp

/-- **An owner whose generations are all resident looks up the newest record of an id.** -/
theorem coldLookup_of_resident {o : Options} {s : State} {gens : List Gen} {id : Text}
    (h : List.Forall₂ (Stored o.digests fs) s.cold gens) (hr : ∀ c ∈ s.cold, c.offline = false) :
    coldLookup o fs s id = .ok (coldAll gens id) := by
  rw [coldLookup, lookupGenerations_resident (List.rel_reverse h)
    (fun c hc => hr c (List.mem_reverse.mp hc)), findSome?_reverse]

/-- An id that an owner neither finds nor has to look for in an offline generation is not cold. -/
theorem coldAll_of_coldLookup {o : Options} {s : State} {gens : List Gen} {id : Text}
    (h : List.Forall₂ (Stored o.digests fs) s.cold gens) (hl : coldLookup o fs s id = .ok none)
    (ho : coldOfflineHas o s id = false) : coldAll gens id = none := by
  refine coldAll_eq_none fun g hg => ?_
  refine lookupGenerations_none (List.rel_reverse h) hl (fun c hc hoff => ?_) g
    (List.mem_reverse.mpr hg)
  rw [coldOfflineHas, List.any_eq_false] at ho
  have hc' := ho c (List.mem_reverse.mp hc)
  rw [hoff, Bool.true_and] at hc'
  simpa using hc'

/-! ## Listing -/

theorem sessionEntries_of_read {sid : Text} {es : List IndexEntry} {rs : List Json}
    (h : List.Forall₂ (fun e r => readColdRecord fs c e = .ok (some r)) es rs) :
    sessionEntries fs c sid es = .ok (rs.filter fun r => sessionOf r = sid) := by
  induction h with
  | nil => rfl
  | @cons e r es rs hx _ ih =>
    rw [sessionEntries, hx, ih]
    simp only [bind, Except.bind, pure, Except.pure]
    by_cases hs : sessionOf r = sid
    · rw [if_pos hs, List.filter_cons_of_pos (by simpa using hs)]
    · rw [if_neg hs, List.filter_cons_of_neg (by simpa using hs)]

/-- **The records of a session are listed from the files of a generation.** -/
theorem sessionEntries_stored (h : Stored D fs c g) (sid : Text) :
    ∃ rs, sessionEntries fs c sid (findIndexEntries c.sidIdx (D.keyPrefix sid)) = .ok rs ∧
      rs.Perm (g.records.filter fun r => sessionOf r = sid) := by
  obtain ⟨files, hfiles, -, hsids, -, hlines⟩ := h.written
  have hent := (coldFilesFrom_entries [] hfiles).2
  obtain ⟨rs, hrs, hperm⟩ := found_entries hent hsids sid
  refine ⟨_, sessionEntries_of_read (readAll_entries (h.file ▸ hlines) hrs), ?_⟩
  refine (hperm.filter fun r => decide (sessionOf r = sid)).trans (List.Perm.of_eq ?_)
  rw [List.filter_filter]
  refine List.filter_congr fun r _ => ?_
  by_cases hs : sessionOf r = sid <;> simp [hs]

/-! ## The rest of the disk -/

/-- Only its own files matter to a generation. -/
theorem Stored.congr {fs' : FS} (h : Stored D fs c g)
    (hf : ∀ p b, fs.get? p = some (.file b) → (p = coldFile g.n ∨ p = coldIdIndexFile g.n ∨
      p = coldSidIndexFile g.n) → fs'.get? p = some (.file b)) : Stored D fs' c g where
  n := h.n
  file := h.file
  records := h.records
  distinct := h.distinct
  written := by
    obtain ⟨files, h1, h2, h3, h4, h5⟩ := h.written
    exact ⟨files, h1, h2, h3, h4, hf _ _ h5 (.inl rfl)⟩
  idFile := hf _ _ h.idFile (.inr (.inl rfl))
  sidFile := hf _ _ h.sidFile (.inr (.inr rfl))

end Telepty.Ledger
