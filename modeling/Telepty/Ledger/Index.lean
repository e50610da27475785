import Telepty.Infra.Process
import Telepty.Infra.Search
import Telepty.Ledger.Format

/-!
# Index files

An index is a sequence of 32-byte entries sorted by key: 16 bytes key, 2 bytes file, 6 bytes
offset, 4 bytes length, 4 bytes flags. `findIndexEntries_buildIndex` says that the entries found for
a key are the entries that were put in with that key.
-/

namespace Telepty.Ledger

open Infra

def indexEntryBytes : Nat := 32

/-- `n` in `width` bytes, most significant first. -/
def bigEndian : Nat → Nat → Bytes
  | 0, _ => []
  | width + 1, n => bigEndian width (n / 256) ++ [UInt8.ofNat (n % 256)]

def readBigEndian (b : Bytes) : Nat := b.foldl (fun acc x => acc * 256 + x.toNat) 0

structure IndexEntry where
  key : Bytes
  file : Nat
  offset : Nat
  len : Nat
  flags : Nat

/-- The bytes of an entry; `writeUIntBE` refuses an offset that does not fit six bytes. -/
def encodeIndexEntry (e : IndexEntry) : Except Failure Bytes :=
  if 281474976710656 ≤ e.offset then .error ⟨"ERR_OUT_OF_RANGE", []⟩
  else .ok (e.key.take 16 ++ bigEndian 2 (e.file % 65536) ++ bigEndian 6 e.offset
    ++ bigEndian 4 (e.len % 4294967296) ++ bigEndian 4 (e.flags % 4294967296))

/-- `buf.subarray(at, at + n)` -/
def slice (b : Bytes) (at_ n : Nat) : Bytes := (b.drop at_).take n

def decodeIndexEntry (buf : Bytes) (at_ : Nat) : IndexEntry :=
  { key := slice buf at_ 16
    file := readBigEndian (slice buf (at_ + 16) 2)
    offset := readBigEndian (slice buf (at_ + 18) 6)
    len := readBigEndian (slice buf (at_ + 24) 4)
    flags := readBigEndian (slice buf (at_ + 28) 4) }

/-- Not after, in the order of the keys. -/
def keyLe (a b : IndexEntry) : Prop := compareBytes a.key b.key ≠ .gt

instance : DecidableRel keyLe := fun _ _ => inferInstanceAs (Decidable (_ ≠ _))

/-- The entries sorted by key, one after another. -/
def buildIndex (entries : List IndexEntry) : Except Failure Bytes :=
  ((entries.insertionSort keyLe).mapM encodeIndexEntry).map List.flatten

/-- The number of the first entry whose key is `key`. -/
def findIndexEntry (indexBuf : Bytes) (key : Bytes) : Option Nat :=
  let count := indexBuf.length / indexEntryBytes
  searchFirst (fun i => compareBytes (slice indexBuf (i * indexEntryBytes) 16) key) count 0 count none

/-- The entries from number `i` on, as long as their key is `key`. -/
def entriesFrom (indexBuf : Bytes) (key : Bytes) : Nat → Nat → List IndexEntry
  | 0, _ => []
  | fuel + 1, i =>
    if i * indexEntryBytes < indexBuf.length then
      let e := decodeIndexEntry indexBuf (i * indexEntryBytes)
      if e.key ≠ key then [] else e :: entriesFrom indexBuf key fuel (i + 1)
    else []

/-- All entries whose key is `key`. -/
def findIndexEntries (indexBuf : Bytes) (key : Bytes) : List IndexEntry :=
  match findIndexEntry indexBuf key with
  | none => []
  | some first => entriesFrom indexBuf key (indexBuf.length / indexEntryBytes) first

/-! ## Numbers in bytes -/

@[simp] theorem length_bigEndian (width n : Nat) : (bigEndian width n).length = width := by
  induction width generalizing n with
  | zero => rfl
  | succ width ih => rw [bigEndian, List.length_append, ih]; rfl

theorem readBigEndian_bigEndian (width n : Nat) (h : n < 256 ^ width) :
    readBigEndian (bigEndian width n) = n := by
  induction width generalizing n with
  | zero =>
    rw [Nat.pow_zero] at h
    rw [bigEndian, Nat.lt_one_iff.mp h]
    rfl
  | succ width ih =>
    have hdiv : n / 256 < 256 ^ width := by
      rw [Nat.pow_succ] at h
      exact Nat.div_lt_of_lt_mul (by rwa [Nat.mul_comm] at h)
    have hrec := ih (n / 256) hdiv
    rw [readBigEndian] at hrec ⊢
    rw [bigEndian, List.foldl_append, hrec, List.foldl_cons, List.foldl_nil,
      toNat_ofNat_of_lt (Nat.mod_lt _ (by decide))]
    omega

/-! ## One entry -/

/-- An entry whose fields fit the format. -/
structure IndexEntry.Fits (e : IndexEntry) : Prop where
  key : e.key.length = 16
  offset : e.offset < 281474976710656
  len : e.len < 4294967296

/-- What is read back: the file and the flags only keep their low bits. -/
def IndexEntry.stored (e : IndexEntry) : IndexEntry :=
  { e with file := e.file % 65536, flags := e.flags % 4294967296 }

/-- The bytes of an entry that fits. -/
def IndexEntry.bytes (e : IndexEntry) : Bytes :=
  e.key ++ bigEndian 2 (e.file % 65536) ++ bigEndian 6 e.offset
    ++ bigEndian 4 (e.len % 4294967296) ++ bigEndian 4 (e.flags % 4294967296)

variable {e : IndexEntry}

theorem encodeIndexEntry_of_fits (h : e.Fits) : encodeIndexEntry e = .ok e.bytes := by
  rw [encodeIndexEntry, if_neg (Nat.not_le.mpr h.offset),
    List.take_of_length_le (Nat.le_of_eq h.key)]
  rfl

theorem length_bytes (h : e.Fits) : e.bytes.length = indexEntryBytes := by
  simp [IndexEntry.bytes, h.key, indexEntryBytes]

theorem slice_append (a b c : Bytes) {at_ n : Nat} (ha : a.length = at_) (hb : b.length = n) :
    slice (a ++ b ++ c) at_ n = b := by
  rw [slice, List.append_assoc, List.drop_left' ha, List.take_left' hb]

theorem decodeIndexEntry_bytes (h : e.Fits) (before after : Bytes) :
    decodeIndexEntry (before ++ e.bytes ++ after) before.length = e.stored := by
  have hk := h.key
  have h1 : slice (before ++ e.bytes ++ after) before.length 16 = e.key := by
    simpa [IndexEntry.bytes] using slice_append before e.key
      (bigEndian 2 (e.file % 65536) ++ bigEndian 6 e.offset ++ bigEndian 4 (e.len % 4294967296)
        ++ bigEndian 4 (e.flags % 4294967296) ++ after) rfl hk
  have h2 : slice (before ++ e.bytes ++ after) (before.length + 16) 2
      = bigEndian 2 (e.file % 65536) := by
    simpa [IndexEntry.bytes] using slice_append (before ++ e.key) (bigEndian 2 (e.file % 65536))
      (bigEndian 6 e.offset ++ bigEndian 4 (e.len % 4294967296)
        ++ bigEndian 4 (e.flags % 4294967296) ++ after)
      (by rw [List.length_append, hk]) (length_bigEndian _ _)
  have h3 : slice (before ++ e.bytes ++ after) (before.length + 18) 6 = bigEndian 6 e.offset := by
    simpa [IndexEntry.bytes] using slice_append (before ++ e.key ++ bigEndian 2 (e.file % 65536))
      (bigEndian 6 e.offset)
      (bigEndian 4 (e.len % 4294967296) ++ bigEndian 4 (e.flags % 4294967296) ++ after)
      (by simp [hk]) (length_bigEndian _ _)
  have h4 : slice (before ++ e.bytes ++ after) (before.length + 24) 4
      = bigEndian 4 (e.len % 4294967296) := by
    simpa [IndexEntry.bytes] using slice_append
      (before ++ e.key ++ bigEndian 2 (e.file % 65536) ++ bigEndian 6 e.offset)
      (bigEndian 4 (e.len % 4294967296)) (bigEndian 4 (e.flags % 4294967296) ++ after)
      (by simp [hk]) (length_bigEndian _ _)
  have h5 : slice (before ++ e.bytes ++ after) (before.length + 28) 4
      = bigEndian 4 (e.flags % 4294967296) := by
    simpa [IndexEntry.bytes] using slice_append
      (before ++ e.key ++ bigEndian 2 (e.file % 65536) ++ bigEndian 6 e.offset
        ++ bigEndian 4 (e.len % 4294967296))
      (bigEndian 4 (e.flags % 4294967296)) after (by simp [hk]) (length_bigEndian _ _)
  have hlen := h.len
  rw [decodeIndexEntry, h1, h2, h3, h4, h5,
    readBigEndian_bigEndian 2 _ (Nat.lt_of_lt_of_le (Nat.mod_lt _ (by decide)) (by decide)),
    readBigEndian_bigEndian 6 _ (Nat.lt_of_lt_of_le h.offset (by decide)),
    readBigEndian_bigEndian 4 _ (Nat.lt_of_lt_of_le (Nat.mod_lt _ (by decide)) (by decide)),
    readBigEndian_bigEndian 4 _ (Nat.lt_of_lt_of_le (Nat.mod_lt _ (by decide)) (by decide)),
    Nat.mod_eq_of_lt hlen]
  rfl

/-! ## The whole index -/

theorem mapM_encodeIndexEntry {l : List IndexEntry} (h : ∀ e ∈ l, e.Fits) :
    l.mapM encodeIndexEntry = .ok (l.map IndexEntry.bytes) := by
  induction l with
  | nil => rfl
  | cons e l ih =>
    rw [List.mapM_cons, encodeIndexEntry_of_fits (h e List.mem_cons_self),
      ih fun e' he' => h e' (List.mem_cons_of_mem _ he')]
    rfl

def entriesBytes (l : List IndexEntry) : Bytes := (l.map IndexEntry.bytes).flatten

theorem length_entriesBytes {l : List IndexEntry} (h : ∀ e ∈ l, e.Fits) :
    (entriesBytes l).length = l.length * indexEntryBytes := by
  induction l with
  | nil => rfl
  | cons e l ih =>
    rw [entriesBytes, List.map_cons, List.flatten_cons, List.length_append,
      length_bytes (h e List.mem_cons_self), List.length_cons, Nat.succ_mul, Nat.add_comm]
    exact congrArg (· + indexEntryBytes) (ih fun e' he' => h e' (List.mem_cons_of_mem _ he'))

/-- The entry that stands after `A` in an index. -/
theorem decodeIndexEntry_at {A C : List IndexEntry} (h : ∀ x ∈ A ++ e :: C, x.Fits) :
    decodeIndexEntry (entriesBytes (A ++ e :: C)) (A.length * indexEntryBytes) = e.stored := by
  have hA : ∀ x ∈ A, x.Fits := fun x hx => h x (List.mem_append_left _ hx)
  have he : e.Fits := h e (by simp)
  have hb : entriesBytes (A ++ e :: C) = entriesBytes A ++ e.bytes ++ entriesBytes C := by
    simp [entriesBytes]
  rw [hb, ← length_entriesBytes hA]
  exact decodeIndexEntry_bytes he _ _

theorem key_at {A C : List IndexEntry} (h : ∀ x ∈ A ++ e :: C, x.Fits) :
    slice (entriesBytes (A ++ e :: C)) (A.length * indexEntryBytes) 16 = e.key :=
  congrArg IndexEntry.key (decodeIndexEntry_at h)

/-- The key of entry number `i`. -/
theorem key_getElem {l : List IndexEntry} (h : ∀ x ∈ l, x.Fits) {i : Nat} (hi : i < l.length) :
    slice (entriesBytes l) (i * indexEntryBytes) 16 = l[i].key := by
  have hl : l = l.take i ++ l[i] :: l.drop (i + 1) := by
    rw [List.getElem_cons_drop, List.take_append_drop]
  have hlen : (l.take i).length = i := List.length_take_of_le (Nat.le_of_lt hi)
  have hk := key_at (e := l[i]) (A := l.take i) (C := l.drop (i + 1)) (by rw [← hl]; exact h)
  rw [← hl, hlen] at hk
  exact hk

theorem entriesFrom_run {A B C : List IndexEntry} {k : Bytes} (h : ∀ x ∈ A ++ B ++ C, x.Fits)
    (hB : ∀ x ∈ B, x.key = k) (hC : ∀ x ∈ C, x.key ≠ k) (fuel : Nat) (hf : B.length ≤ fuel) :
    entriesFrom (entriesBytes (A ++ B ++ C)) k fuel A.length = B.map IndexEntry.stored := by
  induction B generalizing A fuel with
  | nil =>
    cases fuel with
    | zero => rfl
    | succ fuel =>
      rw [List.append_nil] at h ⊢
      rw [entriesFrom]
      cases C with
      | nil =>
        rw [if_neg]
        · rfl
        · rw [length_entriesBytes h, List.append_nil]
          exact Nat.lt_irrefl _
      | cons c C =>
        rw [decodeIndexEntry_at h]
        split
        · exact if_pos (hC c List.mem_cons_self)
        · rfl
  | cons b B ih =>
    obtain ⟨f, rfl⟩ := Nat.exists_eq_succ_of_ne_zero (show fuel ≠ 0 by
      rw [List.length_cons] at hf
      omega)
    have heq : A ++ b :: B ++ C = A ++ b :: (B ++ C) := by simp
    rw [heq] at h ⊢
    have hlt : A.length * indexEntryBytes < (entriesBytes (A ++ b :: (B ++ C))).length := by
      rw [length_entriesBytes h]
      refine Nat.mul_lt_mul_of_pos_right ?_ (by decide)
      simp
    have hrec := ih (A := A ++ [b]) (by simpa using h) (fun x hx => hB x (List.mem_cons_of_mem _ hx))
      f (by rw [List.length_cons] at hf; omega)
    rw [entriesFrom, if_pos hlt, decodeIndexEntry_at h]
    simp only
    rw [if_neg (not_not.mpr (show b.stored.key = k from hB b List.mem_cons_self)), List.map_cons]
    simp only [List.append_assoc, List.cons_append, List.nil_append, List.length_append,
      List.length_singleton] at hrec
    rw [hrec]

/-- **The entries found for a key are those put in with that key**, in the order of the sort. -/
theorem findIndexEntries_entriesBytes {l : List IndexEntry} (h : ∀ x ∈ l, x.Fits)
    (hs : l.Pairwise keyLe) (k : Bytes) :
    findIndexEntries (entriesBytes l) k = (l.filter fun e => e.key = k).map IndexEntry.stored := by
  obtain ⟨A, B, C, rfl, hA, hB, hC⟩ := exists_three_parts IndexEntry.key hs k
  have hcount : (entriesBytes (A ++ B ++ C)).length / indexEntryBytes = (A ++ B ++ C).length := by
    rw [length_entriesBytes h, Nat.mul_div_cancel _ (by decide)]
  have hAne : ∀ x ∈ A, x.key ≠ k := fun x hx he => by
    have := hA x hx
    rw [compareBytes_eq_iff.mpr he] at this
    cases this
  have hCne : ∀ x ∈ C, x.key ≠ k := fun x hx he => by
    have := hC x hx
    rw [compareBytes_eq_iff.mpr he] at this
    cases this
  have hfilter : (A ++ B ++ C).filter (fun e => e.key = k) = B := by
    have h1 : A.filter (fun e => e.key = k) = [] :=
      List.filter_eq_nil_iff.mpr (by simpa using hAne)
    have h2 : C.filter (fun e => e.key = k) = [] :=
      List.filter_eq_nil_iff.mpr (by simpa using hCne)
    have h3 : B.filter (fun e => e.key = k) = B := List.filter_eq_self.mpr (by simpa using hB)
    rw [List.filter_append, List.filter_append, h1, h2, h3, List.nil_append, List.append_nil]
  have hget : ∀ i (hi : i < (A ++ B ++ C).length),
      compareBytes (slice (entriesBytes (A ++ B ++ C)) (i * indexEntryBytes) 16) k
        = compareBytes ((A ++ B ++ C)[i]).key k := fun i hi => by rw [key_getElem h hi]
  have hparts : ThreeParts
      (fun i => compareBytes (slice (entriesBytes (A ++ B ++ C)) (i * indexEntryBytes) 16) k)
      A.length (A.length + B.length) (A ++ B ++ C).length := by
    refine ⟨Nat.le_add_right _ _, fun i hi => ?_, fun i h1 h2 => ?_, fun i h1 h2 => ?_⟩
    · rw [hget i (by simp; omega)]
      refine hA _ ?_
      rw [List.getElem_append_left (by simp; omega), List.getElem_append_left hi]
      exact List.getElem_mem hi
    · rw [hget i (by simp; omega)]
      refine compareBytes_eq_iff.mpr (hB _ ?_)
      rw [List.getElem_append_left (by simp; omega), List.getElem_append_right h1]
      exact List.getElem_mem _
    · rw [hget i h2]
      refine hC _ ?_
      rw [List.getElem_append_right (by simpa using h1)]
      exact List.getElem_mem _
  have hfind : findIndexEntry (entriesBytes (A ++ B ++ C)) k
      = if A.length < A.length + B.length then some A.length else none := by
    rw [findIndexEntry, hcount]
    exact searchFirst_eq hparts (by simp)
  rw [findIndexEntries, hfind, hfilter]
  cases B with
  | nil => simp
  | cons b B =>
    rw [if_pos (by simp), hcount]
    exact entriesFrom_run h hB hCne _ (by simp; omega)

instance : Std.Total keyLe := ⟨fun a b => by
  rcases le_total (byteValues a.key) (byteValues b.key) with h | h
  · exact .inl fun hg => absurd (compareBytes_gt_iff.mp hg) (not_lt_of_ge h)
  · exact .inr fun hg => absurd (compareBytes_gt_iff.mp hg) (not_lt_of_ge h)⟩

instance : IsTrans IndexEntry keyLe := ⟨fun a b c hab hbc hg => by
  have h1 := le_of_not_gt (mt compareBytes_gt_iff.mpr hab)
  have h2 := le_of_not_gt (mt compareBytes_gt_iff.mpr hbc)
  exact absurd (compareBytes_gt_iff.mp hg) (not_lt_of_ge (le_trans h1 h2))⟩

/-- The index that is built from entries that fit. -/
theorem buildIndex_of_fits {l : List IndexEntry} (h : ∀ e ∈ l, e.Fits) :
    buildIndex l = .ok (entriesBytes (l.insertionSort keyLe)) := by
  rw [buildIndex, mapM_encodeIndexEntry fun e he =>
    h e ((List.perm_insertionSort keyLe l).mem_iff.mp he)]
  rfl

/-! ## Reading only what is there -/

/-- `buf.subarray(at, at + n)`, refused where the buffer ends before. -/
def sliceIn (b : Bytes) (at_ n : Nat) : Option Bytes :=
  if at_ + n ≤ b.length then some (slice b at_ n) else none

def decodeIndexEntryIn (buf : Bytes) (at_ : Nat) : Option IndexEntry :=
  if at_ + indexEntryBytes ≤ buf.length then some (decodeIndexEntry buf at_) else none

/-- `findIndexEntry`, where a read past the end of the buffer is refused. -/
def findIndexEntryIn (indexBuf : Bytes) (key : Bytes) : Option (Option Nat) :=
  let count := indexBuf.length / indexEntryBytes
  searchFirstIn
    (fun i => (sliceIn indexBuf (i * indexEntryBytes) 16).map (compareBytes · key)) count 0 count none

def entriesFromIn (indexBuf : Bytes) (key : Bytes) : Nat → Nat → Option (List IndexEntry)
  | 0, _ => some []
  | fuel + 1, i =>
    if i * indexEntryBytes < indexBuf.length then
      (decodeIndexEntryIn indexBuf (i * indexEntryBytes)).bind fun e =>
        if e.key ≠ key then some [] else (entriesFromIn indexBuf key fuel (i + 1)).map (e :: ·)
    else some []

/-- `findIndexEntries`, where a read past the end of the buffer is refused. -/
def findIndexEntriesIn (indexBuf : Bytes) (key : Bytes) : Option (List IndexEntry) :=
  (findIndexEntryIn indexBuf key).bind fun
    | none => some []
    | some first => entriesFromIn indexBuf key (indexBuf.length / indexEntryBytes) first

theorem findIndexEntryIn_eq (buf k : Bytes) :
    findIndexEntryIn buf k = some (findIndexEntry buf k) := by
  refine searchFirstIn_eq (fun i hi => ?_) _ (Nat.le_refl _) none
  have hin : i * indexEntryBytes + 16 ≤ buf.length := by
    have := (Nat.le_div_iff_mul_le (by decide)).mp (Nat.succ_le_of_lt hi)
    rw [indexEntryBytes] at this ⊢
    omega
  rw [sliceIn, if_pos hin, Option.map_some]

/-- In a buffer of whole entries, an entry that begins inside also ends inside. -/
theorem entriesFromIn_eq {buf : Bytes} (hwhole : indexEntryBytes ∣ buf.length) (k : Bytes)
    (fuel i : Nat) : entriesFromIn buf k fuel i = some (entriesFrom buf k fuel i) := by
  induction fuel generalizing i with
  | zero => rfl
  | succ fuel ih =>
    rw [entriesFromIn, entriesFrom]
    by_cases hi : i * indexEntryBytes < buf.length
    · have hin : i * indexEntryBytes + indexEntryBytes ≤ buf.length := by
        obtain ⟨n, hn⟩ := hwhole
        rw [indexEntryBytes] at hn hi ⊢
        omega
      rw [if_pos hi, if_pos hi, decodeIndexEntryIn, if_pos hin, Option.bind_some]
      simp only
      split
      · rfl
      · rw [ih]
        rfl
    · rw [if_neg hi, if_neg hi]

theorem findIndexEntriesIn_eq {buf : Bytes} (hwhole : indexEntryBytes ∣ buf.length) (k : Bytes) :
    findIndexEntriesIn buf k = some (findIndexEntries buf k) := by
  rw [findIndexEntriesIn, findIndexEntryIn_eq, Option.bind_some, findIndexEntries]
  cases findIndexEntry buf k with
  | none => rfl
  | some first => exact entriesFromIn_eq hwhole k _ first

/-! ## Entries under the hash of a key -/

/-- What is filed under a key. -/
structure KeyedEntry where
  key : Text
  file : Nat
  offset : Nat
  len : Nat
  flags : Nat

namespace KeyedEntry

/-- The fields fit their bytes. -/
structure InRange (e : KeyedEntry) : Prop where
  file : e.file < 65536
  offset : e.offset < 281474976710656
  len : e.len < 4294967296
  flags : e.flags < 4294967296

variable (D : Digests)

def entry (e : KeyedEntry) : IndexEntry := ⟨D.keyPrefix e.key, e.file, e.offset, e.len, e.flags⟩

theorem fits_entry {e : KeyedEntry} (h : e.InRange) : (e.entry D).Fits :=
  ⟨D.keyPrefix_length e.key, h.offset, h.len⟩

/-- Nothing of an entry in range is cut off. -/
theorem stored_entry {e : KeyedEntry} (h : e.InRange) : (e.entry D).stored = e.entry D := by
  rw [IndexEntry.stored, Nat.mod_eq_of_lt (show (e.entry D).file < 65536 from h.file),
    Nat.mod_eq_of_lt (show (e.entry D).flags < 4294967296 from h.flags)]

/-- **An index gives back, for every key, the entries filed under the hash of that key**, each as
often as it was put in, and no read leaves the buffer. -/
theorem findIndexEntries_buildIndex {l : List KeyedEntry} (h : ∀ e ∈ l, e.InRange) :
    ∃ buf, buildIndex (l.map (entry D)) = .ok buf ∧ ∀ k : Text,
      (findIndexEntries buf (D.keyPrefix k)).Perm
        ((l.filter fun e => D.keyPrefix e.key = D.keyPrefix k).map (entry D)) ∧
      findIndexEntriesIn buf (D.keyPrefix k) = some (findIndexEntries buf (D.keyPrefix k)) := by
  have hfits : ∀ e ∈ l.map (entry D), e.Fits := by
    intro e he
    obtain ⟨x, hx, rfl⟩ := List.mem_map.mp he
    exact fits_entry D (h x hx)
  have hperm := List.perm_insertionSort keyLe (l.map (entry D))
  have hsorted : ∀ e ∈ (l.map (entry D)).insertionSort keyLe, e.Fits := fun e he =>
    hfits e (hperm.mem_iff.mp he)
  refine ⟨_, buildIndex_of_fits hfits, fun k => ⟨?_, findIndexEntriesIn_eq ?_ _⟩⟩
  · rw [findIndexEntries_entriesBytes hsorted (List.pairwise_insertionSort keyLe _)]
    have hstored : ((l.map (entry D)).filter fun e => e.key = D.keyPrefix k).map IndexEntry.stored
        = (l.filter fun e => D.keyPrefix e.key = D.keyPrefix k).map (entry D) := by
      rw [List.filter_map, List.map_map]
      refine List.map_congr_left fun e he => ?_
      exact stored_entry D (h e (List.mem_of_mem_filter he))
    rw [← hstored]
    exact (hperm.filter _).map _
  · rw [length_entriesBytes hsorted]
    exact Nat.dvd_mul_left _ _

/-- Two entries under one key and one under another, with the highest values a field can have. -/
theorem findIndexEntries_buildIndex_repeated :
    ∃ buf, buildIndex
        (([⟨"a", 65535, 281474976710655, 4294967295, 4294967295⟩, ⟨"b", 0, 0, 1, 0⟩,
          ⟨"a", 65535, 281474976710655, 4294967295, 4294967295⟩] : List KeyedEntry).map
            (entry nodeCrypto)) = .ok buf ∧ ∀ k : Text,
      (findIndexEntries buf (nodeCrypto.keyPrefix k)).Perm
        ((([⟨"a", 65535, 281474976710655, 4294967295, 4294967295⟩, ⟨"b", 0, 0, 1, 0⟩,
          ⟨"a", 65535, 281474976710655, 4294967295, 4294967295⟩] : List KeyedEntry).filter
            fun e => nodeCrypto.keyPrefix e.key = nodeCrypto.keyPrefix k).map (entry nodeCrypto)) ∧
      findIndexEntriesIn buf (nodeCrypto.keyPrefix k)
        = some (findIndexEntries buf (nodeCrypto.keyPrefix k)) :=
  findIndexEntries_buildIndex nodeCrypto (by
    simp only [List.forall_mem_cons, List.not_mem_nil, false_imp_iff, implies_true, and_true]
    exact ⟨⟨by decide, by decide, by decide, by decide⟩, ⟨by decide, by decide, by decide, by decide⟩,
      ⟨by decide, by decide, by decide, by decide⟩⟩)

end KeyedEntry

end Telepty.Ledger
