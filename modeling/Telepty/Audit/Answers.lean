import Telepty.Audit.Query
import Telepty.Infra.Ascii

/-!
# What a query answers

The worker visits the lines from the end and keeps one page of the records that match. While it
counts, its page is the one of the records so far (`Shows`), and once it is done no older record could
come onto the page. So its answer is the one that `readInjectLog` gives for the whole log.
-/

namespace Telepty.Audit

open Infra Rfc8259

/-! ## The records of the lines -/

section

variable (L : Language) (filters : Filters)

/-- The records of a line that match: one at most. -/
def foundIn (line : Bytes) : Option (List Record) :=
  matchInjects L (recordOf L (decodeText line)).toList filters

/-- The records that match, line by line. -/
def found : List Bytes → Option (List Record)
  | [] => some []
  | line :: lines => (foundIn L filters line).bind fun a => (found lines).map (a ++ ·)

end

variable {L : Language} {filters : Filters}

theorem foundIn_cases {line : Bytes} {a : List Record} (h : foundIn L filters line = some a) :
    a = [] ∨ ∃ r, recordOf L (decodeText line) = some r ∧ a = [r] := by
  have hsub := matchInjects_sublist h
  cases hr : recordOf L (decodeText line) with
  | none =>
    rw [hr] at hsub
    exact .inl (List.sublist_nil.mp hsub)
  | some r =>
    rw [hr] at hsub
    exact (List.sublist_singleton.mp hsub).imp id fun h => ⟨r, rfl, h⟩

theorem found_append (xs ys : List Bytes) :
    found L filters (xs ++ ys) =
      (found L filters xs).bind fun a => (found L filters ys).map (a ++ ·) := by
  induction xs with
  | nil =>
    show found L filters ys = (found L filters ys).map ([] ++ ·)
    cases found L filters ys with
    | none => rfl
    | some b => rfl
  | cons x xs ih =>
    rw [List.cons_append, found, found, ih]
    cases foundIn L filters x with
    | none => rfl
    | some a =>
      cases found L filters xs with
      | none => rfl
      | some b =>
        cases found L filters ys with
        | none => rfl
        | some d => exact congrArg some (List.append_assoc a b d).symm

/-- **The records of the log, the newest first**, are found line by line from its end. -/
theorem found_reverse (lines : List Bytes) :
    (matchInjects L (lines.filterMap fun line => recordOf L (decodeText line)) filters).map
      List.reverse = found L filters lines.reverse := by
  induction lines with
  | nil =>
    show (matchInjects L [] filters).map List.reverse = some []
    rw [matchInjects_nil]
    rfl
  | cons line lines ih =>
    have hcons : (line :: lines).filterMap (fun line => recordOf L (decodeText line)) =
        (recordOf L (decodeText line)).toList ++
          lines.filterMap fun line => recordOf L (decodeText line) := by
      rw [List.filterMap_cons]
      cases recordOf L (decodeText line) <;> rfl
    rw [hcons, matchInjects_append, List.reverse_cons, found_append, ← ih]
    cases ha : foundIn L filters line with
    | none =>
      rw [foundIn] at ha
      rw [ha, found, foundIn, ha]
      cases matchInjects L (lines.filterMap fun line => recordOf L (decodeText line)) filters <;> rfl
    | some a =>
      have hrev : a.reverse = a := by
        rcases foundIn_cases ha with rfl | ⟨r, -, rfl⟩ <;> rfl
      rw [found, ha, found]
      rw [foundIn] at ha
      rw [ha]
      cases matchInjects L (lines.filterMap fun line => recordOf L (decodeText line)) filters with
      | none => rfl
      | some b => simp [hrev]

theorem recordOf_nil : recordOf L [] = none := rfl

/-- The records of the log are those of its lines. -/
theorem records_eq (raw : Bytes) :
    (((decodeText raw).splitOn '\n').filter (· ≠ [])).filterMap (recordOf L) =
      (raw.splitOn newline).filterMap fun line => recordOf L (decodeText line) := by
  have hlines : (decodeText raw).splitOn '\n' = (raw.splitOn newline).map decodeText :=
    splitOn_decodeText (c := '\n') (by decide) (by decide) raw
  rw [hlines]
  induction raw.splitOn newline with
  | nil => rfl
  | cons line lines ih =>
    rw [List.map_cons, List.filterMap_cons, List.filter_cons]
    by_cases hnil : decodeText line = []
    · rw [hnil, if_neg (by simp), recordOf_nil]
      exact ih
    · rw [if_pos (by simpa using hnil), List.filterMap_cons]
      rw [ih]

/-! ## Pages -/

theorem truncate_of_nonneg {q : ℚ} (h : 0 ≤ q) : truncate q = ⌊q⌋ := if_pos h

section

variable {c sum : ℚ}

/-- The part of the records that a page is. -/
def pageOf (c sum : ℚ) (records : List Record) : List Record :=
  (records.take (truncate sum).toNat).drop (truncate c).toNat

theorem slice_eq (hc : 0 ≤ c) (hsum : 0 ≤ sum) (records : List Record) :
    slice records (.finite c) (.finite sum) = pageOf c sum records := by
  have hpos : ∀ {q : ℚ}, 0 ≤ q → 0 ≤ truncate q := fun h => by
    rw [truncate_of_nonneg h]
    exact Int.floor_nonneg.mpr h
  have htake : records.take (min (truncate sum).toNat records.length) =
      records.take (truncate sum).toNat := by
    rcases Nat.le_total (truncate sum).toNat records.length with h | h
    · rw [Nat.min_eq_left h]
    · rw [Nat.min_eq_right h, List.take_length, List.take_of_length_le h]
  rw [slice, sliceIndex, sliceIndex, pageOf, if_neg (Int.not_lt.mpr (hpos hc)),
    if_neg (Int.not_lt.mpr (hpos hsum)), htake]
  rcases Nat.le_total (truncate c).toNat records.length with h | h
  · rw [Nat.min_eq_left h]
  · have hlen : (records.take (truncate sum).toNat).length ≤ records.length := List.length_take_le' _ _
    rw [Nat.min_eq_right h, List.drop_of_length_le hlen, List.drop_of_length_le (hlen.trans h)]

/-- What the worker holds of the records so far. -/
structure Page.Shows (L : Language) (c sum : ℚ) (records : List Record) (s : Page) : Prop where
  page : s.page = (pageOf c sum records).map L.encode
  matched : s.matched = records.length
  bytes : s.replyBytes = 64 + (s.page.map fun t => utf8Length t + 1).sum
  done : s.done = decide (sum < records.length)
  next : s.next = if sum < records.length then some sum else none

variable {records : List Record} {r : Record} {s s' : Page}

theorem Page.shows_initial (hsum : 0 ≤ sum) : Page.initial.Shows L c sum [] where
  page := by
    rw [pageOf, List.take_nil, List.drop_nil]
    rfl
  matched := rfl
  bytes := rfl
  done := (decide_eq_false (by simpa using hsum)).symm
  next := (if_neg (by simpa using hsum)).symm

/-- A record that the page ends before, or that comes before the page, leaves it as it is. -/
theorem pageOf_concat (records : List Record) (r : Record) :
    pageOf c sum (records ++ [r]) = pageOf c sum records ++
      if truncate c ≤ records.length ∧ records.length < truncate sum then [r] else [] := by
  unfold pageOf
  rw [List.take_append]
  by_cases hstop : records.length < (truncate sum).toNat
  · rw [List.take_of_length_le (Nat.le_of_lt hstop), List.take_of_length_le (by simp; omega)]
    by_cases hstart : (truncate c).toNat ≤ records.length
    · rw [List.drop_append_of_le_length hstart, if_pos (by omega)]
    · rw [if_neg (by omega), List.append_nil, List.drop_of_length_le (by simp; omega),
        List.drop_of_length_le (by omega)]
  · rw [if_neg (by omega), List.append_nil, Nat.sub_eq_zero_of_le (Nat.le_of_not_lt hstop),
      List.take_zero, List.append_nil]

theorem Page.Shows.add (hs : s.Shows L c sum records) (hd : s.done = false)
    (h : s.add L (truncate c) (truncate sum) sum r = .ok s') :
    s'.Shows L c sum (records ++ [r]) := by
  have hnot : ¬sum < records.length := of_decide_eq_false (hs.done.symm.trans hd)
  have hnext : s.next = none := by rw [hs.next, if_neg hnot]
  have hfinish : ∀ {s₁ : Page}, s₁.page = (pageOf c sum (records ++ [r])).map L.encode →
      s₁.replyBytes = 64 + (s₁.page.map fun t => utf8Length t + 1).sum →
      s₁.matched = records.length + 1 → s₁.next = none → s₁.done = false →
      (if sum < s₁.matched then { s₁ with next := some sum, done := true } else s₁).Shows L c sum
        (records ++ [r]) := by
    intro s₁ hpage hbytes hmatched hnext hdone
    have hlen : (records ++ [r]).length = s₁.matched := by
      rw [hmatched, List.length_append, List.length_singleton]
    split
    · next hlt =>
      exact ⟨hpage, hlen.symm, hbytes, by rw [hlen]; exact (decide_eq_true hlt).symm,
        by rw [hlen, if_pos hlt]⟩
    · next hlt =>
      exact ⟨hpage, hlen.symm, hbytes, by rw [hlen, hdone]; exact (decide_eq_false hlt).symm,
        by rw [hlen, if_neg hlt, hnext]⟩
  rw [Page.add] at h
  dsimp only at h
  rw [hs.matched] at h
  by_cases hin : truncate c ≤ records.length ∧ records.length < truncate sum
  · rw [if_pos hin] at h
    split at h
    · cases h
    · cases h
      refine hfinish ?_ ?_ rfl hnext hd
      · show s.page ++ [L.encode r] = _
        rw [pageOf_concat, if_pos hin, List.map_append, hs.page, List.map_singleton]
      · show s.replyBytes + (utf8Length (L.encode r) + 1) =
          64 + ((s.page ++ [L.encode r]).map fun t => utf8Length t + 1).sum
        rw [hs.bytes, List.map_append, List.map_singleton, List.sum_append, List.sum_singleton,
          Nat.add_assoc]
  · rw [if_neg hin] at h
    cases h
    refine hfinish ?_ hs.bytes rfl hnext hd
    show s.page = _
    rw [pageOf_concat, if_neg hin, List.append_nil, hs.page]

/-- The bytes that the reply counts for a page of these records. -/
def replySize (L : Language) (c sum : ℚ) (records : List Record) : Nat :=
  64 + ((pageOf c sum records).map fun r => utf8Length (L.encode r) + 1).sum

/-- A record that fits into the reply is added. -/
theorem Page.Shows.add_fits (hs : s.Shows L c sum records)
    (hfits : replySize L c sum (records ++ [r]) ≤ budgets.replyBytes) :
    ∃ s', s.add L (truncate c) (truncate sum) sum r = .ok s' := by
  rw [Page.add]
  dsimp only
  rw [hs.matched]
  by_cases hin : truncate c ≤ records.length ∧ records.length < truncate sum
  · rw [if_pos hin]
    have hbytes : ¬budgets.replyBytes < s.replyBytes + (utf8Length (L.encode r) + 1) := by
      rw [replySize, pageOf_concat, if_pos hin, List.map_append, List.map_singleton,
        List.sum_append, List.sum_singleton] at hfits
      rw [hs.bytes, hs.page, List.map_map, Nat.not_lt, Nat.add_assoc]
      exact hfits
    rw [if_neg hbytes]
    exact ⟨_, rfl⟩
  · rw [if_neg hin]
    exact ⟨_, rfl⟩

/-! ## Rows -/

theorem row_cases {start stop : Int} {line : Bytes}
    (h : row L filters start stop sum line s = .ok s') {a : List Record}
    (ha : foundIn L filters line = some a) :
    a = [] ∧ s' = s ∨ ∃ r, a = [r] ∧ s.add L start stop sum r = .ok s' := by
  have hempty : recordOf L (decodeText line) = none → a = [] := fun hr =>
    (foundIn_cases ha).resolve_right fun ⟨r, hsome, _⟩ => by
      rw [hr] at hsome
      cases hsome
  rw [row] at h
  split at h
  · cases h
  split at h
  · next hnil =>
    cases h
    refine .inl ⟨hempty ?_, rfl⟩
    rw [hnil]
    exact recordOf_nil
  split at h
  · next hr =>
    cases h
    exact .inl ⟨hempty hr, rfl⟩
  next r hr =>
  rw [foundIn, hr, Option.toList_some] at ha
  rw [ha] at h
  cases a with
  | nil =>
    cases h
    exact .inl ⟨rfl, rfl⟩
  | cons r' rest =>
    obtain ⟨r'', hr'', heq⟩ := (foundIn_cases (by rw [foundIn, hr]; exact ha)).resolve_left
      (List.cons_ne_nil r' rest)
    rw [hr] at hr''
    cases hr''
    exact .inr ⟨r, heq, h⟩

theorem Page.Shows.row {line : Bytes} {a : List Record} (hs : s.Shows L c sum records)
    (hd : s.done = false) (h : row L filters (truncate c) (truncate sum) sum line s = .ok s')
    (ha : foundIn L filters line = some a) : s'.Shows L c sum (records ++ a) := by
  rcases row_cases h ha with ⟨rfl, rfl⟩ | ⟨r, rfl, hadd⟩
  · rw [List.append_nil]
    exact hs
  · exact hs.add hd hadd

/-- **While rows are visited the page is that of the records so far**, and it is short of none unless
the worker is done. -/
theorem visitAll_shows {lines : List Bytes} {out : List Record} (hs : s.Shows L c sum records)
    (h : (rows L filters c).visitAll lines s = .ok s')
    (hsum : L.add c (limitOf L filters) = sum) (hfound : found L filters lines = some out) :
    ∃ seen, s'.Shows L c sum seen ∧ seen <+: records ++ out ∧
      (s'.done = false → seen = records ++ out) := by
  induction lines generalizing s records out with
  | nil =>
    cases h
    cases hfound
    exact ⟨records, hs, List.prefix_append _ _, fun _ => (List.append_nil _).symm⟩
  | cons line lines ih =>
    obtain ⟨a, ha, hfound⟩ := Option.bind_eq_some_iff.mp hfound
    obtain ⟨b, hb, rfl⟩ := Option.map_eq_some_iff.mp hfound
    cases hd : s.done with
    | true =>
      rw [Visitor.visitAll_of_done _ hd] at h
      cases h
      refine ⟨records, hs, List.prefix_append _ _, fun hd' => ?_⟩
      rw [hd] at hd'
      cases hd'
    | false =>
      rw [Visitor.visitAll_cons _ hd] at h
      cases hv : (rows L filters c).visit line s with
      | error e =>
        rw [hv] at h
        cases h
      | ok s₁ =>
        rw [hv] at h
        have hrow : row L filters (truncate c) (truncate sum) sum line s = .ok s₁ := by
          rw [← hsum]
          exact hv
        rw [← List.append_assoc]
        exact ih (hs.row hd hrow ha) h hb

theorem replySize_le (records more : List Record) :
    replySize L c sum records ≤ replySize L c sum (records ++ more) := by
  have hpage : pageOf c sum records <+: pageOf c sum (records ++ more) := by
    rw [pageOf, pageOf, List.take_append, List.drop_append]
    exact List.prefix_append _ _
  obtain ⟨t, ht⟩ := hpage
  rw [replySize, replySize, ← ht, List.map_append, List.sum_append]
  omega

theorem row_fits {line : Bytes} {a : List Record} (hs : s.Shows L c sum records)
    (ha : foundIn L filters line = some a) (hline : line.length ≤ budgets.lineBytes)
    (hfits : replySize L c sum (records ++ a) ≤ budgets.replyBytes) :
    ∃ s', row L filters (truncate c) (truncate sum) sum line s = .ok s' := by
  rw [row, if_neg (Nat.not_lt.mpr hline)]
  split
  · exact ⟨_, rfl⟩
  split
  · exact ⟨_, rfl⟩
  next r hr =>
  have hcases := foundIn_cases ha
  rw [foundIn, hr, Option.toList_some] at ha
  rw [ha]
  rcases hcases with rfl | ⟨r', hr', rfl⟩
  · exact ⟨_, rfl⟩
  · rw [hr] at hr'
    cases hr'
    exact hs.add_fits hfits

/-- Rows within the budgets are all visited. -/
theorem visitAll_fits {lines : List Bytes} {out : List Record} (hs : s.Shows L c sum records)
    (hsum : L.add c (limitOf L filters) = sum) (hfound : found L filters lines = some out)
    (hlines : ∀ line ∈ lines, line.length ≤ budgets.lineBytes)
    (hfits : replySize L c sum (records ++ out) ≤ budgets.replyBytes) :
    ∃ s', (rows L filters c).visitAll lines s = .ok s' := by
  induction lines generalizing s records out with
  | nil => exact ⟨s, rfl⟩
  | cons line lines ih =>
    obtain ⟨a, ha, hfound⟩ := Option.bind_eq_some_iff.mp hfound
    obtain ⟨b, hb, rfl⟩ := Option.map_eq_some_iff.mp hfound
    cases hd : s.done with
    | true => exact ⟨s, Visitor.visitAll_of_done _ hd⟩
    | false =>
      rw [← List.append_assoc] at hfits
      obtain ⟨s₁, hrow⟩ := row_fits hs ha (hlines line List.mem_cons_self)
        ((replySize_le (records ++ a) b).trans hfits)
      have hvisit : (rows L filters c).visit line s = .ok s₁ := by
        rw [← hrow, ← hsum]
        rfl
      rw [Visitor.visitAll_cons _ hd, hvisit]
      exact ih (hs.row hd hrow ha) hb (fun l hl => hlines l (List.mem_cons_of_mem _ hl)) hfits

/-- What the worker shows in the end is the page of all the records. -/
theorem Page.Shows.whole {seen : List Record} (hs : s.Shows L c sum seen) (hsum : 0 ≤ sum)
    (hpre : seen <+: records) (hall : s.done = false → seen = records) :
    s.page = (pageOf c sum records).map L.encode ∧
      s.next = if sum < records.length then some sum else none := by
  cases hd : s.done with
  | false =>
    rw [hs.page, hs.next, hall hd]
    exact ⟨rfl, rfl⟩
  | true =>
    have hlt : sum < seen.length := of_decide_eq_true (hs.done.symm.trans hd)
    have hlen : (seen.length : ℚ) ≤ records.length := Nat.cast_le.mpr hpre.length_le
    have hstop : (truncate sum).toNat ≤ seen.length := by
      rw [truncate_of_nonneg hsum]
      have : ⌊sum⌋ < (seen.length : Int) := Int.floor_lt.mpr (by exact_mod_cast hlt)
      omega
    obtain ⟨rest, rfl⟩ := hpre
    refine ⟨?_, ?_⟩
    · rw [hs.page, pageOf, pageOf, List.take_append_of_le_length hstop]
    · rw [hs.next, if_pos hlt, if_pos (lt_of_lt_of_le hlt hlen)]

end

/-! ## Answers -/

/-- What `/api/injects` answers with, as an object. -/
def answer (injects : List Record) (next : Option Number) : Record :=
  .obj [(codeUnits "injects", .arr injects), (codeUnits "next_cursor", next.elim .null .num)]

theorem reply_eq (injects : List Record) (next : Option ℚ) :
    reply L (injects.map L.encode) next = L.encode (answer injects (next.map .finite)) := by
  have hinjects : quote (codeUnits "injects") ++ [unit ':', unit '['] =
      (codeUnits "\x7b\"injects\":[").tail := by decide +kernel
  have hcursor : unit ',' :: (quote (codeUnits "next_cursor") ++ [unit ':']) =
      (codeUnits "],\"next_cursor\":").tail := by decide +kernel
  have hnext : next.elim (codeUnits "null") (fun q => L.printJson (.finite q)) =
      stringify L.printJson ((next.map Number.finite).elim .null .num) := by
    cases next <;> rfl
  have hjoin : ∀ a b, join [a, b] = a ++ unit ',' :: b := fun _ _ => rfl
  rw [reply, hnext, Language.encode, answer, stringify, stringifyMembers, stringifyMembers,
    stringifyMembers, hjoin, stringify, stringifyItems_eq]
  show unit '{' :: ((codeUnits "\x7b\"injects\":[").tail ++ (join (injects.map L.encode) ++
    (unit ']' :: (codeUnits "],\"next_cursor\":").tail ++ _))) = _
  rw [← hinjects, ← hcursor]
  simp only [List.append_assoc, List.cons_append, List.nil_append]
  rfl

/-- What the worker finds at the path is the log: nothing, or a file whose beginning it is, however
much is appended while it is read. -/
inductive Opened.Holds : Opened → Option Bytes → Prop where
  | missing : Holds .missing none
  | regular {data : Bytes} {contents : Nat → Option Bytes}
      (grows : ∀ k, ∃ more, contents k = some (data ++ more)) :
      Holds (.opened true data.length contents) (some data)

/-- A sum is not rounded below the number that was added to. -/
def Language.Adds (L : Language) : Prop := ∀ a b, 0 ≤ a → 0 ≤ b → a ≤ L.add a b

/-- The reads find the file as it was opened. -/
theorem readSync_of_grows {data : Bytes} {contents : Nat → Option Bytes}
    (grows : ∀ k, ∃ more, contents k = some (data ++ more)) {k pos n : Nat}
    (h : pos + n ≤ data.length) : readSync contents k pos n = .ok ((data.drop pos).take n) := by
  obtain ⟨more, hmore⟩ := grows k
  have hbytes : ((data ++ more).drop pos).take n = (data.drop pos).take n := by
    rw [List.drop_append_of_le_length (by omega), List.take_append_of_le_length]
    rw [List.length_drop]
    omega
  have hlen : ((data.drop pos).take n).length = n := by
    rw [List.length_take, List.length_drop]
    omega
  rw [readSync, hmore]
  dsimp only
  rw [hbytes, if_pos hlen]

/-- A rest that is refused is the end of a line that is too long. -/
theorem row_of_checkRest {c : ℚ} {rest : Bytes} {e : Reason} (h : checkRest rest = .error e)
    (p : Bytes) (s : Page) : (rows L filters c).visit (p ++ rest) s = .error e := by
  rw [checkRest] at h
  split at h
  · next hlong =>
    cases h
    refine if_pos ?_
    rw [List.length_append]
    omega
  · cases h

/-- The blocks of a file are its lines, the last one first. -/
theorem scan_eq {data : Bytes} {contents : Nat → Option Bytes} (c : ℚ)
    (grows : ∀ k, ∃ more, contents k = some (data ++ more)) :
    (rows L filters c).scan newline budgets.chunkBytes (readSync contents) checkRest data.length 0
      data.length [] Page.initial =
    (rows L filters c).visitAll (data.splitOn newline).reverse Page.initial := by
  rw [Visitor.scan_eq_visitAll data (by decide)
    (fun k pos n h => readSync_of_grows grows h) (fun rest e h p s => row_of_checkRest h p s)
    (Nat.le_refl _) (Nat.le_refl _) List.not_mem_nil rfl, List.take_length, List.append_nil]

theorem limitOf_pos : 0 < limitOf L filters := by
  unfold limitOf
  split
  · exact by norm_num
  · exact one_pos
  · exact by norm_num
  · split
    · exact by norm_num
    · exact lt_min (lt_of_lt_of_le one_pos (le_max_right _ _)) (by norm_num)

theorem cursorOf_cases (L : Language) (filters : Filters) : (∃ c, cursorOf L filters = .finite c ∧ 0 ≤ c) ∨
    cursorOf L filters = .infinity := by
  unfold cursorOf
  dsimp only
  split
  · next h =>
    cases hn : filters.cursor.elim .nan (Scalar.toNumber L) with
    | finite c =>
      rw [hn] at h
      exact .inl ⟨c, rfl, (of_decide_eq_true h).le⟩
    | infinity => exact .inr rfl
    | _ =>
      rw [hn] at h
      cases h
  · exact .inl ⟨0, rfl, le_refl 0⟩

/-- The log's records that match, the newest first, and the page of them. -/
theorem readInjectLog_eq {data : Bytes} {injects : List Record} {next : Option Number}
    (h : readInjectLog L (some data) filters = some (injects, next)) :
    ∃ out, found L filters (data.splitOn newline).reverse = some out ∧
      injects = slice out (cursorOf L filters) (L.sum (cursorOf L filters) (limitOf L filters)) ∧
      next = if (L.sum (cursorOf L filters) (limitOf L filters)).lt (.finite out.length) then
        some (L.sum (cursorOf L filters) (limitOf L filters)) else none := by
  obtain ⟨out, hout, heq⟩ := Option.map_eq_some_iff.mp h
  rw [records_eq] at hout
  cases heq
  refine ⟨out.reverse, ?_, rfl, rfl⟩
  rw [← found_reverse, hout]
  rfl

section

variable {data : Bytes} {contents : Nat → Option Bytes} {injects : List Record}
  {next : Option Number}

theorem log_of_finite {c : ℚ} (hc : cursorOf L filters = .finite c) (hpos : 0 ≤ c)
    (hsum : 0 ≤ L.add c (limitOf L filters))
    (h : readInjectLog L (some data) filters = some (injects, next)) :
    ∃ out, found L filters (data.splitOn newline).reverse = some out ∧
      injects = pageOf c (L.add c (limitOf L filters)) out ∧
      next = (if L.add c (limitOf L filters) < out.length then some (L.add c (limitOf L filters))
        else none).map .finite := by
  obtain ⟨out, hout, rfl, rfl⟩ := readInjectLog_eq h
  refine ⟨out, hout, ?_, ?_⟩
  · rw [hc, Language.sum, slice_eq hpos hsum]
  · rw [hc, Language.sum, Number.lt]
    by_cases hlt : L.add c (limitOf L filters) < out.length
    · rw [if_pos (decide_eq_true hlt), if_pos hlt]
      rfl
    · rw [if_neg (by simpa using hlt), if_neg hlt]
      rfl

theorem log_of_infinite (hc : cursorOf L filters = .infinity)
    (h : readInjectLog L (some data) filters = some (injects, next)) : injects = [] ∧ next = none := by
  obtain ⟨out, -, rfl, rfl⟩ := readInjectLog_eq h
  rw [hc]
  refine ⟨?_, rfl⟩
  show (out.take out.length).drop out.length = []
  rw [List.take_length, List.drop_length]

theorem query_of_finite {c : ℚ} (hc : cursorOf L filters = .finite c)
    (hsize : data.length ≤ budgets.fileBytes)
    (grows : ∀ k, ∃ more, contents k = some (data ++ more)) :
    query L filters (.opened true data.length contents) =
      ((rows L filters c).visitAll (data.splitOn newline).reverse Page.initial).bind fun s =>
        if budgets.replyBytes < utf8Length (reply L s.page s.next) then .error .replyBytes
        else .ok (reply L s.page s.next) := by
  rw [query, if_neg (by simp), if_neg (Nat.not_lt.mpr hsize), hc]
  dsimp only
  rw [scan_eq c grows]

theorem query_of_infinite (hc : cursorOf L filters = .infinity)
    (hsize : data.length ≤ budgets.fileBytes) :
    query L filters (.opened true data.length contents) = .ok (reply L [] none) := by
  rw [query, if_neg (by simp), if_neg (Nat.not_lt.mpr hsize), hc]

end

variable {file : Opened} {raw : Option Bytes} {injects : List Record} {next : Option Number}
  {json : Units}

/-- **The blocks from the end answer as the whole log does**: whatever a query answers is the page of
`readInjectLog` and its next cursor. -/
theorem query_agrees (hadd : L.Adds) (hfile : file.Holds raw)
    (hlog : readInjectLog L raw filters = some (injects, next))
    (h : query L filters file = .ok json) : json = L.encode (answer injects next) := by
  cases hfile with
  | missing =>
    cases hlog
    cases h
    exact reply_eq [] none
  | @regular data contents grows =>
    have hsize : data.length ≤ budgets.fileBytes := by
      by_contra hlong
      rw [query, if_neg (by simp), if_pos (Nat.not_le.mp hlong)] at h
      cases h
    rcases cursorOf_cases L filters with ⟨c, hc, hpos⟩ | hc
    · have hsum : 0 ≤ L.add c (limitOf L filters) := hpos.trans (hadd _ _ hpos limitOf_pos.le)
      obtain ⟨out, hout, rfl, rfl⟩ := log_of_finite hc hpos hsum hlog
      rw [query_of_finite hc hsize grows] at h
      cases hv : (rows L filters c).visitAll (data.splitOn newline).reverse Page.initial with
      | error e =>
        rw [hv] at h
        cases h
      | ok s =>
        rw [hv, Except.bind] at h
        split at h
        · cases h
        cases h
        obtain ⟨seen, hs, hpre, hall⟩ := visitAll_shows (Page.shows_initial hsum) hv rfl hout
        obtain ⟨hpage, hnext⟩ := hs.whole hsum hpre hall
        rw [hpage, hnext]
        exact reply_eq _ _
    · obtain ⟨rfl, rfl⟩ := log_of_infinite hc hlog
      rw [query_of_infinite hc hsize] at h
      cases h
      exact reply_eq [] none

end Telepty.Audit
