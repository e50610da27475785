import Telepty.Audit.Answers

/-!
# Page after page

A client asks for a page, and then for the next one with the cursor that came with it, while the
writer appends to the log. What is appended moves the older records further behind, so a record may
come twice, but none that was in the log when the client began is left out.
-/

namespace Telepty.Audit

open Infra

variable {L : Language} {filters : Filters}

/-- The pages that a client was given, each with the lines that the log had then. -/
inductive Pages (L : Language) : Filters → List (List Bytes) → List (List Record) → Prop where
  | last {filters : Filters} {lines : List Bytes} {page : List Record}
      (read : readInjectLog L (some (joinLines lines)) filters = some (page, none)) :
      Pages L filters [lines] [page]
  | more {filters : Filters} {lines lines' : List Bytes} {logs : List (List Bytes)}
      {page : List Record} {pages : List (List Record)} {next : Number} (cursor : Scalar)
      (read : readInjectLog L (some (joinLines lines)) filters = some (page, some next))
      (sent : cursor.toNumber L = next) (grown : lines <+: lines')
      (rest : Pages L { filters with cursor := some cursor } (lines' :: logs) pages) :
      Pages L filters (lines :: lines' :: logs) (page :: pages)

/-- The log ends with a newline, and there is nothing behind it. -/
theorem splitOn_joinLines {lines : List Bytes} (h : ∀ l ∈ lines, Unbroken l) :
    (joinLines lines).splitOn newline = lines ++ [[]] := by
  induction lines with
  | nil => rfl
  | cons l lines ih =>
    rw [joinLines_cons, List.splitOn_append_cons_self_of_not_mem (h l List.mem_cons_self),
      ih fun l hl => h l (List.mem_cons_of_mem _ hl), List.cons_append]

theorem found_joinLines {lines : List Bytes} (h : ∀ l ∈ lines, Unbroken l) :
    found L filters ((joinLines lines).splitOn newline).reverse = found L filters lines.reverse := by
  have hempty : foundIn L filters [] = some [] := matchInjects_nil filters
  rw [splitOn_joinLines h, List.reverse_append, List.reverse_singleton, List.singleton_append, found,
    hempty]
  cases found L filters lines.reverse <;> rfl

theorem found_cursor (cursor : Option Scalar) (lines : List Bytes) :
    found L { filters with cursor } lines = found L filters lines := by
  induction lines with
  | nil => rfl
  | cons line lines ih =>
    rw [found, found, ih]
    rfl

/-- What lines more a log has puts their records in front of the others. -/
theorem found_grown {lines lines' : List Bytes} (h : lines <+: lines') {out' : List Record}
    (hout' : found L filters lines'.reverse = some out') :
    ∃ newer out, found L filters lines.reverse = some out ∧ out' = newer ++ out := by
  obtain ⟨more, rfl⟩ := h
  rw [List.reverse_append, found_append] at hout'
  obtain ⟨newer, -, hout'⟩ := Option.bind_eq_some_iff.mp hout'
  obtain ⟨out, hout, rfl⟩ := Option.map_eq_some_iff.mp hout'
  exact ⟨newer, out, hout, rfl⟩

theorem cursorOf_sent {cursor : Scalar} {q : ℚ} (h : cursor.toNumber L = .finite q) (hq : 0 ≤ q) :
    cursorOf L { filters with cursor := some cursor } = .finite q := by
  have hnumber : (some cursor).elim .nan (Scalar.toNumber L) = .finite q := h
  unfold cursorOf
  rw [hnumber]
  rcases hq.eq_or_lt with rfl | hpos
  · rfl
  · exact if_pos (decide_eq_true hpos)

/-- A page and what comes behind its cursor are all that comes behind the last cursor. -/
theorem pageOf_append {c sum : ℚ} (hc : 0 ≤ c) (h : c ≤ sum) (records : List Record) :
    pageOf c sum records ++ records.drop (truncate sum).toNat =
      records.drop (truncate c).toNat := by
  have hle : (truncate c).toNat ≤ (truncate sum).toNat := by
    rw [truncate_of_nonneg hc, truncate_of_nonneg (hc.trans h)]
    exact Int.toNat_le_toNat (Int.floor_le_floor h)
  rw [pageOf]
  conv_rhs => rw [← List.take_append_drop (truncate sum).toNat records, List.drop_append]
  rcases Nat.le_total (truncate sum).toNat records.length with hlen | hlen
  · rw [List.length_take, Nat.min_eq_left hlen, Nat.sub_eq_zero_of_le hle, List.drop_zero]
  · rw [List.drop_of_length_le hlen, List.drop_nil]

/-- **Nothing is left out**: the records that matched when a client began are on its pages, in their
order, and if nothing was appended meanwhile its pages are just these records. -/
theorem pages_complete (hadd : L.Adds) {logs : List (List Bytes)} {lines : List Bytes}
    {pages : List (List Record)} (h : Pages L filters (lines :: logs) pages)
    (hlines : ∀ log ∈ lines :: logs, ∀ l ∈ log, Unbroken l)
    {c : ℚ} (hcursor : cursorOf L filters = .finite c) (hc : 0 ≤ c) :
    ∃ out, found L filters lines.reverse = some out ∧
      (out.drop (truncate c).toNat).Sublist pages.flatten ∧
      ((∀ log ∈ logs, log = lines) → pages.flatten = out.drop (truncate c).toNat) := by
  generalize hall : lines :: logs = all at h
  induction h generalizing lines logs c with
  | @last filters lines₀ page read =>
    cases hall
    have hnext : c ≤ L.add c (limitOf L filters) := hadd _ _ hc limitOf_pos.le
    obtain ⟨out, hout, rfl, hnone⟩ := log_of_finite hcursor hc (hc.trans hnext) read
    rw [found_joinLines (hlines lines₀ List.mem_cons_self)] at hout
    have hend : out.drop (truncate (L.add c (limitOf L filters))).toNat = [] := by
      split at hnone
      · cases hnone
      · next hlt =>
        have hlen : (out.length : Int) ≤ ⌊L.add c (limitOf L filters)⌋ :=
          Int.le_floor.mpr (by exact_mod_cast not_lt.mp hlt)
        refine List.drop_of_length_le ?_
        rw [truncate_of_nonneg (hc.trans hnext)]
        omega
    have hflat : [pageOf c (L.add c (limitOf L filters)) out].flatten =
        out.drop (truncate c).toNat := by
      rw [List.flatten_singleton, ← pageOf_append hc hnext out, hend, List.append_nil]
    exact ⟨out, hout, by rw [hflat], fun _ => hflat⟩
  | @more filters lines₀ lines' logs' page pages next cursor read sent grown rest ih =>
    cases hall
    have hnext : c ≤ L.add c (limitOf L filters) := hadd _ _ hc limitOf_pos.le
    have hsum := hc.trans hnext
    obtain ⟨out, hout, rfl, hsome⟩ := log_of_finite hcursor hc hsum read
    rw [found_joinLines (hlines lines₀ List.mem_cons_self)] at hout
    have hfinite : next = .finite (L.add c (limitOf L filters)) := by
      split at hsome
      · cases hsome
        rfl
      · cases hsome
    obtain ⟨out', hout', hsub, hsame⟩ := ih (fun log hlog => hlines log (List.mem_cons_of_mem _ hlog))
      (cursorOf_sent (sent.trans hfinite) hsum) hsum rfl
    rw [found_cursor] at hout'
    obtain ⟨newer, out₀, hout₀, rfl⟩ := found_grown grown hout'
    obtain rfl : out₀ = out := Option.some.inj (hout₀.symm.trans hout)
    have hflat : (pageOf c (L.add c (limitOf L filters)) out₀ :: pages).flatten =
        pageOf c (L.add c (limitOf L filters)) out₀ ++ pages.flatten := List.flatten_cons
    refine ⟨out₀, hout, ?_, fun heq => ?_⟩
    · rw [hflat, ← pageOf_append hc hnext out₀]
      refine (List.Sublist.refl _).append (.trans ?_ hsub)
      rw [List.drop_append]
      exact (List.drop_sublist_drop_left _ (Nat.sub_le _ _)).trans (List.sublist_append_right _ _)
    · obtain rfl : lines' = lines₀ := heq lines' List.mem_cons_self
      have hnewer : newer ++ out₀ = out₀ := Option.some.inj (hout'.symm.trans hout)
      rw [hflat, hsame fun log hlog => heq log (List.mem_cons_of_mem _ hlog), hnewer,
        pageOf_append hc hnext]

/-! ## One log -/

/-- Natural numbers in decimal digits, added without rounding; no text is a date. -/
def plainLanguage : Language where
  read t :=
    if t ≠ [] ∧ t.all CodeUnit.isDigit then
      .finite ((t.foldl (fun n u => n * 10 + (u.toNat - 0x30)) 0 : Nat) : ℚ)
    else .nan
  print n :=
    match n with
    | .nan => codeUnits "NaN"
    | .minusInfinity => codeUnits "-Infinity"
    | .infinity => codeUnits "Infinity"
    | .finite q => codeUnits (natText q.num.toNat)
  add a b := a + b
  thousandfold q := .finite (q * 1000)
  dateParse _ := none

theorem plainLanguage_adds : plainLanguage.Adds := fun _ _ _ hb => le_add_of_nonneg_right hb

def sampleLines : List Bytes :=
  [encodeText "\x7b\"to\":\"a\",\"ts\":5\x7d", encodeText "\x7b\"to\":\"b\"\x7d",
    encodeText "half a li", encodeText "\x7b\"to\":\"c\",\"to_alias\":\"a\"\x7d"]

/-- `?to=a&limit=1` -/
def sampleFilters : Filters where
  since := none
  before := none
  target := some (.text (codeUnits "a"))
  sender := none
  spoof := none
  limit := some (.text (codeUnits "1"))
  cursor := none

def sampleFile : Opened :=
  .opened true (joinLines sampleLines).length fun _ => some (joinLines sampleLines)

theorem sampleFile_holds : sampleFile.Holds (some (joinLines sampleLines)) :=
  .regular fun _ => ⟨[], by rw [List.append_nil]⟩

theorem query_agrees_sample : ∃ injects next json,
    readInjectLog plainLanguage (some (joinLines sampleLines)) sampleFilters = some (injects, next) ∧
    query plainLanguage sampleFilters sampleFile = .ok json ∧
    json = plainLanguage.encode (answer injects next) := by
  have hlog : (readInjectLog plainLanguage (some (joinLines sampleLines)) sampleFilters).isSome = true
    := by decide +kernel
  have hquery : (query plainLanguage sampleFilters sampleFile).isOk = true := by decide +kernel
  obtain ⟨⟨injects, next⟩, hlog⟩ := Option.isSome_iff_exists.mp hlog
  cases h : query plainLanguage sampleFilters sampleFile with
  | error e =>
    rw [h] at hquery
    cases hquery
  | ok json =>
    exact ⟨injects, next, json, hlog, rfl, query_agrees plainLanguage_adds sampleFile_holds hlog h⟩

/-- The answer and its page fit into the reply. -/
def fits (L : Language) (x : List Record × Option Number) : Bool :=
  64 + (x.1.map fun r => utf8Length (L.encode r) + 1).sum ≤ budgets.replyBytes ∧
    utf8Length (L.encode (answer x.1 x.2)) ≤ budgets.replyBytes

/-- A record more, and the client asks for the second page. -/
def grownLines : List Bytes := sampleLines ++ [encodeText "\x7b\"to\":\"a\",\"ts\":9\x7d"]

def secondPage : Filters := { sampleFilters with cursor := some (.text (codeUnits "1")) }

def thirdPage : Filters := { sampleFilters with cursor := some (.text (codeUnits "2")) }

theorem pages_complete_sample : ∃ pages out,
    Pages plainLanguage sampleFilters [sampleLines, grownLines, grownLines] pages ∧
    found plainLanguage sampleFilters sampleLines.reverse = some out ∧
    (out.drop (truncate 0).toNat).Sublist pages.flatten := by
  have hfirst : (readInjectLog plainLanguage (some (joinLines sampleLines)) sampleFilters).map
      Prod.snd = some (some (.finite 1)) := by decide +kernel
  have hsecond : (readInjectLog plainLanguage (some (joinLines grownLines)) secondPage).map
      Prod.snd = some (some (.finite 2)) := by decide +kernel
  have hthird : (readInjectLog plainLanguage (some (joinLines grownLines)) thirdPage).map
      Prod.snd = some none := by decide +kernel
  obtain ⟨⟨page₁, _⟩, h₁, rfl⟩ := Option.map_eq_some_iff.mp hfirst
  obtain ⟨⟨page₂, _⟩, h₂, rfl⟩ := Option.map_eq_some_iff.mp hsecond
  obtain ⟨⟨page₃, _⟩, h₃, rfl⟩ := Option.map_eq_some_iff.mp hthird
  have hpages : Pages plainLanguage sampleFilters [sampleLines, grownLines, grownLines]
      [page₁, page₂, page₃] :=
    .more (.text (codeUnits "1")) h₁ (by decide +kernel) (List.prefix_append _ _)
      (.more (.text (codeUnits "2")) h₂ (by decide +kernel) (List.prefix_refl _)
        (.last h₃))
  obtain ⟨out, hout, hsub, -⟩ := pages_complete plainLanguage_adds hpages (by decide +kernel)
    (c := 0) (by decide +kernel) (le_refl 0)
  exact ⟨_, out, hpages, hout, hsub⟩

end Telepty.Audit
