import Mathlib.Data.List.Perm.Subperm
import Telepty.Infra.JsonLine
import Telepty.Mailbox.Settlement

/-!
# What was settled stays settled

A commit that was confirmed is in the file from then on, whichever commits follow, wherever the process
dies in them and whichever file operation fails (`settled_lasts`): the rows are only added to, no two
of them are about one message, and the file can always be read.

The rows are written as `JSON.stringify` writes them and are read back as they were (`readRows_fileText`).
-/

namespace Telepty.Mailbox.Settlement

open Infra Rfc8259 Principal.Encoding Prog

variable {N : Type} {L : Numbers N} {row : Row N} {rows : List (Row N)}

/-- What the language does with the times of the rows. -/
structure Numbers.Sound (L : Numbers N) : Prop extends Prints L.toNumeric L.print where
  finite : ∀ n, L.safe n → L.finite n
  /-- `Number.MAX_SAFE_INTEGER` has 16 digits. -/
  short : ∀ n, L.safe n → (L.print n).length ≤ 16

/-! ## A valid row -/

/-- How long a text of a kind may be. -/
def Kind.limit : Kind → Nat
  | .literal t => (codeUnits t.toList).length
  | .text => 128
  | .epoch => 22
  | .uuid => 36
  | .hash => 64
  | .time => 0

theorem length_of_fits {ps : List (CodeUnit → Bool)} {t : Units} (h : fits ps t) :
    t.length = ps.length := by
  fun_induction fits ps t with
  | case1 => rfl
  | case2 p ps u t ih => rw [List.length_cons, List.length_cons, ih (Bool.and_eq_true_iff.mp h).2]
  | case3 => cases h

theorem Kind.holds_cases {k : Kind} {v : Value N} (h : k.holds L v) :
    (∃ s, v = .str s ∧ s.length ≤ k.limit) ∨ ∃ n, v = .num n ∧ L.safe n := by
  cases v with
  | str s =>
    refine .inl ⟨s, rfl, ?_⟩
    cases k with
    | literal t => exact (congrArg List.length (of_decide_eq_true h)).le
    | text =>
      have hbytes : utf8Length s ≤ 128 := by
        simp only [Kind.holds, Bool.and_eq_true, decide_eq_true_eq] at h
        exact h.1.2
      exact (utf8Length_bounds s).1.trans hbytes
    | epoch => exact (length_of_fits h).le
    | uuid => exact (length_of_fits h).le
    | hash => exact (length_of_fits h).le
    | time => cases h
  | num n =>
    cases k with
    | time => exact .inr ⟨n, rfl, h⟩
    | _ => cases h
  | _ => cases k <;> cases h

theorem limit_le : ∀ f ∈ fields, f.2.limit ≤ 128 := by decide

theorem name_le : ∀ f ∈ fields, (codeUnits f.1.toList).length ≤ 23 := by decide

theorem names_nodup : (fields.map fun f => codeUnits f.1.toList).Nodup := by decide

theorem get_obj_eq_some {ms : List (Units × Value N)} {name : String} {v : Value N}
    (h : get (.obj ms) name = some v) : (codeUnits name.toList, v) ∈ ms := by
  obtain ⟨⟨k, w⟩, hfind, rfl⟩ := Option.map_eq_some_iff.mp h
  have hk := List.find?_some hfind
  obtain rfl : k = codeUnits name.toList := of_decide_eq_true hk
  exact List.mem_of_find?_eq_some hfind

/-- A value of a valid row is a text or a number, and not long. -/
structure Plain (L : Numbers N) (v : Value N) : Prop where
  leaf : v.children = []
  nameless : v.names = []
  finite : ∀ n, v = .num n → L.finite n
  printable : Printable (stringify L.print v)
  short : (stringify L.print v).length ≤ 770

theorem plain_of_holds (hL : L.Sound) {v : Value N} {f : String × Kind} (hf : f ∈ fields)
    (h : f.2.holds L v) : Plain L v := by
  rcases Kind.holds_cases h with ⟨s, rfl, hs⟩ | ⟨n, rfl, hn⟩
  · have hlen := length_quote_le s
    have hlimit := limit_le f hf
    refine ⟨rfl, rfl, fun n hn => (by cases hn), printable_quote s, ?_⟩
    show (quote s).length ≤ 770
    omega
  · refine ⟨rfl, rfl, fun n' hn' => ?_, (hL.number n (hL.finite n hn)).printable, ?_⟩
    · cases hn'
      exact hL.finite n hn
    · exact (hL.short n hn).trans (by decide)

/-- A valid row has the fields in some order, each with a value of its kind. -/
theorem valid_cases (hL : L.Sound) (h : valid L row) : ∃ ms, row = .obj ms ∧
    ms.length = fields.length ∧ (ms.map Prod.fst).Nodup ∧ ∀ m ∈ ms, m.1.length ≤ 23 ∧ Plain L m.2 := by
  cases row with
  | obj ms =>
    simp only [valid, Bool.and_eq_true, decide_eq_true_eq, List.all_eq_true, List.any_eq_true,
      Option.any_eq_true_iff_get] at h
    obtain ⟨⟨⟨hlen, hnames⟩, hfields⟩, -⟩ := h
    have hheld : ∀ f ∈ fields, ∃ v, (codeUnits f.1.toList, v) ∈ ms ∧ f.2.holds L v := by
      intro f hf
      obtain ⟨hsome, hholds⟩ := hfields f hf
      exact ⟨_, get_obj_eq_some (Option.some_get hsome).symm, hholds⟩
    have hsub : fields.map (fun f => codeUnits f.1.toList) ⊆ ms.map Prod.fst := by
      intro k hk
      obtain ⟨f, hf, rfl⟩ := List.mem_map.mp hk
      obtain ⟨v, hv, -⟩ := hheld f hf
      exact List.mem_map_of_mem hv
    have hperm := (List.subperm_of_subset names_nodup hsub).perm_of_length_le (by
      rw [List.length_map, List.length_map, hlen])
    have hnodup : (ms.map Prod.fst).Nodup := hperm.nodup_iff.mp names_nodup
    refine ⟨ms, rfl, hlen, hnodup, fun m hm => ?_⟩
    obtain ⟨f, hf, hname⟩ := hnames m hm
    obtain ⟨v, hv, hholds⟩ := hheld f hf
    obtain rfl : m = (codeUnits f.1.toList, v) := List.inj_on_of_nodup_map hnodup hm hv hname
    exact ⟨name_le f hf, plain_of_holds hL hf hholds⟩
  | _ => cases h

theorem printable_row (hL : L.Sound) (h : valid L row) : Printable (stringify L.print row) := by
  obtain ⟨ms, rfl, -, -, hms⟩ := valid_cases hL h
  exact printable_obj fun m hm => (hms m hm).2.printable

theorem numbers_row (hL : L.Sound) (h : valid L row) : row.Numbers L.finite := by
  obtain ⟨ms, rfl, -, -, hms⟩ := valid_cases hL h
  refine (Value.numbers_iff _ _).mpr ⟨fun n hn => (by cases hn), fun c hc => ?_⟩
  obtain ⟨m, hm, rfl⟩ := List.mem_map.mp hc
  refine (Value.numbers_iff _ _).mpr ⟨(hms m hm).2.finite, ?_⟩
  rw [(hms m hm).2.leaf]
  exact fun _ h => absurd h List.not_mem_nil

theorem distinct_row (hL : L.Sound) (h : valid L row) : row.Distinct := by
  obtain ⟨ms, rfl, -, hnodup, hms⟩ := valid_cases hL h
  refine (Value.distinct_iff _).mpr ⟨hnodup, fun c hc => ?_⟩
  obtain ⟨m, hm, rfl⟩ := List.mem_map.mp hc
  refine (Value.distinct_iff _).mpr ⟨?_, ?_⟩
  · rw [(hms m hm).2.nameless]
    exact List.nodup_nil
  · rw [(hms m hm).2.leaf]
    exact fun _ h => absurd h List.not_mem_nil

theorem nodes_row (hL : L.Sound) (h : valid L row) : row.nodes = 15 := by
  obtain ⟨ms, rfl, hlen, -, hms⟩ := valid_cases hL h
  have hone : ∀ n ∈ ms.map fun m => m.2.nodes, n = 1 := by
    intro n hn
    obtain ⟨m, hm, rfl⟩ := List.mem_map.mp hn
    exact nodes_leaf (hms m hm).2.leaf
  rw [nodes_obj, List.eq_replicate_of_mem hone, List.sum_replicate_nat, List.length_map, hlen]
  rfl

theorem depth_row (hL : L.Sound) (h : valid L row) : row.depth ≤ 32 := by
  obtain ⟨ms, rfl, -, -, hms⟩ := valid_cases hL h
  have hlt : Value.memberDepth ms < 2 := by
    refine (Value.memberDepth_lt_iff ms 1).mpr fun m hm => ?_
    rw [Value.depth_leaf (hms m hm).2.leaf]
    exact Nat.one_pos
  rw [Value.depth]
  omega

theorem length_row (hL : L.Sound) (h : valid L row) :
    utf8Length (stringify L.print row) ≤ Principal.Encoding.maxJsonBytes := by
  obtain ⟨ms, rfl, hlen, -, hms⟩ := valid_cases hL h
  have hunits := length_obj_le (fun m hm => (hms m hm).1) fun m hm => (hms m hm).2.short
  have hbytes := (utf8Length_bounds (stringify L.print (.obj ms))).2
  rw [hlen] at hunits
  have hfields : fields.length = 14 := rfl
  have hmax : Principal.Encoding.maxJsonBytes = 102400 := rfl
  omega

/-- **A row is read back as it was.** -/
theorem parse_row (hL : L.Sound) (h : valid L row) :
    Principal.Encoding.parseUnambiguousJSON L.toNumeric (stringify L.print row) = some row := by
  have hnumbers := numbers_row hL h
  have hwell : WellFormed (stringify L.print row) :=
    wellFormed_stringify (fun n hn => (hL.number n hn).wellFormed) row hnumbers
  have hvalue := isValue_stringify (fun n hn => ⟨hL.number n hn, hL.read_print n hn⟩) row hnumbers []
  rw [List.append_nil] at hvalue
  rw [parseUnambiguousJSON_eq, if_neg (Nat.not_lt.mpr (length_row hL h)), hwell.eq,
    parseText_eq_some]
  refine ⟨⟨_, [], Ws.refl _, hvalue, Ws.refl _⟩, ?_, depth_row hL h, distinct_row hL h, hnumbers⟩
  rw [nodes_row hL h]
  decide

/-! ## The file -/

variable {D : Type} [DecidableEq D] {digest : List (Option Units) → D}

theorem lineFeed_not_mem {t : Units} (h : Printable t) : lineFeed ∉ t := fun hm =>
  absurd (h _ hm) (by decide)

theorem splitOn_fileText (hL : L.Sound) (h : ∀ row ∈ rows, valid L row) :
    (fileText L rows).splitOn lineFeed = rows.map (stringify L.print) ++ [[]] := by
  induction rows with
  | nil => rfl
  | cons row rows ih =>
    rw [List.forall_mem_cons] at h
    have hline := lineFeed_not_mem (printable_row hL h.1)
    rw [fileText, List.flatMap_cons, lineOf, List.append_assoc, List.singleton_append,
      List.splitOn_append_cons_self_of_not_mem hline, ← fileText, ih h.2, List.map_cons,
      List.cons_append]

theorem stringify_row_ne_nil (hL : L.Sound) (h : valid L row) : stringify L.print row ≠ [] := by
  obtain ⟨ms, rfl, -⟩ := valid_cases hL h
  rw [stringify]
  exact List.cons_ne_nil _ _

theorem lines_fileText (hL : L.Sound) (h : ∀ row ∈ rows, valid L row) :
    ((fileText L rows).splitOn lineFeed).filter (· ≠ []) = rows.map (stringify L.print) := by
  rw [splitOn_fileText hL h, List.filter_append, List.filter_eq_self.mpr]
  · simp
  · intro t ht
    obtain ⟨row, hrow, rfl⟩ := List.mem_map.mp ht
    exact decide_eq_true (stringify_row_ne_nil hL (h row hrow))

theorem mapM_parse (hL : L.Sound) (h : ∀ row ∈ rows, valid L row) :
    (rows.map (stringify L.print)).mapM (Principal.Encoding.parseUnambiguousJSON L.toNumeric) =
      some rows := by
  induction rows with
  | nil => rfl
  | cons row rows ih =>
    rw [List.forall_mem_cons] at h
    rw [List.map_cons, List.mapM_cons, parse_row hL h.1, ih h.2]
    rfl

theorem wellFormed_fileText (hL : L.Sound) (h : ∀ row ∈ rows, valid L row) :
    WellFormed (fileText L rows) := by
  induction rows with
  | nil => exact ⟨[], rfl⟩
  | cons row rows ih =>
    rw [List.forall_mem_cons] at h
    have hrow : WellFormed (stringify L.print row) :=
      wellFormed_stringify (fun n hn => (hL.number n hn).wellFormed) row (numbers_row hL h.1)
    exact (hrow.append (wellFormed_unit (.inl (by decide)))).append (ih h.2)

theorem fileText_end (h : fileText L rows ≠ []) : (fileText L rows).getLast? = some lineFeed := by
  cases rows using List.reverseRec with
  | nil => exact absurd rfl h
  | append_singleton rows row =>
    rw [fileText, List.flatMap_append, List.flatMap_singleton, lineOf, ← List.append_assoc,
      List.getLast?_concat]

theorem length_of_mapM {α β : Type} {f : α → Option β} {xs : List α} {ys : List β}
    (h : xs.mapM f = some ys) : ys.length = xs.length := by
  induction xs generalizing ys with
  | nil =>
    cases h
    rfl
  | cons x xs ih =>
    rw [List.mapM_cons] at h
    obtain ⟨y, -, h⟩ := Option.bind_eq_some_iff.mp h
    obtain ⟨zs, hzs, h⟩ := Option.bind_eq_some_iff.mp h
    cases h
    rw [List.length_cons, List.length_cons, ih hzs]

/-- What a list of rows is when a file can have it. -/
structure Stored (L : Numbers N) (digest : List (Option Units) → D) (rows : List (Row N)) : Prop where
  valid : ∀ row ∈ rows, valid L row
  few : rows.length ≤ maxRecords
  keys : (rows.map fun row => digest (keyOf row)).Nodup

theorem stored_of_readRows {bytes : Bytes} (h : readRows L digest bytes = some rows) :
    Stored L digest rows := by
  simp only [readRows] at h
  split_ifs at h with hsize hutf hend hfew
  obtain ⟨rows', hparse, h⟩ := Option.bind_eq_some_iff.mp h
  split_ifs at h with hvalid hkeys
  cases h
  refine ⟨fun row hrow => ?_, ?_, hkeys⟩
  · by_contra hrow'
    exact hvalid (List.any_eq_true.mpr ⟨row, hrow, by simpa using hrow'⟩)
  · rw [length_of_mapM hparse]
    exact Nat.not_lt.mp hfew

/-- **What is written is what is read.** -/
theorem readRows_fileText (hL : L.Sound) (h : Stored L digest rows)
    (hsize : (encodeText (scalars (fileText L rows))).length ≤ maxBytes) :
    readRows L digest (encodeText (scalars (fileText L rows))) = some rows := by
  have hsource : codeUnits (scalars (fileText L rows)) = fileText L rows :=
    (wellFormed_fileText hL h.valid).eq
  rw [readRows, if_neg (Nat.not_lt.mpr hsize)]
  simp only [decodeText_encodeText, ne_eq, not_true_eq_false, if_false, hsource]
  rw [if_neg fun hbad => hbad.2 (fileText_end hbad.1)]
  have hlines := lines_fileText hL h.valid
  simp only [ne_eq] at hlines
  rw [hlines, List.length_map, if_neg (Nat.not_lt.mpr h.few), mapM_parse hL h.valid, Option.bind_some,
    if_neg, if_pos h.keys]
  rw [List.any_eq_true]
  rintro ⟨row, hrow, hbad⟩
  rw [h.valid row hrow] at hbad
  cases hbad

/-! ## One commit -/

variable {env : Env} {directory tmp : Path} {bytes : Bytes} {m m' : Machine Unit Unit}

/-- The file is the new one, and the temporary file may still be there. -/
structure Replaced (directory tmp : Path) (bytes : Bytes) (m m' : Machine Unit Unit) : Prop extends
    Replacing tmp (joinPath directory fileName) bytes m m' where
  done : m'.disk.get? (joinPath directory fileName) = some (.file bytes)

theorem Replaced.beside {m'' : Machine Unit Unit} (h : Replaced directory tmp bytes m m')
    (h' : Beside tmp m' m'') (hne : tmp ≠ joinPath directory fileName) :
    Replaced directory tmp bytes m m'' :=
  ⟨h.toReplacing.beside h' hne, (h'.others _ hne.symm).trans h.done⟩

/-- The file has its old bytes or the new ones, and the new ones in the end. -/
abbrev replaces (directory tmp : Path) (bytes : Bytes) (m : Machine Unit Unit) : Ensures Unit Unit Bool :=
  ⟨fun _ m' => Replaced directory tmp bytes m m',
    fun _ m' => Replacing tmp (joinPath directory fileName) bytes m m',
    fun m' => Replacing tmp (joinPath directory fileName) bytes m m'⟩

theorem wp_replace (hs : env.NoShort) (hne : tmp ≠ joinPath directory fileName) :
    wp (do
      writeTemp env tmp bytes
      let _ ← sys env (.rename tmp (joinPath directory fileName))
      let _ ← sys env (.fsync directory)
      let _ ← sys env (.fsync directory.dropLast)
      return true)
      (replaces directory tmp bytes m) m := by
  rw [wp_bind]
  refine wp_mono (wp_writeTemp hs m) (fun _ m₁ h₁ => ?_) (fun _ _ h => h.replacing hne)
    fun _ h => h.replacing hne
  obtain ⟨hbeside, htmp⟩ := h₁
  show wp _ _ _
  rw [wp_bind]
  refine wp_mono (wp_rename_over hs hne htmp) (fun _ m₂ h₂ => ?_)
    (fun _ _ h => (hbeside.trans h).replacing hne) fun _ h => (hbeside.trans h).replacing hne
  obtain ⟨hrenamed, htarget⟩ := h₂
  have hreplaced : Replaced directory tmp bytes m m₂ :=
    ⟨⟨hrenamed.mem.trans hbeside.mem, hrenamed.sent.trans hbeside.sent,
      fun q hq hq' => (hrenamed.others q hq hq').trans (hbeside.others q hq), .inr htarget⟩, htarget⟩
  show wp _ _ _
  rw [wp_bind]
  refine wp_sys_quiet hs (harmless_fsync _) (fun m₃ h₃ => ?_)
    (fun _ _ h _ => hreplaced.toReplacing.beside (.of_quiet h) hne)
    fun _ h => hreplaced.toReplacing.beside (.of_quiet h) hne
  have hsynced := hreplaced.beside (.of_quiet h₃) hne
  show wp _ _ _
  rw [wp_bind]
  exact wp_sys_quiet hs (harmless_fsync _) (fun _ h => hsynced.beside (.of_quiet h) hne)
    (fun _ _ h _ => hsynced.toReplacing.beside (.of_quiet h) hne)
    fun _ h => hsynced.toReplacing.beside (.of_quiet h) hne

/-- **The file has its old rows or the new ones**, and the new ones if the caller is told so. -/
theorem wp_publish (hs : env.NoShort) (hne : tmp ≠ joinPath directory fileName) :
    wp (publish env directory tmp bytes) (replaces directory tmp bytes m) m := by
  have hfailed : ∀ {m' : Machine Unit Unit}, Replacing tmp (joinPath directory fileName) bytes m m' →
      wp (discard env tmp fun e => e.code = Errno.ENOENT.text)
        ⟨fun _ m' => Replacing tmp (joinPath directory fileName) bytes m m',
          fun _ m' => Replacing tmp (joinPath directory fileName) bytes m m',
          fun m' => Replacing tmp (joinPath directory fileName) bytes m m'⟩ m' := fun h =>
    wp_mono (wp_discard hs _ _) (fun _ _ hb => h.beside hb hne) (fun _ _ hb => h.beside hb hne)
      fun _ hb => h.beside hb hne
  unfold publish
  rw [wp_finallyDo, wp_catching]
  refine wp_mono (wp_replace hs hne) (fun _ _ h => ?_) (fun _ _ h => hfailed h) fun _ h => h
  exact wp_mono (wp_discard hs _ _) (fun _ _ hb => h.beside hb hne)
    (fun _ _ hb => h.toReplacing.beside hb hne) fun _ hb => h.toReplacing.beside hb hne

theorem tmp_ne (name : Text) :
    joinPath directory (fileName ++ '.' :: name ++ ['.', 't', 'm', 'p']) ≠
      joinPath directory fileName := by
  intro h
  have hlen := congrArg List.length (List.cons.inj (List.append_cancel_left h)).1
  simp at hlen

theorem get_of_mem {ms : List (Units × Value N)} {name : String} {v : Value N}
    (hn : (ms.map Prod.fst).Nodup) (h : (codeUnits name.toList, v) ∈ ms) :
    get (.obj ms) name = some v := by
  cases hfind : ms.find? fun m => m.1 = codeUnits name.toList with
  | none => exact absurd (decide_eq_true rfl) (List.find?_eq_none.mp hfind _ h)
  | some m =>
    have hname := List.find?_some hfind
    obtain rfl := List.inj_on_of_nodup_map hn (List.mem_of_find?_eq_some hfind) h
      (of_decide_eq_true hname)
    rw [get, hfind]
    rfl

theorem textOf_row (b : Binding) (t : N) {name : String} {s : Units} (h : (name, s) ∈ b.members) :
    textOf (b.row t) name = some s := by
  have hget : get (b.row t) name = some (.str s) := by
    refine get_of_mem ?_ (List.mem_append_left _ (List.mem_map.mpr ⟨_, h, rfl⟩))
    have hnames : ((b.members.map fun m : String × Units =>
        (codeUnits m.1.toList, (Value.str m.2 : Value N))) ++
          [(codeUnits "ack_at".toList, Value.num t)]).map Prod.fst =
          fields.map fun f => codeUnits f.1.toList := by
      simp only [Binding.members, fields, List.map_cons, List.map_nil, List.cons_append,
        List.nil_append]
    rw [hnames]
    exact names_nodup
  rw [textOf, hget]

theorem keyOf_row (b : Binding) (t : N) : keyOf (b.row t) = b.key := by
  rw [keyOf, textOf_row b t (s := b.sessionId), textOf_row b t (s := b.sessionEpoch),
    textOf_row b t (s := b.intentId), textOf_row b t (s := b.msgId), Binding.key] <;>
    simp [Binding.members]

theorem same_row (b : Binding) (t : N) : same (b.row t) b :=
  List.all_eq_true.mpr fun _ hm => decide_eq_true (textOf_row b t hm)

/-- What the file can be read as. -/
abbrev Reads (L : Numbers N) (digest : List (Option Units) → D) (directory : Path)
    (m : Machine Unit Unit) (rows : List (Row N)) : Prop :=
  readSettlements L digest directory m.disk = some rows

/-- Rows that a commit may leave: those that were there, and perhaps the row of its proof. -/
def AddsOne (call : Call) (rows rows' : List (Row N)) : Prop :=
  rows' = rows ∨ ∃ p ∈ call.captured, ∃ t, rows' = rows ++ [p.binding.row t]

theorem readSettlements_congr {fs fs' : FS}
    (h : fs'.get? (joinPath directory fileName) = fs.get? (joinPath directory fileName)) :
    readSettlements L digest directory fs' = readSettlements L digest directory fs := by
  rw [readSettlements, readSettlements, h]

theorem stored_of_reads (h : Reads L digest directory m rows) : Stored L digest rows := by
  unfold Reads readSettlements at h
  split at h
  · cases h
    exact ⟨fun _ h => absurd h List.not_mem_nil, Nat.zero_le _, List.nodup_nil⟩
  · cases h
  · exact stored_of_readRows h

variable {K : Set (List (Option Units))} {call : Call}

/-- The rows that a commit adds to are kept, and the keys stay among those that do not collide. -/
theorem reads_added (hL : L.Sound) (hdigest : Set.InjOn digest K) (hkeys : ∀ row ∈ rows, keyOf row ∈ K)
    {next : Row N} (hnext : keyOf next ∈ K) (hstored : Stored L digest rows)
    (hnew : ∀ row ∈ rows, keyOf row ≠ keyOf next) (hfew : rows.length < maxRecords)
    (hvalid : valid L next)
    (hsize : (encodeText (scalars (fileText L (rows ++ [next])))).length ≤ maxBytes)
    (hfile : m.disk.get? (joinPath directory fileName) =
      some (.file (encodeText (scalars (fileText L (rows ++ [next])))))) :
    Reads L digest directory m (rows ++ [next]) := by
  have hrows : Stored L digest (rows ++ [next]) := by
    refine ⟨fun row hrow => ?_, ?_, ?_⟩
    · rcases List.mem_append.mp hrow with hrow | hrow
      · exact hstored.valid row hrow
      · exact List.mem_singleton.mp hrow ▸ hvalid
    · rw [List.length_append]
      exact hfew
    · rw [List.map_append, List.nodup_append]
      refine ⟨hstored.keys, List.nodup_singleton _, fun d hd d' hd' heq => ?_⟩
      obtain ⟨row, hrow, rfl⟩ := List.mem_map.mp hd
      obtain rfl := List.mem_singleton.mp hd'
      exact hnew row hrow (hdigest (hkeys row hrow) hnext heq)
  unfold Reads readSettlements
  rw [hfile]
  exact readRows_fileText hL hrows hsize

/-- **What one commit does**: whatever becomes of it, the rows are those that were there and perhaps
the row of its proof, and if it was confirmed then there is one. -/
theorem wp_commitSettlement (hs : env.NoShort) (hL : L.Sound) (hdigest : Set.InjOn digest K)
    (hkeys : ∀ row ∈ rows, keyOf row ∈ K) (hcall : ∀ p ∈ call.captured, p.binding.key ∈ K)
    (hreads : Reads L digest directory m rows) :
    wp (commitSettlement L digest env directory call)
      ⟨fun ok m' => ∃ rows', Reads L digest directory m' rows' ∧ AddsOne call rows rows' ∧
          (ok = true → ∃ p ∈ call.captured, ∃ row ∈ rows', same row p.binding),
        fun _ m' => ∃ rows', Reads L digest directory m' rows' ∧ AddsOne call rows rows',
        fun m' => ∃ rows', Reads L digest directory m' rows' ∧ AddsOne call rows rows'⟩ m := by
  unfold commitSettlement
  cases hcaptured : call.captured with
  | none => exact ⟨rows, hreads, .inl rfl, fun h => by cases h⟩
  | some p =>
    dsimp only
    split_ifs with hids
    · exact ⟨rows, hreads, .inl rfl⟩
    show wp _ _ _
    rw [wp_bind, wp_disk]
    show wp _ _ _
    rw [hreads]
    dsimp only
    cases hfind : rows.find? fun row => keyOf row = p.binding.key with
    | some prior =>
      dsimp only
      split_ifs with hsame
      · exact ⟨rows, hreads, .inl rfl, fun _ =>
          ⟨p, rfl, prior, List.mem_of_find?_eq_some hfind, hsame⟩⟩
      · exact ⟨rows, hreads, .inl rfl⟩
    | none =>
      dsimp only
      split_ifs with hfull
      · exact ⟨rows, hreads, .inl rfl⟩
      rw [wp_bind, wp_now]
      dsimp only
      split_ifs with hvalid hsize
      · exact ⟨rows, hreads, .inl rfl⟩
      · exact ⟨rows, hreads, .inl rfl⟩
      rw [wp_bind, wp_random]
      have hnew : ∀ row ∈ rows, keyOf row ≠ keyOf (p.binding.row (L.time (env.now m.tick))) := by
        intro row hrow heq
        rw [keyOf_row] at heq
        exact List.find?_eq_none.mp hfind row hrow (decide_eq_true heq)
      have hadded : ∀ {m' : Machine Unit Unit}, m'.disk.get? (joinPath directory fileName) = some
          (.file (encodeText (scalars
            (fileText L (rows ++ [p.binding.row (L.time (env.now m.tick))]))))) →
          Reads L digest directory m' (rows ++ [p.binding.row (L.time (env.now m.tick))]) :=
        reads_added hL hdigest hkeys (by rw [keyOf_row]; exact hcall p hcaptured)
          (stored_of_reads hreads) hnew (Nat.not_le.mp hfull) (Bool.not_eq_false _ ▸ hvalid)
          (Nat.not_lt.mp hsize)
      have hleft : ∀ {tmp : Path} {m' : Machine Unit Unit},
          Replacing tmp (joinPath directory fileName) _ m m' →
            ∃ rows', Reads L digest directory m' rows' ∧ AddsOne call rows rows' := fun h =>
        h.target.elim (fun hold => ⟨rows, (readSettlements_congr hold).trans hreads, .inl rfl⟩)
          fun hnext => ⟨_, hadded hnext, .inr ⟨p, hcaptured, _, rfl⟩⟩
      refine wp_mono (wp_publish hs (tmp_ne _)) (fun _ m' h => ?_) (fun _ _ h => hleft h)
        fun _ h => hleft h
      exact ⟨_, hadded h.done, .inr ⟨p, hcaptured, _, rfl⟩, fun _ =>
        ⟨p, rfl, _, List.mem_append_right _ List.mem_cons_self, same_row _ _⟩⟩

/-! ## Runs of commits -/

/-- Rows of a file, and where they come from. -/
structure Follows (calls : List Call) (rows rows' : List (Row N)) : Prop where
  grown : rows <+: rows'
  proved : ∀ row ∈ rows', row ∈ rows ∨
    ∃ call ∈ calls, ∃ p ∈ call.captured, ∃ t, row = p.binding.row t

theorem follows_commit {rows' : List (Row N)} (h : AddsOne call rows rows') :
    Follows [call] rows rows' := by
  rcases h with rfl | ⟨p, hp, t, rfl⟩
  · exact ⟨List.prefix_refl _, fun _ h => .inl h⟩
  · refine ⟨List.prefix_append _ _, fun row hrow => ?_⟩
    rcases List.mem_append.mp hrow with hrow | hrow
    · exact .inl hrow
    · exact .inr ⟨call, List.mem_singleton_self _, p, hp, t, List.mem_singleton.mp hrow⟩

theorem Follows.trans {calls calls' : List Call} {rows' rows'' : List (Row N)}
    (h : Follows calls rows rows') (h' : Follows calls' rows' rows'') :
    Follows (calls ++ calls') rows rows'' := by
  refine ⟨h.grown.trans h'.grown, fun row hrow => ?_⟩
  rcases h'.proved row hrow with hrow | ⟨call, hcall, hproof⟩
  · rcases h.proved row hrow with hrow | ⟨call, hcall, hproof⟩
    · exact .inl hrow
    · exact .inr ⟨call, List.mem_append_left _ hcall, hproof⟩
  · exact .inr ⟨call, List.mem_append_right _ hcall, hproof⟩

theorem Follows.keys {calls : List Call} {rows' : List (Row N)} (h : Follows calls rows rows')
    (hrows : ∀ row ∈ rows, keyOf row ∈ K)
    (hcalls : ∀ call ∈ calls, ∀ p ∈ call.captured, p.binding.key ∈ K) :
    ∀ row ∈ rows', keyOf row ∈ K := by
  intro row hrow
  rcases h.proved row hrow with hrow | ⟨call, hcall, p, hp, t, rfl⟩
  · exact hrows row hrow
  · rw [keyOf_row]
    exact hcalls call hcall p hp

theorem commitOn_spec (hs : env.NoShort) (hL : L.Sound) (hdigest : Set.InjOn digest K)
    (hkeys : ∀ row ∈ rows, keyOf row ∈ K) (hcall : ∀ p ∈ call.captured, p.binding.key ∈ K)
    (hreads : Reads L digest directory m rows) :
    ∃ rows', Reads L digest directory (commitOn L digest env directory call m).2 rows' ∧
      Follows [call] rows rows' ∧ ((commitOn L digest env directory call m).1 = .confirmed →
        ∃ p ∈ call.captured, ∃ row ∈ rows', same row p.binding) := by
  have h := wp_commitSettlement hs hL hdigest hkeys hcall hreads
  unfold wp at h
  unfold commitOn
  cases hend : commitSettlement L digest env directory call m with
  | done ok m' =>
    rw [hend] at h
    obtain ⟨rows', hreads', hadds, hok⟩ := h
    cases ok with
    | true => exact ⟨rows', hreads', follows_commit hadds, fun _ => hok rfl⟩
    | false => exact ⟨rows', hreads', follows_commit hadds, fun h => by cases h⟩
  | raised e m' =>
    rw [hend] at h
    obtain ⟨rows', hreads', hadds⟩ := h
    exact ⟨rows', hreads', follows_commit hadds, fun h => by cases h⟩
  | crashed m' =>
    rw [hend] at h
    obtain ⟨rows', hreads', hadds⟩ := h
    exact ⟨rows', hreads', follows_commit hadds, fun h => by cases h⟩

/-- **What was confirmed stays in the file**, after any commits that follow and wherever the process
died in them: the file can be read, its rows are those from before and rows of proofs, in the order
they came, and every commit that was confirmed has its row. -/
theorem settled_lasts (hs : env.NoShort) (hL : L.Sound) (hdigest : Set.InjOn digest K)
    (hkeys : ∀ row ∈ rows, keyOf row ∈ K) {calls : List Call}
    (hcalls : ∀ call ∈ calls, ∀ p ∈ call.captured, p.binding.key ∈ K)
    (hreads : Reads L digest directory m rows) :
    ∃ rows', Reads L digest directory (commitAll L digest env directory calls m).2 rows' ∧
      Follows calls rows rows' ∧
      ∀ x ∈ (commitAll L digest env directory calls m).1, x.2 = .confirmed →
        ∃ p ∈ x.1.captured, ∃ row ∈ rows', same row p.binding := by
  induction calls generalizing rows m with
  | nil => exact ⟨rows, hreads, ⟨List.prefix_refl _, fun _ h => .inl h⟩, fun _ h =>
      absurd h List.not_mem_nil⟩
  | cons call calls ih =>
    rw [List.forall_mem_cons] at hcalls
    obtain ⟨rows₁, hreads₁, hfollows₁, hok₁⟩ :=
      commitOn_spec hs hL hdigest hkeys hcalls.1 hreads
    have hkeys₁ := hfollows₁.keys hkeys (List.forall_mem_singleton.mpr hcalls.1)
    obtain ⟨rows', hreads', hfollows', hok'⟩ := ih hkeys₁ hcalls.2 hreads₁
    refine ⟨rows', hreads', hfollows₁.trans hfollows', List.forall_mem_cons.mpr ⟨fun h => ?_, hok'⟩⟩
    obtain ⟨p, hp, row, hrow, hsame⟩ := hok₁ h
    exact ⟨p, hp, row, hfollows'.grown.subset hrow, hsame⟩

/-- Every call is answered or dies. -/
theorem map_fst_commitAll (calls : List Call) (m : Machine Unit Unit) :
    (commitAll L digest env directory calls m).1.map Prod.fst = calls := by
  induction calls generalizing m with
  | nil => rfl
  | cons call calls ih => rw [commitAll, List.map_cons, ih]

theorem textOf_of_same {b : Binding} (h : same row b) {name : String} {s : Units}
    (hm : (name, s) ∈ b.members) : textOf row name = some s := by
  rw [same, List.all_eq_true] at h
  have hname := h (name, s) hm
  simpa only [decide_eq_true_eq] using hname

theorem keyOf_of_same {b : Binding} (h : same row b) : keyOf row = b.key := by
  rw [keyOf, textOf_of_same h (s := b.sessionId), textOf_of_same h (s := b.sessionEpoch),
    textOf_of_same h (s := b.intentId), textOf_of_same h (s := b.msgId), Binding.key] <;>
    simp [Binding.members]

/-- A row is that of one binding only. -/
theorem binding_of_same {b b' : Binding} (h : same row b) (h' : same row b') : b' = b := by
  have hmember (name : String) {s s' : Units} (hs : (name, s) ∈ b.members := by simp [Binding.members])
      (hs' : (name, s') ∈ b'.members := by simp [Binding.members]) : s' = s :=
    Option.some.inj ((textOf_of_same h' hs').symm.trans (textOf_of_same h hs))
  apply Binding.ext
  · exact hmember "session_id"
  · exact hmember "session_epoch"
  · exact hmember "origin_epoch"
  · exact hmember "origin_owner_generation"
  · exact hmember "intent_id"
  · exact hmember "pending_digest"
  · exact hmember "msg_id"
  · exact hmember "message_digest"

/-- **A message is settled once**: after a confirmed commit another proof about the message changes
nothing, and is confirmed if it binds the same and refused if it does not. -/
theorem settled_once (hs : env.NoShort) (hL : L.Sound) (hdigest : Set.InjOn digest K)
    (hkeys : ∀ row ∈ rows, keyOf row ∈ K) {calls : List Call}
    (hcalls : ∀ call ∈ calls, ∀ p ∈ call.captured, p.binding.key ∈ K)
    (hreads : Reads L digest directory m rows) {x : Call × Answer}
    (hx : x ∈ (commitAll L digest env directory calls m).1) (hconfirmed : x.2 = .confirmed)
    {p p' : Captured} (hp : p ∈ x.1.captured) (hp' : p' ∈ call.captured)
    (hkey : p'.binding.key = p.binding.key) (hsession : call.sessionId = p'.binding.sessionId)
    (hmsg : call.msgId = p'.binding.msgId) (hbody : call.digest = p'.digest) :
    commitOn L digest env directory call (commitAll L digest env directory calls m).2 =
      (if p'.binding = p.binding then .confirmed else .refused,
        (commitAll L digest env directory calls m).2) := by
  obtain ⟨rows', hreads', -, hok⟩ := settled_lasts hs hL hdigest hkeys hcalls hreads
  obtain ⟨p'', hp'', row, hrow, hsame⟩ := hok x hx hconfirmed
  obtain rfl : p'' = p := Option.some.inj (hp''.symm.trans hp)
  -- the row that is found is the one of the confirmed commit
  have hfind : rows'.find? (fun row => keyOf row = p'.binding.key) = some row := by
    cases hfind : rows'.find? fun row => keyOf row = p'.binding.key with
    | none =>
      refine absurd (decide_eq_true ?_) (List.find?_eq_none.mp hfind row hrow)
      rw [hkey, keyOf_of_same hsame]
    | some prior =>
      have hprior := List.find?_some hfind
      have hkeys : keyOf prior = keyOf row := by
        rw [of_decide_eq_true hprior, hkey, keyOf_of_same hsame]
      rw [List.inj_on_of_nodup_map (stored_of_reads hreads').keys (List.mem_of_find?_eq_some hfind)
        hrow (congrArg digest hkeys)]
  have hsame' : same row p'.binding = decide (p'.binding = p''.binding) := by
    rw [Bool.eq_iff_iff, decide_eq_true_iff]
    exact ⟨binding_of_same hsame, fun h => h ▸ hsame⟩
  generalize (commitAll L digest env directory calls m).2 = m' at hreads' ⊢
  have hrun : commitSettlement L digest env directory call m' =
      if p'.binding = p''.binding then .done true m' else .raised unavailable m' := by
    unfold commitSettlement
    rw [Option.mem_def.mp hp']
    dsimp only
    rw [if_neg (by rw [hsession, hmsg, hbody]; simp)]
    rw [bind_of_done (show disk m' = .done m'.disk m' from rfl), hreads']
    dsimp only
    rw [hfind]
    dsimp only
    rw [hsame']
    by_cases heq : p'.binding = p''.binding
    · rw [if_pos (decide_eq_true heq), if_pos heq]
      rfl
    · rw [if_neg (by simpa using heq), if_neg heq]
      rfl
  unfold commitOn
  rw [hrun]
  split_ifs <;> rfl

/-! ## A run -/

/-- The numbers of one digit. -/
def sampleNumbers : Numbers (Fin 10) where
  toNumeric := digits
  print := printDigit
  safe _ := true
  time n := digits.read [UInt16.ofNat (0x30 + n % 10)]

theorem sampleNumbers_sound : sampleNumbers.Sound where
  toPrints := prints_digits
  finite _ _ := rfl
  short _ _ := Nat.le_add_left 1 15

def sampleBinding (pendingDigest : Char) : Binding where
  sessionId := codeUnits "s"
  sessionEpoch := List.replicate 22 (unit 'B')
  originEpoch := List.replicate 22 (unit 'A')
  originOwnerGeneration := codeUnits "00000000-0000-4000-8000-000000000001"
  intentId := codeUnits "00000000-0000-4000-8000-000000000002"
  pendingDigest := List.replicate 64 (unit pendingDigest)
  msgId := codeUnits "m"
  messageDigest := List.replicate 64 (unit 'd')

def sampleCall (pendingDigest : Char) : Call where
  captured := some ⟨sampleBinding pendingDigest, List.replicate 64 (unit 'd')⟩
  sessionId := codeUnits "s"
  msgId := codeUnits "m"
  digest := List.replicate 64 (unit 'd')

/-- The process dies in the first commit, after the temporary file has a part of its bytes. -/
def sampleEnv : Env := ⟨fun n => if n = 1 then .crash 7 else .perform, fun n => n,
  fun n => [Char.ofNat (0x30 + n % 10)]⟩

theorem sampleEnv_noShort : sampleEnv.NoShort := fun n count h => by
  unfold sampleEnv at h
  dsimp only at h
  split_ifs at h

def sampleMachine : Machine Unit Unit := ⟨(), ⟨[(["d".toList], .dir)], by decide⟩, 0, []⟩

/-- One proof is committed twice, as the first commit was not confirmed. -/
def sampleCalls : List Call := [sampleCall 'a', sampleCall 'a']

theorem sample_reads : Reads sampleNumbers id ["d".toList] sampleMachine [] := rfl

theorem settled_lasts_sampleCalls :
    ∃ rows', Reads sampleNumbers id ["d".toList]
        (commitAll sampleNumbers id sampleEnv ["d".toList] sampleCalls sampleMachine).2 rows' ∧
      Follows sampleCalls [] rows' ∧
      ∀ x ∈ (commitAll sampleNumbers id sampleEnv ["d".toList] sampleCalls sampleMachine).1,
        x.2 = .confirmed → ∃ p ∈ x.1.captured, ∃ row ∈ rows', same row p.binding :=
  settled_lasts sampleEnv_noShort sampleNumbers_sound Function.injective_id.injOn
    (K := Set.univ) (fun _ h => absurd h List.not_mem_nil) (fun _ _ _ _ => trivial) sample_reads

theorem confirmed_sampleCalls : ∃ x, x ∈ (commitAll sampleNumbers id sampleEnv ["d".toList] sampleCalls
    sampleMachine).1 ∧ x.1 = sampleCall 'a' ∧ x.2 = .confirmed := by
  have hany : ((commitAll sampleNumbers id sampleEnv ["d".toList] sampleCalls sampleMachine).1.any
      fun x => x.2 = .confirmed) = true := by
    decide +kernel
  obtain ⟨x, hx, hconfirmed⟩ := List.any_eq_true.mp hany
  have hcall := List.mem_map_of_mem (f := Prod.fst) hx
  rw [map_fst_commitAll] at hcall
  refine ⟨x, hx, ?_, of_decide_eq_true hconfirmed⟩
  simpa [sampleCalls] using hcall

theorem settled_once_sampleCalls :
    commitOn sampleNumbers id sampleEnv ["d".toList] (sampleCall 'b')
        (commitAll sampleNumbers id sampleEnv ["d".toList] sampleCalls sampleMachine).2 =
      (.refused, (commitAll sampleNumbers id sampleEnv ["d".toList] sampleCalls sampleMachine).2) := by
  obtain ⟨x, hx, hcall, hconfirmed⟩ := confirmed_sampleCalls
  have hp : (⟨sampleBinding 'a', List.replicate 64 (unit 'd')⟩ : Captured) ∈ x.1.captured := by
    rw [hcall]
    rfl
  have hp' : (⟨sampleBinding 'b', List.replicate 64 (unit 'd')⟩ : Captured) ∈
      (sampleCall 'b').captured := rfl
  have h := settled_once sampleEnv_noShort sampleNumbers_sound Function.injective_id.injOn
    (K := Set.univ) (fun _ h => absurd h List.not_mem_nil) (fun _ _ _ _ => trivial) sample_reads
    hx hconfirmed hp hp' rfl rfl rfl rfl
  rwa [if_neg (by decide +kernel)] at h

end Telepty.Mailbox.Settlement
