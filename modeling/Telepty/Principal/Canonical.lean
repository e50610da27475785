import Telepty.Infra.JsonOrder
import Telepty.Principal.Encoding
import Telepty.Principal.Proof

/-!
# Canonical JSON

`canonicalJSON` of a JSON value: its members are sorted by their names, as `sort` compares texts,
and it is refused beyond 4096 values, 32 levels or 100 KiB. The strict parser reads the text back,
so a signature covers a document up to the order of its members and nothing else.

Numbers have 0 and -0 as one; how `JSON.stringify` writes them is a parameter.
-/

namespace Telepty.Principal.Encoding

open Infra Rfc8259

variable {N : Type} (F : Numeric N) (print : N → Units)

/-! ## The encoder -/

/-- The texts of a list and the number of values so far, each visited in its turn. -/
def visitAll {E : Type} (visit : Nat → E → Option (Units × Nat)) :
    Nat → List E → Option (List Units × Nat)
  | nodes, [] => some ([], nodes)
  | nodes, e :: es => do
    let (t, nodes) ← visit nodes e
    let (ts, nodes) ← visitAll visit nodes es
    some (t :: ts, nodes)

/-- `visit(current, depth)`, with `33 - depth` levels left -/
def visit : Nat → Nat → Value N → Option (Units × Nat)
  | 0, _, _ => none
  | left + 1, nodes, current =>
    let nodes := nodes + 1
    if 4096 < nodes then none
    else
      match current with
      | .null => some (codeUnits "null", nodes)
      | .bool b => some (codeUnits (if b then "true" else "false"), nodes)
      | .str s => some (quote s, nodes)
      | .num n => if F.finite n then some (print n, nodes) else none
      | .arr vs => do
        let (ts, nodes) ← visitAll (visit left) nodes vs
        some (unit '[' :: (join ts ++ [unit ']']), nodes)
      | .obj ms => do
        let (ts, nodes) ← visitAll
          (fun nodes m => (visit left nodes m.2).map fun x => (quote m.1 ++ unit ':' :: x.1, x.2))
          nodes (Value.sortMembers unitsBefore ms)
        some (unit '{' :: (join ts ++ [unit '}']), nodes)

def canonicalJSON (v : Value N) : Option Units :=
  match visit F print 33 0 v with
  | none => none
  | some (result, _) => if maxJsonBytes < utf8Length result then none else some result

/-! ## The order of names -/

theorem unitsBefore_cons (x y : CodeUnit) (a b : Units) :
    unitsBefore (x :: a) (y :: b) ↔ x.toNat < y.toNat ∨ x = y ∧ unitsBefore a b := by
  simp only [unitsBefore, Bool.or_eq_true, Bool.and_eq_true, decide_eq_true_eq,
    UInt16.lt_iff_toNat_lt]

theorem unitsBefore_total (a b : Units) : unitsBefore a b ∨ unitsBefore b a := by
  induction a generalizing b with
  | nil => exact .inl rfl
  | cons x a ih =>
    cases b with
    | nil => exact .inr rfl
    | cons y b =>
      rw [unitsBefore_cons, unitsBefore_cons]
      rcases Nat.lt_trichotomy x.toNat y.toNat with h | h | h
      · exact .inl (.inl h)
      · have hxy := UInt16.toNat_inj.mp h
        rcases ih b with hb | hb
        · exact .inl (.inr ⟨hxy, hb⟩)
        · exact .inr (.inr ⟨hxy.symm, hb⟩)
      · exact .inr (.inl h)

theorem unitsBefore_trans (a b c : Units) (hab : unitsBefore a b) (hbc : unitsBefore b c) :
    unitsBefore a c := by
  induction a generalizing b c with
  | nil => rfl
  | cons x a ih =>
    cases b with
    | nil => cases hab
    | cons y b =>
      cases c with
      | nil => cases hbc
      | cons z c =>
        rw [unitsBefore_cons] at hab hbc ⊢
        rcases hab with hab | ⟨rfl, hab⟩
        · rcases hbc with hbc | ⟨rfl, -⟩
          · exact .inl (Nat.lt_trans hab hbc)
          · exact .inl hab
        · rcases hbc with hbc | ⟨rfl, hbc⟩
          · exact .inl hbc
          · exact .inr ⟨rfl, ih b c hab hbc⟩

theorem unitsBefore_antisymm (a b : Units) (hab : unitsBefore a b) (hba : unitsBefore b a) :
    a = b := by
  induction a generalizing b with
  | nil =>
    cases b with
    | nil => rfl
    | cons y b => cases hba
  | cons x a ih =>
    cases b with
    | nil => cases hab
    | cons y b =>
      rw [unitsBefore_cons] at hab hba
      rcases hab with hab | ⟨rfl, hab⟩
      · rcases hba with hba | ⟨rfl, -⟩ <;> omega
      · rcases hba with hba | ⟨-, hba⟩
        · omega
        · rw [ih b hab hba]

theorem orders_unitsBefore : Value.Orders unitsBefore :=
  ⟨unitsBefore_total, unitsBefore_trans, unitsBefore_antisymm⟩

/-! ## What is visited -/

/-- The text of a value with its members sorted. -/
def canonicalText (v : Value N) : Units := stringify print (v.sorted unitsBefore)

variable {F print} {n nodes : Nat}

theorem visitAll_eq_some {E : Type} {f : Nat → E → Option (Units × Nat)} {size : E → Nat}
    {text : E → Units} {ok : E → Prop} (es : List E)
    (hf : ∀ e ∈ es, ∀ nodes t n, f nodes e = some (t, n) ↔
      t = text e ∧ n = nodes + size e ∧ n ≤ 4096 ∧ ok e) {ts : List Units}
    (hnodes : nodes ≤ 4096) :
    visitAll f nodes es = some (ts, n) ↔
      ts = es.map text ∧ n = nodes + (es.map size).sum ∧ n ≤ 4096 ∧ ∀ e ∈ es, ok e := by
  induction es generalizing nodes n ts with
  | nil =>
    simp only [visitAll, Option.some.injEq, Prod.mk.injEq, List.map_nil, List.sum_nil,
      Nat.add_zero, List.not_mem_nil, false_implies, implies_true, and_true]
    constructor
    · rintro ⟨rfl, rfl⟩
      exact ⟨rfl, rfl, hnodes⟩
    · rintro ⟨rfl, rfl, -⟩
      exact ⟨rfl, rfl⟩
  | cons e es ih =>
    rw [List.forall_mem_cons] at hf
    rw [visitAll]
    constructor
    · intro h
      obtain ⟨⟨t, n₁⟩, ht, h⟩ := Option.bind_eq_some_iff.mp h
      obtain ⟨rfl, rfl, hle, hok⟩ := (hf.1 _ _ _).mp ht
      obtain ⟨⟨ts', n₂⟩, hts, h⟩ := Option.bind_eq_some_iff.mp h
      obtain ⟨rfl, rfl, hle', hall⟩ := (ih hf.2 hle).mp hts
      cases h
      refine ⟨rfl, ?_, hle', List.forall_mem_cons.mpr ⟨hok, hall⟩⟩
      rw [List.map_cons, List.sum_cons, Nat.add_assoc]
    · rintro ⟨rfl, rfl, hle, hall⟩
      rw [List.map_cons, List.sum_cons] at hle
      rw [List.forall_mem_cons] at hall
      have hfirst := (hf.1 nodes (text e) (nodes + size e)).mpr ⟨rfl, rfl, by omega, hall.1⟩
      have hrest : visitAll f (nodes + size e) es =
          some (es.map text, nodes + size e + (es.map size).sum) :=
        (ih hf.2 (by omega)).mpr ⟨rfl, rfl, by omega, hall.2⟩
      rw [hfirst]
      simp only [Option.bind_eq_bind, Option.bind_some, hrest, List.map_cons, List.sum_cons,
        Nat.add_assoc]

/-- A value with no values in it is one more. -/
theorem visit_leaf_iff {left : Nat} {v : Value N} {t t' : Units} (hnodes : ¬4096 < nodes + 1)
    (ht : canonicalText print v = t') (hc : v.children = [])
    (hfin : ∀ n, v = .num n → F.finite n) :
    some (t', nodes + 1) = some (t, n) ↔
      t = canonicalText print v ∧ n = nodes + v.nodes ∧ n ≤ 4096 ∧
        v.depth < left + 1 ∧ v.Numbers F.finite := by
  rw [ht, nodes_leaf hc, Value.depth_leaf hc, Option.some.injEq, Prod.mk.injEq]
  constructor
  · rintro ⟨rfl, rfl⟩
    refine ⟨rfl, rfl, by omega, Nat.succ_pos _, (Value.numbers_iff _ v).mpr ⟨hfin, ?_⟩⟩
    rw [hc]
    exact fun _ h => absurd h List.not_mem_nil
  · rintro ⟨rfl, rfl, -⟩
    exact ⟨rfl, rfl⟩

theorem canonicalText_arr (vs : List (Value N)) :
    canonicalText print (.arr vs) =
      unit '[' :: (join (vs.map (canonicalText print)) ++ [unit ']']) := by
  rw [canonicalText, Value.sorted, stringify, stringifyItems_eq, Value.sortedItems_eq, List.map_map]
  rfl

theorem canonicalText_obj (ms : List (Units × Value N)) :
    canonicalText print (.obj ms) =
      unit '{' :: (join ((Value.sortMembers unitsBefore ms).map fun m =>
        quote m.1 ++ unit ':' :: canonicalText print m.2) ++ [unit '}']) := by
  have hsort : (Value.sortMembers unitsBefore ms).map (fun m => (m.1, m.2.sorted unitsBefore)) =
      Value.sortMembers unitsBefore (ms.map fun m => (m.1, m.2.sorted unitsBefore)) :=
    Value.map_sortMembers (fun m => (m.1, m.2.sorted unitsBefore)) (fun _ => rfl) ms
  rw [canonicalText, Value.sorted, stringify, stringifyMembers_eq, Value.sortedMembers_eq, ← hsort,
    List.map_map]
  rfl

/-- **A value within the limits is visited, and its text is that of the sorted value.** -/
theorem visit_eq_some {left : Nat} {v : Value N} {t : Units} :
    visit F print left nodes v = some (t, n) ↔
      t = canonicalText print v ∧ n = nodes + v.nodes ∧ n ≤ 4096 ∧
        v.depth < left ∧ v.Numbers F.finite := by
  induction left generalizing nodes n v t with
  | zero => simp [visit]
  | succ left ih =>
    rw [visit.eq_def]
    simp only
    by_cases hnodes : 4096 < nodes + 1
    · simp only [if_pos hnodes, reduceCtorEq, false_iff]
      rintro ⟨-, rfl, hle, -⟩
      have := nodes_pos v
      omega
    simp only [if_neg hnodes]
    cases v with
    | null => exact visit_leaf_iff hnodes rfl rfl fun n hn => by cases hn
    | bool b => exact visit_leaf_iff hnodes rfl rfl fun n hn => by cases hn
    | str s => exact visit_leaf_iff hnodes rfl rfl fun n hn => by cases hn
    | num m =>
      simp only
      split
      · next hfin =>
        refine visit_leaf_iff hnodes rfl rfl fun n hn => ?_
        cases hn
        exact hfin
      · next hfin =>
        simp only [reduceCtorEq, false_iff]
        rintro ⟨-, -, -, -, hnum⟩
        exact hfin (hnum m List.mem_cons_self)
    | arr vs =>
      have hitem (e : Value N) (nodes : Nat) (t : Units) (n : Nat) :
          visit F print left nodes e = some (t, n) ↔
            t = canonicalText print e ∧ n = nodes + e.nodes ∧ n ≤ 4096 ∧
              e.depth < left ∧ e.Numbers F.finite := ih
      have hitems (ts : List Units) (n : Nat) :
          visitAll (visit F print left) (nodes + 1) vs = some (ts, n) ↔
            ts = vs.map (canonicalText print) ∧ n = nodes + 1 + (vs.map Value.nodes).sum ∧
              n ≤ 4096 ∧ ∀ e ∈ vs, e.depth < left ∧ e.Numbers F.finite :=
        visitAll_eq_some vs (fun e _ => hitem e) (Nat.not_lt.mp hnodes)
      rw [canonicalText_arr, nodes_arr, Value.depth_lt_iff, Value.numbers_iff]
      constructor
      · intro h
        obtain ⟨⟨ts, n⟩, hts, h⟩ := Option.bind_eq_some_iff.mp h
        cases h
        obtain ⟨rfl, rfl, hle, hall⟩ := (hitems _ _).mp hts
        exact ⟨rfl, by rw [Nat.add_assoc], hle, fun c hc => (hall c hc).1,
          fun n hn => (by cases hn), fun c hc => (hall c hc).2⟩
      · rintro ⟨rfl, rfl, hle, hdepth, -, hnum⟩
        have h := (hitems _ _).mpr
          ⟨rfl, rfl, by rw [Nat.add_assoc]; exact hle, fun c hc => ⟨hdepth c hc, hnum c hc⟩⟩
        simp only [h, Option.bind_eq_bind, Option.bind_some, Nat.add_assoc]
    | obj ms =>
      have hperm : (Value.sortMembers unitsBefore ms).Perm ms := Value.perm_sortMembers ms
      have hmember (e : Units × Value N) (nodes : Nat) (t : Units) (n : Nat) :
          (visit F print left nodes e.2).map
              (fun x => (quote e.1 ++ unit ':' :: x.1, x.2)) = some (t, n) ↔
            t = quote e.1 ++ unit ':' :: canonicalText print e.2 ∧ n = nodes + e.2.nodes ∧
              n ≤ 4096 ∧ e.2.depth < left ∧ e.2.Numbers F.finite := by
        rw [Option.map_eq_some_iff]
        constructor
        · rintro ⟨⟨t', n'⟩, h, he⟩
          cases he
          obtain ⟨rfl, hv⟩ := ih.mp h
          exact ⟨rfl, hv⟩
        · rintro ⟨rfl, hv⟩
          exact ⟨_, ih.mpr ⟨rfl, hv⟩, rfl⟩
      have hsum : ((Value.sortMembers unitsBefore ms).map fun m => m.2.nodes).sum =
          (ms.map fun m => m.2.nodes).sum := (hperm.map _).sum_nat
      have hmembers (ts : List Units) (n : Nat) :
          visitAll (fun nodes m => (visit F print left nodes m.2).map
              fun x => (quote m.1 ++ unit ':' :: x.1, x.2))
            (nodes + 1) (Value.sortMembers unitsBefore ms) = some (ts, n) ↔
            ts = (Value.sortMembers unitsBefore ms).map
              (fun m => quote m.1 ++ unit ':' :: canonicalText print m.2) ∧
              n = nodes + 1 + (ms.map fun m => m.2.nodes).sum ∧ n ≤ 4096 ∧
              ∀ m ∈ ms, m.2.depth < left ∧ m.2.Numbers F.finite := by
        simp only [← hsum, ← hperm.mem_iff]
        exact visitAll_eq_some _ (fun m _ => hmember m) (Nat.not_lt.mp hnodes)
      rw [canonicalText_obj, nodes_obj, Value.depth_lt_iff, Value.numbers_iff, Value.children]
      simp only [List.forall_mem_map]
      constructor
      · intro h
        obtain ⟨⟨ts, n⟩, hts, h⟩ := Option.bind_eq_some_iff.mp h
        cases h
        obtain ⟨rfl, rfl, hle, hall⟩ := (hmembers _ _).mp hts
        exact ⟨rfl, by rw [Nat.add_assoc], hle, fun m hm => (hall m hm).1,
          fun n hn => (by cases hn), fun m hm => (hall m hm).2⟩
      · rintro ⟨rfl, rfl, hle, hdepth, -, hnum⟩
        have h := (hmembers _ _).mpr
          ⟨rfl, rfl, by rw [Nat.add_assoc]; exact hle, fun m hm => ⟨hdepth m hm, hnum m hm⟩⟩
        simp only [h, Option.bind_eq_bind, Option.bind_some, Nat.add_assoc]

/-! ## The canonical form -/

/-- `JSON.stringify` writes a finite number as a number that reads back as it. -/
structure Prints (F : Numeric N) (print : N → Units) : Prop where
  number : ∀ n, F.finite n → IsNumber (print n)
  read_print : ∀ n, F.finite n → F.read (print n) = n

/-- `Buffer.from(DOMAIN + encoded)`, which is what a signature is over -/
def signedBytes (encoded : Units) : Bytes := encodeText (scalars (codeUnits domain ++ encoded))

variable {v w : Value N} {t u : Units}

theorem canonicalJSON_eq_some :
    canonicalJSON F print v = some t ↔
      t = canonicalText print v ∧ utf8Length t ≤ maxJsonBytes ∧ v.nodes ≤ 4096 ∧ v.depth ≤ 32 ∧
        v.Numbers F.finite := by
  rw [canonicalJSON]
  constructor
  · intro h
    split at h
    · cases h
    · next result n hv =>
      split at h
      · cases h
      · next hsize =>
        cases h
        obtain ⟨rfl, rfl, hle, hdepth, hnum⟩ := visit_eq_some.mp hv
        exact ⟨rfl, Nat.not_lt.mp hsize, by omega, by omega, hnum⟩
  · rintro ⟨rfl, hsize, hle, hdepth, hnum⟩
    have h : visit F print 33 0 v = some (canonicalText print v, v.nodes) :=
      visit_eq_some.mpr ⟨rfl, (Nat.zero_add _).symm, hle, by omega, hnum⟩
    simp only [h, if_neg (Nat.not_lt.mpr hsize)]

theorem wellFormed_canonicalText (hp : Prints F print) (hv : v.Numbers F.finite) :
    WellFormed (canonicalText print v) :=
  wellFormed_stringify (fun n hn => (hp.number n hn).wellFormed) _
    ((Value.numbers_sorted_iff _ v).mpr hv)

/-- **The strict parser reads the canonical text as the sorted value.** -/
theorem parse_canonicalJSON (hp : Prints F print) (hv : v.Distinct)
    (h : canonicalJSON F print v = some t) :
    parseUnambiguousJSON F t = some (v.sorted unitsBefore) := by
  obtain ⟨rfl, hsize, hnodes, hdepth, hnum⟩ := canonicalJSON_eq_some.mp h
  have hnum' : (v.sorted unitsBefore).Numbers F.finite := (Value.numbers_sorted_iff _ v).mpr hnum
  have hderived : IsValue F.read (canonicalText print v ++ []) (v.sorted unitsBefore) [] :=
    isValue_stringify (fun n hn => ⟨hp.number n hn, hp.read_print n hn⟩) _ hnum' []
  rw [List.append_nil] at hderived
  rw [parseUnambiguousJSON_eq, if_neg (Nat.not_lt.mpr hsize),
    (wellFormed_canonicalText hp hnum).eq, parseText_eq_some]
  refine ⟨⟨_, [], Ws.refl _, hderived, Ws.refl _⟩, ?_, ?_, (Value.distinct_sorted_iff v).mpr hv,
    hnum'⟩
  · rw [Value.nodes_sorted]
    exact hnodes
  · exact Nat.le_of_lt_succ ((Value.depth_sorted_lt_iff v 33).mpr (Nat.lt_succ_of_le hdepth))

theorem canonicalJSON_eq_of_same (hv : v.Distinct) (h : v.Same w) :
    canonicalJSON F print v = canonicalJSON F print w := by
  have hs := (Value.sorted_eq_iff orders_unitsBefore hv).mpr h
  have hnodes : v.nodes = w.nodes := by rw [← Value.nodes_sorted v, hs, Value.nodes_sorted]
  have hdepth : v.depth < 33 ↔ w.depth < 33 := by
    rw [← Value.depth_sorted_lt_iff v, hs, Value.depth_sorted_lt_iff]
  have hnum : v.Numbers F.finite ↔ w.Numbers F.finite := by
    rw [← Value.numbers_sorted_iff _ v, hs, Value.numbers_sorted_iff]
  have htext : canonicalText print v = canonicalText print w := by
    rw [canonicalText, hs, canonicalText]
  refine Option.ext fun t => ?_
  rw [canonicalJSON_eq_some, canonicalJSON_eq_some, htext, hnodes, hnum]
  have hdepth' : v.depth ≤ 32 ↔ w.depth ≤ 32 := by omega
  rw [hdepth']

theorem same_of_canonicalJSON (hp : Prints F print) (hv : v.Distinct) (hw : w.Distinct)
    (h : canonicalJSON F print v = some t) (h' : canonicalJSON F print w = some t) : v.Same w :=
  Value.same_of_sorted_eq (Option.some.inj
    ((parse_canonicalJSON hp hv h).symm.trans (parse_canonicalJSON hp hw h')))

theorem signedBytes_injective (ht : WellFormed t) (hu : WellFormed u)
    (h : signedBytes t = signedBytes u) : t = u := by
  obtain ⟨a, rfl⟩ := ht
  obtain ⟨b, rfl⟩ := hu
  have happend (s : Text) : codeUnits domain ++ codeUnits s = codeUnits (domain ++ s) :=
    List.flatMap_append.symm
  have hab := encodeText_injective h
  rw [happend, happend, scalars_codeUnits, scalars_codeUnits] at hab
  rw [List.append_cancel_left hab]

/-- **Canonical JSON is a canonical form.** The parser reads it back, it is the same for values that
differ in the order of members only and different for all others, every value that the parser gives
is accepted unless its text is too long, and so are the bytes that are signed. -/
theorem canonicalJSON_canonical (hp : Prints F print) :
    (∀ v t, v.Distinct → canonicalJSON F print v = some t →
      ∃ w, parseUnambiguousJSON F t = some w ∧ v.Same w) ∧
    (∀ v w, v.Distinct → w.Distinct → v.Same w →
      canonicalJSON F print v = canonicalJSON F print w) ∧
    (∀ v w t, v.Distinct → w.Distinct → canonicalJSON F print v = some t →
      canonicalJSON F print w = some t → v.Same w) ∧
    (∀ t v, parseUnambiguousJSON F t = some v → v.Distinct ∧
      ∃ text n, visit F print 33 0 v = some (text, n) ∧
        (canonicalJSON F print v = some text ∨ maxJsonBytes < utf8Length text)) ∧
    ∀ v w t u, v.Distinct → w.Distinct → canonicalJSON F print v = some t →
      canonicalJSON F print w = some u → (signedBytes t = signedBytes u ↔ v.Same w) := by
  refine ⟨fun v t hv h => ?_, fun v w hv _ => canonicalJSON_eq_of_same hv,
    fun v w t hv hw => same_of_canonicalJSON hp hv hw, fun t v h => ?_,
    fun v w t u hv hw ht hu => ?_⟩
  · exact ⟨_, parse_canonicalJSON hp hv h, Value.same_sorted v⟩
  · rw [parseUnambiguousJSON_eq] at h
    split at h
    · cases h
    · obtain ⟨-, hnodes, hdepth, hdistinct, hnum⟩ := parseText_eq_some.mp h
      refine ⟨hdistinct, canonicalText print v, v.nodes,
        visit_eq_some.mpr ⟨rfl, (Nat.zero_add _).symm, hnodes, by omega, hnum⟩, ?_⟩
      by_cases hsize : maxJsonBytes < utf8Length (canonicalText print v)
      · exact .inr hsize
      · exact .inl (canonicalJSON_eq_some.mpr
          ⟨rfl, Nat.not_lt.mp hsize, hnodes, hdepth, hnum⟩)
  · constructor
    · intro hsigned
      have ht' := canonicalJSON_eq_some.mp ht
      have hu' := canonicalJSON_eq_some.mp hu
      have heq : t = u := signedBytes_injective
        (ht'.1 ▸ wellFormed_canonicalText hp ht'.2.2.2.2)
        (hu'.1 ▸ wellFormed_canonicalText hp hu'.2.2.2.2) hsigned
      rw [← heq] at hu
      exact same_of_canonicalJSON hp hv hw ht hu
    · intro hsame
      rw [canonicalJSON_eq_of_same hv hsame, hu] at ht
      rw [Option.some.inj ht]

/-- The numbers of one digit. -/
def digits : Numeric (Fin 10) where
  read
    | [c] => Fin.ofNat 10 (c.toNat - 0x30)
    | _ => 0
  finite _ := true

def printDigit (n : Fin 10) : Units := [UInt16.ofNat (0x30 + n.val)]

theorem prints_digits : Prints digits printDigit := by
  have hread : ∀ n : Fin 10, digits.read (printDigit n) = n := by decide
  have hdigit : ∀ n : Fin 10, isDigit (UInt16.ofNat (0x30 + n.val)) ∧
      (n ≠ 0 → UInt16.ofNat (0x30 + n.val) ≠ unit '0') := by decide
  refine ⟨fun n _ => ?_, fun n _ => hread n⟩
  have hint : IsInt (printDigit n) := by
    by_cases h : n = 0
    · rw [h]
      exact .zero
    · exact .digits (hdigit n).1 ((hdigit n).2 h) fun _ hc => absurd hc List.not_mem_nil
  have hnumber : IsNumber ([] ++ (printDigit n ++ ([] ++ []))) :=
    .mk (.inl rfl) hint .absent .absent
  simpa using hnumber

theorem canonicalJSON_canonical_digits :
    let v : Value (Fin 10) := .obj [(codeUnits "b", .num 1),
      (codeUnits "a", .arr [.str (codeUnits "x"), .num 0])]
    ∃ t w, canonicalJSON digits printDigit v = some t ∧
      parseUnambiguousJSON digits t = some w ∧ v.Same w := by
  intro v
  have hv : v.Distinct := by
    unfold Value.Distinct
    decide
  have h : canonicalJSON digits printDigit v =
      some (codeUnits "\x7b\"a\":[\"x\",0],\"b\":1\x7d") := by decide
  obtain ⟨w, hw⟩ := (canonicalJSON_canonical prints_digits).1 v _ hv h
  exact ⟨_, w, h, hw⟩

end Telepty.Principal.Encoding
