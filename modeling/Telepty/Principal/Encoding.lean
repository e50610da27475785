import Telepty.Infra.Rfc8259

/-!
# The strict JSON parser

`parseUnambiguousJSON`. The position in the text is the text that is left, and `left` counts the
levels that the depth limit still allows: `value(depth)` is `value` with `33 - depth` of them. Where
the source throws, the result is `none`.

`JSON.parse` is applied to the slice of a single string, as the source does. What the text of a
number stands for and whether that is finite are parameters.
-/

namespace Telepty.Principal.Encoding

open Infra Rfc8259

/-- The numbers of the language: `Number(text)` and `Number.isFinite(n)`. -/
structure Numeric (N : Type) where
  read : Units → N
  finite : N → Bool

def maxJsonBytes : Nat := 100 * 1024

/-! ## The parser -/

/-- The text up to the next quotation mark that is not escaped, and what is left behind it. -/
def stringEnd : Units → Option (Units × Units)
  | [] => none
  | c :: t =>
    if c = quotationMark then some ([], t)
    else if c = reverseSolidus then
      match t with
      | [] => none
      | e :: t => (stringEnd t).map fun x => (c :: e :: x.1, x.2)
    else if c < 0x20 then none
    else (stringEnd t).map fun x => (c :: x.1, x.2)

variable {N : Type} (F : Numeric N)

/-- `string()`, behind the quotation mark that opens it -/
def string (t : Units) : Option (Units × Units) := do
  let (body, t) ← stringEnd t
  match jsonParse F.read (quotationMark :: (body ++ [quotationMark])) with
  | some (.str s) => some (s, t)
  | _ => none

/-- A value, the text behind it, and the number of values so far. -/
abbrev Parsed (N : Type) := Value N × Units × Nat

/-- The loop over the members of an object. -/
def members (value : Nat → Units → Option (Parsed N)) :
    Nat → Nat → List Units → List (Units × Value N) → Units → Option (Parsed N)
  | 0, _, _, _, _ => none
  | fuel + 1, nodes, seen, object, t => do
    let t ← after quotationMark (skipWs t)
    let (key, t) ← string F t
    if key ∈ seen then none
    else
      let t ← after (unit ':') (skipWs t)
      let (v, t, nodes) ← value nodes t
      let object := object ++ [(key, v)]
      match after (unit '}') (skipWs t) with
      | some t => some (.obj object, t, nodes)
      | none =>
        let t ← after (unit ',') (skipWs t)
        members value fuel nodes (key :: seen) object t

/-- The loop over the items of an array. -/
def items (value : Nat → Units → Option (Parsed N)) :
    Nat → Nat → List (Value N) → Units → Option (Parsed N)
  | 0, _, _, _ => none
  | fuel + 1, nodes, array, t => do
    let (v, t, nodes) ← value nodes t
    let array := array ++ [v]
    match after (unit ']') (skipWs t) with
    | some t => some (.arr array, t, nodes)
    | none =>
      let t ← after (unit ',') (skipWs t)
      items value fuel nodes array t

/-- `value(depth)` -/
def value : Nat → Nat → Units → Option (Parsed N)
  | 0, _, _ => none
  | left + 1, nodes, text =>
    let nodes := nodes + 1
    if 4096 < nodes then none
    else
      let text := skipWs text
      match after quotationMark text with
      | some t => (string F t).map fun x => (.str x.1, x.2, nodes)
      | none =>
        match after (unit '{') text with
        | some t =>
          match after (unit '}') (skipWs t) with
          | some t => some (.obj [], t, nodes)
          | none => members F (value left) t.length nodes [] [] (skipWs t)
        | none =>
          match after (unit '[') text with
          | some t =>
            match after (unit ']') (skipWs t) with
            | some t => some (.arr [], t, nodes)
            | none => items (value left) t.length nodes [] (skipWs t)
          | none =>
            match scanWord words text with
            | some (v, t) => some (v, t, nodes)
            | none =>
              (scanNumber text).bind fun x =>
                if F.finite (F.read x.1) then some (.num (F.read x.1), x.2, nodes) else none

/-- The body of `parseUnambiguousJSON` for a text whose size was checked. -/
def parseText (text : Units) : Option (Value N) :=
  match value F 33 0 text with
  | none => none
  | some (v, t, _) => if skipWs t = [] then some v else none

/-- `parseUnambiguousJSON(input)` of a buffer -/
def parseBytes (bytes : Bytes) : Option (Value N) :=
  if maxJsonBytes < bytes.length then none
  else if encodeText (decodeText bytes) ≠ bytes then none
  else parseText F (codeUnits (decodeText bytes))

/-- `parseUnambiguousJSON(input)` of a string -/
def parseUnambiguousJSON (input : Units) : Option (Value N) :=
  parseBytes F (encodeText (scalars input))

/-! ## Strings -/

variable {F} {t r s : Units}

theorem IsChars.append (h : IsChars t s r) (x : Units) : IsChars (t ++ x) s (r ++ x) := by
  induction h with
  | close => exact .close
  | plain hc _ ih => exact .plain hc ih
  | short he _ ih => exact .short he ih
  | hex hu _ ih => exact .hex hu ih

theorem stringEnd_eq {body : Units} (h : stringEnd t = some (body, r)) :
    t = body ++ quotationMark :: r := by
  fun_induction stringEnd t generalizing body with
  | case1 => cases h
  | case2 t =>
    cases h
    rfl
  | case3 => cases h
  | case4 hc e t ih =>
    obtain ⟨x, hx, hxs⟩ := Option.map_eq_some_iff.mp h
    cases hxs
    rw [ih hx]
    rfl
  | case5 => cases h
  | case6 c t hq hs hlt ih =>
    obtain ⟨x, hx, hxs⟩ := Option.map_eq_some_iff.mp h
    cases hxs
    rw [ih hx]
    rfl

theorem stringEnd_plain {c : CodeUnit} (hc : Unescaped c) (t : Units) :
    stringEnd (c :: t) = (stringEnd t).map fun x => (c :: x.1, x.2) := by
  rw [stringEnd.eq_def]
  simp only [if_neg hc.1, if_neg hc.2.1, if_neg hc.2.2]

theorem stringEnd_escape (e : CodeUnit) (t : Units) :
    stringEnd (reverseSolidus :: e :: t) =
      (stringEnd t).map fun x => (reverseSolidus :: e :: x.1, x.2) := by
  have hne : reverseSolidus ≠ quotationMark := by decide
  rw [stringEnd.eq_def]
  simp only [if_neg hne, if_true]

/-- The slice that is found is the body of the string. -/
theorem stringEnd_of_isChars (h : IsChars t s r) :
    ∃ body, stringEnd t = some (body, r) ∧ IsChars (body ++ [quotationMark]) s [] := by
  induction h with
  | close => exact ⟨[], by rw [stringEnd.eq_def]; rfl, .close⟩
  | plain hc _ ih =>
    obtain ⟨body, hbody, hchars⟩ := ih
    exact ⟨_, by rw [stringEnd_plain hc, hbody]; rfl, .plain hc hchars⟩
  | short he _ ih =>
    obtain ⟨body, hbody, hchars⟩ := ih
    exact ⟨_, by rw [stringEnd_escape, hbody]; rfl, .short he hchars⟩
  | hex hu _ ih =>
    obtain ⟨body, hbody, hchars⟩ := ih
    obtain ⟨ha, hb, hc, hd⟩ := unescaped_of_hex4 hu
    exact ⟨_, by rw [stringEnd_escape, stringEnd_plain ha, stringEnd_plain hb, stringEnd_plain hc,
      stringEnd_plain hd, hbody]; rfl, .hex hu hchars⟩

/-- A text that is one string has the value of the string. -/
theorem isText_string {read : Units → N} {body : Units} {v : Value N} :
    IsText read (quotationMark :: (body ++ [quotationMark])) v ↔
      ∃ s, IsChars (body ++ [quotationMark]) s [] ∧ v = .str s := by
  constructor
  · rintro ⟨t, r, hw, hv, hr⟩
    have hq : NoWs (quotationMark :: (body ++ [quotationMark])) := noWs_cons (by decide)
    have ht : t = quotationMark :: (body ++ [quotationMark]) :=
      (hw.skipWs_eq hv.noWs).symm.trans ((Ws.refl _).skipWs_eq hq)
    rw [ht] at hv
    have hscan := hv.scanValue (numberEnd_nil.of_ws hr) (Nat.lt_succ_self _)
    rw [scanValue, after_self] at hscan
    obtain ⟨x, hx, hxs⟩ := Option.map_eq_some_iff.mp hscan
    cases hxs
    have hchars := scanString_eq_some.mp hx
    have hnil : x.2 = [] := by
      by_contra hne
      have hlast := hchars.suffix.getLast hne
      rw [List.getLast_append_singleton] at hlast
      obtain ⟨w, hrw, hw⟩ := hr
      rw [List.append_nil] at hrw
      have := hw _ (by rw [← hrw]; exact List.getLast_mem hne)
      rw [hlast] at this
      exact absurd this (by decide)
    rw [hnil] at hchars
    exact ⟨x.1, hchars, rfl⟩
  · rintro ⟨s, hs, rfl⟩
    exact ⟨_, [], Ws.refl _, .str hs, Ws.refl _⟩

/-- **A string is read as the grammar has it.** -/
theorem string_eq_some (F : Numeric N) : string F t = some (s, r) ↔ IsChars t s r := by
  rw [string]
  constructor
  · intro h
    obtain ⟨⟨body, u⟩, hbody, h⟩ := Option.bind_eq_some_iff.mp h
    simp only at h
    split at h
    · next v hv =>
      cases h
      obtain ⟨w, hw, hcol⟩ := jsonParse_eq_some.mp hv
      obtain ⟨s', hs, rfl⟩ := isText_string.mp hw
      cases hcol
      rw [stringEnd_eq hbody]
      have := IsChars.append hs r
      rw [List.append_assoc] at this
      exact this
    · cases h
  · intro h
    obtain ⟨body, hbody, hs⟩ := stringEnd_of_isChars h
    have hparse : jsonParse F.read (quotationMark :: (body ++ [quotationMark])) = some (.str s) :=
      jsonParse_eq_some.mpr ⟨_, isText_string.mpr ⟨s, hs, rfl⟩, rfl⟩
    rw [hbody]
    simp only [Option.bind_eq_bind, Option.bind_some, hparse]

/-! ## The loops and the grammar's scanner

Each loop finds what the scanner of the grammar finds, and lets it through when the checks pass.
-/

/-- What is checked of a value, but for its size. -/
def Strict (F : Numeric N) (v : Value N) : Prop := v.Distinct ∧ v.Numbers F.finite

/-- A parser of values finds what a scanner finds, with the checks and the count of values. -/
def Refines (F : Numeric N) (q : Units → Option (Value N × Units))
    (p : Nat → Units → Option (Parsed N)) : Prop :=
  ∀ nodes t v r n, p nodes t = some (v, r, n) ↔
    q (skipWs t) = some (v, r) ∧ n = nodes + v.nodes ∧ n ≤ 4096 ∧ Strict F v

section Loops

variable {q : Units → Option (Value N × Units)} {p : Nat → Units → Option (Parsed N)}

theorem items_eq_some (hp : Refines F q p) {fuel nodes n : Nat} {array : List (Value N)}
    {v : Value N} :
    items p fuel nodes array t = some (v, r, n) ↔
      ∃ vs, scanElements (unit ']') q fuel t = some (vs, r) ∧ v = .arr (array ++ vs) ∧
        n = nodes + (vs.map Value.nodes).sum ∧ n ≤ 4096 ∧ ∀ x ∈ vs, Strict F x := by
  induction fuel generalizing nodes array t with
  | zero => simp [items, scanElements]
  | succ fuel ih =>
    rw [items, scanElements]
    constructor
    · intro h
      obtain ⟨⟨v₁, t₁, n₁⟩, hv₁, h⟩ := Option.bind_eq_some_iff.mp h
      obtain ⟨hq, rfl, hle, hv⟩ := (hp _ _ _ _ _).mp hv₁
      simp only at h
      split at h
      · next hclose =>
        cases h
        refine ⟨[v₁], by simp only [hq, hclose], rfl, ?_, hle, List.forall_mem_singleton.mpr hv⟩
        rw [List.map_singleton, List.sum_singleton]
      · next hclose =>
        obtain ⟨t₂, ht₂, h⟩ := Option.bind_eq_some_iff.mp h
        obtain ⟨vs, hvs, rfl, rfl, hle', hall⟩ := ih.mp h
        refine ⟨v₁ :: vs, by simp only [hq, hclose, ht₂, hvs, Option.map_some], ?_, ?_, hle',
          List.forall_mem_cons.mpr ⟨hv, hall⟩⟩
        · rw [List.append_assoc]
          rfl
        · rw [List.map_cons, List.sum_cons]
          omega
    · rintro ⟨vs, hvs, rfl, rfl, hle, hall⟩
      split at hvs
      · cases hvs
      · next v₁ t₁ hq =>
        have hfirst : ∀ vs', vs = v₁ :: vs' →
            p nodes t = some (v₁, t₁, nodes + v₁.nodes) := by
          rintro vs' rfl
          rw [List.map_cons, List.sum_cons] at hle
          exact (hp _ _ _ _ _).mpr ⟨hq, rfl, by omega, hall _ List.mem_cons_self⟩
        split at hvs
        · next hclose =>
          cases hvs
          rw [hfirst [] rfl]
          simp only [Option.bind_eq_bind, Option.bind_some, hclose, List.map_singleton,
            List.sum_singleton]
        · next hclose =>
          split at hvs
          · cases hvs
          · next t₂ ht₂ =>
            obtain ⟨x, hx, hxs⟩ := Option.map_eq_some_iff.mp hvs
            cases hxs
            rw [hfirst x.1 rfl]
            simp only [Option.bind_eq_bind, Option.bind_some, hclose, ht₂]
            rw [List.map_cons, List.sum_cons] at hle ⊢
            refine ih.mpr ⟨x.1, hx, ?_, ?_, hle, fun y hy => hall y (List.mem_cons_of_mem _ hy)⟩
            · rw [List.append_assoc]
              rfl
            · rw [List.map_cons, List.sum_cons, Nat.add_assoc]

/-- The members of an object that are still to come have new names. -/
theorem members_eq_some (hp : Refines F q p) {fuel nodes n : Nat} {seen : List Units}
    {object : List (Units × Value N)} {v : Value N} :
    members F p fuel nodes seen object t = some (v, r, n) ↔
      ∃ ms, scanElements (unit '}') (scanMember q) fuel t = some (ms, r) ∧
        v = .obj (object ++ ms) ∧ n = nodes + (ms.map fun m => m.2.nodes).sum ∧ n ≤ 4096 ∧
        (∀ m ∈ ms, Strict F m.2) ∧ (ms.map Prod.fst).Nodup ∧ ∀ m ∈ ms, m.1 ∉ seen := by
  induction fuel generalizing nodes seen object t with
  | zero => simp [members, scanElements]
  | succ fuel ih =>
    rw [members, scanElements]
    constructor
    · intro h
      obtain ⟨t₁, ht₁, h⟩ := Option.bind_eq_some_iff.mp h
      obtain ⟨⟨k, t₂⟩, hk, h⟩ := Option.bind_eq_some_iff.mp h
      simp only at h
      split at h
      · cases h
      · next hseen =>
        obtain ⟨t₃, ht₃, h⟩ := Option.bind_eq_some_iff.mp h
        obtain ⟨⟨v₁, t₄, n₁⟩, hv₁, h⟩ := Option.bind_eq_some_iff.mp h
        obtain ⟨hq, rfl, hle, hv⟩ := (hp _ _ _ _ _).mp hv₁
        have hmember : scanMember q (skipWs t) = some ((k, v₁), t₄) := by
          have hks := scanString_eq_some.mpr ((string_eq_some F).mp hk)
          rw [scanMember, ht₁, Option.bind_some, hks, Option.bind_some, ht₃, Option.bind_some, hq]
          rfl
        simp only at h
        split at h
        · next hclose =>
          cases h
          refine ⟨[(k, v₁)], by simp only [hmember, hclose], rfl, ?_, hle, ?_⟩
          · rw [List.map_singleton, List.sum_singleton]
          · exact ⟨List.forall_mem_singleton.mpr hv, List.nodup_singleton _,
              List.forall_mem_singleton.mpr hseen⟩
        · next hclose =>
          obtain ⟨t₅, ht₅, h⟩ := Option.bind_eq_some_iff.mp h
          obtain ⟨ms, hms, rfl, rfl, hle', hall, hnames, hnew⟩ := ih.mp h
          refine ⟨(k, v₁) :: ms, by simp only [hmember, hclose, ht₅, hms, Option.map_some], ?_, ?_,
            hle', List.forall_mem_cons.mpr ⟨hv, hall⟩, ?_, ?_⟩
          · rw [List.append_assoc]
            rfl
          · simp only [List.map_cons, List.sum_cons]
            omega
          · rw [List.map_cons, List.nodup_cons]
            refine ⟨fun hmem => ?_, hnames⟩
            obtain ⟨m, hm, rfl⟩ := List.mem_map.mp hmem
            exact hnew m hm List.mem_cons_self
          · exact List.forall_mem_cons.mpr
              ⟨hseen, fun m hm hs => hnew m hm (List.mem_cons_of_mem _ hs)⟩
    · rintro ⟨ms, hms, rfl, rfl, hle, hall, hnames, hnew⟩
      split at hms
      · cases hms
      · next m t₄ hmember =>
        obtain ⟨t₁, ht₁, h⟩ := Option.bind_eq_some_iff.mp hmember
        obtain ⟨⟨k, t₂⟩, hk, h⟩ := Option.bind_eq_some_iff.mp h
        obtain ⟨t₃, ht₃, h⟩ := Option.bind_eq_some_iff.mp h
        obtain ⟨⟨v₁, t₄⟩, hq, h⟩ := Option.map_eq_some_iff.mp h
        cases h
        have hks := (string_eq_some F).mpr (scanString_eq_some.mp hk)
        simp only [Option.bind_eq_bind, ht₁, Option.bind_some, hks]
        have hfirst : ∀ ms', ms = (k, v₁) :: ms' →
            k ∉ seen ∧ p nodes t₃ = some (v₁, t₄, nodes + v₁.nodes) := by
          rintro ms' rfl
          simp only [List.map_cons, List.sum_cons] at hle
          exact ⟨hnew _ List.mem_cons_self,
            (hp _ _ _ _ _).mpr ⟨hq, rfl, by omega, hall _ List.mem_cons_self⟩⟩
        split at hms
        · next hclose =>
          cases hms
          obtain ⟨hseen, hv⟩ := hfirst [] rfl
          simp only [if_neg hseen, ht₃, Option.bind_some, hv, hclose, List.map_singleton,
            List.sum_singleton]
        · next hclose =>
          split at hms
          · cases hms
          · next t₅ ht₅ =>
            obtain ⟨x, hx, hxs⟩ := Option.map_eq_some_iff.mp hms
            cases hxs
            obtain ⟨hseen, hv⟩ := hfirst x.1 rfl
            simp only [List.map_cons, List.sum_cons, List.nodup_cons] at hle hnames
            simp only [if_neg hseen, ht₃, Option.bind_some, hv, hclose, ht₅]
            refine ih.mpr ⟨x.1, hx, ?_, ?_, ?_, fun m hm => hall m (List.mem_cons_of_mem _ hm),
              hnames.2, fun m hm hs => ?_⟩
            · rw [List.append_assoc]
              rfl
            · simp only [List.map_cons, List.sum_cons, Nat.add_assoc]
            · simp only [List.map_cons, List.sum_cons]
              omega
            · rcases List.mem_cons.mp hs with hs | hs
              · exact hnames.1 (hs ▸ List.mem_map_of_mem hm)
              · exact hnew m (List.mem_cons_of_mem _ hm) hs

end Loops

theorem strict_leaf {v : Value N} (hc : v.children = []) (hn : v.names = [])
    (h : ∀ n, v = .num n → F.finite n) : Strict F v := by
  refine ⟨(Value.distinct_iff v).mpr ⟨by rw [hn]; exact List.nodup_nil, ?_⟩,
    (Value.numbers_iff _ v).mpr ⟨h, ?_⟩⟩ <;>
  · rw [hc]
    exact fun _ h => absurd h List.not_mem_nil

theorem nodes_leaf {v : Value N} (hc : v.children = []) : v.nodes = 1 := by
  rw [Value.nodes_eq, hc]
  rfl

theorem strict_arr_iff (vs : List (Value N)) : Strict F (.arr vs) ↔ ∀ v ∈ vs, Strict F v := by
  simp only [Strict, Value.distinct_iff (.arr vs), Value.numbers_iff _ (.arr vs), Value.names,
    Value.children, List.nodup_nil, true_and, reduceCtorEq, false_implies, implies_true]
  exact ⟨fun h v hv => ⟨h.1 v hv, h.2 v hv⟩, fun h => ⟨fun v hv => (h v hv).1, fun v hv => (h v hv).2⟩⟩

theorem strict_obj_iff (ms : List (Units × Value N)) :
    Strict F (.obj ms) ↔ (ms.map Prod.fst).Nodup ∧ ∀ m ∈ ms, Strict F m.2 := by
  simp only [Strict, Value.distinct_iff (.obj ms), Value.numbers_iff _ (.obj ms), Value.names,
    Value.children, List.forall_mem_map, true_and, reduceCtorEq, false_implies, implies_true]
  exact ⟨fun h => ⟨h.1.1, fun m hm => ⟨h.1.2 m hm, h.2 m hm⟩⟩,
    fun h => ⟨⟨h.1, fun m hm => (h.2 m hm).1⟩, fun m hm => (h.2 m hm).2⟩⟩

theorem nodes_arr (vs : List (Value N)) : (Value.arr vs).nodes = 1 + (vs.map Value.nodes).sum :=
  Value.nodes_eq _

theorem nodes_obj (ms : List (Units × Value N)) :
    (Value.obj ms).nodes = 1 + (ms.map fun m => m.2.nodes).sum := by
  rw [Value.nodes_eq, Value.children, List.map_map]
  rfl

theorem skipWs_skipWs (t : Units) : skipWs (skipWs t) = skipWs t :=
  (Ws.refl _).skipWs_eq (noWs_skipWs t)

theorem scanElements_skipWs {E : Type} (close : CodeUnit) (q : Units → Option (E × Units))
    (fuel : Nat) (t : Units) :
    scanElements close q fuel (skipWs t) = scanElements close q fuel t := by
  cases fuel with
  | zero => rfl
  | succ fuel => rw [scanElements, scanElements, skipWs_skipWs]

theorem string_eq_scanString (F : Numeric N) (t : Units) : string F t = scanString t :=
  Option.ext fun x => by
    rw [show string F t = some x ↔ _ from string_eq_some F, scanString_eq_some]

theorem nodes_pos (v : Value N) : 0 < v.nodes := by
  rw [Value.nodes_eq]
  omega

/-- A value with no values in it is one more. -/
theorem leaf_iff {v' v : Value N} {r' : Units} {nodes n : Nat} (hnodes : ¬4096 < nodes + 1)
    (hc : v'.children = []) (hn : v'.names = []) (hfin : ∀ n, v' = .num n → F.finite n) :
    some (v', r', nodes + 1) = some (v, r, n) ↔
      some (v', r') = some (v, r) ∧ n = nodes + v.nodes ∧ n ≤ 4096 ∧ Strict F v := by
  constructor
  · intro h
    cases h
    exact ⟨rfl, by rw [nodes_leaf hc], by omega, strict_leaf hc hn hfin⟩
  · rintro ⟨h, rfl, -, -⟩
    cases h
    rw [nodes_leaf hc]

/-- **`value` finds what the scanner of the grammar finds, with the checks and the count.** -/
theorem value_refines (F : Numeric N) (left : Nat) :
    Refines F (scanValue F.read left) (value F left) := by
  induction left with
  | zero => exact fun nodes t v r n => by simp [value, scanValue]
  | succ left ih =>
    intro nodes t v r n
    rw [value, scanValue]
    by_cases hnodes : 4096 < nodes + 1
    · simp only [if_pos hnodes, reduceCtorEq, false_iff]
      rintro ⟨-, rfl, hle, -⟩
      have := nodes_pos v
      omega
    simp only [if_neg hnodes, string_eq_scanString]
    cases after quotationMark (skipWs t) with
    | some u =>
      simp only
      cases scanString u with
      | none => simp
      | some x => exact leaf_iff hnodes rfl rfl fun n hn => by cases hn
    | none =>
      simp only
      cases after (unit '{') (skipWs t) with
      | some u =>
        simp only [scanListed]
        cases after (unit '}') (skipWs u) with
        | some u' => exact leaf_iff hnodes rfl rfl fun n hn => by cases hn
        | none =>
          simp only [members_eq_some ih, scanElements_skipWs]
          constructor
          · rintro ⟨ms, hms, rfl, rfl, hle, hall, hnames, -⟩
            rw [hms]
            refine ⟨rfl, ?_, hle, (strict_obj_iff ms).mpr ⟨hnames, hall⟩⟩
            rw [List.nil_append, nodes_obj, Nat.add_assoc]
          · rintro ⟨hobj, rfl, hle, hv⟩
            obtain ⟨⟨ms, r'⟩, hms, h⟩ := Option.map_eq_some_iff.mp hobj
            cases h
            obtain ⟨hnames, hall⟩ := (strict_obj_iff ms).mp hv
            refine ⟨ms, hms, rfl, ?_, hle, hall, hnames, fun m _ => List.not_mem_nil⟩
            rw [nodes_obj, Nat.add_assoc]
      | none =>
        simp only
        cases after (unit '[') (skipWs t) with
        | some u =>
          simp only [scanListed]
          cases after (unit ']') (skipWs u) with
          | some u' => exact leaf_iff hnodes rfl rfl fun n hn => by cases hn
          | none =>
            simp only [items_eq_some ih, scanElements_skipWs]
            constructor
            · rintro ⟨vs, hvs, rfl, rfl, hle, hall⟩
              rw [hvs]
              refine ⟨rfl, ?_, hle, (strict_arr_iff vs).mpr hall⟩
              rw [List.nil_append, nodes_arr, Nat.add_assoc]
            · rintro ⟨harr, rfl, hle, hv⟩
              obtain ⟨⟨vs, r'⟩, hvs, h⟩ := Option.map_eq_some_iff.mp harr
              cases h
              refine ⟨vs, hvs, rfl, ?_, hle, (strict_arr_iff vs).mp hv⟩
              rw [nodes_arr, Nat.add_assoc]
        | none =>
          simp only
          cases hw : scanWord words (skipWs t) with
          | some x =>
            obtain ⟨v', r'⟩ := x
            obtain ⟨w, hmem, -⟩ := scanWord_sound hw
            obtain ⟨hchildren, hnames, hnum⟩ := plain_word hmem
            exact leaf_iff hnodes hchildren hnames fun n hn => absurd hn (hnum n)
          | none =>
            simp only
            cases scanNumber (skipWs t) with
            | none => simp
            | some x =>
              simp only [Option.bind_some, Option.map_some]
              split
              · next hfin =>
                refine leaf_iff hnodes rfl rfl fun n hn => ?_
                cases hn
                exact hfin
              · next hfin =>
                simp only [reduceCtorEq, false_iff]
                rintro ⟨h, -, -, hv⟩
                cases h
                exact hfin (hv.2 _ List.mem_cons_self)

/-! ## The parser -/

theorem parseText_eq_some {text : Units} {v : Value N} :
    parseText F text = some v ↔
      IsText F.read text v ∧ v.nodes ≤ 4096 ∧ v.depth ≤ 32 ∧ Strict F v := by
  have hvalue := value_refines F 33 0 text
  rw [parseText]
  constructor
  · intro h
    split at h
    · cases h
    · next v' r n hv =>
      split at h
      · next hr =>
        cases h
        obtain ⟨hscan, rfl, hle, hstrict⟩ := (hvalue _ _ _).mp hv
        obtain ⟨hderived, hdepth⟩ := scanValue_sound _ _ _ _ _ hscan
        refine ⟨⟨_, r, ws_skipWs text, hderived, ws_of_skipWs hr⟩, by omega, by omega, hstrict⟩
      · cases h
  · rintro ⟨⟨t, r, hw, hderived, hr⟩, hnodes, hdepth, hstrict⟩
    have hscan := hderived.scanValue (numberEnd_nil.of_ws hr) (Nat.lt_succ_of_le hdepth)
    have hend : skipWs r = [] := hr.skipWs_eq noWs_nil
    have hv := (hvalue v r v.nodes).mpr
      ⟨by rw [hw.skipWs_eq hderived.noWs, hscan], (Nat.zero_add _).symm, hnodes, hstrict⟩
    rw [hv]
    simp only [hend, if_true]

/-- The text is RFC 8259 JSON within the limits, no object of it has two members of one name, and
no number of it overflows. -/
def Unambiguous (F : Numeric N) (text : Units) : Prop :=
  utf8Length text ≤ maxJsonBytes ∧
    ∃ v, IsText F.read text v ∧ v.nodes ≤ 4096 ∧ v.depth ≤ 32 ∧ v.Distinct ∧ v.Numbers F.finite

theorem parseUnambiguousJSON_eq (F : Numeric N) (input : Units) :
    parseUnambiguousJSON F input =
      if maxJsonBytes < utf8Length input then none else parseText F (toWellFormed input) := by
  simp only [parseUnambiguousJSON, parseBytes, decodeText_encodeText, ne_eq, not_true_eq_false,
    if_false]
  rfl

/-- **The parser accepts a string exactly when it is unambiguous JSON within the limits, and gives
what `JSON.parse` gives.** A surrogate of the string that stands alone is read as U+FFFD. -/
theorem parseUnambiguousJSON_iff (F : Numeric N) (input : Units) :
    ((parseUnambiguousJSON F input).isSome ↔ Unambiguous F (toWellFormed input)) ∧
    ∀ v, parseUnambiguousJSON F input = some v →
      jsonParse F.read (toWellFormed input) = some v := by
  have hlen : utf8Length (toWellFormed input) = utf8Length input := by
    rw [utf8Length, scalars_toWellFormed, utf8Length]
  rw [parseUnambiguousJSON_eq, Unambiguous, hlen]
  by_cases hsize : maxJsonBytes < utf8Length input
  · rw [if_pos hsize]
    refine ⟨iff_of_false (by simp) fun h => ?_, fun v h => nomatch h⟩
    exact absurd h.1 (Nat.not_le.mpr hsize)
  · rw [if_neg hsize, Option.isSome_iff_exists]
    constructor
    · simp only [parseText_eq_some, Strict]
      exact ⟨fun h => ⟨Nat.not_lt.mp hsize, h⟩, fun h => h.2⟩
    · intro v hv
      obtain ⟨htext, -, -, hstrict⟩ := parseText_eq_some.mp hv
      exact jsonParse_eq_some.mpr ⟨v, htext, v.collapse_eq hstrict.1⟩

/-- A string with a surrogate that stands alone is not read as `JSON.parse` reads it. -/
theorem lone_surrogate_replaced :
    parseUnambiguousJSON (⟨fun _ => (), fun _ => true⟩ : Numeric Unit)
        [quotationMark, 0xD800, quotationMark] = some (.str [0xFFFD]) ∧
      jsonParse (fun _ => ()) [quotationMark, 0xD800, quotationMark] = some (.str [0xD800]) :=
  ⟨rfl, rfl⟩

end Telepty.Principal.Encoding
