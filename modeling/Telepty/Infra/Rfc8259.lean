import Telepty.Infra.JsonToken
import Telepty.Infra.OrdMap

/-!
# JSON texts

The values of RFC 8259 with the grammar that derives them, and `JSON.parse`. Numbers are of any
type `N`: what the text of a number stands for is a parameter. An object is the list of its members
in the order of the text, with a name that occurs twice still twice in it; `JSON.parse` keeps the
last one (`Value.collapse`).

The grammar derives each text in one way: the scanner finds the derivation there is
(`scanValue_eq_some`), so a text has one value (`IsText.unique`).
-/

namespace Telepty.Infra.Rfc8259

inductive Value (N : Type) where
  | null
  | bool (b : Bool)
  | num (n : N)
  | str (s : Units)
  | arr (items : List (Value N))
  | obj (members : List (Units × Value N))

variable {N : Type}

namespace Value

def children : Value N → List (Value N)
  | .arr vs => vs
  | .obj ms => ms.map Prod.snd
  | _ => []

/-- The names of an object's members. -/
def names : Value N → List Units
  | .obj ms => ms.map Prod.fst
  | _ => []

mutual

/-- A value and all values in it. -/
def parts : Value N → List (Value N)
  | .arr vs => .arr vs :: itemParts vs
  | .obj ms => .obj ms :: memberParts ms
  | v => [v]

def itemParts : List (Value N) → List (Value N)
  | [] => []
  | v :: vs => parts v ++ itemParts vs

def memberParts : List (Units × Value N) → List (Value N)
  | [] => []
  | (_, v) :: ms => parts v ++ memberParts ms

end

mutual

/-- How many arrays and objects a value in it lies in, at most. -/
def depth : Value N → Nat
  | .arr vs => itemDepth vs
  | .obj ms => memberDepth ms
  | _ => 0

def itemDepth : List (Value N) → Nat
  | [] => 0
  | v :: vs => max (depth v + 1) (itemDepth vs)

def memberDepth : List (Units × Value N) → Nat
  | [] => 0
  | (_, v) :: ms => max (depth v + 1) (memberDepth ms)

end

def nodes (v : Value N) : Nat := v.parts.length

/-- No object in it has two members of one name. -/
def Distinct (v : Value N) : Prop := ∀ x ∈ v.parts, x.names.Nodup

/-- Every number in it is one of these. -/
def Numbers (p : N → Bool) (v : Value N) : Prop := ∀ n, .num n ∈ v.parts → p n

mutual

/-- What `JSON.parse` makes of it: the last member of a name, in the place of the first. -/
def collapse : Value N → Value N
  | .arr vs => .arr (collapseItems vs)
  | .obj ms => .obj (collapseMembers [] ms)
  | v => v

def collapseItems : List (Value N) → List (Value N)
  | [] => []
  | v :: vs => collapse v :: collapseItems vs

def collapseMembers (acc : List (Units × Value N)) :
    List (Units × Value N) → List (Units × Value N)
  | [] => acc
  | (k, v) :: ms => collapseMembers (assocSet k (collapse v) acc) ms

end

/-- Induction over the values in a value. -/
theorem induct {P : Value N → Prop} (leaf : ∀ v : Value N, v.children = [] → P v)
    (arr : ∀ vs, (∀ v ∈ vs, P v) → P (.arr vs)) (obj : ∀ ms, (∀ m ∈ ms, P m.2) → P (.obj ms))
    (v : Value N) : P v :=
  @Value.rec N P (fun vs => ∀ v ∈ vs, P v) (fun ms => ∀ m ∈ ms, P m.2) (fun m => P m.2)
    (leaf _ rfl) (fun _ => leaf _ rfl) (fun _ => leaf _ rfl) (fun _ => leaf _ rfl) arr obj
    (fun _ h => absurd h List.not_mem_nil) (fun _ _ h hs => List.forall_mem_cons.mpr ⟨h, hs⟩)
    (fun _ h => absurd h List.not_mem_nil) (fun _ _ h hs => List.forall_mem_cons.mpr ⟨h, hs⟩)
    (fun _ _ h => h) v

/-! The values in a value are itself and those in its children. -/

theorem itemParts_eq (vs : List (Value N)) : itemParts vs = vs.flatMap parts := by
  induction vs with
  | nil => rfl
  | cons v vs ih => rw [itemParts, ih, List.flatMap_cons]

theorem memberParts_eq (ms : List (Units × Value N)) :
    memberParts ms = (ms.map Prod.snd).flatMap parts := by
  induction ms with
  | nil => rfl
  | cons m ms ih => rw [memberParts, ih, List.map_cons, List.flatMap_cons]

theorem parts_eq (v : Value N) : v.parts = v :: v.children.flatMap parts := by
  cases v with
  | arr vs => rw [parts, itemParts_eq, children]
  | obj ms => rw [parts, memberParts_eq, children]
  | _ => rfl

theorem nodes_eq (v : Value N) : v.nodes = 1 + (v.children.map nodes).sum := by
  rw [nodes, parts_eq, List.length_cons, List.length_flatMap, Nat.add_comm]
  rfl

theorem itemDepth_lt_iff (vs : List (Value N)) (n : Nat) :
    itemDepth vs < n + 1 ↔ ∀ v ∈ vs, v.depth < n := by
  induction vs with
  | nil => simp [itemDepth]
  | cons v vs ih =>
    rw [itemDepth, Nat.max_lt, ih, List.forall_mem_cons, Nat.add_lt_add_iff_right]

theorem memberDepth_lt_iff (ms : List (Units × Value N)) (n : Nat) :
    memberDepth ms < n + 1 ↔ ∀ m ∈ ms, m.2.depth < n := by
  induction ms with
  | nil => simp [memberDepth]
  | cons m ms ih =>
    rw [memberDepth, Nat.max_lt, ih, List.forall_mem_cons, Nat.add_lt_add_iff_right]

theorem depth_leaf {v : Value N} (h : v.children = []) : v.depth = 0 := by
  cases v with
  | arr vs =>
    rw [children] at h
    rw [h]
    rfl
  | obj ms =>
    rw [children, List.map_eq_nil_iff] at h
    rw [h]
    rfl
  | _ => rfl

theorem distinct_iff (v : Value N) : v.Distinct ↔ v.names.Nodup ∧ ∀ c ∈ v.children, c.Distinct := by
  simp only [Distinct, parts_eq v, List.forall_mem_cons, List.mem_flatMap]
  refine and_congr_right fun _ => ⟨fun h c hc x hx => h x ⟨c, hc, hx⟩, ?_⟩
  rintro h x ⟨c, hc, hx⟩
  exact h c hc x hx

theorem numbers_iff (p : N → Bool) (v : Value N) :
    v.Numbers p ↔ (∀ n, v = .num n → p n) ∧ ∀ c ∈ v.children, c.Numbers p := by
  simp only [Numbers, parts_eq v, List.mem_cons, List.mem_flatMap]
  constructor
  · exact fun h => ⟨fun n hn => h n (.inl hn.symm), fun c hc n hn => h n (.inr ⟨c, hc, hn⟩)⟩
  · rintro ⟨h1, h2⟩ n (hn | ⟨c, hc, hn⟩)
    · exact h1 n hn.symm
    · exact h2 c hc n hn

/-! Without a name that occurs twice nothing is collapsed. -/

theorem collapseItems_eq {vs : List (Value N)} (h : ∀ v ∈ vs, v.collapse = v) :
    collapseItems vs = vs := by
  induction vs with
  | nil => rfl
  | cons v vs ih =>
    rw [List.forall_mem_cons] at h
    rw [collapseItems, h.1, ih h.2]

theorem collapseMembers_eq {ms acc : List (Units × Value N)} (h : ∀ m ∈ ms, m.2.collapse = m.2)
    (hn : ((acc ++ ms).map Prod.fst).Nodup) : collapseMembers acc ms = acc ++ ms := by
  induction ms generalizing acc with
  | nil => rw [collapseMembers, List.append_nil]
  | cons m ms ih =>
    rw [List.forall_mem_cons] at h
    obtain ⟨k, v⟩ := m
    have hk : k ∉ acc.map Prod.fst := by
      rw [List.map_append, List.map_cons, List.nodup_append] at hn
      exact fun hmem => hn.2.2 k hmem k List.mem_cons_self rfl
    rw [collapseMembers, h.1, assocSet_of_not_mem v hk, ih h.2, List.append_assoc]
    · rfl
    · rwa [List.append_assoc]

theorem collapse_eq (v : Value N) (h : v.Distinct) : v.collapse = v := by
  induction v using induct with
  | leaf v hv =>
    cases v with
    | arr vs =>
      rw [children] at hv
      rw [hv]
      rfl
    | obj ms =>
      rw [children, List.map_eq_nil_iff] at hv
      rw [hv]
      rfl
    | _ => rfl
  | arr vs ih =>
    rw [collapse, collapseItems_eq fun v hv => ih v hv (((distinct_iff _).mp h).2 v hv)]
  | obj ms ih =>
    obtain ⟨hnames, hchildren⟩ := (distinct_iff _).mp h
    have hms : collapseMembers [] ms = [] ++ ms :=
      collapseMembers_eq (fun m hm => ih m hm (hchildren _ (List.mem_map_of_mem hm))) hnames
    rw [collapse, hms, List.nil_append]

end Value

/-! ## The grammar -/

/-- `element *( value-separator element )` and the unit that closes the list. -/
inductive Elements {E : Type} (close : CodeUnit) (P : Units → E → Units → Prop) :
    Units → List E → Units → Prop where
  | last {t t₁ t₂ r e} (hw : Ws t t₁) (he : P t₁ e t₂) (hc : Ws t₂ (close :: r)) :
      Elements close P t [e] r
  | more {t t₁ t₂ t₃ r e es} (hw : Ws t t₁) (he : P t₁ e t₂) (hc : Ws t₂ (unit ',' :: t₃))
      (hes : Elements close P t₃ es r) : Elements close P t (e :: es) r

/-- `member = string name-separator value` -/
inductive IsMember {V : Type} (P : Units → V → Units → Prop) :
    Units → Units × V → Units → Prop where
  | mk {t t₁ t₂ t₃ k v r} (hk : IsChars t k t₁) (hc : Ws t₁ (unit ':' :: t₂)) (hw : Ws t₂ t₃)
      (hv : P t₃ v r) : IsMember P (quotationMark :: t) (k, v) r

/-- The literal names. -/
def words : List (Units × Value N) :=
  [(codeUnits "true", .bool true), (codeUnits "false", .bool false), (codeUnits "null", .null)]

/-- `value`: the text at its beginning, the value, and the text behind it. -/
inductive IsValue (read : Units → N) : Units → Value N → Units → Prop where
  | word {w v r} (h : (w, v) ∈ words) : IsValue read (w ++ r) v r
  | num {lit r} (h : IsNumber lit) : IsValue read (lit ++ r) (.num (read lit)) r
  | str {t s r} (h : IsChars t s r) : IsValue read (quotationMark :: t) (.str s) r
  | noItems {t r} (h : Ws t (unit ']' :: r)) : IsValue read (unit '[' :: t) (.arr []) r
  | arr {t vs r} (h : Elements (unit ']') (IsValue read) t vs r) :
      IsValue read (unit '[' :: t) (.arr vs) r
  | noMembers {t r} (h : Ws t (unit '}' :: r)) : IsValue read (unit '{' :: t) (.obj []) r
  | obj {t ms r} (h : Elements (unit '}') (IsMember (IsValue read)) t ms r) :
      IsValue read (unit '{' :: t) (.obj ms) r

/-- `JSON-text = ws value ws` -/
def IsText (read : Units → N) (text : Units) (v : Value N) : Prop :=
  ∃ t r, Ws text t ∧ IsValue read t v r ∧ Ws r []

/-! ## The scanner -/

section Lists

variable {E V : Type} (close : CodeUnit)

/-- The elements up to the closing unit, with fuel for each. -/
def scanElements (p : Units → Option (E × Units)) : Nat → Units → Option (List E × Units)
  | 0, _ => none
  | fuel + 1, t =>
    match p (skipWs t) with
    | none => none
    | some (e, t) =>
      match after close (skipWs t) with
      | some r => some ([e], r)
      | none =>
        match after (unit ',') (skipWs t) with
        | none => none
        | some t => (scanElements p fuel t).map fun x => (e :: x.1, x.2)

/-- The elements between the units that open and close a list. -/
def scanListed (p : Units → Option (E × Units)) (t : Units) : Option (List E × Units) :=
  match after close (skipWs t) with
  | some r => some ([], r)
  | none => scanElements close p t.length t

def scanMember (p : Units → Option (V × Units)) (t : Units) : Option ((Units × V) × Units) :=
  (after quotationMark t).bind fun t =>
    (scanString t).bind fun k =>
      (after (unit ':') (skipWs k.2)).bind fun t =>
        (p (skipWs t)).map fun x => ((k.1, x.1), x.2)

end Lists

/-- The first of these words that the text begins with. -/
def scanWord (ws : List (Units × Value N)) (t : Units) : Option (Value N × Units) :=
  ws.findSome? fun w => (afterWord w.1 t).map fun r => (w.2, r)

/-- The value at the beginning of a text, less than `left` levels deep. -/
def scanValue (read : Units → N) : Nat → Units → Option (Value N × Units)
  | 0, _ => none
  | left + 1, t =>
    match after quotationMark t with
    | some t => (scanString t).map fun x => (.str x.1, x.2)
    | none =>
      match after (unit '{') t with
      | some t =>
        (scanListed (unit '}') (scanMember (scanValue read left)) t).map fun x => (.obj x.1, x.2)
      | none =>
        match after (unit '[') t with
        | some t => (scanListed (unit ']') (scanValue read left) t).map fun x => (.arr x.1, x.2)
        | none =>
          match scanWord words t with
          | some x => some x
          | none => (scanNumber t).map fun x => (.num (read x.1), x.2)

/-- The whole of a text, as it is written. -/
def readText (read : Units → N) (text : Units) : Option (Value N) :=
  match scanValue read (text.length + 1) (skipWs text) with
  | none => none
  | some (v, r) => if skipWs r = [] then some v else none

/-- `JSON.parse(text)`, `none` where it throws. -/
def jsonParse (read : Units → N) (text : Units) : Option (Value N) :=
  (readText read text).map Value.collapse

/-! ## Soundness -/

section Sound

variable {E V : Type} {close : CodeUnit} {P : Units → E → Units → Prop} {Q : E → Prop}
  {p : Units → Option (E × Units)} {t r : Units}

theorem ws_of_skipWs (h : skipWs t = r) : Ws t r := h ▸ ws_skipWs t

theorem scanElements_sound (hp : ∀ t e r, p t = some (e, r) → P t e r ∧ Q e) {fuel : Nat}
    {es : List E} (h : scanElements close p fuel t = some (es, r)) :
    Elements close P t es r ∧ ∀ e ∈ es, Q e := by
  induction fuel generalizing t es with
  | zero => cases h
  | succ fuel ih =>
    rw [scanElements] at h
    split at h
    · cases h
    · next e t₂ he =>
      obtain ⟨hPe, hQe⟩ := hp _ _ _ he
      split at h
      · next u hu =>
        cases h
        refine ⟨.last (ws_skipWs t) hPe (ws_of_skipWs (after_eq_some.mp hu)), ?_⟩
        exact List.forall_mem_singleton.mpr hQe
      split at h
      · cases h
      · next t₃ ht₃ =>
        obtain ⟨x, hx, hxs⟩ := Option.map_eq_some_iff.mp h
        cases hxs
        obtain ⟨hes, hall⟩ := ih hx
        refine ⟨.more (ws_skipWs t) hPe (ws_of_skipWs (after_eq_some.mp ht₃)) hes, ?_⟩
        exact List.forall_mem_cons.mpr ⟨hQe, hall⟩

theorem scanListed_sound (hp : ∀ t e r, p t = some (e, r) → P t e r ∧ Q e) {es : List E}
    (h : scanListed close p t = some (es, r)) :
    (es = [] ∧ Ws t (close :: r) ∨ Elements close P t es r) ∧ ∀ e ∈ es, Q e := by
  rw [scanListed] at h
  split at h
  · next u hu =>
    cases h
    exact ⟨.inl ⟨rfl, ws_of_skipWs (after_eq_some.mp hu)⟩, fun e he => absurd he List.not_mem_nil⟩
  · obtain ⟨hes, hall⟩ := scanElements_sound hp h
    exact ⟨.inr hes, hall⟩

theorem scanMember_sound {P : Units → V → Units → Prop} {Q : V → Prop}
    {p : Units → Option (V × Units)} (hp : ∀ t v r, p t = some (v, r) → P t v r ∧ Q v)
    (t : Units) (m : Units × V) (r : Units) (h : scanMember p t = some (m, r)) :
    IsMember P t m r ∧ Q m.2 := by
  rw [scanMember] at h
  obtain ⟨t', ht, h⟩ := Option.bind_eq_some_iff.mp h
  obtain ⟨⟨k, t₁⟩, hk, h⟩ := Option.bind_eq_some_iff.mp h
  obtain ⟨t₂, hc, h⟩ := Option.bind_eq_some_iff.mp h
  obtain ⟨⟨v, t₃⟩, hv, h⟩ := Option.map_eq_some_iff.mp h
  cases h
  obtain ⟨hPv, hQv⟩ := hp _ _ _ hv
  rw [after_eq_some.mp ht]
  exact ⟨.mk (scanString_eq_some.mp hk) (ws_of_skipWs (after_eq_some.mp hc)) (ws_skipWs t₂) hPv, hQv⟩

theorem scanWord_sound {ws : List (Units × Value N)} {v : Value N}
    (h : scanWord ws t = some (v, r)) : ∃ w, (w, v) ∈ ws ∧ t = w ++ r := by
  obtain ⟨⟨w, v'⟩, hw, h⟩ := List.exists_of_findSome?_eq_some h
  obtain ⟨u, hu, hv⟩ := Option.map_eq_some_iff.mp h
  cases hv
  exact ⟨w, hw, afterWord_eq_some.mp hu⟩

end Sound

theorem plain_word {w : Units} {v : Value N} (h : (w, v) ∈ words) :
    v.children = [] ∧ v.names = [] ∧ ∀ n, v ≠ .num n := by
  simp only [words, List.mem_cons, Prod.mk.injEq, List.not_mem_nil, or_false] at h
  rcases h with ⟨-, rfl⟩ | ⟨-, rfl⟩ | ⟨-, rfl⟩ <;> exact ⟨rfl, rfl, fun n hn => by cases hn⟩

theorem length_word {w : Units} {v : Value N} (h : (w, v) ∈ words) : 0 < w.length := by
  simp only [words, List.mem_cons, Prod.mk.injEq, List.not_mem_nil, or_false] at h
  rcases h with ⟨rfl, -⟩ | ⟨rfl, -⟩ | ⟨rfl, -⟩ <;> decide

/-- **What the scanner finds the grammar derives.** -/
theorem scanValue_sound (read : Units → N) (left : Nat) (t : Units) (v : Value N) (r : Units)
    (h : scanValue read left t = some (v, r)) : IsValue read t v r ∧ v.depth < left := by
  induction left generalizing t v r with
  | zero => cases h
  | succ left ih =>
    rw [scanValue] at h
    split at h
    · next u hu =>
      obtain ⟨x, hx, hxs⟩ := Option.map_eq_some_iff.mp h
      cases hxs
      rw [after_eq_some.mp hu]
      exact ⟨.str (scanString_eq_some.mp hx), Nat.succ_pos _⟩
    split at h
    · next u hu =>
      obtain ⟨x, hx, hxs⟩ := Option.map_eq_some_iff.mp h
      cases hxs
      obtain ⟨hms, hall⟩ := scanListed_sound (scanMember_sound ih) hx
      rw [after_eq_some.mp hu]
      refine ⟨?_, (Value.memberDepth_lt_iff _ _).mpr hall⟩
      rcases hms with ⟨he, hw⟩ | hms
      · rw [he]
        exact .noMembers hw
      · exact .obj hms
    split at h
    · next u hu =>
      obtain ⟨x, hx, hxs⟩ := Option.map_eq_some_iff.mp h
      cases hxs
      obtain ⟨hvs, hall⟩ := scanListed_sound ih hx
      rw [after_eq_some.mp hu]
      refine ⟨?_, (Value.itemDepth_lt_iff _ _).mpr hall⟩
      rcases hvs with ⟨he, hw⟩ | hvs
      · rw [he]
        exact .noItems hw
      · exact .arr hvs
    split at h
    · next u hu =>
      cases h
      obtain ⟨w, hw, rfl⟩ := scanWord_sound hu
      refine ⟨.word hw, ?_⟩
      rw [Value.depth_leaf (plain_word hw).1]
      exact Nat.succ_pos _
    · obtain ⟨x, hx, hxs⟩ := Option.map_eq_some_iff.mp h
      cases hxs
      obtain ⟨rfl, hlit⟩ := scanNumber_sound hx
      exact ⟨.num hlit, Nat.succ_pos _⟩

/-! ## Completeness -/

section Complete

variable {E V : Type} {close c : CodeUnit} {P : Units → E → Units → Prop} {es : List E}
  {t r : Units}

theorem Ws.length_le (h : Ws t r) : r.length ≤ t.length := by
  obtain ⟨w, rfl, -⟩ := h
  rw [List.length_append]
  omega

/-- A unit that whitespace and numbers end before. -/
def Delimits (c : CodeUnit) : Prop :=
  isWs c = false ∧ isDigit c = false ∧ c ≠ unit '.' ∧ c ≠ unit 'e' ∧ c ≠ unit 'E'

theorem Delimits.skipWs_eq (hc : Delimits c) (h : Ws t (c :: r)) : skipWs t = c :: r :=
  h.skipWs_eq (noWs_cons hc.1)

theorem Delimits.numberEnd (hc : Delimits c) (h : Ws t (c :: r)) : NumberEnd t :=
  (numberEnd_cons hc.2).of_ws h

theorem delimits_comma : Delimits (unit ',') := by
  refine ⟨?_, ?_, ?_, ?_, ?_⟩ <;> decide

/-- Elements take room, and each of them less than the list does. -/
theorem Elements.length (h : Elements close P t es r) (size : E → Nat)
    (hP : ∀ e ∈ es, ∀ t r, P t e r → size e + r.length < t.length) :
    es.length + r.length ≤ t.length ∧ ∀ e ∈ es, size e + r.length < t.length := by
  induction h with
  | last hw he hc =>
    have h1 := hw.length_le
    have h2 := hP _ List.mem_cons_self _ _ he
    have h3 := hc.length_le
    rw [List.length_cons] at h3
    refine ⟨by simp only [List.length_cons, List.length_nil]; omega, ?_⟩
    exact List.forall_mem_singleton.mpr (by omega)
  | more hw he hc _ ih =>
    obtain ⟨hlen, hall⟩ := ih fun e he => hP e (List.mem_cons_of_mem _ he)
    have h1 := hw.length_le
    have h2 := hP _ List.mem_cons_self _ _ he
    have h3 := hc.length_le
    rw [List.length_cons] at h3
    refine ⟨by rw [List.length_cons]; omega, List.forall_mem_cons.mpr ⟨by omega, fun e he => ?_⟩⟩
    exact Nat.lt_of_lt_of_le (hall e he) (by omega)

theorem Elements.scan (h : Elements close P t es r) {p : Units → Option (E × Units)}
    (hp : ∀ e ∈ es, ∀ t r, P t e r → NumberEnd r → p t = some (e, r))
    (hws : ∀ t e r, P t e r → NoWs t) (hclose : Delimits close) (hcomma : unit ',' ≠ close)
    {fuel : Nat} (hf : es.length ≤ fuel) : scanElements close p fuel t = some (es, r) := by
  induction h generalizing fuel with
  | last hw he hc =>
    obtain ⟨fuel, rfl⟩ := Nat.exists_eq_succ_of_ne_zero (Nat.ne_of_gt hf)
    rw [scanElements, hw.skipWs_eq (hws _ _ _ he),
      hp _ List.mem_cons_self _ _ he (hclose.numberEnd hc)]
    simp only [hclose.skipWs_eq hc, after_self]
  | more hw he hc _ ih =>
    rw [List.length_cons] at hf
    obtain ⟨fuel, rfl⟩ := Nat.exists_eq_succ_of_ne_zero (Nat.ne_of_gt (Nat.lt_of_succ_le hf |>
      Nat.lt_of_le_of_lt (Nat.zero_le _)))
    rw [scanElements, hw.skipWs_eq (hws _ _ _ he),
      hp _ List.mem_cons_self _ _ he (delimits_comma.numberEnd hc)]
    simp only [delimits_comma.skipWs_eq hc, after_self, after_cons_of_ne _ hcomma,
      ih (fun e he => hp e (List.mem_cons_of_mem _ he)) (Nat.le_of_succ_le_succ hf),
      Option.map_some]

/-- The elements of a list are found between the units that open and close it. -/
theorem Elements.scanListed (h : Elements close P t es r) {p : Units → Option (E × Units)}
    (hp : ∀ e ∈ es, ∀ t r, P t e r → NumberEnd r → p t = some (e, r))
    (hws : ∀ t e r, P t e r → NoWs t ∧ after close t = none) (hclose : Delimits close)
    (hcomma : unit ',' ≠ close) (hlen : es.length ≤ t.length) :
    Rfc8259.scanListed close p t = some (es, r) := by
  have hopen : after close (skipWs t) = none := by
    cases h with
    | last hw he =>
      rw [hw.skipWs_eq (hws _ _ _ he).1]
      exact (hws _ _ _ he).2
    | more hw he =>
      rw [hw.skipWs_eq (hws _ _ _ he).1]
      exact (hws _ _ _ he).2
  rw [Rfc8259.scanListed, hopen]
  exact h.scan hp (fun t e r he => (hws t e r he).1) hclose hcomma hlen

theorem scanListed_none (p : Units → Option (E × Units)) (hclose : Delimits close)
    (h : Ws t (close :: r)) : scanListed close p t = some ([], r) := by
  rw [scanListed, hclose.skipWs_eq h, after_self]

theorem IsMember.scan {P : Units → V → Units → Prop} {p : Units → Option (V × Units)}
    {m : Units × V} (h : IsMember P t m r) (hr : NumberEnd r)
    (hp : ∀ t r, P t m.2 r → NumberEnd r → p t = some (m.2, r)) (hws : ∀ t v r, P t v r → NoWs t) :
    scanMember p t = some (m, r) := by
  obtain ⟨hk, hc, hw, hv⟩ := h
  have hcolon : Delimits (unit ':') := by
    refine ⟨?_, ?_, ?_, ?_, ?_⟩ <;> decide
  rw [scanMember, after_self, Option.bind_some, scanString_eq_some.mpr hk, Option.bind_some,
    hcolon.skipWs_eq hc, after_self, Option.bind_some, hw.skipWs_eq (hws _ _ _ hv),
    hp _ _ hv hr]
  rfl

end Complete

/-- A value begins with a unit that is neither whitespace nor a closing bracket. -/
theorem IsValue.head {read : Units → N} {t r : Units} {v : Value N} (h : IsValue read t v r) :
    ∃ c t', t = c :: t' ∧ isWs c = false ∧ c ≠ unit ']' := by
  cases h with
  | word h =>
    simp only [words, List.mem_cons, Prod.mk.injEq, List.not_mem_nil, or_false] at h
    rcases h with ⟨rfl, -⟩ | ⟨rfl, -⟩ | ⟨rfl, -⟩ <;>
      exact ⟨_, _, rfl, by decide, by decide⟩
  | num h =>
    obtain ⟨c, lit, rfl, hc⟩ := h.head
    exact ⟨c, _, rfl, isWs_number_start hc, ne_of_number_start hc (by decide)⟩
  | str => exact ⟨_, _, rfl, by decide, by decide⟩
  | noItems => exact ⟨_, _, rfl, by decide, by decide⟩
  | arr => exact ⟨_, _, rfl, by decide, by decide⟩
  | noMembers => exact ⟨_, _, rfl, by decide, by decide⟩
  | obj => exact ⟨_, _, rfl, by decide, by decide⟩

theorem IsValue.noWs {read : Units → N} {t r : Units} {v : Value N} (h : IsValue read t v r) :
    NoWs t := by
  obtain ⟨c, t, rfl, hc, -⟩ := h.head
  exact noWs_cons hc

theorem isMember_start {V : Type} {P : Units → V → Units → Prop} {t r : Units} {m : Units × V}
    (h : IsMember P t m r) : NoWs t ∧ after (unit '}') t = none := by
  cases h
  exact ⟨noWs_cons (by decide), after_cons_of_ne _ (by decide)⟩

theorem delimits_bracket : Delimits (unit ']') := by
  refine ⟨?_, ?_, ?_, ?_, ?_⟩ <;> decide

theorem delimits_brace : Delimits (unit '}') := by
  refine ⟨?_, ?_, ?_, ?_, ?_⟩ <;> decide

theorem scanWord_append {w r : Units} {v : Value N} (h : (w, v) ∈ words) :
    scanWord words (w ++ r) = some (v, r) := by
  simp only [words, List.mem_cons, Prod.mk.injEq, List.not_mem_nil, or_false] at h
  rcases h with ⟨rfl, rfl⟩ | ⟨rfl, rfl⟩ | ⟨rfl, rfl⟩ <;> rfl

theorem scanWord_number {c : CodeUnit} (t : Units) (hc : c = unit '-' ∨ isDigit c) :
    scanWord (words (N := N)) (c :: t) = none := by
  have hne {w : Units} (hw : w.head?.any (fun d => d ≠ unit '-' ∧ isDigit d = false) = true) :
      afterWord w (c :: t) = none := by
    cases w with
    | nil => cases hw
    | cons d w =>
      rw [afterWord, if_neg]
      intro h
      exact ne_of_number_start hc (by simpa using hw) (List.cons_prefix_cons.mp h).1.symm
  simp only [scanWord, words, List.findSome?_cons, List.findSome?_nil]
  rw [hne (by decide), hne (by decide), hne (by decide)]
  rfl

/-- A value takes room, and more than it is deep. -/
theorem IsValue.depth_add_length {read : Units → N} {v : Value N} {t r : Units}
    (h : IsValue read t v r) : v.depth + r.length < t.length := by
  suffices hleft : ∀ left (v : Value N) (t r : Units), v.depth < left → IsValue read t v r →
      v.depth + r.length < t.length from hleft _ v t r (Nat.lt_succ_self _) h
  intro left
  induction left with
  | zero => exact fun v t r hv => absurd hv (Nat.not_lt_zero _)
  | succ left ih =>
    intro v t r hv h
    cases h with
    | word h =>
      rw [Value.depth_leaf (plain_word h).1, List.length_append]
      have := length_word h
      omega
    | num h =>
      obtain ⟨c, lit, rfl, -⟩ := h.head
      rw [Value.depth_leaf rfl, List.cons_append, List.length_cons, List.length_append]
      omega
    | str h =>
      have := h.length_lt
      simp only [Value.depth, List.length_cons]
      omega
    | noItems h =>
      have := h.length_le
      simp only [Value.depth, Value.itemDepth, List.length_cons] at this ⊢
      omega
    | noMembers h =>
      have := h.length_le
      simp only [Value.depth, Value.memberDepth, List.length_cons] at this ⊢
      omega
    | @arr t vs r h =>
      have hvs := (Value.itemDepth_lt_iff vs left).mp hv
      obtain ⟨hlen, hall⟩ := h.length Value.depth fun v hv t r => ih v t r (hvs v hv)
      have hdepth := (Value.itemDepth_lt_iff vs (t.length - r.length)).mpr fun v hv => by
        have := hall v hv
        omega
      rw [Value.depth, List.length_cons]
      omega
    | @obj t ms r h =>
      have hms := (Value.memberDepth_lt_iff ms left).mp hv
      obtain ⟨hlen, hall⟩ := h.length (fun m => m.2.depth) fun m hm t r hmem => by
        cases hmem with
        | @mk t t₁ t₂ t₃ k v r hk hc hw hv =>
          have h1 := hk.length_lt
          have h2 := hc.length_le
          have h3 := hw.length_le
          have h4 : v.depth + r.length < t₃.length := ih _ _ _ (hms _ hm) hv
          simp only [List.length_cons] at h2 ⊢
          omega
      have hdepth := (Value.memberDepth_lt_iff ms (t.length - r.length)).mpr fun m hm => by
        have := hall m hm
        omega
      rw [Value.depth, List.length_cons]
      omega

/-- **What the grammar derives the scanner finds.** -/
theorem IsValue.scanValue {read : Units → N} {left : Nat} {v : Value N} {t r : Units}
    (h : IsValue read t v r) (hr : NumberEnd r) (hv : v.depth < left) :
    scanValue read left t = some (v, r) := by
  induction left generalizing v t r with
  | zero => exact absurd hv (Nat.not_lt_zero _)
  | succ left ih =>
    rw [Rfc8259.scanValue]
    cases h with
    | @word w v r h =>
      have hstart : after quotationMark (w ++ r) = none ∧ after (unit '{') (w ++ r) = none ∧
          after (unit '[') (w ++ r) = none := by
        simp only [words, List.mem_cons, Prod.mk.injEq, List.not_mem_nil, or_false] at h
        rcases h with ⟨rfl, -⟩ | ⟨rfl, -⟩ | ⟨rfl, -⟩ <;> exact ⟨rfl, rfl, rfl⟩
      simp only [hstart, scanWord_append h]
    | @num lit r h =>
      have hscan := h.scanNumber_append hr
      obtain ⟨c, lit, rfl, hc⟩ := h.head
      rw [List.cons_append] at hscan ⊢
      have hstart {d : CodeUnit} (hd : d ≠ unit '-' ∧ isDigit d = false) :
          after d (c :: (lit ++ r)) = none := after_cons_of_ne _ (ne_of_number_start hc hd)
      have hq := hstart (d := quotationMark) (by decide)
      have hb := hstart (d := unit '{') (by decide)
      have hs := hstart (d := unit '[') (by decide)
      simp only [hq, hb, hs, scanWord_number _ hc, hscan, Option.map_some]
    | str h => simp only [after_self, scanString_eq_some.mpr h, Option.map_some]
    | @noItems t r h =>
      have hq : after quotationMark (unit '[' :: t) = none := after_cons_of_ne _ (by decide)
      have hb : after (unit '{') (unit '[' :: t) = none := after_cons_of_ne _ (by decide)
      simp only [hq, hb, after_self, scanListed_none _ delimits_bracket h, Option.map_some]
    | @arr t vs r h =>
      have hq : after quotationMark (unit '[' :: t) = none := after_cons_of_ne _ (by decide)
      have hb : after (unit '{') (unit '[' :: t) = none := after_cons_of_ne _ (by decide)
      have hvs := (Value.itemDepth_lt_iff vs left).mp hv
      have hlen := (h.length (fun _ => 0) fun v _ t r hv => by
        have := hv.depth_add_length
        omega).1
      have hscan := h.scanListed (fun v hmem t r hv hr => ih hv hr (hvs v hmem))
        (fun t v r hv => by
          obtain ⟨c, t, rfl, hc, hne⟩ := hv.head
          exact ⟨noWs_cons hc, after_cons_of_ne _ hne⟩) delimits_bracket (by decide) (by omega)
      simp only [hq, hb, after_self, hscan, Option.map_some]
    | @noMembers t r h =>
      have hq : after quotationMark (unit '{' :: t) = none := after_cons_of_ne _ (by decide)
      simp only [hq, after_self, scanListed_none _ delimits_brace h, Option.map_some]
    | @obj t ms r h =>
      have hq : after quotationMark (unit '{' :: t) = none := after_cons_of_ne _ (by decide)
      have hms := (Value.memberDepth_lt_iff ms left).mp hv
      have hlen := (h.length (fun _ => 0) fun m _ t r hm => by
        cases hm with
        | mk hk hc hw hv =>
          have h1 := hk.length_lt
          have h2 := hc.length_le
          have h3 := hw.length_le
          have h4 := hv.depth_add_length
          simp only [List.length_cons] at h2 ⊢
          omega).1
      have hscan := h.scanListed
        (fun m hmem t r hm hr => hm.scan hr (fun t r hv hr => ih hv hr (hms m hmem))
          fun t v r hv => hv.noWs)
        (fun t m r hm => isMember_start hm) delimits_brace (by decide) (by omega)
      simp only [hq, after_self, hscan, Option.map_some]

/-- **A text is read exactly when the grammar derives it.** -/
theorem readText_eq_some {read : Units → N} {text : Units} {v : Value N} :
    readText read text = some v ↔ IsText read text v := by
  rw [readText]
  constructor
  · intro h
    split at h
    · cases h
    · next v' r hv =>
      split at h
      · next hr =>
        cases h
        exact ⟨_, r, ws_skipWs text, (scanValue_sound _ _ _ _ _ hv).1, ws_of_skipWs hr⟩
      · cases h
  · rintro ⟨t, r, hw, hv, hr⟩
    have hlen := hv.depth_add_length
    have hle := hw.length_le
    rw [hw.skipWs_eq hv.noWs, hv.scanValue (numberEnd_nil.of_ws hr) (by omega)]
    have hend : skipWs r = [] := hr.skipWs_eq noWs_nil
    simp only [hend, if_true]

/-- **`JSON.parse` gives the value of the text, with the last member of each name.** -/
theorem jsonParse_eq_some {read : Units → N} {text : Units} {v : Value N} :
    jsonParse read text = some v ↔ ∃ w, IsText read text w ∧ w.collapse = v := by
  simp only [jsonParse, Option.map_eq_some_iff, readText_eq_some]

end Telepty.Infra.Rfc8259
