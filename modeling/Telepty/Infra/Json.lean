import Telepty.Infra.Text

/-!
# JSON values and their text

`Json.stringify` is `JSON.stringify(v)` and `Json.parse` is `JSON.parse(t)`. Numbers are integers: a
text with a fraction or an exponent is refused. An object is the list of its members; the parser
keeps them as written and `field` answers the last one of a name, as JavaScript does.

The parser takes fuel, one unit for each character of the text.
-/

namespace Telepty.Infra

inductive Json where
  | null
  | bool (b : Bool)
  | num (n : Int)
  | str (s : Text)
  | arr (items : List Json)
  | obj (members : List (Text × Json))
  deriving Inhabited

namespace Json

/-! ## Objects -/

def lookup (k : Text) : List (Text × Json) → Option Json
  | [] => none
  | (a, v) :: rest =>
    match lookup k rest with
    | some w => some w
    | none => if a = k then some v else none

/-- `j.k`, `none` for `undefined`. -/
def field (j : Json) (k : Text) : Option Json :=
  match j with
  | .obj members => lookup k members
  | _ => none

def setMember (k : Text) (v : Json) (members : List (Text × Json)) : List (Text × Json) :=
  if k ∈ members.map Prod.fst then members.map fun e => if e.1 = k then (e.1, v) else e
  else members ++ [(k, v)]

/-- `{ ...j, [k]: v }` -/
def set (j : Json) (k : Text) (v : Json) : Json :=
  match j with
  | .obj members => .obj (setMember k v members)
  | _ => .obj [(k, v)]

/-- `const { [k]: _, ...rest } = j` -/
def erase (j : Json) (k : Text) : Json :=
  match j with
  | .obj members => .obj (members.filter fun e => e.1 ≠ k)
  | j => j

def asText : Json → Option Text
  | .str s => some s
  | _ => none

def asList : Json → Option (List Json)
  | .arr items => some items
  | _ => none

/-- `Number(j) || 0` for the values that occur: a number, a boolean, the text of a number. -/
def toNumber : Json → Int
  | .num n => n
  | .bool true => 1
  | .str s => (parseNat s).elim 0 Int.ofNat
  | _ => 0

def isObject : Json → Bool
  | .obj _ => true
  | _ => false

/-- The text of a member, `[]` where it is no text. -/
def textField (j : Json) (k : Text) : Text := ((j.field k).bind asText).getD []

/-- A member as `Number(j.k) || 0`, negative numbers cut off. -/
def natField (j : Json) (k : Text) : Nat := ((j.field k).elim 0 toNumber).toNat

@[simp] theorem lookup_append (k : Text) (l l' : List (Text × Json)) :
    lookup k (l ++ l') = (lookup k l').or (lookup k l) := by
  induction l with
  | nil => simp [lookup]
  | cons e l ih =>
    rw [List.cons_append, lookup, ih, lookup]
    cases lookup k l' <;> simp

theorem lookup_eq_none_of_not_mem {k : Text} {l : List (Text × Json)}
    (h : k ∉ l.map Prod.fst) : lookup k l = none := by
  induction l with
  | nil => rfl
  | cons e l ih =>
    rw [List.map_cons, List.mem_cons, not_or] at h
    rw [lookup, ih h.2, if_neg (Ne.symm h.1)]

theorem lookup_map_self {k : Text} (v : Json) {l : List (Text × Json)} (h : k ∈ l.map Prod.fst) :
    lookup k (l.map fun e => if e.1 = k then (e.1, v) else e) = some v := by
  induction l with
  | nil => simp at h
  | cons e l ih =>
    rw [List.map_cons, List.mem_cons] at h
    rw [List.map_cons, lookup]
    by_cases hl : k ∈ l.map Prod.fst
    · rw [ih hl]
    · have he : e.1 = k := (h.resolve_right hl).symm
      rw [lookup_eq_none_of_not_mem, if_pos he, if_pos he]
      rw [List.map_map]
      rwa [show (Prod.fst ∘ fun e : Text × Json => if e.1 = k then (e.1, v) else e) = Prod.fst from
        funext fun e => by simp only [Function.comp]; split <;> rfl]

theorem lookup_map_of_ne {k j : Text} (v : Json) (l : List (Text × Json)) (h : j ≠ k) :
    lookup j (l.map fun e => if e.1 = k then (e.1, v) else e) = lookup j l := by
  induction l with
  | nil => rfl
  | cons e l ih =>
    rw [List.map_cons, lookup, ih, lookup]
    by_cases he : e.1 = k
    · rw [if_pos he, if_neg (he ▸ Ne.symm h), if_neg (he ▸ Ne.symm h)]
    · rw [if_neg he]

variable (k : Text) (v : Json) (j : Json)

@[simp] theorem field_set_self : (j.set k v).field k = some v := by
  cases j with
  | obj members =>
    rw [set, field, setMember]
    split
    · next h => exact lookup_map_self v h
    · simp [lookup]
  | _ => simp [set, field, lookup]

theorem field_set_of_ne {k k' : Text} (h : k' ≠ k) : (j.set k v).field k' = j.field k' := by
  cases j with
  | obj members =>
    rw [set, field, field, setMember]
    split
    · exact lookup_map_of_ne v members h
    · simp [lookup, Ne.symm h]
  | _ => simp [set, field, lookup, Ne.symm h]

@[simp] theorem textField_set_self (s : Text) : (j.set k (.str s)).textField k = s := by
  rw [textField, field_set_self]
  rfl

theorem textField_set_of_ne {k k' : Text} (h : k' ≠ k) :
    (j.set k v).textField k' = j.textField k' := by
  rw [textField, field_set_of_ne v j h, textField]

/-! ## Rendering -/

def hexDigit (n : Nat) : Char := Char.ofNat (if n < 10 then 0x30 + n else 0x57 + n)

def escapeChar (c : Char) : Text :=
  if c = '"' then ['\\', '"']
  else if c = '\\' then ['\\', '\\']
  else if c.toNat = 0x08 then ['\\', 'b']
  else if c.toNat = 0x0C then ['\\', 'f']
  else if c.toNat = 0x0A then ['\\', 'n']
  else if c.toNat = 0x0D then ['\\', 'r']
  else if c.toNat = 0x09 then ['\\', 't']
  else if c.toNat < 0x20 then
    ['\\', 'u', '0', '0', hexDigit (c.toNat / 16), hexDigit (c.toNat % 16)]
  else [c]

def quote (s : Text) : Text := '"' :: s.flatMap escapeChar ++ ['"']

def numText (n : Int) : Text := if n < 0 then '-' :: natText n.natAbs else natText n.natAbs

mutual

def stringify : Json → Text
  | .null => ['n', 'u', 'l', 'l']
  | .bool true => ['t', 'r', 'u', 'e']
  | .bool false => ['f', 'a', 'l', 's', 'e']
  | .num n => numText n
  | .str s => quote s
  | .arr [] => ['[', ']']
  | .arr (x :: xs) => '[' :: stringify x ++ stringifyItems xs
  | .obj [] => ['{', '}']
  | .obj ((k, v) :: ms) => '{' :: quote k ++ ':' :: stringify v ++ stringifyMembers ms

def stringifyItems : List Json → Text
  | [] => [']']
  | x :: xs => ',' :: stringify x ++ stringifyItems xs

def stringifyMembers : List (Text × Json) → Text
  | [] => ['}']
  | (k, v) :: ms => ',' :: quote k ++ ':' :: stringify v ++ stringifyMembers ms

end

/-! ## Parsing -/

def isWs (c : Char) : Bool := c = ' ' ∨ c = '\n' ∨ c = '\r' ∨ c = '\t'

def skipWs : Text → Text
  | [] => []
  | c :: t => if isWs c then skipWs t else c :: t

def hexValue (c : Char) : Option Nat :=
  if '0' ≤ c ∧ c ≤ '9' then some (c.toNat - 0x30)
  else if 'a' ≤ c ∧ c ≤ 'f' then some (c.toNat - 0x57)
  else if 'A' ≤ c ∧ c ≤ 'F' then some (c.toNat - 0x37)
  else none

def hex4 (a b c d : Char) : Option Nat := do
  let a ← hexValue a
  let b ← hexValue b
  let c ← hexValue c
  let d ← hexValue d
  return 4096 * a + 256 * b + 16 * c + d

/-- What follows a backslash; a surrogate is only read as the first half of a pair. -/
def unescape : Text → Option (Char × Text)
  | '"' :: t => some ('"', t)
  | '\\' :: t => some ('\\', t)
  | '/' :: t => some ('/', t)
  | 'b' :: t => some (Char.ofNat 0x08, t)
  | 'f' :: t => some (Char.ofNat 0x0C, t)
  | 'n' :: t => some (Char.ofNat 0x0A, t)
  | 'r' :: t => some (Char.ofNat 0x0D, t)
  | 't' :: t => some (Char.ofNat 0x09, t)
  | 'u' :: a :: b :: c :: d :: t =>
    match hex4 a b c d with
    | none => none
    | some n =>
      if n < 0xD800 ∨ 0xDFFF < n then some (Char.ofNat n, t)
      else if n < 0xDC00 then
        match t with
        | '\\' :: 'u' :: a :: b :: c :: d :: t =>
          match hex4 a b c d with
          | none => none
          | some m =>
            if 0xDC00 ≤ m ∧ m ≤ 0xDFFF then
              some (Char.ofNat (0x10000 + 0x400 * (n - 0xD800) + (m - 0xDC00)), t)
            else none
        | _ => none
      else none
  | _ => none

/-- The characters up to the closing quote, and what follows it. -/
def scanString : Nat → Text → Option (Text × Text)
  | 0, _ => none
  | _ + 1, [] => none
  | fuel + 1, c :: t =>
    if c = '"' then some ([], t)
    else if c = '\\' then
      match unescape t with
      | none => none
      | some (c, t) => (scanString fuel t).map fun (s, t) => (c :: s, t)
    else if c.toNat < 0x20 then none
    else (scanString fuel t).map fun (s, t) => (c :: s, t)

def spanDigits : Text → Text × Text
  | [] => ([], [])
  | c :: t => if c.isDigit then (c :: (spanDigits t).1, (spanDigits t).2) else ([], c :: t)

/-- The digits at the head of a text, which must be the decimal numeral of their value: a leading
zero is refused. -/
def scanNat (t : Text) : Option (Nat × Text) :=
  match parseNat (spanDigits t).1 with
  | some n => if natText n = (spanDigits t).1 then some (n, (spanDigits t).2) else none
  | none => none

def scanNumber : Text → Option (Int × Text)
  | '-' :: t => (scanNat t).map fun (n, rest) => (-(n : Int), rest)
  | t => (scanNat t).map fun (n, rest) => ((n : Int), rest)

/-- A member name and its colon. -/
def scanKey (fuel : Nat) (t : Text) : Option (Text × Text) :=
  match skipWs t with
  | '"' :: t =>
    match scanString fuel t with
    | none => none
    | some (k, t) =>
      match skipWs t with
      | ':' :: t => some (k, t)
      | _ => none
  | _ => none

mutual

def parseValue : Nat → Text → Option (Json × Text)
  | 0, _ => none
  | fuel + 1, t =>
    match skipWs t with
    | 'n' :: 'u' :: 'l' :: 'l' :: t => some (.null, t)
    | 't' :: 'r' :: 'u' :: 'e' :: t => some (.bool true, t)
    | 'f' :: 'a' :: 'l' :: 's' :: 'e' :: t => some (.bool false, t)
    | '"' :: t => (scanString fuel t).map fun (s, t) => (.str s, t)
    | '[' :: t =>
      match skipWs t with
      | ']' :: t => some (.arr [], t)
      | t =>
        match parseValue fuel t with
        | none => none
        | some (x, t) => (parseItems fuel t).map fun (xs, t) => (.arr (x :: xs), t)
    | '{' :: t =>
      match skipWs t with
      | '}' :: t => some (.obj [], t)
      | t =>
        match scanKey fuel t with
        | none => none
        | some (k, t) =>
          match parseValue fuel t with
          | none => none
          | some (v, t) => (parseMembers fuel t).map fun (ms, t) => (.obj ((k, v) :: ms), t)
    | t => (scanNumber t).map fun (n, t) => (.num n, t)

def parseItems : Nat → Text → Option (List Json × Text)
  | 0, _ => none
  | fuel + 1, t =>
    match skipWs t with
    | ']' :: t => some ([], t)
    | ',' :: t =>
      match parseValue fuel t with
      | none => none
      | some (x, t) => (parseItems fuel t).map fun (xs, t) => (x :: xs, t)
    | _ => none

def parseMembers : Nat → Text → Option (List (Text × Json) × Text)
  | 0, _ => none
  | fuel + 1, t =>
    match skipWs t with
    | '}' :: t => some ([], t)
    | ',' :: t =>
      match scanKey fuel t with
      | none => none
      | some (k, t) =>
        match parseValue fuel t with
        | none => none
        | some (v, t) => (parseMembers fuel t).map fun (ms, t) => ((k, v) :: ms, t)
    | _ => none

end

def parse (t : Text) : Option Json :=
  match parseValue (t.length + 1) t with
  | some (v, rest) => if skipWs rest = [] then some v else none
  | none => none

end Json

end Telepty.Infra
