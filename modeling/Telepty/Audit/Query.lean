import Mathlib.Data.Rat.Floor
import Telepty.Infra.Backward
import Telepty.Infra.JsonPrint
import Telepty.Infra.Lines

/-!
# Queries of the audit log

`readInjectLog` reads the whole log, filters its records and answers with one page of them, the newest
first. The worker of the daemon's reader does the same in blocks from the end of the file, within
budgets, and stops behind the page.

A number of the language is a finite one or none. What the language makes of a text as a number or a
date, how it writes a number, and how it rounds a sum or a product are parameters.
-/

namespace Telepty.Audit

open Infra Rfc8259

/-! ## The language -/

inductive Number where
  | nan
  | minusInfinity
  | infinity
  | finite (q : ℚ)
  deriving DecidableEq

namespace Number

/-- `a < b` -/
def lt : Number → Number → Bool
  | .finite a, .finite b => a < b
  | .minusInfinity, .finite _ => true
  | .minusInfinity, .infinity => true
  | .finite _, .infinity => true
  | _, _ => false

/-- `a <= b` -/
def le : Number → Number → Bool
  | .nan, _ => false
  | a, b => a.lt b || a = b

def truthy : Number → Bool
  | .nan => false
  | .finite q => q ≠ 0
  | _ => true

end Number

/-- `Math.trunc(q)` -/
def truncate (q : ℚ) : Int := if 0 ≤ q then ⌊q⌋ else ⌈q⌉

structure Language where
  /-- `Number(text)` -/
  read : Units → Number
  /-- `String(n)` -/
  print : Number → Units
  /-- `a + b` of finite numbers that have a finite sum -/
  add : ℚ → ℚ → ℚ
  /-- `n * 1000` -/
  thousandfold : ℚ → Number
  /-- `Date.parse(text)`, without a value where that is no number -/
  dateParse : Units → Option ℚ

/-- A value of `JSON.parse`. -/
abbrev Record := Value Number

namespace Language

variable (L : Language)

/-- How `JSON.stringify` writes a number. -/
def printJson : Number → Units
  | .finite q => L.print (.finite q)
  | _ => codeUnits "null"

def encode (v : Record) : Units := stringify L.printJson v

/-- `Number(a) + Number(b)` where `b` is finite -/
def sum : Number → ℚ → Number
  | .finite a, b => .finite (L.add a b)
  | a, _ => a

mutual

/-- `String(value)`; an object whose own `toString` is in the way has no text. -/
def text : Record → Option Units
  | .null => some (codeUnits "null")
  | .bool b => some (codeUnits (if b then "true" else "false"))
  | .num n => some (L.print n)
  | .str s => some s
  | .arr vs => (itemTexts vs).map join
  | .obj ms => if codeUnits "toString" ∈ ms.map Prod.fst then none else some (codeUnits "[object Object]")

def itemTexts : List Record → Option (List Units)
  | [] => some []
  | .null :: vs => (itemTexts vs).map fun ts => [] :: ts
  | v :: vs => (text v).bind fun t => (itemTexts vs).map fun ts => t :: ts

end

end Language

def truthy : Record → Bool
  | .null => false
  | .bool b => b
  | .num n => n.truthy
  | .str s => s ≠ []
  | _ => true

/-- `record.name` -/
def member (name : String) : Record → Option Record
  | .obj ms => (ms.find? fun m => m.1 = codeUnits name).map Prod.snd
  | _ => none

/-- A filter that `scalarFilters` lets through. -/
inductive Scalar where
  | text (t : Units)
  | number (n : Number)
  | bool (b : Bool)

namespace Scalar

def value : Scalar → Record
  | .text t => .str t
  | .number n => .num n
  | .bool b => .bool b

/-- `Number(scalar)` -/
def toNumber (L : Language) : Scalar → Number
  | .text t => L.read t
  | .number n => n
  | .bool b => .finite (if b then 1 else 0)

def truthy (s : Scalar) : Bool := Audit.truthy s.value

/-- `v === scalar` -/
def matches_ : Scalar → Option Record → Bool
  | .text t, some (.str s) => s = t
  | .number n, some (.num m) => m ≠ .nan && m = n
  | .bool b, some (.bool c) => c = b
  | _, _ => false

end Scalar

structure Filters where
  since : Option Scalar
  /-- `until` -/
  before : Option Scalar
  /-- `to` -/
  target : Option Scalar
  /-- `from` -/
  sender : Option Scalar
  spoof : Option Scalar
  limit : Option Scalar
  cursor : Option Scalar

/-- `array.slice(from, to)` takes an index like this. -/
def sliceIndex (n : Number) (length : Nat) : Nat :=
  match n with
  | .infinity => length
  | .finite q =>
    if truncate q < 0 then (length + truncate q).toNat else min (truncate q).toNat length
  | _ => 0

/-- `xs.slice(start, stop)` -/
def slice {α : Type} (xs : List α) (start stop : Number) : List α :=
  (xs.take (sliceIndex stop xs.length)).drop (sliceIndex start xs.length)

/-- The elements that pass a test which may throw. -/
def sift {α : Type} (p : α → Option Bool) : List α → Option (List α)
  | [] => some []
  | x :: xs => (p x).bind fun keep => (sift p xs).map fun rest => if keep then x :: rest else rest

/-! ## The log -/

section

variable (L : Language)

/-- `n < 1e12 ? n * 1000 : n` -/
def milliseconds (n : Number) : Number :=
  if n.lt (.finite 1000000000000) then
    match n with
    | .finite q => L.thousandfold q
    | n => n
  else n

def toMs : Option Record → Option (Option Number)
  | none => some none
  | some .null => some none
  | some (.num n) => some (some (milliseconds L n))
  | some v => (L.text v).map fun t =>
    let s := trimUnits t
    if s ≠ [] ∧ s.all CodeUnit.isDigit then some (milliseconds L (L.read s))
    else (L.dateParse s).map .finite

/-- The records whose time passes a test. -/
def timed (test : Number → Bool) (records : List Record) : Option (List Record) :=
  sift (fun r => (toMs L (member "ts" r)).map fun t => t.any test) records

/-- The records that pass the test of a filter, all of them where it is not set. -/
def chosen (filter : Option Scalar) (test : Scalar → Record → Bool) (records : List Record) :
    List Record :=
  match filter with
  | none => records
  | some s => if s.truthy then records.filter (test s) else records

/-- `to` matches the session or the alias. -/
def isTarget (s : Scalar) (r : Record) : Bool :=
  s.matches_ (member "to" r) || s.matches_ (member "to_alias" r)

/-- `from` matches the claimed or the verified sender. -/
def isSender (s : Scalar) (r : Record) : Bool :=
  s.matches_ (member "claimed_from" r) || s.matches_ (member "verified_sender_sid" r)

def isSuspected (_ : Scalar) (r : Record) : Bool :=
  (Scalar.bool true).matches_ (member "spoof_suspected" r)

def matchInjects (records : List Record) (filters : Filters) : Option (List Record) := do
  let since ← toMs L (filters.since.map Scalar.value)
  let before ← toMs L (filters.before.map Scalar.value)
  let out ← since.elim (some records) fun since => timed L (fun t => since.le t) records
  let out ← before.elim (some out) fun before => timed L (fun t => t.le before) out
  let out := chosen filters.target isTarget out
  let out := chosen filters.sender isSender out
  some (chosen filters.spoof isSuspected out)

/-- `Math.min(Math.max(Number(limit) || 200, 1), 1000)` -/
def limitOf (filters : Filters) : ℚ :=
  match filters.limit.elim .nan (Scalar.toNumber L) with
  | .nan => 200
  | .minusInfinity => 1
  | .infinity => 1000
  | .finite q => if q = 0 then 200 else min (max q 1) 1000

/-- `Number(cursor) > 0 ? Number(cursor) : 0` -/
def cursorOf (filters : Filters) : Number :=
  let n := filters.cursor.elim .nan (Scalar.toNumber L)
  if (Number.finite 0).lt n then n else .finite 0

/-- A line as a record that counts. -/
def recordOf (line : Text) : Option Record := (jsonParse L.read (codeUnits line)).filter truthy

/-- The log, or nothing where it cannot be read. -/
def readInjectLog (raw : Option Bytes) (options : Filters) :
    Option (List Record × Option Number) :=
  match raw with
  | none => some ([], none)
  | some raw =>
    let limit := limitOf L options
    let cursor := cursorOf L options
    let records := (((decodeText raw).splitOn '\n').filter (· ≠ [])).filterMap (recordOf L)
    (matchInjects L records options).map fun out =>
      let filtered := out.reverse
      let stop := L.sum cursor limit
      (slice filtered cursor stop,
        if stop.lt (.finite filtered.length) then some stop else none)

end

/-! ## The filters -/

/-- A pass over a list that takes one part of it after another. -/
def Additive {α : Type} (f : List α → Option (List α)) : Prop :=
  f [] = some [] ∧ ∀ xs ys, f (xs ++ ys) = (f xs).bind fun a => (f ys).map (a ++ ·)

namespace Additive

variable {α : Type} {f g : List α → Option (List α)}

theorem some : Additive (α := α) Option.some := ⟨rfl, fun _ _ => rfl⟩

theorem filter (p : α → Bool) : Additive fun xs => Option.some (xs.filter p) :=
  ⟨rfl, fun xs ys => congrArg Option.some (List.filter_append xs ys)⟩

theorem sift (p : α → Option Bool) : Additive (Audit.sift p) := by
  refine ⟨rfl, fun xs ys => ?_⟩
  induction xs with
  | nil =>
    show Audit.sift p ys = (Audit.sift p ys).map ([] ++ ·)
    cases Audit.sift p ys with
    | none => rfl
    | some b => rfl
  | cons x xs ih =>
    rw [List.cons_append, Audit.sift, Audit.sift, ih]
    cases p x with
    | none => rfl
    | some keep =>
      cases Audit.sift p xs with
      | none => rfl
      | some a =>
        cases Audit.sift p ys with
        | none => rfl
        | some b => cases keep with
          | false => rfl
          | true => rfl

theorem comp (hf : Additive f) (hg : Additive g) : Additive fun xs => (f xs).bind g := by
  constructor
  · show (f []).bind g = Option.some []
    rw [hf.1]
    exact hg.1
  · intro xs ys
    show (f (xs ++ ys)).bind g = ((f xs).bind g).bind fun a => ((f ys).bind g).map (a ++ ·)
    rw [hf.2]
    cases f xs with
    | none => rfl
    | some a =>
      cases f ys with
      | some b => exact hg.2 a b
      | none => cases hg : g a <;> simp [hg]

end Additive

theorem sift_sublist {α : Type} {p : α → Option Bool} {xs out : List α}
    (h : sift p xs = some out) : out.Sublist xs := by
  induction xs generalizing out with
  | nil =>
    cases h
    exact List.Sublist.slnil
  | cons x xs ih =>
    rw [sift] at h
    obtain ⟨keep, -, h⟩ := Option.bind_eq_some_iff.mp h
    obtain ⟨rest, hrest, rfl⟩ := Option.map_eq_some_iff.mp h
    cases keep with
    | true => exact (ih hrest).cons_cons x
    | false => exact (ih hrest).cons x

section

variable {L : Language}

theorem additive_timed (t : Option Number) (test : Number → Number → Bool) :
    Additive fun rs => t.elim (some rs) fun t => timed L (test t) rs := by
  cases t with
  | none => exact .some
  | some t => exact .sift _

theorem additive_chosen (filter : Option Scalar) (test : Scalar → Record → Bool) :
    Additive fun rs => some (chosen filter test rs) := by
  cases filter with
  | none => exact .some
  | some s =>
    cases hs : s.truthy with
    | true =>
      simp only [chosen, hs, if_true]
      exact .filter _
    | false =>
      simp only [chosen, hs, Bool.false_eq_true, if_false]
      exact .some

/-- A filter has a text. -/
theorem toMs_scalar (s : Option Scalar) : ∃ t, toMs L (s.map Scalar.value) = some t := by
  cases s with
  | none => exact ⟨_, rfl⟩
  | some s => cases s <;> exact ⟨_, rfl⟩

theorem additive_matchInjects (filters : Filters) : Additive fun rs => matchInjects L rs filters := by
  obtain ⟨since, hs⟩ := toMs_scalar (L := L) filters.since
  obtain ⟨before, hb⟩ := toMs_scalar (L := L) filters.before
  have hmatch : (fun rs => matchInjects L rs filters) = fun rs =>
      ((since.elim (some rs) fun since => timed L (fun t => since.le t) rs).bind fun rs =>
        before.elim (some rs) fun before => timed L (fun t => t.le before) rs).bind fun rs =>
      some (chosen filters.spoof isSuspected
        (chosen filters.sender isSender (chosen filters.target isTarget rs))) := by
    funext rs
    rw [matchInjects, hs, hb, Option.bind_assoc]
    rfl
  rw [hmatch]
  exact ((additive_timed since fun since t => since.le t).comp
    (additive_timed before fun before t => t.le before)).comp
    (((additive_chosen filters.target isTarget).comp (additive_chosen filters.sender isSender)).comp
      (additive_chosen filters.spoof isSuspected))

theorem matchInjects_nil (filters : Filters) : matchInjects L [] filters = some [] :=
  (additive_matchInjects filters).1

theorem matchInjects_append (filters : Filters) (rs rs' : List Record) :
    matchInjects L (rs ++ rs') filters =
      (matchInjects L rs filters).bind fun a => (matchInjects L rs' filters).map (a ++ ·) :=
  (additive_matchInjects filters).2 rs rs'

theorem chosen_sublist (filter : Option Scalar) (test : Scalar → Record → Bool) (rs : List Record) :
    (chosen filter test rs).Sublist rs := by
  unfold chosen
  split
  · exact .refl _
  split
  · exact List.filter_sublist
  · exact .refl _

theorem matchInjects_sublist {filters : Filters} {rs out : List Record}
    (h : matchInjects L rs filters = some out) : out.Sublist rs := by
  obtain ⟨since, hs, h⟩ := Option.bind_eq_some_iff.mp h
  obtain ⟨before, hb, h⟩ := Option.bind_eq_some_iff.mp h
  obtain ⟨out₁, hout₁, h⟩ := Option.bind_eq_some_iff.mp h
  obtain ⟨out₂, hout₂, h⟩ := Option.bind_eq_some_iff.mp h
  cases h
  have h₁ : out₁.Sublist rs := by
    cases since with
    | none =>
      cases hout₁
      exact .refl _
    | some since => exact sift_sublist hout₁
  have h₂ : out₂.Sublist out₁ := by
    cases before with
    | none =>
      cases hout₂
      exact .refl _
    | some before => exact sift_sublist hout₂
  exact (chosen_sublist _ _ _).trans ((chosen_sublist _ _ _).trans
    ((chosen_sublist _ _ _).trans (h₂.trans h₁)))

end

/-! ## The worker -/

structure Budgets where
  fileBytes : Nat
  chunkBytes : Nat
  lineBytes : Nat
  replyBytes : Nat

/-- `BUDGETS` -/
def budgets : Budgets where
  fileBytes := 64 * 1024 * 1024
  chunkBytes := 64 * 1024
  lineBytes := 256 * 1024
  replyBytes := 2 * 1024 * 1024

/-- Why a query has failed. -/
inductive Reason where
  | fileUnavailable
  | notRegularFile
  | fileBytes
  | lineBytes
  | replyBytes
  | fileChangedDuringRead
  | readFailed
  deriving DecidableEq

/-- What opening the file comes to. The contents are those at each read, or none where it throws. -/
inductive Opened where
  | missing
  | refused
  | opened (regular : Bool) (size : Nat) (contents : Nat → Option Bytes)

structure Page where
  page : List Units
  matched : Nat
  replyBytes : Nat
  next : Option ℚ
  done : Bool

def Page.initial : Page := ⟨[], 0, 64, none, false⟩

section

variable (L : Language) (filters : Filters)

/-- A record that matches is counted, and written if it is one of the page. -/
def Page.add (start stop : Int) (sum : ℚ) (record : Record) (s : Page) : Except Reason Page :=
  let index := s.matched
  let s := { s with matched := index + 1 }
  let written : Except Reason Page :=
    if start ≤ index ∧ index < stop then
      let encoded := L.encode record
      let replyBytes := s.replyBytes + (utf8Length encoded + 1)
      if budgets.replyBytes < replyBytes then .error .replyBytes
      else .ok { s with replyBytes, page := s.page ++ [encoded] }
    else .ok s
  written.map fun s => if sum < s.matched then { s with next := some sum, done := true } else s

def row (start stop : Int) (sum : ℚ) (bytes : Bytes) (s : Page) : Except Reason Page :=
  if budgets.lineBytes < bytes.length then .error .lineBytes
  else if bytes = [] then .ok s
  else
    match recordOf L (decodeText bytes) with
    | none => .ok s
    | some record =>
      match matchInjects L [record] filters with
      | none => .error .readFailed
      | some [] => .ok s
      | some (_ :: _) => s.add L start stop sum record

/-- `readSync(fd, buffer, 0, size, position)` -/
def readSync (contents : Nat → Option Bytes) (k position size : Nat) : Except Reason Bytes :=
  match contents k with
  | none => .error .readFailed
  | some b =>
    if ((b.drop position).take size).length = size then .ok ((b.drop position).take size)
    else .error .fileChangedDuringRead

def checkRest (rest : Bytes) : Except Reason Unit :=
  if budgets.lineBytes < rest.length then .error .lineBytes else .ok ()

/-- What the rows of a page are done with. -/
def rows (cursor : ℚ) : Visitor UInt8 Page Reason where
  visit := row L filters (truncate cursor) (truncate (L.add cursor (limitOf L filters)))
    (L.add cursor (limitOf L filters))
  done := Page.done

def reply (page : List Units) (next : Option ℚ) : Units :=
  codeUnits "\x7b\"injects\":[" ++ (join page ++ (codeUnits "],\"next_cursor\":" ++
    (next.elim (codeUnits "null") (fun q => L.printJson (.finite q)) ++ codeUnits "\x7d")))

def query (file : Opened) : Except Reason Units :=
  match file with
  | .missing => .ok (reply L [] none)
  | .refused => .error .fileUnavailable
  | .opened regular size contents =>
    if regular = false then .error .notRegularFile
    else if budgets.fileBytes < size then .error .fileBytes
    else
      match cursorOf L filters with
      | .finite cursor =>
        ((rows L filters cursor).scan newline budgets.chunkBytes (readSync contents) checkRest
            size 0 size [] Page.initial).bind fun s =>
          if budgets.replyBytes < utf8Length (reply L s.page s.next) then .error .replyBytes
          else .ok (reply L s.page s.next)
      | _ => .ok (reply L [] none)

end

end Telepty.Audit
