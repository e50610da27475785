import Mathlib.Data.List.Infix
import Telepty.Infra.Pieces
import Telepty.Infra.Utf16

/-!
# The output hold of a bridge

`output-hold.js` keeps the last output of a terminal while the owner's transport is away. The text is
held in chunks. A consumer takes units from the front, and what exceeds a limit is trimmed there as
well: the units that are too many, or the oldest chunk.

A trim may end inside a surrogate pair. The half that is left then goes too, so the text that is held
never begins with it.
-/

namespace Telepty.Bridge.OutputHold

open Infra

/-! ## The hold -/

/-- The limits of `createOutputHold`. -/
structure Limits where
  maxChars : Nat
  maxChunks : Nat
  chars_pos : 1 ≤ maxChars
  chunks_pos : 1 ≤ maxChunks

/-- What `createOutputHold` closes over. -/
structure Hold where
  chunks : List Units
  length : Nat
  deriving DecidableEq

def Hold.empty : Hold := ⟨[], 0⟩

/-- `createOutputHold({ maxChars, maxChunks })`; a limit that is no safe integer is `none`. -/
def createOutputHold (maxChars maxChunks : Option Int) : Except Text (Limits × Hold) :=
  let chars := (maxChars.getD 0).toNat
  let chunks := (maxChunks.getD 0).toNat
  if h : 1 ≤ chars ∧ 1 ≤ chunks then .ok (⟨chars, chunks, h.1, h.2⟩, .empty)
  else .error "Invalid output hold limits"

/-- The loop of `consume`: the first `count` units of the chunks go. -/
def dropFront {α : Type} : Nat → List (List α) → List (List α)
  | 0, chunks => chunks
  | _, [] => []
  | count + 1, c :: chunks =>
    if c.length ≤ count + 1 then dropFront (count + 1 - c.length) chunks
    else c.drop (count + 1) :: chunks

/-- `consume(count)`; a count that is no safe integer is `none`. -/
def consume (hold : Hold) (count : Option Int) : Except Text Hold :=
  match count with
  | none => .error "Invalid output hold prefix"
  | some n =>
    if n < 0 ∨ (hold.length : Int) < n then .error "Invalid output hold prefix"
    else .ok ⟨dropFront n.toNat hold.chunks, hold.length - n.toNat⟩

/-- `/^[\uDC00-\uDFFF]/.test(chunks[0])` -/
def startsLow (hold : Hold) : Bool :=
  match hold.chunks with
  | (u :: _) :: _ => u.isLowSurrogate
  | _ => false

def trimPrefix (hold : Hold) (count : Nat) : Except Text Hold := do
  let hold ← consume hold (some count)
  if startsLow hold then consume hold (some 1) else return hold

/-- `while (chunks.length > maxChunks) trimPrefix(chunks[0].length)` -/
def trimChunks (maxChunks : Nat) : Nat → Hold → Except Text Hold
  | 0, hold => .ok hold
  | fuel + 1, hold =>
    match hold.chunks with
    | [] => .ok hold
    | c :: _ =>
      if maxChunks < hold.chunks.length then do trimChunks maxChunks fuel (← trimPrefix hold c.length)
      else .ok hold

/-- Where a push that is too long alone is cut. -/
def cutAt (maxChars : Nat) (data : Units) : Nat :=
  let start := data.length - maxChars
  if (data[start]?.any CodeUnit.isLowSurrogate && data[start - 1]?.any CodeUnit.isHighSurrogate) then
    start + 1
  else start

/-- What is pushed, and what it is pushed to. -/
def clip (l : Limits) (hold : Hold) (data : Units) : Hold × Units :=
  if l.maxChars < data.length then (.empty, data.drop (cutAt l.maxChars data)) else (hold, data)

/-- `if (length > maxChars) trimPrefix(length - maxChars)` -/
def trimUnits (maxChars : Nat) (hold : Hold) : Except Text Hold :=
  if maxChars < hold.length then trimPrefix hold (hold.length - maxChars) else .ok hold

/-- The last part of `push`: the chunk is added, and what is too much is trimmed. -/
def append (l : Limits) (hold : Hold) (data : Units) : Except Text Hold := do
  let hold ← trimUnits l.maxChars ⟨hold.chunks ++ [data], hold.length + data.length⟩
  trimChunks l.maxChunks hold.chunks.length hold

/-- `push(data)`; what is no string is `none`. -/
def push (l : Limits) (hold : Hold) : Option Units → Except Text Hold
  | none => .error "Invalid held output"
  | some data =>
    if data = [] then .ok hold
    else
      let (hold, data) := clip l hold data
      if data = [] then .ok hold else append l hold data

def snapshot (hold : Hold) : Units := hold.chunks.flatten

inductive Op where
  | push (data : Option Units)
  | consume (count : Option Int)
  | clear

/-- The hold after a call; a call that throws leaves it as it was. -/
def step (l : Limits) (hold : Hold) : Op → Hold
  | .push data => (push l hold data).toOption.getD hold
  | .consume count => (consume hold count).toOption.getD hold
  | .clear => .empty

def run (l : Limits) (ops : List Op) : Hold := ops.foldl (step l) .empty

/-! ## What a call removes -/

/-- The text of the pushes since the last clear, after one more call. -/
def pushedBy (pushed : Units) : Op → Units
  | .push data => pushed ++ data.getD []
  | .consume _ => pushed
  | .clear => []

def pushed (ops : List Op) : Units := ops.foldl pushedBy []

def pair (high low : CodeUnit) : Bool := high.isHighSurrogate && low.isLowSurrogate

/-- One overflow: the first `count` units go, and one low surrogate behind them, and no pair is
parted. -/
def Trims (count : Nat) (chunks chunks' : List Units) : Prop :=
  ∃ k, chunks' = dropFront k chunks ∧ ¬Parts pair chunks.flatten k ∧
    (k = count ∨ k = count + 1 ∧ ∃ u, chunks.flatten[count]? = some u ∧ u.isLowSurrogate)

/-- A push: the units that are too many go, then the oldest chunk when there is one too many. -/
def Pushes (l : Limits) (chunks : List Units) (data : Units) (chunks' : List Units) : Prop :=
  let all := chunks ++ [data]
  ∃ mid,
    (if all.flatten.length ≤ l.maxChars then mid = all
      else Trims (all.flatten.length - l.maxChars) all mid) ∧
    if mid.length ≤ l.maxChunks then chunks' = mid
    else Trims (mid.headD []).length mid chunks'

/-- What a call does to a hold. -/
def Does (l : Limits) (hold : Hold) (op : Op) (hold' : Hold) : Prop :=
  match op with
  | .push none => hold' = hold
  | .push (some data) => if data = [] then hold' = hold else Pushes l hold.chunks data hold'.chunks
  | .consume none => hold' = hold
  | .consume (some n) =>
    if 0 ≤ n ∧ n ≤ hold.length then hold'.chunks = dropFront n.toNat hold.chunks else hold' = hold
  | .clear => hold'.chunks = []

/-- The counter is right, no chunk is empty and the limits are kept. -/
structure Sound (l : Limits) (hold : Hold) : Prop where
  length : hold.length = (snapshot hold).length
  nonempty : ∀ c ∈ hold.chunks, c ≠ []
  chars : hold.length ≤ l.maxChars
  chunks : hold.chunks.length ≤ l.maxChunks

/-! ## Dropping from the front -/

section

variable {α : Type} {chunks : List (List α)} {n : Nat}

@[simp] theorem dropFront_zero (chunks : List (List α)) : dropFront 0 chunks = chunks := by
  cases chunks <;> rfl

theorem dropFront_nil (n : Nat) : dropFront n ([] : List (List α)) = [] := by
  cases n <;> rfl

theorem dropFront_cons_of_le {c : List α} (h : c.length ≤ n) :
    dropFront n (c :: chunks) = if n = 0 then c :: chunks else dropFront (n - c.length) chunks := by
  cases n with
  | zero => rfl
  | succ n => simp [dropFront, h]

/-- **What is left is the text behind the first `n` units.** -/
theorem flatten_dropFront (n : Nat) (chunks : List (List α)) :
    (dropFront n chunks).flatten = chunks.flatten.drop n := by
  induction chunks generalizing n with
  | nil => simp [dropFront_nil]
  | cons c chunks ih =>
    cases n with
    | zero => rw [dropFront_zero, List.drop_zero]
    | succ n =>
      rw [dropFront, List.flatten_cons]
      split
      · next h => rw [ih, List.drop_append, List.drop_of_length_le h, List.nil_append]
      · next h =>
        rw [List.flatten_cons, List.drop_append_of_le_length (by omega)]

theorem length_dropFront_le (n : Nat) (chunks : List (List α)) :
    (dropFront n chunks).length ≤ chunks.length := by
  induction chunks generalizing n with
  | nil => exact Nat.le_of_eq (by rw [dropFront_nil])
  | cons c chunks ih =>
    cases n with
    | zero => exact Nat.le_of_eq (by rw [dropFront_zero])
    | succ n =>
      rw [dropFront]
      split
      · exact Nat.le_succ_of_le (ih _)
      · exact Nat.le_refl _

/-- Without its first chunk a list has fewer. -/
theorem length_dropFront_lt {c : List α} (hc : c ≠ []) (hn : c.length ≤ n) :
    (dropFront n (c :: chunks)).length < (c :: chunks).length := by
  have hpos := List.length_pos_of_ne_nil hc
  rw [dropFront_cons_of_le hn, if_neg (by omega)]
  exact Nat.lt_succ_of_le (length_dropFront_le _ _)

theorem ne_nil_of_mem_dropFront (h : ∀ c ∈ chunks, c ≠ []) {c : List α}
    (hc : c ∈ dropFront n chunks) : c ≠ [] := by
  induction chunks generalizing n with
  | nil =>
    rw [dropFront_nil] at hc
    cases hc
  | cons d chunks ih =>
    cases n with
    | zero => exact h c (by rwa [dropFront_zero] at hc)
    | succ n =>
      rw [dropFront] at hc
      split at hc
      · exact ih (fun x hx => h x (List.mem_cons_of_mem _ hx)) hc
      · next hlen =>
        rcases List.mem_cons.mp hc with rfl | hc
        · rw [Ne, List.drop_eq_nil_iff]
          omega
        · exact h c (List.mem_cons_of_mem _ hc)

theorem dropFront_dropFront (m n : Nat) (chunks : List (List α)) :
    dropFront m (dropFront n chunks) = dropFront (n + m) chunks := by
  induction chunks generalizing n with
  | nil => simp [dropFront_nil]
  | cons c chunks ih =>
    cases n with
    | zero => rw [dropFront_zero, Nat.zero_add]
    | succ n =>
      rw [dropFront]
      split
      · next h =>
        rw [ih, dropFront_cons_of_le (by omega), if_neg (by omega)]
        congr 1
        omega
      · next h =>
        cases m with
        | zero => simp [dropFront, h]
        | succ m =>
          rw [dropFront, Nat.add_succ, Nat.succ_add, dropFront]
          rw [List.length_drop]
          split
          · rw [if_pos (by omega)]
            congr 1
            omega
          · rw [if_neg (by omega), List.drop_drop]
            congr 2
            omega

end

/-! ## Trims -/

section

variable {hold hold' : Hold} {chunks : List Units} {count n : Nat} {l : Limits} {data : Units}

/-- A hold is consistent: the counter is right and no chunk is empty. -/
structure Consistent (hold : Hold) : Prop where
  length : hold.length = hold.chunks.flatten.length
  nonempty : ∀ c ∈ hold.chunks, c ≠ []

theorem Consistent.dropFront (h : Consistent hold) (n : Nat) :
    Consistent ⟨dropFront n hold.chunks, hold.length - n⟩ where
  length := by rw [flatten_dropFront, List.length_drop, h.length]
  nonempty _ hc := ne_nil_of_mem_dropFront h.nonempty hc

theorem consume_ok (h : n ≤ hold.length) :
    consume hold (some (n : Int)) = .ok ⟨dropFront n hold.chunks, hold.length - n⟩ := by
  simp only [consume]
  rw [if_neg (by omega), Int.toNat_natCast]

/-- The text that is held begins with a low surrogate. -/
theorem startsLow_iff (h : ∀ c ∈ hold.chunks, c ≠ []) :
    startsLow hold = true ↔ ∃ u, hold.chunks.flatten[0]? = some u ∧ u.isLowSurrogate := by
  unfold startsLow
  rcases hc : hold.chunks with _ | ⟨_ | ⟨u, c⟩, chunks⟩
  · simp
  · exact absurd rfl (h [] (by rw [hc]; exact List.mem_cons_self))
  · simp

theorem Parts.units {t : Units} (h : Parts pair t n) :
    ∃ k x y, n = k + 1 ∧ t[k]? = some x ∧ t[n]? = some y ∧ x.isHighSurrogate ∧ y.isLowSurrogate := by
  obtain ⟨a, x, y, b, rfl, rfl, hxy⟩ := h
  rw [pair, Bool.and_eq_true] at hxy
  exact ⟨a.length, x, y, rfl, by simp, by simp, hxy.1, hxy.2⟩

theorem not_parts_of_not_low {t : Units} (h : ∀ u, t[n]? = some u → u.isLowSurrogate = false) :
    ¬Parts pair t n := by
  intro hp
  obtain ⟨-, -, y, -, -, hy, -, hlow⟩ := Parts.units hp
  rw [h y hy] at hlow
  cases hlow

/-- Behind a low surrogate no pair is parted. -/
theorem not_parts_of_low {t : Units} {u : CodeUnit} (h : t[n]? = some u) (hu : u.isLowSurrogate) :
    ¬Parts pair t (n + 1) := by
  intro hp
  obtain ⟨k, x, -, hk, hx, -, hhigh, -⟩ := Parts.units hp
  cases Nat.succ.inj hk
  rw [h] at hx
  cases hx
  have h1 := (CodeUnit.isHighSurrogate_iff u).mp hhigh
  have h2 := (CodeUnit.isLowSurrogate_iff u).mp hu
  omega

/-- **A trim removes what it has to**, and a low surrogate that it would leave in front. -/
theorem trimPrefix_spec (h : Consistent hold) (hcount : count ≤ hold.length) :
    ∃ hold', trimPrefix hold count = .ok hold' ∧ Consistent hold' ∧
      Trims count hold.chunks hold'.chunks ∧ hold'.length ≤ hold.length - count := by
  have hc := h.dropFront count
  have hstart := startsLow_iff hc.nonempty
  rw [flatten_dropFront, List.getElem?_drop, Nat.add_zero] at hstart
  unfold trimPrefix
  rw [consume_ok hcount]
  simp only [Bind.bind, Except.bind]
  by_cases hs : startsLow ⟨dropFront count hold.chunks, hold.length - count⟩
  · obtain ⟨u, hu, hlow⟩ := hstart.mp hs
    have hlt : count < hold.length := by
      rw [h.length]
      exact (List.getElem?_eq_some_iff.mp hu).1
    rw [if_pos hs, show (1 : Int) = ((1 : Nat) : Int) from rfl, consume_ok (by dsimp only; omega)]
    refine ⟨_, rfl, hc.dropFront 1, ⟨count + 1, dropFront_dropFront 1 count _,
      not_parts_of_low hu hlow, .inr ⟨rfl, u, hu, hlow⟩⟩, Nat.sub_le _ _⟩
  · rw [if_neg hs]
    refine ⟨_, rfl, hc, ⟨count, rfl, not_parts_of_not_low fun u hu => ?_, .inl rfl⟩, Nat.le_refl _⟩
    rw [← Bool.not_eq_true]
    exact fun hlow => hs (hstart.mpr ⟨u, hu, hlow⟩)

theorem Trims.length_le {chunks' : List Units} (h : Trims count chunks chunks') :
    chunks'.length ≤ chunks.length := by
  obtain ⟨k, rfl, -, -⟩ := h
  exact length_dropFront_le _ _

theorem Trims.length_lt {c : Units} {chunks' : List Units} (hc : c ≠ [])
    (h : Trims c.length (c :: chunks) chunks') : chunks'.length < (c :: chunks).length := by
  obtain ⟨k, rfl, -, rfl | ⟨rfl, -⟩⟩ := h
  · exact length_dropFront_lt hc (Nat.le_refl _)
  · exact length_dropFront_lt hc (Nat.le_succ _)

/-- **The chunks that are too many**: at most one, since only one was added. -/
theorem trimChunks_spec (h : Consistent hold) (hlen : hold.chunks.length ≤ l.maxChunks + 1) :
    ∃ hold', trimChunks l.maxChunks hold.chunks.length hold = .ok hold' ∧ Consistent hold' ∧
      hold'.length ≤ hold.length ∧ hold'.chunks.length ≤ l.maxChunks ∧
      if hold.chunks.length ≤ l.maxChunks then hold'.chunks = hold.chunks
      else Trims (hold.chunks.headD []).length hold.chunks hold'.chunks := by
  rcases hc : hold.chunks with _ | ⟨c, chunks⟩
  · refine ⟨hold, rfl, h, Nat.le_refl _, ?_, ?_⟩ <;> simp [hc]
  have hne : c ≠ [] := h.nonempty c (by rw [hc]; exact List.mem_cons_self)
  rw [List.length_cons, trimChunks, hc]
  dsimp only
  by_cases hmany : l.maxChunks < (c :: chunks).length
  · have hcount : c.length ≤ hold.length := by
      rw [h.length, hc, List.flatten_cons, List.length_append]
      omega
    obtain ⟨hold', hok, hcons, htrims, hle⟩ := trimPrefix_spec h hcount
    rw [hc] at htrims hlen
    have hlt := htrims.length_lt hne
    rw [if_pos hmany, hok]
    simp only [Bind.bind, Except.bind]
    have hdone : ∀ fuel, trimChunks l.maxChunks fuel hold' = .ok hold' := by
      intro fuel
      cases fuel with
      | zero => rfl
      | succ fuel =>
        rw [trimChunks]
        split
        · rfl
        · next d ds hd =>
          rw [if_neg]
          omega
    refine ⟨hold', hdone _, hcons, Nat.le_trans hle (Nat.sub_le _ _), by omega, ?_⟩
    rw [if_neg (by rw [List.length_cons] at hmany; omega)]
    exact htrims
  · rw [if_neg hmany]
    refine ⟨hold, rfl, h, Nat.le_refl _, by rw [hc]; omega, ?_⟩
    rw [if_pos (by rw [List.length_cons] at hmany; omega), hc]

/-! ## Pushes -/

/-- **A text that fits** is pushed. -/
theorem append_spec (h : Sound l hold) (hne : data ≠ []) :
    ∃ hold', append l hold data = .ok hold' ∧ Sound l hold' ∧
      Pushes l hold.chunks data hold'.chunks := by
  have hall : Consistent ⟨hold.chunks ++ [data], hold.length + data.length⟩ := by
    refine ⟨by simp [h.length, snapshot], fun c hc => ?_⟩
    rcases List.mem_append.mp hc with hc | hc
    · exact h.nonempty c hc
    · rw [List.mem_singleton.mp hc]
      exact hne
  have hchunks : (hold.chunks ++ [data]).length ≤ l.maxChunks + 1 := by
    have := h.chunks
    rw [List.length_append, List.length_singleton]
    omega
  have htotal : hold.length + data.length = (hold.chunks ++ [data]).flatten.length := hall.length
  -- the units that are too many
  obtain ⟨mid, hmid, hcons, hfits, hunits⟩ : ∃ mid : Hold,
      trimUnits l.maxChars ⟨hold.chunks ++ [data], hold.length + data.length⟩ = .ok mid ∧
      Consistent mid ∧ mid.length ≤ l.maxChars ∧
      if (hold.chunks ++ [data]).flatten.length ≤ l.maxChars then mid.chunks = hold.chunks ++ [data]
      else Trims ((hold.chunks ++ [data]).flatten.length - l.maxChars) (hold.chunks ++ [data])
        mid.chunks := by
    rw [← htotal, trimUnits]
    by_cases hmany : l.maxChars < hold.length + data.length
    · obtain ⟨mid, hok, hcons, htrims, hle⟩ := trimPrefix_spec hall (Nat.sub_le _ l.maxChars)
      refine ⟨mid, by rw [if_pos hmany]; exact hok, hcons, ?_, ?_⟩
      · dsimp only at hle
        omega
      · rw [if_neg (by omega)]
        exact htrims
    · refine ⟨_, if_neg hmany, hall, by dsimp only; omega, ?_⟩
      rw [if_pos (by omega)]
  have hmidChunks : mid.chunks.length ≤ l.maxChunks + 1 := by
    split at hunits
    · rw [hunits]
      exact hchunks
    · exact Nat.le_trans hunits.length_le hchunks
  -- the chunk that is one too many
  obtain ⟨hold', hok, hcons', hle, hfew, htrim⟩ := trimChunks_spec hcons hmidChunks
  refine ⟨hold', ?_, ⟨hcons'.length, hcons'.nonempty, Nat.le_trans hle hfits, hfew⟩, mid.chunks,
    hunits, htrim⟩
  unfold append
  rw [hmid]
  exact hok

theorem dropFront_append_right (hne : ∀ c ∈ chunks, c ≠ []) (n : Nat) (rest : List Units) :
    dropFront (chunks.flatten.length + n) (chunks ++ rest) = dropFront n rest := by
  induction chunks with
  | nil => rw [List.flatten_nil, List.length_nil, Nat.zero_add, List.nil_append]
  | cons c chunks ih =>
    have hpos := List.length_pos_of_ne_nil (hne c List.mem_cons_self)
    rw [List.flatten_cons, List.length_append, List.cons_append, dropFront_cons_of_le (by omega),
      if_neg (by omega), ← ih fun x hx => hne x (List.mem_cons_of_mem _ hx)]
    congr 1
    omega

theorem cutAt_cases (maxChars : Nat) (data : Units) :
    (cutAt maxChars data = data.length - maxChars + 1 ∧
      ∃ u, data[data.length - maxChars]? = some u ∧ u.isLowSurrogate) ∨
    (cutAt maxChars data = data.length - maxChars ∧ ∀ x y,
      data[data.length - maxChars - 1]? = some x → data[data.length - maxChars]? = some y →
      x.isHighSurrogate → ¬y.isLowSurrogate) := by
  unfold cutAt
  dsimp only
  split
  · next h =>
    rw [Bool.and_eq_true, Option.any_eq_true] at h
    obtain ⟨⟨u, hu, hlow⟩, -⟩ := h
    exact .inl ⟨rfl, u, hu, hlow⟩
  · next h =>
    refine .inr ⟨rfl, fun x y hx hy hhigh hlow => h ?_⟩
    rw [hx, hy, Option.any_some, Option.any_some, hhigh, hlow]
    rfl

/-- **A text that is too long alone** is cut, and nothing else is left. -/
theorem trims_clip (h : Sound l hold) (hlong : l.maxChars < data.length) :
    Trims ((hold.chunks ++ [data]).flatten.length - l.maxChars) (hold.chunks ++ [data])
      (dropFront (cutAt l.maxChars data) [data]) := by
  have hflat : (hold.chunks ++ [data]).flatten = hold.chunks.flatten ++ data := by simp
  have hexcess : (hold.chunks ++ [data]).flatten.length - l.maxChars =
      hold.chunks.flatten.length + (data.length - l.maxChars) := by
    rw [hflat, List.length_append]
    omega
  have hget : ∀ k, (hold.chunks.flatten ++ data)[hold.chunks.flatten.length + k]? = data[k]? :=
    fun k => by rw [List.getElem?_append_right (Nat.le_add_right _ _), Nat.add_sub_cancel_left]
  rw [hexcess]
  refine ⟨hold.chunks.flatten.length + cutAt l.maxChars data,
    (dropFront_append_right h.nonempty _ [data]).symm, ?_, ?_⟩
  · rw [hflat]
    rcases cutAt_cases l.maxChars data with ⟨hcut, u, hu, hlow⟩ | ⟨hcut, hno⟩
    · rw [hcut, ← Nat.add_assoc]
      exact not_parts_of_low (by rw [hget, hu]) hlow
    · rw [hcut]
      intro hp
      obtain ⟨k, x, y, hk, hx, hy, hhigh, hlow⟩ := Parts.units hp
      have hk' : k = hold.chunks.flatten.length + (data.length - l.maxChars - 1) := by omega
      rw [hk', hget] at hx
      rw [hget] at hy
      exact hno x y hx hy hhigh hlow
  · rcases cutAt_cases l.maxChars data with ⟨hcut, u, hu, hlow⟩ | ⟨hcut, -⟩
    · exact .inr ⟨by rw [hcut, Nat.add_assoc], u, by rw [hflat, hget, hu], hlow⟩
    · exact .inl (by rw [hcut])

theorem dropFront_singleton (hn : n ≠ 0) :
    dropFront n [data] = if data.drop n = [] then [] else [data.drop n] := by
  obtain ⟨k, rfl⟩ := Nat.exists_eq_succ_of_ne_zero hn
  rw [dropFront]
  by_cases h : data.length ≤ k + 1
  · rw [if_pos h, if_pos (List.drop_eq_nil_iff.mpr h), dropFront_nil]
  · rw [if_neg h, if_neg (by rw [List.drop_eq_nil_iff]; omega)]

/-- **A push never throws.** -/
theorem push_spec (h : Sound l hold) (hne : data ≠ []) :
    ∃ hold', push l hold (some data) = .ok hold' ∧ Sound l hold' ∧
      Pushes l hold.chunks data hold'.chunks := by
  unfold push
  dsimp only
  rw [if_neg hne]
  by_cases hlong : l.maxChars < data.length
  · have hclip : clip l hold data = (.empty, data.drop (cutAt l.maxChars data)) := if_pos hlong
    have htrims := trims_clip h hlong
    have hcut : cutAt l.maxChars data ≠ 0 := by
      rcases cutAt_cases l.maxChars data with ⟨hcut, -⟩ | ⟨hcut, -⟩ <;> omega
    have hmany : ¬(hold.chunks ++ [data]).flatten.length ≤ l.maxChars := by
      simp
      omega
    rw [dropFront_singleton hcut] at htrims
    rw [hclip]
    dsimp only
    split
    · next hnil =>
      rw [if_pos hnil] at htrims
      refine ⟨.empty, rfl, ⟨rfl, by simp [Hold.empty], Nat.zero_le _, Nat.zero_le _⟩, [], ?_, ?_⟩
      · rw [if_neg hmany]
        exact htrims
      · rw [if_pos (show ([] : List Units).length ≤ l.maxChunks from Nat.zero_le _), Hold.empty]
    · next hsome =>
      rw [if_neg hsome] at htrims
      obtain ⟨hold', hok, hsound, mid, hmid, hlast⟩ :=
        append_spec (show Sound l .empty from
          ⟨rfl, by simp [Hold.empty], Nat.zero_le _, Nat.zero_le _⟩) hsome
      have hshort : (Hold.empty.chunks ++ [data.drop (cutAt l.maxChars data)]).flatten.length ≤
          l.maxChars := by
        have : data.length - l.maxChars ≤ cutAt l.maxChars data := by
          rcases cutAt_cases l.maxChars data with ⟨hcut, -⟩ | ⟨hcut, -⟩ <;> omega
        simp [Hold.empty]
        omega
      rw [if_pos hshort] at hmid
      subst hmid
      refine ⟨hold', hok, hsound, [data.drop (cutAt l.maxChars data)], ?_, hlast⟩
      rw [if_neg hmany]
      exact htrims
  · have hclip : clip l hold data = (hold, data) := if_neg hlong
    rw [hclip]
    dsimp only
    rw [if_neg hne]
    exact append_spec h hne

/-! ## Every run -/

theorem step_spec (h : Sound l hold) (op : Op) :
    Sound l (step l hold op) ∧ Does l hold op (step l hold op) := by
  cases op with
  | push data =>
    cases data with
    | none => exact ⟨h, rfl⟩
    | some data =>
      by_cases hne : data = []
      · have hstep : step l hold (.push (some data)) = hold := by
          simp [step, push, hne, Except.toOption]
        rw [hstep, Does, if_pos hne]
        exact ⟨h, rfl⟩
      · obtain ⟨hold', hok, hsound, hpush⟩ := push_spec h hne
        have hstep : step l hold (.push (some data)) = hold' := by
          simp [step, hok, Except.toOption]
        rw [hstep, Does, if_neg hne]
        exact ⟨hsound, hpush⟩
  | consume count =>
    cases count with
    | none => exact ⟨h, rfl⟩
    | some n =>
      by_cases hn : 0 ≤ n ∧ n ≤ hold.length
      · obtain ⟨k, rfl⟩ := Int.eq_ofNat_of_zero_le hn.1
        have hk : k ≤ hold.length := by omega
        have hstep : step l hold (.consume (some (k : Int))) =
            ⟨dropFront k hold.chunks, hold.length - k⟩ := by
          rw [step, consume_ok hk]
          rfl
        have hcons := Consistent.dropFront ⟨h.length, h.nonempty⟩ k
        rw [hstep, Does, if_pos hn, Int.toNat_natCast]
        exact ⟨⟨hcons.length, hcons.nonempty, Nat.le_trans (Nat.sub_le _ _) h.chars,
          Nat.le_trans (length_dropFront_le _ _) h.chunks⟩, rfl⟩
      · have hstep : step l hold (.consume (some n)) = hold := by
          rw [step, consume, if_pos (by omega)]
          rfl
        rw [hstep, Does, if_neg hn]
        exact ⟨h, rfl⟩
  | clear => exact ⟨⟨rfl, by simp [step, Hold.empty], Nat.zero_le _, Nat.zero_le _⟩, rfl⟩

theorem run_concat (l : Limits) (ops : List Op) (op : Op) :
    run l (ops ++ [op]) = step l (run l ops) op := by
  rw [run, List.foldl_append]
  rfl

theorem run_sound (l : Limits) (ops : List Op) : Sound l (run l ops) := by
  induction ops using List.reverseRecOn with
  | nil => exact ⟨rfl, by simp [run, Hold.empty], Nat.zero_le _, Nat.zero_le _⟩
  | append_singleton ops op ih =>
    rw [run_concat]
    exact (step_spec ih op).1

theorem Trims.suffix {chunks' : List Units} (h : Trims count chunks chunks') :
    chunks'.flatten <:+ chunks.flatten := by
  obtain ⟨k, rfl, -, -⟩ := h
  rw [flatten_dropFront]
  exact List.drop_suffix _ _

theorem Pushes.suffix {chunks' : List Units} (h : Pushes l chunks data chunks') :
    chunks'.flatten <:+ chunks.flatten ++ data := by
  obtain ⟨mid, hmid, hlast⟩ := h
  have h1 : mid.flatten <:+ chunks.flatten ++ data := by
    have hflat : (chunks ++ [data]).flatten = chunks.flatten ++ data := by simp
    rw [← hflat]
    split at hmid
    · exact hmid ▸ List.suffix_refl _
    · exact hmid.suffix
  split at hlast
  · rw [hlast]
    exact h1
  · exact hlast.suffix.trans h1

/-- **A hold keeps a suffix of what was pushed.** In every run the snapshot is a suffix of the text
pushed since the last clear, the counter is its length and the limits are kept; and each call removes
only what it says: a consumer its prefix, an overflow the units that are too many or the oldest
chunk, with at most one low surrogate more, so that no pair is parted. -/
theorem hold_clean_suffix (l : Limits) (ops : List Op) :
    snapshot (run l ops) <:+ pushed ops ∧ (run l ops).length = (snapshot (run l ops)).length ∧
      (run l ops).length ≤ l.maxChars ∧ (run l ops).chunks.length ≤ l.maxChunks ∧
      ∀ op, Does l (run l ops) op (step l (run l ops) op) := by
  have hsound := run_sound l ops
  refine ⟨?_, hsound.length, hsound.chars, hsound.chunks, fun op => (step_spec hsound op).2⟩
  induction ops using List.reverseRecOn with
  | nil => exact List.suffix_refl _
  | append_singleton ops op ih =>
    have ih := ih (run_sound l ops)
    have hdoes := (step_spec (run_sound l ops) op).2
    rw [run_concat]
    have hpushed : pushed (ops ++ [op]) = pushedBy (pushed ops) op := by
      rw [pushed, List.foldl_append]
      rfl
    rw [hpushed]
    have hsuffix : ∀ {t u : Units}, t <:+ pushed ops → t ++ u <:+ pushed ops ++ u := by
      rintro t u ⟨x, hx⟩
      exact ⟨x, by rw [← List.append_assoc, hx]⟩
    cases op with
    | push data =>
      cases data with
      | none =>
        rw [pushedBy, Option.getD_none, List.append_nil]
        exact ih
      | some data =>
        rw [Does] at hdoes
        split at hdoes
        · next hnil =>
          rw [hdoes, hnil, pushedBy, Option.getD_some, List.append_nil]
          exact ih
        · exact hdoes.suffix.trans (hsuffix ih)
    | consume count =>
      cases count with
      | none => exact ih
      | some n =>
        rw [Does] at hdoes
        split at hdoes
        · rw [snapshot, hdoes, flatten_dropFront]
          exact (List.drop_suffix _ _).trans ih
        · rw [hdoes]
          exact ih
    | clear => exact List.suffix_refl _

end

end Telepty.Bridge.OutputHold
