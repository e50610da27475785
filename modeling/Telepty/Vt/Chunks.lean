import Telepty.Infra.Pieces
import Telepty.Vt.Screen

/-!
# The pump neither cuts nor loses

Over every run of a screen: the strings that a generation passes to `write` join to what it accepted
so far, each is short enough, and none ends inside a surrogate pair of an output. The two halves of a
pair that come in two outputs may be passed in two strings; the emulator joins them.

`Sound` is the invariant of a generation between two events, `Kept` the part of it that also holds
inside one.
-/

namespace Telepty.Vt

open Infra

/-- The two halves of a surrogate pair. -/
def pair (high low : CodeUnit) : Bool := high.isHighSurrogate && low.isLowSurrogate

/-! ## The queue -/

/-- The text of an output. -/
def Op.text : Op → Option Units
  | .output data _ _ => some data
  | _ => none

/-- What of the accepted texts is left in a queue. -/
def outputs (queue : List Op) : List Units := queue.filterMap Op.text

/-- The outputs of a queue are marked with the positions they end at, from the position `n` on. -/
def Stamped : Nat → List Op → Prop
  | _, [] => True
  | n, .output data units mark :: queue =>
    data ≠ [] ∧ units = data.length ∧ mark = n + data.length ∧ Stamped (n + data.length) queue
  | n, .resize _ :: queue => Stamped n queue
  | n, .dropped _ :: queue => Stamped n queue

variable {n m : Nat} {queue : List Op} {text data : Units}

theorem stamped_push (h : Stamped n queue) (hdata : data ≠ [])
    (hm : m = n + (outputs queue).flatten.length + data.length) :
    Stamped n (queue ++ [.output data data.length m]) := by
  induction queue generalizing n with
  | nil => exact ⟨hdata, rfl, hm, trivial⟩
  | cons op queue ih =>
    cases op with
    | output d units mark =>
      obtain ⟨hne, hunits, hmark, hrest⟩ := h
      refine ⟨hne, hunits, hmark, ih hrest ?_⟩
      rw [hm]
      simp only [outputs, List.filterMap_cons, Op.text, List.flatten_cons, List.length_append]
      omega
    | resize r => exact ih h hm
    | dropped d => exact ih h hm

theorem stamped_append (h : Stamped n queue) {op : Op} (hop : op.isOutput = false) :
    Stamped n (queue ++ [op]) := by
  induction queue generalizing n with
  | nil =>
    cases op with
    | output d units mark => cases hop
    | resize r => trivial
    | dropped d => trivial
  | cons op' queue ih =>
    cases op' with
    | output d units mark => exact ⟨h.1, h.2.1, h.2.2.1, ih h.2.2.2⟩
    | resize r => exact ih h
    | dropped d => exact ih h

/-! ## Filling a chunk -/

/-- A cut of an output that does not fit parts no pair. -/
theorem safeSplitIndex_spec {room : Nat} (hroom : 0 < room) (h : room < data.length) :
    safeSplitIndex data room ≤ room ∧
      ∀ x ∈ (data.take (safeSplitIndex data room)).getLast?,
        ∀ y ∈ (data.drop (safeSplitIndex data room)).head?, pair x y = false := by
  have hlt : room - 1 < data.length := by omega
  rw [safeSplitIndex, if_neg (by omega)]
  have hget : data[room - 1]? = some data[room - 1] := List.getElem?_eq_getElem hlt
  split
  · next hhigh =>
    obtain ⟨code, hcode, hsur⟩ := hhigh.2
    refine ⟨Nat.sub_le _ _, fun x _ y hy => ?_⟩
    rw [List.head?_drop] at hy
    rw [hy] at hcode
    obtain rfl := Option.some.inj hcode
    -- a unit that is the first half of a pair is no second half
    have hlow : y.isLowSurrogate = false := by
      rw [← Bool.not_eq_true, CodeUnit.isLowSurrogate_iff]
      rw [CodeUnit.isHighSurrogate_iff] at hsur
      omega
    rw [pair, hlow, Bool.and_false]
  · next hhigh =>
    refine ⟨Nat.le_refl _, fun x hx y _ => ?_⟩
    rw [List.getLast?_take, if_neg (by omega), hget, Option.some_or, Option.mem_some_iff] at hx
    have hsur : x.isHighSurrogate = false := by
      rw [← Bool.not_eq_true]
      exact fun hx' => hhigh ⟨hroom, x, by rw [hget, hx]; rfl, hx'⟩
    rw [pair, hsur, Bool.false_and]

/-- What a chunk takes off a queue whose outputs begin at `n`. -/
structure Filled (n : Nat) (queue : List Op) (text : Units) (watermark : Nat) (taken : Units)
    (c : Chunk) : Prop where
  text_eq : c.text = text ++ taken
  cut : Cut pair (outputs queue) taken (outputs c.queue)
  room : c.text.length ≤ maxWriteChunkUnits
  stamped : Stamped (n + taken.length) c.queue
  mark : c.watermark = if taken = [] then watermark else n + taken.length
  queued : c.queuedUnits = (outputs c.queue).flatten.length

theorem Filled.nothing (h : Stamped n queue) (hroom : text.length ≤ maxWriteChunkUnits)
    (watermark : Nat) {units : Nat} (hqueued : units = (outputs queue).flatten.length) :
    Filled n queue text watermark [] ⟨text, watermark, queue, units⟩ where
  text_eq := (List.append_nil _).symm
  cut := Cut.nothing _
  room := hroom
  stamped := h
  mark := rfl
  queued := hqueued

theorem fillChunk_filled (h : Stamped n queue) (hroom : text.length ≤ maxWriteChunkUnits)
    (watermark : Nat) {units : Nat} (hqueued : units = (outputs queue).flatten.length) :
    ∃ taken, Filled n queue text watermark taken (fillChunk queue text watermark units) := by
  induction queue generalizing n text watermark units with
  | nil => exact ⟨[], .nothing h hroom watermark hqueued⟩
  | cons op queue ih =>
    cases op with
    | resize r => exact ⟨[], .nothing h hroom watermark hqueued⟩
    | dropped d => exact ⟨[], .nothing h hroom watermark hqueued⟩
    | output data dataUnits mark =>
      obtain ⟨hdata, rfl, rfl, hrest⟩ := id h
      have hunits : units = data.length + (outputs queue).flatten.length := by
        rw [hqueued]
        simp only [outputs, List.filterMap_cons, Op.text, List.flatten_cons, List.length_append]
      rw [fillChunk]
      split
      · next hlt =>
        simp only
        split
        · next hfits =>
          -- the output fits
          have hroom' : (text ++ data).length ≤ maxWriteChunkUnits := by
            rw [List.length_append]
            omega
          have hunits' : units - data.length = (outputs queue).flatten.length := by omega
          obtain ⟨taken, hf⟩ := ih hrest hroom' (n + data.length) hunits'
          refine ⟨data ++ taken, ?_, hf.cut.cons data, hf.room, ?_, ?_, hf.queued⟩
          · rw [hf.text_eq, List.append_assoc]
          · rw [List.length_append, ← Nat.add_assoc]
            exact hf.stamped
          · have hne : data ++ taken ≠ [] := List.append_ne_nil_of_left_ne_nil hdata taken
            rw [hf.mark, if_neg hne, List.length_append]
            split
            · next hnil => rw [hnil]; rfl
            · rw [Nat.add_assoc]
        · next hlong =>
          have hpos : 0 < maxWriteChunkUnits - text.length := by omega
          obtain ⟨hle, hpair⟩ := safeSplitIndex_spec hpos (Nat.not_le.mp hlong)
          generalize safeSplitIndex data (maxWriteChunkUnits - text.length) = cut at hle hpair ⊢
          split
          · exact ⟨[], .nothing h hroom watermark hqueued⟩
          · next hcut =>
            -- the output is cut
            have hlen : (data.take cut).length = cut := List.length_take_of_le (by omega)
            have hrestNe : data.drop cut ≠ [] := by
              rw [ne_eq, List.drop_eq_nil_iff]
              omega
            have hc : Cut pair (outputs (.output data data.length (n + data.length) :: queue))
                (data.take cut) (data.drop cut :: outputs queue) := by
              have hsplit := Cut.inside hrestNe hpair (outputs queue)
              rwa [List.take_append_drop] at hsplit
            refine ⟨data.take cut, rfl, hc, ?_, ?_, ?_, ?_⟩
            · rw [List.length_append, hlen]
              omega
            · refine ⟨hrestNe, by rw [List.length_drop], ?_, ?_⟩
              · rw [hlen, List.length_drop]
                omega
              · rw [hlen, List.length_drop]
                have heq : n + cut + (data.length - cut) = n + data.length := by omega
                rw [heq]
                exact hrest
            · rw [if_neg, hlen]
              · simp only
                omega
              · intro hnil
                rw [hnil] at hlen
                exact hcut hlen.symm
            · simp only [outputs, List.filterMap_cons, Op.text, List.flatten_cons,
                List.length_append, List.length_drop]
              simp only [outputs] at hunits
              omega
      · exact ⟨[], .nothing h hroom watermark hqueued⟩

theorem safeSplitIndex_pos {room : Nat} (hroom : 1 < room) (hdata : data ≠ []) :
    0 < safeSplitIndex data room := by
  rw [safeSplitIndex]
  have hlen := List.length_pos_iff.mpr hdata
  repeat' split
  all_goals omega

theorem outputs_output (units mark : Nat) :
    outputs (.output data units mark :: queue) = data :: outputs queue := rfl

/-- An output at the head of a queue is begun, so a chunk is not empty. -/
theorem fillChunk_ne_nil {units mark queuedUnits : Nat} (watermark : Nat)
    (h : Stamped n (.output data units mark :: queue))
    (hqueued : queuedUnits = (outputs (.output data units mark :: queue)).flatten.length) :
    (fillChunk (.output data units mark :: queue) [] watermark queuedUnits).text ≠ [] := by
  obtain ⟨hdata, rfl, -, hrest⟩ := h
  rw [outputs_output, List.flatten_cons, List.length_append] at hqueued
  rw [fillChunk, if_pos (by decide)]
  simp only [List.length_nil, Nat.sub_zero]
  split
  · next hfits =>
    have hroom : ([] ++ data : Units).length ≤ maxWriteChunkUnits := hfits
    have hunits : queuedUnits - data.length = (outputs queue).flatten.length := by omega
    obtain ⟨taken, hf⟩ := fillChunk_filled hrest hroom mark hunits
    rw [hf.text_eq]
    exact List.append_ne_nil_of_left_ne_nil hdata taken
  · next hlong =>
    have hone : 1 < maxWriteChunkUnits := by decide
    have hcut := safeSplitIndex_pos hone hdata
    rw [if_neg (Nat.ne_of_gt hcut)]
    simp only [List.nil_append, ne_eq, List.take_eq_nil_iff, not_or]
    exact ⟨Nat.ne_of_gt hcut, hdata⟩

/-! ## A generation between its events -/

/-- What a generation passed to `write`, whether or not it was replaced since. -/
structure Delivered (f : Flow) : Prop where
  handed : ∃ rest, Handed pair f.accepted f.writes rest
  sizes : ∀ t ∈ f.writes, t ≠ [] ∧ t.length ≤ maxWriteChunkUnits
  observed : f.observedUnits = f.accepted.flatten.length
  applied : f.appliedUnits ≤ f.writes.flatten.length

/-- What holds of a generation inside an event too. -/
structure Kept (f : Flow) (w : World) : Prop extends Delivered f where
  /-- the queue is what was not passed yet -/
  queue : f.stopped = false → Handed pair f.accepted f.writes (outputs f.queue)
  stamped : f.stopped = false → Stamped f.writes.flatten.length f.queue
  queued : f.stopped = false → f.queuedUnits = (outputs f.queue).flatten.length
  /-- the callback of the last write is outstanding, or none is -/
  writing : f.writing = true →
    ∃ units, w.callbacks.filter (·.token = f.index) = [⟨f.index, f.writes.flatten.length, units⟩]
  free : f.writing = false → w.callbacks.filter (·.token = f.index) = []

/-- Nothing waits that could be written. -/
def Flow.Drained (f : Flow) : Prop :=
  f.stopped = false → f.writing = false → f.term = true → f.failed = false → f.queue = []

/-- The invariant of a generation between two events. -/
structure Sound (f : Flow) (w : World) : Prop extends Kept f w where
  drained : f.Drained

theorem Sound.of_writing {f : Flow} {w : World} (h : Kept f w) (hw : f.writing = true) :
    Sound f w :=
  ⟨h, fun _ hfree => absurd (hw.symm.trans hfree) (by decide)⟩

theorem Sound.of_stopped {f : Flow} {w : World} (h : Kept f w) (hs : f.stopped = true) :
    Sound f w :=
  ⟨h, fun hlive => absurd (hs.symm.trans hlive) (by decide)⟩

/-- The terminal and the number of calls do not matter to it. -/
theorem Kept.term {f : Flow} {w w' : World} (h : Kept f w) (hw : w'.callbacks = w.callbacks)
    (b : Bool) : Kept { f with term := b } w' := by
  refine ⟨⟨h.handed, h.sizes, h.observed, h.applied⟩, h.queue, h.stamped, h.queued, ?_, ?_⟩
  · rw [hw]
    exact h.writing
  · rw [hw]
    exact h.free

/-! ## What the operations leave alone -/

/-- Of the flow only the terminal may change, and no callback comes or goes. -/
def SameFlow (l l' : Live) : Prop :=
  (∃ b, l'.gen.toFlow = { l.gen.toFlow with term := b }) ∧ l'.world.callbacks = l.world.callbacks

variable {e : Emulator} {l l' l'' : Live}

theorem SameFlow.refl (l : Live) : SameFlow l l := ⟨⟨l.gen.term, rfl⟩, rfl⟩

theorem SameFlow.trans (h : SameFlow l l') (h' : SameFlow l' l'') : SameFlow l l'' := by
  obtain ⟨⟨b, hb⟩, hc⟩ := h
  obtain ⟨⟨b', hb'⟩, hc'⟩ := h'
  exact ⟨⟨b', by rw [hb', hb]⟩, hc'.trans hc⟩

theorem sameFlow_qualify (l : Live) (f : Quality → Quality) : SameFlow l (l.qualify f) :=
  ⟨⟨l.gen.term, rfl⟩, rfl⟩

theorem sameFlow_called (l : Live) : SameFlow l { l with world := l.world.called } :=
  ⟨⟨l.gen.term, rfl⟩, rfl⟩

theorem SameFlow.kept (h : SameFlow l l') (hk : Kept l.gen.toFlow l.world) :
    Kept l'.gen.toFlow l'.world := by
  obtain ⟨⟨b, hb⟩, hc⟩ := h
  rw [hb]
  exact hk.term hc b

theorem sameFlow_ensureTerminal (e : Emulator) (l : Live) : SameFlow l (ensureTerminal e l) := by
  rw [ensureTerminal]
  split
  · exact .refl l
  · simp only
    split <;> exact ⟨⟨_, rfl⟩, rfl⟩

theorem sameFlow_applyResize (e : Emulator) (op : Resize) (l : Live) :
    SameFlow l (applyResize e op l) := by
  rw [applyResize]
  split
  · exact sameFlow_qualify l _
  split
  · exact sameFlow_qualify l _
  · have hreason : SameFlow l
        (if op.unattested then l.qualify fun q => q.degrade .geometryAtUnitsUnattested else l) := by
      split
      · exact sameFlow_qualify l _
      · exact .refl l
    have hterm := hreason.trans (sameFlow_ensureTerminal e _)
    dsimp only
    generalize ensureTerminal e (if op.unattested then
      l.qualify fun q => q.degrade .geometryAtUnitsUnattested else l) = l₁ at hterm ⊢
    split
    · exact hterm.trans (sameFlow_qualify _ _)
    · have hcalled := hterm.trans (sameFlow_called l₁)
      split <;> exact hcalled.trans (sameFlow_qualify _ _)

theorem sameFlow_applyDropped (op : Drop) (l : Live) : SameFlow l (applyDropped op l) :=
  sameFlow_qualify l _

/-- The operations at the head are gone; an output is next, or nothing. -/
theorem applyOps_spec (e : Emulator) (queue : List Op) {l : Live} (hq : l.gen.queue = queue) :
    ∃ queue' b, (applyOps e queue l).gen.toFlow = { l.gen.toFlow with queue := queue', term := b } ∧
      (applyOps e queue l).world.callbacks = l.world.callbacks ∧
      outputs queue' = outputs queue ∧ (∀ n, Stamped n queue → Stamped n queue') ∧
      ∀ op ∈ queue'.head?, op.isOutput := by
  induction queue generalizing l with
  | nil =>
    have hflow : l.gen.toFlow = { l.gen.toFlow with queue := [], term := l.gen.term } := by
      rw [← hq]
    exact ⟨[], _, hflow, rfl, rfl, fun _ h => h, fun _ h => nomatch h⟩
  | cons op queue ih =>
    have hstep (l₁ : Live) (h : SameFlow { l with gen := { l.gen with queue := queue } } l₁) :
        ∃ queue' b,
          (applyOps e queue l₁).gen.toFlow = { l.gen.toFlow with queue := queue', term := b } ∧
          (applyOps e queue l₁).world.callbacks = l.world.callbacks ∧
          outputs queue' = outputs queue ∧ (∀ n, Stamped n queue → Stamped n queue') ∧
          ∀ op ∈ queue'.head?, op.isOutput := by
      obtain ⟨⟨b, hb⟩, hc⟩ := h
      obtain ⟨queue', b', hflow, hcallbacks, hrest⟩ := ih (l := l₁) (by rw [hb])
      exact ⟨queue', b', by rw [hflow, hb], hcallbacks.trans hc, hrest⟩
    cases op with
    | output d units mark =>
      have hflow : l.gen.toFlow =
          { l.gen.toFlow with queue := .output d units mark :: queue, term := l.gen.term } := by
        rw [← hq]
      refine ⟨_, _, hflow, rfl, rfl, fun _ h => h, fun op hop => ?_⟩
      rw [List.head?_cons, Option.mem_some_iff] at hop
      rw [← hop]
      rfl
    | resize r => exact hstep _ (sameFlow_applyResize e r _)
    | dropped d => exact hstep _ (sameFlow_applyDropped d _)

/-! ## The pump -/

/-- Other operations are at the head of the queue, the outputs in it are the same. -/
theorem Kept.requeue {f : Flow} {w w' : World} (h : Kept f w) {queue' : List Op} (b : Bool)
    (hw : w'.callbacks = w.callbacks) (houtputs : outputs queue' = outputs f.queue)
    (hstamped : ∀ n, Stamped n f.queue → Stamped n queue') :
    Kept { f with queue := queue', term := b } w' := by
  have hk := h.term hw b
  refine ⟨⟨hk.handed, hk.sizes, hk.observed, hk.applied⟩, fun hs => ?_, fun hs => ?_, fun hs => ?_,
    hk.writing, hk.free⟩
  · simp only [houtputs]
    exact h.queue hs
  · exact hstamped _ (h.stamped hs)
  · simp only [houtputs]
    exact h.queued hs

/-- **A chunk is written.** -/
theorem sound_writeChunk {c : Chunk} {watermark : Nat} {taken : Units}
    (hk : Kept l.gen.toFlow l.world) (hwriting : l.gen.writing = false)
    (hstopped : l.gen.stopped = false)
    (hc : Filled l.gen.writes.flatten.length l.gen.queue [] watermark taken c)
    (hne : c.text ≠ []) :
    Sound (writeChunk e c.text c.watermark { l with gen := { l.gen with
        queue := c.queue, queuedUnits := c.queuedUnits } }).gen.toFlow
      (writeChunk e c.text c.watermark { l with gen := { l.gen with
        queue := c.queue, queuedUnits := c.queuedUnits } }).world := by
  have htaken : c.text = taken := hc.text_eq
  have hhanded : Handed pair l.gen.accepted (l.gen.writes ++ [c.text]) (outputs c.queue) := by
    rw [htaken]
    exact (hk.queue hstopped).hand hc.cut
  have hlen : (l.gen.writes ++ [c.text]).flatten.length =
      l.gen.writes.flatten.length + c.text.length := by
    rw [List.flatten_append, List.length_append, List.flatten_singleton]
  have hmark : c.watermark = (l.gen.writes ++ [c.text]).flatten.length := by
    rw [hlen, hc.mark, ← htaken, if_neg hne]
  have hsizes : ∀ t ∈ l.gen.writes ++ [c.text], t ≠ [] ∧ t.length ≤ maxWriteChunkUnits := by
    intro t ht
    rcases List.mem_append.mp ht with ht | ht
    · exact hk.sizes t ht
    · rw [List.mem_singleton.mp ht]
      exact ⟨hne, hc.room⟩
  have happlied : l.gen.appliedUnits ≤ (l.gen.writes ++ [c.text]).flatten.length := by
    rw [hlen]
    exact Nat.le_add_right_of_le hk.applied
  have hstamped : Stamped (l.gen.writes ++ [c.text]).flatten.length c.queue := by
    rw [hlen, htaken]
    exact hc.stamped
  have hfree := hk.free hwriting
  rw [writeChunk]
  dsimp only
  split
  · refine .of_writing ⟨⟨⟨_, hhanded⟩, hsizes, hk.observed, happlied⟩, fun _ => hhanded,
      fun _ => hstamped, fun _ => hc.queued, fun _ => ⟨c.text.length, ?_⟩, fun h => nomatch h⟩ rfl
    simp only [List.filter_append, hfree, List.nil_append, hmark]
    rw [List.filter_cons_of_pos (by simp)]
    rfl
  · exact ⟨⟨⟨⟨_, hhanded⟩, hsizes, hk.observed, happlied⟩, fun _ => hhanded, fun _ => hstamped,
      fun _ => hc.queued, (fun h => nomatch h), fun _ => hfree⟩, fun _ _ _ h => nomatch h⟩

/-- **The pump keeps a generation sound.** -/
theorem sound_pump (e : Emulator) {l : Live} (hk : Kept l.gen.toFlow l.world) :
    Sound (pump e l).gen.toFlow (pump e l).world := by
  rw [pump]
  split
  · next h =>
    rcases h with h | h
    · exact .of_writing hk h
    · exact .of_stopped hk h
  next h =>
  rw [not_or, Bool.not_eq_true, Bool.not_eq_true] at h
  obtain ⟨queue', b, hflow, hcallbacks, houtputs, hstamped, hhead⟩ := applyOps_spec e l.gen.queue rfl
  dsimp only
  generalize applyOps e l.gen.queue l = l₁ at hflow hcallbacks ⊢
  have hk₁ : Kept l₁.gen.toFlow l₁.world := by
    rw [hflow]
    exact hk.requeue b hcallbacks houtputs hstamped
  have hwriting₁ : l₁.gen.writing = false := by rw [hflow]; exact h.1
  have hstopped₁ : l₁.gen.stopped = false := by rw [hflow]; exact h.2
  have hhead₁ : ∀ op ∈ l₁.gen.queue.head?, op.isOutput := by rw [hflow]; exact hhead
  split
  · next hempty => exact ⟨hk₁, fun _ _ _ _ => List.isEmpty_iff.mp hempty⟩
  next hqueue =>
  have hsame := sameFlow_ensureTerminal e l₁
  generalize ensureTerminal e l₁ = l₂ at hsame ⊢
  have hk₂ := hsame.kept hk₁
  obtain ⟨⟨b₂, hb₂⟩, -⟩ := hsame
  have hwriting₂ : l₂.gen.writing = false := by rw [hb₂]; exact hwriting₁
  have hstopped₂ : l₂.gen.stopped = false := by rw [hb₂]; exact hstopped₁
  have hhead₂ : ∀ op ∈ l₂.gen.queue.head?, op.isOutput := by rw [hb₂]; exact hhead₁
  have hqueue₂ : l₂.gen.queue ≠ [] := by
    rw [hb₂]
    exact fun hnil => hqueue (List.isEmpty_iff.mpr hnil)
  split
  · next hterm => exact ⟨hk₂, fun _ _ ht => absurd ht hterm⟩
  obtain ⟨op, rest, hcons⟩ := List.exists_cons_of_ne_nil hqueue₂
  have hroom : ([] : Units).length ≤ maxWriteChunkUnits := Nat.zero_le _
  obtain ⟨taken, hc⟩ := fillChunk_filled (hk₂.stamped hstopped₂) hroom l₂.gen.appliedUnits
    (hk₂.queued hstopped₂)
  have hne : (fillChunk l₂.gen.queue [] l₂.gen.appliedUnits l₂.gen.queuedUnits).text ≠ [] := by
    have hstamped₂ := hk₂.stamped hstopped₂
    have hqueued₂ := hk₂.queued hstopped₂
    have hop := hhead₂ op (by rw [hcons]; rfl)
    rw [hcons] at hstamped₂ hqueued₂ ⊢
    cases op with
    | output data units mark => exact fillChunk_ne_nil _ hstamped₂ hqueued₂
    | resize r => cases hop
    | dropped d => cases hop
  rw [if_neg hne]
  exact sound_writeChunk hk₂ hwriting₂ hstopped₂ hc hne

/-! ## Enqueueing -/

theorem outputs_append (queue : List Op) (op : Op) :
    outputs (queue ++ [op]) = outputs queue ++ (op.text).toList := by
  rw [outputs, List.filterMap_append]
  cases h : op.text with
  | none => rw [outputs, List.filterMap_cons_none h]; rfl
  | some t => rw [outputs, List.filterMap_cons_some h]; rfl

theorem kept_push_output {f : Flow} {w : World} (hk : Kept f w) (hlive : f.stopped = false)
    (hdata : data ≠ []) (mark : Nat) : Kept (f.push (.output data data.length mark)) w := by
  have hhanded := (hk.queue hlive).accept data
  have hqueue (m : Nat) :
      outputs (f.queue ++ [.output data data.length m]) = outputs f.queue ++ [data] :=
    outputs_append _ _
  have hlen : f.accepted.flatten.length =
      f.writes.flatten.length + (outputs f.queue).flatten.length := by
    rw [(hk.queue hlive).text, List.length_append]
  have hqueued := hk.queued hlive
  refine ⟨⟨⟨_, hhanded⟩, hk.sizes, ?_, hk.applied⟩, fun _ => ?_, fun _ => ?_, fun _ => ?_,
    hk.writing, hk.free⟩
  · simp only [Flow.push, List.flatten_append, List.length_append, List.flatten_singleton,
      hk.observed]
  · simp only [Flow.push, hqueue]
    exact hhanded
  · refine stamped_push (hk.stamped hlive) hdata ?_
    rw [hk.observed, hlen]
    rfl
  · simp only [Flow.push, hqueue, List.flatten_append, List.length_append, List.flatten_singleton,
      hqueued]

theorem kept_push_other {f : Flow} {w : World} (hk : Kept f w) (op : Op)
    (hop : op.isOutput = false) : Kept (f.push op) w := by
  have hpush : f.push op = { f with queue := f.queue ++ [op] } := by
    cases op with
    | output data units mark => cases hop
    | resize r => rfl
    | dropped d => rfl
  have hqueue : outputs (f.queue ++ [op]) = outputs f.queue := by
    rw [outputs_append]
    cases op with
    | output data units mark => cases hop
    | resize r => exact List.append_nil _
    | dropped d => exact List.append_nil _
  rw [hpush]
  exact hk.requeue f.term rfl hqueue fun n hn => stamped_append hn hop

/-- An operation that can be queued: an output is not empty, and counted. -/
def Op.Fit : Op → Prop
  | .output data units _ => data ≠ [] ∧ units = data.length
  | _ => True

theorem sound_enqueue (e : Emulator) {op : Op} (hop : op.Fit) (hs : Sound l.gen.toFlow l.world) :
    Sound (enqueue e op l).gen.toFlow (enqueue e op l).world := by
  rw [enqueue]
  split
  · split
    · exact hs
    · exact hs
  next hstopped =>
  rw [Bool.not_eq_true] at hstopped
  split
  · exact hs
  · refine sound_pump e ?_
    cases op with
    | output data units mark =>
      obtain ⟨hdata, rfl⟩ := hop
      exact kept_push_output hs.toKept hstopped hdata mark
    | resize r => exact kept_push_other hs.toKept (.resize r) rfl
    | dropped d => exact kept_push_other hs.toKept (.dropped d) rfl

/-! ## What the pump leaves alone -/

/-- The applied position is left, and no callback of another generation is made. -/
structure Steady (l l' : Live) : Prop where
  index : l'.gen.index = l.gen.index
  applied : l'.gen.appliedUnits = l.gen.appliedUnits
  tokens : ∀ cb ∈ l'.world.callbacks, cb ∈ l.world.callbacks ∨ cb.token = l.gen.index

theorem Steady.trans (h : Steady l l') (h' : Steady l' l'') : Steady l l'' where
  index := h'.index.trans h.index
  applied := h'.applied.trans h.applied
  tokens cb hcb := by
    rcases h'.tokens cb hcb with hcb | hcb
    · exact h.tokens cb hcb
    · exact .inr (hcb.trans h.index)

theorem Steady.of_flow (hindex : l'.gen.index = l.gen.index)
    (happlied : l'.gen.appliedUnits = l.gen.appliedUnits)
    (hcallbacks : l'.world.callbacks = l.world.callbacks) : Steady l l' :=
  ⟨hindex, happlied, fun _ hcb => .inl (hcallbacks ▸ hcb)⟩

theorem SameFlow.steady (h : SameFlow l l') : Steady l l' := by
  obtain ⟨⟨b, hb⟩, hc⟩ := h
  exact .of_flow (by rw [hb]) (by rw [hb]) hc

theorem steady_writeChunk (e : Emulator) (text : Units) (watermark : Nat) (l : Live) :
    Steady l (writeChunk e text watermark l) := by
  rw [writeChunk]
  dsimp only
  split
  · refine ⟨rfl, rfl, fun cb hcb => ?_⟩
    rcases List.mem_append.mp hcb with hcb | hcb
    · exact .inl hcb
    · rw [List.mem_singleton.mp hcb]
      exact .inr rfl
  · exact .of_flow rfl rfl rfl

theorem steady_pump (e : Emulator) (l : Live) : Steady l (pump e l) := by
  rw [pump]
  split
  · exact .of_flow rfl rfl rfl
  obtain ⟨queue', b, hflow, hcallbacks, -⟩ := applyOps_spec e l.gen.queue rfl
  have hops : Steady l (applyOps e l.gen.queue l) :=
    .of_flow (by rw [hflow]) (by rw [hflow]) hcallbacks
  dsimp only
  split
  · exact hops
  have hterm := hops.trans (sameFlow_ensureTerminal e _).steady
  split
  · exact hterm
  · split
    · exact hterm.trans (.of_flow rfl rfl rfl)
    · refine (hterm.trans ?_).trans (steady_writeChunk e _ _ _)
      exact .of_flow rfl rfl rfl

theorem Flow.push_index (f : Flow) (op : Op) : (f.push op).index = f.index := by
  cases op <;> rfl

theorem Flow.push_appliedUnits (f : Flow) (op : Op) :
    (f.push op).appliedUnits = f.appliedUnits := by
  cases op <;> rfl

theorem steady_enqueue (e : Emulator) (op : Op) (l : Live) : Steady l (enqueue e op l) := by
  rw [enqueue]
  split
  · split <;> exact .of_flow rfl rfl rfl
  split
  · exact .of_flow rfl rfl rfl
  · refine Steady.trans ?_ (steady_pump e _)
    exact .of_flow (l.gen.toFlow.push_index op) (l.gen.toFlow.push_appliedUnits op) rfl

/-! ## Callbacks -/

/-- The callback of the last write. -/
theorem Kept.held {f : Flow} {w : World} (hk : Kept f w) {cb : Callback}
    (hcb : cb ∈ w.callbacks) (htoken : cb.token = f.index) :
    f.writing = true ∧ cb.watermark = f.writes.flatten.length ∧
      (w.callbacks.erase cb).filter (·.token = f.index) = [] := by
  have hmem : cb ∈ w.callbacks.filter (·.token = f.index) :=
    List.mem_filter.mpr ⟨hcb, decide_eq_true htoken⟩
  cases hw : f.writing with
  | false =>
    rw [hk.free hw] at hmem
    cases hmem
  | true =>
    obtain ⟨units, hfilter⟩ := hk.writing hw
    rw [hfilter, List.mem_singleton] at hmem
    refine ⟨rfl, by rw [hmem], ?_⟩
    rw [← List.erase_filter, hfilter, hmem, List.erase_cons_head]

/-- A callback of another generation is not among those of this one. -/
theorem filter_erase_of_ne {w : World} {cb : Callback} {index : Nat} (h : cb.token ≠ index) :
    (w.callbacks.erase cb).filter (·.token = index) = w.callbacks.filter (·.token = index) := by
  rw [← List.erase_filter, List.erase_of_not_mem]
  intro hmem
  exact h (of_decide_eq_true (List.mem_filter.mp hmem).2)

/-- A generation that is stopped has nothing queued and no callback outstanding. -/
theorem Kept.stopped {f : Flow} {w : World} (hk : Kept f w) (hfree : f.writing = false) :
    Kept { f with stopped := true, writing := false, queue := [], queuedUnits := 0, term := false }
      w :=
  ⟨⟨hk.handed, hk.sizes, hk.observed, hk.applied⟩, (fun h => nomatch h), (fun h => nomatch h),
    (fun h => nomatch h), (fun h => nomatch h), fun _ => hk.free hfree⟩

theorem auditCellGrowth_spec (e : Emulator) (hk : Kept l.gen.toFlow l.world)
    (hfree : l.gen.writing = false) :
    Steady l (auditCellGrowth e l) ∧
      Kept (auditCellGrowth e l).gen.toFlow (auditCellGrowth e l).world := by
  rw [auditCellGrowth]
  split
  · exact ⟨.of_flow rfl rfl rfl, hk⟩
  dsimp only
  have hcalled := sameFlow_called l
  have hkept := hcalled.kept hk
  split
  · exact ⟨(hcalled.trans (sameFlow_qualify _ _)).steady, hkept⟩
  split
  · exact ⟨.of_flow rfl rfl rfl, hkept.stopped hfree⟩
  · exact ⟨hcalled.steady, hkept⟩

/-- **A callback moves the applied position to the end of what was passed.** -/
theorem sound_afterWrite (e : Emulator) {l : Live} {w : World} {cb : Callback}
    (hk : Kept l.gen.toFlow w) (hcb : cb ∈ w.callbacks) (htoken : cb.token = l.gen.index)
    (hw : l.world.callbacks = w.callbacks.erase cb) :
    Sound (afterWrite e cb l).gen.toFlow (afterWrite e cb l).world ∧
      (afterWrite e cb l).gen.appliedUnits = l.gen.writes.flatten.length ∧
      (afterWrite e cb l).gen.index = l.gen.index ∧
      ∀ cb' ∈ (afterWrite e cb l).world.callbacks, cb' ∈ w.callbacks ∨ cb'.token = l.gen.index := by
  obtain ⟨-, hmark, hfree⟩ := hk.held hcb htoken
  rw [← hw] at hfree
  have happlied : max l.gen.appliedUnits cb.watermark = l.gen.writes.flatten.length := by
    rw [hmark]
    exact Nat.max_eq_right hk.applied
  have hack : Kept (acknowledge cb l.gen).toFlow l.world :=
    ⟨⟨hk.handed, hk.sizes, hk.observed, Nat.le_of_eq happlied⟩, hk.queue, hk.stamped, hk.queued,
      (fun h => nomatch h), fun _ => hfree⟩
  have hsteady (l₁ : Live) (h : Steady { l with gen := acknowledge cb l.gen } l₁) :
      l₁.gen.appliedUnits = l.gen.writes.flatten.length ∧ l₁.gen.index = l.gen.index ∧
        ∀ cb' ∈ l₁.world.callbacks, cb' ∈ w.callbacks ∨ cb'.token = l.gen.index := by
    refine ⟨h.applied.trans happlied, h.index, fun cb' hcb' => ?_⟩
    rcases h.tokens cb' hcb' with hcb' | hcb'
    · have hmem : cb' ∈ w.callbacks.erase cb := hw ▸ hcb'
      exact .inl (List.mem_of_mem_erase hmem)
    · exact .inr hcb'
  rw [afterWrite]
  dsimp only
  split
  · have hk₁ : Kept { acknowledge cb l.gen with unitsSinceCellAudit := 0 }.toFlow l.world :=
      ⟨⟨hack.handed, hack.sizes, hack.observed, hack.applied⟩, hack.queue, hack.stamped, hack.queued,
        hack.writing, hack.free⟩
    obtain ⟨haudit, hkept⟩ := auditCellGrowth_spec
      (l := ⟨{ acknowledge cb l.gen with unitsSinceCellAudit := 0 }, l.world⟩) e hk₁ rfl
    have hfirst : Steady { l with gen := acknowledge cb l.gen }
        (auditCellGrowth e ⟨{ acknowledge cb l.gen with unitsSinceCellAudit := 0 }, l.world⟩) := by
      refine Steady.trans ?_ haudit
      exact .of_flow rfl rfl rfl
    split
    · next hstopped => exact ⟨.of_stopped hkept hstopped, hsteady _ hfirst⟩
    · exact ⟨sound_pump e hkept, hsteady _ (hfirst.trans (steady_pump e _))⟩
  · exact ⟨sound_pump e hack, hsteady _ (steady_pump e _)⟩

/-! ## The screen between two events -/

/-- The invariant of a screen. -/
structure Screen.Sound (s : Screen) : Prop where
  live : ∀ g ∈ s.gen, Vt.Sound g.toFlow s.world ∧ g.index = s.generationCounter
  past : ∀ g ∈ s.past, Delivered g.toFlow ∧ g.index ≤ s.generationCounter
  /-- a generation that was replaced is older than the one there is -/
  older : ∀ g ∈ s.gen, ∀ g' ∈ s.past, g'.index < g.index
  tokens : ∀ cb ∈ s.world.callbacks, cb.token ≤ s.generationCounter

/-- What a function of a generation does to it. -/
structure Advances (l l' : Live) : Prop where
  sound : Vt.Sound l.gen.toFlow l.world → Vt.Sound l'.gen.toFlow l'.world
  steady : Steady l l'

theorem Advances.trans (h : Advances l l') (h' : Advances l' l'') : Advances l l'' :=
  ⟨fun hs => h'.sound (h.sound hs), h.steady.trans h'.steady⟩

theorem advances_qualify (l : Live) (f : Quality → Quality) : Advances l (l.qualify f) :=
  ⟨id, .of_flow rfl rfl rfl⟩

theorem advances_enqueue (e : Emulator) (op : Op) (hop : op.Fit) (l : Live) :
    Advances l (enqueue e op l) :=
  ⟨sound_enqueue e hop, steady_enqueue e op l⟩

theorem advances_acceptOutput (e : Emulator) (data : Units) (streamId : Option Units)
    (streamOffset : Option Nat) (l : Live) :
    Advances l (acceptOutput e data streamId streamOffset l) := by
  rw [acceptOutput]
  split
  · exact (advances_qualify l _).trans (advances_qualify _ _)
  · next hpayload =>
    refine Advances.trans ?_ (advances_enqueue e (.output _ _ _) ⟨hpayload, rfl⟩ _)
    exact ((advances_qualify l _).trans (advances_qualify _ _)).trans (advances_qualify _ _)

theorem advances_acceptGeometry (e : Emulator) (cols rows : Nat) (streamId : Option Units)
    (stated : Raw) (source : GeometrySource) (l : Live) :
    Advances l (acceptGeometry e cols rows streamId stated source l) := by
  rw [acceptGeometry]
  dsimp only
  split
  · exact (advances_qualify l _).trans (advances_qualify _ _)
  · refine Advances.trans ?_ (advances_enqueue e (.resize _) trivial _)
    exact (advances_qualify l _).trans (advances_qualify _ _)

/-- A terminal is made where nothing waits for it. -/
theorem advances_ensureTerminal (e : Emulator) (hq : l.gen.queue = []) :
    Advances l (ensureTerminal e l) := by
  have hsame := sameFlow_ensureTerminal e l
  refine ⟨fun hs => ⟨hsame.kept hs.toKept, fun _ _ _ _ => ?_⟩, hsame.steady⟩
  obtain ⟨⟨b, hb⟩, -⟩ := hsame
  rw [hb]
  exact hq

/-- **A callback of another generation changes nothing.** -/
theorem onWritten_of_ne (e : Emulator) {s : Screen} {cb : Callback}
    (h : ∀ g ∈ s.gen, g.index ≠ cb.token) : onWritten e cb s = s := by
  rw [onWritten]
  split
  · rfl
  · next g hg => rw [if_pos (h g hg)]

namespace Screen.Sound

variable {s : Screen}

theorem modify (hs : s.Sound) {f : Live → Live}
    (hf : ∀ g ∈ s.gen, Advances ⟨g, s.world⟩ (f ⟨g, s.world⟩)) : (s.modify f).Sound := by
  rw [Screen.modify]
  split
  · exact hs
  · next g hg =>
    obtain ⟨hsound, hindex⟩ := hs.live g hg
    obtain ⟨hsound', hsteady⟩ := hf g hg
    refine ⟨fun g' hg' => ?_, hs.past, fun g' hg' => ?_, fun cb hcb => ?_⟩
    · obtain rfl := Option.some.inj hg'
      exact ⟨hsound' hsound, hsteady.index.trans hindex⟩
    · obtain rfl := Option.some.inj hg'
      rw [hsteady.index]
      exact hs.older g hg
    · rcases hsteady.tokens cb hcb with hcb | hcb
      · exact hs.tokens cb hcb
      · rw [hcb]
        exact Nat.le_of_eq hindex

/-- A generation is taken down. -/
theorem teardown (hs : s.Sound) : (teardownGeneration s).Sound := by
  rw [teardownGeneration]
  split
  · exact hs
  · next g hg =>
    obtain ⟨hsound, hindex⟩ := hs.live g hg
    refine ⟨fun g' hg' => (by cases hg'), fun g' hg' => ?_, fun g' hg' => (by cases hg'), hs.tokens⟩
    rcases List.mem_append.mp hg' with hg' | hg'
    · exact hs.past g' hg'
    · rw [List.mem_singleton.mp hg']
      have hd := hsound.toDelivered
      exact ⟨⟨hd.handed, hd.sizes, hd.observed, hd.applied⟩, Nat.le_of_eq hindex⟩

theorem newGeneration (hs : s.Sound) (e : Emulator) (cause : Cause) (options : Options) :
    (newGeneration e cause options s).Sound := by
  rw [Vt.newGeneration]
  split
  · exact hs
  have ht := hs.teardown
  generalize teardownGeneration s = t at ht ⊢
  dsimp only
  refine modify ?_ fun g hg => advances_ensureTerminal e (by cases hg; rfl)
  have hfree : t.world.callbacks.filter (·.token = t.generationCounter + 1) = [] := by
    rw [List.filter_eq_nil_iff]
    intro cb hcb hnew
    have hle := ht.tokens cb hcb
    have heq := of_decide_eq_true hnew
    omega
  refine ⟨fun g hg => ?_, fun g hg => ?_, fun g hg g' hg' => ?_, fun cb hcb => ?_⟩
  · obtain rfl := Option.some.inj hg
    refine ⟨⟨⟨⟨⟨_, .nil⟩, fun t ht => absurd ht List.not_mem_nil, rfl, Nat.le_refl _⟩,
      fun _ => .nil, fun _ => trivial, fun _ => rfl, (fun h => nomatch h), fun _ => hfree⟩,
      fun _ _ _ _ => rfl⟩, rfl⟩
  · exact ⟨(ht.past g hg).1, Nat.le_succ_of_le (ht.past g hg).2⟩
  · obtain rfl := Option.some.inj hg
    exact Nat.lt_succ_of_le (ht.past g' hg').2
  · exact Nat.le_succ_of_le (ht.tokens cb hcb)

theorem dispose (hs : s.Sound) : (dispose s).Sound := by
  rw [Vt.dispose]
  split
  · exact hs
  · exact teardown (s := { s with disposed := true }) ⟨hs.live, hs.past, hs.older, hs.tokens⟩

theorem qualify (hs : s.Sound) (f : Quality → Quality) : (s.modify fun l => l.qualify f).Sound :=
  hs.modify fun _ _ => advances_qualify _ f

/-- Another geometry is parked, or none is. -/
theorem park (hs : s.Sound) (p : Option PendingGeometry) :
    Sound { s with pendingGeometry := p } := ⟨hs.live, hs.past, hs.older, hs.tokens⟩

theorem rotateStream (hs : s.Sound) (e : Emulator) (streamId : Units) (streamOffset : Option Nat) :
    (rotateStream e streamId streamOffset s).Sound := by
  have htake : (takePendingGeometry streamId streamOffset s).1.Sound := by
    rw [takePendingGeometry]
    split
    · exact hs
    split
    · exact hs
    · dsimp only
      split <;> exact hs.park none
  rw [Vt.rotateStream]
  have hnew := htake.newGeneration e .streamChanged
    (streamOptions streamId (takePendingGeometry streamId streamOffset s).2)
  dsimp only
  split
  · exact hnew.qualify _
  · exact hnew

theorem noteOutput (hs : s.Sound) (e : Emulator) (data : Option Units) (m : Meta) :
    (noteOutput e data m s).Sound := by
  unfold Vt.noteOutput
  split
  · exact hs
  · exact hs.qualify _
  · next g data hg =>
    split
    · exact hs
    split
    · exact hs.qualify _
    have hrefuse (s : Screen) (hs : s.Sound) :
        (if !m.streamOffset.isAbsent && m.streamOffset.safeOffset.isNone then
          s.modify fun l => l.qualify fun q =>
            (q.degrade .invalidStreamOffset).degradeContinuity .invalid
        else s).Sound := by
      split
      · exact hs.qualify _
      · exact hs
    have haccept (s : Screen) (hs : s.Sound) (streamId : Option Units) :
        (s.modify (acceptOutput e data streamId m.streamOffset.safeOffset)).Sound :=
      hs.modify fun _ _ => advances_acceptOutput e data streamId _ _
    dsimp only
    split
    · split
      · exact haccept _ (hrefuse _ ((hrefuse s hs).rotateStream e _ _)) _
      · exact haccept _ (hrefuse s hs) _
    · exact haccept _ (hrefuse s hs) _

theorem noteGeometry (hs : s.Sound) (e : Emulator) (geo : Geometry) :
    (noteGeometry e geo s).Sound := by
  have happly (streamId : Option Units) : (noteGeometry.applyGeometry e geo s streamId).Sound := by
    rw [noteGeometry.applyGeometry]
    split
    · exact hs.modify fun _ _ => advances_acceptGeometry e _ _ _ _ _ _
    · exact hs.qualify _
  rw [Vt.noteGeometry]
  split
  · exact hs
  dsimp only
  split
  · exact hs.qualify _
  split
  · split
    · rw [parkPendingGeometry]
      dsimp only
      repeat' split
      all_goals first | exact hs | exact hs.park _
    · exact happly _
  · exact happly _

theorem noteDropped (hs : s.Sound) (e : Emulator) (drop : DropStatement) :
    (noteDropped e drop s).Sound := by
  rw [Vt.noteDropped]
  split
  · exact hs.qualify _
  split
  · split
    · exact hs.qualify _
    · exact hs.modify fun _ _ => advances_enqueue e (.dropped _) trivial _
  · exact hs.qualify _

/-- **A callback of the generation there is.** -/
theorem written_current (hs : s.Sound) (e : Emulator) {g : Generation} (hg : s.gen = some g)
    {cb : Callback} (hcb : cb ∈ s.world.callbacks) (htoken : cb.token = g.index) :
    (step e s (.written cb)).Sound ∧
      ∃ g', (step e s (.written cb)).gen = some g' ∧
        g'.appliedUnits = g.writes.flatten.length := by
  obtain ⟨hsound, hindex⟩ := hs.live g hg
  obtain ⟨hsound', happlied, hindex', htokens⟩ := sound_afterWrite e
    (l := ⟨g, { s.world with callbacks := s.world.callbacks.erase cb }⟩) hsound.toKept hcb htoken rfl
  rw [step, if_pos hcb, onWritten, hg]
  dsimp only
  rw [if_neg (not_not.mpr htoken.symm), Screen.modify]
  simp only
  refine ⟨⟨fun g' hg' => ?_, hs.past, fun g' hg' => ?_, fun cb' hcb' => ?_⟩, _, rfl, happlied⟩
  · obtain rfl := Option.some.inj hg'
    exact ⟨hsound', hindex'.trans hindex⟩
  · obtain rfl := Option.some.inj hg'
    rw [hindex']
    exact hs.older g hg
  · rcases htokens cb' hcb' with hcb' | hcb'
    · exact hs.tokens cb' hcb'
    · rw [hcb']
      exact Nat.le_of_eq hindex

/-- A callback of another generation is called. -/
theorem forget (hs : s.Sound) {cb : Callback} (hcb : ∀ g ∈ s.gen, g.index ≠ cb.token) :
    Sound { s with world := { s.world with callbacks := s.world.callbacks.erase cb } } := by
  refine ⟨fun g hg => ?_, hs.past, hs.older, fun cb' hcb' =>
    hs.tokens cb' (List.mem_of_mem_erase hcb')⟩
  obtain ⟨hsound, hindex⟩ := hs.live g hg
  have hfilter := filter_erase_of_ne (w := s.world) fun heq => hcb g hg heq.symm
  have hk := hsound.toKept
  refine ⟨⟨⟨hk.toDelivered, hk.queue, hk.stamped, hk.queued, ?_, ?_⟩, hsound.drained⟩, hindex⟩
  · rw [hfilter]
    exact hk.writing
  · rw [hfilter]
    exact hk.free

theorem step (hs : s.Sound) (e : Emulator) (event : Event) : (step e s event).Sound := by
  cases event with
  | output data m => exact hs.noteOutput e data m
  | geometry geo => exact hs.noteGeometry e geo
  | drop drop => exact hs.noteDropped e drop
  | replace cause options => exact hs.newGeneration e cause options
  | dispose => exact hs.dispose
  | written cb =>
    by_cases hcb : cb ∈ s.world.callbacks
    · by_cases hold : ∀ g ∈ s.gen, g.index ≠ cb.token
      · have hforget := hs.forget hold
        have hsame := onWritten_of_ne e
          (s := { s with world := { s.world with callbacks := s.world.callbacks.erase cb } }) hold
        rw [Vt.step, if_pos hcb, hsame]
        exact hforget
      · push Not at hold
        obtain ⟨g, hg, htoken⟩ := hold
        exact (hs.written_current e hg hcb htoken.symm).1
    · rwa [Vt.step, if_neg hcb]

theorem run (hs : s.Sound) (e : Emulator) (events : List Event) : (run e s events).Sound := by
  induction events generalizing s with
  | nil => exact hs
  | cons event events ih => exact ih (hs.step e event)

end Screen.Sound

theorem sound_create (e : Emulator) (sessionId : Units) (cause : Cause) (options : Options) :
    (create e sessionId cause options).Sound := by
  refine Screen.Sound.newGeneration ⟨?_, ?_, ?_, ?_⟩ e cause options
  · exact fun g hg => nomatch hg
  · exact fun g hg => absurd hg List.not_mem_nil
  · exact fun g hg => nomatch hg
  · exact fun cb hcb => absurd hcb List.not_mem_nil

/-! ## The strings that are passed -/

/-- **The pump neither cuts nor loses.** Of every generation of a run, the strings passed to `write`
join to the front of what it accepted, to all of it but the queue while it runs, and to all of it
once nothing is in flight and no write threw. Each has at most 65536 units, and none ends inside a
surrogate pair of an output. A callback moves the applied position to the end of what was passed,
and one of an old generation changes nothing. -/
theorem run_chunks (e : Emulator) (sessionId : Units) (cause : Cause) (options : Options)
    (events : List Event) :
    let s := run e (create e sessionId cause options) events
    (∀ g ∈ s.past ++ s.gen.toList,
      g.writes.flatten <+: g.accepted.flatten ∧
      (∀ t ∈ g.writes, t ≠ [] ∧ t.length ≤ maxWriteChunkUnits) ∧
      (∀ k, Clean pair g.accepted (g.writes.take k).flatten.length) ∧
      g.appliedUnits ≤ g.writes.flatten.length ∧ g.appliedUnits ≤ g.observedUnits ∧
      g.observedUnits = g.accepted.flatten.length) ∧
    (∀ g ∈ s.gen, g.stopped = false →
      g.accepted.flatten = g.writes.flatten ++ (outputs g.queue).flatten ∧
      (g.writing = false → g.term = true → g.failed = false →
        g.writes.flatten = g.accepted.flatten)) ∧
    (∀ g ∈ s.gen, ∀ cb ∈ s.world.callbacks, cb.token = g.index →
      ∃ g', (step e s (.written cb)).gen = some g' ∧
        g'.appliedUnits = g.writes.flatten.length) ∧
    ∀ g ∈ s.past, ∀ cb, cb.token = g.index → onWritten e cb s = s := by
  intro s
  have hs : s.Sound := (sound_create e sessionId cause options).run e events
  have hall : ∀ g ∈ s.past ++ s.gen.toList, Delivered g.toFlow := by
    intro g hg
    rcases List.mem_append.mp hg with hg | hg
    · exact (hs.past g hg).1
    · exact (hs.live g (Option.mem_toList.mp hg)).1.toDelivered
  refine ⟨fun g hg => ?_, fun g hg hlive => ?_, fun g hg cb hcb htoken => ?_,
    fun g hg cb htoken => ?_⟩
  · obtain ⟨⟨rest, hhanded⟩, hsizes, hobserved, happlied⟩ := hall g hg
    have hpre : g.writes.flatten <+: g.accepted.flatten := ⟨_, hhanded.text.symm⟩
    refine ⟨hpre, hsizes, hhanded.clean, happlied, ?_, hobserved⟩
    rw [hobserved]
    exact Nat.le_trans happlied hpre.length_le
  · have hsound := (hs.live g hg).1
    have htext := (hsound.queue hlive).text
    refine ⟨htext, fun hwriting hterm hfailed => ?_⟩
    rw [hsound.drained hlive hwriting hterm hfailed] at htext
    rw [htext]
    exact (List.append_nil _).symm
  · exact (hs.written_current e hg hcb htoken).2
  · refine onWritten_of_ne e fun g' hg' => ?_
    have hlt := hs.older g' hg' g hg
    omega

/-- An emulator that never throws. -/
def reliable : Emulator where
  construct _ := .terminal
  writes _ := true
  resizes _ := true
  gridUnits _ := some 0

def localOptions : Options :=
  ⟨.number 20, .number 2, .localPty, .absent, true, false⟩

/-- The two halves of a pair come in two outputs, and are passed in two strings. -/
theorem pair_cut :
    let out (t : Units) : Event := .output (some t) ⟨.absent, .absent⟩
    ∃ g, (run reliable (create reliable [] .streamOrigin localOptions)
        [out [0xD83D], out [0xDE00], .written ⟨1, 1, 1⟩]).gen = some g ∧
      g.accepted.flatten = [0xD83D, 0xDE00] ∧ g.writes = [[0xD83D], [0xDE00]] ∧
      Parts pair g.accepted.flatten (g.writes.take 1).flatten.length :=
  ⟨_, rfl, rfl, rfl, [], _, _, [], rfl, rfl, by decide⟩

end Telepty.Vt
