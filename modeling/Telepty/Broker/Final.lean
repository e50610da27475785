import Telepty.Broker.Envelopes
import Telepty.Forward.Torn

/-!
# A recorded result is final

Once the stored record of a receipt carries a result, no request and no timeout writes it again: a
request finds the receipt in use, a timeout ends pending records only, and the node's own result is
compared with the one that is there. The loss of a stream is different. It ends every receipt of the
node that still counts as active, and a receipt whose result was written, but not reported as written,
does.
-/

namespace Telepty.Broker

open Infra Infra.Prog Mailbox Principal Forward

variable {α : Type} {home : Path} {env : Env} {config : Config} {sign : Sign} {a b c m m' : Hub}
  {k : Text} {r : Json} {fs fs' : FS}

/-! ## Recorded results -/

/-- Whether a record carries a result. -/
def hasResult (record : Json) : Bool := !isNull (orNull (record.field "result_fingerprint"))

/-- The record `r` is stored for the receipt `k`, and carries a result. -/
structure Recorded (home : Path) (k : Text) (r : Json) (fs : FS) : Prop where
  valid : digestText k = true
  read : observe home fs k = .ok (some r)
  result : hasResult r = true

/-- No pending record carries a result. -/
def Regular (home : Path) (fs : FS) : Prop :=
  ∀ k r, Recorded home k r fs → recordState r ≠ ("pending" : Text)

theorem Recorded.occupied (h : Recorded home k r fs) : slot home fs k ≠ none :=
  ne_none_of_observe h.read

theorem Recorded.congr (h : Recorded home k r fs) (hs : slot home fs' k = slot home fs k) :
    Recorded home k r fs' := ⟨h.valid, by rw [observe_congr hs, h.read], h.result⟩

theorem regular_of_slots (h : ∀ k, digestText k = true → slot home fs' k = slot home fs k ∨
    ∀ r, Recorded home k r fs' → recordState r ≠ ("pending" : Text)) (hreg : Regular home fs) :
    Regular home fs' := by
  intro k r hr
  rcases h k hr.valid with hs | hne
  · exact hreg k r (hr.congr hs.symm)
  · exact hne r hr

/-! ## What a request does -/

/-- The slots that were in use are as they were, and no pending record got a result. -/
structure Spares (home : Path) (a b : Hub) : Prop where
  kept : ∀ k, digestText k = true → slot home a.disk k ≠ none →
    slot home b.disk k = slot home a.disk k
  regular : Regular home a.disk → Regular home b.disk

theorem Spares.refl (a : Hub) : Spares home a a := ⟨fun _ _ _ => rfl, id⟩

theorem regular_same (hs : Same home fs fs') (h : Regular home fs) : Regular home fs' :=
  regular_of_slots (fun k hk => .inl (hs k hk)) h

theorem Spares.reads (h : Spares home a b) (hr : Reads home b c) : Spares home a c :=
  ⟨fun k hk hocc => (hr.1 k hk).trans (h.kept k hk hocc),
    fun hreg => regular_same hr.1 (h.regular hreg)⟩

/-- A slot that is empty was empty before. -/
theorem Spares.empty (h : Spares home a b) (hk : digestText k = true)
    (hnone : slot home b.disk k = none) : slot home a.disk k = none := by
  by_contra hocc
  exact hocc ((h.kept k hk hocc).symm.trans hnone)

/-- A slot is filled with a part of a record that carries no result. -/
theorem Spares.filled {bytes : Bytes} (h : Spares home a b) (hf : Filled home k bytes b c)
    (hb : bytes <+: bytesOf r) (hobj : r.isObject = true) (hr : hasResult r = false) :
    Spares home a c := by
  refine ⟨fun j hj hocc => ?_, fun hreg => regular_of_slots (fun j hj => ?_) (h.regular hreg)⟩
  · have hne : j ≠ k := by
      rintro rfl
      exact hocc (h.empty hj hf.empty)
    exact (hf.other j hj hne).trans (h.kept j hj hocc)
  · by_cases hjk : j = k
    · subst hjk
      refine .inr fun r' hr' => ?_
      rw [eq_of_observe_cut hf.full hb hobj hr'.read] at hr'
      exact absurd hr'.result (by rw [hr]; exact Bool.false_ne_true)
    · exact .inl (hf.other j hj hjk)

theorem regular_replaced {record : Json} (hstate : recordState record ≠ ("pending" : Text))
    (hw : ReplacedOrNot home record a b) (h : Regular home a.disk) : Regular home b.disk := by
  rcases hw with hw | ⟨-, -, hw⟩
  · exact regular_same hw.1 h
  · refine regular_of_slots (fun j hj => ?_) h
    by_cases hjk : j = keyOf record
    · subst hjk
      refine .inr fun r hr => ?_
      rw [eq_of_observe hw.full hr.read]
      exact hstate
    · exact .inl (hw.other j hj hjk)

/-- A record is replaced whose slot was empty before. -/
theorem Spares.replaced {record : Json} (h : Spares home a b)
    (hstate : recordState record ≠ ("pending" : Text))
    (hnone : slot home a.disk (keyOf record) = none) (hw : ReplacedOrNot home record b c) :
    Spares home a c := by
  refine ⟨fun j hj hocc => ?_, fun hreg => regular_replaced hstate hw (h.regular hreg)⟩
  have hne : j ≠ keyOf record := by
    rintro rfl
    exact hocc hnone
  rcases hw with hw | ⟨-, -, hw⟩
  · exact (hw.1 j hj).trans (h.kept j hj hocc)
  · exact (hw.other j hj hne).trans (h.kept j hj hocc)

/-- However a program ends, what was in use is spared. -/
def spared (home : Path) (a : Hub) (α : Type) : Ensures Memory Effect α :=
  ⟨fun _ m' => Spares home a m', fun _ m' => Spares home a m', fun m' => Spares home a m'⟩

theorem spares_of_reads {x : Prog Memory Effect α} {Q : Ensures Memory Effect α}
    (hx : Keeps (Reads home) x) (h : Spares home a m)
    (hd : ∀ r m', Spares home a m' → Q.done r m') (hr : ∀ e m', Spares home a m' → Q.raised e m')
    (hc : ∀ m', Spares home a m' → Q.crashed m') : wp x Q m :=
  wp_mono (hx m) (fun r m' hm => hd r m' (h.reads hm)) (fun e m' hm => hr e m' (h.reads hm))
    fun m' hm => hc m' (h.reads hm)

/-! ## Requests -/

/-- A new record carries no result. -/
theorem hasResult_pendingRecord {key fingerprint : Text} {createdAt : Nat} {metadata : Members}
    (h : ("result_fingerprint" : Text) ∉ metadata.map Prod.fst) :
    hasResult (pendingRecord key fingerprint createdAt metadata) = false := by
  rw [hasResult, field_pendingRecord h]
  rfl

/-- The members of a reservation that name neither its key nor a result. -/
structure Fitting (metadata : Members) : Prop where
  key : ("receipt_id" : Text) ∉ metadata.map Prod.fst
  result : ("result_fingerprint" : Text) ∉ metadata.map Prod.fst

/-- **A reservation** spares what is in use, and is fresh where nothing was. -/
theorem spares_reserve {key fingerprint : Text} {metadata : Members}
    {Q : Ensures Memory Effect Reserved}
    (hm : Fitting metadata) (h : Spares home a m)
    (hd : ∀ r m', Spares home a m' →
      (r.fresh = true → slot home a.disk (keyOf r.record) = none) → Q.done r m')
    (hr : ∀ e m', Spares home a m' → Q.raised e m')
    (hc : ∀ m', Spares home a m' → Q.crashed m') :
    wp (Forward.reserve home env key fingerprint metadata) Q m := by
  rw [Forward.reserve, wp_bind]
  refine wp_read (fun m₁ found h₁ hkey hfound => ?_) (fun e m' hm => hr e m' (h.reads hm))
    fun m' hm => hc m' (h.reads hm)
  have hs₁ := h.reads h₁
  cases found with
  | some existing =>
    dsimp only
    split
    · exact hd _ m₁ hs₁ fun hfresh => Bool.noConfusion hfresh
    · exact hr _ m₁ hs₁
  | none =>
    have hnone := h.empty hkey (slot_of_observe_none hfound)
    dsimp only
    rw [wp_bind]
    refine spares_of_reads reads_all hs₁ (fun records m₂ hs₂ => ?_) hr hc
    dsimp only
    split
    · exact hr _ m₂ hs₂
    · rw [wp_bind, wp_now]
      dsimp only
      rw [wp_bind]
      -- whatever was written of the record
      have hpart : ∀ m', FilledInPart home
          (pendingRecord key fingerprint (env.now m₂.tick) metadata) m₂ m' → Spares home a m' := by
        rintro m' (hm' | ⟨bytes, hb, hf⟩)
        · exact hs₂.reads hm'
        · exact hs₂.filled hf hb (isObject_spread rfl) (hasResult_pendingRecord hm.result)
      refine wp_write_first (fun m₃ _ hf => ?_) (fun e m' hm' => hr e m' (hpart m' hm'))
        fun m' hm' => hc m' (hpart m' hm')
      refine hd _ m₃ (hpart m₃ (.inr ⟨_, List.prefix_rfl, hf⟩)) fun _ => ?_
      rw [keyOf_pendingRecord hm.key]
      exact hnone

/-- A reservation of the request itself may be ended. -/
theorem spares_finishWith {record : Json} {status : Nat} {update : Members} (hu : Ending update)
    (h : Spares home a m) (hnone : slot home a.disk (keyOf record) = none) :
    wp (finishWith home env record status update) (spared home a Answer) m := by
  have hkey : keyOf (spread record update) = keyOf record := (agrees_spread hu.results).keyOf_eq
  have hall : ∀ m', ReplacedOrNot home (spread record update) m m' → Spares home a m' := fun m' hw =>
    h.replaced (hu.state record) (hkey ▸ hnone) hw
  rw [finishWith, wp_bind, finish, wp_bind]
  refine wp_write_over (fun m' hw => ?_) (fun e m' hw => hall m' hw) fun m' hw => hall m' hw
  exact ⟨(hall m' hw).kept, (hall m' hw).regular⟩

/-- **A dispatch** writes the record of its own reservation only. -/
theorem spares_dispatch {operation : Operation} {reserved : Reserved} {siblings : List Text}
    {wires : Wires} (h : Spares home a m)
    (hown : reserved.fresh = true → slot home a.disk (keyOf reserved.record) = none) :
    wp (dispatch home env sign operation reserved siblings wires) (spared home a Answer) m := by
  rw [dispatch, wp_bind, wp_get]
  dsimp only
  split
  · exact h
  · next hfresh =>
    have hnone := hown (by simpa using hfresh)
    have hend : ∀ m' status state code, Spares home a m' → state ≠ ("pending" : Text) →
        wp (finishWith home env reserved.record status [("state", .str state), ("code", .str code)])
          (spared home a Answer) m' := fun m' status state code hs hstate =>
      spares_finishWith (ending_code hstate) hs hnone
    split
    · exact hend _ _ _ _ h (by decide)
    · split
      · exact hend _ _ _ _ h (by decide)
      · rw [wp_bind, wp_ofExcept]
        split
        · dsimp only
          split
          · exact hend _ _ _ _ h (by decide)
          · rw [wp_bind, wp_modify]
            dsimp only
            rw [wp_catching, wp_bind, writeFrame, wp_bind, wp_post]
            dsimp only
            split
            · exact hend _ _ _ _ ⟨h.kept, h.regular⟩ (by decide)
            · exact ⟨h.kept, h.regular⟩
        · exact h

theorem spares_inject {operation : Operation} {wires : Wires} (hm : Fitting operation.metadata)
    (h : Spares home a m) :
    wp (inject home env sign operation wires) (spared home a Answer) m := by
  have hrest : ∀ m₁, Spares home a m₁ → wp (do
      let reserved ← reserve home env operation
      dispatch home env sign operation reserved [] wires) (spared home a Answer) m₁ := by
    intro m₁ h₁
    rw [wp_bind, reserve]
    exact spares_reserve hm h₁ (fun r m₂ h₂ hown => spares_dispatch h₂ hown) (fun _ _ hs => hs)
      fun _ hs => hs
  rw [inject, wp_bind]
  refine spares_of_reads (reads_read _) h (fun found m₁ h₁ => ?_) (fun _ _ hs => hs) fun _ hs => hs
  dsimp only
  cases found with
  | some record => exact hrest m₁ h₁
  | none =>
    dsimp only
    rw [wp_bind]
    exact spares_of_reads (reads_allowance _ _ _ _) h₁ (fun _ m₂ h₂ => hrest m₂ h₂)
      (fun _ _ hs => hs) fun _ hs => hs

/-- The extra members of every plan. -/
theorem fitting_metadataOf {source target sid : Text} {payload : Json} {extra : Members}
    (h : Fitting extra) : Fitting (metadataOf source target sid payload extra) := by
  have hnames : ∀ k, k = ("receipt_id" : Text) ∨ k = ("result_fingerprint" : Text) →
      k ∉ extra.map Prod.fst → k ∉ (metadataOf source target sid payload extra).map Prod.fst := by
    intro k hk hne
    rw [metadataOf, List.map_append, List.mem_append, not_or]
    refine ⟨?_, hne⟩
    simp only [List.map_cons, List.map_nil]
    rcases hk with rfl | rfl <;> decide
  exact ⟨hnames _ (.inl rfl) h.key, hnames _ (.inr rfl) h.result⟩

theorem spares_injectRoute (req : InjectRequest) :
    wp (injectRoute home env config sign req) (spared home m Answer) m := by
  have hrefl : Spares home m m := .refl m
  rw [injectRoute, wp_bind, wp_ofExcept]
  split
  · dsimp only
    rw [wp_bind, wp_ofExcept]
    split
    · dsimp only
      rw [wp_bind, wp_ofExcept]
      split
      · next operation hplan =>
        obtain ⟨payload, hmeta⟩ := plan_eq_ok hplan
        refine spares_inject ?_ hrefl
        rw [hmeta]
        exact fitting_metadataOf ⟨List.not_mem_nil, List.not_mem_nil⟩
      · exact hrefl
    · exact hrefl
  · exact hrefl

theorem spares_replyRoute (req : ReplyRequest) :
    wp (replyRoute home env config sign req) (spared home m Answer) m := by
  have hrefl : Spares home m m := .refl m
  rw [replyRoute]
  split
  · rw [wp_bind, wp_ofExcept]
    split
    · dsimp only
      rw [wp_bind, wp_ofExcept]
      split
      · dsimp only
        rw [wp_bind]
        refine spares_of_reads (reads_originalFor _ _) hrefl (fun original m₁ h₁ => ?_)
          (fun _ _ hs => hs) fun _ hs => hs
        dsimp only
        split
        · rw [wp_bind, wp_ofExcept]
          split
          · next operation hplan =>
            obtain ⟨payload, hmeta⟩ := plan_eq_ok hplan
            refine spares_inject ?_ h₁
            rw [hmeta]
            refine fitting_metadataOf ⟨fun hk => ?_, fun hk => ?_⟩
            · rcases List.mem_cons.mp hk with hk | hk
              · have hk : ("receipt_id" : Text) = "in_reply_to" := hk
                exact absurd hk (by decide)
              · exact absurd (names_memberIfAny _ _ _ hk) (by decide)
            · rcases List.mem_cons.mp hk with hk | hk
              · have hk : ("result_fingerprint" : Text) = "in_reply_to" := hk
                exact absurd hk (by decide)
              · exact absurd (names_memberIfAny _ _ _ hk) (by decide)
          · exact h₁
        · exact h₁
      · exact hrefl
    · exact hrefl
  · exact hrefl

/-! ## Broadcasts -/

theorem ChildOf.fitting {group : Text} {operation : Operation} (h : ChildOf group operation) :
    Fitting operation.metadata := by
  obtain ⟨source, target, sid, payload, hm⟩ := h
  rw [hm]
  exact fitting_metadataOf ⟨by simp only [List.map_cons, List.map_nil]; decide,
    by simp only [List.map_cons, List.map_nil]; decide⟩

theorem fitting_groupMetadata (source : Text) (plans : List Operation) :
    Fitting (groupMetadata source plans) :=
  ⟨by simp only [groupMetadata, List.map_cons, List.map_nil]; decide,
    by simp only [groupMetadata, List.map_cons, List.map_nil]; decide⟩

theorem spares_reserveAll {operations : List Operation}
    {Q : Ensures Memory Effect (List (Operation × Reserved))}
    (hm : ∀ op ∈ operations, Fitting op.metadata) (h : Spares home a m)
    (hd : ∀ l m', Spares home a m' →
      (∀ x ∈ l, x.2.fresh = true → slot home a.disk (keyOf x.2.record) = none) → Q.done l m')
    (hr : ∀ e m', Spares home a m' → Q.raised e m')
    (hc : ∀ m', Spares home a m' → Q.crashed m') :
    wp (reserveAll home env operations) Q m := by
  induction operations generalizing m Q with
  | nil => exact hd [] m h fun _ hx => absurd hx List.not_mem_nil
  | cons op ops ih =>
    rw [reserveAll, wp_bind, reserve]
    refine spares_reserve (hm op List.mem_cons_self) h (fun r m₁ h₁ hown => ?_) hr hc
    dsimp only
    rw [wp_bind]
    refine ih (fun op' hop => hm op' (List.mem_cons_of_mem _ hop)) h₁ (fun l m₂ h₂ hl => ?_) hr hc
    refine hd ((op, r) :: l) m₂ h₂ fun x hx => ?_
    rcases List.mem_cons.mp hx with rfl | hx
    · exact hown
    · exact hl x hx

theorem spares_dispatchAll {siblings : List Text} {wires : Wires}
    {l : List (Operation × Reserved)} (h : Spares home a m)
    (hown : ∀ x ∈ l, x.2.fresh = true → slot home a.disk (keyOf x.2.record) = none) :
    wp (dispatchAll home env sign siblings wires l) (spared home a Unit) m := by
  induction l generalizing m with
  | nil => exact h
  | cons x l ih =>
    rw [dispatchAll, wp_bind]
    refine wp_mono (spares_dispatch h (hown x List.mem_cons_self)) (fun _ m' h' => ?_)
      (fun _ _ h' => h') fun _ h' => h'
    exact ih h' fun y hy => hown y (List.mem_cons_of_mem _ hy)

theorem spares_commitBroadcast {req : BroadcastRequest} {group fingerprint : Text} {limit : Limit}
    {plans : List Operation} (hplans : ∀ op ∈ plans, ChildOf group op) (h : Spares home a m) :
    wp (commitBroadcast home env sign req group fingerprint limit plans)
      (spared home a Answer) m := by
  rw [commitBroadcast, wp_bind]
  refine spares_of_reads (reads_allowance _ _ _ _) h (fun _ m₁ h₁ => ?_) (fun _ _ hs => hs)
    fun _ hs => hs
  dsimp only
  rw [wp_bind, wp_now]
  dsimp only
  split
  · exact h₁
  · rw [wp_bind]
    refine spares_reserve (fitting_groupMetadata _ _) h₁ (fun r m₂ h₂ _ => ?_) (fun _ _ hs => hs)
      fun _ hs => hs
    dsimp only
    rw [wp_bind]
    refine spares_reserveAll (fun op hop => (hplans op hop).fitting) h₂ (fun l m₃ h₃ hown => ?_)
      (fun _ _ hs => hs) fun _ hs => hs
    dsimp only
    rw [wp_bind]
    refine wp_mono (spares_dispatchAll h₃ hown) (fun _ m₄ h₄ => ?_) (fun _ _ hs => hs) fun _ hs => hs
    dsimp only
    rw [wp_bind]
    exact spares_of_reads (reads_groupView _) h₄ (fun _ _ hs => hs) (fun _ _ hs => hs) fun _ hs => hs

theorem spares_broadcast (req : BroadcastRequest) :
    wp (broadcast home env config sign req) (spared home m Answer) m := by
  have hrefl : Spares home m m := .refl m
  rw [broadcast, wp_bind, wp_ofExcept]
  cases hplan : planBroadcast config req with
  | error e => exact hrefl
  | ok r =>
    obtain ⟨plans, fingerprint⟩ := r
    dsimp only
    rw [wp_bind]
    refine spares_of_reads (reads_read _) hrefl (fun found m₁ h₁ => ?_) (fun _ _ hs => hs)
      fun _ hs => hs
    dsimp only
    cases found with
    | some existing =>
      dsimp only
      split
      · rw [wp_bind]
        exact spares_of_reads (reads_groupView _) h₁ (fun _ _ hs => hs) (fun _ _ hs => hs)
          fun _ hs => hs
      · exact h₁
    | none =>
      dsimp only
      split
      · exact h₁
      · exact spares_commitBroadcast (planBroadcast_eq_ok hplan) h₁

/-! ## What ends a receipt -/

/-- Ending a receipt gives no pending record a result. -/
def Tidy (home : Path) (a b : Hub) : Prop := Regular home a.disk → Regular home b.disk

theorem tidy_bind {β : Type} {x : Prog Memory Effect α} {f : α → Prog Memory Effect β}
    (hx : Keeps (Tidy home) x) (hf : ∀ y, Keeps (Tidy home) (f y)) : Keeps (Tidy home) (x >>= f) :=
  Keeps.bind (R := Tidy home) (fun _ _ _ h h' hreg => h' (h hreg)) hx hf

theorem tidy_catching {x : Prog Memory Effect α} {f : Failure → Prog Memory Effect α}
    (hx : Keeps (Tidy home) x) (hf : ∀ e, Keeps (Tidy home) (f e)) :
    Keeps (Tidy home) (x.catching f) :=
  Keeps.catching (R := Tidy home) (fun _ _ _ h h' hreg => h' (h hreg)) hx hf

theorem tidy_of_reads {x : Prog Memory Effect α} (hx : Keeps (Reads home) x) :
    Keeps (Tidy home) x := hx.mono fun _ _ hr => regular_same hr.1

theorem tidy_modify (f : Memory → Memory) :
    Keeps (Tidy home) (modify f : Prog Memory Effect Unit) := fun _ hreg => hreg

theorem tidy_finish {record : Json} {update : Members} (hu : Ending update) :
    Keeps (Tidy home) (finish home env record update) := by
  have hstate := hu.state record
  refine tidy_bind (fun m => ?_) fun _ => tidy_bind (tidy_modify _) fun _ =>
    tidy_of_reads (reads_pure _)
  exact wp_write_over (fun _ hw => regular_replaced hstate hw) (fun _ _ hw =>
    regular_replaced hstate hw) fun _ hw => regular_replaced hstate hw

theorem tidy_result (node key : Text) (body : Json) (caller : Except Failure Caller) :
    Keeps (Tidy home) (result home env node key body caller) := by
  refine tidy_bind (tidy_of_reads (reads_ofExcept _)) fun caller => ?_
  split
  · refine tidy_bind (tidy_of_reads (reads_read _)) fun found => ?_
    split
    · split
      · exact tidy_of_reads (reads_raise _)
      · split
        · next hvalid =>
          refine tidy_bind (tidy_of_reads (reads_ofExcept _)) fun fingerprint => ?_
          split
          · exact tidy_bind (tidy_finish (ending_resultUpdate hvalid fingerprint)) fun _ =>
              tidy_bind (tidy_of_reads reads_get) fun _ => tidy_of_reads (reads_pure _)
          · split
            · exact tidy_bind (tidy_of_reads reads_get) fun _ => tidy_of_reads (reads_pure _)
            · exact tidy_of_reads (reads_raise _)
        · exact tidy_of_reads (reads_raise _)
    · exact tidy_of_reads (reads_raise _)
  · exact tidy_of_reads (reads_raise _)

theorem tidy_timeout (key : Text) : Keeps (Tidy home) (timeout home env key) := by
  refine tidy_bind (tidy_of_reads reads_get) fun memory => ?_
  split
  · refine tidy_bind (tidy_modify _) fun _ => tidy_catching ?_ fun _ => tidy_modify _
    refine tidy_bind (tidy_of_reads (reads_read _)) fun found => ?_
    split
    · split
      · exact tidy_bind (tidy_finish (ending_lost _)) fun _ => tidy_of_reads (reads_pure _)
      · exact tidy_of_reads (reads_pure _)
    · exact tidy_of_reads (reads_pure _)
  · exact tidy_of_reads (reads_pure _)

theorem tidy_loseAll (node : Text) (records : List Json) :
    Keeps (Tidy home) (loseAll home env node records) := by
  induction records with
  | nil => exact tidy_of_reads (reads_pure _)
  | cons record records ih =>
    refine tidy_bind (tidy_of_reads reads_get) fun memory => ?_
    split
    · refine tidy_bind (tidy_catching ?_ fun _ => tidy_modify _) fun _ => ih
      exact tidy_bind (tidy_finish (ending_lost _)) fun _ => tidy_of_reads (reads_pure _)
    · exact ih

theorem tidy_closeStream (node : Text) : Keeps (Tidy home) (closeStream home env node) := by
  refine tidy_bind (tidy_modify _) fun _ => tidy_bind ?_ fun records => ?_
  · exact tidy_of_reads (reads_catching (reads_bind reads_all fun _ => reads_pure _) fun _ =>
      reads_pure _)
  · split
    · exact tidy_loseAll _ _
    · exact tidy_of_reads (reads_pure _)

/-! ## What leaves a result alone -/

/-- The slot of `k` is as it was. -/
def Leaves (home : Path) (k : Text) (a b : Hub) : Prop :=
  slot home b.disk k = slot home a.disk k

theorem Leaves.refl (k : Text) (a : Hub) : Leaves home k a a := rfl

theorem Leaves.trans (h : Leaves home k a b) (h' : Leaves home k b c) : Leaves home k a c :=
  Eq.trans h' h

theorem Recorded.left (hr : Recorded home k r a.disk) (h : Leaves home k a b) :
    Recorded home k r b.disk := hr.congr h

/-- However a program ends, the record of `k` is left alone. -/
def left (home : Path) (k : Text) (a : Hub) (α : Type) : Ensures Memory Effect α :=
  ⟨fun _ m' => Leaves home k a m', fun _ m' => Leaves home k a m', fun m' => Leaves home k a m'⟩

/-- Ending another receipt takes it out of what is active, or leaves the memory alone. -/
theorem wp_finish_other {record : Json} {update : Members} {Q : Ensures Memory Effect Json}
    (hu : Ending update) (hk : digestText k = true) (hne : keyOf record ≠ k)
    (hd : ∀ next m', Leaves home k m m' → m'.mem.active = m.mem.active.erase (keyOf record) →
      Q.done next m')
    (hr : ∀ e m', Leaves home k m m' → m'.mem = m.mem → Q.raised e m')
    (hc : ∀ m', Leaves home k m m' → Q.crashed m') : wp (finish home env record update) Q m := by
  have hkey : keyOf (spread record update) = keyOf record := (agrees_spread hu.results).keyOf_eq
  have hleft : ∀ m', ReplacedOrNot home (spread record update) m m' →
      Leaves home k m m' ∧ m'.mem = m.mem := by
    rintro m' (hw | ⟨-, -, hw⟩)
    · exact ⟨hw.1 k hk, hw.2.mem⟩
    · exact ⟨hw.other k hk (hkey ▸ hne.symm), hw.rest.mem⟩
  rw [finish, wp_bind]
  refine wp_write_over (fun m' hw => ?_) (fun e m' hw => hr e m' (hleft m' hw).1 (hleft m' hw).2)
    fun m' hw => hc m' (hleft m' hw).1
  obtain ⟨hl, hmem⟩ := hleft m' hw
  dsimp only
  rw [wp_bind, wp_modify]
  exact hd _ _ hl (congrArg (fun s => List.erase s.active (keyOf record)) hmem)

/-- The record that is read under a key is `r`, or it is one of another key. -/
theorem Recorded.read_or (hr : Recorded home k r fs) {j : Text} {record : Json}
    (h : observe home fs j = .ok (some record)) : record = r ∨ keyOf record ≠ k := by
  by_cases hj : j = k
  · subst hj
    exact .inl (Option.some.inj (Except.ok.inj (h.symm.trans hr.read)))
  · exact .inr (keyOf_of_observe h ▸ hj)

theorem Recorded.has_fingerprint (hr : Recorded home k r fs) :
    isNull (orNull (r.field "result_fingerprint")) = false := by
  have h := hr.result
  rwa [hasResult, Bool.not_eq_true'] at h

/-- **A result post** writes no record that carries a result. -/
theorem leaves_result (hr : Recorded home k r m.disk) (node key : Text) (body : Json)
    (caller : Except Failure Caller) :
    wp (result home env node key body caller) (left home k m Answer) m := by
  have hrefl : Leaves home k m m := .refl k m
  rw [result, wp_bind, wp_ofExcept]
  split
  · dsimp only
    split
    · rw [wp_bind]
      refine wp_read (fun m₁ found hm hkey hfound => ?_) (fun _ _ hm => hm.1 k hr.valid)
        fun _ hm => hm.1 k hr.valid
      have h₁ : Leaves home k m m₁ := hm.1 k hr.valid
      dsimp only
      cases found with
      | none => exact h₁
      | some record =>
        dsimp only
        split
        · exact h₁
        · split
          · next hvalid =>
            rw [wp_bind, wp_ofExcept]
            split
            · next fingerprint _ =>
              dsimp only
              split
              · next hnone =>
                rcases hr.read_or hfound with rfl | hne
                · rw [hr.has_fingerprint] at hnone
                  cases hnone
                · rw [finishWith, wp_bind]
                  exact wp_finish_other (ending_resultUpdate hvalid fingerprint) hr.valid hne
                    (fun _ _ hl _ => h₁.trans hl) (fun _ _ hl _ => h₁.trans hl)
                    fun _ hl => h₁.trans hl
              · split
                · rw [wp_bind, wp_get]
                  exact h₁
                · exact h₁
            · exact h₁
          · exact h₁
    · exact hrefl
  · exact hrefl

/-- **A timeout** ends pending records only. -/
theorem leaves_timeout (hreg : Regular home m.disk) (hr : Recorded home k r m.disk) (key : Text) :
    wp (timeout home env key) (left home k m Unit) m := by
  rw [timeout, wp_bind, wp_get]
  dsimp only
  split
  · rw [wp_bind, wp_modify]
    dsimp only
    rw [wp_catching, wp_bind]
    refine wp_read (fun m₁ found hm hkey hfound => ?_) (fun _ _ hm => hm.1 k hr.valid)
      fun _ hm => hm.1 k hr.valid
    have h₁ : Leaves home k m m₁ := hm.1 k hr.valid
    dsimp only
    cases found with
    | none => exact h₁
    | some current =>
      dsimp only
      split
      · next hpending =>
        rcases hr.read_or hfound with rfl | hne
        · exact absurd hpending (hreg k current hr)
        · rw [wp_bind]
          exact wp_finish_other (ending_lost _) hr.valid hne (fun _ _ hl _ => h₁.trans hl)
            (fun _ _ hl _ => h₁.trans hl) fun _ hl => h₁.trans hl
      · exact h₁
  · exact .refl k m

/-- The loss of a stream leaves alone what does not count as active. -/
theorem leaves_loseAll {node : Text} {records : List Json} (hk : digestText k = true)
    (h : Leaves home k a m)
    (hmine : ∀ record ∈ records, keyOf record = k → textOf (record.field "direction") = some "broker" →
      textOf (record.field "target_node") = some node → k ∉ m.mem.active) :
    wp (loseAll home env node records) (left home k a Unit) m := by
  induction records generalizing m with
  | nil => exact h
  | cons record records ih =>
    -- the active receipts only get fewer
    have hmore : ∀ m', Leaves home k a m' → m'.mem.active ⊆ m.mem.active →
        wp (loseAll home env node records) (left home k a Unit) m' := fun m' h' hsub =>
      ih h' fun q hq hkey hdir htarget hin =>
        hmine q (List.mem_cons_of_mem _ hq) hkey hdir htarget (hsub hin)
    rw [loseAll, wp_bind, wp_get]
    dsimp only
    split
    · next hcond =>
      have hne : keyOf record ≠ k := by
        intro hkey
        exact hmine record List.mem_cons_self hkey hcond.1 hcond.2.1 (hkey ▸ hcond.2.2)
      rw [wp_bind, wp_catching, wp_bind]
      refine wp_finish_other (ending_lost _) hk hne (fun _ m' hl hact => ?_) (fun _ m' hl hmem => ?_)
        fun m' hl => h.trans hl
      · exact hmore m' (h.trans hl) (hact ▸ List.erase_subset)
      · refine hmore _ (h.trans hl) ?_
        dsimp only
        rw [hmem]
        exact List.erase_subset
    · exact hmore m h (List.Subset.refl _)

/-- The stream that closes is that of a receipt that counts as active although its record carries a
result. -/
def Loses (home : Path) (k : Text) (m : Hub) : Event → Prop
  | .closeStream node => k ∈ m.mem.active ∧ ∃ r, Recorded home k r m.disk ∧
      textOf (r.field "direction") = some "broker" ∧ textOf (r.field "target_node") = some node
  | _ => False

theorem leaves_closeStream {node : Text} (hr : Recorded home k r m.disk)
    (hl : ¬ Loses home k m (.closeStream node)) :
    wp (closeStream home env node) (left home k m Unit) m := by
  rw [closeStream, wp_bind, wp_modify]
  dsimp only
  rw [wp_bind, wp_catching, wp_bind]
  refine wp_all (fun m₁ records hm _ hfrom => ?_) (fun _ _ hm => hm.1 k hr.valid)
    fun _ hm => hm.1 k hr.valid
  have h₁ : Leaves home k m m₁ := hm.1 k hr.valid
  refine leaves_loseAll hr.valid h₁ fun record hmem hkey hdir htarget hin => ?_
  obtain ⟨j, -, hobs⟩ := hfrom record hmem
  rcases hr.read_or hobs with rfl | hne
  · rw [hm.2.mem] at hin
    exact hl ⟨hin, record, hr, hdir, htarget⟩
  · exact hne hkey

/-! ## Runs -/

theorem tidy_respond {route : Prog Memory Effect Answer} (h : Keeps (Tidy home) route) :
    Keeps (Tidy home) (respond route) :=
  tidy_catching (tidy_bind h fun _ _ hreg => hreg) fun _ _ hreg => hreg

/-- The events that may end a receipt that is there. -/
def Ends : Event → Bool
  | .result .. | .timeout _ | .closeStream _ => true
  | _ => false

theorem spared_respond {route : Prog Memory Effect Answer} (h : wp route (spared home a Answer) m) :
    wp (respond route) (spared home a Unit) m := by
  rw [respond, wp_catching, wp_bind]
  exact wp_mono h (fun _ _ hs => ⟨hs.kept, hs.regular⟩) (fun _ _ hs => ⟨hs.kept, hs.regular⟩)
    fun _ hs => hs

theorem spares_handle {e : Event} (he : Ends e = false) :
    wp (handle home env config sign e) (spared home m Unit) m := by
  have hrefl : Spares home m m := .refl m
  have hquery : ∀ {route : Prog Memory Effect Answer}, Keeps (Reads home) route →
      wp (respond route) (spared home m Unit) m := fun hroute =>
    spared_respond (spares_of_reads hroute hrefl (fun _ _ hs => hs) (fun _ _ hs => hs) fun _ hs => hs)
  cases e with
  | inject req => exact spared_respond (spares_injectRoute req)
  | reply req => exact spared_respond (spares_replyRoute req)
  | broadcast req => exact spared_respond (spares_broadcast req)
  | groupQuery source key caller => exact hquery (reads_groupQuery source key caller)
  | receiptQuery source key caller => exact hquery (reads_receiptQuery source key caller)
  | replyContext responder receipt caller => exact hquery (reads_replyContext responder receipt caller)
  | openStream node challenge caller =>
    rw [handle, wp_catching, openStream, wp_bind, wp_ofExcept]
    split
    · dsimp only
      rw [wp_bind, wp_get]
      dsimp only
      split
      · split
        · exact ⟨hrefl.kept, hrefl.regular⟩
        · exact ⟨hrefl.kept, hrefl.regular⟩
      · exact ⟨hrefl.kept, hrefl.regular⟩
    · exact ⟨hrefl.kept, hrefl.regular⟩
  | restart => exact ⟨hrefl.kept, hrefl.regular⟩
  | result | timeout | closeStream => cases he

theorem tidy_handle (e : Event) :
    wp (handle home env config sign e) ⟨fun _ m' => Tidy home m m', fun _ m' => Tidy home m m',
      fun m' => Tidy home m m'⟩ m := by
  by_cases he : Ends e = true
  · cases e with
    | result node key body caller =>
      exact tidy_respond (tidy_result node key body caller) m
    | timeout key => exact tidy_timeout key m
    | closeStream node => exact tidy_closeStream node m
    | _ => cases he
  · exact wp_mono (spares_handle (Bool.eq_false_iff.mpr he)) (fun _ _ hs => hs.regular)
      (fun _ _ hs => hs.regular) fun _ hs => hs.regular

theorem leaves_handle {e : Event} (hreg : Regular home m.disk) (hr : Recorded home k r m.disk)
    (hl : ¬ Loses home k m e) :
    wp (handle home env config sign e) (left home k m Unit) m := by
  by_cases he : Ends e = true
  · cases e with
    | result node key body caller =>
      rw [handle, respond, wp_catching, wp_bind]
      exact wp_mono (leaves_result hr node key body caller) (fun _ _ hl => hl) (fun _ _ hl => hl)
        fun _ hl => hl
    | timeout key => exact leaves_timeout hreg hr key
    | closeStream node => exact leaves_closeStream hr hl
    | _ => cases he
  · exact wp_mono (spares_handle (Bool.eq_false_iff.mpr he))
      (fun _ _ hs => hs.kept k hr.valid hr.occupied)
      (fun _ _ hs => hs.kept k hr.valid hr.occupied) fun _ hs => hs.kept k hr.valid hr.occupied

/-- What holds of the disk at every end of an event holds of it after the step. -/
theorem disk_step {P : FS → Prop} {e : Event}
    (h : wp (handle home env config sign e) ⟨fun _ m' => P m'.disk, fun _ m' => P m'.disk,
      fun m' => P m'.disk⟩ m) : P (step home env config sign m e).disk := by
  unfold wp at h
  unfold step
  split
  · next heq => rw [heq] at h; exact h
  · next heq => rw [heq] at h; exact h
  · next heq => rw [heq] at h; exact h

theorem regular_step (env : Env) (config : Config) (sign : Sign) (h : Regular home m.disk)
    (e : Event) : Regular home (step home env config sign m e).disk :=
  disk_step (wp_mono (tidy_handle e) (fun _ _ ht => ht h) (fun _ _ ht => ht h) fun _ ht => ht h)

theorem regular_run (env : Env) (config : Config) (sign : Sign) (h : Regular home m.disk)
    (es : List Event) : Regular home (run home env config sign m es).disk := by
  induction es generalizing m with
  | nil => exact h
  | cons e es ih => exact ih (regular_step env config sign h e)

/-- **A step** leaves a recorded result alone, unless it loses it. -/
theorem recorded_step (env : Env) (config : Config) (sign : Sign) (hreg : Regular home m.disk)
    (hr : Recorded home k r m.disk) {e : Event} (hl : ¬ Loses home k m e) :
    Recorded home k r (step home env config sign m e).disk :=
  disk_step (wp_mono (leaves_handle hreg hr hl) (fun _ _ h => hr.left h) (fun _ _ h => hr.left h)
    fun _ h => hr.left h)

variable (home env config sign k) in
/-- No event of the run loses the result of `k`. -/
def Unlost : Hub → List Event → Prop
  | _, [] => True
  | m, e :: es => ¬ Loses home k m e ∧ Unlost (step home env config sign m e) es

theorem recorded_run (hreg : Regular home m.disk) (hr : Recorded home k r m.disk) {es : List Event}
    (hl : Unlost home env config sign k m es) :
    Recorded home k r (run home env config sign m es).disk := by
  induction es generalizing m with
  | nil => exact hr
  | cons e es ih =>
    exact ih (regular_step env config sign hreg e) (recorded_step env config sign hreg hr hl.1) hl.2

/-! ## Answers -/

/-- A record that is not pending looks the same whatever is active. -/
theorem view_of_not_pending (active : List Text) (h : recordState r ≠ ("pending" : Text)) :
    view active r = view [] r := by
  have hshown : ∀ active, shownState active r = recordState r := fun active => by
    rw [shownState, if_neg fun hc => h hc.1]
  rw [view, view, hshown, hshown]

/-- The answer to a result post with this fingerprint. -/
def answerTo (r : Json) (fingerprint : Text) : Effect :=
  if textOf (r.field "result_fingerprint") = some fingerprint then .reply 200 (view [] r)
  else .reply 409 (refusal "IDEMPOTENCY_CONFLICT")

theorem read_eq (hk : digestText k = true) {found : Option Json} {m₁ : Hub}
    (hobs : observe home m.disk k = .ok found) (hprep : prepare home env m = .done () m₁) :
    Forward.read home env k m = .done found m₁ ∧ m₁.sent = m.sent := by
  have hreads : Reads home m m₁ := by
    have h : wp (prepare home env) ⟨fun _ m' => Reads home m m', fun _ m' => Reads home m m',
        fun m' => Reads home m m'⟩ m := reads_prepare m
    unfold wp at h
    rwa [hprep] at h
  refine ⟨?_, hreads.2.sent⟩
  have hread : wp (Forward.read home env k) ⟨fun a m' => a = found ∧ m' = m₁, fun _ _ => False,
      fun _ => False⟩ m := by
    have hprep' : wp (prepare home env) ⟨fun _ m' => m' = m₁, fun _ _ => False, fun _ => False⟩ m := by
      unfold wp
      rw [hprep]
    rw [Forward.read, wp_bind]
    refine wp_mono hprep' (fun _ m' hm => ?_) (fun _ _ hf => hf) fun _ hf => hf
    dsimp only at hm ⊢
    obtain rfl := hm
    rw [wp_bind, recordPath, if_pos hk, wp_ofExcept]
    dsimp only
    rw [wp_bind, wp_disk]
    dsimp only
    rw [observe_congr (hreads.1 k hk), hobs, wp_ofExcept]
    exact ⟨rfl, rfl⟩
  unfold wp at hread
  split at hread
  · next heq => rw [heq, hread.1, hread.2]
  · exact hread.elim
  · exact hread.elim

/-- **A result post for a record that carries a result** is compared with it. -/
theorem answer_result (hreg : Regular home m.disk) (hr : Recorded home k r m.disk) {node : Text}
    {body : Json} {caller : Caller} {fingerprint : Text} {m₁ : Hub} (hcaller : caller.id = node)
    (htarget : textOf (r.field "target_node") = some node) (hvalid : resultValid body = true)
    (hfp : canonicalHash body = .ok fingerprint) (hprep : prepare home env m = .done () m₁) :
    (step home env config sign m (.result node k body (.ok caller))).sent =
      m.sent ++ [(answerTo r fingerprint, m₁.disk)] := by
  obtain ⟨hread, hsent⟩ := read_eq hr.valid hr.read hprep
  have hw : wp (handle home env config sign (.result node k body (.ok caller)))
      ⟨fun _ m' => m'.sent = m.sent ++ [(answerTo r fingerprint, m₁.disk)], fun _ _ => False,
        fun _ => False⟩ m := by
    have hread' : wp (Forward.read home env k) ⟨fun a m' => a = some r ∧ m' = m₁, fun _ _ => False,
        fun _ => False⟩ m := by
      unfold wp
      rw [hread]
      exact ⟨rfl, rfl⟩
    rw [handle, respond, wp_catching, wp_bind, result, wp_bind, wp_ofExcept]
    dsimp only
    rw [if_pos hcaller, wp_bind]
    refine wp_mono hread' (fun a m' hm => ?_) (fun _ _ hf => hf.elim) fun _ hf => hf
    obtain ⟨rfl, rfl⟩ := hm
    dsimp only
    rw [if_neg (not_not_intro htarget), if_pos hvalid, wp_bind, wp_ofExcept, hfp]
    dsimp only
    rw [hr.has_fingerprint, if_neg Bool.false_ne_true, answerTo]
    split
    · rw [wp_bind, wp_get]
      dsimp only
      rw [wp_pure]
      dsimp only
      rw [view_of_not_pending _ (hreg k r hr), wp_post, hsent]
    · rw [wp_raise]
      dsimp only
      rw [wp_post, hsent]
      rfl
  unfold wp at hw
  unfold step
  split
  · next heq => rw [heq] at hw; exact hw
  · next heq => rw [heq] at hw; exact hw.elim
  · next heq => rw [heq] at hw; exact hw.elim

/-- **A recorded result is final**, as long as no stream is lost of a node whose receipt counts as
active although its record carries a result: whatever else happens, the record stays as it is, the
same result is answered with it, and another one is refused. -/
theorem recorded_final (home : Path) (env : Env) (config : Config) (sign : Sign) {fs : FS}
    (hreg : Regular home fs) (es later : List Event) {k : Text} {r : Json}
    (hr : Recorded home k r (run home env config sign (fresh fs) es).disk)
    (hl : Unlost home env config sign k (run home env config sign (fresh fs) es) later) :
    Recorded home k r (run home env config sign (fresh fs) (es ++ later)).disk ∧
    ∀ node body caller fingerprint m₁, caller.id = node →
      textOf (r.field "target_node") = some node → resultValid body = true →
      canonicalHash body = .ok fingerprint →
      prepare home env (run home env config sign (fresh fs) (es ++ later)) = .done () m₁ →
      (step home env config sign (run home env config sign (fresh fs) (es ++ later))
        (.result node k body (.ok caller))).sent =
          (run home env config sign (fresh fs) (es ++ later)).sent ++
            [(answerTo r fingerprint, m₁.disk)] := by
  have hsplit : run home env config sign (fresh fs) (es ++ later) =
      run home env config sign (run home env config sign (fresh fs) es) later :=
    List.foldl_append ..
  have hreg' : Regular home (run home env config sign (fresh fs) es).disk :=
    regular_run env config sign hreg es
  rw [hsplit]
  have hfinal := recorded_run hreg' hr hl
  refine ⟨hfinal, fun node body caller fingerprint m₁ hcaller htarget hvalid hfp hprep => ?_⟩
  exact answer_result (regular_run env config sign hreg' later) hfinal hcaller htarget hvalid hfp hprep

/-! ## A result that is lost -/

theorem regular_of_no_slots (h : ∀ k, slot home fs k = none) : Regular home fs :=
  fun k _ hr => absurd (h k) hr.occupied

/-- A disk with a home and no ledger. -/
def onlyHome : FS := OrdMap.set OrdMap.empty ["h"] .dir

theorem regular_onlyHome : Regular ["h"] onlyHome :=
  regular_of_no_slots fun _ => OrdMap.get?_set_of_ne _ (recordFile_ne_of_length (by decide))

def hubConfig : Config where
  nodes := OrdMap.set (OrdMap.set OrdMap.empty "a" ⟨"ka", ⟨100, 10, 1000, 10⟩⟩) "b"
    ⟨"kb", ⟨100, 10, 1000, 10⟩⟩
  keys := .empty

def emptyProof : Sign := fun _ _ _ _ => .ok []

/-- A request of the node `a` for a session of the node `b`. -/
def askB : InjectRequest where
  source := "a"
  target := "b"
  sid := "s"
  body := .obj [("prompt", .str "x"), ("expected_epoch", .str "e"),
    ("idempotency_key", .str (List.replicate 16 'k'))]
  caller := .ok ⟨"a", "ka"⟩
  wires := fun _ => ⟨false, 0, false⟩

def askKey : Text := injectKey "a" askB.body

/-- The node `b` accepted it. -/
def acceptedB : Json := .obj [("state", .str "accepted"), ("inject_id", .str "i")]

def resultB : Event := .result "b" askKey acceptedB (.ok ⟨"b", "kb"⟩)

def askedAndAnswered : List Event :=
  [.openStream "b" (List.replicate 16 'c') (.ok ⟨"b", "kb"⟩), .inject askB, resultB]

/-- The operation with this number fails. -/
def failsAt (n : Nat) : Env where
  fate := fun i => if i = n then .fail 0 (.other "EIO") else .perform
  now := fun _ => 0
  random := fun _ => ['t']

/-- The state of the record of `askB`, where it went, and whether it carries a result. -/
def askedState (m : Hub) : Option (Text × Option Text × Bool) :=
  match observe ["h"] m.disk askKey with
  | .ok (some r) => some (recordState r, textOf (r.field "target_node"), hasResult r)
  | _ => none

theorem askedState_eq_some {m : Hub} {state : Text} {target : Option Text} {b : Bool}
    (h : askedState m = some (state, target, b)) :
    ∃ r, observe ["h"] m.disk askKey = .ok (some r) ∧ recordState r = state ∧
      textOf (r.field "target_node") = target ∧ hasResult r = b := by
  rw [askedState] at h
  split at h
  · next r hr =>
    obtain ⟨hstate, hrest⟩ := Prod.mk.inj (Option.some.inj h)
    exact ⟨r, hr, hstate, Prod.mk.inj hrest⟩
  · cases h

def isDone (x : Outcome Memory Effect Unit) : Bool :=
  match x with
  | .done _ _ => true
  | _ => false

/-- The `fsync` after the rename of the result fails. -/
def answeredB : Hub := run ["h"] (failsAt 33) hubConfig emptyProof (fresh onlyHome) askedAndAnswered

set_option maxRecDepth 100000 in
theorem askedStates : (askedState answeredB,
    askedState (step ["h"] (failsAt 33) hubConfig emptyProof answeredB (.closeStream "b")),
    isDone (prepare ["h"] (failsAt 33) (step ["h"] (failsAt 33) hubConfig emptyProof answeredB
      resultB))) =
      (some (("accepted" : Text), some ("b" : Text), true),
        some (("outcome_unknown" : Text), some ("b" : Text), true), true) := by
  decide +kernel

theorem run_snoc (es : List Event) (e : Event) :
    run home env config sign m (es ++ [e]) =
      step home env config sign (run home env config sign m es) e := by
  rw [run, List.foldl_append, List.foldl_cons, List.foldl_nil, ← run]

/-- An accepted result that is posted again, and again. -/
theorem recorded_final_again : ∃ (r : Json) (fingerprint : Text) (m₁ : Hub),
    recordState r = ("accepted" : Text) ∧
    canonicalHash acceptedB = .ok fingerprint ∧
    Recorded ["h"] askKey r (run ["h"] (failsAt 33) hubConfig emptyProof (fresh onlyHome)
      (askedAndAnswered ++ [resultB])).disk ∧
    (step ["h"] (failsAt 33) hubConfig emptyProof (run ["h"] (failsAt 33) hubConfig emptyProof
      (fresh onlyHome) (askedAndAnswered ++ [resultB])) resultB).sent =
        (run ["h"] (failsAt 33) hubConfig emptyProof (fresh onlyHome)
          (askedAndAnswered ++ [resultB])).sent ++ [(answerTo r fingerprint, m₁.disk)] := by
  obtain ⟨hstate, hrest⟩ := Prod.mk.inj askedStates
  obtain ⟨-, hdone⟩ := Prod.mk.inj hrest
  obtain ⟨r, hobs, haccepted, htarget, hresult⟩ := askedState_eq_some hstate
  obtain ⟨fingerprint, hfp⟩ : ∃ fingerprint, canonicalHash acceptedB = .ok fingerprint := ⟨_, rfl⟩
  have hr : Recorded ["h"] askKey r answeredB.disk := ⟨digestText_hash _, hobs, hresult⟩
  obtain ⟨hfinal, hanswer⟩ := recorded_final ["h"] (failsAt 33) hubConfig emptyProof
    regular_onlyHome askedAndAnswered [resultB] hr ⟨id, trivial⟩
  rw [run_snoc] at hfinal hanswer ⊢
  cases hprep : prepare ["h"] (failsAt 33) (step ["h"] (failsAt 33) hubConfig emptyProof answeredB
    resultB) with
  | done u m₁ =>
    exact ⟨r, fingerprint, m₁, haccepted, hfp, hfinal,
      hanswer "b" acceptedB ⟨"b", "kb"⟩ fingerprint m₁ rfl htarget (by decide) hfp hprep⟩
  | raised e m₁ =>
    rw [hprep] at hdone
    cases hdone
  | crashed m₁ =>
    rw [hprep] at hdone
    cases hdone

/-- **The loss of a stream ends a receipt whose result is stored**: its write was reported as failed
after the rename, so the receipt still counts as active. -/
theorem result_lost : ¬ ∀ (home : Path) (env : Env) (config : Config) (sign : Sign) (fs : FS)
    (es later : List Event) (k : Text) (r : Json), Regular home fs →
      Recorded home k r (run home env config sign (fresh fs) es).disk →
      ∀ r', observe home (run home env config sign (fresh fs) (es ++ later)).disk k = .ok (some r') →
        recordState r' = recordState r := by
  intro h
  obtain ⟨hstate, hrest⟩ := Prod.mk.inj askedStates
  obtain ⟨r, hobs, haccepted, -, hresult⟩ := askedState_eq_some hstate
  obtain ⟨r', hobs', hunknown, -⟩ := askedState_eq_some (Prod.mk.inj hrest).1
  have hafter : observe ["h"] (run ["h"] (failsAt 33) hubConfig emptyProof (fresh onlyHome)
      (askedAndAnswered ++ [.closeStream "b"])).disk askKey = .ok (some r') := by
    rw [run_snoc]
    exact hobs'
  have heq := h ["h"] (failsAt 33) hubConfig emptyProof onlyHome askedAndAnswered [.closeStream "b"]
    askKey r regular_onlyHome ⟨digestText_hash _, hobs, hresult⟩ r' hafter
  rw [haccepted, hunknown] at heq
  have : ("outcome_unknown" : Text) = "accepted" := heq
  exact absurd this (by decide)

end Telepty.Broker
