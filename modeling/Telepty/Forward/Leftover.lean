import Telepty.Forward.Layout
import Telepty.Forward.Once
import Telepty.Forward.Torn

/-!
# What a crash leaves in the ledger

A process that dies in the first write of a record leaves a part of it under its key; one that dies
in a later write leaves a temporary file. Nothing else is ever left: what the directory holds are
record files and temporary files, and a record file holds a part of a record that can be read, if it
is all there.
-/

namespace Telepty.Forward

open Infra Infra.Prog Mailbox Principal

variable {σ μ α : Type} {home : Path} {env : Env} {net : Addresses} {fs fs' : FS} {k : Text}
  {r : Json}

/-! ## Legible records -/

/-- A record that can be read back, if it is small enough. -/
structure Legible (r : Json) : Prop where
  unambiguous : unambiguous r = true
  object : r.isObject = true
  key : textOf (r.field "receipt_id") = some (keyOf r)
  fingerprint : ((r.field "fingerprint").map coerced).any digestText = true
  state : textWhere recordStates.contains (r.field "state") = true
  createdAt : isNumber (r.field "created_at") = true

theorem Legible.recordIn (h : Legible r) (hsmall : (bytesOf r).length ≤ maxRecordBytes) :
    recordIn (keyOf r) (bytesOf r) = some r :=
  recordIn_bytesOf hsmall h.unambiguous h.object h.key h.fingerprint h.state h.createdAt

/-- The slot can be read, or holds a part of a legible record of its key, and maybe all of it. -/
def Part (home : Path) (fs : FS) (k : Text) : Prop :=
  (∃ r, observe home fs k = .ok (some r)) ∨
  ∃ r b, Legible r ∧ keyOf r = k ∧ (bytesOf r).length ≤ maxRecordBytes ∧ b <+: bytesOf r ∧
    slot home fs k = some (.file b)

/-- Every slot in use can be read, or holds a part of a legible record. -/
def Parts (home : Path) (fs : FS) : Prop :=
  ∀ k, digestText k = true → slot home fs k ≠ none → Part home fs k

theorem Part.congr (h : Part home fs k) (hs : slot home fs' k = slot home fs k) :
    Part home fs' k := by
  rcases h with ⟨r, hobs⟩ | ⟨r, b, hl, hk, hsmall, hb, hslot⟩
  · exact .inl ⟨r, by rw [observe_congr hs, hobs]⟩
  · exact .inr ⟨r, b, hl, hk, hsmall, hb, hs.trans hslot⟩

theorem Parts.same (h : Parts home fs) (hs : Same home fs fs') : Parts home fs' := fun k hk hocc =>
  (h k hk (hs k hk ▸ hocc)).congr (hs k hk)

theorem Parts.filled {m m' : Machine σ μ} {b : Bytes} (h : Parts home m.disk)
    (hf : Filled home k b m m') (hl : Legible r) (hkey : keyOf r = k)
    (hsmall : (bytesOf r).length ≤ maxRecordBytes) (hb : b <+: bytesOf r) : Parts home m'.disk := by
  intro j hj hocc
  by_cases hjk : j = k
  · subst hjk
    exact .inr ⟨r, b, hl, hkey, hsmall, hb, hf.full⟩
  · have hs := hf.other j hj hjk
    exact (h j hj (hs ▸ hocc)).congr hs

theorem Parts.replacedOrNot {m m' : Machine σ μ} (h : Parts home m.disk) (hl : Legible r)
    (hw : ReplacedOrNot home r m m') : Parts home m'.disk := by
  rcases hw with hw | ⟨-, hsmall, hw⟩
  · exact h.same hw.1
  · intro j hj hocc
    by_cases hjk : j = keyOf r
    · subst hjk
      exact .inr ⟨r, _, hl, rfl, hsmall, List.prefix_rfl, hw.full⟩
    · have hs := hw.other j hj hjk
      exact (h j hj (hs ▸ hocc)).congr hs

/-- **A slot in use** can be read, or holds a proper part of a record. -/
theorem Part.read_or_torn (h : Part home fs k) :
    (∃ r, observe home fs k = .ok (some r)) ∨
    ∃ r b, Legible r ∧ keyOf r = k ∧ b <+: bytesOf r ∧ b ≠ bytesOf r ∧
      slot home fs k = some (.file b) := by
  rcases h with hobs | ⟨r, b, hl, rfl, hsmall, hb, hslot⟩
  · exact .inl hobs
  · by_cases hall : b = bytesOf r
    · subst hall
      exact .inl ⟨r, observe_of_full hslot (hl.recordIn hsmall)⟩
    · exact .inr ⟨r, b, hl, rfl, hb, hall, hslot⟩

/-! ## Small records -/

theorem nodesMembers_le {n : Nat} {ms : List (Text × Json)} (h : ∀ m ∈ ms, nodes m.2 ≤ n) :
    nodesMembers ms ≤ ms.length * n := by
  induction ms with
  | nil => exact Nat.zero_le _
  | cons m ms ih =>
    have hhead := h m List.mem_cons_self
    have hrest := ih fun x hx => h x (List.mem_cons_of_mem _ hx)
    rw [nodesMembers, List.length_cons, Nat.add_mul]
    omega

theorem depthMembers_le {d : Nat} {ms : List (Text × Json)} (h : ∀ m ∈ ms, depth m.2 ≤ d) :
    depthMembers ms ≤ d + 1 := by
  induction ms with
  | nil => exact Nat.zero_le _
  | cons m ms ih =>
    rw [depthMembers]
    exact Nat.max_le.mpr ⟨Nat.succ_le_succ (h m List.mem_cons_self),
      ih fun x hx => h x (List.mem_cons_of_mem _ hx)⟩

theorem distinctMembers_of_forall {ms : List (Text × Json)}
    (h : ∀ m ∈ ms, distinctNames m.2 = true) : distinctMembers ms = true := by
  induction ms with
  | nil => rfl
  | cons m ms ih =>
    rw [distinctMembers, h m List.mem_cons_self, ih fun x hx => h x (List.mem_cons_of_mem _ hx)]
    rfl

/-- A value of no more than `n` values, nested no deeper than `d`. -/
structure Small (n d : Nat) (v : Json) : Prop where
  nodes : nodes v ≤ n
  depth : depth v ≤ d
  distinct : distinctNames v = true

theorem Small.mono {n n' d d' : Nat} {v : Json} (h : Small n d v) (hn : n ≤ n') (hd : d ≤ d') :
    Small n' d' v := ⟨Nat.le_trans h.nodes hn, Nat.le_trans h.depth hd, h.distinct⟩

/-- An object of small members is small. -/
theorem small_obj {n d len : Nat} {ms : List (Text × Json)} (h : ∀ m ∈ ms, Small n d m.2)
    (hnodup : (ms.map Prod.fst).Nodup) (hlen : ms.length ≤ len) :
    Small (len * n + 1) (d + 1) (.obj ms) := by
  refine ⟨?_, depthMembers_le fun m hm => (h m hm).depth, ?_⟩
  · have hnodes := nodesMembers_le fun m hm => (h m hm).nodes
    have hmul : ms.length * n ≤ len * n := Nat.mul_le_mul_right n hlen
    rw [Mailbox.nodes]
    omega
  · rw [distinctNames, decide_eq_true hnodup,
      distinctMembers_of_forall fun m hm => (h m hm).distinct]
    rfl

theorem small_str (t : Text) : Small 1 0 (.str t) := ⟨Nat.le_refl 1, Nat.le_refl 0, rfl⟩

theorem small_num (n : Int) : Small 1 0 (.num n) := ⟨Nat.le_refl 1, Nat.le_refl 0, rfl⟩

theorem small_bool (b : Bool) : Small 1 0 (.bool b) := ⟨Nat.le_refl 1, Nat.le_refl 0, rfl⟩

theorem small_null : Small 1 0 .null := ⟨Nat.le_refl 1, Nat.le_refl 0, rfl⟩

/-- An object of at most `len` small members. -/
def SmallRecord (len : Nat) (r : Json) : Prop :=
  ∃ ms, r = .obj ms ∧ (∀ m ∈ ms, Small 13 1 m.2) ∧ (ms.map Prod.fst).Nodup ∧ ms.length ≤ len

theorem names_setMember (k : Text) (v : Json) (ms : List (Text × Json)) :
    (Json.setMember k v ms).map Prod.fst =
      if k ∈ ms.map Prod.fst then ms.map Prod.fst else ms.map Prod.fst ++ [k] := by
  rw [Json.setMember]
  split
  · rw [List.map_map]
    refine List.map_congr_left fun m _ => ?_
    rw [Function.comp_apply]
    split
    · rfl
    · rfl
  · rw [List.map_append]
    rfl

theorem SmallRecord.set {len : Nat} (h : SmallRecord len r) (k : Text) {v : Json}
    (hv : Small 13 1 v) : SmallRecord (len + 1) (r.set k v) := by
  obtain ⟨ms, rfl, hms, hnodup, hlen⟩ := h
  refine ⟨_, rfl, fun m hm => ?_, ?_, ?_⟩
  · rw [Json.setMember] at hm
    split at hm
    · obtain ⟨m', hm', rfl⟩ := List.mem_map.mp hm
      split
      · exact hv
      · exact hms m' hm'
    · rcases List.mem_append.mp hm with hm | hm
      · exact hms m hm
      · obtain rfl := List.mem_singleton.mp hm
        exact hv
  · rw [names_setMember]
    split
    · exact hnodup
    · next hk =>
      refine List.nodup_append.mpr ⟨hnodup, List.nodup_singleton k, ?_⟩
      rintro a ha b hb rfl
      exact hk (List.mem_singleton.mp hb ▸ ha)
  · have hnames := congrArg List.length (names_setMember k v ms)
    rw [List.length_map] at hnames
    rw [hnames]
    split
    · rw [List.length_map]
      exact Nat.le_succ_of_le hlen
    · rw [List.length_append, List.length_map, List.length_singleton]
      exact Nat.succ_le_succ hlen

theorem SmallRecord.spread {len : Nat} {members : List (Text × Json)} (h : SmallRecord len r)
    (hm : ∀ m ∈ members, Small 13 1 m.2) : SmallRecord (len + members.length) (spread r members) := by
  induction members generalizing len r with
  | nil => exact h
  | cons m members ih =>
    have hrest := ih (h.set m.1 (hm m List.mem_cons_self)) fun x hx =>
      hm x (List.mem_cons_of_mem _ hx)
    rw [List.length_cons, Nat.add_comm members.length 1, ← Nat.add_assoc]
    exact hrest

theorem SmallRecord.unambiguous {len : Nat} (h : SmallRecord len r) (hlen : len ≤ 300) :
    unambiguous r = true := by
  obtain ⟨ms, rfl, hms, hnodup, hle⟩ := h
  have hsmall := small_obj hms hnodup (Nat.le_trans hle hlen)
  rw [Mailbox.unambiguous, Bool.and_eq_true, Bool.and_eq_true]
  exact ⟨⟨decide_eq_true (Nat.le_trans hsmall.nodes (by decide)),
    decide_eq_true (Nat.le_trans hsmall.depth (by decide))⟩, hsmall.distinct⟩

/-! ## Records of the routes -/

/-- What a reservation of a route is like. -/
structure Reservation (r : Json) : Prop where
  legible : Legible r
  small : SmallRecord 8 r

/-- What the reservations of the routes add to their records. -/
structure Labels (metadata : List (Text × Json)) : Prop where
  text : ∀ m ∈ metadata, ∃ t, m.2 = .str t
  length : metadata.length ≤ 4
  names : ∀ k ∈ (["receipt_id", "fingerprint", "created_at", "state"] : List Text),
    k ∉ metadata.map Prod.fst

theorem Labels.small {metadata : List (Text × Json)} (h : Labels metadata) :
    ∀ m ∈ metadata, Small 13 1 m.2 := by
  intro m hm
  obtain ⟨t, ht⟩ := h.text m hm
  rw [ht]
  exact (small_str t).mono (by decide) (by decide)

theorem reservation_pendingRecord {key fingerprint : Text} {createdAt : Nat}
    {metadata : List (Text × Json)} (hfp : digestText fingerprint = true) (h : Labels metadata) :
    Reservation (pendingRecord key fingerprint createdAt metadata) := by
  have hsmall : SmallRecord 8 (pendingRecord key fingerprint createdAt metadata) := by
    have hbase : SmallRecord 4 (.obj [("receipt_id", .str key), ("fingerprint", .str fingerprint),
        ("created_at", .num createdAt), ("state", .str "pending")]) := by
      refine ⟨_, rfl, fun m hm => ?_, by simp only [List.map_cons, List.map_nil]; decide,
        Nat.le_refl 4⟩
      simp only [List.mem_cons, List.not_mem_nil, or_false] at hm
      rcases hm with rfl | rfl | rfl | rfl
      · exact (small_str _).mono (by decide) (by decide)
      · exact (small_str _).mono (by decide) (by decide)
      · exact (small_num _).mono (by decide) (by decide)
      · exact (small_str _).mono (by decide) (by decide)
    obtain ⟨ms, hms, hrest, hnodup, hlen⟩ := hbase.spread h.small
    have hle := h.length
    exact ⟨ms, hms, hrest, hnodup, by omega⟩
  have hfield : ∀ k ∈ (["receipt_id", "fingerprint", "created_at", "state"] : List Text),
      (pendingRecord key fingerprint createdAt metadata).field k =
        (Json.obj [("receipt_id", .str key), ("fingerprint", .str fingerprint),
          ("created_at", .num createdAt), ("state", .str "pending")]).field k := fun k hk =>
    field_pendingRecord (h.names k hk)
  refine ⟨⟨hsmall.unambiguous (by decide), isObject_spread rfl, ?_, ?_, ?_, ?_⟩, hsmall⟩
  · rw [keyOf_pendingRecord (h.names _ (by decide)), hfield _ (by decide)]
    rfl
  · rw [hfield _ (by decide)]
    exact hfp
  · rw [hfield _ (by decide)]
    rfl
  · rw [hfield _ (by decide)]
    rfl

/-- **A reservation is ended** with a legible record. -/
theorem Reservation.ended {state : Text} {members : List (Text × Json)} (h : Reservation r)
    (hs : recordStates.contains state = true) (hnone : ("state" : Text) ∉ members.map Prod.fst)
    (hresults : ∀ k ∈ members.map Prod.fst, k ∈ resultFields) (hlen : members.length ≤ 9)
    (hsmall : ∀ m ∈ members, Small 13 1 m.2) :
    Legible (spread r (("state", .str state) :: members)) := by
  have hall : ∀ k ∈ ((("state" : Text), Json.str state) :: members).map Prod.fst,
      k ∈ resultFields := by
    intro k hk
    rcases List.mem_cons.mp hk with rfl | hk
    · exact show ("state" : Text) ∈ resultFields by decide
    · exact hresults k hk
  have hag := agrees_spread (r := r) hall
  have hrecord : SmallRecord (8 + ((("state" : Text), Json.str state) :: members).length)
      (spread r (("state", .str state) :: members)) := by
    refine h.small.spread fun m hm => ?_
    rcases List.mem_cons.mp hm with rfl | hm
    · exact (small_str _).mono (by decide) (by decide)
    · exact hsmall m hm
  rw [List.length_cons] at hrecord
  refine ⟨hrecord.unambiguous (by omega), isObject_spread h.legible.object, ?_, ?_, ?_, ?_⟩
  · rw [hag.keyOf_eq, hag "receipt_id" (by decide)]
    exact h.legible.key
  · rw [hag "fingerprint" (by decide)]
    exact h.legible.fingerprint
  · rw [spread, List.foldl_cons, ← spread, field_spread hnone, Json.field_set_self]
    exact hs
  · rw [hag "created_at" (by decide)]
    exact h.legible.createdAt

theorem labels_outbound (req : SendRequest) (body : Json) : Labels (outboundMetadata req body) := by
  refine ⟨fun m hm => ?_, Nat.le_refl 4, ?_⟩
  · simp only [outboundMetadata, List.mem_cons, List.not_mem_nil, or_false] at hm
    rcases hm with rfl | rfl | rfl | rfl
    all_goals exact ⟨_, rfl⟩
  · simp only [outboundMetadata, List.map_cons, List.map_nil]
    decide

theorem labels_inbound (req : ForwardedRequest) : Labels (inboundMetadata req) := by
  refine ⟨fun m hm => ?_, Nat.le_succ 3, ?_⟩
  · simp only [inboundMetadata, List.mem_cons, List.not_mem_nil, or_false] at hm
    rcases hm with rfl | rfl | rfl
    all_goals exact ⟨_, rfl⟩
  · simp only [inboundMetadata, List.map_cons, List.map_nil]
    decide

/-! ## Results of the routes -/

theorem small_of_isPlain {v : Json} (h : isPlain v = true) : Small 1 0 v := by
  cases v with
  | str t => exact small_str t
  | bool b => exact small_bool b
  | num n => exact small_num n
  | _ => cases h

theorem small_of_isByteCount {v : Json} (h : isByteCount v = true) : Small 1 0 v := by
  cases v with
  | null => exact small_null
  | num n => exact small_num n
  | _ => cases h

theorem small_of_asText {v : Json} {t : Text} (h : v.asText = some t) : Small 1 0 v := by
  cases v with
  | str t => exact small_str t
  | _ => cases h

/-- The names that the part of a local answer that is kept may have. -/
def receiptNames : List Text := safeFields ++ (["bytes_written", "submit"] : List Text)

theorem memberIfAny_names (name : Text) (v : Option Json) :
    ((memberIfAny name v).map Prod.fst).Sublist [name] := by
  cases v with
  | none => exact List.nil_sublist _
  | some v => exact List.Sublist.refl _

theorem filterMap_names (names : List Text) (f : Text → Option Json) :
    ((names.filterMap fun k => (f k).map fun v => (k, v)).map Prod.fst).Sublist names := by
  induction names with
  | nil => exact List.nil_sublist _
  | cons name names ih =>
    rw [List.filterMap_cons]
    split
    · exact ih.cons _
    · next m hm =>
      obtain ⟨v, -, rfl⟩ := Option.map_eq_some_iff.mp hm
      exact ih.cons_cons _

theorem small_safeReceipt (body : Json) : Small 13 1 (safeReceipt body) := by
  have hnames : ((safeFields.filterMap (fun k => ((body.field k).filter isPlain).map fun v =>
        (k, v)) ++
      memberIfAny "bytes_written" ((body.field "bytes_written").filter isByteCount) ++
      memberIfAny "submit" ((body.field "submit").filter fun v =>
        v.asText = some "skipped")).map Prod.fst).Sublist receiptNames := by
    rw [List.map_append, List.map_append, List.append_assoc]
    exact (filterMap_names _ _).append ((memberIfAny_names _ _).append (memberIfAny_names _ _))
  have hlen := hnames.length_le
  rw [List.length_map] at hlen
  have hle := Nat.le_trans hlen (show receiptNames.length ≤ 12 by decide)
  refine show Small (12 * 1 + 1) (0 + 1) _ from
    small_obj (fun m hm => ?_) (hnames.nodup (by decide)) hle
  rcases List.mem_append.mp hm with hm | hm
  · rcases List.mem_append.mp hm with hm | hm
    · obtain ⟨k, -, hk⟩ := List.mem_filterMap.mp hm
      obtain ⟨v, hv, rfl⟩ := Option.map_eq_some_iff.mp hk
      exact small_of_isPlain (Option.filter_eq_some_iff.mp hv).2
    · obtain ⟨v, hv, rfl⟩ := List.mem_map.mp hm
      exact small_of_isByteCount (Option.filter_eq_some_iff.mp (Option.mem_toList.mp hv)).2
  · obtain ⟨v, hv, rfl⟩ := List.mem_map.mp hm
    exact small_of_asText (of_decide_eq_true
      (Option.filter_eq_some_iff.mp (Option.mem_toList.mp hv)).2)

/-- **What the local handler answers** ends a reservation with a legible record. -/
theorem Reservation.legible_local (h : Reservation r) (statusCode : Nat) (body : Json) :
    Legible (spread r [("state", .str (localState statusCode body)),
      ("remote_status", .num statusCode), ("remote_receipt", safeReceipt body)]) := by
  have hstate : recordStates.contains (localState statusCode body) = true := by
    rw [localState]
    split
    · rfl
    · split <;> rfl
  refine h.ended hstate (by simp only [List.map_cons, List.map_nil]; decide)
    (by simp only [List.map_cons, List.map_nil]; decide) (by simp) fun m hm => ?_
  rcases List.mem_cons.mp hm with rfl | hm
  · exact (small_num _).mono (by decide) (by decide)
  · obtain rfl := List.mem_singleton.mp hm
    exact small_safeReceipt body

theorem orNull_of_plainText {limit : Nat} {value : Option Json} (h : plainText limit value = true) :
    ∃ t, orNull value = .str t := by
  rw [plainText, textWhere] at h
  cases value with
  | none => cases h
  | some j =>
    cases j with
    | str t =>
      cases t with
      | nil => cases h
      | cons c t => exact ⟨c :: t, rfl⟩
    | _ => cases h

/-- **What the peer answers** ends a reservation with a legible record. -/
theorem Reservation.legible_outcome {w : Waiting} (h : Reservation w.record) (answer : Answer) :
    Legible (outcomeOf w answer) := by
  have hended : ∀ (state : Text) (members : List (Text × Json)),
      recordStates.contains state = true → ("state" : Text) ∉ members.map Prod.fst →
      (∀ k ∈ members.map Prod.fst, k ∈ resultFields) → members.length ≤ 9 →
      (∀ m ∈ members, Small 1 0 m.2) → Legible (spread w.record (("state", .str state) :: members)) :=
    fun _ _ hs hnone hresults hlen hsmall => h.ended hs hnone hresults hlen fun m hm =>
      (hsmall m hm).mono (by decide) (by decide)
  have hcode : ∀ state code : Text, recordStates.contains state = true →
      Legible (spread w.record [("state", .str state), ("code", .str code)]) := by
    intro state code hs
    refine hended state _ hs (by simp only [List.map_cons, List.map_nil]; decide)
      (by simp only [List.map_cons, List.map_nil]; decide) (by simp) fun m hm => ?_
    obtain rfl := List.mem_singleton.mp hm
    exact small_str code
  have hrefused : ∀ (state code : Text) (status : Nat), recordStates.contains state = true →
      Legible (spread w.record [("state", .str state), ("remote_status", .num status),
        ("code", .str code)]) := by
    intro state code status hs
    refine hended state _ hs (by simp only [List.map_cons, List.map_nil]; decide)
      (by simp only [List.map_cons, List.map_nil]; decide) (by simp) fun m hm => ?_
    rcases List.mem_cons.mp hm with rfl | hm
    · exact small_num _
    · obtain rfl := List.mem_singleton.mp hm
      exact small_str code
  unfold outcomeOf
  split
  · exact hrefused _ _ 503 rfl
  · exact hcode _ _ rfl
  · split
    · split
      · next hvalid =>
        simp only [receiptValid, Bool.and_eq_true] at hvalid
        obtain ⟨t, ht⟩ := orNull_of_plainText hvalid.1.1.2
        rw [ht]
        refine hended "accepted" _ rfl (by simp only [List.map_cons, List.map_nil]; decide)
          (by simp only [List.map_cons, List.map_nil]; decide) (by simp) fun m hm => ?_
        simp only [List.mem_cons, List.not_mem_nil, or_false] at hm
        rcases hm with rfl | rfl | rfl
        · exact small_num _
        · exact small_str t
        · exact small_bool _
      · exact hcode _ _ rfl
    · split
      · exact hcode _ _ rfl
      · split
        · exact hrefused _ _ _ rfl
        · exact hrefused _ _ _ rfl

/-! ## What an event leaves -/

variable {a b c m m' : Node} {e : Event} {es : List Event}

/-- Every slot in use can be read or holds a part of a legible record, and the requests under way
have reservations that they may end. -/
structure Orderly (home : Path) (m : Node) : Prop where
  parts : Parts home m.disk
  waiting : ∀ w ∈ m.mem.waiting, Reservation w.record
  passed : ∀ r ∈ m.mem.passed, Reservation r

/-- A key that nothing is stored under. -/
def Unused (home : Path) (fs : FS) (k : Text) : Prop :=
  digestText k = true ∧ slot home fs k = none

/-- How a node goes on: no slot in use becomes empty, and effects are for keys that were unused. -/
structure Course (home : Path) (a b : Node) : Prop where
  orderly : Orderly home b
  occupied : ∀ k, digestText k = true → slot home a.disk k ≠ none → slot home b.disk k ≠ none
  fresh : ∃ new, reservations b = reservations a ++ new ∧ ∀ r ∈ new, Unused home a.disk (keyOf r)

theorem Course.refl (h : Orderly home a) : Course home a a :=
  ⟨h, fun _ _ hocc => hocc, [], (List.append_nil _).symm, fun _ hr => absurd hr List.not_mem_nil⟩

/-- A step that has no effect. -/
theorem Course.still (h : Course home a b) (hp : Parts home c.disk) (hd : DiskOnly b c)
    (hocc : ∀ k, digestText k = true → slot home b.disk k ≠ none → slot home c.disk k ≠ none) :
    Course home a c := by
  refine ⟨⟨hp, fun w hw => h.orderly.waiting w (hd.mem ▸ hw),
    fun r hr => h.orderly.passed r (hd.mem ▸ hr)⟩, fun k hk hslot => hocc k hk (h.occupied k hk hslot), ?_⟩
  rw [show reservations c = reservations b by rw [reservations, hd.sent, reservations]]
  exact h.fresh

theorem Course.reads (h : Course home a b) (hr : Reads home b c) : Course home a c :=
  h.still (h.orderly.parts.same hr.1) hr.2 fun k hk hocc => hr.1 k hk ▸ hocc

theorem Course.filled {bytes : Bytes} (h : Course home a b) (hf : Filled home k bytes b c)
    (hl : Legible r) (hkey : keyOf r = k) (hsmall : (bytesOf r).length ≤ maxRecordBytes)
    (hb : bytes <+: bytesOf r) : Course home a c := by
  refine h.still (h.orderly.parts.filled hf hl hkey hsmall hb) hf.rest fun j hj hocc => ?_
  by_cases hjk : j = k
  · subst hjk
    exact absurd hf.empty hocc
  · exact hf.other j hj hjk ▸ hocc

theorem Course.replaced (h : Course home a b) (hl : Legible r) (hw : ReplacedOrNot home r b c) :
    Course home a c := by
  refine h.still (h.orderly.parts.replacedOrNot hl hw) ?_ fun j hj hocc => ?_
  · rcases hw with hw | ⟨-, -, hw⟩
    · exact hw.2
    · exact hw.rest
  · rcases hw with hw | ⟨-, -, hw⟩
    · exact hw.1 j hj ▸ hocc
    · by_cases hjk : j = keyOf r
      · subst hjk
        rw [hw.full]
        nofun
      · exact hw.other j hj hjk ▸ hocc

/-- A step that only forgets. -/
theorem Course.forget (h : Course home a b) {s : Memory} (hw : s.waiting ⊆ b.mem.waiting)
    (hp : s.passed ⊆ b.mem.passed) : Course home a { b with mem := s } :=
  ⟨⟨h.orderly.parts, fun w hw' => h.orderly.waiting w (hw hw'),
    fun r hr => h.orderly.passed r (hp hr)⟩, h.occupied, h.fresh⟩

theorem Course.reply (h : Course home a b) (status : Nat) (body : Json) :
    Course home a { b with sent := b.sent ++ [(.reply status body, b.disk)] } := by
  refine ⟨⟨h.orderly.parts, h.orderly.waiting, h.orderly.passed⟩, h.occupied, ?_⟩
  rw [show reservations { b with sent := b.sent ++ [(.reply status body, b.disk)] }
    = reservations b by simp [reservations, reservationOf]]
  exact h.fresh

/-- An effect for a reservation whose key was unused. -/
theorem Course.effect {x : Effect} {s : Memory} (h : Course home a b)
    (hx : reservationOf x = some r) (hnone : Unused home a.disk (keyOf r))
    (hw : ∀ w ∈ s.waiting, Reservation w.record) (hp : ∀ r ∈ s.passed, Reservation r) :
    Course home a { b with mem := s, sent := b.sent ++ [(x, b.disk)] } := by
  obtain ⟨new, hnew, hold⟩ := h.fresh
  refine ⟨⟨h.orderly.parts, hw, hp⟩, h.occupied, new ++ [r], ?_, fun r' hr => ?_⟩
  · rw [← List.append_assoc, ← hnew]
    simp [reservations, hx]
  · rcases List.mem_append.mp hr with hr | hr
    · exact hold r' hr
    · obtain rfl := List.mem_singleton.mp hr
      exact hnone

/-- However a program ends, the node has gone on. -/
def course (home : Path) (a : Node) (α : Type) : Ensures Memory Effect α :=
  ⟨fun _ m' => Course home a m', fun _ m' => Course home a m', fun m' => Course home a m'⟩

theorem course_of_reads {x : Prog Memory Effect α} {Q : Ensures Memory Effect α}
    (hx : Keeps (Reads home) x) (h : Course home a m)
    (hd : ∀ y m', Course home a m' → Q.done y m') (hr : ∀ e m', Course home a m' → Q.raised e m')
    (hc : ∀ m', Course home a m' → Q.crashed m') : wp x Q m :=
  wp_mono (hx m) (fun y m' hm => hd y m' (h.reads hm)) (fun e m' hm => hr e m' (h.reads hm))
    fun m' hm => hc m' (h.reads hm)

theorem course_sendError {e : Failure} (h : Course home a m) :
    wp (post (sendError e)) (course home a Unit) m := by
  rw [wp_post, sendError]
  cases statusOf e.code with
  | some status => exact h.reply _ _
  | none => exact h.reply _ _

theorem course_stored (h : Course home a m) (hl : Legible r) {Q : Ensures Memory Effect Bool}
    (hd : ∀ done m', Course home a m' → Q.done done m') (hc : ∀ m', Course home a m' → Q.crashed m') :
    wp (stored home env r) Q m := by
  rw [stored, wp_catching, wp_bind]
  exact wp_write_over (fun m' hw => hd true m' (h.replaced hl hw))
    (fun _ m' hw => hd false m' (h.replaced hl hw)) fun m' hw => hc m' (h.replaced hl hw)

/-- A record that is too large is not written at all. -/
theorem wp_write_large {first : Bool} {Q : Ensures σ μ Unit} {m : Machine σ μ}
    (h : maxRecordBytes < (bytesOf r).length) (hr : ∀ e m', Reads home m m' → Q.raised e m')
    (hc : ∀ m', Reads home m m' → Q.crashed m') : wp (write home env r first) Q m := by
  rw [write, wp_bind]
  refine wp_mono (reads_prepare m) (fun _ m' hm => ?_) (fun e m' hm => hr e m' hm)
    fun m' hm => hc m' hm
  dsimp only at hm ⊢
  rw [if_pos (show maxRecordBytes < (encodeText r.stringify).length from h)]
  exact hr _ m' hm

/-- **A reservation** is one of a key that was unused. -/
theorem course_reserve {key fingerprint : Text} {metadata : List (Text × Json)}
    {Q : Ensures Memory Effect Reserved} (hfp : digestText fingerprint = true)
    (hm : Labels metadata) (h : Course home a m)
    (hd : ∀ x m', Course home a m' → (x.fresh = true →
      Reservation x.record ∧ Unused home a.disk (keyOf x.record)) → Q.done x m')
    (hr : ∀ e m', Course home a m' → Q.raised e m')
    (hc : ∀ m', Course home a m' → Q.crashed m') :
    wp (reserve home env key fingerprint metadata) Q m := by
  rw [reserve, wp_bind]
  refine wp_read (fun m₁ found h₁ hkey hfound => ?_) (fun e m' hm => hr e m' (h.reads hm))
    fun m' hm => hc m' (h.reads hm)
  have hc₁ := h.reads h₁
  cases found with
  | some existing =>
    dsimp only
    split
    · exact hd _ m₁ hc₁ fun hfresh => Bool.noConfusion hfresh
    · exact hr _ m₁ hc₁
  | none =>
    have hnone : slot home a.disk key = none := by
      by_contra hocc
      exact h.occupied key hkey hocc (slot_of_observe_none hfound)
    dsimp only
    rw [wp_bind]
    refine wp_all (fun m₂ records h₂ _ _ => ?_) (fun e m' hm => hr e m' (hc₁.reads hm))
      fun m' hm => hc m' (hc₁.reads hm)
    have hc₂ := hc₁.reads h₂
    dsimp only
    split
    · exact hr _ m₂ hc₂
    · rw [wp_bind, wp_now]
      dsimp only
      rw [wp_bind]
      have hres : Reservation (pendingRecord key fingerprint (env.now m₂.tick) metadata) :=
        reservation_pendingRecord hfp hm
      by_cases hsmall : (bytesOf (pendingRecord key fingerprint (env.now m₂.tick) metadata)).length ≤
          maxRecordBytes
      · -- whatever was written of the record
        have hpart : ∀ m', FilledInPart home
            (pendingRecord key fingerprint (env.now m₂.tick) metadata) m₂ m' → Course home a m' := by
          rintro m' (hm' | ⟨bytes, hb, hf⟩)
          · exact hc₂.reads hm'
          · exact hc₂.filled hf hres.legible rfl hsmall hb
        refine wp_write_first (fun m₃ _ hf => ?_) (fun e m' hm' => hr e m' (hpart m' hm'))
          fun m' hm' => hc m' (hpart m' hm')
        refine hd _ m₃ (hpart m₃ (.inr ⟨_, List.prefix_rfl, hf⟩)) fun _ => ⟨hres, ?_⟩
        rw [keyOf_pendingRecord (hm.names _ (by decide))]
        exact ⟨hkey, hnone⟩
      · exact wp_write_large (Nat.lt_of_not_le hsmall) (fun e m' hm' => hr e m' (hc₂.reads hm'))
          fun m' hm' => hc m' (hc₂.reads hm')

/-! ## Runs -/

theorem course_send (h : Orderly home m) (req : SendRequest) :
    wp (send home env net req) (course home m Unit) m := by
  have hrefl : Course home m m := .refl h
  rw [send, wp_catching, wp_bind, wp_ofExcept]
  cases hadm : admitted net req with
  | error e => exact course_sendError hrefl
  | ok granted =>
    obtain ⟨body, peer, grant, origin⟩ := granted
    dsimp only
    rw [wp_bind]
    refine course_of_reads (reads_read _) hrefl (fun existing m₁ h₁ => ?_)
      (fun _ _ hc => course_sendError hc) fun _ hc => hc
    dsimp only
    rw [wp_bind]
    refine wp_spend (fun m₂ h₂ _ => ?_) (fun _ _ hm => course_sendError (h₁.reads hm))
      fun _ hm => h₁.reads hm
    dsimp only
    rw [wp_bind]
    refine course_reserve (digestText_outboundFingerprint req origin body) (labels_outbound req body)
      (h₁.reads h₂) (fun reserved m₃ h₃ hown => ?_) (fun _ _ hc => course_sendError hc) fun _ hc => hc
    dsimp only
    split
    · next hfresh =>
      obtain ⟨hres, hnone⟩ := hown hfresh
      rw [dispatch, wp_bind, wp_modify]
      dsimp only
      rw [wp_bind, wp_now]
      dsimp only
      rw [wp_bind, wp_post]
      dsimp only
      rw [wp_modify]
      refine h₃.effect rfl hnone (fun w hw => ?_) h₃.orderly.passed
      rcases List.mem_append.mp hw with hw | hw
      · exact h₃.orderly.waiting w hw
      · obtain rfl := List.mem_singleton.mp hw
        exact hres
    · rw [wp_bind, wp_get]
      exact h₃.reply _ _

theorem course_answered (h : Orderly home m) (i : Nat) (answer : Answer) :
    wp (answered home env i answer) (course home m Unit) m := by
  rw [answered, wp_bind, wp_get]
  dsimp only
  cases hw : m.mem.waiting[i]? with
  | none => exact Course.refl h
  | some w =>
    dsimp only
    rw [wp_bind, wp_modify]
    dsimp only
    have hres := h.waiting w (List.mem_of_getElem? hw)
    have hforget : Course home m
        { m with mem := { m.mem with waiting := m.mem.waiting.eraseIdx i } } :=
      (Course.refl h).forget (List.eraseIdx_subset ..) (List.Subset.refl _)
    rw [wp_bind]
    refine course_stored hforget (hres.legible_outcome answer) (fun done m' h' => ?_) fun _ hc => hc
    dsimp only
    rw [wp_bind, wp_get]
    dsimp only
    have herase : ∀ m'', Course home m m'' → wp (modify fun s =>
        { s with active := s.active.erase (w.record.textField "receipt_id") })
        (course home m Unit) m'' := fun m'' hc =>
      hc.forget (List.Subset.refl _) (List.Subset.refl _)
    cases done with
    | true =>
      rw [if_pos rfl, wp_bind, wp_post]
      exact herase _ (h'.reply _ _)
    | false =>
      rw [if_neg Bool.false_ne_true, wp_bind, wp_post]
      exact herase _ (h'.reply _ _)

theorem course_query (h : Orderly home m) (key : Text) :
    wp (query home env key) (course home m Unit) m := by
  have hrefl : Course home m m := .refl h
  rw [query, wp_catching]
  split
  · rw [wp_bind, wp_get]
    dsimp only
    rw [wp_bind]
    refine course_of_reads (reads_read _) hrefl (fun found m' h' => ?_)
      (fun _ _ hc => course_sendError hc) fun _ hc => hc
    dsimp only
    cases found with
    | none => exact course_sendError h'
    | some record =>
      dsimp only
      split
      · exact h'.reply _ _
      · exact course_sendError h'
  · exact course_sendError hrefl

theorem course_forwarded (h : Orderly home m) (req : ForwardedRequest) :
    wp (forwarded home env req) (course home m Unit) m := by
  have hrefl : Course home m m := .refl h
  rw [forwarded, wp_catching, wp_bind, wp_ofExcept]
  cases targetValid req with
  | error e => exact course_sendError hrefl
  | ok u =>
    dsimp only
    rw [wp_bind]
    refine course_reserve (digestText_hash _) (labels_inbound req) hrefl (fun reserved m' h' hown => ?_)
      (fun _ _ hc => course_sendError hc) fun _ hc => hc
    dsimp only
    split
    · next hfresh =>
      obtain ⟨hres, hnone⟩ := hown hfresh
      rw [wp_bind, wp_modify]
      dsimp only
      rw [wp_post]
      refine h'.effect rfl hnone h'.orderly.waiting fun r hr => ?_
      rcases List.mem_append.mp hr with hr | hr
      · exact h'.orderly.passed r hr
      · obtain rfl := List.mem_singleton.mp hr
        exact hres
    · rw [wp_bind, wp_get]
      exact h'.reply _ _

theorem course_answeredLocally (h : Orderly home m) (i statusCode : Nat) (body : Json) :
    wp (answeredLocally home env i statusCode body) (course home m Unit) m := by
  have hrefl : Course home m m := .refl h
  rw [answeredLocally, wp_bind, wp_get]
  dsimp only
  cases hr : m.mem.passed[i]? with
  | none => exact hrefl
  | some record =>
    dsimp only
    rw [wp_bind]
    have hres := h.passed record (List.mem_of_getElem? hr)
    refine course_stored hrefl (hres.legible_local statusCode body) (fun done m' h' => ?_) fun _ hc => hc
    cases done with
    | true => exact h'.reply _ _
    | false => exact h'.reply _ _

theorem course_handle (h : Orderly home m) (e : Event) :
    wp (handle home env net e) (course home m Unit) m := by
  cases e with
  | send req => exact course_send h req
  | answered i answer => exact course_answered h i answer
  | query key => exact course_query h key
  | forwarded req => exact course_forwarded h req
  | answeredLocally i statusCode body => exact course_answeredLocally h i statusCode body
  | restart => exact (Course.refl h).forget (List.nil_subset _) (List.nil_subset _)

theorem course_step (env : Env) (net : Addresses) (h : Orderly home m) (e : Event) :
    Course home m (step home env net m e) := by
  have hw : wp (handle home env net e) (course home m Unit) m := course_handle h e
  unfold wp at hw
  unfold step
  split
  · next heq => rw [heq] at hw; exact hw
  · next heq => rw [heq] at hw; exact hw
  · next heq => rw [heq] at hw; exact Course.forget hw (List.nil_subset _) (List.nil_subset _)

theorem Course.trans (h : Course home a b) (h' : Course home b c) : Course home a c := by
  obtain ⟨new, hnew, hold⟩ := h.fresh
  obtain ⟨new', hnew', hold'⟩ := h'.fresh
  refine ⟨h'.orderly, fun k hk hocc => h'.occupied k hk (h.occupied k hk hocc), new ++ new', ?_,
    fun r hr => ?_⟩
  · rw [hnew', hnew, List.append_assoc]
  · rcases List.mem_append.mp hr with hr | hr
    · exact hold r hr
    · obtain ⟨hk, hnone⟩ := hold' r hr
      refine ⟨hk, ?_⟩
      by_contra hocc
      exact h.occupied _ hk hocc hnone

theorem course_run (env : Env) (net : Addresses) (h : Orderly home m) (es : List Event) :
    Course home m (run home env net m es) := by
  induction es generalizing m with
  | nil => exact .refl h
  | cons e es ih =>
    have hstep := course_step env net h e
    exact hstep.trans (ih hstep.orderly)

end Telepty.Forward
