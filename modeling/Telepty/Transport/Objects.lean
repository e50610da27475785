import Telepty.Transport.Ownership

/-!
# The record objects of a daemon

A record stays one object while its name changes, and an object stands under one name. What a step makes
of the objects is said once, for every step but a connection: each record that is there afterwards was
there before, under the name that the step moves, or was made by the step; and only a socket that
re-adopts a free slot is given one.
-/

namespace Telepty.Registry

open Infra

/-! ## Names -/

/-- No record has come under a name that was free. -/
def NamesKept (sessions sessions' : OrdMap Text SessionRecord) : Prop :=
  ∀ k, sessions.get? k = none → sessions'.get? k = none

namespace NamesKept

variable {sessions sessions' : OrdMap Text SessionRecord} {id : Text} {r : SessionRecord}

theorem refl (sessions : OrdMap Text SessionRecord) : NamesKept sessions sessions := fun _ h => h

theorem set (h : NamesKept sessions sessions') (hget : sessions.get? id = some r)
    (r' : SessionRecord) : NamesKept sessions (sessions'.set id r') := by
  intro k hk
  rw [OrdMap.get?_set]
  split
  · next he =>
    rw [he, hget] at hk
    cases hk
  · exact h k hk

theorem delete (h : NamesKept sessions sessions') (id : Text) :
    NamesKept sessions (sessions'.delete id) := by
  intro k hk
  rw [OrdMap.get?_delete]
  split
  · rfl
  · exact h k hk

end NamesKept

section

variable {host : Host} {reg : Context} {id : Text} {r : SessionRecord}

variable (host reg) in
/-- A registration brings a record under its own name at most. -/
theorem names_register {call : Call} {k : Text} (hk : reg.sessions.get? k = none)
    (hid : readIdentity call.body "session_id" ≠ .ok k) :
    (register host reg call).1.sessions.get? k = none := by
  unfold register
  split
  · exact hk
  next id hread =>
    have hne : k ≠ id := by
      rintro rfl
      exact hid hread
    split
    · exact hk
    split
    · next c _ _ r hget =>
      have hwork : Reworked host id r reg (reregister host reg call c id r).1 := reworked_reregister hget
      obtain ⟨r', -, hsame⟩ := hwork.sessions
      rw [hsame, if_neg hne]
      exact hk
    · unfold registerNew
      dsimp only
      have hset : ∀ r, (reg.sessions.set id r).get? k = none := fun r => by
        rw [OrdMap.get?_set, if_neg hne]
        exact hk
      split
      · exact hk
      split
      · rw [Context.sessions_persist]
        exact hset _
      split
      · rw [Context.sessions_persist]
        exact hset _
      · rw [Context.sessions_persist, OrdMap.get?_delete, if_neg hne]
        exact hset _

theorem names_takeover (call : TakeoverCall) :
    NamesKept reg.sessions (takeover host reg call).1.sessions := by
  have hrefl := NamesKept.refl reg.sessions
  unfold takeover
  split
  · exact hrefl
  split
  · exact hrefl
  next r hget =>
    split
    · exact hrefl
    split
    · exact hrefl
    split
    · exact hrefl
    split
    · exact hrefl
    dsimp only
    split
    · show NamesKept reg.sessions ((reg.put call.id _).persist host call.saved).sessions
      rw [Context.sessions_persist]
      exact hrefl.set hget _
    · exact hrefl

theorem names_close (acknowledged : Bool) (saved : Saved) (hget : reg.sessions.get? id = some r) :
    NamesKept reg.sessions (beginDurableSessionClose host acknowledged saved id r reg).1.sessions := by
  have hrefl := NamesKept.refl reg.sessions
  have hwritten : NamesKept reg.sessions
      ((reg.put id { r with isClosing := true }).persist host saved).sessions := by
    rw [Context.sessions_persist]
    exact hrefl.set hget _
  unfold beginDurableSessionClose
  split
  · exact hrefl
  split
  · exact hrefl
  dsimp only
  split
  · exact hwritten.set hget _
  split
  · exact hrefl
  · exact hwritten.set hget _

theorem names_removeClosed (id : Text) : NamesKept reg.sessions (removeClosed id reg).sessions := by
  have hrefl := NamesKept.refl reg.sessions
  unfold removeClosed
  split
  · split
    · exact hrefl.delete id
    · exact hrefl
  · exact hrefl

end

namespace Gateway

/-! ## What a step makes of the objects -/

/-- What a step makes of the records and the sockets. A record that was there before stood under `σ` of its
name; `seats` says which socket may be given the slot of which name. -/
structure Moves (σ : Text → Text) (seats : Text → Nat → Prop) (g g' : Gateway) : Prop where
  connected : g.connected ≤ g'.connected
  created : g.created ≤ g'.created
  sockets : ∀ ws, g'.sockets.get? ws ≠ none → g.sockets.get? ws ≠ none ∨ ws < g'.connected
  apart : ∀ k j, g'.reg.sessions.get? k ≠ none → g'.reg.sessions.get? j ≠ none → σ k = σ j → k = j
  record : ∀ k r', g'.reg.sessions.get? k = some r' →
    (∃ r, g.reg.sessions.get? (σ k) = some r ∧ g'.objects k = g.objects (σ k) ∧
      ∀ ws, r'.ownerWs = some ws → r.ownerWs = some ws ∨ seats k ws) ∨
    g'.objects k = (k, g.created + 1) ∧ g.created < g'.created ∧
      ∀ ws, r'.ownerWs = some ws → seats k ws

/-- Every socket and every owner has connected, every record object was made, and it stands under one
name. -/
structure Numbered (g : Gateway) : Prop where
  came : ∀ ws, g.sockets.get? ws ≠ none → ws < g.connected
  owner : ∀ k r ws, g.reg.sessions.get? k = some r → r.ownerWs = some ws → ws < g.connected
  made : ∀ k r, g.reg.sessions.get? k = some r → (g.objects k).2 ≤ g.created
  apart : ∀ k j r r', g.reg.sessions.get? k = some r → g.reg.sessions.get? j = some r' →
    g.objects k = g.objects j → k = j

/-- Nobody owns the record object. -/
def Vacated (object : Text × Nat) (g : Gateway) : Prop :=
  ∀ k r, g.reg.sessions.get? k = some r → g.objects k = object → r.ownerWs = none

variable {g g' : Gateway} {σ : Text → Text} {seats : Text → Nat → Prop}

theorem Numbered.moves (hn : g.Numbered) (h : Moves σ seats g g')
    (hseats : ∀ k ws, seats k ws → ws < g'.connected) : g'.Numbered where
  came ws hws := by
    rcases h.sockets ws hws with hws | hws
    · exact lt_of_lt_of_le (hn.came ws hws) h.connected
    · exact hws
  owner k r' ws hr' hown := by
    rcases h.record k r' hr' with ⟨r, hr, -, howner⟩ | ⟨-, -, howner⟩
    · rcases howner ws hown with hown | hseat
      · exact lt_of_lt_of_le (hn.owner _ r ws hr hown) h.connected
      · exact hseats k ws hseat
    · exact hseats k ws (howner ws hown)
  made k r' hr' := by
    rcases h.record k r' hr' with ⟨r, hr, hobject, -⟩ | ⟨hobject, hcreated, -⟩
    · rw [hobject]
      exact le_trans (hn.made _ r hr) h.created
    · rw [hobject]
      exact hcreated
  apart k j r₁ r₂ hr₁ hr₂ he := by
    rcases h.record k r₁ hr₁ with ⟨r, hr, hk, -⟩ | ⟨hk, -, -⟩ <;>
      rcases h.record j r₂ hr₂ with ⟨r', hr', hj, -⟩ | ⟨hj, -, -⟩
    · refine h.apart k j ?_ ?_ (hn.apart _ _ r r' hr hr' ?_)
      · rw [hr₁]
        exact Option.some_ne_none _
      · rw [hr₂]
        exact Option.some_ne_none _
      · rw [← hk, ← hj, he]
    -- an object that was made by the step has a number of its own
    · have := hn.made _ r hr
      rw [← hk, he, hj] at this
      exact absurd this (Nat.not_succ_le_self _)
    · have := hn.made _ r' hr'
      rw [← hj, ← he, hk] at this
      exact absurd this (Nat.not_succ_le_self _)
    · rw [hk, hj] at he
      exact congrArg Prod.fst he

/-- A slot stays free unless the step seats somebody there. -/
theorem Vacated.moves {object : Text × Nat} (hv : g.Vacated object) (hmade : object.2 ≤ g.created)
    (h : Moves σ seats g g') (hseats : ∀ k r ws, g.reg.sessions.get? (σ k) = some r →
      g.objects (σ k) = object → ¬seats k ws) : g'.Vacated object := by
  intro k r' hr' hk
  rcases h.record k r' hr' with ⟨r, hr, hobject, howner⟩ | ⟨hobject, -, -⟩
  · rw [hobject] at hk
    cases hown : r'.ownerWs with
    | none => rfl
    | some ws =>
      rcases howner ws hown with hr₀ | hseat
      · rw [hv _ r hr hk] at hr₀
        cases hr₀
      · exact absurd hseat (hseats k r ws hr hk)
  · rw [← hk, hobject] at hmade
    exact absurd hmade (Nat.not_succ_le_self _)

/-! ## The steps that are no connection -/

/-- Nobody is seated. -/
def Unseated : Text → Nat → Prop := fun _ _ => False

/-- A record that is owned was owned by the same socket. -/
theorem owner_of_slotsKept {k : Text} {r r' : SessionRecord} {ws : Nat}
    (hslots : SlotsKept g.reg.sessions g'.reg.sessions) (hr : g.reg.sessions.get? k = some r)
    (hr' : g'.reg.sessions.get? k = some r') (hws : r'.ownerWs = some ws) :
    r.ownerWs = some ws := by
  rcases hslots k r' hr' with hnone | ⟨r₀, hr₀, hslot⟩
  · rw [hnone] at hws
    cases hws
  · rw [hr] at hr₀
    cases hr₀
    have howner : r'.ownerWs = r.ownerWs := congrArg Prod.fst hslot
    exact howner.symm.trans hws

/-- Work on the records that keeps the names and the slots. -/
theorem moves_of_kept (hslots : SlotsKept g.reg.sessions g'.reg.sessions)
    (hnames : NamesKept g.reg.sessions g'.reg.sessions)
    (hobjects : ∀ k, g.reg.sessions.get? k ≠ none → g'.objects k = g.objects k)
    (hconnected : g'.connected = g.connected) (hcreated : g.created ≤ g'.created)
    (hsockets : ∀ ws, g'.sockets.get? ws ≠ none → g.sockets.get? ws ≠ none) :
    Moves id Unseated g g' where
  connected := hconnected.ge
  created := hcreated
  sockets ws hws := .inl (hsockets ws hws)
  apart _ _ _ _ he := he
  record k r' hr' := by
    left
    cases hk : g.reg.sessions.get? k with
    | none =>
      rw [hnames k hk] at hr'
      cases hr'
    | some r =>
      exact ⟨r, hk, hobjects k (by rw [hk]; exact Option.some_ne_none _),
        fun ws hws => .inl (owner_of_slotsKept hslots hk hr' hws)⟩

section

variable {host : Host}

theorem moves_register (call : Call) : Moves id Unseated g (g.register host call) := by
  have hslots : SlotsKept g.reg.sessions (Registry.register host g.reg call).1.sessions :=
    slotsKept_register call
  have hnames := fun k => @names_register host g.reg call k
  unfold Gateway.register
  dsimp only
  cases hread : readIdentity call.body "session_id" with
  | error e =>
    rw [hread] at hnames
    exact moves_of_kept hslots (fun k hk => hnames k hk fun he => by cases he) (fun _ _ => rfl) rfl le_rfl
      fun _ h => h
  | ok id =>
    rw [hread] at hnames
    dsimp only
    split
    · next hhas =>
      obtain ⟨r, hr⟩ := g.reg.sessions.has_iff.mp hhas
      refine moves_of_kept hslots (fun k hk => hnames k hk ?_) (fun _ _ => rfl) rfl le_rfl fun _ h => h
      rintro he
      cases he
      rw [hr] at hk
      cases hk
    · next hfree =>
      have hnone := g.reg.sessions.has_eq_false_iff.mp (Bool.not_eq_true _ ▸ hfree)
      refine ⟨le_rfl, Nat.le_succ _, fun _ h => .inl h, fun _ _ _ _ he => he, fun k r' hr' => ?_⟩
      by_cases hk : k = id
      · right
        refine ⟨?_, Nat.lt_succ_self _, fun ws hws => ?_⟩
        · rw [hk]
          exact Function.update_self ..
        · rcases hslots k r' hr' with howner | ⟨r, hr, -⟩
          · rw [howner] at hws
            cases hws
          · rw [hk, hnone] at hr
            cases hr
      · cases hget : g.reg.sessions.get? k with
        | none =>
          have hnone' := hnames k hget fun he => hk (by cases he; rfl)
          cases hnone'.symm.trans hr'
        | some r =>
          exact .inl ⟨r, hget, Function.update_of_ne hk _ _,
            fun ws hws => .inl (owner_of_slotsKept hslots hget hr' hws)⟩

theorem moves_rename (call : RenameCall) : ∃ σ, Moves σ Unseated g (g.rename host call) := by
  obtain ⟨hreg, -, hsockets, hconnected, -, hcreated⟩ := rename_fields host g call
  have hsockets : ∀ ws, (g.rename host call).sockets.get? ws ≠ none → g.sockets.get? ws ≠ none :=
    fun ws h => hsockets ▸ h
  rcases slots_renameSession host g.reg call with
    ⟨hslots, hnames⟩ | ⟨old, new, r, hold, hnew, hget, hfree, hmoved⟩
  · refine ⟨id, moves_of_kept ?_ ?_ (fun _ => objects_rename call) hconnected hcreated.ge hsockets⟩
    · rw [hreg]
      exact hslots
    · rw [hreg]
      exact hnames
  · obtain ⟨hstep, -⟩ := seat_renamed hold hnew hget hfree hmoved
    have hrecord : ∀ k, (g.rename host call).reg.sessions.get? k = if k = old then none
        else if k = new then some { r with id := new } else g.reg.sessions.get? k := by
      intro k
      rw [hreg, hmoved, OrdMap.get?_delete, OrdMap.get?_set]
    have hgone : ∀ k, (g.rename host call).reg.sessions.get? k ≠ none → k ≠ old := by
      rintro k hk rfl
      exact hk (by rw [hrecord, if_pos rfl])
    refine ⟨fun k => if k = new then old else k, hconnected.ge, hcreated.ge,
      fun ws hws => .inl (hsockets ws hws), ?_, ?_⟩
    · intro k j hk hj he
      have hk := hgone k hk
      have hj := hgone j hj
      by_cases hkn : k = new <;> by_cases hjn : j = new
      · rw [hkn, hjn]
      · rw [if_pos hkn, if_neg hjn] at he
        exact absurd he.symm hj
      · rw [if_neg hkn, if_pos hjn] at he
        exact absurd he hk
      · rwa [if_neg hkn, if_neg hjn] at he
    · intro k r' hr'
      have hk := hgone k (by rw [hr']; exact Option.some_ne_none _)
      rw [hrecord, if_neg hk] at hr'
      left
      by_cases hkn : k = new
      · rw [if_pos hkn] at hr' ⊢
        cases hr'
        refine ⟨r, hget, ?_, fun ws hws => .inl hws⟩
        rw [hstep, hkn]
        exact Function.update_self ..
      · rw [if_neg hkn] at hr' ⊢
        refine ⟨r', hr', ?_, fun ws hws => .inl hws⟩
        rw [hstep]
        exact Function.update_of_ne hkn _ _

theorem get?_shut {ws k : Nat} (hk : (g.shut ws).sockets.get? k ≠ none) : g.sockets.get? k ≠ none := by
  unfold Gateway.shut at hk
  dsimp only at hk
  split at hk
  · next s hs =>
    rw [OrdMap.get?_set] at hk
    split at hk
    · next he =>
      rw [he, hs]
      exact Option.some_ne_none _
    · exact hk
  · exact hk

/-- Work on the record of one name, which leaves `x` there. -/
structure Worked (n : Text) (x : Option SessionRecord) (g g' : Gateway) : Prop where
  sessions : ∀ k, g'.reg.sessions.get? k = if k = n then x else g.reg.sessions.get? k
  objects : g'.objects = g.objects
  created : g'.created = g.created
  connected : g.connected ≤ g'.connected
  sockets : ∀ ws, g'.sockets.get? ws ≠ none → g.sockets.get? ws ≠ none ∨ ws < g'.connected

namespace Worked

variable {n : Text} {r : SessionRecord} {x : Option SessionRecord}

theorem moves (h : Worked n x g g') (hget : g.reg.sessions.get? n = some r)
    (howner : ∀ r' ws, x = some r' → r'.ownerWs = some ws → r.ownerWs = some ws ∨ seats n ws) :
    Moves id seats g g' where
  connected := h.connected
  created := h.created.ge
  sockets := h.sockets
  apart _ _ _ _ he := he
  record k r' hr' := by
    left
    rw [h.sessions] at hr'
    rw [h.objects]
    split at hr'
    · next hk =>
      refine ⟨r, ?_, rfl, fun ws hws => ?_⟩
      · rw [hk]
        exact hget
      · rw [hk]
        exact howner r' ws hr' hws
    · exact ⟨r', hr', rfl, fun ws hws => .inl hws⟩

theorem refl (hget : g.reg.sessions.get? n = some r) : Worked n (some r) g g where
  sessions k := by
    by_cases hk : k = n
    · rw [if_pos hk, hk, hget]
    · rw [if_neg hk]
  objects := rfl
  created := rfl
  connected := le_rfl
  sockets _ h := .inl h

theorem put (h : Worked n x g g') (r' : SessionRecord) : Worked n (some r') g (g'.put n r') where
  sessions k := by
    rw [Gateway.put, Context.put, OrdMap.get?_set, h.sessions]
    split
    · rfl
    · rfl
  objects := h.objects
  created := h.created
  connected := h.connected
  sockets := h.sockets

theorem forget (h : Worked n x g g') : Worked n none g (g'.forget n) where
  sessions k := by
    rw [Gateway.forget, OrdMap.get?_delete, h.sessions]
    split
    · rfl
    · rfl
  objects := h.objects
  created := h.created
  connected := h.connected
  sockets := h.sockets

theorem note (h : Worked n x g g') (facts : List OwnerFact) : Worked n x g (g'.note facts) :=
  ⟨h.sessions, h.objects, h.created, h.connected, h.sockets⟩

/-- A socket that has connected is kept, open or closed. -/
theorem keep (h : Worked n x g g') {ws : Nat} (hws : ws < g'.connected) (s : Socket) :
    Worked n x g { g' with sockets := g'.sockets.set ws s } := by
  refine ⟨h.sessions, h.objects, h.created, h.connected, fun k hk => ?_⟩
  by_cases hkws : k = ws
  · exact .inr (hkws ▸ hws)
  · rw [OrdMap.get?_set, if_neg hkws] at hk
    exact h.sockets k hk

theorem shut (h : Worked n x g g') (ws : Nat) : Worked n x g (g'.shut ws) :=
  ⟨h.sessions, h.objects, h.created, h.connected, fun k hk => h.sockets k (get?_shut hk)⟩

theorem get?_self (h : Worked n x g g') : g'.reg.sessions.get? n = x := by
  rw [h.sessions, if_pos rfl]

end Worked

/-- The message of the socket makes it the owner of the name. -/
def Readopted (g : Gateway) (ws : Nat) (f : Frame) (k : Text) (ws' : Nat) : Prop :=
  ws' = ws ∧ g.readopts ws f = true ∧ ∃ s, g.sockets.get? ws = some s ∧ s.sessionId = k

/-- A frame is served at a record whose slot stays what it is. -/
theorem worked_serve (host : Host) (ws : Nat) (f : Frame) (type : Option Text) {n : Text}
    {r : SessionRecord} {g₀ : Gateway} (h : Worked n (some r) g₀ g) :
    ∃ r', Worked n (some r') g₀ (g.serve host ws n f type) ∧ r'.ownerWs = r.ownerWs := by
  unfold Gateway.serve
  rw [h.get?_self]
  dsimp only
  split
  · have howner : (applyOwnerFrame host f type r).ownerWs = r.ownerWs :=
      congrArg Prod.fst (slot_applyOwnerFrame host f type r)
    exact ⟨_, (h.put _).note _, howner⟩
  · exact ⟨r, h, rfl⟩

/-- A message works on the record of its socket, which owns it where it re-adopts the slot. -/
theorem worked_message (host : Host) (g : Gateway) (ws : Nat) (f : Frame) :
    g.readopts ws f = false ∧ g.message host ws f = g ∨
    ∃ s r r', g.sockets.get? ws = some s ∧ g.reg.sessions.get? s.sessionId = some r ∧
      Worked s.sessionId (some r') g (g.message host ws f) ∧
      r'.ownerWs = if g.readopts ws f then some ws else r.ownerWs := by
  unfold Gateway.message
  cases hsocket : g.sockets.get? ws with
  | none => exact .inl ⟨by rw [readopts, hsocket]; rfl, rfl⟩
  | some s =>
    cases hserved : f.served with
    | none =>
      refine .inl ⟨?_, rfl⟩
      rw [readopts, hsocket, Option.any_some, hserved]
      simp
    | some type =>
      dsimp only
      cases hattached : s.attached with
      | false =>
        refine .inl ⟨?_, rfl⟩
        rw [readopts, hsocket, Option.any_some, hattached]
        rfl
      | true =>
        rw [if_pos rfl]
        cases hget : g.reg.sessions.get? s.sessionId with
        | none =>
          refine .inl ⟨?_, rfl⟩
          rw [readopts, hsocket, Option.any_some, hget, Option.any_none, Bool.and_false]
        | some r =>
          right
          have hreadopts : g.readopts ws f = (!r.isClosing && g.mayReadopt ws s r) := by
            rw [readopts, hsocket, Option.any_some, hattached, hserved, hget]
            rfl
          rw [hreadopts]
          dsimp only
          unfold Gateway.receive
          cases hclosing : r.isClosing with
          | true => exact ⟨s, r, r, rfl, hget, .refl hget, rfl⟩
          | false =>
            rw [if_neg Bool.false_ne_true]
            cases g.mayReadopt ws s r with
            | true =>
              have hseated : Worked s.sessionId (some _) g
                  (g.readopt host ws s.sessionId f r) := ((Worked.refl hget).put _).note _
              obtain ⟨r', hworked, howner⟩ := worked_serve host ws f type hseated
              exact ⟨s, r, r', rfl, hget, hworked, howner⟩
            | false =>
              obtain ⟨r', hworked, howner⟩ := worked_serve host ws f type (.refl hget)
              exact ⟨s, r, r', rfl, hget, hworked, howner⟩

theorem moves_message (g : Gateway) (ws : Nat) (f : Frame) :
    Moves id (Readopted g ws f) g (g.message host ws f) := by
  rcases worked_message host g ws f with
    ⟨-, hsame⟩ | ⟨s, r, r', hsocket, hget, hworked, howner⟩
  · rw [hsame]
    exact ⟨le_rfl, le_rfl, fun _ h => .inl h, fun _ _ _ _ he => he,
      fun k r' hr' => .inl ⟨r', hr', rfl, fun _ h => .inl h⟩⟩
  · refine hworked.moves hget fun r₁ ws' hr₁ hws' => ?_
    cases hr₁
    rw [howner] at hws'
    split at hws'
    · next hreadopts =>
      cases hws'
      exact .inr ⟨rfl, hreadopts, s, hsocket, rfl⟩
    · exact .inl hws'

theorem moves_closed (g : Gateway) (ws now : Nat) (saved : Saved) :
    Moves id Unseated g (g.closed host ws now saved) := by
  have hgone : ∀ k, (g.sockets.delete ws).get? k ≠ none → g.sockets.get? k ≠ none := by
    intro k hk hnone
    rw [OrdMap.get?_delete, hnone, ite_self] at hk
    exact hk rfl
  unfold Gateway.closed
  dsimp only
  split
  · exact moves_of_kept (.refl _) (.refl _) (fun _ _ => rfl) rfl le_rfl fun _ h => h
  split
  · exact moves_of_kept (.refl _) (.refl _) (fun _ _ => rfl) rfl le_rfl hgone
  next s _ r hget =>
    split
    · refine moves_of_kept ?_ ?_ (fun _ _ => rfl) rfl le_rfl hgone
      · show SlotsKept g.reg.sessions (Context.persist _ _ _).sessions
        rw [Context.sessions_persist]
        exact (SlotsKept.refl _).set _ (.inl rfl)
      · show NamesKept g.reg.sessions (Context.persist _ _ _).sessions
        rw [Context.sessions_persist]
        exact (NamesKept.refl _).set hget _
    · exact moves_of_kept (.refl _) (.refl _) (fun _ _ => rfl) rfl le_rfl hgone

theorem moves_shut (g : Gateway) (ws : Nat) : Moves id Unseated g (g.shut ws) := by
  refine moves_of_kept (.refl _) (.refl _) (fun _ _ => rfl) rfl le_rfl fun k hk => ?_
  exact get?_shut hk

theorem moves_destroy (g : Gateway) (sid : Text) (acknowledged : Bool) (saved : Saved) :
    Moves id Unseated g
      { g with reg := (Event.close sid acknowledged saved).apply host g.reg } := by
  have hclose : SlotsKept g.reg.sessions ((Event.close sid acknowledged saved).apply host g.reg).sessions ∧
      NamesKept g.reg.sessions ((Event.close sid acknowledged saved).apply host g.reg).sessions := by
    unfold Event.apply
    dsimp only
    split
    · next r hget => exact ⟨slotsKept_close acknowledged saved hget, names_close acknowledged saved hget⟩
    · exact ⟨.refl _, .refl _⟩
  exact moves_of_kept hclose.1 hclose.2 (fun _ _ => rfl) rfl le_rfl fun _ h => h

/-- The traffic is a connection. -/
def Traffic.connects : Traffic → Bool
  | .connect _ => true
  | _ => false

/-- Whom the step seats, which is no connection. -/
def Seats (g : Gateway) : Traffic → Text → Nat → Prop
  | .message ws f => Readopted g ws f
  | _ => Unseated

/-- **A step** that is no connection. Whoever is seated is seated where it is. -/
theorem moves_step (host : Host) (uuid : Nat → Text) (g : Gateway) {t : Traffic} (ht : t.connects = false) :
    ∃ σ, Moves σ (g.Seats t) g (g.step host uuid t) ∧ ∀ k ws, g.Seats t k ws → σ k = k := by
  cases t with
  | connect h => cases ht
  | message ws f => exact ⟨id, moves_message g ws f, fun _ _ _ => rfl⟩
  | closing ws => exact ⟨id, moves_shut g ws, nofun⟩
  | closed ws now saved => exact ⟨id, moves_closed g ws now saved, nofun⟩
  | register call => exact ⟨id, moves_register call, nofun⟩
  | rename call =>
    obtain ⟨σ, hmoves⟩ := moves_rename (g := g) call
    exact ⟨σ, hmoves, nofun⟩
  | takeover call =>
    exact ⟨id, moves_of_kept (slotsKept_takeover call) (names_takeover call) (fun _ _ => rfl) rfl le_rfl
      fun _ h => h, nofun⟩
  | destroy sid acknowledged saved => exact ⟨id, moves_destroy g sid acknowledged saved, nofun⟩
  | remove sid =>
    exact ⟨id, moves_of_kept (slotsKept_removeClosed sid) (names_removeClosed sid) (fun _ _ => rfl) rfl
      le_rfl fun _ h => h, nofun⟩
  | collect sid saved =>
    obtain ⟨reg', hcollect, hslots, hnames⟩ := collect_eq host g saved sid
    refine ⟨id, ?_, nofun⟩
    rw [show g.step host uuid (.collect sid saved) = g.collect host saved sid from rfl, hcollect]
    exact moves_of_kept hslots hnames (fun _ _ => rfl) rfl le_rfl fun _ h => h

/-- Who is seated owns the record. -/
theorem not_vacated_of_seats (host : Host) (uuid : Nat → Text) {t : Traffic} {k : Text} {ws : Nat}
    (hseat : g.Seats t k ws) : ¬(g.step host uuid t).Vacated (g.objects k) := by
  cases t with
  | message ws₀ f =>
    obtain ⟨rfl, hreadopts, s, hs, rfl⟩ := hseat
    intro hfree
    rcases worked_message host g ws f with ⟨hnot, -⟩ | ⟨s', r, r', hs', -, hworked, howner⟩
    · rw [hnot] at hreadopts
      cases hreadopts
    · rw [hs] at hs'
      cases hs'
      rw [if_pos hreadopts, hfree s.sessionId r' hworked.get?_self (congrFun hworked.objects _)]
        at howner
      cases howner
  | connect _ | closing _ | closed _ _ _ | register _ | rename _ | takeover _ | destroy _ _ _
    | remove _ | collect _ _ => exact hseat.elim

theorem numbered_step {uuid : Nat → Text} (hn : g.Numbered) {t : Traffic} (ht : t.connects = false) :
    (g.step host uuid t).Numbered := by
  obtain ⟨σ, hmoves, -⟩ := moves_step host uuid g ht
  refine hn.moves hmoves fun k ws hseat => ?_
  cases t with
  | message ws₀ f =>
    obtain ⟨rfl, -, s, hs, -⟩ := hseat
    refine lt_of_lt_of_le (hn.came ws ?_) hmoves.connected
    rw [hs]
    exact Option.some_ne_none _
  | connect _ | closing _ | closed _ _ _ | register _ | rename _ | takeover _ | destroy _ _ _
    | remove _ | collect _ _ => exact hseat.elim

theorem numbered_started (host : Host) (now : Nat) (reg : Context) :
    (started host now reg).Numbered where
  came ws hws := absurd rfl hws
  owner k r ws hr hws := by
    rw [ownerWs_restart host now reg k r hr] at hws
    cases hws
  made _ _ _ := le_rfl
  apart _ _ _ _ _ _ he := congrArg Prod.fst he

end

end Gateway

end Telepty.Registry
