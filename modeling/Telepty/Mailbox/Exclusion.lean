import Telepty.Mailbox.Lock

/-!
# The mailbox lock excludes

The bakery argument. A participant that is alive and not on its way out has its ticket in place, as
its own steps left it: a ticket is removed by others only after its owner is dead or has marked it
(`Gone`). A peer that a published participant `p` has passed in its admission is gone, or is after
`p`: it has a number that is not before the one of `p`, or it is in the doorway and will read the
number of `p` before it chooses (`After`). Two holders would each be after the other.
-/

namespace Telepty.Mailbox.Lock

open Infra

variable {w w' : World} {p q x : TicketName} {s : Participant} {pc pc' : Pc} {n m : Nat}

/-! ## Names -/

theorem natText_append_injective {a b : Nat} {s t : Text}
    (h : natText a ++ '-' :: s = natText b ++ '-' :: t) : a = b ∧ s = t := by
  have hspan : ∀ (k : Nat) (u : Text), (natText k ++ '-' :: u).takeWhile Char.isDigit = natText k := by
    intro k u
    rw [List.takeWhile_append_of_pos fun c hc => isDigit_of_mem_natText hc,
      List.takeWhile_cons_of_neg (by decide), List.append_nil]
  have hab : natText a = natText b := by rw [← hspan a s, h, hspan]
  rw [hab, List.append_cancel_left_eq, List.cons.injEq] at h
  exact ⟨natText_injective hab, h.2⟩

theorem TicketName.text_injective : Function.Injective TicketName.text := by
  rintro ⟨a, s⟩ ⟨b, t⟩ h
  obtain ⟨rfl, rfl⟩ := natText_append_injective h
  rfl

/-- Two names, neither of which is before the other, are one. -/
theorem TicketName.eq_of_not_before (h : ¬ p.before q) (h' : ¬ q.before p) : p = q :=
  TicketName.text_injective (List.le_antisymm (List.not_lt.mp h') (List.not_lt.mp h))

/-! ## Where participants stand -/

/-- The participant will not hold the lock (again). -/
def Pc.leaving : Pc → Bool
  | .remove _ | .survey | .sweep _ _ _ | .done => true
  | _ => false

/-- The participant has made its ticket directory. -/
def Pc.entered : Pc → Bool
  | .mkdir => false
  | _ => true

/-- The number that the participant has published. -/
def Pc.number? : Pc → Option Nat
  | .poll n | .check n _ _ _ | .held n => some n
  | _ => none

def Entered (w : World) (q : TicketName) : Prop :=
  ∃ s, w.procs.get? q = some s ∧ s.pc.entered = true

/-- The participant is dead or on its way out. -/
def Gone (w : World) (q : TicketName) : Prop :=
  ∃ s, w.procs.get? q = some s ∧ (s.live = true → s.pc.leaving = true)

/-- The number of the participant is published, unless it is gone. -/
def Published (w : World) (q : TicketName) : Prop :=
  Gone w q ∨ ∃ s n, w.procs.get? q = some s ∧ s.pc.number? = some n

/-- The number of the participant is `n`, unless it is gone. -/
def Numbered (w : World) (q : TicketName) (n : Nat) : Prop :=
  Gone w q ∨ ∃ s, w.procs.get? q = some s ∧ s.pc.number? = some n

/-! ## The invariant -/

/-- The ticket of a participant that is not on its way out. -/
def TicketOk (tickets : Tickets) (q : TicketName) : Pc → Prop
  | .doorway | .scan _ _ _ _ | .create _ => tickets.get? q = some .empty
  | .write _ => tickets.get? q = some ⟨some [], none, false⟩
  | .rename n => tickets.get? q = some ⟨some (natText n), none, false⟩
  | .poll n | .check n _ _ _ | .held n => tickets.get? q = some ⟨none, some (natText n), false⟩
  | _ => True

/-- What the reader of a peer knows of it. -/
def ReadOk (w : World) (peer : TicketName) : Read → Prop
  | .found leaves =>
    (Leaf.departed ∈ leaves → Gone w peer) ∧ (Leaf.number ∈ leaves → Published w peer)
  | .number published | .refused published => published = true → Published w peer
  | .opening _ => Published w peer
  | .content text _ => Gone w peer ∨ ∃ n, text = natText n ∧ Numbered w peer n
  | .reap _ => Gone w peer
  | _ => True

/-- The read will find the number `n` of a published peer that does not go. -/
def Read.Fresh (n : Nat) : Read → Prop
  | .found leaves => Leaf.departed ∉ leaves
  | .content text _ => text = natText n
  | .absent | .reap _ => False
  | _ => True

/-- A participant at this point is, or will be, after the one of number `n`. -/
def After (p : TicketName) (n : Nat) (q : TicketName) : Pc → Prop
  | .scan highest peer r todo => n ≤ highest ∨ p ∈ todo ∨ peer = p ∧ r.Fresh n
  | .create m | .write m | .rename m | .poll m | .check m _ _ _ | .held m =>
    n < m ∨ n = m ∧ ¬ q.before p
  | _ => True

def Cleared (w : World) (p : TicketName) (n : Nat) (q : TicketName) : Prop :=
  ∀ s, w.procs.get? q = some s → s.live = true → After p n q s.pc

def Scanning (w : World) (peer : TicketName) (r : Read) (todo : List TicketName) : Prop :=
  Entered w peer ∧ ReadOk w peer r ∧ ∀ x ∈ todo, Entered w x

def PcOk (w : World) (p : TicketName) : Pc → Prop
  | .scan _ peer r todo | .sweep peer r todo => Scanning w peer r todo
  | .check n peer r todo => Scanning w peer r todo ∧
      ∀ q, q ≠ p → q ∈ todo ∨ q = peer ∨ Cleared w p n q
  | .held n => ∀ q, q ≠ p → Cleared w p n q
  | _ => True

structure Inv (w : World) : Prop where
  running : ∀ p s, w.procs.get? p = some s → s.live = true → p.pid ∈ w.running
  entered : ∀ p t, w.tickets.get? p = some t → Entered w p
  tickets : ∀ p s, w.procs.get? p = some s → s.live = true → TicketOk w.tickets p s.pc
  pcs : ∀ p s, w.procs.get? p = some s → s.live = true → PcOk w p s.pc

theorem inv_initial : Inv .initial where
  running p s h := by cases h
  entered p t h := by cases h
  tickets p s h := by cases h
  pcs p s h := by cases h

/-! ## What is known stays true -/

/-- Participants go forward only: they stay entered, gone, and with the number they published. -/
structure Forward (w w' : World) : Prop where
  entered : ∀ q, Entered w q → Entered w' q
  gone : ∀ q, Gone w q → Gone w' q
  numbered : ∀ q n, Numbered w q n → Numbered w' q n

theorem published_iff : Published w q ↔ ∃ n, Numbered w q n := by
  constructor
  · rintro (h | ⟨s, n, hs, hn⟩)
    · exact ⟨0, .inl h⟩
    · exact ⟨n, .inr ⟨s, hs, hn⟩⟩
  · rintro ⟨n, h | ⟨s, hs, hn⟩⟩
    · exact .inl h
    · exact .inr ⟨s, n, hs, hn⟩

theorem Forward.published (h : Forward w w') (hq : Published w q) : Published w' q := by
  obtain ⟨n, hn⟩ := published_iff.mp hq
  exact published_iff.mpr ⟨n, h.numbered q n hn⟩

theorem Forward.readOk (h : Forward w w') {r : Read} (hr : ReadOk w q r) : ReadOk w' q r := by
  cases r with
  | found names => exact ⟨fun hm => h.gone q (hr.1 hm), fun hm => h.published (hr.2 hm)⟩
  | number published => exact fun hp => h.published (hr hp)
  | refused published => exact fun hp => h.published (hr hp)
  | opening published => exact h.published hr
  | content text published =>
    rcases hr with hg | ⟨n, ht, hn⟩
    · exact .inl (h.gone q hg)
    · exact .inr ⟨n, ht, h.numbered q n hn⟩
  | reap r => exact h.gone q hr
  | _ => trivial

theorem Forward.scanning (h : Forward w w') {r : Read} {todo : List TicketName}
    (hs : Scanning w q r todo) : Scanning w' q r todo :=
  ⟨h.entered q hs.1, h.readOk hs.2.1, fun x hx => h.entered x (hs.2.2 x hx)⟩

theorem Forward.pcOk (h : Forward w w') (hpc : PcOk w p pc)
    (hcl : ∀ n q, pc.number? = some n → q ≠ p → Cleared w p n q → Cleared w' p n q) :
    PcOk w' p pc := by
  cases pc with
  | scan highest peer r todo => exact h.scanning hpc
  | sweep peer r todo => exact h.scanning hpc
  | check n peer r todo =>
    refine ⟨h.scanning hpc.1, fun q hq => ?_⟩
    rcases hpc.2 q hq with hm | he | hc
    · exact .inl hm
    · exact .inr (.inl he)
    · exact .inr (.inr (hcl n q rfl hq hc))
  | held n => exact fun q hq => hcl n q rfl hq (hpc q hq)
  | _ => trivial

/-! ## A step of one participant -/

theorem After.of_leaving (h : pc.leaving = true) : After p n q pc := by
  cases pc <;> trivial

theorem not_leaving_of_number (h : pc.number? = some n) : pc.leaving = false := by
  cases pc <;> first | rfl | cases h

/-- A participant moves on, and changes its own ticket and those of participants that are gone. -/
theorem Inv.move (h : Inv w) (hx : w.procs.get? x = some ⟨true, pc⟩) {tickets : Tickets}
    (henter : pc'.entered = true) (hleave : pc.leaving = true → pc'.leaving = true)
    (hnum : ∀ n, pc.number? = some n → pc'.number? = some n ∨ pc'.leaving = true)
    (hframe : ∀ q, q ≠ x → ¬ Gone w q → tickets.get? q = w.tickets.get? q)
    (hexist : ∀ q t, tickets.get? q = some t → q = x ∨ ∃ t', w.tickets.get? q = some t')
    (hticket : TicketOk tickets x pc') (hpc : PcOk w x pc')
    (hafter : ∀ p s n, p ≠ x → w.procs.get? p = some s → s.live = true → s.pc.number? = some n →
      After p n x pc → After p n x pc') :
    Inv { w with tickets := tickets, procs := w.procs.set x ⟨true, pc'⟩ } := by
  have hget : ∀ q, (w.procs.set x ⟨true, pc'⟩).get? q =
      if q = x then some ⟨true, pc'⟩ else w.procs.get? q := w.procs.get?_set
  have hfwd : Forward w { w with tickets := tickets, procs := w.procs.set x ⟨true, pc'⟩ } := by
    refine ⟨?_, ?_, ?_⟩
    · rintro q ⟨s, hs, he⟩
      by_cases hq : q = x
      · exact ⟨_, (hget q).trans (if_pos hq), henter⟩
      · exact ⟨s, (hget q).trans ((if_neg hq).trans hs), he⟩
    · rintro q ⟨s, hs, he⟩
      by_cases hq : q = x
      · subst hq
        rw [hx] at hs
        cases hs
        exact ⟨_, (hget q).trans (if_pos rfl), fun _ => hleave (he rfl)⟩
      · exact ⟨s, (hget q).trans ((if_neg hq).trans hs), he⟩
    · rintro q n (⟨s, hs, he⟩ | ⟨s, hs, hn⟩)
      · by_cases hq : q = x
        · subst hq
          rw [hx] at hs
          cases hs
          exact .inl ⟨_, (hget q).trans (if_pos rfl), fun _ => hleave (he rfl)⟩
        · exact .inl ⟨s, (hget q).trans ((if_neg hq).trans hs), he⟩
      · by_cases hq : q = x
        · subst hq
          rw [hx] at hs
          cases hs
          rcases hnum n hn with hn' | hl
          · exact .inr ⟨_, (hget q).trans (if_pos rfl), hn'⟩
          · exact .inl ⟨_, (hget q).trans (if_pos rfl), fun _ => hl⟩
        · exact .inr ⟨s, (hget q).trans ((if_neg hq).trans hs), hn⟩
  have hcleared : ∀ p s n q, w.procs.get? p = some s → s.live = true → s.pc.number? = some n →
      p ≠ x → Cleared w p n q →
      Cleared { w with tickets := tickets, procs := w.procs.set x ⟨true, pc'⟩ } p n q := by
    intro p s n q hp hl hn hpx hc s' hs' hl'
    have hs'' := (hget q).symm.trans hs'
    split at hs''
    · next hq =>
      subst hq
      cases hs''
      exact hafter p s n hpx hp hl hn (hc _ hx rfl)
    · exact hc s' hs'' hl'
  refine ⟨?_, ?_, ?_, ?_⟩
  · intro p s hs hl
    have hs' := (hget p).symm.trans hs
    split at hs'
    · next hq =>
      subst hq
      exact h.running p _ hx rfl
    · exact h.running p s hs' hl
  · intro q t ht
    rcases hexist q t ht with rfl | ⟨t', ht'⟩
    · exact ⟨_, (hget q).trans (if_pos rfl), henter⟩
    · exact hfwd.entered q (h.entered q t' ht')
  · intro p s hs hl
    have hs' := (hget p).symm.trans hs
    split at hs'
    · next hq =>
      subst hq
      cases hs'
      exact hticket
    · next hq =>
      have hok := h.tickets p s hs' hl
      have hkeep : s.pc.leaving = false → tickets.get? p = w.tickets.get? p := fun hnl =>
        hframe p hq fun ⟨s', hg, hgl⟩ => by
          rw [hs'] at hg
          cases hg
          rw [hgl hl] at hnl
          cases hnl
      cases hsp : s.pc with
      | mkdir => trivial
      | remove r => trivial
      | survey => trivial
      | sweep peer r todo => trivial
      | done => trivial
      | _ =>
        rw [hsp] at hok hkeep
        exact (hkeep rfl).trans hok
  · intro p s hs hl
    have hs' := (hget p).symm.trans hs
    split at hs'
    · next hq =>
      subst hq
      cases hs'
      refine hfwd.pcOk hpc fun n q _ hq hc => ?_
      intro s' hs'' hl'
      have hs3 := (hget q).symm.trans hs''
      rw [if_neg hq] at hs3
      exact hc s' hs3 hl'
    · next hq =>
      exact hfwd.pcOk (h.pcs p s hs' hl) fun n q hn _ hc => hcleared p s n q hs' hl hn hq hc

/-- A participant moves on and leaves the tickets alone. -/
theorem Inv.moveOnly (h : Inv w) (hx : w.procs.get? x = some ⟨true, pc⟩)
    (henter : pc'.entered = true) (hleave : pc.leaving = true → pc'.leaving = true)
    (hnum : ∀ n, pc.number? = some n → pc'.number? = some n ∨ pc'.leaving = true)
    (hticket : TicketOk w.tickets x pc') (hpc : PcOk w x pc')
    (hafter : ∀ p s n, p ≠ x → w.procs.get? p = some s → s.live = true → s.pc.number? = some n →
      After p n x pc → After p n x pc') :
    Inv { w with procs := w.procs.set x ⟨true, pc'⟩ } :=
  h.move hx henter hleave hnum (fun _ _ _ => rfl) (fun _ t ht => .inr ⟨t, ht⟩) hticket hpc hafter

/-! ## Tickets -/

theorem get?_put (tickets : Tickets) (t : Option Ticket) :
    (tickets.put q t).get? p = if p = q then t else tickets.get? p := by
  cases t with
  | some t => exact tickets.get?_set p
  | none => exact tickets.get?_delete p

/-- The directory of a participant that is in place. -/
theorem Inv.ticket_of_entered (h : Inv w) (he : Entered w q) (hg : ¬ Gone w q) :
    ∃ t, w.tickets.get? q = some t ∧ t.departed = false := by
  obtain ⟨s, hs, he⟩ := he
  have hl : s.live = true ∧ s.pc.leaving = false := by
    cases hl : s.live with
    | false => exact absurd ⟨s, hs, fun h' => by rw [hl] at h'; cases h'⟩ hg
    | true =>
      cases hp : s.pc.leaving with
      | false => exact ⟨rfl, rfl⟩
      | true => exact absurd ⟨s, hs, fun _ => hp⟩ hg
  have hok := h.tickets q s hs hl.1
  cases hsp : s.pc with
  | mkdir => rw [hsp] at he; cases he
  | remove r => rw [hsp] at hl; cases hl.2
  | survey => rw [hsp] at hl; cases hl.2
  | sweep peer r todo => rw [hsp] at hl; cases hl.2
  | done => rw [hsp] at hl; cases hl.2
  | _ =>
    rw [hsp] at hok
    exact ⟨_, hok, rfl⟩

theorem Inv.ticket_of_numbered (h : Inv w) (hn : Numbered w q n) (hg : ¬ Gone w q) :
    w.tickets.get? q = some ⟨none, some (natText n), false⟩ := by
  obtain ⟨s, hs, hn⟩ := hn.resolve_left hg
  have hl : s.live = true := by
    cases hl : s.live with
    | true => rfl
    | false => exact absurd ⟨s, hs, fun h' => by rw [hl] at h'; cases h'⟩ hg
  have hok := h.tickets q s hs hl
  cases hsp : s.pc <;> rw [hsp] at hn hok <;> first | (cases hn; exact hok) | cases hn

/-- A ticket that shows a number is of a participant that has published it, or is gone. -/
theorem Inv.published_of_number (h : Inv w) {t : Ticket} (ht : w.tickets.get? q = some t)
    (hn : t.number.isSome = true) : Published w q := by
  by_cases hg : Gone w q
  · exact .inl hg
  · obtain ⟨s, hs, he⟩ := h.entered q t ht
    have hl : s.live = true := by
      cases hl : s.live with
      | true => rfl
      | false => exact absurd ⟨s, hs, fun h' => by rw [hl] at h'; cases h'⟩ hg
    have hnl : s.pc.leaving = false := by
      cases hp : s.pc.leaving with
      | false => rfl
      | true => exact absurd ⟨s, hs, fun _ => hp⟩ hg
    have hok := h.tickets q s hs hl
    cases hsp : s.pc with
    | poll n => exact .inr ⟨s, n, hs, by rw [hsp]; rfl⟩
    | check n peer r todo => exact .inr ⟨s, n, hs, by rw [hsp]; rfl⟩
    | held n => exact .inr ⟨s, n, hs, by rw [hsp]; rfl⟩
    | mkdir => rw [hsp] at he; cases he
    | remove r => rw [hsp] at hnl; cases hnl
    | survey => rw [hsp] at hnl; cases hnl
    | sweep peer r todo => rw [hsp] at hnl; cases hnl
    | done => rw [hsp] at hnl; cases hnl
    | _ =>
      rw [hsp] at hok
      have hok : w.tickets.get? q = some _ := hok
      rw [ht] at hok
      cases hok
      cases hn

/-- A dead owner is gone. -/
theorem Inv.gone_of_not_running (h : Inv w) (he : Entered w q) (hr : q.pid ∉ w.running) :
    Gone w q := by
  obtain ⟨s, hs, -⟩ := he
  exact ⟨s, hs, fun hl => absurd (h.running q s hs hl) hr⟩

/-- An entered participant without a ticket, or with a marked one, is gone. -/
theorem Inv.gone_of_ticket (h : Inv w) (he : Entered w q)
    (ht : ∀ t, w.tickets.get? q = some t → t.departed = true) : Gone w q := by
  by_contra hg
  obtain ⟨t, ht', hd⟩ := h.ticket_of_entered he hg
  rw [ht t ht'] at hd
  cases hd

/-- A published participant whose ticket shows no number is gone. -/
theorem Inv.gone_of_no_number (h : Inv w) (hp : Published w q)
    (ht : (w.tickets.get? q).bind Ticket.number = none) : Gone w q := by
  by_contra hg
  obtain ⟨n, hn⟩ := published_iff.mp hp
  rw [h.ticket_of_numbered hn hg] at ht
  cases ht

theorem departed_mem_names {t : Ticket} : Leaf.departed ∈ t.names ↔ t.departed = true := by
  obtain ⟨draft, number, departed⟩ := t
  cases draft <;> cases number <;> cases departed <;> simp [Ticket.names]

theorem number_mem_names {t : Ticket} : Leaf.number ∈ t.names ↔ t.number.isSome = true := by
  obtain ⟨draft, number, departed⟩ := t
  cases draft <;> cases number <;> cases departed <;> simp [Ticket.names]

theorem Inv.readOk_names (h : Inv w) {t : Ticket} (ht : w.tickets.get? q = some t) :
    ReadOk w q (.found t.names) := by
  refine ⟨fun hd => h.gone_of_ticket (h.entered q t ht) fun t' ht' => ?_, fun hn => ?_⟩
  · rw [ht] at ht'
    cases ht'
    exact departed_mem_names.mp hd
  · exact h.published_of_number ht (number_mem_names.mp hn)

/-! ## Reading a peer -/

/-- What is known of the peer after a step of its reader. -/
def ReadStep.Ok (w : World) (peer : TicketName) : ReadStep → Prop
  | .more r => ReadOk w peer r
  | .seen .gone => Gone w peer
  | .seen (.number n) => Numbered w peer n
  | _ => True

theorem numberOf_natText (h : numberOf (natText n) = some m) : m = n := by
  rw [numberOf, parseNat_natText] at h
  exact (Option.some.inj (Option.filter_eq_some_iff.mp h).1).symm

theorem Inv.readStep_ok (h : Inv w) {r : Read} (he : Entered w q) (hr : ReadOk w q r) (pid : Nat)
    (o : Outcome) : (readStep w pid q r o).Ok w q := by
  have hnone : w.tickets.get? q = none → Gone w q := fun ht =>
    h.gone_of_ticket he fun t ht' => by rw [ht] at ht'; cases ht'
  have hdeparted : ∀ t, w.tickets.get? q = some t → t.departed = true → Gone w q := fun t ht hd =>
    h.gone_of_ticket he fun t' ht' => by rw [ht] at ht'; cases ht'; exact hd
  cases r with
  | stat =>
    cases o <;> simp only [readStep]
    case thrown => trivial
    case eperm => trivial
    all_goals
      split
      · trivial
      · next hs => exact hnone (by simpa using hs)
  | names =>
    cases o <;> simp only [readStep]
    case thrown => trivial
    case eperm => trivial
    all_goals
      split
      · next ht => exact hnone ht
      · next t ht => exact h.readOk_names ht
  | found leaves =>
    have hdead : q.pid ∉ w.running → Gone w q := h.gone_of_not_running he
    cases o <;> simp only [readStep]
    case thrown => trivial
    case eperm =>
      split
      · exact hr
      · split
        · next ht => exact hnone ht
        · next t ht =>
          split
          · exact h.readOk_names ht
          · trivial
    all_goals
      split
      · next hd =>
        split
        · exact hr.1 hd
        · exact hr.1 hd
      · split
        · next hp => exact hdead hp
        · exact fun hn => hr.2 (of_decide_eq_true hn)
  | number published =>
    cases o <;> simp only [readStep]
    case thrown => trivial
    case eperm => exact hr
    all_goals
      split
      · next hs =>
        cases ht : w.tickets.get? q with
        | none => rw [ht] at hs; cases hs
        | some t => rw [ht] at hs; exact h.published_of_number ht hs
      · trivial
  | absent =>
    cases o <;> simp only [readStep]
    case thrown => trivial
    case eperm => trivial
    all_goals
      split
      · next ht => exact hnone ht
      · next t ht =>
        split
        · next hd => exact hdeparted t ht hd
        · trivial
  | opening published =>
    cases o <;> simp only [readStep]
    case thrown => trivial
    case eperm => exact fun _ => hr
    all_goals
      split
      · next ht => exact h.gone_of_no_number hr ht
      · next text ht =>
        by_cases hg : Gone w q
        · exact .inl hg
        · obtain ⟨n, hn⟩ := published_iff.mp hr
          rw [h.ticket_of_numbered hn hg] at ht
          exact .inr ⟨n, (Option.some.inj ht).symm, hn⟩
  | content text published =>
    have hpub : Published w q := by
      rcases hr with hg | ⟨n, -, hn⟩
      · exact .inl hg
      · exact published_iff.mpr ⟨n, hn⟩
    cases o <;> simp only [readStep]
    case thrown => trivial
    case eperm => exact fun _ => hpub
    all_goals
      split
      · next ht => exact h.gone_of_no_number hpub (by simpa using ht)
      · split
        · next m hm =>
          rcases hr with hg | ⟨n, rfl, hn⟩
          · exact .inl hg
          · rw [numberOf_natText hm]
            exact hn
        · trivial
  | refused published =>
    cases o <;> simp only [readStep]
    case thrown => trivial
    case eperm => trivial
    all_goals
      split
      · next ht => exact hnone ht
      · next t ht =>
        split
        · next hd => exact hdeparted t ht hd
        · split
          · next hp => exact h.gone_of_no_number (hr hp.1) (by rw [ht]; exact hp.2)
          · trivial
  | reap r => cases o <;> trivial

theorem removalStep_none (reap : Bool) (r : Removal) (o : Outcome) :
    (removalStep reap none r o).1 = none := by
  cases o with
  | eperm => cases r <;> first | rfl | (rename_i b; cases b <;> rfl) | (rename_i b _ _; cases b <;> rfl)
  | thrown => rfl
  | _ => cases r <;> rfl

theorem Inv.read_ok (h : Inv w) {r : Read} (he : Entered w q) (hr : ReadOk w q r) (pid : Nat)
    (o : Outcome) : (w.read pid q r o).2.Ok w q := by
  cases r with
  | reap r =>
    rw [World.read]
    cases (removalStep true (w.tickets.get? q) r o).2 with
    | more r => exact hr
    | returned => exact hr
    | thrown => trivial
  | _ => exact h.readStep_ok he hr pid o

/-- A read changes no ticket but one of a peer that is gone. -/
theorem read_get? {r : Read} (hr : ReadOk w q r) (pid : Nat) (o : Outcome) (hg : ¬ Gone w p) :
    (w.read pid q r o).1.get? p = w.tickets.get? p := by
  cases r with
  | reap r =>
    have hne : p ≠ q := fun he => hg (he ▸ hr)
    rw [World.read]
    cases (removalStep true (w.tickets.get? q) r o).2 <;>
      exact (get?_put w.tickets _).trans (if_neg hne)
  | _ => rfl

theorem read_exists {r : Read} (pid : Nat) (o : Outcome) {t : Ticket}
    (ht : (w.read pid q r o).1.get? p = some t) : ∃ t', w.tickets.get? p = some t' := by
  cases r with
  | reap r =>
    have hput : (w.read pid q (.reap r) o).1 =
        w.tickets.put q (removalStep true (w.tickets.get? q) r o).1 := by
      rw [World.read]
      split <;> rfl
    rw [hput, get?_put] at ht
    split at ht
    · next hq =>
      subst hq
      cases hk : w.tickets.get? p with
      | some k => exact ⟨k, rfl⟩
      | none =>
        rw [hk, removalStep_none] at ht
        cases ht
    · exact ⟨t, ht⟩
  | _ => exact ⟨t, ht⟩

/-- A step of a read that is to find the number `n`. -/
def ReadStep.Fresh (n : Nat) : ReadStep → Prop
  | .more r => r.Fresh n
  | .seen .unresolved => True
  | .seen (.number m) => m = n
  | .seen _ => False
  | .thrown => True

/-- The number of a published participant that does not go is found. -/
theorem read_fresh {r : Read} (hf : r.Fresh n) (hrun : p.pid ∈ w.running)
    (ht : w.tickets.get? p = some ⟨none, some (natText n), false⟩) (pid : Nat) (o : Outcome) :
    (w.read pid p r o).2.Fresh n := by
  have hnames : (⟨none, some (natText n), false⟩ : Ticket).names = [.number] := rfl
  cases r with
  | absent => exact hf.elim
  | reap r => exact hf.elim
  | found leaves =>
    have hd : Leaf.departed ∉ leaves := hf
    cases o <;> simp only [World.read, readStep, ht, hnames, if_neg hd, hrun, not_true_eq_false,
      if_false]
    case thrown => trivial
    case eperm =>
      rw [if_neg (by decide)]
      trivial
    all_goals trivial
  | content text published =>
    have hx : text = natText n := hf
    subst hx
    cases o <;> simp only [World.read, readStep, ht, Option.bind_some, Option.isNone_some]
    case thrown => trivial
    case eperm => trivial
    all_goals
      rw [if_neg (by decide)]
      split
      · next m hm => exact numberOf_natText hm
      · trivial
  | stat =>
    cases o <;> simp only [World.read, readStep, ht, Option.isSome_some, if_true] <;> trivial
  | names =>
    cases o <;> simp only [World.read, readStep, ht, hnames]
    case thrown => trivial
    case eperm => trivial
    all_goals exact (by decide : Leaf.departed ∉ [Leaf.number])
  | number published =>
    cases o <;> simp only [World.read, readStep, ht, Option.bind_some, Option.isSome_some,
      if_true] <;> trivial
  | opening published =>
    cases o <;> simp only [World.read, readStep, ht, Option.bind_some]
    case thrown => trivial
    case eperm => trivial
    all_goals exact (rfl : natText n = natText n)
  | refused published =>
    cases o <;> simp only [World.read, readStep, ht]
    case thrown => trivial
    case eperm => trivial
    all_goals
      rw [if_neg (by decide), if_neg (by simp)]
      trivial

/-! ## The next peer -/

theorem nextScan_entered (k : Nat) (todo : List TicketName) : (nextScan k todo).entered = true := by
  unfold nextScan
  split
  · split <;> rfl
  · rfl

theorem nextScan_ticketOk {tickets : Tickets} (h : tickets.get? x = some .empty) (k : Nat)
    (todo : List TicketName) : TicketOk tickets x (nextScan k todo) := by
  unfold nextScan
  split
  · split
    · trivial
    · exact h
  · exact h

theorem nextScan_pcOk {todo : List TicketName} (h : ∀ y ∈ todo, Entered w y) (k : Nat) :
    PcOk w x (nextScan k todo) := by
  cases todo with
  | nil =>
    rw [nextScan]
    split <;> trivial
  | cons y todo =>
    exact ⟨h y List.mem_cons_self, trivial, fun z hz => h z (List.mem_cons_of_mem y hz)⟩

/-- The doorway does not end before the number of a peer to come was read. -/
theorem nextScan_after {k : Nat} {todo : List TicketName} (h : n ≤ k ∨ p ∈ todo) :
    After p n x (nextScan k todo) := by
  cases todo with
  | nil =>
    have hk : n ≤ k := h.resolve_right List.not_mem_nil
    rw [nextScan]
    split
    · trivial
    · exact .inl (Nat.lt_succ_of_le hk)
  | cons y todo =>
    rcases h with hk | hm
    · exact .inl hk
    · rcases List.mem_cons.mp hm with rfl | hm
      · exact .inr (.inr ⟨rfl, trivial⟩)
      · exact .inr (.inl hm)

theorem nextCheck_entered (n : Nat) (todo : List TicketName) :
    (nextCheck n todo).entered = true := by
  unfold nextCheck
  split <;> rfl

theorem nextCheck_number (n : Nat) (todo : List TicketName) :
    (nextCheck n todo).number? = some n := by
  unfold nextCheck
  split <;> rfl

theorem nextCheck_ticketOk {tickets : Tickets} (n : Nat) (todo : List TicketName)
    (h : tickets.get? x = some ⟨none, some (natText n), false⟩) :
    TicketOk tickets x (nextCheck n todo) := by
  unfold nextCheck
  split <;> exact h

theorem nextCheck_pcOk {todo : List TicketName} (h : ∀ y ∈ todo, Entered w y)
    (hc : ∀ q, q ≠ x → q ∈ todo ∨ Cleared w x n q) : PcOk w x (nextCheck n todo) := by
  cases todo with
  | nil => exact fun q hq => (hc q hq).resolve_left List.not_mem_nil
  | cons y todo =>
    refine ⟨⟨h y List.mem_cons_self, trivial, fun z hz => h z (List.mem_cons_of_mem y hz)⟩,
      fun q hq => ?_⟩
    rcases hc q hq with hm | hcl
    · exact (List.mem_cons.mp hm).elim (fun he => .inr (.inl he)) .inl
    · exact .inr (.inr hcl)

theorem nextCheck_after {todo : List TicketName} :
    After p m x (nextCheck n todo) ↔ m < n ∨ m = n ∧ ¬ x.before p := by
  unfold nextCheck
  split <;> rfl

theorem nextSweep_leaving (todo : List TicketName) : (nextSweep todo).leaving = true := by
  unfold nextSweep
  split <;> rfl

theorem nextSweep_pcOk {todo : List TicketName} (h : ∀ y ∈ todo, Entered w y) :
    PcOk w x (nextSweep todo) := by
  cases todo with
  | nil => trivial
  | cons y todo =>
    exact ⟨h y List.mem_cons_self, trivial, fun z hz => h z (List.mem_cons_of_mem y hz)⟩

/-! ## The steps of a participant -/

theorem TicketOk.of_leaving {tickets : Tickets} (h : pc.leaving = true) : TicketOk tickets q pc := by
  cases pc <;> trivial

theorem entered_of_leaving (h : pc.leaving = true) : pc.entered = true := by
  cases pc <;> first | rfl | cases h

/-- A participant that goes, with what it does to its own ticket and to those of the gone. -/
theorem Inv.leave (h : Inv w) (hx : w.procs.get? x = some ⟨true, pc⟩) {tickets : Tickets}
    (hl : pc'.leaving = true)
    (hframe : ∀ q, q ≠ x → ¬ Gone w q → tickets.get? q = w.tickets.get? q)
    (hexist : ∀ q t, tickets.get? q = some t → q = x ∨ ∃ t', w.tickets.get? q = some t')
    (hpc : PcOk w x pc') :
    Inv { w with tickets := tickets, procs := w.procs.set x ⟨true, pc'⟩ } :=
  h.move hx (entered_of_leaving hl) (fun _ => hl) (fun _ _ => .inr hl) hframe hexist (.of_leaving hl)
    hpc fun _ _ _ _ _ _ _ _ => .of_leaving hl

/-- A participant that stays where it is. -/
theorem Inv.stay (h : Inv w) (hx : w.procs.get? x = some ⟨true, pc⟩) (he : pc.entered = true) :
    Inv { w with procs := w.procs.set x ⟨true, pc⟩ } :=
  h.moveOnly hx he (fun hl => hl) (fun _ hn => .inl hn) (h.tickets x _ hx rfl) (h.pcs x _ hx rfl)
    fun _ _ _ _ _ _ _ ha => ha

/-- A listing of the lock directory names the participants that have a ticket. -/
theorem Inv.entered_of_lists (h : Inv w) {names : List TicketName} (hl : w.lists names) :
    ∀ y ∈ names, Entered w y := by
  intro y hy
  obtain ⟨t, ht⟩ := w.tickets.mem_keys_iff.mp (hl.mem_iff.mp hy)
  exact h.entered y t ht

theorem mem_of_lists {names : List TicketName} (hl : w.lists names) {t : Ticket}
    (ht : w.tickets.get? q = some t) : q ∈ names :=
  hl.mem_iff.mpr (w.tickets.mem_keys_iff.mpr ⟨t, ht⟩)

/-- A participant that has published its number, alive and in place. -/
theorem Inv.numbered_ticket (h : Inv w) (hs : w.procs.get? p = some s) (hl : s.live = true)
    (hn : s.pc.number? = some n) :
    w.tickets.get? p = some ⟨none, some (natText n), false⟩ ∧ p.pid ∈ w.running := by
  have hg : ¬ Gone w p := by
    rintro ⟨s', hs', hg⟩
    rw [hs] at hs'
    cases hs'
    rw [not_leaving_of_number hn] at hg
    cases hg hl
  exact ⟨h.ticket_of_numbered (.inr ⟨s, hs, hn⟩) hg, h.running p s hs hl⟩

/-- What has no ticket is gone, or has not begun the doorway. -/
theorem Inv.cleared_of_no_ticket (h : Inv w) (ht : w.tickets.get? q = none) : Cleared w p n q := by
  intro s hs hl
  cases he : s.pc.entered with
  | false => cases hsp : s.pc <;> rw [hsp] at he <;> trivial
  | true =>
    have hg : Gone w q := h.gone_of_ticket ⟨s, hs, he⟩ fun t ht' => by rw [ht] at ht'; cases ht'
    obtain ⟨s', hs', hg⟩ := hg
    rw [hs] at hs'
    cases hs'
    exact .of_leaving (hg hl)

theorem cleared_of_gone (hg : Gone w q) : Cleared w p n q := by
  intro s hs hl
  obtain ⟨s', hs', hg⟩ := hg
  rw [hs] at hs'
  cases hs'
  exact .of_leaving (hg hl)

/-- A peer whose number does not block is after the participant. -/
theorem cleared_of_numbered (hm : Numbered w q m) (hb : ¬ (m < n ∨ m = n ∧ q.before p)) :
    Cleared w p n q := by
  rcases hm with hg | ⟨s', hs', hn⟩
  · exact cleared_of_gone hg
  · intro s hs hl
    rw [hs] at hs'
    cases hs'
    have hafter : n < m ∨ n = m ∧ ¬ q.before p := by
      rw [not_or] at hb
      rcases Nat.lt_or_ge n m with hlt | hge
      · exact .inl hlt
      · have he : m = n := by omega
        exact .inr ⟨he.symm, fun hq => hb.2 ⟨he, hq⟩⟩
    cases hsp : s'.pc <;> rw [hsp] at hn <;> first | (cases hn; exact hafter) | cases hn

/-- What follows a listing of the lock directory. -/
theorem Inv.entries (h : Inv w) (hx : w.procs.get? x = some ⟨true, pc⟩) (he : pc.entered = true)
    (failed : Pc) (hf : failed.leaving = true) (hfok : PcOk w x failed) {next : List TicketName → Pc}
    (hnext : ∀ names, w.lists names →
      Inv { w with procs := w.procs.set x ⟨true, next names⟩ }) (o : Outcome) :
    Inv { w with procs := w.procs.set x ⟨true, w.entries o failed pc next⟩ } := by
  have hfail : Inv { w with procs := w.procs.set x ⟨true, failed⟩ } :=
    h.leave hx hf (fun _ _ _ => rfl) (fun _ t ht => .inr ⟨t, ht⟩) hfok
  have hstay := h.stay hx he
  cases o with
  | ok => exact hstay
  | eperm => exact hfail
  | thrown => exact hfail
  | listing names =>
    rw [World.entries]
    split
    · next hl =>
      split
      · exact hfail
      · exact hnext names hl
    · exact hstay

theorem Inv.turn_doorway (h : Inv w) (hx : w.procs.get? x = some ⟨true, .doorway⟩) (o : Outcome) :
    Inv { w with
      tickets := (w.turn x .doorway o).1
      procs := w.procs.set x ⟨true, (w.turn x .doorway o).2⟩ } := by
  refine h.entries hx rfl (.remove .list) rfl trivial (fun names hl => ?_) o
  refine h.moveOnly hx (nextScan_entered _ _) (fun hl => by cases hl) (fun _ hn => by cases hn)
    (nextScan_ticketOk (h.tickets x _ hx rfl) _ _) (nextScan_pcOk (h.entered_of_lists hl) _)
    fun p s n _ hs hlive hn _ => ?_
  exact nextScan_after (.inr (mem_of_lists hl (h.numbered_ticket hs hlive hn).1))

theorem Inv.turn_scan {highest : Nat} {peer : TicketName} {r : Read} {todo : List TicketName}
    (h : Inv w) (hx : w.procs.get? x = some ⟨true, .scan highest peer r todo⟩) (o : Outcome) :
    Inv { w with
      tickets := (w.turn x (.scan highest peer r todo) o).1
      procs := w.procs.set x ⟨true, (w.turn x (.scan highest peer r todo) o).2⟩ } := by
  have hown : w.tickets.get? x = some .empty := h.tickets x _ hx rfl
  obtain ⟨hpeer, hread, htodo⟩ : Scanning w peer r todo := h.pcs x _ hx rfl
  have hok := h.read_ok hpeer hread x.pid o
  have hself : ¬ Gone w x := by
    rintro ⟨s, hs, hg⟩
    rw [hx] at hs
    cases hs
    cases hg rfl
  have hframe : ∀ q, q ≠ x → ¬ Gone w q →
      (w.read x.pid peer r o).1.get? q = w.tickets.get? q := fun q _ hg => read_get? hread x.pid o hg
  have hexist : ∀ q t, (w.read x.pid peer r o).1.get? q = some t →
      q = x ∨ ∃ t', w.tickets.get? q = some t' := fun q t ht => .inr (read_exists x.pid o ht)
  have hmine : (w.read x.pid peer r o).1.get? x = some .empty :=
    (read_get? hread x.pid o hself).trans hown
  -- a peer that was to be read is read, or its number was
  have hfresh : ∀ p s n, w.procs.get? p = some s → s.live = true → s.pc.number? = some n →
      peer = p → r.Fresh n → (w.read x.pid peer r o).2.Fresh n := fun p s n hs hl hn hp hf => by
    subst hp
    obtain ⟨ht, hrun⟩ := h.numbered_ticket hs hl hn
    exact read_fresh hf hrun ht x.pid o
  rw [World.turn]
  cases hstep : (w.read x.pid peer r o).2 with
  | more r' =>
    rw [hstep] at hok
    refine h.move hx rfl (fun hl => by cases hl) (fun _ hn => by cases hn) hframe hexist hmine
      ⟨hpeer, hok, htodo⟩ fun p s n _ hs hl hn ha => ?_
    rcases ha with hk | hm | ⟨hp, hf⟩
    · exact .inl hk
    · exact .inr (.inl hm)
    · have hf' := hfresh p s n hs hl hn hp hf
      rw [hstep] at hf'
      exact .inr (.inr ⟨hp, hf'⟩)
  | thrown => exact h.leave hx rfl hframe hexist trivial
  | seen v =>
    have hafter : ∀ p s n, w.procs.get? p = some s → s.live = true → s.pc.number? = some n →
        After p n x (.scan highest peer r todo) → After p n x (afterScan highest todo v) := by
      intro p s n hs hl hn ha
      have hf' := hfresh p s n hs hl hn
      rw [hstep] at hf'
      cases v with
      | unresolved => trivial
      | number m =>
        refine nextScan_after ?_
        rcases ha with hk | hm | ⟨hp, hf⟩
        · exact .inl (Nat.le_trans hk (Nat.le_max_left _ _))
        · exact .inr hm
        · have hmn : m = n := hf' hp hf
          exact .inl (hmn ▸ Nat.le_max_right _ _)
      | gone =>
        refine nextScan_after ?_
        rcases ha with hk | hm | ⟨hp, hf⟩
        · exact .inl hk
        · exact .inr hm
        · exact (hf' hp hf).elim
      | choosing =>
        refine nextScan_after ?_
        rcases ha with hk | hm | ⟨hp, hf⟩
        · exact .inl hk
        · exact .inr hm
        · exact (hf' hp hf).elim
    have hnext : (afterScan highest todo v).entered = true ∧
        TicketOk (w.read x.pid peer r o).1 x (afterScan highest todo v) ∧
        PcOk w x (afterScan highest todo v) := by
      cases v with
      | unresolved => exact ⟨rfl, hmine, trivial⟩
      | _ => exact ⟨nextScan_entered _ _, nextScan_ticketOk hmine _ _, nextScan_pcOk htodo _⟩
    exact h.move hx hnext.1 (fun hl => by cases hl) (fun _ hn => by cases hn) hframe hexist
      hnext.2.1 hnext.2.2 fun p s n _ => hafter p s n

theorem Inv.turn_poll (h : Inv w) (hx : w.procs.get? x = some ⟨true, .poll n⟩) (o : Outcome) :
    Inv { w with
      tickets := (w.turn x (.poll n) o).1
      procs := w.procs.set x ⟨true, (w.turn x (.poll n) o).2⟩ } := by
  refine h.entries hx rfl (.remove .list) rfl trivial (fun names hl => ?_) o
  refine h.moveOnly hx (nextCheck_entered _ _) (fun hl => by cases hl)
    (fun m hn => .inl (by rw [nextCheck_number]; exact hn))
    (nextCheck_ticketOk n _ (h.tickets x _ hx rfl)) (nextCheck_pcOk (fun y hy => ?_) fun q hq => ?_)
    fun p s m _ _ _ _ ha => nextCheck_after.mpr ha
  · exact h.entered_of_lists hl y (List.mem_of_mem_filter hy)
  · cases ht : w.tickets.get? q with
    | none => exact .inr (h.cleared_of_no_ticket ht)
    | some t => exact .inl (List.mem_filter.mpr ⟨mem_of_lists hl ht, by simpa using hq⟩)

theorem Inv.turn_check {peer : TicketName} {r : Read} {todo : List TicketName} (h : Inv w)
    (hx : w.procs.get? x = some ⟨true, .check n peer r todo⟩) (o : Outcome) :
    Inv { w with
      tickets := (w.turn x (.check n peer r todo) o).1
      procs := w.procs.set x ⟨true, (w.turn x (.check n peer r todo) o).2⟩ } := by
  have hown : w.tickets.get? x = some ⟨none, some (natText n), false⟩ := h.tickets x _ hx rfl
  obtain ⟨⟨hpeer, hread, htodo⟩, hcl⟩ : Scanning w peer r todo ∧
    ∀ q, q ≠ x → q ∈ todo ∨ q = peer ∨ Cleared w x n q := h.pcs x _ hx rfl
  have hok := h.read_ok hpeer hread x.pid o
  have hself : ¬ Gone w x := by
    rintro ⟨s, hs, hg⟩
    rw [hx] at hs
    cases hs
    cases hg rfl
  have hframe : ∀ q, q ≠ x → ¬ Gone w q →
      (w.read x.pid peer r o).1.get? q = w.tickets.get? q := fun q _ hg => read_get? hread x.pid o hg
  have hexist : ∀ q t, (w.read x.pid peer r o).1.get? q = some t →
      q = x ∨ ∃ t', w.tickets.get? q = some t' := fun q t ht => .inr (read_exists x.pid o ht)
  have hmine : (w.read x.pid peer r o).1.get? x = some ⟨none, some (natText n), false⟩ :=
    (read_get? hread x.pid o hself).trans hown
  have hpoll : Inv { w with
      tickets := (w.read x.pid peer r o).1, procs := w.procs.set x ⟨true, .poll n⟩ } :=
    h.move hx rfl (fun hl => by cases hl) (fun _ hn => .inl hn) hframe hexist hmine trivial
      fun p s m _ _ _ _ ha => ha
  -- the peer lets the participant pass
  have hpass : Cleared w x n peer → Inv { w with
      tickets := (w.read x.pid peer r o).1, procs := w.procs.set x ⟨true, nextCheck n todo⟩ } := by
    intro hc
    refine h.move hx (nextCheck_entered _ _) (fun hl => by cases hl)
      (fun m hn => .inl (by rw [nextCheck_number]; exact hn)) hframe hexist
      (nextCheck_ticketOk n _ hmine) (nextCheck_pcOk htodo fun q hq => ?_)
      fun p s m _ _ _ _ ha => nextCheck_after.mpr ha
    rcases hcl q hq with hm | rfl | hcq
    · exact .inl hm
    · exact .inr hc
    · exact .inr hcq
  rw [World.turn]
  cases hstep : (w.read x.pid peer r o).2 with
  | more r' =>
    rw [hstep] at hok
    exact h.move hx rfl (fun hl => by cases hl) (fun _ hn => .inl hn) hframe hexist hmine
      ⟨⟨hpeer, hok, htodo⟩, hcl⟩ fun p s m _ _ _ _ ha => ha
  | thrown => exact h.leave hx rfl hframe hexist trivial
  | seen v =>
    rw [hstep] at hok
    cases v with
    | unresolved => exact hpoll
    | choosing => exact hpoll
    | gone => exact hpass (cleared_of_gone hok)
    | number m =>
      dsimp only
      rw [afterCheck]
      split
      · exact hpoll
      · next hb => exact hpass (cleared_of_numbered hok hb)

/-- The participant writes its own ticket and goes on. -/
theorem Inv.own (h : Inv w) (hx : w.procs.get? x = some ⟨true, pc⟩) {t : Ticket}
    (henter : pc'.entered = true) (hleave : pc.leaving = false)
    (hnum : ∀ n, pc.number? = some n → pc'.number? = some n)
    (hticket : TicketOk (w.tickets.set x t) x pc') (hpc : PcOk w x pc')
    (hafter : ∀ p n, After p n x pc → After p n x pc') :
    Inv { w with tickets := w.tickets.set x t, procs := w.procs.set x ⟨true, pc'⟩ } := by
  refine h.move hx henter (fun hl => by rw [hleave] at hl; cases hl) (fun n hn => .inl (hnum n hn))
    (fun q hq _ => w.tickets.get?_set_of_ne hq) (fun q t' ht => ?_) hticket hpc
    fun p s n _ _ _ _ ha => hafter p n ha
  rw [w.tickets.get?_set] at ht
  split at ht
  · next hq => exact .inl hq
  · exact .inr ⟨t', ht⟩

theorem Inv.turn_remove {r : Removal} (h : Inv w)
    (hx : w.procs.get? x = some ⟨true, .remove r⟩) (o : Outcome) :
    Inv { w with
      tickets := (w.turn x (.remove r) o).1
      procs := w.procs.set x ⟨true, (w.turn x (.remove r) o).2⟩ } := by
  have hleave : ∀ pc', pc'.leaving = true → PcOk w x pc' → Inv { w with
      tickets := w.tickets.put x (removalStep false (w.tickets.get? x) r o).1
      procs := w.procs.set x ⟨true, pc'⟩ } := by
    intro pc' hl hpc
    refine h.leave hx hl (fun q hq _ => (get?_put _ _).trans (if_neg hq)) (fun q t ht => ?_) hpc
    rw [get?_put] at ht
    split at ht
    · next hq => exact .inl hq
    · exact .inr ⟨t, ht⟩
  rw [World.turn]
  cases (removalStep false (w.tickets.get? x) r o).2 with
  | more r' => exact hleave (.remove r') rfl trivial
  | returned => exact hleave .done rfl trivial
  | thrown => exact hleave .done rfl trivial

theorem Inv.turn_sweep {peer : TicketName} {r : Read} {todo : List TicketName} (h : Inv w)
    (hx : w.procs.get? x = some ⟨true, .sweep peer r todo⟩) (o : Outcome) :
    Inv { w with
      tickets := (w.turn x (.sweep peer r todo) o).1
      procs := w.procs.set x ⟨true, (w.turn x (.sweep peer r todo) o).2⟩ } := by
  obtain ⟨hpeer, hread, htodo⟩ : Scanning w peer r todo := h.pcs x _ hx rfl
  have hok := h.read_ok hpeer hread x.pid o
  have hleave : ∀ pc', pc'.leaving = true → PcOk w x pc' → Inv { w with
      tickets := (w.read x.pid peer r o).1, procs := w.procs.set x ⟨true, pc'⟩ } :=
    fun pc' hl hpc => h.leave hx hl (fun q _ hg => read_get? hread x.pid o hg)
      (fun q t ht => .inr (read_exists x.pid o ht)) hpc
  rw [World.turn]
  cases hstep : (w.read x.pid peer r o).2 with
  | more r' =>
    rw [hstep] at hok
    exact hleave _ rfl ⟨hpeer, hok, htodo⟩
  | seen v => exact hleave _ (nextSweep_leaving todo) (nextSweep_pcOk htodo)
  | thrown => exact hleave .done rfl trivial

/-- **A step of a participant keeps the invariant.** -/
theorem Inv.turn (h : Inv w) (hx : w.procs.get? x = some ⟨true, pc⟩) (o : Outcome) :
    Inv { w with
      tickets := (w.turn x pc o).1, procs := w.procs.set x ⟨true, (w.turn x pc o).2⟩ } := by
  have hticket := h.tickets x _ hx rfl
  have hfail : ∀ pc', pc'.leaving = true → PcOk w x pc' →
      Inv { w with procs := w.procs.set x ⟨true, pc'⟩ } := fun pc' hl hpc =>
    h.leave hx hl (fun _ _ _ => rfl) (fun _ t ht => .inr ⟨t, ht⟩) hpc
  cases pc with
  | mkdir =>
    cases o with
    | ok =>
      exact h.own hx rfl rfl (fun _ hn => by cases hn) (w.tickets.get?_set_self) trivial
        fun _ _ _ => trivial
    | _ => exact hfail .done rfl trivial
  | doorway => exact h.turn_doorway hx o
  | scan highest peer r todo => exact h.turn_scan hx o
  | create n =>
    have hown : w.tickets.get? x = some .empty := hticket
    cases o with
    | ok =>
      refine h.own hx rfl rfl (fun _ hn => by cases hn) ?_ trivial fun _ _ ha => ha
      rw [hown]
      exact w.tickets.get?_set_self
    | _ => exact hfail (.remove .list) rfl trivial
  | write n =>
    have hown : w.tickets.get? x = some ⟨some [], none, false⟩ := hticket
    cases o with
    | ok =>
      refine h.own hx rfl rfl (fun _ hn => by cases hn) ?_ trivial fun _ _ ha => ha
      rw [hown]
      exact w.tickets.get?_set_self
    | _ => exact hfail (.remove .list) rfl trivial
  | rename n =>
    have hown : w.tickets.get? x = some ⟨some (natText n), none, false⟩ := hticket
    cases o with
    | ok =>
      refine h.own hx rfl rfl (fun _ hn => by cases hn) ?_ trivial fun _ _ ha => ha
      rw [hown]
      exact w.tickets.get?_set_self
    | _ => exact hfail (.remove .list) rfl trivial
  | poll n => exact h.turn_poll hx o
  | check n peer r todo => exact h.turn_check hx o
  | held n => exact h.stay hx rfl
  | remove r => exact h.turn_remove hx o
  | survey =>
    refine h.entries hx rfl .done rfl trivial (fun names hl => ?_) o
    exact hfail _ (nextSweep_leaving _) (nextSweep_pcOk (h.entered_of_lists hl))
  | sweep peer r todo => exact h.turn_sweep hx o
  | done => exact h.stay hx rfl

/-! ## Events -/

theorem Inv.enter (h : Inv w) (hpc : pc = .mkdir ∨ pc = .survey) : Inv (w.enter x pc) := by
  rw [World.enter]
  split
  case isFalse => exact h
  case isTrue hg =>
    obtain ⟨hrun, hnone⟩ := hg
    have hget : ∀ q, (w.procs.set x ⟨true, pc⟩).get? q =
        if q = x then some ⟨true, pc⟩ else w.procs.get? q := w.procs.get?_set
    have hne : ∀ q s, w.procs.get? q = some s → q ≠ x := fun q s hs he => by
      rw [he, hnone] at hs
      cases hs
    have hfwd : Forward w { w with procs := w.procs.set x ⟨true, pc⟩ } := by
      refine ⟨?_, ?_, ?_⟩
      · rintro q ⟨s, hs, he⟩
        exact ⟨s, (hget q).trans ((if_neg (hne q s hs)).trans hs), he⟩
      · rintro q ⟨s, hs, he⟩
        exact ⟨s, (hget q).trans ((if_neg (hne q s hs)).trans hs), he⟩
      · rintro q n (⟨s, hs, he⟩ | ⟨s, hs, hn⟩)
        · exact .inl ⟨s, (hget q).trans ((if_neg (hne q s hs)).trans hs), he⟩
        · exact .inr ⟨s, (hget q).trans ((if_neg (hne q s hs)).trans hs), hn⟩
    have hnew : ∀ p n, After p n x pc ∧ PcOk w x pc ∧ TicketOk w.tickets x pc := fun p n => by
      rcases hpc with rfl | rfl <;> exact ⟨trivial, trivial, trivial⟩
    refine ⟨?_, ?_, ?_, ?_⟩
    · intro p s hs hl
      have hs' := (hget p).symm.trans hs
      split at hs'
      · next hq => rw [hq]; exact hrun
      · exact h.running p s hs' hl
    · exact fun q t ht => hfwd.entered q (h.entered q t ht)
    · intro p s hs hl
      have hs' := (hget p).symm.trans hs
      split at hs'
      · next hq => cases hs'; rw [hq]; exact (hnew x 0).2.2
      · exact h.tickets p s hs' hl
    · have hcl : ∀ p n q, Cleared w p n q →
          Cleared { w with procs := w.procs.set x ⟨true, pc⟩ } p n q := by
        intro p n q hc s hs hl
        have hs' := (hget q).symm.trans hs
        split at hs'
        · next hq => cases hs'; rw [hq]; exact (hnew p n).1
        · exact hc s hs' hl
      intro p s hs hl
      have hs' := (hget p).symm.trans hs
      split at hs'
      · next hq =>
        cases hs'
        rw [hq]
        exact hfwd.pcOk (hnew x 0).2.1 fun n q _ _ hc => hcl x n q hc
      · exact hfwd.pcOk (h.pcs p s hs' hl) fun n q _ _ hc => hcl p n q hc

theorem get?_crash (w : World) (pid : Nat) (q : TicketName) :
    (step w (.crash pid)).procs.get? q =
      (w.procs.get? q).map fun s => if q.pid = pid then s.kill else s := by
  cases hq : w.procs.get? q with
  | none =>
    rw [Option.map_none, OrdMap.get?, assoc_eq_none_iff, step]
    rw [OrdMap.get?, assoc_eq_none_iff] at hq
    dsimp only
    rw [List.map_map]
    exact hq
  | some s =>
    rw [Option.map_some, ← OrdMap.mem_entries_iff, step]
    exact List.mem_map.mpr ⟨(q, s), w.procs.mem_entries_iff.mpr hq, rfl⟩

theorem Inv.crash (h : Inv w) (pid : Nat) : Inv (step w (.crash pid)) := by
  -- who is alive afterwards was alive, at the same point
  have hback : ∀ q s, (step w (.crash pid)).procs.get? q = some s → s.live = true →
      q.pid ≠ pid ∧ w.procs.get? q = some s := by
    intro q s hs hl
    rw [get?_crash] at hs
    obtain ⟨s', hs', he⟩ := Option.map_eq_some_iff.mp hs
    split at he
    · rw [← he] at hl
      cases hl
    · next hq => exact ⟨hq, he ▸ hs'⟩
  have hforth : ∀ q s, w.procs.get? q = some s → ∃ s', (step w (.crash pid)).procs.get? q = some s' ∧
      s'.pc = s.pc ∧ (s'.live = true → s.live = true) := by
    intro q s hs
    refine ⟨_, by rw [get?_crash, hs]; rfl, ?_, ?_⟩
    · split <;> rfl
    · split
      · exact fun hl => by cases hl
      · exact fun hl => hl
  have hfwd : Forward w (step w (.crash pid)) := by
    refine ⟨?_, ?_, ?_⟩
    · rintro q ⟨s, hs, he⟩
      obtain ⟨s', hs', hpc, -⟩ := hforth q s hs
      exact ⟨s', hs', hpc ▸ he⟩
    · rintro q ⟨s, hs, he⟩
      obtain ⟨s', hs', hpc, hl⟩ := hforth q s hs
      exact ⟨s', hs', fun hl' => hpc ▸ he (hl hl')⟩
    · rintro q n (⟨s, hs, he⟩ | ⟨s, hs, hn⟩)
      · obtain ⟨s', hs', hpc, hl⟩ := hforth q s hs
        exact .inl ⟨s', hs', fun hl' => hpc ▸ he (hl hl')⟩
      · obtain ⟨s', hs', hpc, -⟩ := hforth q s hs
        exact .inr ⟨s', hs', hpc ▸ hn⟩
  refine ⟨?_, ?_, ?_, ?_⟩
  · intro p s hs hl
    obtain ⟨hne, hs'⟩ := hback p s hs hl
    exact List.mem_filter.mpr ⟨h.running p s hs' hl, by simpa using hne⟩
  · exact fun q t ht => hfwd.entered q (h.entered q t ht)
  · exact fun p s hs hl => h.tickets p s (hback p s hs hl).2 hl
  · intro p s hs hl
    refine hfwd.pcOk (h.pcs p s (hback p s hs hl).2 hl) fun n q _ _ hc => ?_
    exact fun s' hs' hl' => hc s' (hback q s' hs' hl').2 hl'

theorem Inv.step (h : Inv w) (e : Event) : Inv (step w e) := by
  cases e with
  | spawn pid =>
    exact ⟨fun p s hs hl => List.mem_cons_of_mem _ (h.running p s hs hl), h.entered, h.tickets, h.pcs⟩
  | crash pid => exact h.crash pid
  | acquire name => exact h.enter (.inl rfl)
  | reap name => exact h.enter (.inr rfl)
  | turn name o =>
    rw [Lock.step]
    split
    · next s hs =>
      split
      · next hl =>
        obtain ⟨live, pc⟩ := s
        cases hl
        exact h.turn hs o
      · exact h
    · exact h
  | release name =>
    rw [Lock.step]
    split
    · next n hs =>
      exact h.leave hs rfl (fun _ _ _ => rfl) (fun _ t ht => .inr ⟨t, ht⟩) trivial
    · exact h

theorem Inv.run (h : Inv w) (events : List Event) : Inv (run w events) := by
  induction events generalizing w with
  | nil => exact h
  | cons e events ih => exact ih (h.step e)

/-! ## Exclusion -/

theorem Inv.exclusive (h : Inv w) (hp : w.holds p) (hq : w.holds q) : p = q := by
  obtain ⟨n, hp⟩ := hp
  obtain ⟨m, hq⟩ := hq
  by_contra hne
  have hpq : n < m ∨ n = m ∧ ¬ q.before p := h.pcs p _ hp rfl q (Ne.symm hne) _ hq rfl
  have hqp : m < n ∨ m = n ∧ ¬ p.before q := h.pcs q _ hq rfl p hne _ hp rfl
  rcases hpq with hlt | ⟨rfl, hb⟩
  · omega
  · rcases hqp with hlt | ⟨-, hb'⟩
    · omega
    · exact hne (TicketName.eq_of_not_before hb' hb)

/-- A holder holds until it releases or its process dies. -/
theorem holds_step {e : Event} (hp : w.holds p) (hr : e ≠ .release p) (hc : e ≠ .crash p.pid) :
    (step w e).holds p := by
  obtain ⟨n, hp⟩ := hp
  refine ⟨n, ?_⟩
  cases e with
  | spawn pid => exact hp
  | crash pid =>
    rw [get?_crash, hp, Option.map_some, if_neg fun he : p.pid = pid => hc (by rw [he])]
  | acquire name | reap name =>
    rw [step, World.enter]
    split
    · next hg =>
      have hne : p ≠ name := fun he => by
        rw [← he, hp] at hg
        cases hg.2
      exact (w.procs.get?_set_of_ne hne).trans hp
    · exact hp
  | turn name o =>
    rw [step]
    split
    · next s hs =>
      split
      · by_cases hne : p = name
        · subst hne
          rw [hp] at hs
          cases hs
          exact w.procs.get?_set_self
        · exact (w.procs.get?_set_of_ne hne).trans hp
      · exact hp
    · exact hp
  | release name =>
    rw [step]
    split
    · have hne : p ≠ name := fun he => hr (he ▸ rfl)
      exact (w.procs.get?_set_of_ne hne).trans hp
    · exact hp

/-- **The mailbox lock excludes.** In every state that any events lead to at most one live process
holds the lock, its ticket is in place with its number, and whatever comes next but its release or
its death it holds the lock still. -/
theorem mailbox_lock_excludes (events : List Event) :
    (∀ p q, (run .initial events).holds p → (run .initial events).holds q → p = q) ∧
    ∀ p, (run .initial events).holds p →
      (∃ n, (run .initial events).tickets.get? p = some ⟨none, some (natText n), false⟩) ∧
      ∀ e, e ≠ .release p → e ≠ .crash p.pid → (step (run .initial events) e).holds p := by
  have h : Inv (run .initial events) := inv_initial.run events
  refine ⟨fun p q hp hq => h.exclusive hp hq, fun p hp => ⟨?_, fun e hr hc => holds_step hp hr hc⟩⟩
  obtain ⟨n, hp⟩ := hp
  exact ⟨n, h.tickets p _ hp rfl⟩

end Telepty.Mailbox.Lock
