import Telepty.Audit.Paging
import Telepty.Audit.Reader

/-!
# What the reader keeps

A job waits until its promise is resolved: it is not settled, or it holds an outcome that is handed on
when the job is released. Whatever happens to a job that waits either resolves its promise once or
leaves it waiting with its timer set, and nothing is resolved for a job that does not wait
(`Effect.Sound`). So every read is answered once, or its timer will answer it.
-/

namespace Telepty.Audit

open Infra

/-! ## One job -/

/-- The promise of the job is not resolved yet. -/
def Job.waiting (j : Job) : Bool := !j.settled || j.deliver.isSome

/-- A job that waits has its timer, and `P` is true of what it has to hand on. -/
structure Job.Ok (P : Filters → Units → Prop) (j : Job) : Prop where
  timer : j.waiting = true → j.timer = true
  pending : j.deliver.isSome = true → j.settled = true
  stopping : j.stopping = true → j.settled = true
  tells : ∀ json, j.deliver = some (.ok json) → P j.filters json

/-- An event resolves the promise of a job that waits, or leaves it waiting. -/
structure Effect.Sound (P : Filters → Units → Prop) (j : Job) (e : Effect) : Prop where
  same : ∀ j' ∈ e.job, j'.id = j.id ∧ j'.filters = j.filters ∧ j'.Ok P
  done : j.waiting = false → e.resolved = [] ∧ ∀ j' ∈ e.job, j'.waiting = false
  once : j.waiting = true → (∃ o, e.resolved = [o] ∧ ∀ j' ∈ e.job, j'.waiting = false) ∨
    e.resolved = [] ∧ ∃ j', e.job = some j' ∧ j'.waiting = true
  tells : ∀ json, .ok json ∈ e.resolved → P j.filters json

section

variable {P : Filters → Units → Prop} {j : Job}

theorem Effect.sound_same (h : j.Ok P) : Effect.Sound P j ⟨some j, []⟩ where
  same := by
    rintro _ ⟨⟩
    exact ⟨rfl, rfl, h⟩
  done hw := by
    refine ⟨rfl, ?_⟩
    rintro _ ⟨⟩
    exact hw
  once hw := .inr ⟨rfl, j, rfl, hw⟩
  tells json hmem := absurd hmem List.not_mem_nil

theorem result_ne_ok (code : String) (status : Nat) (reason : String) (json : Units) :
    result code status reason ≠ .ok json := by
  intro h
  cases h

/-- A failure that `finish` is called with is no success. -/
def Outcome.Failed (o : Outcome) : Prop := ∀ json, o ≠ .ok json

theorem Job.finishAfterRelease_sound (h : j.Ok P) {value : Outcome}
    (hvalue : ∀ json, value = .ok json → P j.filters json) :
    Effect.Sound P j ⟨j.finishAfterRelease value, []⟩ := by
  cases hs : j.settled with
  | true =>
    rw [Job.finishAfterRelease, if_pos hs]
    exact Effect.sound_same h
  | false =>
    have hw : j.waiting = true := by simp [Job.waiting, hs]
    rw [Job.finishAfterRelease, if_neg (by simp [hs])]
    refine ⟨?_, fun hn => ?_, fun _ => .inr ⟨rfl, _, rfl, by simp [Job.waiting]⟩, fun json hmem =>
      absurd hmem List.not_mem_nil⟩
    · rintro _ ⟨⟩
      exact ⟨rfl, rfl, fun _ => h.timer hw, fun _ => rfl, fun _ => rfl,
        fun json hj => hvalue json (Option.some.inj hj)⟩
    · rw [hw] at hn
      cases hn

/-- **What ends a job is sound**: it is resolved with what it has to hand on, or with a failure, and
what is left of it does not wait. -/
theorem Job.Ok.ends_sound (h : j.Ok P) {e : Effect} {value : Outcome} (hvalue : value.Failed)
    (hjob : ∀ j' ∈ e.job, j'.id = j.id ∧ j'.filters = j.filters ∧ j'.deliver = none ∧
      j'.settled = true)
    (hresolved : e.resolved = if j.waiting then [j.deliver.getD value] else []) :
    e.Sound P j ∧ ∀ j' ∈ e.job, j'.waiting = false := by
  have hquiet : ∀ j' ∈ e.job, j'.waiting = false := by
    intro j' hj'
    obtain ⟨-, -, hd, hs⟩ := hjob j' hj'
    rw [Job.waiting, hd, hs]
    rfl
  refine ⟨⟨fun j' hj' => ?_, fun hw => ⟨by rw [hresolved, hw]; rfl, hquiet⟩,
    fun hw => .inl ⟨_, by rw [hresolved, hw]; rfl, hquiet⟩, fun json hmem => ?_⟩, hquiet⟩
  · obtain ⟨hid, hfilters, hd, hs⟩ := hjob j' hj'
    refine ⟨hid, hfilters, fun hw => ?_, fun _ => hs, fun _ => hs, fun json hj => ?_⟩
    · rw [hquiet j' hj'] at hw
      cases hw
    · rw [hd] at hj
      cases hj
  · rw [hresolved] at hmem
    split at hmem
    · cases hd : j.deliver with
      | none =>
        rw [hd] at hmem
        exact absurd (List.mem_singleton.mp hmem).symm (hvalue json)
      | some o =>
        rw [hd] at hmem
        exact h.tells json (hd.trans (congrArg some (List.mem_singleton.mp hmem).symm))
    · cases hmem

theorem Job.Ok.release_sound (h : j.Ok P) (hs : j.settled = true) : Effect.Sound P j j.release := by
  refine (h.ends_sound (result_ne_ok "AUDIT_QUERY_FAILED" 503 "query_unavailable")
    (by rintro _ ⟨⟩) ?_).1
  cases hd : j.deliver <;> simp [Job.release, Job.deliverPending, Job.waiting, hd, hs]

/-- A job that is made to answer does not wait afterwards, whatever becomes of its timer. -/
theorem Job.Ok.deliverOr_sound (h : j.Ok P) {value : Outcome} (hvalue : value.Failed) (timer : Bool) :
    Effect.Sound P j ({ j with timer }.deliverOr value) ∧
      ∀ j' ∈ ({ j with timer }.deliverOr value).job, j'.waiting = false := by
  have hpending := h.pending
  refine h.ends_sound hvalue ?_ ?_
  · obtain ⟨id, filters, settled, armed, deliver, stopping⟩ := j
    cases deliver with
    | some o =>
      rintro _ ⟨⟩
      exact ⟨rfl, rfl, rfl, hpending rfl⟩
    | none => cases settled <;> rintro _ ⟨⟩ <;> exact ⟨rfl, rfl, rfl, rfl⟩
  · obtain ⟨id, filters, settled, armed, deliver, stopping⟩ := j
    cases deliver <;> cases settled <;> rfl

theorem Job.Ok.exit_sound (h : j.Ok P) : Effect.Sound P j j.exit := by
  cases hs : j.settled with
  | true =>
    rw [Job.exit, if_pos hs]
    exact h.release_sound hs
  | false =>
    have hd : j.deliver = none := by
      cases hd : j.deliver with
      | none => rfl
      | some o =>
        have := h.pending (by rw [hd]; rfl)
        rw [hs] at this
        cases this
    have heffect : j.exit = ⟨none, [result "AUDIT_QUERY_FAILED"]⟩ := by
      simp [Job.exit, Job.finish, Job.release, Job.deliverPending, hd, hs]
    rw [heffect]
    refine (h.ends_sound (result_ne_ok "AUDIT_QUERY_FAILED" 503 "query_unavailable")
      (by rintro _ ⟨⟩) ?_).1
    rw [Job.waiting, hd, hs]
    rfl

end

/-! ## The reader -/

/-- What holds of a reader: its jobs are the reads that are not resolved, and those whose worker has
still to end. -/
structure Reader.Good (P : Filters → Units → Prop) (r : Reader) : Prop where
  ids : (r.active.map Job.id).Nodup
  asked : ∀ j ∈ r.active, r.asked[j.id]? = some (some j.filters)
  ok : ∀ j ∈ r.active, j.Ok P
  few : r.active.length ≤ 2
  threads : ∀ t ∈ r.threads, t ∈ r.active.map Job.id
  running : r.threads.Nodup
  known : ∀ x ∈ r.resolved, x.1 < r.asked.length
  once : (r.resolved.map Prod.fst).Nodup
  open_ : ∀ j ∈ r.active, j.waiting = true → j.id ∉ r.resolved.map Prod.fst
  all : ∀ id < r.asked.length, id ∈ r.resolved.map Prod.fst ∨
    ∃ j ∈ r.active, j.id = id ∧ j.waiting = true
  shut : r.closed = true → ∀ j ∈ r.active, j.waiting = false
  tells : ∀ id json, (id, Outcome.ok json) ∈ r.resolved →
    ∃ f, r.asked[id]? = some (some f) ∧ P f json

section

variable {P : Filters → Units → Prop} {r r' : Reader}

theorem Reader.good_start : Reader.start.Good P where
  ids := List.nodup_nil
  asked := by rintro _ ⟨⟩
  ok := by rintro _ ⟨⟩
  few := Nat.zero_le 2
  threads := by rintro _ ⟨⟩
  running := List.nodup_nil
  known := by rintro _ ⟨⟩
  once := List.nodup_nil
  open_ := by rintro _ ⟨⟩
  all := fun id h => absurd h (Nat.not_lt_zero id)
  shut := by rintro ⟨⟩
  tells := by rintro _ _ ⟨⟩

theorem Reader.Good.asked_lt (h : r.Good P) {j : Job} (hj : j ∈ r.active) : j.id < r.asked.length :=
  (List.getElem?_eq_some_iff.mp (h.asked j hj)).1

/-- The ids of what is resolved are ids of jobs, each once. -/
theorem resolved_sublist {effect : Job → Effect} (jobs : List Job)
    (h : ∀ j ∈ jobs, (effect j).Sound P j) :
    ((jobs.flatMap fun j => (effect j).resolved.map fun o => (j.id, o)).map Prod.fst).Sublist
      (jobs.map Job.id) := by
  induction jobs with
  | nil => exact .slnil
  | cons j jobs ih =>
    have ih := ih fun i hi => h i (List.mem_cons_of_mem _ hi)
    have hj := h j List.mem_cons_self
    rw [List.flatMap_cons, List.map_append, List.map_cons]
    cases hw : j.waiting with
    | false =>
      rw [(hj.done hw).1]
      exact ih.cons _
    | true =>
      rcases hj.once hw with ⟨o, ho, -⟩ | ⟨hnil, -⟩
      · rw [ho]
        exact ih.cons_cons _
      · rw [hnil]
        exact ih.cons _

theorem jobs_sublist {effect : Job → Effect} (jobs : List Job)
    (h : ∀ j ∈ jobs, (effect j).Sound P j) :
    ((jobs.flatMap fun j => (effect j).job.toList).map Job.id).Sublist (jobs.map Job.id) := by
  induction jobs with
  | nil => exact .slnil
  | cons j jobs ih =>
    have ih := ih fun i hi => h i (List.mem_cons_of_mem _ hi)
    rw [List.flatMap_cons, List.map_append, List.map_cons]
    cases hjob : (effect j).job with
    | none => exact ih.cons _
    | some j' =>
      rw [Option.toList_some, List.map_singleton, ((h j List.mem_cons_self).same j' hjob).1]
      exact ih.cons_cons _

/-- **What an event does to the jobs keeps the reader good.** -/
theorem Reader.Good.apply (h : r.Good P) {effect : Job → Effect}
    (he : ∀ j ∈ r.active, (effect j).Sound P j)
    (hend : ∀ j ∈ r.active, (effect j).job = none → j.id ∉ r.threads) : (r.apply effect).Good P := by
  have hjob : ∀ j' ∈ (r.apply effect).active, ∃ j ∈ r.active, (effect j).job = some j' := by
    intro j' hj'
    obtain ⟨j, hj, hmem⟩ := List.mem_flatMap.mp hj'
    exact ⟨j, hj, Option.mem_toList.mp hmem⟩
  have hnew : ∀ x ∈ r.active.flatMap fun j => (effect j).resolved.map fun o => (j.id, o),
      ∃ j ∈ r.active, x.1 = j.id ∧ x.2 ∈ (effect j).resolved := by
    intro x hx
    obtain ⟨j, hj, hmem⟩ := List.mem_flatMap.mp hx
    obtain ⟨o, ho, rfl⟩ := List.mem_map.mp hmem
    exact ⟨j, hj, rfl, ho⟩
  have hwaiting : ∀ j ∈ r.active, (effect j).resolved ≠ [] → j.waiting = true := by
    intro j hj hne
    cases hw : j.waiting with
    | true => rfl
    | false => exact absurd ((he j hj).done hw).1 hne
  have hresolved : (r.apply effect).resolved.map Prod.fst = r.resolved.map Prod.fst ++
      (r.active.flatMap fun j => (effect j).resolved.map fun o => (j.id, o)).map Prod.fst :=
    List.map_append
  have hids := jobs_sublist r.active he
  constructor
  case ids => exact hids.nodup h.ids
  case asked =>
    intro j' hj'
    obtain ⟨j, hj, hsome⟩ := hjob j' hj'
    obtain ⟨hid, hfilters, -⟩ := (he j hj).same j' hsome
    rw [hid, hfilters]
    exact h.asked j hj
  case ok =>
    intro j' hj'
    obtain ⟨j, hj, hsome⟩ := hjob j' hj'
    exact ((he j hj).same j' hsome).2.2
  case few =>
    have hlen := hids.length_le
    rw [List.length_map, List.length_map] at hlen
    exact hlen.trans h.few
  case threads =>
    intro t ht
    obtain ⟨j, hj, rfl⟩ := List.mem_map.mp (h.threads t ht)
    cases hsome : (effect j).job with
    | none => exact absurd ht (hend j hj hsome)
    | some j' =>
      have hmem : j' ∈ (r.apply effect).active :=
        List.mem_flatMap.mpr ⟨j, hj, Option.mem_toList.mpr hsome⟩
      exact List.mem_map.mpr ⟨j', hmem, ((he j hj).same j' hsome).1⟩
  case running => exact h.running
  case known =>
    intro x hx
    rcases List.mem_append.mp hx with hx | hx
    · exact h.known x hx
    · obtain ⟨j, hj, hid, -⟩ := hnew x hx
      rw [hid]
      exact h.asked_lt hj
  case once =>
    rw [hresolved]
    refine List.nodup_append.mpr ⟨h.once, (resolved_sublist r.active he).nodup h.ids, ?_⟩
    rintro id hid _ hid' rfl
    obtain ⟨x, hx, rfl⟩ := List.mem_map.mp hid'
    obtain ⟨j, hj, hxid, hmem⟩ := hnew x hx
    rw [hxid] at hid
    exact h.open_ j hj (hwaiting j hj (List.ne_nil_of_mem hmem)) hid
  case open_ =>
    intro j' hj' hw'
    obtain ⟨j, hj, hsome⟩ := hjob j' hj'
    have hw : j.waiting = true := by
      cases hw : j.waiting with
      | true => rfl
      | false =>
        rw [((he j hj).done hw).2 j' hsome] at hw'
        cases hw'
    have hnil : (effect j).resolved = [] := by
      rcases (he j hj).once hw with ⟨o, -, hquiet⟩ | ⟨hnil, -⟩
      · rw [hquiet j' hsome] at hw'
        cases hw'
      · exact hnil
    rw [((he j hj).same j' hsome).1, hresolved, List.mem_append, not_or]
    refine ⟨h.open_ j hj hw, fun hmem => ?_⟩
    obtain ⟨x, hx, hxid⟩ := List.mem_map.mp hmem
    obtain ⟨i, hi, hid, ho⟩ := hnew x hx
    -- the ids of the jobs differ, so this is the same job
    obtain rfl : i = j := List.inj_on_of_nodup_map h.ids hi hj (hid.symm.trans hxid)
    rw [hnil] at ho
    cases ho
  case all =>
    intro id hid
    rw [hresolved]
    rcases h.all id hid with hmem | ⟨j, hj, rfl, hw⟩
    · exact .inl (List.mem_append_left _ hmem)
    · rcases (he j hj).once hw with ⟨o, ho, -⟩ | ⟨-, j', hsome, hw'⟩
      · refine .inl (List.mem_append_right _ (List.mem_map.mpr ⟨(j.id, o), ?_, rfl⟩))
        exact List.mem_flatMap.mpr ⟨j, hj, List.mem_map.mpr ⟨o, by rw [ho]; exact List.mem_cons_self, rfl⟩⟩
      · exact .inr ⟨j', List.mem_flatMap.mpr ⟨j, hj, Option.mem_toList.mpr hsome⟩,
          ((he j hj).same j' hsome).1, hw'⟩
  case shut =>
    intro hclosed j' hj'
    obtain ⟨j, hj, hsome⟩ := hjob j' hj'
    exact ((he j hj).done (h.shut hclosed j hj)).2 j' hsome
  case tells =>
    intro id json hmem
    rcases List.mem_append.mp hmem with hmem | hmem
    · exact h.tells id json hmem
    · obtain ⟨j, hj, hid, ho⟩ := hnew _ hmem
      rw [show id = j.id from hid]
      exact ⟨j.filters, h.asked j hj, (he j hj).tells json ho⟩

theorem Reader.Good.onJob (h : r.Good P) {id : Nat} {can : Job → Bool} {effect : Job → Effect}
    (hstep : r.onJob id can effect = some r')
    (he : ∀ j ∈ r.active, j.id = id → can j = true → (effect j).Sound P j)
    (hend : ∀ j ∈ r.active, can j = true → (effect j).job = none → id ∉ r.threads) : r'.Good P := by
  rw [Reader.onJob] at hstep
  split at hstep
  · cases hstep
  next j hfind =>
  have hj : j ∈ r.active := List.mem_of_find?_eq_some hfind
  have hid : j.id = id := by simpa using List.find?_some hfind
  split at hstep
  · next hcan =>
    cases hstep
    have honly : ∀ i ∈ r.active, i.id = id → i = j := fun i hi h' =>
      List.inj_on_of_nodup_map h.ids hi hj (h'.trans hid.symm)
    refine h.apply (fun i hi => ?_) (fun i hi hnone => ?_)
    · split
      · next hi' =>
        rw [honly i hi hi']
        exact he j hj hid hcan
      · exact Effect.sound_same (h.ok i hi)
    · split at hnone
      · next hi' =>
        rw [honly i hi hi'] at hnone
        rw [hi']
        exact hend j hj hcan hnone
      · cases hnone
  · cases hstep

/-- The next read has an id that nothing was resolved for. -/
theorem Reader.Good.fresh (h : r.Good P) : r.asked.length ∉ r.resolved.map Prod.fst := by
  intro hmem
  obtain ⟨x, hx, hid⟩ := List.mem_map.mp hmem
  exact absurd (h.known x hx) (by omega)

theorem getElem?_concat {α : Type} {l : List α} {a : α} {i : Nat} (h : l[i]? = some a) (b : α) :
    (l ++ [b])[i]? = some a :=
  (List.getElem?_append_left (List.getElem?_eq_some_iff.mp h).1).trans h

theorem Reader.Good.refuse (h : r.Good P) (filters : Option Filters) {outcome : Outcome}
    (ho : outcome.Failed) : (r.refuse filters outcome).Good P := by
  have hasked : (r.refuse filters outcome).asked.length = r.asked.length + 1 := List.length_append
  have hresolved : (r.refuse filters outcome).resolved.map Prod.fst =
      r.resolved.map Prod.fst ++ [r.asked.length] := List.map_append
  constructor
  case ids => exact h.ids
  case asked => exact fun j hj => getElem?_concat (h.asked j hj) filters
  case ok => exact h.ok
  case few => exact h.few
  case threads => exact h.threads
  case running => exact h.running
  case known =>
    intro x hx
    rw [hasked]
    rcases List.mem_append.mp hx with hx | hx
    · exact Nat.lt_succ_of_lt (h.known x hx)
    · rw [List.mem_singleton.mp hx]
      exact Nat.lt_succ_self _
  case once =>
    rw [hresolved, ← List.concat_eq_append]
    exact h.once.concat h.fresh
  case open_ =>
    intro j hj hw
    rw [hresolved, List.mem_append, not_or, List.mem_singleton]
    exact ⟨h.open_ j hj hw, Nat.ne_of_lt (h.asked_lt hj)⟩
  case all =>
    intro id hid
    rw [hasked] at hid
    rw [hresolved, List.mem_append, List.mem_singleton]
    rcases Nat.lt_succ_iff_lt_or_eq.mp hid with hid | hid
    · exact (h.all id hid).imp .inl fun h' => h'
    · exact .inl (.inr hid)
  case shut => exact h.shut
  case tells =>
    intro id json hmem
    rcases List.mem_append.mp hmem with hmem | hmem
    · obtain ⟨f, hf, hP⟩ := h.tells id json hmem
      exact ⟨f, getElem?_concat hf filters, hP⟩
    · cases List.mem_singleton.mp hmem
      exact absurd rfl (ho json)

theorem Reader.Good.read (h : r.Good P) (filters : Option Filters) (made : Bool) :
    (r.read filters made).Good P := by
  unfold Reader.read
  split
  · exact h.refuse filters (result_ne_ok _ _ _)
  next hopen =>
  split
  · exact h.refuse none (result_ne_ok _ _ _)
  next f =>
  split
  · exact h.refuse (some f) (result_ne_ok _ _ _)
  next hfew =>
  split
  · exact h.refuse (some f) (result_ne_ok _ _ _)
  have hfresh : r.asked.length ∉ r.active.map Job.id := by
    intro hmem
    obtain ⟨j, hj, hid⟩ := List.mem_map.mp hmem
    exact absurd (h.asked_lt hj) (by omega)
  constructor
  case ids =>
    show ((r.active ++ [_]).map Job.id).Nodup
    rw [List.map_append, List.map_singleton, ← List.concat_eq_append]
    exact h.ids.concat hfresh
  case asked =>
    intro j hj
    rcases List.mem_append.mp hj with hj | hj
    · exact getElem?_concat (h.asked j hj) _
    · cases List.mem_singleton.mp hj
      exact List.getElem?_concat_length
  case ok =>
    intro j hj
    rcases List.mem_append.mp hj with hj | hj
    · exact h.ok j hj
    · cases List.mem_singleton.mp hj
      exact ⟨fun _ => rfl, by rintro ⟨⟩, by rintro ⟨⟩, by rintro _ ⟨⟩⟩
  case few =>
    show (r.active ++ [_]).length ≤ 2
    rw [List.length_append, List.length_singleton]
    omega
  case threads =>
    intro t ht
    show t ∈ (r.active ++ [_]).map Job.id
    rw [List.map_append, List.mem_append]
    rcases List.mem_append.mp ht with ht | ht
    · exact .inl (h.threads t ht)
    · exact .inr ht
  case running =>
    show (r.threads ++ [r.asked.length]).Nodup
    rw [← List.concat_eq_append]
    exact h.running.concat fun hmem => hfresh (h.threads _ hmem)
  case known =>
    intro x hx
    exact (h.known x hx).trans (by simp)
  case once => exact h.once
  case open_ =>
    intro j hj hw
    rcases List.mem_append.mp hj with hj | hj
    · exact h.open_ j hj hw
    · cases List.mem_singleton.mp hj
      exact h.fresh
  case all =>
    intro id hid
    have hid : id < r.asked.length + 1 := hid.trans_eq List.length_append
    rcases Nat.lt_succ_iff_lt_or_eq.mp hid with hid | hid
    · refine (h.all id hid).imp (fun h' => h') ?_
      rintro ⟨j, hj, h'⟩
      exact ⟨j, List.mem_append_left _ hj, h'⟩
    · exact .inr ⟨_, List.mem_append_right _ List.mem_cons_self, hid.symm, rfl⟩
  case shut => exact fun hclosed => absurd hclosed hopen
  case tells =>
    intro id json hmem
    obtain ⟨g, hg, hP⟩ := h.tells id json hmem
    exact ⟨g, getElem?_concat hg _, hP⟩

theorem Reader.Good.close (h : r.Good P) : r.close.Good P := by
  have hsound : ∀ j ∈ r.active, j.stop.Sound P j ∧ ∀ j' ∈ j.stop.job, j'.waiting = false :=
    fun j hj => (h.ok j hj).deliverOr_sound (result_ne_ok _ _ _) j.timer
  have happly := h.apply (fun j hj => (hsound j hj).1) fun j _ hnone => by
    rw [Job.stop, Job.deliverOr] at hnone
    split at hnone <;> cases hnone
  refine { happly with shut := fun _ j' hj' => ?_ }
  obtain ⟨j, hj, hmem⟩ := List.mem_flatMap.mp hj'
  exact (hsound j hj).2 j' (Option.mem_toList.mp hmem)

/-- What the workers post is true. -/
def Posts (P : Filters → Units → Prop) (r : Reader) : ReaderEvent → Prop
  | .message id m => ∀ f, r.asked[id]? = some (some f) → ∀ json, outcomeOf m = .ok json → P f json
  | _ => True

/-- **Every event keeps the reader good.** -/
theorem Reader.Good.step (h : r.Good P) {e : ReaderEvent} (hposts : Posts P r e)
    (hstep : r.step e = some r') : r'.Good P := by
  cases e with
  | read filters made =>
    cases hstep
    exact h.read filters made
  | message id m =>
    refine h.onJob hstep (fun j hj hid _ => ?_) fun j _ _ hnone => by cases hnone
    refine j.finishAfterRelease_sound (h.ok j hj) fun json ho => hposts j.filters ?_ json ho
    rw [← hid]
    exact h.asked j hj
  | error id =>
    refine h.onJob hstep (fun j hj _ _ => ?_) fun j _ _ hnone => by cases hnone
    exact j.finishAfterRelease_sound (h.ok j hj) fun json ho => absurd ho (result_ne_ok _ _ _ json)
  | ends id =>
    rw [Reader.step] at hstep
    split at hstep
    · cases hstep
      exact { h with
        threads := fun t ht => h.threads t (List.mem_of_mem_erase ht)
        running := h.running.erase id }
    · cases hstep
  | exit id =>
    exact h.onJob hstep (fun j hj _ _ => (h.ok j hj).exit_sound) fun j _ hcan _ =>
      of_decide_eq_true hcan
  | terminated id =>
    refine h.onJob hstep (fun j hj _ hcan => ?_) fun j _ hcan _ => ?_
    · exact (h.ok j hj).release_sound ((h.ok j hj).stopping (Bool.and_eq_true_iff.mp hcan).1)
    · exact of_decide_eq_true (Bool.and_eq_true_iff.mp hcan).2
  | timeout id =>
    refine h.onJob hstep (fun j hj _ _ => ?_) fun j _ _ hnone => ?_
    · exact ((h.ok j hj).deliverOr_sound (result_ne_ok _ _ _) false).1
    · rw [Job.timeout, Job.deliverOr] at hnone
      split at hnone <;> cases hnone
  | close =>
    cases hstep
    exact h.close

/-! ## Every run -/

variable {events : List ReaderEvent}

theorem reader_good (hposts : reader.Along (Posts P) events) (hrun : reader.run events = some r) :
    r.Good P :=
  Automaton.invariant Reader.good_start (fun _ _ _ h hp hs => h.step hp hs) hposts hrun

/-- Nothing is said of what the workers post. -/
theorem reader_good_true (hrun : reader.run events = some r) : r.Good fun _ _ => True := by
  refine reader_good (fun _ e _ _ _ _ => ?_) hrun
  cases e with
  | message id m => exact fun _ _ _ _ => trivial
  | _ => trivial

/-- **Two threads run at most, and every read is answered once**: it has been, or its timer is set and
answers it; and once the reader is closed every read has been answered. -/
theorem reads_answered (hrun : reader.run events = some r) :
    r.threads.length ≤ 2 ∧ (r.resolved.map Prod.fst).Nodup ∧
      (∀ id < r.asked.length, id ∈ r.resolved.map Prod.fst ∨
        ∃ r', r.step (.timeout id) = some r' ∧ id ∈ r'.resolved.map Prod.fst) ∧
      (r.closed = true → ∀ id < r.asked.length, id ∈ r.resolved.map Prod.fst) := by
  have h := reader_good_true hrun
  refine ⟨?_, h.once, fun id hid => (h.all id hid).imp (fun h' => h') ?_, fun hclosed id hid => ?_⟩
  · have hlen := (List.subperm_of_subset h.running h.threads).length_le
    rw [List.length_map] at hlen
    exact hlen.trans h.few
  · rintro ⟨j, hj, rfl, hw⟩
    have hok := h.ok j hj
    obtain ⟨i, hi⟩ : ∃ i, r.active.find? (fun i => i.id = j.id) = some i :=
      Option.isSome_iff_exists.mp (List.find?_isSome.mpr ⟨j, hj, decide_eq_true rfl⟩)
    have hij : i = j := List.inj_on_of_nodup_map h.ids (List.mem_of_find?_eq_some hi) hj
      (by simpa using List.find?_some hi)
    obtain ⟨hsound, hquiet⟩ := hok.deliverOr_sound
      (result_ne_ok "AUDIT_QUERY_TIMEOUT" 503 "wall_timeout") false
    refine ⟨r.apply fun i => if i.id = j.id then i.timeout else ⟨some i, []⟩, ?_, ?_⟩
    · rw [Reader.step, Reader.onJob, hi, hij]
      exact if_pos (hok.timer hw)
    · rcases hsound.once hw with ⟨o, ho, -⟩ | ⟨-, j', hsome, hw'⟩
      · refine List.mem_map.mpr ⟨(j.id, o), List.mem_append_right _ ?_, rfl⟩
        refine List.mem_flatMap.mpr ⟨j, hj, List.mem_map.mpr ⟨o, ?_, rfl⟩⟩
        dsimp only
        rw [if_pos rfl, Job.timeout, ho]
        exact List.mem_cons_self
      · rw [hquiet j' hsome] at hw'
        cases hw'
  · refine (h.all id hid).resolve_right ?_
    rintro ⟨j, hj, -, hw⟩
    rw [h.shut hclosed j hj] at hw
    cases hw

/-- The workers post what their query finds, where the path holds a log. -/
def Honest (L : Language) (r : Reader) : ReaderEvent → Prop
  | .message id m => ∀ f, r.asked[id]? = some (some f) →
      ∃ file raw, Opened.Holds file raw ∧ m = posted L f file
  | _ => True

end

/-! ## One run -/

/-- One read, answered by its worker. -/
def answeredRead : List ReaderEvent :=
  [.read (some sampleFilters) true, .message 0 (posted plainLanguage sampleFilters sampleFile),
    .ends 0, .exit 0]

/-- Three reads, of which the last one finds no place and the first one no answer in time. -/
def threeReads : List ReaderEvent :=
  [.read (some sampleFilters) true, .read (some sampleFilters) true, .read (some sampleFilters) true,
    .timeout 0, .error 1]

theorem reads_answered_threeReads : ∃ r, reader.run threeReads = some r ∧
    r.threads.length ≤ 2 ∧ (r.resolved.map Prod.fst).Nodup ∧
      (∀ id < r.asked.length, id ∈ r.resolved.map Prod.fst ∨
        ∃ r', r.step (.timeout id) = some r' ∧ id ∈ r'.resolved.map Prod.fst) ∧
      (r.closed = true → ∀ id < r.asked.length, id ∈ r.resolved.map Prod.fst) := by
  obtain ⟨r, hrun⟩ : ∃ r, reader.run threeReads = some r := ⟨_, rfl⟩
  exact ⟨r, hrun, reads_answered hrun⟩

theorem answeredRead_honest : reader.Along (Honest plainLanguage) answeredRead := by
  have hread : reader.Along (Honest plainLanguage) (answeredRead.take 1) :=
    Automaton.along_nil.concat fun _ _ => trivial
  have hmessage : reader.Along (Honest plainLanguage) (answeredRead.take 2) := by
    refine hread.concat ?_
    rintro _ ⟨⟩ f hf
    cases hf
    exact ⟨sampleFile, _, sampleFile_holds, rfl⟩
  have hends : reader.Along (Honest plainLanguage) (answeredRead.take 3) :=
    hmessage.concat fun _ _ => trivial
  exact hends.concat fun _ _ => trivial

/-- The JSON of a success. -/
def Outcome.json : Outcome → Option Units
  | .ok json => some json
  | .failed .. => none

end Telepty.Audit
