import Telepty.Ssh.Plan
import Mathlib.Data.List.Nodup

/-!
# What an SSH plan is made of

The options are looked up in a plain object, which has more names than those it is written with:
the ones that every object inherits. Such a name passes for an option with a value, and both are
dropped.

* `Reads` — how the arguments behind the target are divided
* `readOptions_spec` — what the loop makes of them
* `exact_iff` — when a plan that is accepted means exactly what was asked for
-/

namespace Telepty.Ssh

open Infra

/-! ## Arguments -/

/-- The arguments are options with a value each, `--persistent`, and what follows on `--`. -/
inductive Reads : List Text → List (Text × Text) → List Text → Prop where
  | nil : Reads [] [] []
  | rest (args : List Text) : Reads ("--".toList :: args) [] args
  | persistent {tokens : List Text} {opts : List (Text × Text)} {args : List Text} :
      Reads tokens opts args → Reads ("--persistent".toList :: tokens) opts args
  | option {tokens : List Text} {opts : List (Text × Text)} {args : List Text} (flag value : Text) :
      flag ≠ "--".toList → flag ≠ "--persistent".toList → Reads tokens opts args →
        Reads (flag :: value :: tokens) ((flag, value) :: opts) args

/-- There is one way to divide them. -/
theorem Reads.unique {tokens : List Text} {opts opts' : List (Text × Text)} {args args' : List Text}
    (h : Reads tokens opts args) (h' : Reads tokens opts' args') : opts = opts' ∧ args = args' := by
  induction h generalizing opts' args' with
  | nil =>
    cases h'
    exact ⟨rfl, rfl⟩
  | rest args =>
    cases h' with
    | rest => exact ⟨rfl, rfl⟩
    | option flag value hne => exact absurd rfl hne
  | persistent _ ih =>
    cases h' with
    | persistent h' => exact ih h'
    | option flag value _ hne => exact absurd rfl hne
  | option flag value hrest hpersistent _ ih =>
    cases h' with
    | rest => exact absurd rfl hrest
    | persistent => exact absurd rfl hpersistent
    | option _ _ _ _ h' =>
      obtain ⟨rfl, rfl⟩ := ih h'
      exact ⟨rfl, rfl⟩

/-! ## The table -/

theorem mem_of_lookup {α β : Type} [BEq α] [LawfulBEq α] {l : List (α × β)} {a : α} {b : β}
    (h : l.lookup a = some b) : (a, b) ∈ l := by
  induction l with
  | nil => exact nomatch h
  | cons p l ih =>
    obtain ⟨a', b'⟩ := p
    rw [List.lookup_cons] at h
    split at h
    next heq =>
      obtain rfl := Option.some.inj h
      rw [eq_of_beq heq]
      exact List.mem_cons_self ..
    · exact List.mem_cons_of_mem _ (ih h)

theorem nodup_keys : ((flags ++ inherited).map Prod.snd).Nodup := by decide +kernel

/-- No two options are kept under one key. -/
theorem keyOf_injective {flag flag' key : Text} (h : keyOf flag = some key)
    (h' : keyOf flag' = some key) : flag = flag' := by
  have hmem := mem_of_lookup h
  have hmem' := mem_of_lookup h'
  have := List.inj_on_of_nodup_map nodup_keys hmem hmem' rfl
  exact congrArg Prod.fst this

/-- What the table knows is an option or inherited. -/
theorem documented_or_inherited {flag key : Text} (h : keyOf flag = some key) :
    flag ∈ flags.map Prod.fst ∨ flag ∈ inherited.map Prod.fst := by
  rcases List.mem_append.mp (mem_of_lookup h) with hmem | hmem
  · exact .inl (List.mem_map_of_mem hmem)
  · exact .inr (List.mem_map_of_mem hmem)

theorem not_inherited_of_documented {flag : Text} (h : flag ∈ flags.map Prod.fst) :
    flag ∉ inherited.map Prod.fst := by
  revert flag
  decide +kernel

/-! ## The loop -/

/-- What the loop has made of the arguments it accepts. -/
structure Read (tokens : List Text) (o o' : Options) (opts : List (Text × Text)) (args : List Text) :
    Prop where
  reads : Reads tokens opts args
  keys : ∀ p ∈ opts, ∃ key, keyOf p.1 = some key ∧ key ∉ o.given
  nodup : (opts.map Prod.fst).Nodup
  get : ∀ flag key, keyOf flag = some key → o'.get key = (opts.lookup flag).or (o.get key)
  remoteArgs : o'.remoteArgs = args

/-- An option with its value, before what is read next. -/
theorem readOptions_option {flag value key : Text} {tokens : List Text} {o o' : Options}
    (hrest : flag ≠ "--".toList) (hpersistent : flag ≠ "--persistent".toList)
    (hkey : keyOf flag = some key) (hgiven : key ∉ o.given)
    (h : ∃ opts args, Read tokens
      { o with values := (key, value) :: o.values, given := key :: o.given } o' opts args) :
    ∃ opts args, Read (flag :: value :: tokens) o o' opts args := by
  obtain ⟨opts, args, hread⟩ := h
  -- the key is taken, so the option does not come again
  have hnew : flag ∉ opts.map Prod.fst := by
    intro hmem
    obtain ⟨p, hp, rfl⟩ := List.mem_map.mp hmem
    obtain ⟨key', hkey', hnot⟩ := hread.keys p hp
    obtain rfl := Option.some.inj (hkey.symm.trans hkey')
    exact hnot (List.mem_cons_self ..)
  refine ⟨(flag, value) :: opts, args, ?_⟩
  refine { reads := .option flag value hrest hpersistent hread.reads, keys := ?_, nodup := ?_
           get := ?_, remoteArgs := hread.remoteArgs }
  · intro p hp
    rcases List.mem_cons.mp hp with rfl | hp
    · exact ⟨key, hkey, hgiven⟩
    · obtain ⟨key', hkey', hnot⟩ := hread.keys p hp
      exact ⟨key', hkey', fun hmem => hnot (List.mem_cons_of_mem _ hmem)⟩
  · exact List.nodup_cons.mpr ⟨hnew, hread.nodup⟩
  · intro flag' key' hkey'
    rw [hread.get flag' key' hkey', List.lookup_cons]
    by_cases heq : flag' = flag
    · subst heq
      obtain rfl := Option.some.inj (hkey.symm.trans hkey')
      have hnone : opts.lookup flag' = none := by
        rw [List.lookup_eq_none_iff]
        intro p hp
        have hne : flag' ≠ p.1 := by
          intro he
          rw [he] at hnew
          exact hnew (List.mem_map_of_mem hp)
        exact bne_iff_ne.mpr hne
      rw [hnone, beq_self_eq_true]
      simp [Options.get]
    · have hne : key' ≠ key := fun he => heq (keyOf_injective hkey' (he ▸ hkey))
      rw [beq_false_of_ne heq]
      simp [Options.get, List.lookup_cons, beq_false_of_ne hne]

/-- **The loop.** -/
theorem readOptions_spec : ∀ {tokens : List Text} {o o' : Options}, o.remoteArgs = [] →
    readOptions tokens o = .ok o' → ∃ opts args, Read tokens o o' opts args
  | [], o, o', ho, h => by
    rw [readOptions] at h
    cases h
    exact ⟨[], [],
      { reads := .nil, keys := fun _ hp => (nomatch hp), nodup := .nil
        get := fun _ _ _ => rfl, remoteArgs := ho }⟩
  | flag :: tokens, o, o', ho, h => by
    rw [readOptions.eq_def] at h
    simp only at h
    split at h
    next hpersistent =>
      obtain ⟨opts, args, hread⟩ := readOptions_spec (o := { o with persistent := true }) ho h
      subst hpersistent
      exact ⟨opts, args,
        { reads := hread.reads.persistent, keys := hread.keys, nodup := hread.nodup
          get := hread.get, remoteArgs := hread.remoteArgs }⟩
    next hpersistent =>
      split at h
      next hrest =>
        split at h
        · cases h
          subst hrest
          exact ⟨[], tokens,
            { reads := .rest tokens, keys := fun _ hp => (nomatch hp), nodup := .nil
              get := fun _ _ _ => rfl, remoteArgs := rfl }⟩
        · exact nomatch h
      next hrest =>
        split at h
        · exact nomatch h
        next key hkey =>
          split at h
          · exact nomatch h
          next hgiven =>
            split at h
            · exact nomatch h
            next value tokens =>
              split at h
              · exact readOptions_option hrest hpersistent hkey hgiven
                  (readOptions_spec (by exact ho) h)
              · exact nomatch h

/-! ## The plan -/

/-- What the plan runs is what was asked for: nothing, or, in the directory, the remote command with
the words that resume the conversation and the remote arguments. -/
def Runs (target : Text) (opts : List (Text × Text)) (args : List Text) (plan : Plan) : Prop :=
  ∃ n : Numbers,
    match opts.lookup "--remote-command".toList with
    | none =>
      plan.args = n.args ++ [target] ∧ opts.lookup "--cwd".toList = none ∧
        opts.lookup "--resume".toList = none ∧ args = []
    | some command =>
      ∃ script, plan.args = n.args ++ [target, script] ∧
        ∀ home : Text, home.head? = some '/' →
          meaning home script = some ⟨(opts.lookup "--cwd".toList).map (directory home),
            command :: (resumeArgs command (opts.lookup "--resume".toList) ++ args)⟩

/-- The plan means exactly what was asked for: the arguments are the target, documented options,
each at most once, `--persistent`, and what follows on `--`. -/
def Exact (argv : List Text) (plan : Plan) : Prop :=
  ∃ target tokens opts args, argv = target :: tokens ∧ Reads tokens opts args ∧
    (∀ p ∈ opts, p.1 ∈ flags.map Prod.fst) ∧ (opts.map Prod.fst).Nodup ∧
      Runs target opts args plan

/-- No option has the name of something that every object inherits. -/
def NoneInherited (argv : List Text) : Prop :=
  ∀ target tokens opts args, argv = target :: tokens → Reads tokens opts args →
    ∀ p ∈ opts, p.1 ∉ inherited.map Prod.fst

theorem noneInherited_of_reads {target : Text} {tokens : List Text} {opts : List (Text × Text)}
    {args : List Text} (h : Reads tokens opts args)
    (hnone : ∀ p ∈ opts, p.1 ∉ inherited.map Prod.fst) : NoneInherited (target :: tokens) := by
  rintro _ _ opts' args' ⟨⟩ h'
  obtain ⟨rfl, -⟩ := h.unique h'
  exact hnone

theorem bind_eq_ok {ε α β : Type} {x : Except ε α} {f : α → Except ε β} {b : β}
    (h : x.bind f = .ok b) : ∃ a, x = .ok a ∧ f a = .ok b := by
  cases x with
  | error e => exact nomatch h
  | ok a => exact ⟨a, rfl, h⟩

theorem buildSshPlan_ok {argv : List Text} {plan : Plan} (h : buildSshPlan argv = .ok plan) :
    ∃ target tokens o id n, argv = target :: tokens ∧ readOptions tokens .initial = .ok o ∧
      o.refusal = none ∧ plan = planOf target id n o := by
  cases argv with
  | nil => exact nomatch h
  | cons target tokens =>
    rw [buildSshPlan] at h
    split at h
    · exact nomatch h
    split at h
    · exact nomatch h
    obtain ⟨o, ho, h⟩ := bind_eq_ok h
    obtain ⟨id, -, h⟩ := bind_eq_ok h
    split at h
    · exact nomatch h
    obtain ⟨n, -, h⟩ := bind_eq_ok h
    split at h
    · exact nomatch h
    next hrefusal => exact ⟨target, tokens, o, id, n, rfl, ho, hrefusal, (Except.ok.inj h).symm⟩

/-- What is not refused. -/
theorem refusal_eq_none {o : Options} (h : o.refusal = none) :
    (o.get "remoteCommand" = none →
        o.get "cwd" = none ∧ o.get "resume" = none ∧ o.remoteArgs = []) ∧
      ∀ command, o.get "remoteCommand" = some command → isOperand command = true := by
  unfold Options.refusal at h
  simp only at h
  split at h
  · exact nomatch h
  next hcwd =>
  split at h
  · exact nomatch h
  next hargs =>
  split at h
  · exact nomatch h
  next hcommand =>
  split at h
  · exact nomatch h
  split at h
  · exact nomatch h
  next hresume =>
  constructor
  · intro hnone
    rw [hnone] at hcwd hargs hresume
    refine ⟨?_, ?_, ?_⟩
    · simpa using hcwd
    · simpa using hresume
    · simpa using hargs
  · intro command hsome
    rw [hsome] at hcommand
    simpa [isOperand] using hcommand

/-- A plan runs what was asked for. -/
theorem runs_of_read {tokens : List Text} {o : Options} {opts : List (Text × Text)}
    {args : List Text} (hread : Read tokens .initial o opts args) (hrefusal : o.refusal = none)
    (target id : Text) (n : Numbers) : Runs target opts args (planOf target id n o) := by
  have hget : ∀ {flag key : Text}, keyOf flag = some key → Options.initial.get key = none →
      o.get key = opts.lookup flag := by
    intro flag key hkey hnone
    rw [hread.get flag key hkey, hnone, Option.or_none]
  have hcommand : o.get "remoteCommand".toList = opts.lookup "--remote-command".toList :=
    hget (by decide) (by decide)
  have hcwd : o.get "cwd".toList = opts.lookup "--cwd".toList := hget (by decide) (by decide)
  have hresume : o.get "resume".toList = opts.lookup "--resume".toList :=
    hget (by decide) (by decide)
  obtain ⟨hnone, hoperand⟩ := refusal_eq_none hrefusal
  refine ⟨n, ?_⟩
  rw [← hcommand, ← hcwd, ← hresume, ← hread.remoteArgs, planOf]
  cases hc : o.get "remoteCommand".toList with
  | none =>
    obtain ⟨hcwd, hresume, hargs⟩ := hnone hc
    exact ⟨rfl, hcwd, hresume, hargs⟩
  | some command =>
    exact ⟨_, rfl, fun home hhome => meaning_scriptOf (hoperand command hc) hhome _ _⟩

/-- **Plans.** A plan that is accepted means exactly what was asked for, if and only if no option of
it has the name of something that every object inherits. -/
theorem exact_iff {argv : List Text} {plan : Plan} (h : buildSshPlan argv = .ok plan) :
    Exact argv plan ↔ NoneInherited argv := by
  obtain ⟨target, tokens, o, id, n, rfl, ho, hrefusal, rfl⟩ := buildSshPlan_ok h
  obtain ⟨opts, args, hread⟩ := readOptions_spec rfl ho
  constructor
  · rintro ⟨_, _, opts', args', ⟨⟩, hreads', hdocumented, -⟩ _ _ opts'' args'' ⟨⟩ hreads'' p hp
    obtain ⟨rfl, -⟩ := hreads'.unique hreads''
    exact not_inherited_of_documented (hdocumented p hp)
  · intro hnone
    refine ⟨target, tokens, opts, args, rfl, hread.reads, ?_, hread.nodup,
      runs_of_read hread hrefusal target id n⟩
    intro p hp
    obtain ⟨key, hkey, -⟩ := hread.keys p hp
    rcases documented_or_inherited hkey with hdocumented | hinherited
    · exact hdocumented
    · exact absurd hinherited (hnone target tokens opts args rfl hread.reads p hp)

/-- A remote command in a directory whose name has a quote, and an argument that would be run. -/
def sampleArgv : List Text :=
  ["host", "--id", "s", "--remote-command", "claude", "--cwd", "~/it's", "--", "$(date)"]

theorem reads_sampleArgv : Reads sampleArgv.tail
    [("--id", "s"), ("--remote-command", "claude"), ("--cwd", "~/it's")] ["$(date)"] :=
  .option _ _ (by decide) (by decide) (.option _ _ (by decide) (by decide)
    (.option _ _ (by decide) (by decide) (.rest _)))

theorem exact_sampleArgv : ∃ plan, buildSshPlan sampleArgv = .ok plan ∧ Exact sampleArgv plan := by
  refine ⟨_, rfl, (exact_iff rfl).mpr (noneInherited_of_reads reads_sampleArgv ?_)⟩
  decide +kernel

/-- `toString` passes for an option. -/
theorem toString_accepted : ∃ plan, buildSshPlan ["host", "--id", "s", "toString", "x"] = .ok plan ∧
    ¬ Exact ["host", "--id", "s", "toString", "x"] plan := by
  refine ⟨_, rfl, ?_⟩
  rintro ⟨_, _, opts, args, ⟨⟩, hreads, hdocumented, -⟩
  have hsample : Reads ["--id", "s", "toString", "x"] [("--id", "s"), ("toString", "x")] [] :=
    .option _ _ (by decide) (by decide) (.option _ _ (by decide) (by decide) .nil)
  obtain ⟨rfl, -⟩ := hsample.unique hreads
  have := hdocumented ("toString", "x") (by decide)
  exact absurd this (by decide)

end Telepty.Ssh
