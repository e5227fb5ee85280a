/-
The options of a run. They are what the arguments give, each of them in one of the ways in which it can be written, and
no other arguments name a run. What they give replaces the workers and the cutoffs of the settings, and nothing else.

- `RunFlag.WrittenAs`, `RunFlag.Arguments`: the arguments that give some options.
- `accept_eq_ok_iff`, `foldlM_accept_eq_ok_iff`: what is given one after the other.
- `runCommand_eq_ok_iff`, `givenBy_iff`: which arguments name a run, and with which options.
- `replaces_override`, `replaces_iff`: what the options replace.
-/
import Mathlib.Data.List.Forall2
import Mathlib.Tactic.MkIffOfInductiveProp
import Mathlib.Tactic.Tauto
import RankEval.CommandLine.RunScript
import RankEval.Proofs.CommandLine.Arguments
import RankEval.Proofs.Decimal.Digits

namespace RankEval.CommandLine

open Text (IsCount)

/-! ## What is written -/

/-- an option of a run, with what it is given -/
inductive RunFlag where
  | settings (path : FilePath)
  | output (path : FilePath)
  | workers (n : Nat)
  | cutoffs (ks : List Nat)

namespace RunFlag

/-- The arguments that give an option. A path must not be empty, numbers are written in digits and have 64 bits, and at
least one cutoff is given at a time. -/
inductive WrittenAs : RunFlag → List String → Prop
  | settings {path : FilePath} {args : List String} (hpath : path ≠ "")
    (h : Written (some 'c') (some "config") [path] args) : WrittenAs (.settings path) args
  | output {path : FilePath} {args : List String} (hpath : path ≠ "")
    (h : Written (some 'o') (some "output") [path] args) : WrittenAs (.output path) args
  | workers {n : Nat} {text : String} {args : List String} (hn : IsCount text.toList n)
    (h : Written (some 'w') (some "workers") [text] args) : WrittenAs (.workers n) args
  | cutoffs {ks : List Nat} {texts args : List String} (hne : ks ≠ [])
    (hks : List.Forall₂ (fun text k => IsCount text.toList k) texts ks) (h : Written (some 'k') none texts args) :
    WrittenAs (.cutoffs ks) args

/-- The arguments that give some options, one after the other; two dashes may stand behind them. -/
inductive Arguments : List RunFlag → List String → Prop
  | nil : Arguments [] []
  | dashes : Arguments [] ["--"]
  | cons {flag : RunFlag} {flags : List RunFlag} {written args : List String} (hwritten : flag.WrittenAs written)
    (h : Arguments flags args) : Arguments (flag :: flags) (written ++ args)

def settings? : RunFlag → Option FilePath
  | settings path => some path
  | _ => none

def output? : RunFlag → Option FilePath
  | output path => some path
  | _ => none

def workers? : RunFlag → Option Nat
  | workers n => some n
  | _ => none

def givenCutoffs : RunFlag → List Nat
  | cutoffs ks => ks
  | _ => []

end RunFlag

namespace RunOptions

/-- The options after some more were given. All but the cutoffs are given once, and cutoffs come behind those before
them. -/
@[mk_iff]
structure Extends (o : RunOptions) (flags : List RunFlag) (o' : RunOptions) : Prop where
  settings : o'.settings.toList = o.settings.toList ++ flags.filterMap RunFlag.settings?
  output : o'.output.toList = o.output.toList ++ flags.filterMap RunFlag.output?
  workers : o'.workers.toList = o.workers.toList ++ flags.filterMap RunFlag.workers?
  cutoffs : o'.cutoffs = o.cutoffs ++ flags.flatMap RunFlag.givenCutoffs

/-- Arguments give the options of a run: each of them at most once but the cutoffs, which come one after the other. -/
def GivenBy (o : RunOptions) (args : List String) : Prop :=
  ∃ flags, RunFlag.Arguments flags args ∧ Extends {} flags o

end RunOptions

/-! ## What is read -/

theorem bind_eq_ok_iff {α β ε : Type} {x : Except ε α} {f : α → Except ε β} {b : β} :
    x >>= f = .ok b ↔ ∃ a, x = .ok a ∧ f a = .ok b := by
  cases x with
  | error failure => exact iff_of_false (by simp [Bind.bind, Except.bind]) (by simp)
  | ok a => simp [Bind.bind, Except.bind]

theorem once_eq_ok_iff {α : Type} {before : Option α} {read : String → Option α} {values : List String}
    {after : Option α} : once before read values = .ok after ↔
      before = none ∧ ∃ s value, values = [s] ∧ read s = some value ∧ after = some value := by
  unfold once
  split
  · next s =>
    cases before with
    | some _ => simp
    | none => cases hread : read s <;> simp [hread, eq_comm]
  · next hsingle =>
    refine iff_of_false (by simp) ?_
    rintro ⟨-, s, -, rfl, -⟩
    exact hsingle s rfl

theorem mapM_eq_some_iff {α β : Type} {f : α → Option β} {xs : List α} {ys : List β} :
    xs.mapM f = some ys ↔ List.Forall₂ (fun x y => f x = some y) xs ys := by
  induction xs generalizing ys with
  | nil => simp [eq_comm]
  | cons x xs ih =>
    simp only [List.mapM_cons, Option.bind_eq_bind, Option.bind_eq_some_iff, ih, List.forall₂_cons_left_iff]
    constructor
    · rintro ⟨y, hy, ys', hys, h⟩
      cases h
      exact ⟨y, ys', hy, hys, rfl⟩
    · rintro ⟨y, ys', hy, hys, rfl⟩
      exact ⟨y, hy, ys', hys, rfl⟩

theorem more_eq_ok_iff {α : Type} {before after : List α} {read : String → Option α} {values : List String} :
    more before read values = .ok after ↔
      ∃ given ≠ [], List.Forall₂ (fun s value => read s = some value) values given ∧ after = before ++ given := by
  simp only [← mapM_eq_some_iff]
  unfold more
  cases values.mapM read with
  | none => simp
  | some given => cases given <;> simp [eq_comm]

theorem path?_eq_some_iff {s : String} {path : FilePath} : path? s = some path ↔ s ≠ "" ∧ s = path := by
  unfold path?
  split <;> simp_all

theorem count?_eq_some_iff {s : String} {n : Nat} : count? s = some n ↔ IsCount s.toList n := Text.count?_eq_some_iff

/-- what is read stands for an option of a run -/
inductive RunFlag.ReadFrom : RunFlag → Given RunSwitch → Prop
  | settings {path : FilePath} (hpath : path ≠ "") : ReadFrom (.settings path) (.option .settings [path])
  | output {path : FilePath} (hpath : path ≠ "") : ReadFrom (.output path) (.option .output [path])
  | workers {n : Nat} {text : String} (hn : IsCount text.toList n) : ReadFrom (.workers n) (.option .workers [text])
  | cutoffs {ks : List Nat} {texts : List String} (hne : ks ≠ [])
    (hks : List.Forall₂ (fun text k => IsCount text.toList k) texts ks) :
    ReadFrom (.cutoffs ks) (.option .cutoffs texts)

namespace RunOptions

section
variable {α : Type} {x y : Option α} {a : α}

theorem toList_inj : x.toList = y.toList ↔ x = y := by
  cases x <;> cases y <;> simp

theorem toList_eq_append_iff : x.toList = y.toList ++ [a] ↔ y = none ∧ x = some a := by
  cases x <;> cases y <;> simp

theorem eq_none_of_toList_eq {as : List α} (h : x.toList = y.toList ++ a :: as) : y = none := by
  cases x <;> cases y <;> simp_all

end

theorem extends_singleton_iff {o o' : RunOptions} {flag : RunFlag} : o.Extends [flag] o' ↔ match flag with
    | .settings path => o.settings = none ∧ o' = { o with settings := some path }
    | .output path => o.output = none ∧ o' = { o with output := some path }
    | .workers n => o.workers = none ∧ o' = { o with workers := some n }
    | .cutoffs ks => o' = { o with cutoffs := o.cutoffs ++ ks } := by
  obtain ⟨settings, output, workers, cutoffs⟩ := o
  obtain ⟨settings', output', workers', cutoffs'⟩ := o'
  cases flag <;> simp [extends_iff, RunFlag.settings?, RunFlag.output?, RunFlag.workers?, RunFlag.givenCutoffs,
    List.filterMap_cons, toList_eq_append_iff, toList_inj]
  all_goals tauto

theorem accept_eq_ok_iff {o o' : RunOptions} {g : Given RunSwitch} :
    o.accept g = .ok o' ↔ ∃ flag : RunFlag, flag.ReadFrom g ∧ o.Extends [flag] o' := by
  simp only [extends_singleton_iff]
  constructor
  · intro h
    cases g with
    | value s => cases h
    | strange => cases h
    | option id values =>
      cases id with
      | help => cases h
      | settings =>
        obtain ⟨after, honce, h⟩ := bind_eq_ok_iff.1 h
        obtain ⟨hnone, text, path, rfl, hpath, rfl⟩ := once_eq_ok_iff.1 honce
        obtain ⟨hne, rfl⟩ := path?_eq_some_iff.1 hpath
        exact ⟨.settings text, .settings hne, hnone, (Except.ok.inj h).symm⟩
      | output =>
        obtain ⟨after, honce, h⟩ := bind_eq_ok_iff.1 h
        obtain ⟨hnone, text, path, rfl, hpath, rfl⟩ := once_eq_ok_iff.1 honce
        obtain ⟨hne, rfl⟩ := path?_eq_some_iff.1 hpath
        exact ⟨.output text, .output hne, hnone, (Except.ok.inj h).symm⟩
      | workers =>
        obtain ⟨after, honce, h⟩ := bind_eq_ok_iff.1 h
        obtain ⟨hnone, text, n, rfl, hn, rfl⟩ := once_eq_ok_iff.1 honce
        exact ⟨.workers n, .workers (count?_eq_some_iff.1 hn), hnone, (Except.ok.inj h).symm⟩
      | cutoffs =>
        obtain ⟨after, hmore, h⟩ := bind_eq_ok_iff.1 h
        obtain ⟨ks, hne, hks, rfl⟩ := more_eq_ok_iff.1 hmore
        have hks := hks.imp fun _ _ => count?_eq_some_iff.1
        exact ⟨.cutoffs ks, .cutoffs hne hks, (Except.ok.inj h).symm⟩
  · rintro ⟨flag, hread, hextends⟩
    cases hread with
    | settings hpath =>
      obtain ⟨hnone, rfl⟩ := hextends
      have honce := once_eq_ok_iff.2 ⟨hnone, _, _, rfl, path?_eq_some_iff.2 ⟨hpath, rfl⟩, rfl⟩
      exact bind_eq_ok_iff.2 ⟨_, honce, rfl⟩
    | output hpath =>
      obtain ⟨hnone, rfl⟩ := hextends
      have honce := once_eq_ok_iff.2 ⟨hnone, _, _, rfl, path?_eq_some_iff.2 ⟨hpath, rfl⟩, rfl⟩
      exact bind_eq_ok_iff.2 ⟨_, honce, rfl⟩
    | workers hn =>
      obtain ⟨hnone, rfl⟩ := hextends
      have honce := once_eq_ok_iff.2 ⟨hnone, _, _, rfl, count?_eq_some_iff.2 hn, rfl⟩
      exact bind_eq_ok_iff.2 ⟨_, honce, rfl⟩
    | cutoffs hne hks =>
      obtain rfl := hextends
      have hmore : more o.cutoffs count? _ = .ok _ :=
        more_eq_ok_iff.2 ⟨_, hne, hks.imp fun _ _ => count?_eq_some_iff.2, rfl⟩
      exact bind_eq_ok_iff.2 ⟨_, hmore, rfl⟩

theorem extends_nil {o o' : RunOptions} : o.Extends [] o' ↔ o' = o := by
  obtain ⟨settings, output, workers, cutoffs⟩ := o
  obtain ⟨settings', output', workers', cutoffs'⟩ := o'
  simp [extends_iff, toList_inj]

theorem extends_cons {o o' : RunOptions} {flag : RunFlag} {flags : List RunFlag} :
    o.Extends (flag :: flags) o' ↔ ∃ o₁, o.Extends [flag] o₁ ∧ o₁.Extends flags o' := by
  constructor
  · intro h
    -- what is given once was not given before
    cases flag with
    | settings path =>
      have hsettings := h.settings
      have hnone : o.settings = none := eq_none_of_toList_eq hsettings
      rw [hnone] at hsettings
      exact ⟨_, extends_singleton_iff.2 ⟨hnone, rfl⟩, hsettings, h.output, h.workers, h.cutoffs⟩
    | output path =>
      have houtput := h.output
      have hnone : o.output = none := eq_none_of_toList_eq houtput
      rw [hnone] at houtput
      exact ⟨_, extends_singleton_iff.2 ⟨hnone, rfl⟩, h.settings, houtput, h.workers, h.cutoffs⟩
    | workers n =>
      have hworkers := h.workers
      have hnone : o.workers = none := eq_none_of_toList_eq hworkers
      rw [hnone] at hworkers
      exact ⟨_, extends_singleton_iff.2 ⟨hnone, rfl⟩, h.settings, h.output, hworkers, h.cutoffs⟩
    | cutoffs ks =>
      have hcutoffs := h.cutoffs
      rw [List.flatMap_cons, ← List.append_assoc] at hcutoffs
      exact ⟨_, extends_singleton_iff.2 rfl, h.settings, h.output, h.workers, hcutoffs⟩
  · rintro ⟨o₁, hfirst, hrest⟩
    have happend {α : Type} (f : RunFlag → Option α) :
        (flag :: flags).filterMap f = [flag].filterMap f ++ flags.filterMap f := List.filterMap_append (l := [flag])
    constructor
    · rw [hrest.settings, hfirst.settings, happend, List.append_assoc]
    · rw [hrest.output, hfirst.output, happend, List.append_assoc]
    · rw [hrest.workers, hfirst.workers, happend, List.append_assoc]
    · rw [hrest.cutoffs, hfirst.cutoffs, List.flatMap_cons, List.flatMap_cons, List.flatMap_nil, List.append_nil,
        List.append_assoc]

/-- what is given one after the other -/
theorem foldlM_accept_eq_ok_iff {gs : List (Given RunSwitch)} {o o' : RunOptions} :
    gs.foldlM accept o = .ok o' ↔ ∃ flags, List.Forall₂ RunFlag.ReadFrom flags gs ∧ o.Extends flags o' := by
  induction gs generalizing o with
  | nil =>
    simp only [List.foldlM_nil, List.forall₂_nil_right_iff, exists_eq_left, extends_nil]
    constructor
    · exact fun h => (Except.ok.inj h).symm
    · exact fun h => congrArg Except.ok h.symm
  | cons g gs ih =>
    rw [List.foldlM_cons, bind_eq_ok_iff]
    simp only [accept_eq_ok_iff, ih]
    constructor
    · rintro ⟨o₁, ⟨flag, hread, hfirst⟩, flags, hreads, hrest⟩
      exact ⟨flag :: flags, .cons hread hreads, extends_cons.2 ⟨o₁, hfirst, hrest⟩⟩
    · rintro ⟨flags, hreads, hextends⟩
      obtain ⟨flag, flags, hread, hothers, rfl⟩ := List.forall₂_cons_right_iff.1 hreads
      obtain ⟨o₁, hfirst, hrest⟩ := extends_cons.1 hextends
      exact ⟨o₁, ⟨flag, hread, hfirst⟩, flags, hothers, hrest⟩

end RunOptions

/-! ## The arguments of a run -/

theorem lawful_runSwitches : Lawful runSwitches where
  letters := by decide
  words := by decide
  dash := by decide
  named := by decide

theorem RunFlag.ReadFrom.settled {flag : RunFlag} {g : Given RunSwitch} (h : flag.ReadFrom g) :
    Settled runSwitches g := by
  cases h with
  | settings hpath => exact ⟨_, _, rfl, by decide⟩
  | output hpath => exact ⟨_, _, rfl, by decide⟩
  | workers hn => exact ⟨_, _, rfl, by decide⟩
  | cutoffs hne hks => exact ⟨_, _, rfl, by decide⟩

theorem settled_of_readFrom {flags : List RunFlag} {gs : List (Given RunSwitch)}
    (h : List.Forall₂ RunFlag.ReadFrom flags gs) : ∀ g ∈ gs, Settled runSwitches g := by
  induction h with
  | nil => simp
  | cons hread _ ih => exact List.forall_mem_cons.2 ⟨hread.settled, ih⟩

/-- the arguments of a run are options that can be read -/
theorem arguments_iff {flags : List RunFlag} {args : List String} : RunFlag.Arguments flags args ↔
    ∃ gs, Gives runSwitches args gs ∧ List.Forall₂ RunFlag.ReadFrom flags gs := by
  constructor
  · intro h
    induction h with
    | nil => exact ⟨[], .nil, .nil⟩
    | dashes => exact ⟨[], .dashes, .nil⟩
    | cons hwritten h ih =>
      obtain ⟨gs, hgives, hreads⟩ := ih
      cases hwritten with
      | settings hpath hwritten =>
        have hs : (⟨.settings, some 'c', some "config", .one⟩ : Switch RunSwitch) ∈ runSwitches := by simp [runSwitches]
        exact ⟨_, .option hs (by simp) (.inr le_rfl) hwritten hgives, .cons (.settings hpath) hreads⟩
      | output hpath hwritten =>
        have hs : (⟨.output, some 'o', some "output", .one⟩ : Switch RunSwitch) ∈ runSwitches := by simp [runSwitches]
        exact ⟨_, .option hs (by simp) (.inr le_rfl) hwritten hgives, .cons (.output hpath) hreads⟩
      | workers hn hwritten =>
        have hs : (⟨.workers, some 'w', some "workers", .one⟩ : Switch RunSwitch) ∈ runSwitches := by simp [runSwitches]
        exact ⟨_, .option hs (by simp) (.inr le_rfl) hwritten hgives, .cons (.workers hn) hreads⟩
      | cutoffs hne hks hwritten =>
        have hs : (⟨.cutoffs, some 'k', none, .several⟩ : Switch RunSwitch) ∈ runSwitches := by simp [runSwitches]
        exact ⟨_, .option hs (by simp) (.inl rfl) hwritten hgives, .cons (.cutoffs hne hks) hreads⟩
  · rintro ⟨gs, hgives, hreads⟩
    induction hgives generalizing flags with
    | nil =>
      obtain rfl := List.forall₂_nil_right_iff.1 hreads
      exact .nil
    | dashes =>
      obtain rfl := List.forall₂_nil_right_iff.1 hreads
      exact .dashes
    | option hs harity hcount hwritten hgives ih =>
      obtain ⟨flag, flags, hread, hothers, rfl⟩ := List.forall₂_cons_right_iff.1 hreads
      refine .cons ?_ (ih hothers)
      simp only [runSwitches, List.mem_cons, List.not_mem_nil, or_false] at hs
      rcases hs with rfl | rfl | rfl | rfl | rfl
      · cases hread with
        | settings hpath => exact .settings hpath hwritten
      · cases hread with
        | output hpath => exact .output hpath hwritten
      · cases hread with
        | workers hn => exact .workers hn hwritten
      · cases hread with
        | cutoffs hne hks => exact .cutoffs hne hks hwritten
      · cases hread

/-- **Which arguments name a run.** They are those that give options, and the run has the options that they give. -/
theorem runCommand_eq_ok_iff {args : List String} {command : Command} :
    runCommand args = .ok command ↔ ∃ o : RunOptions, command = .run o ∧ o.GivenBy args := by
  rw [runCommand, bind_eq_ok_iff]
  constructor
  · rintro ⟨o, hfold, hcommand⟩
    obtain ⟨flags, hreads, hextends⟩ := RunOptions.foldlM_accept_eq_ok_iff.1 hfold
    have hgives := (gives_of_settled args).1 (settled_of_readFrom hreads)
    exact ⟨o, (Except.ok.inj hcommand).symm, flags, arguments_iff.2 ⟨_, hgives, hreads⟩, hextends⟩
  · rintro ⟨o, rfl, flags, harguments, hextends⟩
    obtain ⟨gs, hgives, hreads⟩ := arguments_iff.1 harguments
    have hgiven : given runSwitches args = gs := given_of_gives lawful_runSwitches hgives none
    rw [hgiven]
    exact ⟨o, RunOptions.foldlM_accept_eq_ok_iff.2 ⟨flags, hreads, hextends⟩, rfl⟩

theorem RunOptions.givenBy_iff {o : RunOptions} {args : List String} :
    o.GivenBy args ↔ runCommand args = .ok (.run o) := by
  rw [runCommand_eq_ok_iff]
  constructor
  · exact fun h => ⟨o, rfl, h⟩
  · rintro ⟨o', ho, h⟩
    exact Command.run.inj ho ▸ h

/-! ## What the options replace -/

/-- What a run goes by in the place of its settings: workers and cutoffs that are given, and all else as it was. -/
structure RunOptions.Replaces (o : RunOptions) (s s' : Settings) : Prop where
  workers : ∀ n, o.workers = some n → s'.evaluation.workers = n
  sameWorkers : o.workers = none → s'.evaluation.workers = s.evaluation.workers
  cutoffs : o.cutoffs ≠ [] → s'.evaluation.cutoffs = o.cutoffs
  sameCutoffs : o.cutoffs = [] → s'.evaluation.cutoffs = s.evaluation.cutoffs
  evaluation : s'.evaluation =
    { s.evaluation with workers := s'.evaluation.workers, cutoffs := s'.evaluation.cutoffs }
  places : s'.places = s.places
  variants : s'.variants = s.variants

theorem RunOptions.replaces_override (o : RunOptions) (s : Settings) : o.Replaces s (o.override s) where
  workers n h := by simp [override, h]
  sameWorkers h := by simp [override, h]
  cutoffs h := by simp [override, h]
  sameCutoffs h := by simp [override, h]
  evaluation := rfl
  places := rfl
  variants := rfl

/-- no other settings are the settings with what the options replace -/
theorem RunOptions.replaces_iff {o : RunOptions} {s s' : Settings} : o.Replaces s s' ↔ s' = o.override s := by
  have hoverride := o.replaces_override s
  refine ⟨fun h => ?_, fun h => h ▸ hoverride⟩
  have hworkers : s'.evaluation.workers = (o.override s).evaluation.workers := by
    cases hgiven : o.workers with
    | none => rw [h.sameWorkers hgiven, hoverride.sameWorkers hgiven]
    | some n => rw [h.workers n hgiven, hoverride.workers n hgiven]
  have hcutoffs : s'.evaluation.cutoffs = (o.override s).evaluation.cutoffs := by
    by_cases hgiven : o.cutoffs = []
    · rw [h.sameCutoffs hgiven, hoverride.sameCutoffs hgiven]
    · rw [h.cutoffs hgiven, hoverride.cutoffs hgiven]
  have hevaluation : s'.evaluation = (o.override s).evaluation := by
    rw [h.evaluation, hworkers, hcutoffs]
    exact hoverride.evaluation.symm
  obtain ⟨places, evaluation, variants⟩ := s'
  exact congr (congr (congrArg Settings.mk h.places) hevaluation) h.variants

end RankEval.CommandLine
