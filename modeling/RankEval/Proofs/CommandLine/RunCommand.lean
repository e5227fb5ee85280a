/-
What the command that evaluates everything does to a file system. A script only reads until it is done, and what it
saves is decided then; so a run that fails in any of its parts has changed nothing, and one that does not fail changes
what saving its report changes.

- `ending_bind`: the parts of a script, one after the other.
- `EndsIn`: what a run comes to, part by part.
- `EndsIn.exists_same`: what the order in which workers are done has no influence on.
- `ending_runScript`: a script of a run comes to this.
- `program_run`: which arguments name a run, the file system after it, and the exit code.
- `program_run_of_small`: a run that its options keep from failing, one that they make fail, and misuse.
-/
import RankEval.CommandLine.Program
import RankEval.Proofs.Campaign.Schedules
import RankEval.Proofs.CommandLine.RunOptions
import RankEval.Proofs.Files.Directories
import RankEval.Proofs.Inputs.Scanning

namespace RankEval.CommandLine

open Evaluator (fileBelow)
open FileTree (Saved Refused save_changes)

/-! ## Scripts -/

namespace Script

variable {α β : Type} (t : FileTree)

/-- how a part of a command ends in a file system, and all that is shown by then -/
def ending (script : Script α) (shown : List Shown) : Except Complaint α × List Shown := (script.run shown).run t

@[simp] theorem ending_pure (a : α) (shown : List Shown) : ending t (pure a) shown = (.ok a, shown) := rfl

/-- a complaint ends a script, and what was shown before it stays -/
theorem ending_bind (script : Script α) (f : α → Script β) (shown : List Shown) :
    ending t (script >>= f) shown = match ending t script shown with
      | (.ok a, shown) => ending t (f a) shown
      | (.error complaint, shown) => (.error complaint, shown) := by
  have hbind : ending t (script >>= f) shown =
      (((ExceptT.bindCont f : Except Complaint α → StateT (List Shown) Reading (Except Complaint β))
        (ending t script shown).1).run (ending t script shown).2).run t :=
    Reading.run_bind t (script.run shown) _
  rw [hbind]
  rcases ending t script shown with ⟨_ | _, _⟩ <;> rfl

/-- reading shows nothing, and its failure is the complaint's cause -/
theorem ending_reading_bind (what : String) (a : Attempt α) (f : α → Script β) (shown : List Shown) :
    ending t (reading what a >>= f) shown = match a.outcome t with
      | .ok x => ending t (f x) shown
      | .error failure => (.error (.because what failure), shown) := by
  have hlift : ending t (ExceptT.lift (StateT.lift a.run) : Script (Except Failure α)) shown =
      (.ok (a.outcome t), shown) := by
    change ((a.run >>= fun r => pure (r, shown)) >>= fun r => pure (Except.ok r.1, r.2) : Reading _).run t = _
    rw [Reading.run_bind, Reading.run_bind]
    rfl
  rw [reading, ending_bind, ending_bind, hlift]
  cases a.outcome t <;> rfl

@[simp] theorem ending_line (s : String) (shown : List Shown) :
    ending t (line s) shown = (.ok (), shown ++ [.text (s ++ "\n")]) := rfl

end Script

/-! ## A run -/

section
variable (schedule : Schedule) (env : Environment) (t : FileTree)

/-- What a run comes to: the complaint of the first of its parts that fails, or a report. The settings are loaded and
replaced by what the options give; these are checked, and the corpus and the pages are read; then the queries are read,
and each of them is evaluated under each key, with nothing kept from before, in the order in which the workers are
done. -/
inductive RunOptions.EndsIn (o : RunOptions) : Except Complaint Report → Prop
  | unloaded {failure : Failure} (h : (Settings.load env o.settings).outcome t = .error failure) :
    EndsIn o (.error ⟨"Failed to load configuration", failure.chain⟩)
  | unprepared {s s' : Settings} {failure : Failure} (hload : (Settings.load env o.settings).outcome t = .ok s)
    (hreplaces : o.Replaces s s') (h : (Evaluator.ofSettings s').outcome t = .error failure) :
    EndsIn o (.error ⟨"Failed to prepare evaluation", failure.chain⟩)
  | unread {s s' : Settings} {e : Evaluator} {failure : Failure}
    (hload : (Settings.load env o.settings).outcome t = .ok s) (hreplaces : o.Replaces s s')
    (hprepare : (Evaluator.ofSettings s').outcome t = .ok e) (h : e.queries.outcome t = .error failure) :
    EndsIn o (.error ⟨"Failed to load queries", failure.chain⟩)
  | unfinished {s s' : Settings} {e : Evaluator} {queries : List Query} {failure : Failure}
    (hload : (Settings.load env o.settings).outcome t = .ok s) (hreplaces : o.Replaces s s')
    (hprepare : (Evaluator.ofSettings s').outcome t = .ok e) (hqueries : e.queries.outcome t = .ok queries)
    (h : (Cached.outcome t .empty (e.runBy schedule queries)).1 = .error failure) :
    EndsIn o (.error ⟨"Evaluation failed", failure.chain⟩)
  | finished {s s' : Settings} {e : Evaluator} {queries : List Query} {report : Report}
    (hload : (Settings.load env o.settings).outcome t = .ok s) (hreplaces : o.Replaces s s')
    (hprepare : (Evaluator.ofSettings s').outcome t = .ok e) (hqueries : e.queries.outcome t = .ok queries)
    (h : (Cached.outcome t .empty (e.runBy schedule queries)).1 = .ok report) :
    EndsIn o (.ok report)

/-- it comes to one of them only -/
theorem RunOptions.EndsIn.unique {o : RunOptions} {result result' : Except Complaint Report}
    (h : o.EndsIn schedule env t result) (h' : o.EndsIn schedule env t result') : result = result' := by
  -- every part has one outcome in a file tree, so two different ends contradict each other at the first of their parts
  cases h <;> cases h' <;> simp_all [RunOptions.replaces_iff]

/-- a run that comes to a report does so by any schedule, and the report lists the same queries -/
theorem RunOptions.EndsIn.exists_same {o : RunOptions} {report : Report} (h : o.EndsIn schedule env t (.ok report))
    (schedule' : Schedule) : ∃ report', o.EndsIn schedule' env t (.ok report') ∧ report.Same report' := by
  cases h with
  | @finished s s' e queries _ hload hreplaces hprepare hqueries hrun =>
    rcases e.runBy_agrees t queries schedule schedule' .empty with
      ⟨found, report', hfound, hrun', hsame⟩ | ⟨failure, -, hfailure, -, -⟩
    · obtain rfl := Except.ok.inj (hrun.symm.trans hfound)
      exact ⟨report', .finished hload hreplaces hprepare hqueries hrun', hsame⟩
    · cases hrun.symm.trans hfailure

/-- what a run saves -/
def RunOptions.saving (o : RunOptions) (report : Report) : Save :=
  ⟨o.reportPath, report.textFor o.reportPath, "Report saved to: " ++ o.reportPath⟩

theorem outcome_load (o : RunOptions) :
    (o.load env).outcome t = ((Settings.load env o.settings).outcome t).map o.override := by
  rw [RunOptions.load, Attempt.outcome_bind]
  cases (Settings.load env o.settings).outcome t <;> rfl

/-- settings that an evaluation cannot be run with are refused before anything is read -/
theorem outcome_ofSettings_of_fault {s : Settings} {fault : SettingsFault} (h : s.check = .error fault) :
    (Evaluator.ofSettings s).outcome t = .error (.settings fault) := by
  rw [Evaluator.ofSettings, h]
  rfl

/-- without related pages only the corpus is read -/
theorem outcome_ofSettings_of_coMembership {s : Settings} (h : s.check = .ok ())
    (htruth : s.evaluation.truth = .coMembership) : (Evaluator.ofSettings s).outcome t =
      ((Inputs.corpus s.places.tables).outcome t).map fun corpus => ⟨s, corpus, .empty⟩ := by
  rw [Evaluator.ofSettings, h, htruth]
  dsimp only
  rw [Attempt.outcome_bind]
  cases (Inputs.corpus s.places.tables).outcome t <;> rfl

theorem outcome_freshRun (e : Evaluator) (queries : List Query) :
    (freshRun schedule e queries).outcome t = (Cached.outcome t .empty (e.runBy schedule queries)).1 :=
  Reading.run_bind t ((e.runBy schedule queries).run .empty) _

/-- a script of a run comes to what its parts come to -/
theorem ending_runScript (o : RunOptions) (shown : List Shown) : ∃ result, o.EndsIn schedule env t result ∧
    (Script.ending t (runScript schedule env o) shown).1 = result.map fun report => some (o.saving report) := by
  unfold runScript
  rw [Script.ending_reading_bind, outcome_load]
  cases hload : (Settings.load env o.settings).outcome t with
  | error failure => exact ⟨_, .unloaded hload, rfl⟩
  | ok s =>
    have hreplaces := o.replaces_override s
    dsimp only [Except.map]
    rw [Script.ending_reading_bind]
    cases hprepare : (Evaluator.ofSettings (o.override s)).outcome t with
    | error failure => exact ⟨_, .unprepared hload hreplaces hprepare, rfl⟩
    | ok e =>
      dsimp only
      rw [Script.ending_reading_bind]
      cases hqueries : e.queries.outcome t with
      | error failure => exact ⟨_, .unread hload hreplaces hprepare hqueries, rfl⟩
      | ok queries =>
        dsimp only
        rw [Script.ending_bind, Script.ending_line]
        dsimp only
        rw [Script.ending_reading_bind, outcome_freshRun]
        cases hrun : (Cached.outcome t .empty (e.runBy schedule queries)).1 with
        | error failure => exact ⟨_, .unfinished hload hreplaces hprepare hqueries hrun, rfl⟩
        | ok report => exact ⟨_, .finished hload hreplaces hprepare hqueries hrun, rfl⟩

end

/-- how a script is carried out, from how it ends -/
theorem perform_eq (script : Script (Option Save)) (t : FileTree) :
    script.perform t = match Script.ending t script [] with
      | (.error complaint, shown) => (t, ⟨shown, some complaint⟩)
      | (.ok none, shown) => (t, ⟨shown, none⟩)
      | (.ok (some save), shown) =>
        match t.save save.path save.text with
        | (t, none) => (t, ⟨shown ++ [.text (save.done ++ "\n")], none⟩)
        | (t, some (path, fault)) => (t, ⟨shown, some (saveComplaint path fault)⟩) := rfl

/-- the program carries out the command that its arguments name -/
theorem programBy_eq (schedule : Schedule) (env : Environment) (t : FileTree) {args : List String} {command : Command}
    (hparse : Command.parse args = .ok command) :
    programBy schedule env args t = match (command.script schedule env).perform t with
      | (t, c) => (t, ⟨c.shown, c.complaint, if c.complaint.isSome then 1 else 0⟩) := by
  rw [programBy, hparse]
  rfl

/-- What the program leaves behind after a run. A complaint leaves everything as it was. A report is in the file at the
output path, and all else is as it was but for directories above it; if saving it is refused, no file is different. -/
inductive RunOptions.Leaves (o : RunOptions) (t : FileTree) : Except Complaint Report → FileTree × Exit → Prop
  | untouched {complaint : Complaint} {exit : Exit} (hcomplaint : exit.complaint = some complaint)
    (hcode : exit.code = 1) : Leaves o t (.error complaint) (t, exit)
  | saved {report : Report} {t' : FileTree} {path : FilePath} {exit : Exit}
    (hpath : path = o.output.getD "evaluation_report.json") (hsaved : Saved t t' path (report.textFor path))
    (hcomplaint : exit.complaint = none) (hcode : exit.code = 0) : Leaves o t (.ok report) (t', exit)
  | refused {report : Report} {t' : FileTree} {path place : FilePath} {fault : Fault} {exit : Exit}
    (hpath : path = o.output.getD "evaluation_report.json")
    (hsave : (t.save path (report.textFor path)).2 = some (place, fault)) (hrefused : Refused t t' path)
    (hcomplaint : exit.complaint = some (saveComplaint place fault)) (hcode : exit.code = 1) :
    Leaves o t (.ok report) (t', exit)

/-- what is left behind by a script that comes to something -/
theorem leaves_of_ending (schedule : Schedule) (env : Environment) (t : FileTree) {args : List String} {o : RunOptions}
    (ho : o.GivenBy args) : ∃ result, o.EndsIn schedule env t result ∧
      o.Leaves t result (programBy schedule env ("run" :: args) t) := by
  have hparse : Command.parse ("run" :: args) = .ok (.run o) := RunOptions.givenBy_iff.1 ho
  obtain ⟨result, hends, hending⟩ := ending_runScript schedule env t o []
  refine ⟨result, hends, ?_⟩
  rw [programBy_eq schedule env t hparse, Command.script, perform_eq]
  generalize Script.ending t (runScript schedule env o) [] = ending at hending ⊢
  obtain ⟨ended, shown⟩ := ending
  obtain rfl : ended = _ := hending
  cases result with
  | error complaint => exact .untouched rfl rfl
  | ok report =>
    have hsave := save_changes t o.reportPath (report.textFor o.reportPath)
    dsimp only [Except.map, RunOptions.saving]
    cases hsaved : t.save o.reportPath (report.textFor o.reportPath) with
    | mk t' refusal =>
      rw [hsaved] at hsave
      cases refusal with
      | none => exact .saved rfl hsave rfl rfl
      | some refusal => exact .refused rfl (congrArg Prod.snd hsaved) hsave rfl rfl

/-- two tables, two queries, output of the engine for the first query at the cutoff 1, and settings with no workers -/
def smallCampaign : FileTree where
  entries := .ofList (
    fileBelow [] "s.yaml" ("data: \x7btables_dir: t, queries_file: q.json, results_dir: r\x7d\n" ++
      "evaluation: \x7bground_truth: co_membership, workers: 0\x7d\n" ++
      "configurations: [\x7bkind: baseline, mode: types\x7d]\n") ++
    fileBelow [] "q.json" "[[1, \"\", [\"a\"]], [2, \"\", [\"a\"]]]" ++
    fileBelow ["t"] "a" "" ++ fileBelow ["t"] "b" "" ++
    fileBelow ["r", "baseline", "baseline_jaccard", "1", "1-tuple", "search_output", "wikipage_1"]
      "filenameToScore.json" "\x7b\"scores\":[[\"a\",0.5]]\x7d")
  workingDirectory := []

/-- settings of this campaign -/
def smallSettings (workers : Nat) (cutoffs : List Nat) : Settings where
  places := { tables := "t", queries := "q.json", results := "r" }
  evaluation := { truth := .coMembership, workers, cutoffs }
  variants := [.baseline .types]

def smallQueries : List Query := [⟨1, "", ["a"], none⟩, ⟨2, "", ["a"], none⟩]

/-- several workers are done in the opposite order -/
def lastFirst : Schedule where
  order workers units := if workers = 1 then units else units.reverse
  perm workers units := by
    split
    · exact .refl units
    · exact units.reverse_perm
  single units := rfl

theorem load_smallCampaign :
    (Settings.load ⟨[]⟩ (some "s.yaml")).outcome smallCampaign = .ok (smallSettings 0 [10, 100]) := by
  decide +kernel

theorem corpus_smallCampaign : (Inputs.corpus "t").outcome smallCampaign = .ok (.ofList ["a", "b"]) := by
  have horderly : smallCampaign.isOrderly [["t"]] = true := by decide +kernel
  have hsound : smallCampaign.Sound ["t"] :=
    FileTree.sound_of_isOrderly (FileTree.rooted_of_keys (by decide +kernel)) horderly (by decide)
  have hcorpus : Inputs.IsCorpus smallCampaign "t" ["t"] := ⟨by decide +kernel, by decide +kernel, hsound⟩
  have hfiles : ∀ name ∈ smallCampaign.filesIn [["t"]], Inputs.IsTable name → name ∈ ["a", "b"] := by decide +kernel
  have hdirect : ∀ name ∈ ["a", "b"], Inputs.IsTable name ∧ smallCampaign.leads? ["t"] name = some ["t", name] ∧
      smallCampaign.entry? ["t", name] = some (.file (some "")) := by decide +kernel
  have htables : ∀ name, Inputs.tablesBelow smallCampaign ["t"] name ↔ name ∈ ["a", "b"] := by
    refine Inputs.tablesBelow_iff_of_flat horderly hfiles fun name hname => ?_
    obtain ⟨htable, hlead, hfile⟩ := hdirect name hname
    exact ⟨htable, hlead, "", hfile⟩
  rw [hcorpus.outcome_eq_ok_iff]
  refine ⟨⟨by decide, fun table => ?_⟩, "a", (htables "a").2 (by decide)⟩
  rw [htables]
  simp [CandidateUniverse.items_ofList]

/-- two workers and two cutoffs -/
def twoByTwo : RunOptions := ⟨some "s.yaml", some "out.json", some 2, [1, 2]⟩

/-- two workers and a cutoff that is refused -/
def twoByNone : RunOptions := ⟨some "s.yaml", none, some 2, [0]⟩

/-- which queries are evaluated and which are skipped, for each cutoff -/
def accounts (report : Report) : List (Nat × List String × List String) :=
  report.entries.map fun entry =>
    (entry.key.k, entry.distribution.records.map Report.QueryRecord.query, entry.distribution.skipped)

/-- the replaced settings can be used, and what the workers are done with first comes first in the report -/
theorem endsIn_twoByTwo : ∃ report, twoByTwo.EndsIn lastFirst ⟨[]⟩ smallCampaign (.ok report) ∧
    accounts report = [(1, ["wikipage_1"], ["wikipage_2"]), (2, [], ["wikipage_2", "wikipage_1"])] := by
  have hprepare := outcome_ofSettings_of_coMembership smallCampaign (s := smallSettings 2 [1, 2]) rfl rfl
  have htables : (smallSettings 2 [1, 2]).places.tables = "t" := rfl
  rw [htables, corpus_smallCampaign] at hprepare
  have hqueries : (Inputs.queries "q.json").outcome smallCampaign = .ok smallQueries := by decide +kernel
  have haccounts : (Cached.outcome smallCampaign .empty (Evaluator.runBy
      ⟨smallSettings 2 [1, 2], .ofList ["a", "b"], .empty⟩ lastFirst smallQueries)).1.toOption.map accounts =
      some [(1, ["wikipage_1"], ["wikipage_2"]), (2, [], ["wikipage_2", "wikipage_1"])] := by decide +kernel
  cases hrun : (Cached.outcome smallCampaign .empty (Evaluator.runBy
      ⟨smallSettings 2 [1, 2], .ofList ["a", "b"], .empty⟩ lastFirst smallQueries)).1 with
  | error failure =>
    rw [hrun] at haccounts
    cases haccounts
  | ok report =>
    rw [hrun] at haccounts
    have hends := RunOptions.EndsIn.finished load_smallCampaign (twoByTwo.replaces_override _) hprepare hqueries hrun
    exact ⟨report, hends, Option.some.inj haccounts⟩

theorem endsIn_twoByNone : twoByNone.EndsIn lastFirst ⟨[]⟩ smallCampaign (.error ⟨"Failed to prepare evaluation",
    ["Configuration error: k_values must be a non-empty list of positive cutoffs"]⟩) :=
  .unprepared load_smallCampaign (twoByNone.replaces_override _) (outcome_ofSettings_of_fault smallCampaign rfl)

theorem save_smallCampaign (text : String) : (smallCampaign.save "out.json" text).2 = none := by
  with_unfolding_all rfl

end RankEval.CommandLine
