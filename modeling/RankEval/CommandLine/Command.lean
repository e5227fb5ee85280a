/-
The commands and their options. What is given is read in order, so that the first thing that is wrong, or a wish for
help, decides.
-/
import RankEval.CommandLine.Arguments
import RankEval.Report.File
import RankEval.Text.Basic

namespace RankEval.CommandLine

/-- why there is no command to carry out -/
inductive Notice where
  | help
  | version
  | misuse
  deriving DecidableEq, Repr

structure RunOptions where
  settings : Option FilePath := none
  output : Option FilePath := none
  workers : Option Nat := none
  cutoffs : List Nat := []
  deriving DecidableEq, Repr

structure QueryOptions where
  judgments : FilePath
  scores : FilePath
  cutoffs : List Nat
  /-- the directory of the candidates; without it they are the judged and scored tables -/
  tables : Option FilePath
  excluded : List TableId
  omitAuc : Bool
  deriving DecidableEq, Repr

inductive Command where
  /-- evaluates every variant over all queries -/
  | run (options : RunOptions)
  /-- scores one output of the engine -/
  | query (options : QueryOptions)
  /-- shows the table of a saved report -/
  | summary (report : FilePath)
  /-- shows the settings in effect -/
  | settings (named : Option FilePath)
  deriving DecidableEq, Repr

/-! ## Values -/

/-- an option that may be given once, with one value that can be read -/
def once {α : Type} (before : Option α) (read : String → Option α) : List String → Except Notice (Option α)
  | [s] =>
    match before, read s with
    | none, some value => .ok (some value)
    | _, _ => .error .misuse
  | _ => .error .misuse

/-- an option that may be given often, each time with at least one value -/
def more {α : Type} (before : List α) (read : String → Option α) (values : List String) : Except Notice (List α) :=
  match values.mapM read with
  | some (value :: rest) => .ok (before ++ value :: rest)
  | _ => .error .misuse

/-- a path, which must not be empty -/
def path? (s : String) : Option FilePath := if s.isEmpty then none else some s

def count? (s : String) : Option Nat := Text.count? s.toList

/-! ## The options of a run -/

inductive RunSwitch where
  | settings
  | output
  | workers
  | cutoffs
  | help
  deriving DecidableEq, Repr

def runSwitches : List (Switch RunSwitch) :=
  [⟨.settings, some 'c', some "config", .one⟩, ⟨.output, some 'o', some "output", .one⟩,
    ⟨.workers, some 'w', some "workers", .one⟩, ⟨.cutoffs, some 'k', none, .several⟩,
    ⟨.help, some 'h', some "help", .none⟩]

def RunOptions.accept (o : RunOptions) : Given RunSwitch → Except Notice RunOptions
  | .option .settings values => do return { o with settings := ← once o.settings path? values }
  | .option .output values => do return { o with output := ← once o.output path? values }
  | .option .workers values => do return { o with workers := ← once o.workers count? values }
  | .option .cutoffs values => do return { o with cutoffs := ← more o.cutoffs count? values }
  | .option .help _ => .error .help
  | _ => .error .misuse

def runCommand (args : List String) : Except Notice Command :=
  return .run (← (given runSwitches args).foldlM RunOptions.accept {})

/-! ## The options of a query -/

inductive QuerySwitch where
  | judgments
  | scores
  | cutoffs
  | tables
  | excluded
  | omitAuc
  | help
  deriving DecidableEq, Repr

def querySwitches : List (Switch QuerySwitch) :=
  [⟨.judgments, some 'g', some "ground-truth", .one⟩, ⟨.scores, some 's', some "scores", .one⟩,
    ⟨.cutoffs, some 'k', none, .several⟩, ⟨.tables, some 't', some "tables", .one⟩,
    ⟨.excluded, none, some "exclude", .one⟩, ⟨.omitAuc, none, some "omit-auc", .none⟩,
    ⟨.help, some 'h', some "help", .none⟩]

/-- what is known of a query's options so far -/
structure QueryDraft where
  judgments : Option FilePath := none
  scores : Option FilePath := none
  cutoffs : List Nat := []
  tables : Option FilePath := none
  excluded : List TableId := []
  omitAuc : Bool := false
  deriving DecidableEq, Repr

def QueryDraft.accept (d : QueryDraft) : Given QuerySwitch → Except Notice QueryDraft
  | .option .judgments values => do return { d with judgments := ← once d.judgments path? values }
  | .option .scores values => do return { d with scores := ← once d.scores path? values }
  | .option .cutoffs values => do return { d with cutoffs := ← more d.cutoffs count? values }
  | .option .tables values => do return { d with tables := ← once d.tables path? values }
  | .option .excluded values => do return { d with excluded := ← more d.excluded some values }
  | .option .omitAuc _ => if d.omitAuc then .error .misuse else .ok { d with omitAuc := true }
  | .option .help _ => .error .help
  | _ => .error .misuse

/-- the cutoff if no other one is given -/
def standardCutoff : Nat := 10

/-- judgments and scores must be given -/
def QueryDraft.finish (d : QueryDraft) : Except Notice QueryOptions :=
  match d.judgments, d.scores with
  | some judgments, some scores =>
    .ok ⟨judgments, scores, if d.cutoffs.isEmpty then [standardCutoff] else d.cutoffs, d.tables, d.excluded, d.omitAuc⟩
  | _, _ => .error .misuse

def queryCommand (args : List String) : Except Notice Command :=
  return .query (← (← (given querySwitches args).foldlM QueryDraft.accept {}).finish)

/-! ## The other commands -/

inductive SummarySwitch where
  | help
  deriving DecidableEq, Repr

def summarySwitches : List (Switch SummarySwitch) := [⟨.help, some 'h', some "help", .none⟩]

/-- the path of a report stands alone -/
def acceptReport (before : Option FilePath) : Given SummarySwitch → Except Notice (Option FilePath)
  | .value s => once before path? [s]
  | .option .help _ => .error .help
  | .strange => .error .misuse

def summaryCommand (args : List String) : Except Notice Command :=
  return .summary ((← (given summarySwitches args).foldlM acceptReport none).getD Report.defaultPath)

inductive SettingsSwitch where
  | named
  | help
  deriving DecidableEq, Repr

def settingsSwitches : List (Switch SettingsSwitch) :=
  [⟨.named, some 'c', some "config", .one⟩, ⟨.help, some 'h', some "help", .none⟩]

def acceptSettings (before : Option FilePath) : Given SettingsSwitch → Except Notice (Option FilePath)
  | .option .named values => once before path? values
  | .option .help _ => .error .help
  | _ => .error .misuse

def settingsCommand (args : List String) : Except Notice Command :=
  return .settings (← (given settingsSwitches args).foldlM acceptSettings none)

/-! ## All commands -/

def commandNames : List String := ["run", "query", "summary", "config", "help"]

/-- the notice that arguments ask for that name no command -/
def noticeOf (arg : String) : Notice :=
  match formOf arg.toList with
  | .word name none => if name = "help".toList then .help else if name = "version".toList then .version else .misuse
  | .letters ('h' :: _) => .help
  | .letters ('V' :: _) => .version
  | _ => .misuse

/-- the command that the arguments of the program name -/
def Command.parse : List String → Except Notice Command
  | "run" :: args => runCommand args
  | "query" :: args => queryCommand args
  | "summary" :: args => summaryCommand args
  | "config" :: args => settingsCommand args
  | ["help"] => .error .help
  | ["help", name] => .error (if commandNames.contains name then .help else .misuse)
  | "help" :: _ => .error .misuse
  | arg :: _ => .error (noticeOf arg)
  | [] => .error .misuse

end RankEval.CommandLine
