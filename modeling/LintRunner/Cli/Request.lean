import LintRunner.Cli.Options
import LintRunner.Config.Loaded
import LintRunner.Starter.Component
import LintRunner.Text.Blank

/-!
What a command line asks for.
-/

namespace LintRunner.Cli

structure Settings where
  config : Option Path := none
  jobs : Option Nat := none
  ascii : Bool := false
  quiet : Bool := false
  color : Bool := true
  verbosity : Verbosity := .warning

inductive Request where
  | pass (action : Action) (kind : Selection.Kind) (ref : Option String) (paths : List Path)
    (command label : Option String)
  | list
  /-- A starter configuration for the named components, or for those that are found. -/
  | init (components : Option (List Starter.Component)) (path : Path)
  | help

inductive SettingKey where
  | config
  | jobs
  | ascii
  | quiet
  | noColor
  | verbose
  | debug
  | help
deriving DecidableEq

def settingOptions : List (Known SettingKey) := [
  ⟨["--config", "-c"], .config, true⟩,
  ⟨["--jobs", "-j"], .jobs, true⟩,
  ⟨["--ascii"], .ascii, false⟩,
  ⟨["--quiet", "-q"], .quiet, false⟩,
  ⟨["--no-color"], .noColor, false⟩,
  ⟨["--verbose", "-v"], .verbose, false⟩,
  ⟨["--debug"], .debug, false⟩,
  ⟨["--help"], .help, false⟩]

/-- Digits, with single underscores between them. -/
def countDigits : List Char → Option (List Char)
  | [] => none
  | [c] => if c.isDigit then some [c] else none
  | c :: '_' :: rest => if c.isDigit then (countDigits rest).map (c :: ·) else none
  | c :: rest => if c.isDigit then (countDigits rest).map (c :: ·) else none

/-- A number of workers, which is at least one. Only the digits of ASCII are known. -/
def readCount (s : String) : Option Nat := do
  let digits ← match Text.trim s.toList with
    | '+' :: rest => countDigits rest
    | cs => countDigits cs
  let n ← Number.ofDigits? digits
  if n = 0 then none else some n

def readJobs : Option String → Option (Option Nat)
  | none => some none
  | some s => (readCount s).map some

def readSettings (given : List (Given SettingKey)) : Option Settings := do
  let jobs ← readJobs (valueOf? .jobs given)
  return {
    config := (valueOf? .config given).map Path.ofString
    jobs
    ascii := isGiven .ascii given
    quiet := isGiven .quiet given
    color := !isGiven .noColor given
    verbosity :=
      if isGiven .debug given then .debug else if isGiven .verbose given then .info else .warning }

inductive PassKey where
  | command
  | label
  | all
  | modified
  | staged
  | changedSince
  | stagedWithStash
  | help
deriving DecidableEq

def passOptions : List (Known PassKey) := [
  ⟨["--command"], .command, true⟩,
  ⟨["--label"], .label, true⟩,
  ⟨["--all", "-a"], .all, false⟩,
  ⟨["--git", "-g"], .modified, false⟩,
  ⟨["--staged", "-s"], .staged, false⟩,
  ⟨["--git-diff-from", "-d"], .changedSince, true⟩,
  ⟨["--staged-with-stash"], .stagedWithStash, false⟩,
  ⟨["--help"], .help, false⟩]

def kindsGiven (given : List (Given PassKey)) (paths : List String) : List Selection.Kind :=
  let asked (wanted : Bool) (k : Selection.Kind) : List Selection.Kind := if wanted then [k] else []
  asked (isGiven .all given) .all
    ++ asked (isGiven .modified given) .modified
    ++ asked (isGiven .staged given) .staged
    ++ asked (isGiven .stagedWithStash given) .stagedWithStash
    ++ asked (paths ≠ []) .paths
    ++ asked (valueOf? .changedSince given).isSome .changedSince

def readPass (action : Action) (args : List String) : Option Request := do
  let (given, rest) ← readArguments passOptions true .nothing args
  if isGiven .help given then return .help
  let paths := plainOf given ++ rest
  match kindsGiven given paths with
  | [kind] =>
    return .pass action kind (valueOf? .changedSince given) (paths.map Path.ofString)
      (valueOf? .command given) (valueOf? .label given)
  | _ => none

inductive InitKey where
  | component
  | auto
  | path
  | help
deriving DecidableEq

def initOptions : List (Known InitKey) := [
  ⟨["--component", "-c"], .component, true⟩,
  ⟨["--auto", "-a"], .auto, false⟩,
  ⟨["--path", "-p"], .path, true⟩,
  ⟨["--help"], .help, false⟩]

def helpOption : List (Known Unit) := [⟨["--help"], (), false⟩]

def readInit (args : List String) : Option Request := do
  let (given, rest) ← readArguments initOptions true .nothing args
  if isGiven .help given then return .help
  if plainOf given ++ rest ≠ [] then none
  let components ← (valuesOf .component given).mapM Starter.Component.ofText?
  let path := Path.ofString ((valueOf? .path given).getD Config.preferredName)
  match components, isGiven .auto given with
  | [], true => return .init none path
  | _ :: _, false => return .init (some components) path
  | _, _ => none

def readList (args : List String) : Option Request := do
  let (given, rest) ← readArguments helpOption true .nothing args
  if isGiven () given then return .help
  if plainOf given ++ rest = [] then return .list else none

def readConfig (args : List String) : Option Request := do
  let (given, rest) ← readArguments helpOption false .nothing args
  if isGiven () given then return .help
  match rest with
  | "list" :: args => readList args
  | "init" :: args => readInit args
  | _ => none

def read (args : List String) : Option (Settings × Request) := do
  let (given, rest) ← readArguments settingOptions false .nothing args
  if isGiven .help given then return ({}, .help)
  let settings ← readSettings given
  let request ← match rest with
    | "lint" :: args => readPass .lint args
    | "tidy" :: args => readPass .tidy args
    | "fix" :: args => readPass .tidy args
    | "config" :: args => readConfig args
    | _ => none
  return (settings, request)

end LintRunner.Cli
