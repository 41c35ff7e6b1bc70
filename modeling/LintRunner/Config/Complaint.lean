import LintRunner.Filter.Basic

/-!
What can be wrong with a value in a configuration, and where.
-/

namespace LintRunner.Config

inductive Step where
  | key (name : String)
  | index (n : Nat)
deriving DecidableEq, Repr

inductive Model where
  | project
  | command
deriving DecidableEq, Repr

def Model.text : Model → String
  | project => "ProjectConfig"
  | command => "CommandConfig"

def thresholdKeys : List String := ["per-dir-or-once", "per-file-or-dir", "per-file-or-once"]

def fixedNames : List String := ["once", "per-dir", "per-file"]

/-- A setting whose form is right but whose value is not allowed. -/
inductive BadSetting where
  | notStrings
  | codeNotInteger
  | codeOutOfRange (n : Int)
  | noExecutable
  | unknownInvoke
  | badThresholdTable
  | thresholdTooSmall
  | unknownWorkingDir
  | workingDirKeys
  | emptyChangeTo
  | badSubRoots
  | unknownWorkingDirKey
deriving DecidableEq, Repr

def listed (names : List String) : String :=
  "[" ++ ", ".intercalate (names.map Text.quoted) ++ "]"

def BadSetting.message : BadSetting → String
  | notStrings => "expected a string or a list of strings"
  | codeNotInteger => "exit codes must be integers"
  | codeOutOfRange n =>
    match Number.written? n with
    | some digits => "exit code " ++ digits ++ " is not an integer from 0-255"
    | none => Number.tooLongText
  | noExecutable => "cmd must name an executable"
  | unknownInvoke => "invoke must be one of " ++ listed fixedNames ++ " or a threshold table"
  | badThresholdTable => "an invoke table must contain exactly one of " ++ listed thresholdKeys
  | thresholdTooSmall => "an invoke threshold must be at least 1"
  | unknownWorkingDir =>
    "working_dir must be \"root\", \"dir\", or a chdir_to or sub_roots table"
  | workingDirKeys => "a working_dir table must contain exactly one key"
  | emptyChangeTo => "the chdir_to key must be a non-empty path"
  | badSubRoots => "the sub_roots key must be a non-empty list of paths"
  | unknownWorkingDirKey =>
    "the only valid keys for a working_dir table are \"chdir_to\" and \"sub_roots\""

inductive Complaint where
  | missing
  | extra
  | notModel (m : Model)
  | notString
  | notTable
  | notList
  | notChoice (choices : List String)
  | notLiteral (choices : List String)
  | notBool
  | unreadableBool
  | notInteger
  | unreadableInteger
  | fractionalInteger
  | integerTooLong
  | notFinite
  | bad (b : BadSetting)
deriving DecidableEq, Repr

/-- The last two choices are joined by a word, the others by commas. -/
def orList (choices : List String) : String :=
  match (choices.map Text.quoted).reverse with
  | [] => ""
  | [c] => c
  | last :: others => ", ".intercalate others.reverse ++ " or " ++ last

namespace Complaint

def code : Complaint → String
  | missing => "missing"
  | extra => "extra_forbidden"
  | notModel _ => "model_type"
  | notString => "string_type"
  | notTable => "dict_type"
  | notList => "list_type"
  | notChoice _ => "enum"
  | notLiteral _ => "literal_error"
  | notBool => "bool_type"
  | unreadableBool => "bool_parsing"
  | notInteger => "int_type"
  | unreadableInteger => "int_parsing"
  | fractionalInteger => "int_from_float"
  | integerTooLong => "int_parsing_size"
  | notFinite => "finite_number"
  | bad _ => "value_error"

def message : Complaint → String
  | missing => "Field required"
  | extra => "Extra inputs are not permitted"
  | notModel m => "Input should be a valid dictionary or instance of " ++ m.text
  | notString => "Input should be a valid string"
  | notTable => "Input should be a valid dictionary"
  | notList => "Input should be a valid list"
  | notChoice choices => "Input should be " ++ orList choices
  | notLiteral choices => "Input should be " ++ orList choices
  | notBool => "Input should be a valid boolean"
  | unreadableBool => "Input should be a valid boolean, unable to interpret input"
  | notInteger => "Input should be a valid integer"
  | unreadableInteger => "Input should be a valid integer, unable to parse string as an integer"
  | fractionalInteger => "Input should be a valid integer, got a number with a fractional part"
  | integerTooLong => "Unable to parse input string as an integer, exceeded maximum size"
  | notFinite => "Input should be a finite number"
  | bad b => "Value error, " ++ b.message

end Complaint

structure Located where
  path : List Step
  complaint : Complaint
deriving DecidableEq, Repr

/-- The same complaint about a part, seen from the whole. -/
def Located.under (steps : List Step) (l : Located) : Located := { l with path := steps ++ l.path }

end LintRunner.Config
