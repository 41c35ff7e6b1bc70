import LintRunner.Path.Basic

/-!
Files that some commands of a starter configuration need beside it.
-/

namespace LintRunner.Starter

structure SupportFile where
  path : Path
  lines : List String
  executable : Bool
deriving DecidableEq, Repr

def withEnds (lines : List String) : String := String.join (lines.map (· ++ "\n"))

def golangciLines : List String := [
  "linters:",
  "  disable-all: true",
  "  enable:",
  "    - bodyclose",
  "    - errcheck",
  "    - errorlint",
  "    - exhaustive",
  "    - gocritic",
  "    - gofumpt",
  "    - gosimple",
  "    - govet",
  "    - ineffassign",
  "    - misspell",
  "    - revive",
  "    - staticcheck",
  "    - unconvert",
  "    - unused",
  "  fast: false",
  "",
  "linters-settings:",
  "  errcheck:",
  "    check-type-assertions: true",
  "  govet:",
  "    check-shadowing: true"]

def checkGoModLines : List String := [
  "#!/bin/bash",
  "",
  "set -e",
  "",
  "ROOT=$(git rev-parse --show-toplevel)",
  "",
  "if [ ! -f \"$ROOT/go.sum\" ]; then",
  "    exit 0",
  "fi",
  "",
  "BEFORE_MOD=$(md5sum \"$ROOT/go.mod\")",
  "BEFORE_SUM=$(md5sum \"$ROOT/go.sum\")",
  "",
  "OUTPUT=$(go mod tidy -v 2>&1)",
  "",
  "AFTER_MOD=$(md5sum \"$ROOT/go.mod\")",
  "AFTER_SUM=$(md5sum \"$ROOT/go.sum\")",
  "",
  "if [ \"$BEFORE_MOD\" != \"$AFTER_MOD\" ] || [ \"$BEFORE_SUM\" != \"$AFTER_SUM\" ]; then",
  "    echo \"Running go mod tidy changed go.mod or go.sum\"",
  "    git diff \"$ROOT/go.mod\" \"$ROOT/go.sum\"",
  "    if [ -n \"$OUTPUT\" ]; then",
  "        printf \"\\nOutput from running go mod tidy -v:\\n%s\\n\" \"$OUTPUT\"",
  "    fi",
  "    exit 1",
  "fi",
  "",
  "exit 0"]

def checkGoMod : SupportFile := ⟨⟨.relative, ["dev", "bin", "check-go-mod.sh"]⟩, checkGoModLines, true⟩

def golangci : SupportFile := ⟨⟨.relative, [".golangci.yml"]⟩, golangciLines, false⟩

end LintRunner.Starter
