/-!
The commands that a starter configuration can declare, as the lines of their tables.
-/

namespace LintRunner.Starter

structure Declared where
  name : String
  body : List String
deriving DecidableEq, Repr

def goCommands : List Declared := [
  ⟨"golangci-lint", [
    "type = \"both\"",
    "include = \"**/*.go\"",
    "# Large projects with many packages may prefer \x60invoke.per-dir-or-once = 7\x60.",
    "invoke = \"once\"",
    "path-args = \"dir\"",
    "cmd = [\"golangci-lint\", \"run\", \"-c\", \"--allow-parallel-runners\"]",
    "tidy-flags = \"--fix\"",
    "env = \x7b \"FAIL_ON_WARNINGS\" = \"1\" \x7d",
    "ok-exit-codes = [0]",
    "lint-failure-exit-codes = [1]"]⟩,
  ⟨"tidy go files", [
    "type = \"tidy\"",
    "include = \"**/*.go\"",
    "cmd = [\"gofumpt\", \"-w\"]",
    "ok-exit-codes = [0]"]⟩,
  ⟨"check-go-mod", [
    "type = \"lint\"",
    "include = \"**/*.go\"",
    "invoke = \"once\"",
    "path-args = \"none\"",
    "cmd = [\"$GEMLINT_ROOT/dev/bin/check-go-mod.sh\"]",
    "ok-exit-codes = [0]",
    "lint-failure-exit-codes = [1]"]⟩]

def perlCommands : List Declared := [
  ⟨"perlimports", [
    "type = \"both\"",
    "include = [\"**/*.pl\", \"**/*.pm\", \"**/*.t\", \"**/*.psgi\"]",
    "cmd = [\"perlimports\"]",
    "lint-flags = [\"--lint\"]",
    "tidy-flags = [\"-i\"]",
    "ok-exit-codes = 0",
    "expect-stderr = true"]⟩,
  ⟨"perlcritic", [
    "type = \"lint\"",
    "include = [\"**/*.pl\", \"**/*.pm\", \"**/*.t\", \"**/*.psgi\"]",
    "cmd = [\"perlcritic\", \"--profile=$GEMLINT_ROOT/perlcriticrc\"]",
    "ok-exit-codes = 0",
    "lint-failure-exit-codes = 2"]⟩,
  ⟨"perltidy", [
    "type = \"both\"",
    "include = [\"**/*.pl\", \"**/*.pm\", \"**/*.t\", \"**/*.psgi\"]",
    "cmd = [\"perltidy\", \"--profile=$GEMLINT_ROOT/perltidyrc\"]",
    "lint-flags = [\"--assert-tidy\", \"--no-standard-output\", \"--outfile=/dev/null\"]",
    "tidy-flags = [\"--backup-and-modify-in-place\", \"--backup-file-extension=/\"]",
    "ok-exit-codes = 0",
    "lint-failure-exit-codes = 2",
    "ignore-stderr = \"Begin Error Output Stream\""]⟩,
  ⟨"podchecker", [
    "type = \"lint\"",
    "include = [\"**/*.pl\", \"**/*.pm\", \"**/*.pod\"]",
    "cmd = [\"podchecker\", \"--warnings\", \"--warnings\"]",
    "ok-exit-codes = [0, 2]",
    "lint-failure-exit-codes = 1",
    "ignore-stderr = [\".+ pod syntax OK\", \".+ does not contain any pod commands\"]"]⟩,
  ⟨"podtidy", [
    "type = \"tidy\"",
    "include = [\"**/*.pl\", \"**/*.pm\", \"**/*.pod\"]",
    "cmd = [\"podtidy\", \"--columns\", \"100\", \"--inplace\", \"--nobackup\"]",
    "ok-exit-codes = 0"]⟩]

def rustCommands : List Declared := [
  ⟨"rustfmt", [
    "type = \"both\"",
    "include = \"**/*.rs\"",
    "cmd = [\"rustfmt\", \"--edition\", \"2021\"]",
    "lint-flags = \"--check\"",
    "ok-exit-codes = 0",
    "lint-failure-exit-codes = 1"]⟩,
  ⟨"clippy", [
    "type = \"lint\"",
    "include = \"**/*.rs\"",
    "invoke = \"once\"",
    "path-args = \"none\"",
    "cmd = [",
    "    \"cargo\",",
    "    \"clippy\",",
    "    \"--locked\",",
    "    \"--all-targets\",",
    "    \"--all-features\",",
    "    \"--workspace\",",
    "    \"--\",",
    "    \"-D\",",
    "    \"clippy::all\",",
    "]",
    "ok-exit-codes = 0",
    "lint-failure-exit-codes = 101",
    "ignore-stderr = [\"Checking \", \"Finished.+\", \"could not compile\"]"]⟩]

def shellCommands : List Declared := [
  ⟨"shellcheck", [
    "type = \"lint\"",
    "include = \"**/*.sh\"",
    "cmd = \"shellcheck\"",
    "ok-exit-codes = 0",
    "lint-failure-exit-codes = 1"]⟩,
  ⟨"shfmt", [
    "type = \"both\"",
    "include = \"**/*.sh\"",
    "cmd = [\"shfmt\", \"--simplify\", \"--indent\", \"4\"]",
    "lint-flags = \"--diff\"",
    "tidy-flags = \"--write\"",
    "ok-exit-codes = 0",
    "lint-failure-exit-codes = 1"]⟩]

def gitignoreCommands : List Declared := [
  ⟨"omegasort-gitignore", [
    "type = \"both\"",
    "include = \"**/.gitignore\"",
    "cmd = [\"omegasort\", \"--sort\", \"path\", \"--unique\"]",
    "lint-flags = \"--check\"",
    "tidy-flags = \"--in-place\"",
    "ok-exit-codes = 0",
    "lint-failure-exit-codes = 1",
    "ignore-stderr = [\"The .+ file is not sorted\", \"The .+ file is not unique\"]"]⟩]

def markdownCommands : List Declared := [
  ⟨"prettier-markdown", [
    "type = \"both\"",
    "include = \"**/*.md\"",
    "cmd = [",
    "    \"./node_modules/.bin/prettier\",",
    "    \"--no-config\",",
    "    \"--print-width\",",
    "    \"100\",",
    "    \"--prose-wrap\",",
    "    \"always\",",
    "]",
    "lint-flags = \"--check\"",
    "tidy-flags = \"--write\"",
    "ok-exit-codes = 0",
    "lint-failure-exit-codes = 1",
    "ignore-stderr = [\"Code style issues\"]"]⟩]

def tomlCommands : List Declared := [
  ⟨"taplo", [
    "type = \"both\"",
    "include = \"**/*.toml\"",
    "cmd = [\"taplo\", \"format\", \"--option\", \"indent_string=    \", "
      ++ "\"--option\", \"column_width=100\"]",
    "lint-flags = \"--check\"",
    "ok-exit-codes = 0",
    "lint-failure-exit-codes = 1",
    "ignore-stderr = \"INFO taplo.+\""]⟩]

def yamlCommands : List Declared := [
  ⟨"prettier-yaml", [
    "type = \"both\"",
    "include = [\"**/*.yml\", \"**/*.yaml\"]",
    "cmd = [\"./node_modules/.bin/prettier\", \"--no-config\"]",
    "lint-flags = \"--check\"",
    "tidy-flags = \"--write\"",
    "ok-exit-codes = 0",
    "lint-failure-exit-codes = 1",
    "ignore-stderr = [\"Code style issues\"]"]⟩]

end LintRunner.Starter
