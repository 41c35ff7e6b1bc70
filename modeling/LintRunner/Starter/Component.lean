import LintRunner.Starter.Commands
import LintRunner.Starter.Support

/-!
The languages and kinds of files that a starter configuration can cover, and what each of them brings
along.
-/

namespace LintRunner.Starter

/-- In the order in which they are listed. -/
inductive Component where
  | go
  | perl
  | rust
  | gitignore
  | markdown
  | shell
  | toml
  | yaml
deriving DecidableEq, Repr

namespace Component

def text : Component → String
  | go => "go"
  | perl => "perl"
  | rust => "rust"
  | gitignore => "gitignore"
  | markdown => "markdown"
  | shell => "shell"
  | toml => "toml"
  | yaml => "yaml"

def every : List Component := [go, perl, rust, gitignore, markdown, shell, toml, yaml]

def ofText? (s : String) : Option Component := every.find? (·.text == s)

def excludes : Component → List String
  | go => ["vendor/**/*"]
  | perl => [".build/**", "blib/**"]
  | rust => ["target"]
  | _ => []

def commands : Component → List Declared
  | go => goCommands
  | perl => perlCommands
  | rust => rustCommands
  | gitignore => gitignoreCommands
  | markdown => markdownCommands
  | shell => shellCommands
  | toml => tomlCommands
  | yaml => yamlCommands

def support : Component → List SupportFile
  | go => [checkGoMod, golangci]
  | _ => []

def tools : Component → List String
  | go => ["https://golangci-lint.run/", "https://github.com/mvdan/gofumpt"]
  | perl => [
    "https://metacpan.org/dist/Perl-Critic",
    "https://metacpan.org/dist/Perl-Tidy",
    "https://metacpan.org/dist/App-perlimports",
    "https://metacpan.org/dist/Pod-Checker",
    "https://metacpan.org/dist/Pod-Tidy"]
  | rust => ["https://doc.rust-lang.org/clippy/"]
  | gitignore => ["https://github.com/houseabsolute/omegasort"]
  | markdown => ["https://prettier.io/"]
  | shell => ["https://www.shellcheck.net/", "https://github.com/mvdan/sh"]
  | toml => ["https://taplo.tamasfe.dev/"]
  | yaml => ["https://prettier.io/"]

def suffixes : List (String × Component) := [
  (".go", go), (".md", markdown), (".pl", perl), (".pm", perl), (".rs", rust), (".sh", shell),
  (".toml", toml), (".yml", yaml), (".yaml", yaml)]

def ofFile? (p : Path) : Option Component :=
  if p.name = ".gitignore" then some gitignore else suffixes.lookup p.suffix

end Component

end LintRunner.Starter
