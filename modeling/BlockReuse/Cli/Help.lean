/-!
# Help — what the program says about itself

There is a short form, one line per option, and a long one that also explains the values an
option takes.
-/

set_option autoImplicit false

namespace BlockReuse.Cli

/-- The answer to the question for the version. -/
def versionText : String := "local-cse 0.1.0\n"

/-- The lines that both forms of the help start with. -/
def helpHead : List String :=
  ["Block-local common subexpression elimination over a textual SSA IR",
    "",
    "Usage: local-cse [OPTIONS] <INPUTS>...",
    ""]

def shortHelpLines : List String :=
  ["Arguments:",
    "  <INPUTS>...  IR files to transform",
    "",
    "Options:",
    "      --alias <ALIAS>      Alias oracle deciding whether a store clobbers an earlier load " ++
      "[default: basic] [possible values: basic, conservative]",
    "      --diff               Print a unified diff instead of the rewritten IR",
    "      --verify-idempotent  Run the pass a second time and fail if it reports a change",
    "  -v, --verbose...         Raise the log level (-v for debug, -vv for trace); RUST_LOG wins",
    "  -h, --help               Print help (see more with '--help')",
    "  -V, --version            Print version"]

def longHelpLines : List String :=
  ["Arguments:",
    "  <INPUTS>...",
    "          IR files to transform",
    "",
    "Options:",
    "      --alias <ALIAS>",
    "          Alias oracle deciding whether a store clobbers an earlier load",
    "",
    "          Possible values:",
    "          - basic:        gep decomposition with allocas and globals as identified objects",
    "          - conservative: only identical locations are known to overlap",
    "          ",
    "          [default: basic]",
    "",
    "      --diff",
    "          Print a unified diff instead of the rewritten IR",
    "",
    "      --verify-idempotent",
    "          Run the pass a second time and fail if it reports a change",
    "",
    "  -v, --verbose...",
    "          Raise the log level (-v for debug, -vv for trace); RUST_LOG wins",
    "",
    "  -h, --help",
    "          Print help (see a summary with '-h')",
    "",
    "  -V, --version",
    "          Print version"]

/-- The help in its long or its short form. -/
def helpText (long : Bool) : String :=
  String.join ((helpHead ++ if long then longHelpLines else shortHelpLines).map (· ++ "\n"))

end BlockReuse.Cli
