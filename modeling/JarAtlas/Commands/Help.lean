import JarAtlas.Messages.Phrase

/-!
The overview of all commands.
-/

namespace JarAtlas

namespace Commands

/-- A line of the overview: a text of the language, an empty line, or a command with its
description. -/
inductive HelpLine where
  | message (key : String)
  | blank
  | command (usage key : String)

def helpLines : List HelpLine := [
  .message "cli.help.title",
  .blank,
  .message "cli.help.usage",
  .blank,
  .message "cli.help.commands",
  .command "context | ctx init [release|prerelease|--all|-a]" "cli.help.context_init_desc",
  .command "context | ctx detect" "cli.help.context_detect_desc",
  .command "context | ctx clean <db|build|all>" "cli.help.context_clean_desc",
  .command "context | ctx reset" "cli.help.context_reset_desc",
  .command "context | ctx decompile [release|prerelease|--all|-a]"
    "cli.help.context_decompile_desc",
  .command "context | ctx db [release|prerelease|--all|-a]" "cli.help.context_db_desc",
  .command "context | ctx list" "cli.help.context_list_desc",
  .command "context | ctx use <release|prerelease>" "cli.help.context_use_desc",
  .blank,
  .command "query [--json|-j] [--limit N] <término> [release|prerelease]" "cli.help.query_desc",
  .command "mcp" "cli.help.mcp_desc",
  .blank,
  .command "lang list" "cli.help.lang_list_desc",
  .command "lang set <código>" "cli.help.lang_set_desc",
  .blank,
  .command "config_impl set game_path <ruta>" "cli.help.config_set_jar_desc",
  .command "" "cli.help.config_set_jar_hint",
  .blank,
  .message "cli.help.example"]

def usageWidth : Nat := 38

def HelpLine.text : HelpLine → Action String
  | .message key => Messages.say key []
  | .blank => return ""
  | .command usage key => do
    match ← Messages.phrase key [] with
    | .str description =>
      let fill := String.ofList (List.replicate (usageWidth - usage.length) ' ')
      return "  " ++ usage ++ fill ++ description
    | _ => throw (.wrongKind "")

def showHelp : Action Unit :=
  helpLines.forM fun line => do Action.print ((← line.text) ++ "\n")

end Commands

end JarAtlas
