import JarAtlas.Commands.Announce
import JarAtlas.Tools.Toolbox

/-!
The command that offers the tools to clients. On a terminal it first shows how to connect one.
-/

namespace JarAtlas

namespace Commands

structure Service where
  host : Json := .str "127.0.0.1"
  portNumber : Json := .int 8000
  overNetwork : Bool := false

namespace Service

def name : String := "orbis_prism_mcp"

def transport (s : Service) : String :=
  if s.overNetwork then "sse" else "stdio"

end Service

structure Client where
  name : Json
  command : String
  args : List String

namespace Client

def toJson (c : Client) : Json :=
  .obj [("name", c.name), ("command", .str c.command), ("args", .arr (c.args.map .str)),
    ("type", .str "json")]

def snippet (c : Client) : String :=
  Json.pretty (.obj [("OrbisPrismMCP",
    .obj [("command", .str c.command), ("args", .arr (c.args.map .str))])])

end Client

def clients : Action (List (String × Client)) := do
  let name ← Messages.phrase "cli.mcp.client_opencode" []
  return [("Standard", ⟨name, "prism", ["mcp"]⟩)]

def showAddress (s : Service) : Action Unit := do
  let title ← Messages.say "cli.mcp.instructions_http_title" []
  let ready ← Messages.phrase "cli.mcp.instructions_http_ready"
    [("host", s.host), ("port", s.portNumber)]
  let panel ← Action.ofExcept (Console.panel Console.terminalWidth
    ("[bold magenta]" ++ title ++ "[/bold magenta]")
    ("[bold cyan]http://" ++ s.host.display ++ ":" ++ s.portNumber.display ++
      "/sse[/bold cyan]") ready)
  Action.printError panel

/-- The name of a client in a table; only a text can be shown, and a missing one is empty. -/
def Client.cell (c : Client) : Except Fault Json :=
  match c.name with
  | .str s => .ok (.str s)
  | .null => .ok (.str "")
  | _ => .error .unshowable

def clientTable (title : String) (left right : Json) (clients : List Client) :
    Except Fault String := do
  let names ← clients.mapM Client.cell
  let size := Console.terminalWidth
  let columns ← [(true, left :: names),
    (false, right :: clients.map fun c => .str c.snippet)].mapM fun (undivided, cells) =>
      Console.columnTexts size 2 undivided cells
  Console.drawTable Console.roundFrame size true (.str title) columns

def showClients : Action Unit := do
  let clients ← clients
  let title ← Messages.say "cli.mcp.instructions_title" []
  let left ← Messages.phrase "cli.mcp.table.client" []
  let right ← Messages.phrase "cli.mcp.table.config" []
  Action.printError (← Action.ofExcept (clientTable
    ("[bold magenta]" ++ title ++ "[/bold magenta]") left right (clients.map (·.2))))
  tellPhase "cli.mcp.instructions_ready" []

/-- Offers the tools by `run`, which is given their names. A service that was stopped has ended
well. -/
def runService (run : List String → Action Unit) : Action Unit := do
  let names := (← Tools.describeAll).map (·.1)
  modify fun h => { h with offered := some names }
  match ← Action.attempt (run names) with
  | .ok () => pure ()
  | .error .interrupted => pure ()
  | .error e => throw e

def serve (s : Service) (run : List String → Action Unit) : Action Nat := do
  if (← get).screen != .none then
    if s.overNetwork then showAddress s else showClients
  match ← Action.attempt (runService run) with
  | .ok () => return 0
  | .error e =>
    tellError "cli.mcp.error" [("msg", .str e.message)]
    throw (.exit 1)

end Commands

end JarAtlas
