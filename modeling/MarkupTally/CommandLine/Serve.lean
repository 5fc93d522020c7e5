import MarkupTally.CommandLine.Census

/-! The command that starts the web service. -/
namespace MarkupTally.CommandLine.Serve

/-- Where the service is to be reached. -/
structure Address where
  host : String
  port : Int
  reload : Bool

def usage : Usage where
  takesWord := false
  flags :=
    [helpFlag, { names := ["--host"], takesValue := true }, wholeNumber "--port",
      { names := ["--reload"] }]

def usageLine : String :=
  "usage: markup-census-serve [-h] [--host HOST] [--port PORT] [--reload]\n"

def help : String :=
  usageLine ++ "\noptions:\n  -h, --help   show this help message and exit\n  --host HOST\n" ++
    "  --port PORT\n  --reload\n"

def address (given : List Given) : Address where
  host := (Given.last? given "--host").getD "127.0.0.1"
  port := ((Given.last? given "--port").bind Digits.int?).getD 8000
  reload := Given.has given "--reload"

/-- The address to serve, or the ending of a command that serves none. -/
def run (args : List String) : Except Ending Address :=
  match usage.parse args with
  | .help => .error { exit := 0, out := help }
  | .refused message =>
    .error { exit := 2, err := usageLine ++ "markup-census-serve: error: " ++ message ++ "\n" }
  | .accepted given _ => .ok (address given)

end MarkupTally.CommandLine.Serve
