import MarkupTally.Analysis
import MarkupTally.Json.Reader

/-! The web service: a folder is counted on request. -/
namespace MarkupTally.Service

structure Request where
  method : String := "POST"
  path : String := "/analyze"
  /-- What was sent, if anything was. -/
  body : Option String := none

structure Response where
  status : Nat
  body : Json

/-- What the body of a request asks for. -/
structure Order where
  rootPath : String
  options : Options

def Order.read (v : Json) : Checked Order :=
  Checked.under (.field "body") <|
    Checked.object .notObject (fun v =>
      Order.mk <$> Checked.field v "root_path" Checked.string none
        <*> Checked.field v "options" (Checked.object .notObject Options.readFields) (some {})) v

def detail (status : Nat) (v : Json) : Response := ⟨status, .obj [("detail", v)]⟩

def stepJson : Step → Json
  | .field name => .str name
  | .index i => .nat i

def issueJson (i : Issue) : Json :=
  .obj [("type", .str i.fault.label), ("loc", .arr (i.path.map stepJson)),
    ("msg", .str i.fault.message)]

def invalid (issues : List Issue) : Response := detail 422 (.arr (issues.map issueJson))

/-- The body is no JSON text: the first error is at the given offset. -/
def malformed (offset : Nat) : Response :=
  detail 422 (.arr [.obj [("type", .str "json_invalid"),
    ("loc", .arr [.str "body", .nat offset]), ("msg", .str "JSON decode error")]])

/-- The answer to a body that is not read. -/
def unread : Json.Unread → Response
  | .malformed offset => malformed offset
  | .longNumber => detail 400 (.str "There was an error parsing the body")

/-- A mark at the front of a text is no part of it. -/
def withoutMark (text : String) : String :=
  match text.toList with
  | '\uFEFF' :: cs => String.ofList cs
  | _ => text

/-- The value of a body. No body, an empty one, and the null value ask for nothing. -/
def order (body : Option String) : Except Response Order :=
  match body.getD "" with
  | "" => .error (invalid [⟨[.field "body"], .missing⟩])
  | text =>
    match Json.load (withoutMark text) with
    | .error e => .error (unread e)
    | .ok .null => .error (invalid [⟨[.field "body"], .missing⟩])
    | .ok v =>
      match Order.read v with
      | .bad issues => .error (invalid issues)
      | .ok o => .ok o

/-- Counts the folder that was asked for. The failure of a file is answered, and any other failure
is passed on. -/
def analyze (g : Grammar) (v : Volume) (o : Order) : Except Abort Response :=
  let root := Path.absolute v.cwd o.rootPath
  if v.isFolder root then
    match (Analysis.folder g v root o.options).value with
    | .ok census => .ok ⟨200, census.toJson⟩
    | .error (.census e) =>
      match e with
      | .badFile .. | .badSource .. => .ok (detail 422 (.str e.message))
      | _ => .error (.census e)
    | .error a => .error a
  else .ok (detail 400 (.str ("Invalid root_path: " ++ root)))

/-- The part of a path that tells where to go: without a query, and without slashes at its end. -/
def route (path : String) : String :=
  let cs := path.toList.takeWhile fun c => c != '?' && c != '#'
  let trimmed := (cs.reverse.dropWhile (· == '/')).reverse
  String.ofList (if trimmed.head? == some '/' then trimmed else '/' :: trimmed)

def respond (g : Grammar) (v : Volume) (r : Request) : Except Abort Response :=
  if route r.path != "/analyze" then .ok (detail 404 (.str "Not Found"))
  else if r.method.map Char.toUpper != "POST" then .ok (detail 405 (.str "Method Not Allowed"))
  else
    match order r.body with
    | .error response => .ok response
    | .ok o => analyze g v o

end MarkupTally.Service
