import MarkupTally.Error
import MarkupTally.Node.Shape

/-! The functions of a tree: where they stand, what they are called, whether they make markup. -/
namespace MarkupTally

inductive Classification where
  | markup
  | plain
  deriving DecidableEq, Repr

def Classification.name : Classification → String
  | markup => "markup"
  | plain => "plain"

/-- For the parents that name a value they hold: the role of the name and the role of the value. -/
def namingRoles? : String → Option (String × String)
  | "variable_declarator" => some ("name", "value")
  | "pair" => some ("key", "value")
  | "assignment_expression" => some ("left", "right")
  | "public_field_definition" => some ("name", "value")
  | _ => none

namespace Site

/-- The name that the parent gives to the node: only the first child in the role of the value
takes it. -/
def nameFromParent? (s : Site) : Option Node := do
  let parent ← s.parent
  let (nameRole, valueRole) ← namingRoles? parent.kind
  let first ← parent.children.findIdx? fun c => c.info.field == some valueRole
  if first = s.place then parent.child? nameRole else none

/-- The node that names a site: its own name, or else the one its parent gives. -/
def nameNode? (s : Site) : Option Node :=
  s.node.child? "name" <|> s.nameFromParent?

def name? (source : List UInt8) (s : Site) : Except Utf8.Fault (Option String) :=
  match s.nameNode? with
  | none => .ok none
  | some n => (n.text source).map some

end Site

/-- A function of a tree: where it stands, and what it is called. -/
structure FunctionSite where
  site : Site
  name : Option String
  isFunction : site.node.isFunction = true

/-- Takes a site for a function. It is asked for its name only if it is one. -/
def Site.function (source : List UInt8) (s : Site) : Except Abort FunctionSite :=
  if h : s.node.isFunction = true then
    match s.name? source with
    | .ok name => .ok ⟨s, name, h⟩
    | .error fault => .error (.badName fault)
  else .error (.notFunction s.node.kind)

namespace Node

/-- Looks for markup; with `excludeNested` not inside functions. The site without a parent is the
one where the walk begins: it is searched even if it is a function itself. -/
def markupVisit (excludeNested : Bool) (s : Site) : Visit :=
  if s.node.isMarkup then .collect
  else if excludeNested && s.parent.isSome && s.node.isFunction then .prune
  else .follow

/-- Markup stands somewhere in the body. -/
def containsMarkup (excludeNested : Bool) (n : Node) : Bool :=
  match n.body? with
  | none => false
  | some body => (Walk.first? (markupVisit excludeNested) [Site.root body]).isSome

/-- The top-level statements of a block body. -/
def bodyStatements (n : Node) : List Node :=
  match n.body? with
  | none => []
  | some body => if n.functionKind = .arrowExpression then [] else body.statements

/-- The body is markup, or one of its top-level statements returns markup. -/
def returnsMarkup (n : Node) : Bool :=
  match n.body? with
  | none => false
  | some body =>
    if n.functionKind = .arrowExpression then body.isMarkup
    else n.bodyStatements.any fun s => s.isReturn && s.returned?.any isMarkup

def classify (excludeNested : Bool) (n : Node) : Classification :=
  if n.containsMarkup excludeNested || n.returnsMarkup then .markup else .plain

def functionVisit (topLevelOnly : Bool) (s : Site) : Visit :=
  if s.node.isFunction then if topLevelOnly then .collectPrune else .collect
  else .follow

/-- The functions of a tree in document order; with `topLevelOnly` none inside another. -/
def functionSites (topLevelOnly : Bool) (root : Node) : List Site :=
  Walk.found (functionVisit topLevelOnly) [Site.root root]

/-- The functions of a tree with their names, or why the first of them has none. -/
def functions (source : List UInt8) (topLevelOnly : Bool) (root : Node) :
    Except Abort (List FunctionSite) :=
  (root.functionSites topLevelOnly).mapM (Site.function source)

end Node

end MarkupTally
