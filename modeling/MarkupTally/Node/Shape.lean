import MarkupTally.Node.Walk

/-! What a node is: a function, a piece of markup, a return statement, a place of an error. -/
namespace MarkupTally

inductive FunctionKind where
  | declaration
  | expression
  | arrowBlock
  | arrowExpression
  deriving DecidableEq, Repr

def FunctionKind.name : FunctionKind → String
  | declaration => "declaration"
  | expression => "expression"
  | arrowBlock => "arrow_block"
  | arrowExpression => "arrow_expression"

inductive MarkupKind where
  | element
  | selfClosing
  | fragment
  deriving DecidableEq, Repr

def MarkupKind.name : MarkupKind → String
  | element => "element"
  | selfClosing => "self_closing"
  | fragment => "fragment"

namespace Node

/-- The kinds of node that stand for a function. -/
def functionKinds : List String :=
  ["function_declaration", "generator_function_declaration", "function_signature",
    "function_expression", "function", "generator_function", "arrow_function"]

/-- The bare keyword has the same kind as a function expression, and no name of its own. -/
def isFunction (n : Node) : Bool := n.info.named && functionKinds.contains n.kind

def body? (n : Node) : Option Node := n.child? "body"

/-- How a function is written. An arrow is told apart by its body. -/
def functionKind (n : Node) : FunctionKind :=
  if n.kind == "arrow_function" then
    if n.body?.any fun b => b.kind == "statement_block" then .arrowBlock else .arrowExpression
  else if ["function_declaration", "generator_function_declaration",
      "function_signature"].contains n.kind then .declaration
  else .expression

/-- The opening tag of an element. -/
def opening? (n : Node) : Option Node :=
  n.child? "open_tag" <|> n.namedChildren.head?

def markupKind? (n : Node) : Option MarkupKind :=
  if n.kind == "jsx_self_closing_element" then some .selfClosing
  else if n.kind == "jsx_element" then
    if n.opening?.any fun o => (o.child? "name").isNone then some .fragment else some .element
  else none

def isMarkup (n : Node) : Bool := n.markupKind?.isSome

def isReturn (n : Node) : Bool := n.kind == "return_statement"

/-- The named children that are no comments. -/
def statements (n : Node) : List Node :=
  n.namedChildren.filter fun c => c.kind != "comment"

/-- What a return statement returns. -/
def returned? (n : Node) : Option Node :=
  n.namedChildren.find? fun c => c.kind != "comment"

/-- Looks for an error below nodes that say they hold one. -/
def faultVisit (s : Site) : Visit :=
  if s.node.kind == "ERROR" || s.node.info.missing then .collectPrune
  else if s.node.info.faulty then .follow
  else .prune

/-- The first error of a tree in document order. -/
def firstFault? (n : Node) : Option Node :=
  (Walk.first? faultVisit [Site.root n]).map Site.node

end Node

end MarkupTally
