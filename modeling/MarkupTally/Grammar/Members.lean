import MarkupTally.Grammar.Parser
import MarkupTally.Grammar.Types

/-! Members of objects and of classes, and the functions that statements and expressions share. -/
namespace MarkupTally.Grammar

namespace Parser

/-- A member of an object. -/
def objectMember : Parser Node := do
  let start ← here
  if ← accept "..." then
    let e ← enter (.assignment {})
    node "spread_element" start [e]
  else
    discard <| many do
      let t ← token
      let u ← following
      if ["async", "get", "set"].contains t.text &&
          (u.startsKey || (u.text == "*" && t.text == "async")) then
        advance
        return some ()
      else return none
    discard <| accept "*"
    let t ← token
    let label ← key
    if (← looksAt "(") || (← looksAt "<") then
      let held ← signature
      let body ← enter .block
      node "method_definition" start (inRole "name" label :: held ++ [inRole "body" body])
    else if ← accept ":" then
      let value ← enter (.assignment {})
      node "pair" start [inRole "key" label, inRole "value" value]
    else
      guard t.isName
      if ← accept "=" then
        let default ← enter (.assignment {})
        node "object_assignment_pattern" start [inRole "left" label, inRole "right" default]
      else return withKind "shorthand_property_identifier" label

def object : Parser Node := do
  let start ← here
  expect "\x7b"
  let items ← listUntil "\x7d" objectMember
  node "object" start items

def array : Parser Node := do
  let start ← here
  expect "["
  let items ← gappedListUntil "]" do
    let start ← here
    let spread ← accept "..."
    let e ← enter (.assignment {})
    if spread then node "spread_element" start [e] else return e
  node "array" start items

/-- The words that may stand in front of a member of a class. -/
def memberModifiers : List String :=
  ["public", "private", "protected", "static", "abstract", "override", "readonly", "declare",
    "async", "get", "set", "accessor"]

/-- Reads the modifiers of a member. Most of them must stand on the line of what follows. -/
def modifiers : Parser Unit := discard <| many do
  let t ← token
  let u ← following
  if memberModifiers.contains t.text && (u.startsKey || u.text == "*") &&
      (!u.newline || ["static", "get", "set"].contains t.text) then
    advance
    return some ()
  else return none

/-- A field or a method from its key on; a method may lack its body. -/
def keyedMember (start : Nat) (marks : List Node) : Parser Node := do
  let label ← key
  discard <| acceptAny ["?", "!"]
  if (← looksAt "(") || (← looksAt "<") then
    let held ← signature
    let held := marks ++ inRole "name" label :: held
    if ← looksAt "\x7b" then
      let body ← enter .block
      node "method_definition" start (held ++ [inRole "body" body])
    else
      semicolon
      node "method_signature" start held
  else
    let type ← typeAnnotation
    let value ← if ← accept "=" then pure [inRole "value" (← enter (.assignment {}))] else pure []
    semicolon
    node "public_field_definition" start (marks ++ inRole "name" label :: type ++ value)

/-- A member of a class. -/
def classMember : Parser Node := do
  let start ← here
  let marks ← decorators
  if (← looksAt "static") && (← following).text == "\x7b" then
    advance
    let body ← enter .block
    node "class_static_block" start [inRole "body" body]
  else
    modifiers
    discard <| accept "*"
    if ← indexAhead then
      let held ← indexSignature
      semicolon
      return held
    else keyedMember start marks

/-- The members of a class in their braces. -/
def classBody : Parser Node := do
  let start ← here
  expect "\x7b"
  let items ← manyUntil "\x7d" do
    if ← accept ";" then return none else return some (← classMember)
  node "class_body" start (items.filterMap id)

/-- The body of a function. -/
def functionBody : Parser Node := do return inRole "body" (← enter .block)

/-- A function expression from its keyword on. -/
def functionExpression (start : Nat) : Parser Node := do
  expect "function"
  let generator ← accept "*"
  let label ←
    if (← token).isName then pure [inRole "name" (← name "identifier")] else pure []
  let held ← signature
  let body ← functionBody
  node (if generator then "generator_function" else "function_expression") start
    (label ++ held ++ [body])

end Parser

end MarkupTally.Grammar
