import MarkupTally.Grammar.Parser

/-! Types, type parameters and type arguments. A type keeps the nodes of what it holds, since a
computed key or the default of a parameter can hold a function. -/
namespace MarkupTally.Grammar

namespace Parser

/-- Reads an angle bracket that opens, also off a mark that starts with one. -/
def acceptLess : Parser Bool := do
  let t ← token
  if t.text == "<" then
    advance
    return true
  else if t.text == "<<" then
    resume (t.start + 1)
    return true
  else return false

def typeArguments : Parser Node := do
  let start ← here
  guard (← acceptLess)
  let items ← listUntil ">" (enter (.type true))
  guard (!items.isEmpty)
  node "type_arguments" start items

/-- The type arguments on the same line, if there are any. -/
def typeArguments? : Parser (List Node) := do
  let t ← token
  if !t.newline && (t.text == "<" || t.text == "<<") then return [← typeArguments] else return []

def typeParameter : Parser Node := do
  let start ← here
  if (← looksAt "const") && (← following).isName then advance
  let label ← name "type_identifier"
  let bound ← if ← accept "extends" then pure [← enter (.type true)] else pure []
  let default ← if ← accept "=" then pure [← enter (.type true)] else pure []
  node "type_parameter" start (inRole "name" label :: bound ++ default)

/-- The type parameters in angle brackets, if there are any. -/
def typeParameters : Parser (List Node) := do
  let start ← here
  if ← accept "<" then
    let items ← listUntil ">" typeParameter
    guard (!items.isEmpty)
    return [← node "type_parameters" start items]
  else return []

/-- A type after a colon, if there is one. -/
def typeAnnotation : Parser (List Node) := do
  if ← accept ":" then return [← enter (.type true)] else return []

/-- A result type: a type, or a statement about a parameter. -/
def resultType : Parser Node := do
  let start ← here
  let t ← token
  let u ← following
  if t.isWord && u.text == "is" && !u.newline then
    advance
    advance
    let held ← enter (.type true)
    node "type_predicate" start [held]
  else if t.text == "asserts" && u.isWord && !u.newline then
    advance
    advance
    let held ← if ← accept "is" then pure [← enter (.type true)] else pure []
    node "asserts" start held
  else enter (.type true)

def resultAnnotation : Parser (List Node) := do
  if ← accept ":" then return [← resultType] else return []

/-- Decorators in front of a class, a member or a parameter. -/
def decorators : Parser (List Node) := many do
  let start ← here
  if ← accept "@" then
    let inner ← if ← accept "(" then do
        let e ← enter (.expression true)
        expect ")"
        pure e
      else name "identifier"
    let held ← grow [inner] fun held => do
      if ← accept "." then
        guard (← token).isWord
        advance
        return some held
      else if ← looksAt "<" then return some (held ++ [← typeArguments])
      else if ← acceptBeside "(" then
        let items ← listUntil ")" do
          discard <| accept "..."
          enter (.assignment {})
        return some (held ++ items)
      else return none
    return some (← node "decorator" start held)
  else return none

/-- A parameter with its decorators, its modifiers, its type and its default. -/
def parameter : Parser Node := do
  let start ← here
  let marks ← decorators
  discard <| many do
    let t ← token
    let u ← following
    if ["public", "private", "protected", "readonly", "override"].contains t.text &&
        (u.isWord || u.text == "\x7b" || u.text == "[") then
      advance
      return some ()
    else return none
  discard <| accept "..."
  let target ← if ← looksAt "this" then leaf "this" else enter .binding
  discard <| accept "?"
  let type ← typeAnnotation
  let default ← if ← accept "=" then pure [inRole "value" (← enter (.assignment {}))] else pure []
  node "required_parameter" start (marks ++ inRole "pattern" target :: type ++ default)

def parameters : Parser Node := do
  let start ← here
  expect "("
  let items ← listUntil ")" parameter
  node "formal_parameters" start items

/-- Type parameters, parameters and result type. -/
def signature : Parser (List Node) := do
  let types ← typeParameters
  let list ← parameters
  let result ← resultAnnotation
  return types ++ inRole "parameters" list :: result

/-- The key of a member: a word, a number, a quoted text, a private name, or an expression in
brackets. -/
def key : Parser Node := do
  let start ← here
  match (← token).kind with
  | .word => leaf "property_identifier"
  | .number => leaf "number"
  | .quoted => leaf "string"
  | .privateName => leaf "private_property_identifier"
  | _ =>
    expect "["
    let e ← enter (.expression true)
    expect "]"
    node "computed_property_name" start [e]

/-- An index signature starts here. -/
def indexAhead : Parser Bool := ahead do
  expect "["
  guard (← token).isName
  advance
  looksAt ":"

def indexSignature : Parser Node := do
  let start ← here
  expect "["
  advance
  let held ← typeAnnotation
  expect "]"
  let type ← typeAnnotation
  node "index_signature" start (held ++ type)

/-- A member of an object type or an interface. -/
def typeMember : Parser Node := do
  let start ← here
  discard <| many do
    let u ← following
    if ["readonly", "get", "set"].contains (← token).text && u.startsKey && !u.newline then
      advance
      return some ()
    else return none
  let t ← token
  let u ← following
  if t.text == "(" || t.text == "<" then node "call_signature" start (← signature)
  else if t.text == "new" && (u.text == "(" || u.text == "<") then
    advance
    let held ← signature
    node "construct_signature" start held
  else if ← indexAhead then indexSignature
  else
    let label ← key
    discard <| accept "?"
    if (← looksAt "(") || (← looksAt "<") then
      let held ← signature
      node "method_signature" start (inRole "name" label :: held)
    else
      let type ← typeAnnotation
      node "property_signature" start (inRole "name" label :: type)

def objectMembers (start : Nat) : Parser Node := do
  let items ← manyUntil "\x7d" do
    let item ← typeMember
    unless ← acceptAny [";", ","] do guard (← atBreak)
    return item
  node "object_type" start items

/-- A mapped type starts here, after its brace. -/
def mappedAhead : Parser Bool := ahead do
  if ← acceptAny ["+", "-"] then looksAt "readonly"
  else
    discard <| accept "readonly"
    expect "["
    guard (← token).isName
    advance
    looksAt "in"

def mappedMember (start : Nat) : Parser Node := do
  discard <| acceptAny ["+", "-"]
  discard <| accept "readonly"
  expect "["
  discard <| name "type_identifier"
  expect "in"
  let keys ← enter (.type true)
  let renamed ← if ← accept "as" then pure [← enter (.type true)] else pure []
  expect "]"
  discard <| acceptAny ["+", "-"]
  discard <| accept "?"
  let type ← typeAnnotation
  discard <| acceptAny [";", ","]
  expect "\x7d"
  node "object_type" start (keys :: renamed ++ type)

def objectType : Parser Node := do
  let start ← here
  expect "\x7b"
  if ← mappedAhead then mappedMember start else objectMembers start

/-- A function type starts here: its parameter list can be nothing else. -/
def functionTypeAhead : Parser Bool := ahead do
  if ← looksAt "<" then return true
  expect "("
  if (← looksAt ")") || (← looksAt "...") then return true
  if (← looksAt "\x7b") || (← looksAt "[") then discard <| enter .binding
  else
    guard (← token).isWord
    advance
  if ← accept ")" then looksAt "=>"
  else return [":", ",", "?", "="].contains (← token).text

def functionType (start : Nat) : Parser Node := do
  let types ← typeParameters
  let list ← parameters
  expect "=>"
  let result ← resultType
  node "function_type" start (types ++ list :: [result])

/-- A part of a tuple type, which may have a name, be optional, or stand for many. -/
def tupleMember : Parser Node := do
  let start ← here
  discard <| accept "..."
  let named ← ahead do
    guard (← token).isWord
    advance
    discard <| accept "?"
    looksAt ":"
  if named then
    advance
    discard <| accept "?"
    expect ":"
  let type ← enter (.type true)
  discard <| accept "?"
  node "tuple_member" start [type]

/-- Words with points between them. -/
def dottedName : Parser Unit := discard <| many do
  if ← accept "." then
    let t ← token
    guard (t.isWord || t.kind = .privateName)
    advance
    return some ()
  else return none

/-- The pieces of a template: code that `fill` reads stands between pieces of text. -/
def template (fill : Rule) : Parser Node := do
  let start ← here
  let s ← source
  guard (← looksAt "\x60")
  let first := s.templateEnd (start + 1)
  let piece (i : Nat) : Parser (Option (Node × Nat)) := do
    if s.charAt i = '$' then
      resume (i + 2)
      let e ← enter fill
      guard (← looksAt "\x7d")
      let stop := (← token).stop
      resume stop
      return some (← node "template_substitution" i [e], s.templateEnd stop)
    else return none
  let (held, stop) ← grow (#[], first) fun (held, i) => do
    return (← piece i).map fun (e, j) => (held.push e, j)
  guard (s.charAt stop = '\x60')
  resume (stop + 1)
  node "template_string" start held.toList

/-- The module that an import type names, with its attributes. -/
def importedModule : Parser (List Node) := do
  expect "import"
  expect "("
  let held ← listUntil ")" (enter (.assignment {}))
  dottedName
  return held

/-- A type without operators around it. -/
def primaryType : Parser Node := do
  let start ← here
  let t ← token
  match t.kind with
  | .quoted => leaf "literal_type"
  | .number => leaf "literal_type"
  | .word =>
    if t.text == "typeof" then
      advance
      let held ← if ← looksAt "import" then importedModule else do
        guard ((← token).isName || (← looksAt "this"))
        advance
        dottedName
        pure []
      let arguments ← typeArguments?
      node "type_query" start (held ++ arguments)
    else if t.text == "import" then
      let held ← importedModule
      let arguments ← typeArguments?
      node "import_type" start (held ++ arguments)
    else if ["this", "void", "null", "true", "false"].contains t.text then leaf "literal_type"
    else
      discard <| name "type_identifier"
      dottedName
      let arguments ← typeArguments?
      node "type_identifier" start arguments
  | _ =>
    if t.text == "\x7b" then objectType
    else if t.text == "\x60" then template (.type true)
    else if ← accept "[" then
      let items ← listUntil "]" tupleMember
      node "tuple_type" start items
    else if ← accept "-" then
      guard ((← token).kind = .number)
      leaf "literal_type"
    else
      expect "("
      let type ← enter (.type true)
      expect ")"
      node "parenthesized_type" start [type]

/-- A type with brackets after it, which must stand on its line. -/
def suffixedType : Parser Node := do
  let start ← here
  let inner ← primaryType
  grow inner fun inner => do
    if ← acceptBeside "[" then
      if ← accept "]" then return some (← node "array_type" start [inner])
      else
        let index ← enter (.type true)
        expect "]"
        return some (← node "lookup_type" start [inner, index])
    else return none

/-- A type with words such as `keyof` in front of it. -/
def operatorType (conditional : Bool) : Parser Node := do
  let start ← here
  discard <| many do
    let u ← following
    let operand := u.isWord || u.kind = .quoted ||
      ["(", "[", "\x7b", "\x60"].contains u.text
    if ["keyof", "unique", "readonly"].contains (← token).text && operand && !u.newline then
      advance
      return some ()
    else return none
  let u ← following
  if (← looksAt "infer") && u.isName && !u.newline then
    advance
    advance
    let bound ← attempt do
      expect "extends"
      let type ← enter (.type false)
      guard (!conditional || !(← looksAt "?"))
      return type
    node "infer_type" start bound.toList
  else if ← functionTypeAhead then functionType start
  else suffixedType

/-- Types joined by a mark, which may also stand in front of the first. -/
def joinedTypes (kind mark : String) (p : Parser Node) : Parser Node := do
  let start ← here
  discard <| accept mark
  let first ← p
  let more ← many do if ← accept mark then return some (← p) else return none
  if more.isEmpty then return first else node kind start (first :: more)

/-- A type; a conditional one only if it may be. -/
def type (conditional : Bool) : Parser Node := do
  let start ← here
  let t ← token
  let u ← following
  if (t.text == "new" && (u.text == "(" || u.text == "<")) ||
      (t.text == "abstract" && u.text == "new") then
    discard <| accept "abstract"
    expect "new"
    functionType start
  else
    let tested ← joinedTypes "union_type" "|"
      (joinedTypes "intersection_type" "&" (operatorType conditional))
    if ← (if conditional then acceptBeside "extends" else pure false) then
      let bound ← enter (.type false)
      expect "?"
      let yes ← enter (.type true)
      expect ":"
      let no ← enter (.type true)
      node "conditional_type" start [tested, bound, yes, no]
    else return tested

end Parser

end MarkupTally.Grammar
