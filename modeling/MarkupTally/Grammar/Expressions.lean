import MarkupTally.Grammar.Members
import MarkupTally.Grammar.Patterns

/-! Expressions. A chain of operators is one node over all its operands: how tightly they bind
does not tell where a function stands. -/
namespace MarkupTally.Grammar

namespace Parser

/-- The arguments of a call in their parentheses. -/
def arguments : Parser Node := do
  let start ← here
  expect "("
  let items ← listUntil ")" do
    let start ← here
    let spread ← accept "..."
    let e ← enter (.assignment {})
    if spread then node "spread_element" start [e] else return e
  node "arguments" start items

/-- The type arguments of a call or of a name in an expression. What stands after them tells them
from two comparisons. -/
def expressionTypeArguments? : Parser (Option Node) := attempt do
  guard ((← looksAt "<") || (← looksAt "<<"))
  let held ← typeArguments
  let t ← token
  guard (t.text == "(" || t.text == "\x60" ||
    (!(["<", ">", "+", "-"].contains t.text) && (t.newline || !t.startsOperand)))
  return held

/-- A parenthesis that opens may open the parameters of an arrow. -/
def parametersAhead : Parser Bool := ahead do
  expect "("
  let t ← token
  let u ← following
  if t.text == ")" then return u.text == "=>" || u.text == ":"
  else if ["[", "\x7b", "...", "@"].contains t.text then return true
  else
    guard (t.isName || t.text == "this")
    if u.isWord then
      return ["public", "private", "protected", "readonly", "override"].contains t.text
    else if u.text == "?" then
      advance
      return [":", ",", "=", ")"].contains (← following).text
    else return [":", ",", "=", ")"].contains u.text

/-- In a text with markup an angle bracket opens type parameters only if no tag can follow. -/
def typeParametersAhead : Parser Bool := do
  if ← markupAllowed then
    ahead do
      expect "<"
      if (← looksAt "const") && (← following).isName then return true
      guard (← token).isName
      advance
      let u ← following
      if ← looksAt "extends" then
        return !(u.text == "=" || u.text == ">" || u.text == "/")
      else return (← looksAt ",") || (← looksAt "=")
  else looksAt "<"

def arrowBody (c : Context) : Parser Node := do
  if ← looksAt "\x7b" then functionBody
  else return inRole "body" (← enter (.assignment c))

/-- An arrow function from its type parameters or its parameters on. -/
def arrowRest (start : Nat) (c : Context) : Parser Node := do
  let types ← typeParameters
  let list ← parameters
  let result ← resultAnnotation
  expect "=>"
  let body ← arrowBody c
  unless c.freeArrow || result.isEmpty do guard (← looksAt ":")
  node "arrow_function" start (types ++ inRole "parameters" list :: result ++ [body])

/-- Tries to read an arrow function, and remembers a failure. -/
def arrowAttempt (start : Nat) (c : Context) : Parser (Option Node) := do
  let mark := 2 * (← here) + (if c.freeArrow then 1 else 0)
  if (← get).notArrow.contains mark then return none
  else
    let found ← attempt (arrowRest start c)
    if found.isNone then modify fun s => { s with notArrow := s.notArrow.insert mark }
    return found

/-- An arrow function whose parameter is a bare name. -/
def plainArrow (start : Nat) (c : Context) : Parser Node := do
  let label ← name "identifier"
  expect "=>"
  let body ← arrowBody c
  node "arrow_function" start [inRole "parameter" label, body]

def arrow? (c : Context) : Parser (Option Node) := do
  let start ← here
  let t ← token
  let u ← following
  if t.isName && u.text == "=>" then return some (← plainArrow start c)
  else if t.text == "(" then
    if ← parametersAhead then arrowAttempt start c else return none
  else if t.text == "<" then
    if ← typeParametersAhead then arrowAttempt start c else return none
  else if t.text == "async" && !u.newline then
    attempt do
      advance
      if u.isName then plainArrow start c
      else if (← looksAt "<") || (← parametersAhead) then
        match ← arrowAttempt start c with
        | some n => return n
        | none => fail
      else fail
  else return none

/-- A class expression from its decorators on. -/
def classRest (kind : String) (start : Nat) (marks : List Node) : Parser Node := do
  discard <| accept "abstract"
  expect "class"
  let t ← token
  let label ←
    if t.isName && t.text != "implements" then pure [inRole "name" (← name "type_identifier")]
    else pure []
  let types ← typeParameters
  let base ←
    if ← accept "extends" then do
      let e ← enter .chain
      let held ← typeArguments?
      pure (e :: held)
    else pure []
  let promised ← if ← accept "implements" then
      many do
        if ← looksAt "\x7b" then return none
        else
          let type ← enter (.type true)
          discard <| accept ","
          return some type
    else pure []
  let body ← classBody
  node kind start (marks ++ label ++ types ++ base ++ promised ++ [inRole "body" body])

/-- An expression that starts with `new`. -/
def newExpression : Parser Node := do
  let start ← here
  expect "new"
  if ← accept "." then
    guard (← token).isWord
    advance
    node "meta_property" start []
  else
    let callee ← enter .callee
    let types ← expressionTypeArguments?
    let held ← if ← looksAt "(" then pure [← arguments] else pure []
    node "new_expression" start (callee :: types.toList ++ held)

/-- An expression that starts with `import`: a call, or the module's own data. -/
def importExpression : Parser Node := do
  let start ← here
  expect "import"
  if ← accept "." then
    guard (← token).isWord
    advance
    node "meta_property" start []
  else
    guard (← looksAt "(")
    node "import" start []

def pattern : Parser Node := do
  let start ← here
  match (← source).patternEnd? start with
  | some stop =>
    resume stop
    node "regex" start []
  | none => fail

def parenthesized : Parser Node := do
  let start ← here
  expect "("
  let e ← enter (.expression true)
  expect ")"
  node "parenthesized_expression" start [e]

/-- An expression without operators around it, or an arrow function. -/
def primary (c : Context) : Parser Node := do
  match ← arrow? c with
  | some n => return n
  | none =>
    let start ← here
    let t ← token
    let u ← following
    match t.kind with
    | .number => leaf "number"
    | .quoted => leaf "string"
    | .privateName =>
      guard (u.text == "in")
      leaf "private_property_identifier"
    | .word =>
      if t.text == "function" then functionExpression start
      else if t.text == "async" && u.text == "function" && !u.newline then
        advance
        functionExpression start
      else if t.text == "class" then classRest "class" start []
      else if t.text == "new" then newExpression
      else if t.text == "import" then importExpression
      else if ["this", "super", "null", "true", "false"].contains t.text then leaf t.text
      else name "identifier"
    | .mark =>
      if t.text == "(" then parenthesized
      else if t.text == "[" then array
      else if t.text == "\x7b" then object
      else if t.text == "\x60" then template (.expression true)
      else if t.text == "/" || t.text == "/=" then pattern
      else if t.text == "@" then
        let marks ← decorators
        classRest "class" start marks
      else fail
    | _ => fail

/-- A member after a point. -/
def memberName : Parser Node := do
  let t ← token
  guard (t.isWord || t.kind = .privateName)
  leaf "property_identifier"

/-- One more step of a chain that names a member: a point, an index, or a claim that the value is
there. -/
def memberStep (start : Nat) (base : Node) : Parser (Option Node) := do
  if ← accept "." then
    let label ← memberName
    return some (← node "member_expression" start [base, label])
  else if ← accept "[" then
    let index ← enter (.expression true)
    expect "]"
    return some (← node "subscript_expression" start [base, index])
  else if ← acceptBeside "!" then return some (← node "non_null_expression" start [base])
  else return none

/-- One more step of a chain of members and calls. -/
def chainStep (start : Nat) (base : Node) : Parser (Option Node) := do
  match ← memberStep start base with
  | some n => return some n
  | none =>
    let t ← token
    if t.text == "(" then
      let held ← arguments
      return some (← node "call_expression" start [base, held])
    else if t.text == "\x60" then
      let text ← template (.expression true)
      return some (← node "call_expression" start [base, text])
    else if t.text == "?." then
      advance
      let u ← token
      if u.isWord || u.kind = .privateName then
        let label ← memberName
        return some (← node "member_expression" start [base, label])
      else
        guard (["(", "[", "<", "\x60"].contains u.text)
        let types ← typeArguments?
        return some (← node "optional_chain" start (base :: types))
    else if t.text == "<" || t.text == "<<" then
      match ← expressionTypeArguments? with
      | none => return none
      | some types => return some (← node "instantiation_expression" start [base, types])
    else return none

/-- A primary expression with members and calls. -/
def chain (c : Context) : Parser Node := do
  let start ← here
  let base ← primary c
  grow base (chainStep start)

/-- What `new` builds: a chain without calls. -/
def callee : Parser Node := do
  let start ← here
  let base ← if ← looksAt "new" then newExpression else primary {}
  grow base (memberStep start)

/-- Markup, which members and calls can follow only after a claim that the value is there. -/
def markupOperand : Parser Node := do
  let start ← here
  let m ← enter .markup
  if ← acceptBeside "!" then grow (← node "non_null_expression" start [m]) (chainStep start)
  else return m

/-- An operand with its type in front of it. -/
def typeAssertion (c : Context) : Parser Node := do
  let start ← here
  expect "<"
  let type ← if ← looksAt "const" then leaf "const" else enter (.type true)
  expect ">"
  let e ← enter (.operand c)
  node "type_assertion" start [type, e]

/-- An operand with the operators in front of it and behind it. -/
def operand (c : Context) : Parser Node := do
  let start ← here
  let t ← token
  if ["!", "~", "+", "-", "typeof", "void", "delete"].contains t.text then
    advance
    let e ← enter (.operand c)
    node "unary_expression" start [e]
  else if t.text == "++" || t.text == "--" then
    advance
    let e ← enter (.operand c)
    node "update_expression" start [e]
  else if t.text == "await" && (← following).startsOperand then
    advance
    let e ← enter (.operand c)
    node "await_expression" start [e]
  else
    let inner ←
      if t.text == "<" then
        match ← arrow? c with
        | some n => pure n
        | none =>
          if ← markupAllowed then
            match ← attempt markupOperand with
            | some n => pure n
            | none => arrowRest start c
          else typeAssertion c
      else chain c
    if !(← token).newline && ((← looksAt "++") || (← looksAt "--")) then
      advance
      node "update_expression" start [inner]
    else return inner

/-- The operators that join two operands and are tokens of their own. -/
def joiningOperators : List String :=
  ["??", "||", "&&", "|", "^", "&", "==", "!=", "===", "!==", "<", "<=", "<<", "instanceof", "+",
    "-", "*", "/", "%", "**"]

/-- The angle brackets that close and what belongs to them: their number, and whether an equals
sign follows. -/
def closingBrackets : Parser (Nat × Bool) := do
  let s ← source
  let start ← here
  let stop := min (s.find (· ≠ '>') start) (start + 3)
  return (stop - start, s.charAt stop = '=' && s.charAt (stop + 1) ≠ '>')

/-- Reads an operator that joins two operands. -/
def acceptJoining (allowIn : Bool) : Parser Bool := do
  let t ← token
  if joiningOperators.contains t.text || (t.text == "in" && allowIn) then
    advance
    return true
  else if t.text == ">" then
    let (count, equals) ← closingBrackets
    if equals && count ≠ 1 then return false
    else
      resume (t.start + count + (if equals then 1 else 0))
      return true
  else return false

/-- An operator with its operand, or a type that is claimed for what stands before. -/
def joinStep (c : Context) : Parser (Option Node) := do
  let t ← token
  if (t.text == "as" || t.text == "satisfies") && !t.newline then
    advance
    if ← looksAt "const" then return some (← leaf "const") else return some (← enter (.type true))
  else if ← acceptJoining c.allowIn then return some (← enter (.operand c))
  else return none

def joined (c : Context) : Parser Node := do
  let start ← here
  let first ← enter (.operand c)
  let more ← many (joinStep c)
  if more.isEmpty then return first else node "binary_expression" start (first :: more)

/-- The operators that combine an operand with what it is assigned to. -/
def updatingOperators : List String :=
  ["+=", "-=", "*=", "/=", "%=", "**=", "<<=", "&=", "|=", "^=", "&&=", "||=", "??="]

/-- Reads an operator that combines and assigns. -/
def acceptUpdating : Parser Bool := do
  let t ← token
  if updatingOperators.contains t.text then
    advance
    return true
  else if t.text == ">" then
    let (count, equals) ← closingBrackets
    if equals && count ≠ 1 then
      resume (t.start + count + 1)
      return true
    else return false
  else return false

/-- The kinds of expression to which a value can be assigned. -/
def assignable : List String :=
  ["identifier", "member_expression", "subscript_expression", "non_null_expression",
    "parenthesized_expression", "array", "object"]

def yieldExpression (c : Context) : Parser Node := do
  let start ← here
  expect "yield"
  if ← accept "*" then
    let e ← enter (.assignment c)
    node "yield_expression" start [e]
  else if (← operandOmitted) || !(← token).startsOperand then node "yield_expression" start []
  else
    let e ← enter (.assignment c)
    node "yield_expression" start [e]

/-- A resource is assigned here, which its block gives back at its end. -/
def resourceAhead : Parser Bool := ahead do
  expect "using"
  let t ← token
  guard (t.isName && !t.newline)
  advance
  looksAt "="

/-- An expression without commas. -/
def assignment (c : Context) : Parser Node := do
  let start ← here
  if (← looksAt "yield") && (← following).text != "=>" then yieldExpression c
  else
    if ← resourceAhead then advance
    let left ← joined c
    if ← accept "=" then
      guard (assignable.contains left.kind)
      let right ← enter (.assignment c)
      node "assignment_expression" start
        [inRole "left" (asPattern left), inRole "right" right]
    else if ← acceptUpdating then
      guard (assignable.contains left.kind)
      let right ← enter (.assignment c)
      node "augmented_assignment_expression" start [inRole "left" left, inRole "right" right]
    else if ← accept "?" then
      let yes ← enter (.assignment { freeArrow := false })
      expect ":"
      let no ← enter (.assignment c)
      node "ternary_expression" start [left, yes, no]
    else return left

/-- One or more expressions with commas between them. -/
def expression (allowIn : Bool) : Parser Node := do
  let start ← here
  let first ← enter (.assignment { allowIn })
  let more ← many do
    if ← accept "," then return some (← enter (.assignment { allowIn })) else return none
  if more.isEmpty then return first else node "sequence_expression" start (first :: more)

end Parser

end MarkupTally.Grammar
