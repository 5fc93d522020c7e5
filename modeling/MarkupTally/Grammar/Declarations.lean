import MarkupTally.Grammar.Expressions

/-! Declarations: functions, variables, classes, types, enumerations, namespaces, imports and
exports. -/
namespace MarkupTally.Grammar

namespace Parser

/-- A declared function; without a body it is only a signature. -/
def functionDeclaration : Parser Node := do
  let start ← here
  discard <| accept "async"
  expect "function"
  let generator ← accept "*"
  let label ← name "identifier"
  let held ← signature
  let held := inRole "name" label :: held
  if ← looksAt "\x7b" then
    let body ← functionBody
    node (if generator then "generator_function_declaration" else "function_declaration") start
      (held ++ [body])
  else
    guard !generator
    semicolon
    node "function_signature" start held

def declarator (allowIn : Bool) : Parser Node := do
  let start ← here
  let target ← enter .binding
  discard <| accept "!"
  let type ← typeAnnotation
  let value ←
    if ← accept "=" then pure [inRole "value" (← enter (.assignment { allowIn }))] else pure []
  node "variable_declarator" start (inRole "name" target :: type ++ value)

/-- Variables from the word that declares them up to, but without, the semicolon. -/
def variableList (allowIn : Bool) : Parser Node := do
  let start ← here
  let kind := if ← looksAt "var" then "variable_declaration" else "lexical_declaration"
  advance
  let first ← declarator allowIn
  let more ← many do if ← accept "," then return some (← declarator allowIn) else return none
  node kind start (first :: more)

/-- A function is declared here. One without a name is an expression. -/
def functionAhead : Parser Bool := ahead do
  if ← accept "async" then guard !(← token).newline
  expect "function"
  discard <| accept "*"
  return (← token).isName

/-- Variables are declared here. -/
def variablesAhead : Parser Bool := do
  let t ← token
  let u ← following
  return t.text == "var" || (t.text == "const" && u.text != "enum") ||
    (t.text == "let" && (u.isName || u.text == "[" || u.text == "\x7b"))

def interfaceDeclaration : Parser Node := do
  let start ← here
  expect "interface"
  let label ← name "type_identifier"
  let types ← typeParameters
  let bases ← if ← accept "extends" then
      many do
        if ← looksAt "\x7b" then return none
        else
          let type ← enter (.type true)
          discard <| accept ","
          return some type
    else pure []
  let start' ← here
  expect "\x7b"
  let body ← objectMembers start'
  node "interface_declaration" start (inRole "name" label :: types ++ bases ++ [body])

def typeAlias : Parser Node := do
  let start ← here
  expect "type"
  let label ← name "type_identifier"
  let types ← typeParameters
  expect "="
  let value ← enter (.type true)
  semicolon
  node "type_alias_declaration" start (inRole "name" label :: types ++ [inRole "value" value])

def enumeration : Parser Node := do
  let start ← here
  discard <| accept "const"
  expect "enum"
  let label ← name "identifier"
  expect "\x7b"
  let items ← listUntil "\x7d" do
    let start ← here
    let label ← key
    if ← accept "=" then
      let value ← enter (.assignment {})
      node "enum_assignment" start [inRole "name" label, inRole "value" value]
    else return label
  node "enum_declaration" start (inRole "name" label :: items)

/-- A namespace, a module, or the global scope. A quoted module may lack its body. -/
def scope : Parser Node := do
  let start ← here
  let wide ← looksAt "global"
  advance
  let quoted := (← token).kind = .quoted
  unless wide do
    if quoted then advance
    else
      discard <| name "identifier"
      dottedName
  if quoted && !(← looksAt "\x7b") then
    semicolon
    node "module" start []
  else
    let body ← functionBody
    node "module" start [body]

/-- Attributes of an imported module. -/
def moduleAttributes : Parser (List Node) := do
  let t ← token
  if (t.text == "with" || t.text == "assert") && !t.newline then
    advance
    return [← object]
  else return []

/-- The name of a module with its attributes and the end of the statement. -/
def moduleName : Parser (List Node) := do
  guard ((← token).kind = .quoted)
  advance
  let held ← moduleAttributes
  semicolon
  return held

/-- Names in braces, each with another name or a word that says it is a type. -/
def specifiers : Parser Unit := do
  expect "\x7b"
  discard <| listUntil "\x7d" do
    let words ← many do
      let t ← token
      if t.isWord || t.kind = .quoted then
        advance
        return some ()
      else return none
    guard (1 ≤ words.length && words.length ≤ 4)

/-- What an import binds. -/
def importClause : Parser Unit := do
  if ← accept "*" then
    expect "as"
    discard <| name "identifier"
  else if ← looksAt "\x7b" then specifiers
  else
    discard <| name "identifier"
    if ← accept "," then
      if ← accept "*" then
        expect "as"
        discard <| name "identifier"
      else specifiers

def importStatement : Parser Node := do
  let start ← here
  expect "import"
  if (← token).kind = .quoted then
    let held ← moduleName
    node "import_statement" start held
  else
    let u ← following
    if (← looksAt "type") && (u.text == "\x7b" || u.text == "*" || (u.isName && u.text != "from"))
    then advance
    if (← token).isName && (← following).text == "=" then
      advance
      advance
      let e ← enter .chain
      semicolon
      node "import_alias" start [e]
    else
      importClause
      expect "from"
      let held ← moduleName
      node "import_statement" start held

/-- A class, with its decorators and the word that makes it abstract. -/
def classDeclaration : Parser Node := do
  let start ← here
  let marks ← decorators
  if ← accept "export" then discard <| accept "default"
  classRest "class_declaration" start marks

/-- What stands after `export default`. A function without a name is an expression. -/
def defaultExport : Parser Node := do
  let start ← here
  let t ← token
  let u ← following
  if ← functionAhead then functionDeclaration
  else if t.text == "function" || (t.text == "async" && u.text == "function" && !u.newline) then
    discard <| accept "async"
    let e ← functionExpression start
    discard <| accept ";"
    return e
  else if t.text == "class" || t.text == "@" || (t.text == "abstract" && u.text == "class") then
    classDeclaration
  else if t.text == "interface" && u.isName && !u.newline then interfaceDeclaration
  else
    let e ← enter (.assignment {})
    semicolon
    return e

/-- The words with which a declaration that is exported or ambient starts. -/
def declarationWords : List String :=
  ["var", "let", "const", "function", "async", "class", "abstract", "enum", "interface", "type",
    "namespace", "module", "declare", "import", "global", "@"]

def exportStatement : Parser Node := do
  let start ← here
  expect "export"
  let t ← token
  let u ← following
  if ← accept "*" then
    if ← accept "as" then advance
    expect "from"
    let held ← moduleName
    node "export_statement" start held
  else if t.text == "\x7b" || (t.text == "type" && u.text == "\x7b") then
    discard <| accept "type"
    specifiers
    if ← accept "from" then
      let held ← moduleName
      node "export_statement" start held
    else
      semicolon
      node "export_statement" start []
  else if ← accept "=" then
    let e ← enter (.expression true)
    semicolon
    node "export_statement" start [e]
  else if t.text == "as" && u.text == "namespace" then
    advance
    advance
    discard <| name "identifier"
    semicolon
    node "export_statement" start []
  else if ← accept "default" then
    let e ← defaultExport
    node "export_statement" start [e]
  else
    guard (declarationWords.contains t.text)
    let e ← enter .statement
    node "export_statement" start [e]

/-- A declaration, if one starts here. -/
def declaration? : Parser (Option Node) := do
  let start ← here
  let t ← token
  let u ← following
  let labelled := u.isName && !u.newline
  if ← variablesAhead then
    let held ← variableList true
    semicolon
    return some held
  else if ← functionAhead then return some (← functionDeclaration)
  else if t.text == "class" || t.text == "@" || (t.text == "abstract" && u.text == "class") then
    return some (← classDeclaration)
  else if t.text == "const" || t.text == "enum" then return some (← enumeration)
  else if t.text == "interface" && labelled then return some (← interfaceDeclaration)
  else if t.text == "type" && labelled then return some (← typeAlias)
  else if (t.text == "namespace" && labelled) ||
      (t.text == "module" && (labelled || (u.kind = .quoted && !u.newline))) ||
      (t.text == "global" && u.text == "\x7b") then
    return some (← scope)
  else if t.text == "declare" && declarationWords.contains u.text && !u.newline then
    advance
    let held ← enter .statement
    return some (← node "ambient_declaration" start [held])
  else if t.text == "import" && u.text != "(" && u.text != "." then
    return some (← importStatement)
  else if t.text == "export" then return some (← exportStatement)
  else return none

end Parser

end MarkupTally.Grammar
