import MarkupTally.Grammar.Declarations

/-! Statements. -/
namespace MarkupTally.Grammar

namespace Parser

def block : Parser Node := do
  let start ← here
  expect "\x7b"
  let items ← manyUntil "\x7d" (enter .statement)
  node "statement_block" start items

def ifStatement (start : Nat) : Parser Node := do
  advance
  let test ← parenthesized
  let yes ← enter .statement
  let no ← if ← accept "else" then pure [← enter .statement] else pure []
  node "if_statement" start (test :: yes :: no)

/-- A part of the head of a loop that may be left out, with the mark after it. -/
def headPart (close : String) : Parser (List Node) := do
  if ← accept close then return []
  else
    let e ← enter (.expression true)
    expect close
    return [e]

/-- What a loop over members goes through, and its body. -/
def memberLoopRest (start : Nat) (left : Node) : Parser Node := do
  advance
  let right ← enter (.expression true)
  expect ")"
  let body ← enter .statement
  node "for_in_statement" start [inRole "left" left, inRole "right" right, inRole "body" body]

def forStatement (start : Nat) : Parser Node := do
  advance
  discard <| accept "await"
  expect "("
  let first ←
    if ← looksAt ";" then pure []
    else if ← variablesAhead then pure [← variableList false]
    else pure [← enter (.expression false)]
  if (← looksAt "of") || (← looksAt "in") then
    match first with
    | [left] => memberLoopRest start (asPattern left)
    | _ => fail
  else
    expect ";"
    let test ← headPart ";"
    let step ← headPart ")"
    let body ← enter .statement
    node "for_statement" start (first ++ test ++ step ++ [inRole "body" body])

def whileStatement (start : Nat) : Parser Node := do
  advance
  let test ← parenthesized
  let body ← enter .statement
  node "while_statement" start [test, inRole "body" body]

def doStatement (start : Nat) : Parser Node := do
  advance
  let body ← enter .statement
  expect "while"
  let test ← parenthesized
  discard <| accept ";"
  node "do_statement" start [inRole "body" body, test]

/-- A case of a switch with its statements. -/
def switchCase : Parser Node := do
  let start ← here
  let test ←
    if ← accept "case" then pure [← enter (.expression true)]
    else do
      expect "default"
      pure []
  expect ":"
  let items ← many do
    if ["case", "default", "\x7d"].contains (← token).text then return none
    else return some (← enter .statement)
  node "switch_case" start (test ++ items)

def switchStatement (start : Nat) : Parser Node := do
  advance
  let test ← parenthesized
  expect "\x7b"
  let cases ← manyUntil "\x7d" switchCase
  node "switch_statement" start (test :: cases)

def tryStatement (start : Nat) : Parser Node := do
  advance
  let body ← enter .block
  let handler ←
    if ← accept "catch" then do
      let caught ←
        if ← accept "(" then do
          let target ← enter .binding
          let type ← typeAnnotation
          expect ")"
          pure (target :: type)
        else pure []
      pure (caught ++ [← enter .block])
    else pure []
  let last ← if ← accept "finally" then pure [← enter .block] else pure []
  guard !(handler.isEmpty && last.isEmpty)
  node "try_statement" start (body :: handler ++ last)

def returnStatement (start : Nat) : Parser Node := do
  advance
  let value ← if ← operandOmitted then pure [] else pure [← enter (.expression true)]
  semicolon
  node "return_statement" start value

def throwStatement (start : Nat) : Parser Node := do
  advance
  let value ← enter (.expression true)
  semicolon
  node "throw_statement" start [value]

/-- A jump out of a statement, which may have a label on its line. -/
def jumpStatement (start : Nat) (kind : String) : Parser Node := do
  advance
  let t ← token
  if t.isName && !t.newline then advance
  semicolon
  node kind start []

def withStatement (start : Nat) : Parser Node := do
  advance
  let value ← parenthesized
  let body ← enter .statement
  node "with_statement" start [value, inRole "body" body]

def expressionStatement (start : Nat) : Parser Node := do
  let e ← enter (.expression true)
  semicolon
  node "expression_statement" start [e]

def labeledStatement (start : Nat) : Parser Node := do
  advance
  expect ":"
  let body ← enter .statement
  node "labeled_statement" start [inRole "body" body]

def statement : Parser Node := do
  match ← declaration? with
  | some n => return n
  | none =>
    let start ← here
    let t ← token
    match t.text with
    | "\x7b" => block
    | ";" => leaf "empty_statement"
    | "if" => ifStatement start
    | "for" => forStatement start
    | "while" => whileStatement start
    | "do" => doStatement start
    | "switch" => switchStatement start
    | "try" => tryStatement start
    | "return" => returnStatement start
    | "throw" => throwStatement start
    | "break" => jumpStatement start "break_statement"
    | "continue" => jumpStatement start "continue_statement"
    | "with" => withStatement start
    | "debugger" => do
      advance
      semicolon
      node "debugger_statement" start []
    | _ =>
      if t.isName && (← following).text == ":" then labeledStatement start
      else expressionStatement start

end Parser

end MarkupTally.Grammar
