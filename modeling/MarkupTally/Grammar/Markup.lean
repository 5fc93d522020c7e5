import MarkupTally.Grammar.Parser
import MarkupTally.Grammar.Types

/-! Elements of markup: tags, attributes, text, and code in braces. -/
namespace MarkupTally.Grammar

namespace Parser

/-- A name in a tag: its characters may be hyphens. -/
def tagWord : Parser Unit := do
  let t ← token
  guard t.isWord
  resume ((← source).tagNameEnd t.start)

/-- The name of an element: words with points or colons between them. -/
def tagName : Parser Node := do
  let start ← here
  tagWord
  discard <| many do
    if ← acceptAny [".", ":"] then
      tagWord
      return some ()
    else return none
  node "identifier" start []

/-- Code in braces, which may be missing or be spread. -/
def markupCode : Parser Node := do
  let start ← here
  expect "\x7b"
  if ← accept "\x7d" then node "jsx_expression" start []
  else
    discard <| accept "..."
    let e ← enter (.expression true)
    expect "\x7d"
    node "jsx_expression" start [e]

/-- A quoted text of an attribute, which runs over lines and knows no escapes. -/
def attributeText : Parser Node := do
  let start ← here
  let s ← source
  let quote := s.charAt start
  guard (quote = '\x22' || quote = '\x27')
  let stop := s.find (· = quote) (start + 1)
  guard (!s.ended stop)
  resume (stop + 1)
  node "string" start []

def tagAttribute : Parser Node := do
  let start ← here
  if ← looksAt "\x7b" then markupCode
  else
    tagWord
    if ← accept ":" then tagWord
    if ← accept "=" then
      let value ←
        if ← looksAt "\x7b" then markupCode
        else if ← looksAt "<" then enter .markup
        else attributeText
      node "jsx_attribute" start [value]
    else node "jsx_attribute" start []

/-- What stands between an opening and a closing tag: text has no node. -/
def markupChild? : Parser (Option Node) := do
  let s ← source
  let stop := s.find (fun c => "<>\x7b\x7d".contains c) (← last)
  resume stop
  if ← looksAt "\x7b" then return some (← markupCode)
  else
    guard (s.charAt stop = '<')
    if (← following).text == "/" then return none else return some (← enter .markup)

def closingTag : Parser Node := do
  let start ← here
  expect "<"
  expect "/"
  let label ← if ← looksAt ">" then pure [] else pure [inRole "name" (← tagName)]
  expect ">"
  node "jsx_closing_element" start label

/-- The children and the closing tag of an element whose opening tag was read. -/
def markupRest (start : Nat) (opening : Node) : Parser Node := do
  let children ← many markupChild?
  let closing ← closingTag
  node "jsx_element" start
    (inRole "open_tag" opening :: children ++ [inRole "close_tag" closing])

/-- An element. A tag without a name opens a fragment. -/
def markup : Parser Node := do
  let start ← here
  expect "<"
  if ← accept ">" then markupRest start (← node "jsx_opening_element" start [])
  else
    let label ← tagName
    let types ← typeArguments?
    let attributes ← many do
      if (← looksAt "/") || (← looksAt ">") then return none else return some (← tagAttribute)
    let held := inRole "name" label :: types ++ attributes
    if ← accept "/" then
      expect ">"
      node "jsx_self_closing_element" start held
    else
      expect ">"
      markupRest start (← node "jsx_opening_element" start held)

end Parser

end MarkupTally.Grammar
