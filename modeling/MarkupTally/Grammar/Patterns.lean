import MarkupTally.Grammar.Parser
import MarkupTally.Grammar.Types

/-! Patterns that bind names, and expressions that turn out to be patterns. A default in a pattern
does not take its name, so it is kept apart from an assignment. -/
namespace MarkupTally.Grammar

namespace Parser

/-- A pattern with the default that may follow it. -/
def bindingWithDefault : Parser Node := do
  let start ← here
  let target ← enter .binding
  if ← accept "=" then
    let default ← enter (.assignment {})
    node "assignment_pattern" start [inRole "left" target, inRole "right" default]
  else return target

def restPattern (start : Nat) : Parser Node := do
  let target ← enter .binding
  node "rest_pattern" start [target]

/-- A member of a pattern in braces. -/
def bindingMember : Parser Node := do
  let start ← here
  if ← accept "..." then restPattern start
  else
    let t ← token
    let label ← key
    if ← accept ":" then
      let target ← bindingWithDefault
      node "pair_pattern" start [inRole "key" label, inRole "value" target]
    else
      guard t.isName
      if ← accept "=" then
        let default ← enter (.assignment {})
        node "object_assignment_pattern" start [inRole "left" label, inRole "right" default]
      else return withKind "shorthand_property_identifier_pattern" label

/-- A name, or a pattern in braces or brackets. -/
def binding : Parser Node := do
  let start ← here
  if ← accept "\x7b" then
    let items ← listUntil "\x7d" bindingMember
    node "object_pattern" start items
  else if ← accept "[" then
    let items ← gappedListUntil "]" do
      let start ← here
      if ← accept "..." then restPattern start else bindingWithDefault
    node "array_pattern" start items
  else name "identifier"

end Parser

/-- The kind that an expression has as a part of a pattern. -/
def patternKind : String → String
  | "array" => "array_pattern"
  | "object" => "object_pattern"
  | "pair" => "pair_pattern"
  | "assignment_expression" => "assignment_pattern"
  | "spread_element" => "rest_pattern"
  | kind => kind

mutual

/-- The pattern that an expression stands for at the left of an assignment. Only a list of
members, and what assigns a default in it, is turned. -/
def asPattern : Node → Node
  | .mk info children =>
    if ["array", "object", "pair", "assignment_expression", "spread_element"].contains info.kind then
      .mk { info with kind := patternKind info.kind } (asPatterns children)
    else .mk info children

/-- The patterns of the parts; the right side of a default stays an expression. -/
def asPatterns : List Node → List Node
  | [] => []
  | n :: ns =>
    (if n.info.field = some "right" then n else asPattern n) :: asPatterns ns

end

end MarkupTally.Grammar
