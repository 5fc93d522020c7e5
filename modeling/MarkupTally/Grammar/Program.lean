import MarkupTally.Grammar.Markup
import MarkupTally.Grammar.Statements

/-! Reading a whole text. -/
namespace MarkupTally

namespace Grammar

namespace Parser

def rule : Rule → Parser Node
  | .statement => statement
  | .block => block
  | .expression allowIn => expression allowIn
  | .assignment c => assignment c
  | .operand c => operand c
  | .chain => chain {}
  | .callee => callee
  | .type conditional => type conditional
  | .binding => binding
  | .markup => markup

/-- Reads by a rule, with at most the given number of rules inside each other. -/
def run (source : Source) (language : Language) : Nat → Rule → EStateM Unit State Node
  | 0, _ => fun s => .error () s
  | n + 1, r => rule r { source, language, enter := run source language n }

/-- The statements of a text up to its end. -/
def program : Parser (List Node) := many do
  if (← token).kind = .ending then return none else return some (← enter .statement)

end Parser

/-- The rules inside each other are at most this many for each character. -/
def rulesPerCharacter : Nat := 16

/-- The tree of a text. A text that is not of the language has an error at the root. -/
def tree (language : Language) (text : String) : Node :=
  let source := Source.ofText text
  let start := source.codeStart
  let fuel := rulesPerCharacter * (source.size + 1)
  let setting := { source, language, enter := Parser.run source language fuel }
  let first := source.placeAt (Token.next source start).start
  let stop := (source.placeAt source.size).offset
  let root : Node.Info :=
    { id := 0, kind := "program", start := first.offset, stop, row := first.row,
      column := first.column }
  match Parser.program setting { last := start, token := Token.next source start, fresh := 1 } with
  | .ok items _ => .mk root items
  | .error _ _ =>
    let fault : Node.Info := { root with id := 1, kind := "ERROR", faulty := true }
    .mk { root with faulty := true } [.mk fault []]

end Grammar

/-- Reads a text of a language into its tree. -/
def parseSource (language : Language) (text : String) : Node := Grammar.tree language text

end MarkupTally
