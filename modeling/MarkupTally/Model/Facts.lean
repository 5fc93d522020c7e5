import MarkupTally.Function
import MarkupTally.Model.Checked

/-! What is recorded of files and their functions. -/
namespace MarkupTally

def FunctionKind.ofName? : String → Option FunctionKind
  | "declaration" => some declaration
  | "expression" => some expression
  | "arrow_block" => some arrowBlock
  | "arrow_expression" => some arrowExpression
  | _ => none

def Classification.ofName? : String → Option Classification
  | "markup" => some markup
  | "plain" => some plain
  | _ => none

/-- A file to be counted. -/
structure FileInfo where
  path : String
  relPath : String
  language : String
  deriving DecidableEq, Repr

namespace FileInfo

def readFields (v : Json) : Checked FileInfo :=
  FileInfo.mk <$> Checked.field v "path" Checked.string none
    <*> Checked.field v "rel_path" Checked.string none
    <*> Checked.field v "language" Checked.string none

def read (v : Json) : Checked FileInfo := Checked.object (.notModel "FileInfo") readFields v

def toJson (i : FileInfo) : Json :=
  .obj [("path", .str i.path), ("rel_path", .str i.relPath), ("language", .str i.language)]

end FileInfo

structure FunctionFacts where
  name : Option String
  kind : FunctionKind
  line : Int
  column : Int
  classification : Classification
  returnsMarkup : Bool
  deriving DecidableEq, Repr

namespace FunctionFacts

def readFields (v : Json) : Checked FunctionFacts :=
  FunctionFacts.mk <$> Checked.field v "name" Checked.stringOrNull (some none)
    <*> Checked.field v "kind" (Checked.among FunctionKind.ofName?
      "'declaration', 'expression', 'arrow_block' or 'arrow_expression'") none
    <*> Checked.field v "line" Checked.int none
    <*> Checked.field v "column" Checked.int none
    <*> Checked.field v "classification" (Checked.among Classification.ofName?
      "'markup' or 'plain'") none
    <*> Checked.field v "returns_markup_directly" Checked.bool (some false)

def read (v : Json) : Checked FunctionFacts :=
  Checked.object (.notModel "FunctionFacts") readFields v

def toJson (f : FunctionFacts) : Json :=
  .obj [("name", .ofOption f.name), ("kind", .str f.kind.name), ("line", .int f.line),
    ("column", .int f.column), ("classification", .str f.classification.name),
    ("returns_markup_directly", .bool f.returnsMarkup)]

/-- One function: where it is, what it is called, and whether it makes markup. -/
def entry (relPath : String) (f : FunctionFacts) : String :=
  let name := match f.name with
    | none | some "" => "[Anonymous]"
    | some n => n
  let label := match f.classification with
    | .markup => "JSX"
    | .plain => "normal"
  relPath ++ ":" ++ toString f.line ++ ":" ++ toString f.column ++ " " ++ name ++
    " (" ++ f.kind.name ++ ") -> " ++ label

end FunctionFacts

/-- The functions of a file, or why the file was passed over. -/
structure FileFacts where
  path : String
  relPath : String
  language : String
  functions : List FunctionFacts := []
  error : Option String := none
  deriving DecidableEq, Repr

namespace FileFacts

def readFields (v : Json) : Checked FileFacts :=
  FileFacts.mk <$> Checked.field v "path" Checked.string none
    <*> Checked.field v "rel_path" Checked.string none
    <*> Checked.field v "language" Checked.string none
    <*> Checked.field v "functions" (Checked.list FunctionFacts.read) (some [])
    <*> Checked.field v "error" Checked.stringOrNull (some none)

def read (v : Json) : Checked FileFacts := Checked.object (.notModel "FileFacts") readFields v

def toJson (f : FileFacts) : Json :=
  .obj [("path", .str f.path), ("rel_path", .str f.relPath), ("language", .str f.language),
    ("functions", .arr (f.functions.map FunctionFacts.toJson)), ("error", .ofOption f.error)]

/-- The lines that tell a reader of the functions of a file. -/
def listing (f : FileFacts) : String :=
  "\n".intercalate (f.functions.map (FunctionFacts.entry f.relPath))

end FileFacts

end MarkupTally
