import MarkupTally.Model.Checked

/-! What a run of the census can be told. -/
namespace MarkupTally

structure Options where
  extensions : List String := [".ts", ".tsx"]
  excludeDirs : List String := ["node_modules", "dist"]
  /-- Count only functions that are in no other function. -/
  topLevelOnly : Bool := false
  /-- Markup inside a nested function does not mark the function around it. -/
  excludeNested : Bool := false
  /-- A source with an error fails instead of being counted as far as it could be read. -/
  strict : Bool := false
  /-- A file that fails is noted and passed over. -/
  skipInvalid : Bool := false
  /-- How many files may be in work at once. -/
  jobs : Int := 1
  deriving DecidableEq, Repr

namespace Options

def readFields (v : Json) : Checked Options :=
  Options.mk <$> Checked.field v "extensions" (Checked.list Checked.string) (some [".ts", ".tsx"])
    <*> Checked.field v "exclude_dirs" (Checked.list Checked.string) (some ["node_modules", "dist"])
    <*> Checked.field v "top_level_only" Checked.bool (some false)
    <*> Checked.field v "exclude_nested_markup" Checked.bool (some false)
    <*> Checked.field v "strict_syntax" Checked.bool (some false)
    <*> Checked.field v "skip_invalid" Checked.bool (some false)
    <*> Checked.field v "jobs" (fun j => (Checked.int j).ensure (1 ≤ ·) .belowOne) (some 1)

def read (v : Json) : Checked Options :=
  Checked.object (.notModel "AnalyzerOptions") readFields v

def toJson (o : Options) : Json :=
  .obj [("extensions", .strs o.extensions), ("exclude_dirs", .strs o.excludeDirs),
    ("top_level_only", .bool o.topLevelOnly), ("exclude_nested_markup", .bool o.excludeNested),
    ("strict_syntax", .bool o.strict), ("skip_invalid", .bool o.skipInvalid), ("jobs", .int o.jobs)]

end Options

end MarkupTally
