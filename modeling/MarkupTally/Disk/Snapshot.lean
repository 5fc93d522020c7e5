import MarkupTally.Disk.Volume
import MarkupTally.Json.Reader
import MarkupTally.Text.Utf8

/-! A file system written down as JSON. -/
namespace MarkupTally.Snapshot

/-- The bytes that pairs of hexadecimal digits stand for. -/
def hexBytes : List Char → List UInt8
  | a :: b :: cs =>
    let digit (c : Char) : Nat := (Json.hexValue? c).getD 0
    UInt8.ofNat (digit a * 16 + digit b) :: hexBytes cs
  | _ => []

def text (v : Json) (key : String) (default : String) : String :=
  match v.get? key with
  | some (.str s) => s
  | _ => default

/-- Adds what an item describes: a file by its text or by its bytes, a link by its target, and
otherwise a folder. -/
def add (v : Volume) (item : Json) : Volume :=
  let path := text item "path" ""
  match item.get? "text", item.get? "hex", item.get? "link" with
  | some (.str s), _, _ => v.write path (.file (Utf8.encode s))
  | _, some (.str hex), _ => v.write path (.file (hexBytes hex.toList))
  | _, _, some (.str target) => v.write path (.link target)
  | _, _, _ => v.makeFolder path

/-- The file system with the given working folder and items. -/
def volume (cwd : String) (items : List Json) : Volume :=
  let empty : Volume := { root := .folder [], cwd }
  items.foldl add (empty.makeFolder cwd)

/-- Reads a whole file system: its working folder and its files. -/
def ofJson (v : Json) : Volume :=
  volume (text v "cwd" "/") (match v.get? "files" with
    | some (.arr items) => items
    | _ => [])

end MarkupTally.Snapshot
