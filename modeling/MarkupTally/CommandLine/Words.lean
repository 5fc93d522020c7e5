import MarkupTally.Text.Digits
import MarkupTally.Text.Quoted

/-! Command lines made of options, their values, and at most one other word. -/
namespace MarkupTally.CommandLine

/-- An option. The last of its names is the one it is known by. -/
structure Flag where
  names : List String
  takesValue : Bool := false
  /-- Why a value is not accepted. -/
  refusal? : String → Option String := fun _ => none

def Flag.name (f : Flag) : String := f.names.getLast?.getD ""

/-- The name that asks for help. -/
def helpFlag : Flag := { names := ["-h", "--help"] }

/-- The options of a command, help first, and whether it takes a word besides them. -/
structure Usage where
  flags : List Flag
  takesWord : Bool

/-- An option that was given, by its name, with its value if it has one. -/
structure Given where
  name : String
  value : Option String := none

inductive Parsed where
  /-- Help was asked for before anything was wrong. -/
  | help
  | refused (message : String)
  | accepted (given : List Given) (word : Option String)

/-- What a single word is. -/
inductive Word where
  /-- The two dashes after which every word is a plain one. -/
  | dashes
  | plain (text : String)
  /-- An option with its name as it is known, and a value joined to it. -/
  | option (flag : Flag) (name : String) (joined : Option String)
  /-- A word that looks like an option and is none. -/
  | unknown (text : String)

namespace Word

def isOption : Word → Bool
  | option .. | unknown _ => true
  | _ => false

def isDashes : Word → Bool
  | dashes => true
  | _ => false

/-- The word as it was written; an option is never asked for it. -/
def text : Word → String
  | dashes => "--"
  | plain t | unknown t => t
  | option _ name _ => name

end Word

/-- The names of all options with the options they belong to. -/
def Usage.names (u : Usage) : List (String × Flag) :=
  u.flags.flatMap fun f => f.names.map (·, f)

def Usage.find? (u : Usage) (name : String) : Option Flag :=
  (u.names.find? fun n => n.1 == name).map Prod.snd

/-- Splits a word at its first equality sign. -/
def splitEq (word : String) : String × Option String :=
  let (before, after) := word.toList.span (· != '=')
  match after with
  | [] => (word, none)
  | _ :: value => (String.ofList before, some (String.ofList value))

def startsWith (word start : String) : Bool := start.toList.isPrefixOf word.toList

/-- A minus sign and digits, with at most one point before the last of them. One newline may stand
at the end. -/
def isNegativeNumber (word : String) : Bool :=
  let isDigit (c : Char) : Bool := (Digits.value? c).isSome
  let cs := word.toList
  match if cs.getLast? == some '\n' then cs.dropLast else cs with
  | '-' :: cs =>
    let (whole, rest) := cs.span isDigit
    match rest with
    | [] => !whole.isEmpty
    | '.' :: frac => !frac.isEmpty && frac.all isDigit
    | _ => false
  | _ => false

/-- The options that an inexact word can stand for: a beginning of a long name, or a short name
with a value joined to it. -/
def Usage.candidates (u : Usage) (word : String) : List (Flag × String × Option String) :=
  if startsWith word "--" then
    let (start, joined) := splitEq word
    u.names.filterMap fun (n, f) => if startsWith n start then some (f, n, joined) else none
  else
    let short := String.ofList (word.toList.take 2)
    u.names.filterMap fun (n, f) =>
      if n == short then some (f, n, some (String.ofList (word.toList.drop 2)))
      else if startsWith n word then some (f, n, none)
      else none

/-- What a word before the two dashes is, or why it cannot be told. -/
def Usage.word (u : Usage) (text : String) : Except String Word :=
  if !startsWith text "-" then .ok (.plain text)
  else
    match u.find? text with
    | some f => .ok (.option f text none)
    | none =>
      if text == "-" then .ok (.plain text)
      else
        let (start, joined) := splitEq text
        match joined, u.find? start with
        | some _, some f => .ok (.option f start joined)
        | _, _ =>
          match u.candidates text with
          | [(f, n, joined)] => .ok (.option f n joined)
          | [] =>
            if isNegativeNumber text || text.toList.contains ' ' then .ok (.plain text)
            else .ok (.unknown text)
          | several =>
            .error ("ambiguous option: " ++ text ++ " could match " ++
              ", ".intercalate (several.map fun c => c.2.1))

/-- All words of a command line. -/
def Usage.words (u : Usage) : List String → Except String (List Word)
  | [] => .ok []
  | "--" :: rest => .ok (.dashes :: rest.map .plain)
  | text :: rest =>
    match u.word text with
    | .error e => .error e
    | .ok w => (u.words rest).map (w :: ·)

/-- What has been made of the words so far. -/
structure Progress where
  given : List Given := []
  word : Option String := none
  /-- The word besides the options is still to come. -/
  pending : Bool
  extras : List String := []

/-- The words that the one word besides the options takes: itself, and two dashes around it. -/
def takeWord (words : List Word) : List Word × List Word :=
  let (before, rest) := words.span Word.isDashes
  let (one, rest) : List Word × List Word :=
    match rest with
    | .plain t :: rest => ([.plain t], rest)
    | rest => ([], rest)
  let (after, rest) := rest.span Word.isDashes
  (before ++ one ++ after, rest)

/-- Gives the words taken to the word besides the options; one pair of dashes is dropped. -/
def Progress.setWord (p : Progress) (taken : List Word) : Progress :=
  { p with pending := false, word := ((taken.map Word.text).erase "--").head? }

/-- What comes of reading an option. -/
inductive Effect where
  | help
  | refused (message : String)
  | gave (given : Given) (rest : List Word)

def Flag.refuse (f : Flag) (message : String) : Effect :=
  .refused ("argument " ++ "/".intercalate f.names ++ ": " ++ message)

def Flag.give (f : Flag) (value : String) (rest : List Word) : Effect :=
  match f.refusal? value with
  | some message => f.refuse message
  | none => .gave ⟨f.name, some value⟩ rest

/-- An option without value: help is given at once. -/
def Flag.raise (f : Flag) (rest : List Word) : Effect :=
  if f.names == helpFlag.names then .help else .gave ⟨f.name, none⟩ rest

/-- Letters joined to a short option without value, directly or by an equality sign, are short
options themselves. At the first letter that is none, the last option refuses the rest. -/
def Usage.letters (u : Usage) (f : Flag) (joined : List Char) (rest : List Word) : Effect :=
  match joined with
  | [] => f.raise rest
  | c :: cs =>
    match u.find? (String.ofList ['-', c]) with
    | some g => u.letters g cs rest
    | none => f.refuse ("ignored explicit argument " ++ Quoted.quote (String.ofList (c :: cs)))

/-- Reads an option and its value. -/
def Usage.option (u : Usage) (f : Flag) (name : String) (joined : Option String)
    (rest : List Word) : Effect :=
  match joined, f.takesValue with
  | some value, true => f.give value rest
  | some value, false =>
    if startsWith name "--" || value.isEmpty then
      f.refuse ("ignored explicit argument " ++ Quoted.quote value)
    else u.letters f value.toList rest
  | none, false => f.raise rest
  | none, true =>
    match rest with
    | .plain value :: rest => f.give value rest
    | _ => f.refuse "expected one argument"

/-- Reads words until no option is left among them; each round spends a unit of fuel. -/
def Usage.read (u : Usage) (fuel : Nat) (p : Progress) (words : List Word) : Parsed :=
  match fuel with
  | 0 => .refused ""
  | fuel + 1 =>
    match words with
    | .option f name joined :: rest =>
      match u.option f name joined rest with
      | .help => .help
      | .refused message => .refused message
      | .gave g rest => u.read fuel { p with given := p.given ++ [g] } rest
    | .unknown text :: rest => u.read fuel { p with extras := p.extras ++ [text] } rest
    | _ =>
      if p.pending && !words.isEmpty then
        let (taken, rest) := takeWord words
        u.read fuel (p.setWord taken) rest
      else
        let (loose, rest) := words.span fun w => !w.isOption
        let p := { p with extras := p.extras ++ loose.map Word.text }
        match rest with
        | [] =>
          if p.extras.isEmpty then .accepted p.given p.word
          else .refused ("unrecognized arguments: " ++ " ".intercalate p.extras)
        | rest => u.read fuel p rest

def Usage.parse (u : Usage) (args : List String) : Parsed :=
  match u.words args with
  | .error message => .refused message
  | .ok words => u.read (2 * words.length + 2) { pending := u.takesWord } words

/-- An option whose value is a whole number. -/
def wholeNumber (name : String) : Flag where
  names := [name]
  takesValue := true
  refusal? value :=
    if (Digits.int? value).isSome then none else some ("invalid int value: " ++ Quoted.quote value)

/-- An option whose value is one of a few words. -/
def choice (name : String) (choices : List String) : Flag where
  names := [name]
  takesValue := true
  refusal? value :=
    if choices.contains value then none
    else some ("invalid choice: " ++ Quoted.quote value ++ " (choose from " ++
      ", ".intercalate (choices.map Quoted.quote) ++ ")")

namespace Given

/-- The last value given to an option. -/
def last? (given : List Given) (name : String) : Option String :=
  (given.filter fun g => g.name == name).getLast?.bind Given.value

def has (given : List Given) (name : String) : Bool := given.any fun g => g.name == name

/-- All values given to an option, in order. -/
def all (given : List Given) (name : String) : List String :=
  (given.filter fun g => g.name == name).filterMap Given.value

end Given

end MarkupTally.CommandLine
