/-
  The arguments of the command line. A command is named first; its file and its flags follow in
  any order, the value of a flag after an equals sign or as the next argument. After `--` all
  arguments are files. A flag is given at most once.
-/
import JuiceSyntax.Grammar.Options

namespace JuiceSyntax

inductive ReportFormat where
  | text | json
deriving DecidableEq, Repr, Inhabited

/-- What is asked of the program. -/
inductive Request where
  | version
  | lex (file : String)
  /-- Reads a file and prints its tree. -/
  | parse (file : String) (options : Options) (format : ReportFormat)
  /-- Reads a file and prints only what is wrong with it. -/
  | check (file : String) (options : Options) (format : ReportFormat)
  | explain (code : Option String)
deriving DecidableEq, Repr, Inhabited

/-- Flags and other arguments as given. -/
structure Arguments where
  files : List String
  strict : Bool
  maxDepth : Option Nat
  maxFaults : Option Nat
  format : Option ReportFormat
deriving DecidableEq, Repr, Inhabited

namespace Arguments

def none : Arguments := ⟨[], false, .none, .none, .none⟩

/-- Decimal digits, with a plus sign or without, of a number below `2 ^ 64`. -/
def limit? (text : String) : Option Nat :=
  let digits := match text.toList with
    | '+' :: digits => digits
    | digits => digits
  if digits.isEmpty || digits.any (fun c => !c.isDigit) then .none
  else
    let value := digits.foldl (fun n c => 10 * n + (c.toNat - '0'.toNat)) 0
    if value < UInt64.size then some value else .none

def format? : String → Option ReportFormat
  | "text" => some .text
  | "json" => some .json
  | _ => .none

/-- Sets a flag that takes a value, unless it is set or the value does not fit. -/
def set? (a : Arguments) (flag value : String) : Option Arguments :=
  match flag, a with
  | "max-depth", ⟨_, _, .none, _, _⟩ => (limit? value).map fun n => { a with maxDepth := n }
  | "max-errors", ⟨_, _, _, .none, _⟩ => (limit? value).map fun n => { a with maxFaults := n }
  | "format", ⟨_, _, _, _, .none⟩ => (format? value).map fun f => { a with format := f }
  | _, _ => .none

/-- What an argument is by its form. -/
inductive Form where
  /-- `--` -/
  | separator
  /-- `--flag` -/
  | flag (name : String)
  /-- `--flag=value` -/
  | setting (name value : String)
  /-- `-f` -/
  | short
  | plain (text : String)
deriving DecidableEq, Repr

def formOf (text : String) : Form :=
  match text.toList with
  | ['-', '-'] => .separator
  | '-' :: '-' :: rest =>
    let name := String.ofList (rest.takeWhile (· != '='))
    match rest.dropWhile (· != '=') with
    | [] => .flag name
    | _ :: value => .setting name (String.ofList value)
  | '-' :: _ :: _ => .short
  | _ => .plain text

/-- Reads the arguments after a command that has flags. -/
def read? (a : Arguments) : List String → Option Arguments
  | [] => some a
  | first :: rest =>
    match formOf first with
    | .separator => some { a with files := a.files ++ rest }
    | .plain file => read? { a with files := a.files ++ [file] } rest
    | .setting name value => (a.set? name value).bind fun a => a.read? rest
    | .short => .none
    | .flag "strict" => if a.strict then .none else read? { a with strict := true } rest
    | .flag name =>
      match rest with
      | [] => .none
      | value :: rest =>
        match formOf value with
        | .plain value => (a.set? name value).bind fun a => a.read? rest
        | _ => .none

def options (a : Arguments) : Options :=
  let o := Options.standard.withStrict a.strict
  (o.withMaxDepth (a.maxDepth.getD o.maxDepth)).withMaxFaults (a.maxFaults.getD o.maxFaults)

/-- Arguments none of which is a flag. -/
def plain? : List String → Option (List String)
  | [] => some []
  | first :: rest =>
    match formOf first with
    | .separator => some rest
    | .plain text => (plain? rest).map (text :: ·)
    | _ => .none

end Arguments

namespace Request

/-- The one file among the arguments; it has a name. -/
def oneFile? : List String → Option String
  | [file] => if file.isEmpty then none else some file
  | _ => none

def file? : Request → Option String
  | lex file | parse file _ _ | check file _ _ => some file
  | _ => none

/-- Reads a command line; `none` if it asks for nothing that there is. -/
def ofArguments? : List String → Option Request
  | "--version" :: _ => some .version
  | "lex" :: rest => do return .lex (← oneFile? (← Arguments.plain? rest))
  | "parse" :: rest => do
    let a ← Arguments.none.read? rest
    return .parse (← oneFile? a.files) a.options (a.format.getD .text)
  | "check" :: rest => do
    let a ← Arguments.none.read? rest
    return .check (← oneFile? a.files) a.options (a.format.getD .text)
  | "explain" :: rest => do
    match ← Arguments.plain? rest with
    | [] => return .explain none
    | [code] => return .explain (some code)
    | _ => none
  | first :: _ => if "-V".isPrefixOf first then some .version else none
  | [] => none

end Request

end JuiceSyntax
