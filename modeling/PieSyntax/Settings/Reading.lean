/-
# Settings read from text

A settings file is a YAML mapping with the keys `function_types` and `max_depth`, each at most once.
Blank text and empty documents mean the defaults.
-/
import PieSyntax.Settings
import PieSyntax.Text.Blank
import PieSyntax.Yaml.Document

namespace PieSyntax

/-- Why no settings come out of a file. -/
inductive SettingsError where
  /-- The file at `path` cannot be read as text. -/
  | unreadable (path : String)
  /-- The text of the file at `path` holds no settings. -/
  | invalid (path : String)
  /-- No form could ever be opened. -/
  | zeroDepth
deriving DecidableEq

/-- The error in the words of a message. -/
def SettingsError.message : SettingsError → String
  | unreadable path => "Couldn't read configuration file " ++ path
  | invalid path => "Invalid configuration in " ++ path
  | zeroDepth => "max_depth must be at least 1"

namespace Settings

/-! ## Values -/

/-- The number written by `digits` in the given base, if all of them are digits of that base and the
number fits into 64 bits. -/
def digits? (base : Nat) (digits : List Char) : Option Nat :=
  match digits.mapM Yaml.hexDigit? with
  | none | some [] => none
  | some values =>
    let value := values.foldl (fun n d => n * base + d) 0
    if values.all (· < base) && value < UInt64.size then some value else none

/-- Whether `text` is a zero and further digits, which is no number. -/
def hasLeadingZero (text : List Char) : Bool :=
  match text with
  | '0' :: c :: rest => (c :: rest).all Char.isDigit
  | _ => false

/-- The number written by a plain scalar: decimal without leading zeros, or with a marker in base
sixteen, eight or two; a plus sign may stand before it. -/
def number? (text : List Char) : Option Nat :=
  let unsigned := match text with
    | '+' :: rest => rest
    | _ => text
  match unsigned with
  | '0' :: 'x' :: rest => digits? 16 rest
  | '0' :: 'o' :: rest => digits? 8 rest
  | '0' :: 'b' :: rest => digits? 2 rest
  | _ => if hasLeadingZero unsigned then none else digits? 10 unsigned

/-- The tag of integers. -/
def integerTag : List Char := "tag:yaml.org,2002:int".toList

/-- The depth that a value stands for. -/
def depthOf? (value : Yaml.Scalar) : Option Nat :=
  if value.style = .plain || (value.style = .literal && value.tag == some integerTag) then
    number? value.text
  else none

/-- Whether a plain scalar stands for nothing. -/
def isNull (value : Yaml.Scalar) : Bool :=
  value.style = .plain &&
    ["", "~", "null", "Null", "NULL"].any fun name => value.text = name.toList

/-- The choice that a value stands for: its text, or a tag of that name before nothing. -/
def functionTypesOf? (value : Yaml.Scalar) : Option FunctionTypes :=
  match value.tag with
  | some ('!' :: name) => if isNull value then FunctionTypes.ofName? (String.ofList name) else none
  | _ => FunctionTypes.ofName? (String.ofList value.text)

/-! ## Files -/

/-- The settings after one more entry. -/
def withEntry? (s : Settings) (entry : Yaml.Entry) : Option Settings :=
  if entry.1 = "max_depth".toList then
    (depthOf? entry.2).map fun depth => { s with maxDepth := depth }
  else if entry.1 = "function_types".toList then
    (functionTypesOf? entry.2).map fun choice => { s with functionTypes := choice }
  else none

/-- The settings that a mapping stands for; settings without an entry keep their defaults. -/
def ofEntries? (entries : List Yaml.Entry) : Option Settings :=
  if (entries.map Prod.fst).Nodup then entries.foldlM withEntry? {} else none

/-- The settings that a text stands for. -/
def ofText? (text : List Char) : Option Settings :=
  if (Text.trim text).isEmpty then some {}
  else (Yaml.entries? text).bind ofEntries?

/-- Refuses settings under which no form could be opened. -/
def validate (s : Settings) : Except SettingsError Settings :=
  if s.maxDepth = 0 then .error .zeroDepth else .ok s

/-- The settings in the file at `path`, given its text if it can be read. -/
def ofFile (path : String) (text : Option (List Char)) : Except SettingsError Settings :=
  match text with
  | none => .error (.unreadable path)
  | some text =>
    match ofText? text with
    | none => .error (.invalid path)
    | some s => s.validate

end Settings

end PieSyntax
