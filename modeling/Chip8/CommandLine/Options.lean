/-!
# Options

The arguments of a command, from left to right. An argument that begins with two
dashes is a long option, one that begins with a single dash is a row of short
ones, and everything else is free, as is a lone dash and all that follows a lone
double dash. The value of an option stands after an equals sign, in the rest of a
row of short options, or in the next argument, whatever that looks like. The
first argument that cannot be accepted decides the error.
-/
namespace Chip8.CommandLine

/-- An option with its two spellings. -/
structure Switch where
  short : Char
  long : String
  takesValue : Bool := false
deriving DecidableEq, Repr

/-- Something that a command is given. Values keep the spelling of their option. -/
inductive Item
  | flag (switch : Switch)
  | value (switch : Switch) (spelling text : String)
  | free (text : String)
deriving DecidableEq, Repr

inductive ArgumentError
  | unrecognized (spelling : String)
  | missingValue (spelling : String)
  | unexpectedValue (spelling : String)
  | invalidValue (spelling reason : String)
  | unexpectedFree (text : String)
  | missingFree
deriving DecidableEq, Repr

def ArgumentError.message : ArgumentError → String
  | .unrecognized spelling => "unrecognized option `" ++ spelling ++ "`"
  | .missingValue spelling => "missing argument to option `" ++ spelling ++ "`"
  | .unexpectedValue spelling => "option `" ++ spelling ++ "` does not accept an argument"
  | .invalidValue spelling reason =>
    "invalid argument to option `" ++ spelling ++ "`: " ++ reason
  | .unexpectedFree text => "unexpected free argument `" ++ text ++ "`"
  | .missingFree => "missing required free argument"

/-- The greatest number that an option takes. -/
def maxCount : Nat := 18446744073709551615

/-- An argument by its form. -/
inductive Form
  | terminator
  | long (name : List Char) (value : Option (List Char))
  | short (row : List Char)
  | free

def Form.of : List Char → Form
  | ['-', '-'] => .terminator
  | '-' :: '-' :: rest =>
    let name := rest.takeWhile (· ≠ '=')
    match rest.dropWhile (· ≠ '=') with
    | _ :: value => .long name (some value)
    | [] => .long name none
  | '-' :: c :: row => .short (c :: row)
  | _ => .free

variable {α : Type}

/-- How a row of short options ends. -/
inductive RowEnd (α : Type)
  | done (a : α)
  | needsValue (switch : Switch) (spelling : String) (a : α)

section

variable (switches : List Switch) (accept : α → Item → Except ArgumentError α)

/-- A row of short options. One that takes a value takes the rest of the row. -/
def acceptRow (a : α) : List Char → Except ArgumentError (RowEnd α)
  | [] => .ok (.done a)
  | c :: rest =>
    let spelling := String.ofList ['-', c]
    match switches.find? (fun switch => switch.short == c) with
    | none => .error (.unrecognized spelling)
    | some switch =>
      if switch.takesValue then
        -- At the end of the row the value is the next argument.
        if rest.isEmpty then .ok (.needsValue switch spelling a)
        else do
          let a ← accept a (.value switch spelling (String.ofList rest))
          return .done a
      else do
        let a ← accept a (.flag switch)
        acceptRow a rest

/-- All arguments, accepted one after the other. -/
def acceptAll (a : α) : List String → Except ArgumentError α
  | [] => .ok a
  | argument :: rest =>
    match Form.of argument.toList with
    | .terminator => rest.foldlM (fun a text => accept a (.free text)) a
    | .free => do
      let a ← accept a (.free argument)
      acceptAll a rest
    | .long name value =>
      let spelling := "--" ++ String.ofList name
      match switches.find? (fun switch => switch.long == String.ofList name) with
      | none => .error (.unrecognized spelling)
      | some switch =>
        match switch.takesValue, value with
        | true, some text => do
          let a ← accept a (.value switch spelling (String.ofList text))
          acceptAll a rest
        | true, none =>
          match rest with
          | [] => .error (.missingValue spelling)
          | text :: rest => do
            let a ← accept a (.value switch spelling text)
            acceptAll a rest
        | false, some _ => .error (.unexpectedValue spelling)
        | false, none => do
          let a ← accept a (.flag switch)
          acceptAll a rest
    | .short row => do
      match ← acceptRow switches accept a row with
      | .done a => acceptAll a rest
      | .needsValue switch spelling a =>
        match rest with
        | [] => .error (.missingValue spelling)
        | text :: rest => do
          let a ← accept a (.value switch spelling text)
          acceptAll a rest

end

/-! ### Output -/

/-- What a command leaves: its exit code and its two texts. -/
structure Output where
  code : Nat
  standard : String
  diagnostic : String
deriving DecidableEq, Repr

/-- A usage text, shown on request. -/
def Output.help (usage : String) : Output := ⟨0, "", usage⟩

/-- Arguments that cannot be accepted. -/
def Output.badArguments (command : String) (e : ArgumentError) : Output :=
  ⟨2, "", command ++ ": " ++ e.message ++ "\n"⟩

end Chip8.CommandLine
