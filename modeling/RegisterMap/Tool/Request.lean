import RegisterMap.Text.Scan
import RegisterMap.Tool.Path

/-!
# Requests

What a command line asks for: `NAME [INPUT [OUTPUT]]` with options anywhere
between, each of them at most once, up to an optional `--`; or help, for which
what comes behind is not read.
-/

namespace RegisterMap.Tool

open Text (after?)

/-! ## Arguments -/

inductive Setting where
  | description
  | macroPrefix
  | model
  deriving DecidableEq, Repr

def Setting.ofName? (name : Text) : Option Setting :=
  [("desc".toList, description), ("prefix".toList, macroPrefix), ("dump-model".toList, model)].lookup
    name

inductive Argument where
  | value (s : Text)
  | setting (s : Setting) (value : Text)
  | lint
  | help
  deriving DecidableEq, Repr

/-- Whether a text is the value of the option before it, not an option. -/
def isValue (s : Text) : Bool := s = ['-'] || s.head? ≠ some '-'

def isHelp (s : Text) : Bool := s = "--help".toList || "-h".toList.isPrefixOf s

namespace Argument

/-- The arguments in order, a setting with its value, up to one that asks for help.
None if one is no option that there is, or has no value, or has one where none
belongs. -/
def ofTexts? : List Text → Option (List Argument)
  | [] => some []
  | s :: rest =>
    if isHelp s then some [help]
    else
      match after? "--".toList s with
      | none => if isValue s then (ofTexts? rest).map (value s :: ·) else none
      | some [] => some (rest.map value)
      | some option =>
        let name := option.takeWhile (· ≠ '=')
        match option.dropWhile (· ≠ '=') with
        | _ :: attached => do
          let setting ← Setting.ofName? name
          (ofTexts? rest).map (.setting setting attached :: ·)
        | [] =>
          if name = "lint".toList then (ofTexts? rest).map (lint :: ·)
          else
            match rest with
            | [] => none
            | v :: rest =>
              if isValue v then do
                let setting ← Setting.ofName? name
                (ofTexts? rest).map (.setting setting v :: ·)
              else none

def value? : Argument → Option Text
  | .value s => some s
  | _ => none

/-- The option an argument sets; `some none` is the one without a value. -/
def option? : Argument → Option (Option Setting)
  | .setting s _ => some (some s)
  | .lint => some none
  | _ => none

def find? (arguments : List Argument) (setting : Setting) : Option Text :=
  arguments.findSome? fun
    | .setting s v => if s = setting then some v else none
    | _ => none

end Argument

/-! ## Requests -/

inductive Place where
  | standard
  | path (s : Text)
  deriving DecidableEq, Repr

namespace Place

def ofText (s : Text) : Place := if s = ['-'] then .standard else .path s

def text : Place → Text
  | .standard => ['-']
  | .path s => s

end Place

structure Places where
  input : Option Place
  targets : List Place
  deriving DecidableEq, Repr

structure Request where
  name : Text
  input : Place
  output : Place
  description : Option Text
  macroPrefix : Text
  lint : Bool
  /-- Where the markup of the peripheral is to be written. -/
  model : Option Place
  deriving DecidableEq, Repr

def Request.places (r : Request) : Places := ⟨some r.input, r.output :: r.model.toList⟩

inductive Command where
  /-- Says what arguments there are. The places named before that are still checked. -/
  | help (places : Places)
  | generate (r : Request)
  deriving DecidableEq, Repr

namespace Command

def places : Command → Places
  | .help p => p
  | .generate r => r.places

def ofArguments? (arguments : List Argument) : Option Command :=
  let values := arguments.filterMap Argument.value?
  let model := (Argument.find? arguments .model).map Place.ofText
  if values.length ≤ 3 ∧ (arguments.filterMap Argument.option?).Nodup then
    if .help ∈ arguments then
      some (.help ⟨values[1]?.map .ofText, (values[2]?.map .ofText).toList ++ model.toList⟩)
    else
      match values with
      | name :: places =>
        some <| .generate {
          name
          input := .ofText (places[0]?.getD ['-'])
          output := .ofText (places[1]?.getD ['-'])
          description := Argument.find? arguments .description
          macroPrefix := (Argument.find? arguments .macroPrefix).getD []
          lint := .lint ∈ arguments
          model }
      | [] => none
  else none

def ofTexts? (texts : List Text) : Option Command := (Argument.ofTexts? texts).bind ofArguments?

def request? : Command → Option Request
  | .help _ => none
  | .generate r => some r

end Command

def Request.ofTexts? (texts : List Text) : Option Request := (Command.ofTexts? texts).bind (·.request?)

/-! ## Checks -/

namespace Place

def isReadable (kind : Text → Except FileError Kind) : Place → Bool
  | .standard => true
  | .path s => kind s matches .ok .file

/-- A file, or a name that is not taken in a directory. -/
def isWritable (kind : Text → Except FileError Kind) : Place → Bool
  | .standard => true
  | .path s =>
    match kind s with
    | .ok found => found = .file
    | .error e =>
      e = .missing && !Path.endsInSlash s && (Path.parent? s).any (kind · matches .ok .directory)

end Place

namespace Places

/-- The paths whose kinds decide whether the places can be used. -/
def paths (p : Places) : List Text :=
  p.input.toList.map Place.text ++ p.targets.flatMap fun t => t.text :: (Path.parent? t.text).toList

def isUsable (kind : Text → Except FileError Kind) (p : Places) : Bool :=
  p.input.all (·.isReadable kind) && p.targets.all (·.isWritable kind)

end Places

end RegisterMap.Tool
