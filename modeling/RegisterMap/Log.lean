import RegisterMap.Text.Blank

/-!
# Log records

What is reported while a peripheral is read and laid out, and which of it is
shown.
-/

namespace RegisterMap

inductive Level where
  | error
  | warn
  | info
  | debug
  deriving DecidableEq, Repr

namespace Level

def name : Level → Text
  | error => "ERROR".toList
  | warn => "WARN".toList
  | info => "INFO".toList
  | debug => "DEBUG".toList

def detail : Level → Nat
  | error => 1
  | warn => 2
  | info => 3
  | debug => 4

end Level

structure LogRecord where
  level : Level
  component : Text
  message : Text
  deriving DecidableEq, Repr

def LogRecord.text (r : LogRecord) : Text :=
  r.level.name ++ ' ' :: r.component ++ ": ".toList ++ r.message

/-- Which records are shown. -/
abbrev LogFilter := LogRecord → Bool

namespace LogFilter

/-- The records of all components up to a level, from none at 0 to all at 5. -/
def upTo (detail : Nat) : LogFilter := (·.level.detail ≤ detail)

structure Directive where
  component : Text
  detail : Nat
  deriving DecidableEq, Repr

def detail? (level : Text) : Option Nat :=
  [("off".toList, 0), ("error".toList, 1), ("warn".toList, 2), ("info".toList, 3), ("debug".toList, 4),
    ("trace".toList, 5)].lookup (Text.lowercase level)

/-- `level` is about all components, `component` about all records of one;
`component=level` says both. -/
def Directive.ofText? (s : Text) : Option Directive :=
  match s.splitOn '=' with
  | [name] => some (((detail? name).map (⟨[], ·⟩)).getD ⟨name, 5⟩)
  | [name, level] =>
    let level := Text.trim level
    if level = [] then some ⟨name, 5⟩ else (detail? level).map (⟨name, ·⟩)
  | _ => none

def longest? (directives : List Directive) : Option Directive :=
  directives.foldl
    (fun best d => if best.all (·.component.length ≤ d.component.length) then some d else best) none

/-- The longest name decides. Without any directives, errors are shown. -/
def ofDirectives (directives : List Directive) : LogFilter := fun r =>
  let inForce := if directives = [] then [⟨[], 1⟩] else directives
  (longest? (inForce.filter (·.component.isPrefixOf r.component))).any (r.level.detail ≤ ·.detail)

/-- Directives between commas. A pattern for messages, behind a slash, is not looked at.
Warnings are shown unless something else is asked for. -/
def ofText : Option Text → LogFilter
  | none => upTo 2
  | some s =>
    let listed := (s.takeWhile (· ≠ '/')).splitOn ','
    ofDirectives ((listed.map Text.trim).filter (· ≠ []) |>.filterMap Directive.ofText?)

end LogFilter

end RegisterMap
