import RegisterMap.Finding
import RegisterMap.Header.Model
import RegisterMap.Layout.Print
import RegisterMap.Markup
import RegisterMap.Text.Quoted
import RegisterMap.Tool.Request

/-!
# Scripts

What a run does once its input is read: a list of steps, carried out in order
until one fails.
-/

namespace RegisterMap.Tool

inductive Artifact where
  | model
  | header
  deriving DecidableEq, Repr

inductive Step where
  | log (r : LogRecord)
  | write (artifact : Artifact) (target : Place) (text : Text)
  | fail (r : LogRecord)

def record (level : Level) (message : Text) : LogRecord := ⟨level, "structgen".toList, message⟩

def encode (s : Text) : ByteArray := (String.ofList s).toUTF8

def decode? (bytes : ByteArray) : Option Text := (String.fromUTF8? bytes).map String.toList

/-! ## Failures -/

def Request.unreadable (r : Request) (reason : Text) : LogRecord :=
  record .error ("Cannot read ".toList ++ r.input.text.quoted ++ ": ".toList ++ reason)

def Artifact.unwritable (a : Artifact) (reason : Text) : LogRecord :=
  record .error <| match a with
    | .model => "Cannot dump the register model: ".toList ++ reason
    | .header => "Cannot write the generated header: ".toList ++ reason

/-- What could not be written in full could not be removed either. -/
def unremovable (path reason : Text) : LogRecord :=
  record .warn ("Cannot remove partial output ".toList ++ path ++ ": ".toList ++ reason)

def invalidText : Text := "stream did not contain valid UTF-8".toList

/-! ## Stages -/

namespace Request

def reading (r : Request) (text : Text) : Header.Reading :=
  Header.read text r.name r.description r.macroPrefix

def readSteps (r : Request) (reading : Header.Reading) : List Step :=
  reading.notices.map (.log ·.log) ++
    [.log <| record .info <| Text.decimal reading.peripheral.registers.length ++
      " register(s) extracted from ".toList ++ r.input.text.quoted]

def lintSteps (r : Request) (p : Peripheral) : List Step :=
  if r.lint then p.findings.map (.log <| record .warn ·.message) else []

def modelSteps (r : Request) (p : Peripheral) : List Step :=
  r.model.toList.map (.write .model · p.markup)

def headerSteps (r : Request) (p : Peripheral) : List Step :=
  p.plan.coalescences.map (.log ·.log) ++
    [match p.layout with
      | .ok layout => .write .header r.output (layout.header r.input.text.quoted)
      | .error e => .fail (record .error e.message)]

/-- The steps for a text; an input that is not UTF-8 is none. -/
def script (r : Request) (input : Option Text) : List Step :=
  match input with
  | none => [.fail (r.unreadable invalidText)]
  | some text =>
    let reading := r.reading text
    r.readSteps reading ++ r.lintSteps reading.peripheral ++ r.modelSteps reading.peripheral ++
      r.headerSteps reading.peripheral

def steps (r : Request) : Except FileError ByteArray → List Step
  | .ok bytes => r.script (decode? bytes)
  | .error e => [.fail (r.unreadable e.message)]

end Request

end RegisterMap.Tool
