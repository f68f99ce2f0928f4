import VisualProgram.Document
import VisualProgram.Options

/-!
# Texts from files

A source is a file that was looked for: its text, or why it could not be read.
-/

namespace VisualProgram

structure Source where
  path : String
  contents : Except String String

namespace Source

def notFound : String := "No such file or directory (os error 2)"

def notText : String := "stream did not contain valid UTF-8"

def missing (path : String) : Source := ⟨path, .error notFound⟩

/-- the text of a file; its bytes must be UTF-8 -/
def ofBytes (path : String) (bytes : ByteArray) : Source :=
  match String.fromUTF8? bytes with
  | some text => ⟨path, .ok text⟩
  | none => ⟨path, .error notText⟩

def load {α : Type} (s : Source) (read : String → Except LoadError α) : Except LoadError α :=
  match s.contents with
  | .ok text => read text
  | .error reason => .error (.unreadable s.path reason)

def options (s : Source) : Except LoadError Options := s.load Options.ofText

def document (s : Source) : Except LoadError Document := s.load Document.ofText

end Source

end VisualProgram
