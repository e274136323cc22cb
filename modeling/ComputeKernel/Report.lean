namespace ComputeKernel

inductive Severity where
  | error
  | warning
deriving DecidableEq, Repr

def Severity.label : Severity → String
  | .error => "error"
  | .warning => "warning"

structure Report where
  severity : Severity := .error
  message : String
  notes : List String := []
  help : Option String := none
deriving DecidableEq, Repr

namespace Report

def withNote (r : Report) (note : String) : Report :=
  { r with notes := r.notes ++ [note] }

def withHelp (r : Report) (help : String) : Report :=
  { r with help := some help }

def text (r : Report) : String :=
  r.severity.label ++ ": " ++ r.message
    ++ String.join (r.notes.map ("\n  note: " ++ ·))
    ++ (r.help.elim "" ("\n  help: " ++ ·))

end Report

structure Span where
  start : Nat
  stop : Nat
deriving DecidableEq, Repr

namespace Span

def none : Span := ⟨0, 0⟩

def isNone (s : Span) : Bool := s.start == 0 && s.stop == 0

def byteCount : List Char → Nat
  | [] => 0
  | c :: rest => c.utf8Size + byteCount rest

def lastLine (text : String) : Span :=
  let trimmed := (text.toList.reverse.dropWhile (· == '\n'))
  let line := trimmed.takeWhile (· != '\n')
  ⟨byteCount (trimmed.drop line.length), byteCount trimmed⟩

end Span

end ComputeKernel
