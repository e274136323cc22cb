import ComputeKernel.Settings
import ComputeKernel.Text

/-!
Settings written as text.

    [kernel]
    name = "blur"
    group_size = [16, 8, 1]

Of several assignments of a key the last stays.
-/

namespace ComputeKernel

namespace Settings

inductive Key where
  | name
  | groupSize
  | wave32
  | bindlessBase
  | emitResources
deriving DecidableEq, Repr

namespace Key

def word : Key → String
  | .name => "name"
  | .groupSize => "group_size"
  | .wave32 => "wave32"
  | .bindlessBase => "bindless_space_base"
  | .emitResources => "emit_resources"

def all : List Key := [.name, .groupSize, .wave32, .bindlessBase, .emitResources]

def ofChars? (cs : List Char) : Option Key := all.find? (·.word.toList == cs)

end Key

inductive TextFault where
  | malformed (line : List Char)
  | invalid (key : Key) (value : List Char)
  | emptyName
deriving DecidableEq, Repr

def TextFault.message : TextFault → String
  | .malformed line => "expected `key = value`, got '" ++ String.ofList line ++ "'"
  | .invalid key value => "invalid kernel." ++ key.word ++ ": " ++ String.ofList value
  | .emptyName => "kernel.name must not be empty"

inductive TextLine where
  | blank
  | heading (title : List Char)
  | assignment (key value : List Char)
  | malformed (line : List Char)
deriving DecidableEq, Repr

def heading? (line : List Char) : Option (List Char) :=
  match line with
  | '[' :: rest => if rest.getLast? = some ']' then some (Text.trim rest.dropLast) else none
  | _ => none

def assignment? (line : List Char) : Option (List Char × List Char) :=
  match line.dropWhile (· != '=') with
  | [] => none
  | _ :: value => some (Text.trim (line.takeWhile (· != '=')), Text.trim value)

def TextLine.ofChars (cs : List Char) : TextLine :=
  let line := Text.trim cs
  if line.isEmpty || line.head? = some '#' then .blank
  else
    match heading? line with
    | some title => .heading title
    | none =>
      match assignment? line with
      | some (key, value) => .assignment key value
      | none => .malformed line

def bool? (cs : List Char) : Option Bool :=
  if cs = "true".toList then some true
  else if cs = "false".toList then some false
  else none

def digits? (cs : List Char) : Option Nat :=
  if !cs.isEmpty && cs.all Char.isDigit then
    some (cs.foldl (fun n c => n * 10 + (c.toNat - '0'.toNat)) 0)
  else none

def word? (cs : List Char) : Option UInt32 := do
  let n ← digits? (if cs.head? = some '+' then cs.tail else cs)
  if n < UInt32.size then some n.toUInt32 else none

def groupSize? (cs : List Char) : Option GroupSize :=
  match cs with
  | '[' :: rest =>
    if rest.getLast? = some ']' then
      match (Text.splitAt ',' rest.dropLast).map fun piece => word? (Text.trim piece) with
      | [some x, some y, some z] => some ⟨x, y, z⟩
      | _ => none
    else none
  | _ => none

def assign? (s : Settings) (key : Key) (value : List Char) : Option Settings :=
  match key with
  | .name => some { s with name := String.ofList (Text.stripWhere (· == '"') value) }
  | .groupSize => (groupSize? value).map fun size => { s with groupSize := size }
  | .wave32 => (bool? value).map fun b => { s with wave32 := b }
  | .bindlessBase => (word? value).map fun n => { s with bindlessBase := n }
  | .emitResources => (bool? value).map fun b => { s with emitResources := b }

structure Reading where
  settings : Settings := .default
  title : List Char := []
deriving DecidableEq

def Reading.line (r : Reading) : TextLine → Except TextFault Reading
  | .blank => .ok r
  | .heading title => .ok { r with title }
  | .malformed line => .error (.malformed line)
  | .assignment key value =>
    if r.title = "kernel".toList then
      match Key.ofChars? key with
      | none => .ok r
      | some k =>
        match assign? r.settings k value with
        | some settings => .ok { r with settings }
        | none => .error (.invalid k value)
    else .ok r

def Reading.lines (r : Reading) : List TextLine → Except TextFault Reading
  | [] => .ok r
  | line :: rest => do
    let r ← r.line line
    r.lines rest

def ofText (text : String) : Except TextFault Settings := do
  let r ← ({} : Reading).lines ((Text.lines text.toList).map TextLine.ofChars)
  if r.settings.name.isEmpty then .error .emptyName else .ok r.settings

end Settings

end ComputeKernel
