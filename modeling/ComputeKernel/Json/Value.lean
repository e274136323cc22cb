namespace ComputeKernel

inductive Json where
  | null
  | bool (b : Bool)
  | number (mantissa : Int) (places : Nat)
  | string (s : String)
  | array (items : List Json)
  | object (members : List (String × Json))

namespace Json

def ofWord (n : UInt32) : Json := .number n.toNat 0

def ofOption {α : Type} (write : α → Json) : Option α → Json
  | none => .null
  | some a => write a

def bool? : Json → Option Bool
  | .bool b => some b
  | _ => none

def string? : Json → Option String
  | .string s => some s
  | _ => none

def char? : Json → Option Char
  | .string s =>
    match s.toList with
    | [c] => some c
    | _ => none
  | _ => none

def word? : Json → Option UInt32
  | .number (.ofNat n) 0 => if n < UInt32.size then some n.toUInt32 else none
  | _ => none

def option? {α : Type} (read : Json → Option α) : Json → Option (Option α)
  | .null => some none
  | j => (read j).map some

def list? {α : Type} (read : Json → Option α) : Json → Option (List α)
  | .array items => items.mapM read
  | _ => none

def choice? : Json → Option (String × Option Json)
  | .string tag => some (tag, none)
  | .object [(tag, content)] => some (tag, some content)
  | _ => none

def tag? (j : Json) : Option String :=
  match j.choice? with
  | some (tag, none) | some (tag, some .null) => some tag
  | _ => none

def record? (fields : List String) : Json → Option (List (Option Json))
  | .object members => some (fields.map fun f => members.lookup f)
  | .array items => if items.length = fields.length then some (items.map some) else none
  | _ => none

def required? {α : Type} (read : Json → Option α) (field : Option Json) : Option α :=
  field.bind read

def optional? {α : Type} (read : Json → Option α) (field : Option Json) : Option (Option α) :=
  option? read (field.getD .null)

end Json

end ComputeKernel
