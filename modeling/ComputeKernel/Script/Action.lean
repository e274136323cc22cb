import ComputeKernel.Build.Snippets

namespace ComputeKernel.Script

inductive Ref where
  | value (name : String)
  | constant (l : Literal)

inductive Snippet where
  | packHalves
  | unpackHalves
  | luminance
  | encodeOctahedral
  | decodeOctahedral
  | encodeOctahedralBytes
  | decodeOctahedralBytes

inductive ValueAction where
  | constant (l : Literal)
  | variableOf (o : Ref)
  | zero (ty : Described Ty)
  | zeroed (ty : Described Ty)
  | input (i : Described Input)
  | resource (res : Described Resource)
  | apply (b : Described Builtin) (values : List String) (operands : List Ref)
  | select (cond : String) (yes no : Ref)
  | sharedStorage (name : String) (ty : Described Ty) (count : UInt32)
  | arrayOf (values : List Literal)
  | localArray (elem : Described Ty) (length : UInt32)
  | callNamed (name : String) (args : List String)
  | call (callee : Described Prototype) (args : List String)
  | currentMask
  | binarySearch (buffer count key : String)
  | snippet (snippet : Snippet) (value : String)
  | negate (value : String)
  | complement (value : String)
  | binary (op : Op) (lhs rhs : Ref)
  | named (value name : String)
  | swizzle (value lanes : String)
  | element (value : String) (index : UInt32)
  | elementAt (value : String) (index : Ref)
  | field (value name : String)
  | part (value name : String)
  | setPart (value name : String) (o : Ref)
  | load (value : String) (index : Ref)

inductive TryAction where
  | swizzle (value lanes : String)
  | field (value name : String)
  | callNamed (name : String) (args : List String)

inductive Command where
  | update (op : Op) (target : String) (o : Ref)
  | store (target : String) (index value : Ref)
  | write (target index value : String)
  | breakLoop
  | continueLoop
  | returnVoid
  | returnValue (value : String)
  | groupSync
  | writeHeader (text : String)
  | enableWave32

inductive Query where
  | setGroupSize (size : GroupSize)
  | register (callee : Described Prototype)
  | builtin (b : Described Builtin)
  | function (name : String)
  | divergence (value : String)
  | describe (value : String)
  | region
  | warnings
  | text

inductive Action where
  | value (action : ValueAction)
  | attempt (action : TryAction)
  | command (command : Command)
  | query (query : Query)

end ComputeKernel.Script
