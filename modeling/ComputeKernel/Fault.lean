import ComputeKernel.Number.Binary32
import ComputeKernel.Operator
import ComputeKernel.Report
import ComputeKernel.Ty.Equality

namespace ComputeKernel

inductive OperatorFault where
  | singleOperand
  | twoOperands
  | undefined (operand : Ty)
  | assignment (source target : Ty)
  | integers (lhs rhs : Ty)
  | bools (lhs rhs : Ty)
  | comparison (lhs rhs : Ty)
  | arithmetic (lhs rhs : Ty)
  | mismatch (lhs rhs : Ty)
deriving DecidableEq

def OperatorFault.message : OperatorFault → String
  | .singleOperand => "takes a single operand"
  | .twoOperands => "needs two operands"
  | .undefined ty => "not defined for " ++ ty.name
  | .assignment source target => "cannot assign " ++ source.name ++ " to " ++ target.name
  | .integers l r => "needs equal integer operands, got " ++ l.name ++ " and " ++ r.name
  | .bools l r => "needs equal bool operands, got " ++ l.name ++ " and " ++ r.name
  | .comparison l r => "cannot compare " ++ l.name ++ " with " ++ r.name
  | .arithmetic l r => "no arithmetic between " ++ l.name ++ " and " ++ r.name
  | .mismatch l r => "mismatched operands " ++ l.name ++ " and " ++ r.name

inductive Fault where
  -- types
  | unregistered (kind : Kind) (rows cols : Nat)
  | notMatrix (kind : Kind) (rows cols : Nat)
  | notNumeric (kind : Kind) (rows cols : Ty)
  | noVectorFamily (ty : Ty)
  -- literals
  | unspellable (value : Binary32)
  | noZero (ty : Ty)
  -- nodes
  | emptyArray
  | arrayCount (length values : Nat)
  | arrayElement (elem value : Ty)
  | swizzleShape (lanes : String) (base : Ty)
  | swizzleLetter (letter : Char) (lanes : String)
  | swizzleWidth (lanes : String) (base : Ty)
  -- typing
  | operator (op : Op) (cause : OperatorFault)
  | notSwizzlable (base : Ty)
  | notStruct (field : String) (base : Ty)
  | noField (base : Ty) (field : String)
  | indexType (index : Ty)
  | notIndexable (base : Ty)
  | notZeroable (ty : Ty)
  | selectCondition (cond : Ty)
  | selectBranches (then_ else_ : Ty)
  -- callables
  | arity (callee : String) (expected given : Nat)
  | parameter (callee param : String) (expected given : Ty)
  | builtinArity (callee : String) (expected given : Nat)
  | builtinArguments (callee expected : String) (given : List Ty)
  | missingArgument (callee : String) (index : Nat)
  | notSplattable (callee : String) (ty : Ty)
  | noFixedReturn (callee : String)
  | custom (message : String)
  -- the body being written
  | noOpenFunction
  | functionLeftScope
  | scopeUnderflow
  | breakUnderflow
  | breakInSwitch (what : String)
  | breakOutsideLoop (what : String)
  | continueOutsideLoop
  | maskUnderflow
  | noMask
  | emptyAxis (x y z : UInt32)
  | partialWave (x y z : UInt32) (threads : Nat)
  -- tables
  | structConflict (name : String)
  | resourceConflict (name : String) (existing given : Ty)
  | sharedConflict (name : String) (existing given : Ty)
  | notResource (name : String) (shape : Ty)
  | unsupportedShape (name : String) (shape : Ty)
  | constantArray (name : String)
  -- the finished text
  | functionOpen
  | scopesOpen (count : Nat)
  -- building
  | unknownFunction (name : String)
  | emptyStaticArray
  | branchCondition (cond : Ty)
  | loopBounds (first last : Ty)
  | switchValue (ty : Ty)
  | wrongReturn (callee : String) (declared given : Ty)
  | missingReturn (callee : String) (declared : Ty)
deriving DecidableEq

namespace Fault

def quoted (s : String) : String := "`" ++ s ++ "`"

def group (x y z : UInt32) : String :=
  "group size (" ++ toString x.toNat ++ ", " ++ toString y.toNat ++ ", " ++ toString z.toNat ++ ")"

def message : Fault → String
  | .unregistered kind rows cols =>
    "unregistered type: " ++ kind.name ++ " with " ++ toString rows ++ " rows and "
      ++ toString cols ++ " columns"
  | .notMatrix kind rows cols =>
    "unregistered type: " ++ kind.name ++ "x" ++ toString rows ++ "x" ++ toString cols
      ++ " is not a matrix"
  | .notNumeric kind rows cols =>
    "unregistered type: " ++ kind.name ++ " family over non-numeric dimensions " ++ rows.name
      ++ " and " ++ cols.name
  | .noVectorFamily ty => "unregistered type: " ++ ty.name ++ " has no vector family"
  | .unspellable value => "float literal " ++ value.nonFiniteName ++ " has no HLSL spelling"
  | .noZero ty => "no zero literal for " ++ ty.name
  | .emptyArray => "local arrays need at least one element"
  | .arrayCount length values =>
    "array of " ++ toString length ++ " initialised with " ++ toString values ++ " values"
  | .arrayElement elem value => "array of " ++ elem.name ++ " initialised with " ++ value.name
  | .swizzleShape lanes base => "invalid swizzle " ++ quoted ("." ++ lanes) ++ " on " ++ base.name
  | .swizzleLetter letter lanes =>
    "invalid swizzle letter " ++ quoted letter.toString ++ " in " ++ quoted ("." ++ lanes)
  | .swizzleWidth lanes base =>
    "swizzle " ++ quoted ("." ++ lanes) ++ " reads past the width of " ++ base.name
  | .operator op cause => "operator " ++ quoted op.symbol ++ ": " ++ cause.message
  | .notSwizzlable base => "cannot swizzle " ++ base.name
  | .notStruct field base => "field " ++ quoted field ++ " accessed on non-struct " ++ base.name
  | .noField base field => base.name ++ " has no field " ++ quoted field
  | .indexType index => "index must be an integer, got " ++ index.name
  | .notIndexable base => "cannot index into " ++ base.name
  | .notZeroable ty => "cannot zero-initialise " ++ ty.name
  | .selectCondition cond => "select condition must be bool, got " ++ cond.name
  | .selectBranches a b => "select branches disagree: " ++ a.name ++ " vs " ++ b.name
  | .arity callee expected given =>
    quoted callee ++ " expects " ++ toString expected ++ " arguments, got " ++ toString given
  | .parameter callee param expected given =>
    quoted callee ++ " parameter " ++ quoted param ++ " expects " ++ expected.name ++ ", got "
      ++ given.name
  | .builtinArity callee expected given =>
    quoted callee ++ ": expects " ++ toString expected ++ " arguments, got " ++ toString given
  | .builtinArguments callee expected given =>
    quoted callee ++ ": expected " ++ expected ++ ", got (" ++ ", ".intercalate (given.map Ty.name)
      ++ ")"
  | .missingArgument callee index => quoted callee ++ ": missing argument " ++ toString index
  | .notSplattable callee ty => quoted callee ++ ": cannot splat " ++ ty.name
  | .noFixedReturn callee => quoted callee ++ " has no fixed return type to define"
  | .custom message => message
  | .noOpenFunction => "exit_function without a matching enter_function"
  | .functionLeftScope => "function body left a scope open"
  | .scopeUnderflow => "scope stack underflow"
  | .breakUnderflow => "break target stack underflow"
  | .breakInSwitch what => quoted what ++ " inside a switch case would not leave the loop"
  | .breakOutsideLoop what => quoted what ++ " outside of a loop"
  | .continueOutsideLoop => "`continue` outside of a loop"
  | .maskUnderflow => "lane mask stack underflow"
  | .noMask => "no lane mask: wave32 mode is not enabled"
  | .emptyAxis x y z => group x y z ++ " has an empty axis"
  | .partialWave x y z threads =>
    group x y z ++ " is " ++ toString threads ++ " threads, not a multiple of 32"
  | .structConflict name => "conflicting definitions of struct " ++ quoted name
  | .resourceConflict name existing given =>
    "resource " ++ quoted name ++ " registered twice with different shapes (" ++ existing.name
      ++ " vs " ++ given.name ++ ")"
  | .sharedConflict name existing given =>
    "shared memory " ++ quoted name ++ " redeclared as " ++ given.name ++ " (was " ++ existing.name
      ++ ")"
  | .notResource name shape => quoted name ++ " is not a resource (" ++ shape.name ++ ")"
  | .unsupportedShape name shape =>
    "unsupported resource shape " ++ shape.name ++ " for " ++ quoted name
  | .constantArray name => "arrays of constants are not supported (" ++ quoted name ++ ")"
  | .functionOpen => "a function definition is still open"
  | .scopesOpen count => toString count ++ " scope(s) still open at finalize"
  | .unknownFunction name => "unknown function " ++ quoted name
  | .emptyStaticArray => "static array needs at least one value"
  | .branchCondition cond => "branch condition must be bool, got " ++ cond.name
  | .loopBounds first last =>
    "loop bounds must be matching integers, got " ++ first.name ++ " and " ++ last.name
  | .switchValue ty => "switch value must be an integer scalar, got " ++ ty.name
  | .wrongReturn callee declared given =>
    quoted callee ++ " returns " ++ declared.name ++ ", body produced " ++ given.name
  | .missingReturn callee declared => quoted callee ++ " must return " ++ declared.name

def report (fault : Fault) : Report :=
  let base : Report := { message := fault.message }
  match fault with
  | .partialWave .. => base.withNote "groups are dispatched in whole 32-lane waves"
  | .breakInSwitch _ =>
    base.withHelp "restructure the loop so the switch sets a flag and break after it"
  | _ => base

end Fault

inductive Overflow where
  | multiply
  | add
deriving DecidableEq, Repr

def Overflow.message : Overflow → String
  | .multiply => "attempt to multiply with overflow"
  | .add => "attempt to add with overflow"

inductive Failure where
  | fault (fault : Fault)
  | overflow (overflow : Overflow)
deriving DecidableEq

abbrev Described (α : Type) := Except Fault α

end ComputeKernel
