import ComputeKernel.Callable.Prototype
import ComputeKernel.Code.Spelling

namespace ComputeKernel

inductive Initial where
  | copy (value : Spelling)
  | unary (op : Op) (operand : Spelling)
  | binary (op : Op) (lhs rhs : Spelling)
  | call (callee : Prototype) (args : List Spelling) (text : String)
  | zero

def Initial.text (ty : Ty) : Initial → String
  | .copy value => value.text
  | .unary op operand => op.symbol ++ operand.text
  | .binary op lhs rhs => lhs.text ++ op.symbol ++ rhs.text
  | .call _ _ text => text
  | .zero => "(" ++ ty.name ++ ")0"

inductive HitStage where
  | candidate
  | committed
deriving DecidableEq, Repr

def HitStage.word : HitStage → String
  | .candidate => "Candidate"
  | .committed => "Committed"

def HitStage.distance : HitStage → String
  | .candidate => "CandidateTriangleRayT"
  | .committed => "CommittedRayT"

inductive Line where
  | declare (ty : Ty) (target : Spelling) (value : Initial)
  | reserve (ty : Ty) (target : Spelling)
  | assign (target : Spelling) (op : Op) (value : Spelling)
  | perform (callee : Prototype) (args : List Spelling) (text : String)
  | array (elem : Ty) (target : Spelling) (length : UInt32) (init : List String)
  | ballot (mask : Spelling) (taken : Bool) (cond current : Spelling)
  | openIf (cond : Spelling)
  | openElse
  | openMask (mask : Spelling)
  | openElseMask (mask : Spelling)
  | openFor (counter first last : Spelling)
  | openWhile
  | openSwitch (value : Spelling)
  | openCase (label : UInt32)
  | closeCase
  | close
  | breakLoop
  | continueLoop
  | returnVoid
  | returnValue (value : Spelling)
  | barrier
  | openFunction (callee : Prototype) (header : String)
  | declareQuery (name : String)
  | trace (query : String) (scene ray : Spelling)
  | openQueryLoop (query : String)
  | openCandidate (query : String)
  | commit (cond : Spelling) (query : String)
  | openCommitted (query : String)
  | readHit (hit : Spelling) (query : String) (stage : HitStage)
  | verbatim (text : String)

namespace Line

def hitText (hit query : String) (stage : HitStage) : String :=
  hit ++ ".hit = true;\n"
    ++ hit ++ ".bary = " ++ query ++ "." ++ stage.word ++ "TriangleBarycentrics();\n"
    ++ hit ++ ".ray_t = " ++ query ++ "." ++ stage.distance ++ "();\n"
    ++ hit ++ ".instance_id = " ++ query ++ "." ++ stage.word ++ "InstanceID();\n"
    ++ hit ++ ".primitive_idx = " ++ query ++ "." ++ stage.word ++ "PrimitiveIndex();\n"

def arrayText (elem : Ty) (target : Spelling) (length : UInt32) (init : List String) : String :=
  elem.name ++ " " ++ target.text ++ "[" ++ toString length.toNat ++ "]"
    ++ (if init.isEmpty then ";\n"
        else " = \x7b\n" ++ String.join (init.map (· ++ ",\n")) ++ "\x7d;\n")

def text : Line → String
  | .declare ty target value => ty.name ++ " " ++ target.text ++ " = " ++ value.text ty ++ ";\n"
  | .reserve ty target => ty.name ++ " " ++ target.text ++ ";\n"
  | .assign target op value => target.text ++ " " ++ op.symbol ++ " " ++ value.text ++ ";\n"
  | .perform _ _ text => text ++ ";\n"
  | .array elem target length init => arrayText elem target length init
  | .ballot mask taken cond current =>
    mask.text ++ " = (" ++ (if taken then "" else "~") ++ "WaveActiveBallot(" ++ cond.text
      ++ ").x) & " ++ current.text ++ ";\n"
  | .openIf cond => "if (" ++ cond.text ++ ") \x7b\n"
  | .openElse => "\x7d else \x7b\n"
  | .openMask mask => "if (" ++ mask.text ++ " != u32(0)) \x7b\n"
  | .openElseMask mask => "\x7d else if (" ++ mask.text ++ " != u32(0)) \x7b\n"
  | .openFor counter first last =>
    let i := counter.text
    "for (" ++ i ++ " = " ++ first.text ++ "; " ++ i ++ " <= " ++ last.text ++ "; " ++ i
      ++ "++) \x7b\n"
  | .openWhile => "while (true) \x7b\n"
  | .openSwitch value => "switch (" ++ value.text ++ ") \x7b\n"
  | .openCase label => "case " ++ toString label.toNat ++ ": \x7b\n"
  | .closeCase => "break; \x7d\n"
  | .close => "\x7d\n"
  | .breakLoop => "break;\n"
  | .continueLoop => "continue;\n"
  | .returnVoid => "return;\n"
  | .returnValue value => "return " ++ value.text ++ ";\n"
  | .barrier => "GroupMemoryBarrierWithGroupSync();\n"
  | .openFunction _ header => header ++ "\n\x7b\n"
  | .declareQuery name => "RayQuery<RAY_FLAG_NONE> " ++ name ++ ";\n"
  | .trace query scene ray =>
    query ++ ".TraceRayInline(" ++ scene.text ++ ", RAY_FLAG_NONE, 0xffu, " ++ ray.text ++ ");\n"
  | .openQueryLoop query => "while (" ++ query ++ ".Proceed()) \x7b\n"
  | .openCandidate query =>
    "if (" ++ query ++ ".CandidateType() == CANDIDATE_NON_OPAQUE_TRIANGLE) \x7b\n"
  | .commit cond query =>
    "if (" ++ cond.text ++ ") \x7b " ++ query ++ ".CommitNonOpaqueTriangleHit(); \x7d\n"
  | .openCommitted query => "if (" ++ query ++ ".CommittedStatus() != COMMITTED_NOTHING) \x7b\n"
  | .readHit hit query stage => hitText hit.text query stage
  | .verbatim text => text

def textOf (lines : List Line) : String :=
  String.join (lines.map text)

end Line

end ComputeKernel
