import ComputeKernel.Ty.Registry

namespace ComputeKernel.Prologue

def nativeKind? : Kind → Option String
  | .f16 => some "half"
  | .f32 => some "float"
  | .i32 => some "int"
  | .u32 | .u8 => some "uint"
  | .bool => none

def nativeName? (ty : Ty) : Option String :=
  match ty with
  | .value kind rows cols =>
    (nativeKind? kind).map fun base =>
      if cols = 1 then
        if rows = 1 then base else base ++ toString rows
      else base ++ toString rows ++ "x" ++ toString cols
  | _ => none

def typeDefinitions : List String :=
  Ty.valueTable.filterMap fun ty =>
    (nativeName? ty).map fun spelled => "#define " ++ ty.name ++ " " ++ spelled

def measured : List Ty :=
  [.texture .void .d1, .rwTexture .void .d1, .texture .void .d2, .rwTexture .void .d2,
    .texture .void .d3, .rwTexture .void .d3, .texture .void .d2Array]

def extentHelper (texture : Ty) : String :=
  let count := (texture.dim?.elim 0 Dim.coordinates)
  let result := (Ty.value .u32 count 1).name
  let parts := if count = 1 then "d" else ", ".intercalate (["d.x", "d.y", "d.z"].take count)
  "template <typename T> " ++ result ++ " __get_dimensions(" ++ texture.name ++ "<T> t) \x7b "
    ++ result ++ " d; t.GetDimensions(" ++ parts ++ "); return d; \x7d"

def laneBit : List String :=
  ["u32 __get_lane_bit() \x7b return 1u << WaveGetLaneIndex(); \x7d"]

def structDefinition (ty : Ty) : List String :=
  ["struct " ++ ty.name ++ " \x7b"]
    ++ ty.fields.map (fun (name, field) => "    " ++ field.declare name ++ ";")
    ++ ["\x7d;"]

def anyHit : List String :=
  ["bool __anyhit(RaytracingAccelerationStructure tlas, RayDesc ray) \x7b",
    "    RayQuery<RAY_FLAG_CULL_NON_OPAQUE | RAY_FLAG_ACCEPT_FIRST_HIT_AND_END_SEARCH> q;",
    "    q.TraceRayInline(tlas, RAY_FLAG_NONE, 0xff, ray);",
    "    q.Proceed();",
    "    return q.CommittedStatus() == COMMITTED_TRIANGLE_HIT;",
    "\x7d"]

def closestHit : List String :=
  ["RayQueryWrapper __ray_query(RaytracingAccelerationStructure tlas, RayDesc ray) \x7b",
    "    RayQuery<RAY_FLAG_CULL_NON_OPAQUE> q;",
    "    q.TraceRayInline(tlas, RAY_FLAG_NONE, 0xff, ray);",
    "    q.Proceed();",
    "    RayQueryWrapper r = (RayQueryWrapper)0;",
    "    if (q.CommittedStatus() == COMMITTED_TRIANGLE_HIT) \x7b",
    "        r.hit = true;",
    "        r.ray_t = q.CommittedRayT();",
    "        r.bary = q.CommittedTriangleBarycentrics();",
    "        r.primitive_idx = q.CommittedPrimitiveIndex();",
    "        r.instance_id = q.CommittedInstanceID();",
    "    \x7d",
    "    return r;",
    "\x7d"]

def interpolation : List String :=
  ["template <typename T> T __interpolate(T a, T b, T c, f32x2 bary) \x7b",
    "    return a * (1.0 - bary.x - bary.y) + b * bary.x + c * bary.y;",
    "\x7d"]

def tangentFrame : List String :=
  ["f32x3x3 __get_tbn(f32x3 n) \x7b",
    "    f32x3 up = abs(n.z) < 0.999 ? f32x3(0.0, 0.0, 1.0) : f32x3(1.0, 0.0, 0.0);",
    "    f32x3 t = normalize(cross(up, n));",
    "    f32x3 b = cross(n, t);",
    "    return f32x3x3(t, b, n);",
    "\x7d"]

def groups : List (List String) :=
  [measured.map extentHelper, laneBit, structDefinition .rayQueryResult, anyHit, closestHit,
    interpolation, tangentFrame]

def text : String :=
  String.join ((typeDefinitions ++ [""] ++ groups.flatMap (· ++ [""])).map (· ++ "\n"))

end ComputeKernel.Prologue
