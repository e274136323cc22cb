import ComputeKernel.Build.Control
import ComputeKernel.Build.Recipe
import ComputeKernel.Build.Snippets

namespace ComputeKernel.Catalog

open Build

def eighthTurn : Binary32 := 0.785398163397448

def occlusionRadius : Binary32 := 1.0

def ambientOcclusion : Recipe where
  name := "ao"
  description := "ray-traced ambient occlusion, wave32 lowering"
  adapt settings := { settings with wave32 := true }
  body := do
    let positions ← resource (.texture2D "g_position" .f32x4)
    let normals ← resource (.texture2D "g_normal" .f32x4)
    let scene ← resource (.tlas "g_tlas")
    let output ← resource (.rwTexture2D "g_ao" .f32)
    let pixel ← swizzle (← input .threadId) "xy"
    let raw ← swizzle (← read normals pixel) "xyz"
    let visible ← binary .gt (← apply .length [raw]) (Literal.f32 [0.0])
    ifElse visible
      (do
        let origin ← swizzle (← read positions pixel) "xyz"
        let normal ← apply (.math .normalize) [raw]
        let frame ← apply .getTbn [normal]
        let hits ← copy (← zero .u32)
        forRange (Literal.u32 [0]) (Literal.u32 [7]) fun i => do
          let angle ← binary .mul (← apply (.convert .f32) [i]) (Literal.f32 [eighthTurn])
          let x ← binary .mul (← apply (.math .cos) [angle]) (Literal.f32 [0.5])
          let y ← binary .mul (← apply (.math .sin) [angle]) (Literal.f32 [0.5])
          let z ← constant (.f32 [0.707])
          let direction ← apply (.construct .f32x3) [x, y, z]
          let ray ← zeroed .rayDesc
          let start ← binary .add origin (← binary .mul normal (Literal.f32 [1.0e-3]))
          let _ ← setPart ray "Origin" start
          let _ ← setPart ray "TMin" (Literal.f32 [0.0])
          let turned ← apply .mul [frame, direction]
          let _ ← setPart ray "Direction" turned
          let _ ← setPart ray "TMax" (Literal.f32 [occlusionRadius])
          let occluded ← apply .rayTest [scene, ray]
          laneIf occluded do
            let _ ← binary .addAssign hits (Literal.u32 [1])
        let share ← binary .div (← apply (.convert .f32) [hits]) (Literal.f32 [8.0])
        let openness ← binary .sub (Literal.f32 [1.0]) share
        ifLaneActive (write output pixel openness))
      (do
        let openness ← constant (.f32 [1.0])
        ifLaneActive (write output pixel openness))

def depthSharpness : Binary32 := 8.0

def depthAwareBlur : Recipe where
  name := "denoise"
  description := "3x3 depth-aware blur of a color target"
  body := do
    let color ← resource (.texture2D "g_color" .f32x4)
    let depth ← resource (.texture2D "g_depth" .f32)
    let output ← resource (.rwTexture2D "g_output" .f32x4)
    let pixel ← swizzle (← input .threadId) "xy"
    let dims ← apply .getDimensions [output]
    let outside ← apply .any [← binary .ge pixel dims]
    ifThen outside returnVoid
    let center ← read depth pixel
    let last ← binary .sub (← apply (.convert .i32) [dims]) (Literal.i32 [1, 1])
    let sum ← copy (← zero .f32x4)
    let weight ← copy (← zero .f32)
    forRange (Literal.i32 [-1]) (Literal.i32 [1]) fun dy =>
      forRange (Literal.i32 [-1]) (Literal.i32 [1]) fun dx => do
        let offset ← apply (.construct .i32x2) [dx, dy]
        let moved ← binary .add (← apply (.convert .i32) [pixel]) offset
        let clamped ← applyTo .clamp [moved] [Literal.i32 [0, 0], last]
        let tap ← apply (.convert .u32) [clamped]
        let difference ← binary .sub (← read depth tap) center
        let falloff ← negate (← apply (.math .abs) [difference])
        let w ← apply (.math .exp) [← binary .mul falloff (Literal.f32 [depthSharpness])]
        let weighted ← binary .mul (← read color tap) w
        let _ ← binary .addAssign sum weighted
        let _ ← binary .addAssign weight w
    write output pixel (← binary .div sum weight)

def probeAverage : Recipe where
  name := "probe_update"
  description := "per-probe radiance average through group-shared memory"
  adapt settings := { settings with groupSize := ⟨64, 1, 1⟩ }
  body := do
    let offsets ← resource (.buffer "g_probe_offsets" .u32)
    let radiance ← resource (.buffer "g_radiance" .f32x4)
    let probes ← resource (.rwBuffer "g_probes" .f32x4)
    let rayCount ← resource (.constant "g_num_rays" .u32)
    let ray ← swizzle (← input .threadId) "x"
    let lane ← swizzle (← input .groupThreadId) "x"
    let probe ← binarySearch offsets rayCount ray
    let shared ← sharedStorage "lds_radiance" .f32x4 64
    let value ← read radiance ray
    store shared lane value
    groupSync
    let leads ← binary .eq lane (Literal.u32 [0])
    ifThen leads do
      let total ← copy (← zero .f32x4)
      forRange (Literal.u32 [0]) (Literal.u32 [63]) fun i => do
        let _ ← binary .addAssign total (← load shared i)
      let average ← binary .div total (Literal.f32 [64.0])
      write probes probe average

def opaqueMaterial : UInt32 := 0

def emissiveMaterial : UInt32 := 1

def surfacePacking : Recipe where
  name := "gbuffer_pack"
  description := "octahedral normal and half-precision packing by material"
  body := do
    let normals ← resource (.texture2D "g_normal" .f32x4)
    let materials ← resource (.texture2D "g_material" .u32)
    let emission ← resource (.texture2D "g_emission" .f32x4)
    let packed ← resource (.rwTexture2D "g_packed" .u32x2)
    let pixel ← swizzle (← input .threadId) "xy"
    let normal ← apply (.math .normalize) [← swizzle (← read normals pixel) "xyz"]
    let material ← read materials pixel
    let out ← copy (← zero .u32x2)
    let encoded ← encodeOctahedralBytes normal
    let _ ← setPart out "x" encoded
    switchOn material [
      (opaqueMaterial, do
        let _ ← setPart out "y" (Literal.u32 [0])),
      (emissiveMaterial, do
        let rgb ← swizzle (← read emission pixel) "xyz"
        let scale ← luminance rgb
        let pair ← apply (.construct .f32x2) [← swizzle rgb "x", scale]
        let halves ← apply (.convert .f16) [pair]
        let both ← packHalves halves
        let _ ← setPart out "y" both)]
    write packed pixel out

def all : List Recipe := [depthAwareBlur, ambientOcclusion, probeAverage, surfacePacking]

def find? (name : String) : Option Recipe := all.find? (·.name == name)

end ComputeKernel.Catalog
