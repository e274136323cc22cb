import ComputeKernel.Build.LaneMask

namespace ComputeKernel

structure Recipe where
  name : String
  description : String
  adapt : Settings → Settings := id
  body : Build Unit Unit

namespace Recipe

def settle (r : Recipe) (settings : Settings) : Settings :=
  r.adapt (if settings.name = Settings.default.name then { settings with name := r.name } else settings)

def build (r : Recipe) (settings : Settings) (first : Nat) : Except Halt Kernel × Nat :=
  let settings := r.settle settings
  match (do Build.configure settings; r.body : Build Unit Unit) (.start settings first ()) with
  | .error halt w => (.error halt, w.sheet.nodes.next)
  | .ok () w =>
    match w.finish with
    | .ok kernel => (.ok kernel, w.sheet.nodes.next)
    | .error failure => (.error (.ofFailure failure), w.sheet.nodes.next)

def buildDefault (r : Recipe) (first : Nat) : Except Halt Kernel × Nat :=
  r.build (.named r.name) first

end Recipe

end ComputeKernel
