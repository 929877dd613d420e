import SurfaceStudio.Preset.Basic
/-!
The surfaces that the studio comes with.
-/

namespace SurfaceStudio.Preset

/-- A surface of the catalog. -/
structure Example where
  key : String
  name : String
  x : String
  y : String
  z : String
  uRange : String × String := ("0", "2 * pi")
  vRange : String × String := ("-1", "1")
  uSteps : Nat
  vSteps : Nat

/-- The surface as a preset. -/
def Example.preset (e : Example) : Preset :=
  [("name", .str e.name), ("x", .str e.x), ("y", .str e.y), ("z", .str e.z),
   ("uMin", .str e.uRange.1), ("uMax", .str e.uRange.2),
   ("vMin", .str e.vRange.1), ("vMax", .str e.vRange.2),
   ("uSteps", .int e.uSteps), ("vSteps", .int e.vSteps)]

/-- All surfaces of the catalog, in the order in which they are listed. -/
def catalog : List Example :=
  [{ key := "sphere", name := "Sphere"
     x := "cos(u) * cos(v)", y := "sin(u) * cos(v)", z := "sin(v)"
     vRange := ("-pi / 2", "pi / 2"), uSteps := 60, vSteps := 30 },
   { key := "torus", name := "Torus"
     x := "(1 + 0.35 * cos(v)) * cos(u)", y := "(1 + 0.35 * cos(v)) * sin(u)"
     z := "0.35 * sin(v)", vRange := ("0", "2 * pi"), uSteps := 80, vSteps := 40 },
   { key := "cylinder", name := "Cylinder"
     x := "cos(u)", y := "sin(u)", z := "v", uSteps := 50, vSteps := 20 },
   { key := "mobius", name := "Möbius strip"
     x := "(1 + (v / 2) * cos(u / 2)) * cos(u)", y := "(1 + (v / 2) * cos(u / 2)) * sin(u)"
     z := "(v / 2) * sin(u / 2)", uSteps := 120, vSteps := 20 },
   { key := "saddle", name := "Saddle"
     x := "u", y := "v", z := "u * u - v * v"
     uRange := ("-1.5", "1.5"), vRange := ("-1.5", "1.5"), uSteps := 45, vSteps := 45 },
   { key := "heart", name := "Heart"
     x := "16 * sin(u)^3", y := "13 * cos(u) - 5 * cos(2*u) - 2 * cos(3*u) - cos(4*u)"
     z := "0.15 * v", uSteps := 400, vSteps := 6 }]

/-- The key of the mode in which the user types the equations. -/
def customKey : String := "custom"

/-- The surface of a key. -/
def example? (key : String) : Option Example := catalog.find? (·.key == key)

end SurfaceStudio.Preset
