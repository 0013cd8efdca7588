import MaskLayout.Binary64.Scalar
import MaskLayout.Cif.Settings
import MaskLayout.Json.Decoder

/-! The saved form of settings. Every field may be left out. -/
namespace MaskLayout.Cif.Settings

open Json

def standard : Settings Float := ⟨1.0, 1000.0, false⟩

def toJson (settings : Settings Float) : Json :=
  .object [
    ("multiplier", ofFloat settings.multiplier),
    ("rotation_multiplier", ofFloat settings.rotationMultiplier),
    ("strict", .bool settings.strict)]

def ofReading? (reading : Reading) : Except Defect (Settings Float) := do
  let (multiplier, rotationMultiplier, strict, _) ← reading.record?
    [.head "multiplier" Reading.float?,
      .tail (.head "rotation_multiplier" Reading.float?),
      .tail (.tail (.head "strict" Reading.bool?))] true (none, none, none, ())
  return ⟨multiplier.getD standard.multiplier,
    rotationMultiplier.getD standard.rotationMultiplier, strict.getD standard.strict⟩

def save (settings : Settings Float) : String := settings.toJson.pretty

def load (text : String) : Except Defect (Settings Float) := decode ofReading? text

end MaskLayout.Cif.Settings
