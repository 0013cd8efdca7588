import MaskLayout.Cif.Draft

/-! Compiling a design: a node by itself, or what a reference makes of one. -/
namespace MaskLayout.Cif

variable {K : Type} [Scalar K]

/-- The program of a subject. -/
def compile (layout : Layout K) (settings : Settings K) (subject : Subject K) :
    Except (CifError K) (Program K × Summary) := do
  let draft ← Draft.build layout settings subject
  return (draft.program, draft.summary)

end MaskLayout.Cif
