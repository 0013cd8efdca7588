import MaskLayout.Proofs.Cif.Outline
import MaskLayout.Proofs.Layout.Picture

namespace MaskLayout.Cif

variable {K : Type} [Scalar K]

/-- What lines draw under a transform, with the layer that was named last. -/
inductive Program.Draws (program : Program K) :
    Option String → Transform K → List (Line K) → Drawing K → Prop where
  | nothing {current : Option String} {transform : Transform K} :
      Draws program current transform [] []
  | layer {current : Option String} {name : String} {transform : Transform K} {rest : List (Line K)}
      {later : Drawing K} (after : Draws program (some name) transform rest later) :
      Draws program current transform (.layer name :: rest) later
  | polygon {name : String} {transform : Transform K} {polygon : Polygon K} {rest : List (Line K)}
      {later : Drawing K} (after : Draws program (some name) transform rest later) :
      Draws program (some name) transform (.polygon polygon :: rest)
        ((name, polygon.map transform) :: later)
  | call {current : Option String} {number : Nat} {transform placed : Transform K}
      {lines rest : List (Line K)} {within later : Drawing K}
      (found : program.routine? number = some lines)
      (inside : Draws program none (transform.compose placed) lines within)
      (after : Draws program current transform rest later) :
      Draws program current transform (.call number placed :: rest) (within ++ later)

/-- What a routine draws when it is called under a transform. -/
def Program.Performs (program : Program K) (number : Nat) (transform : Transform K)
    (drawing : Drawing K) : Prop :=
  ∃ lines, program.routine? number = some lines ∧ program.Draws none transform lines drawing

/-- What a program draws by its first call. -/
def Program.Depicts (program : Program K) (drawing : Drawing K) : Prop :=
  program.Performs program.root program.transform drawing

/-- What a run draws under a transform. -/
def Run.drawing (transform : Transform K) (run : Run K) : Drawing K :=
  run.polygons.map fun polygon => (run.layer, polygon.map transform)

private theorem Program.Draws.unique {program : Program K} {current : Option String}
    {transform : Transform K} {lines : List (Line K)} {drawing other : Drawing K}
    (first : program.Draws current transform lines drawing)
    (second : program.Draws current transform lines other) : drawing = other := by
  induction first generalizing other with
  | nothing =>
    cases second with
    | nothing => rfl
  | layer after ih =>
    cases second with
    | layer after' => exact ih after'
  | polygon after ih =>
    cases second with
    | polygon after' => rw [ih after']
  | call found inside after ihInside ihAfter =>
    cases second with
    | call found' inside' after' =>
      cases Option.some.inj (found.symm.trans found')
      rw [ihInside inside', ihAfter after']

theorem Program.Performs.unique {program : Program K} {number : Nat} {transform : Transform K}
    {drawing other : Drawing K} (first : program.Performs number transform drawing)
    (second : program.Performs number transform other) : drawing = other := by
  obtain ⟨lines, found, draws⟩ := first
  obtain ⟨lines', found', draws'⟩ := second
  cases Option.some.inj (found.symm.trans found')
  exact draws.unique draws'

theorem Program.Draws.of_performs {program : Program K} {current : Option String} {number : Nat}
    {transform placed : Transform K} {rest : List (Line K)} {within later : Drawing K}
    (inside : program.Performs number (transform.compose placed) within)
    (after : program.Draws current transform rest later) :
    program.Draws current transform (.call number placed :: rest) (within ++ later) := by
  obtain ⟨lines, found, draws⟩ := inside
  exact .call found draws after

/-- A run is drawn as it is, on the layer that it names itself. -/
theorem Program.Draws.run {program : Program K} {transform : Transform K} {rest : List (Line K)}
    {later : Drawing K} (run : Run K)
    (after : ∀ current, program.Draws current transform rest later) (current : Option String) :
    program.Draws current transform (run.lines ++ rest) (run.drawing transform ++ later) := by
  obtain ⟨name, polygons⟩ := run
  apply Program.Draws.layer
  induction polygons with
  | nil => exact after (some name)
  | cons polygon polygons ih => exact .polygon ih

theorem Program.Draws.runs {program : Program K} {transform : Transform K} {rest : List (Line K)}
    {later : Drawing K} (runs : List (Run K))
    (after : ∀ current, program.Draws current transform rest later) (current : Option String) :
    program.Draws current transform (runs.flatMap Run.lines ++ rest)
      (runs.flatMap (Run.drawing transform) ++ later) := by
  induction runs generalizing current with
  | nil => exact after current
  | cons run runs ih =>
    rw [List.flatMap_cons, List.flatMap_cons, List.append_assoc, List.append_assoc]
    exact .run run ih current

/-- Calls of routines that draw nothing draw nothing. -/
theorem Program.Draws.nothing_of_calls {program : Program K} {number : Fragment → Nat}
    {edges : List (Edge K)} (empty : ∀ edge ∈ edges, edge.isInline = false ∧
      ∀ callee ∈ edge.calls, ∀ placed, program.Performs (number callee) placed [])
    (current : Option String) (transform : Transform K) :
    program.Draws current transform (edges.flatMap (Edge.lines number)) [] := by
  induction edges with
  | nil => exact .nothing
  | cons edge edges ih =>
    obtain ⟨⟨called, first⟩, others⟩ := List.forall_mem_cons.mp empty
    cases edge with
    | call callee placed =>
      exact .of_performs (first callee (by simp [Edge.calls]) (transform.compose placed)) (ih others)
    | inline runs => cases called

theorem isEmpty_map (polygon : Polygon K) (transform : Transform K) :
    (polygon.map transform).isEmpty = polygon.isEmpty := by
  simp [Polygon.map, Polygon.isEmpty]

/-- The runs of a layer are what a placement shows of it, less the polygons without corners. -/
theorem drawLayer_eq_ok {placement : Placement K} {entry : String × List (Polygon K)}
    {runs : List (Run K)} (success : drawLayer placement.layerMap entry.1 entry.2 = .ok runs) :
    runs.flatMap (Run.drawing placement.transform) = Drawing.visible (placement.shown entry) := by
  have visible_map (destination : String) :
      Drawing.visible (entry.2.map fun polygon => (destination, polygon.map placement.transform)) =
        (entry.2.filter fun polygon => !polygon.isEmpty).map fun polygon =>
          (destination, polygon.map placement.transform) := by
    simp [Drawing.visible, List.filter_map, Function.comp_def, isEmpty_map]
  by_cases blank : (entry.2.filter fun polygon => !polygon.isEmpty) = []
  · simp only [drawLayer, blank, List.isEmpty_nil, ↓reduceIte, Except.ok.injEq] at success
    rw [← success]
    unfold Placement.shown
    split
    · rw [visible_map, blank]
      rfl
    · rfl
  · simp only [drawLayer, List.isEmpty_iff, blank, ↓reduceIte] at success
    unfold Placement.shown
    cases found : placement.layerMap.lookup entry.1 with
    | error error => simp [found] at success
    | ok destination =>
      cases destination with
      | none =>
        simp only [found, Except.ok.injEq] at success
        rw [← success]
        rfl
      | some destination =>
        simp only [found, Except.ok.injEq] at success
        simp [← success, visible_map, Run.drawing]

theorem draw_eq_ok (placement : Placement K) {node : Node K} {runs : List (Run K)}
    (success : draw placement.layerMap node.geometry = .ok runs) :
    runs.flatMap (Run.drawing placement.transform) = Drawing.visible (placement.drawing node) := by
  obtain ⟨parts, made, same⟩ := bind_eq_ok_iff.mp success
  rw [mapM_eq_ok_iff] at made
  rw [← Except.ok.inj same]
  clear success same
  unfold Placement.drawing
  generalize node.geometry.entries = entries at made
  induction made with
  | nil => rfl
  | cons first _ ih =>
    rw [List.flatten_cons, List.flatMap_append, List.flatMap_cons, Drawing.visible_append,
      drawLayer_eq_ok first, ih]

end MaskLayout.Cif
