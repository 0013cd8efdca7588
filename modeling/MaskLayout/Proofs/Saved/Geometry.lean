import MaskLayout.Proofs.Json.Restoring
import MaskLayout.Saved.Geometry

namespace MaskLayout

open Json

def Point.IsFinite (point : Point Float) : Prop := point.x.isFinite ∧ point.y.isFinite

def Polygon.IsFinite (polygon : Polygon Float) : Prop := ∀ point ∈ polygon.points, point.IsFinite

def LayerGeometry.IsFinite (geometry : LayerGeometry Float) : Prop :=
  ∀ layer ∈ geometry.entries, ∀ polygon ∈ layer.2, polygon.IsFinite

def Transform.IsFinite (transform : Transform Float) : Prop :=
  (transform.xx.isFinite ∧ transform.xy.isFinite) ∧ (transform.yx.isFinite ∧ transform.yy.isFinite) ∧
    (transform.dx.isFinite ∧ transform.dy.isFinite)

instance (point : Point Float) : Decidable point.IsFinite :=
  inferInstanceAs (Decidable (_ ∧ _))

instance (polygon : Polygon Float) : Decidable polygon.IsFinite :=
  inferInstanceAs (Decidable (∀ point ∈ polygon.points, point.IsFinite))

instance (geometry : LayerGeometry Float) : Decidable geometry.IsFinite :=
  inferInstanceAs (Decidable (∀ layer ∈ geometry.entries, ∀ polygon ∈ layer.2, polygon.IsFinite))

instance (transform : Transform Float) : Decidable transform.IsFinite :=
  inferInstanceAs (Decidable (_ ∧ _))

namespace NameTable

variable {α : Type}

private theorem updated_of_lt {name : String} {change : Option α → α} {entries : List (String × α)}
    (below : ∀ entry ∈ entries, entry.1 < name) :
    updated name change entries = entries ++ [(name, change none)] := by
  induction entries with
  | nil => rfl
  | cons entry entries ih =>
    have less := below entry List.mem_cons_self
    have different : name ≠ entry.1 := by
      intro same
      exact String.lt_irrefl _ (same ▸ less)
    have later := ih fun other member => below other (List.mem_cons_of_mem _ member)
    rw [updated, if_neg different, if_neg (String.lt_asymm less), later]
    rfl

private theorem entries_foldl_insert {entries : List (String × α)} (table : NameTable α)
    (sorted : (table.entries ++ entries).Pairwise (fun a b => a.1 < b.1)) :
    (entries.foldl (fun table entry => table.insert entry.1 entry.2) table).entries =
      table.entries ++ entries := by
  induction entries generalizing table with
  | nil => simp
  | cons entry entries ih =>
    have below : ∀ earlier ∈ table.entries, earlier.1 < entry.1 := fun earlier member =>
      (List.pairwise_append.mp sorted).2.2 earlier member entry List.mem_cons_self
    have inserted : (table.insert entry.1 entry.2).entries = table.entries ++ [entry] :=
      updated_of_lt below
    rw [List.foldl_cons, ih _ (by simpa [inserted] using sorted), inserted, List.append_assoc]
    rfl

/-- A table is made of its own entries. -/
theorem ofList_entries (table : NameTable α) : ofList table.entries = table := by
  have same := entries_foldl_insert empty table.sorted
  cases table
  exact NameTable.mk.injEq .. ▸ same

end NameTable

private theorem Point.restores {point : Point Float} (finite : point.IsFinite) :
    Restores Point.ofReading? point.toJson point := by
  have x := restores_float finite.1
  have y := restores_float finite.2
  refine ⟨.object (by simp [x.regular, y.regular]), ?_⟩
  simp [ofReading?, toJson, Field.head, Field.tail, x.decoded, y.decoded, pure, Except.pure]

private theorem Polygon.restores {polygon : Polygon Float} (finite : polygon.IsFinite) :
    Restores Polygon.ofReading? polygon.toJson polygon := by
  have points := restores_list Point.toJson fun point member => Point.restores (finite point member)
  refine ⟨.object (by simp [points.regular]), ?_⟩
  simp [ofReading?, toJson, Field.head, points.decoded, pure, Except.pure]

theorem LayerGeometry.restores {geometry : LayerGeometry Float} (finite : geometry.IsFinite) :
    Restores LayerGeometry.ofReading? geometry.toJson geometry := by
  have layers := restores_entries (fun polygons => .array (polygons.map Polygon.toJson))
    fun layer member => restores_list Polygon.toJson
      fun polygon listed => Polygon.restores (finite layer member polygon listed)
  have table := layers.map NameTable.ofList
  rwa [NameTable.ofList_entries] at table

private theorem Transform.restores_pairToJson {x y : Float} (finite : x.isFinite ∧ y.isFinite) :
    Restores (Reading.pair? Reading.float? Reading.float?) (pairToJson x y) (x, y) :=
  restores_pair (restores_float finite.1) (restores_float finite.2)

theorem Transform.restores {transform : Transform Float} (finite : transform.IsFinite) :
    Restores Transform.ofReading? transform.toJson transform := by
  obtain ⟨upper, lower, shift⟩ := finite
  have rows := restores_pair (restores_pairToJson upper) (restores_pairToJson lower)
  have shift := restores_pairToJson shift
  refine ⟨.object (by simp [rows.regular, shift.regular]), ?_⟩
  simp [ofReading?, toJson, Field.head, Field.tail, rows.decoded, shift.decoded, pure, Except.pure]

private theorem restores_destination (destination : Option String) :
    Restores (Reading.option? Reading.string?) (ofOption destination) destination := by
  cases destination with
  | none => exact restores_none _
  | some name => exact (restores_string name).some (by simp)

theorem LayerMap.restores (map : LayerMap) : Restores LayerMap.ofReading? map.toJson map := by
  cases map with
  | identity => exact restores_bare rfl
  | constant destination =>
    exact restores_payload bare? rfl ((restores_destination destination).map constant)
  | table entries =>
    have listed := (restores_entries ofOption fun entry (_ : entry ∈ entries.entries) =>
      restores_destination entry.2).map ofList
    rw [ofList, NameTable.ofList_entries] at listed
    exact restores_payload bare? rfl listed

end MaskLayout
