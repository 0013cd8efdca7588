import MaskLayout.Geometry.Layers
import MaskLayout.Proofs.Binary64.Order

namespace MaskLayout

open Binary64

/-- Neither coordinate fails to be a number. -/
structure Point.IsOrdered (point : Point Float) : Prop where
  x : ¬ point.x.isNaN
  y : ¬ point.y.isNaN

namespace Box

section Unions

variable {K : Type} [Scalar K]

/-- A further point is a box of its own that is united with the box so far. -/
theorem cover_eq (box : Box K) (point : Point K) : box.cover point = box.union (ofPoint point) := rfl

private theorem ofPoints?_eq_none_iff {points : List (Point K)} :
    ofPoints? points = none ↔ points = [] := by
  cases points with
  | nil => exact iff_of_true rfl rfl
  | cons first rest => exact iff_of_false (Option.some_ne_none _) (List.cons_ne_nil first rest)

/-- A box comes from the boxes of some polygons by unions, taken in any order and in any groups. -/
inductive Unites : Box K → List (Polygon K) → Prop where
  | single {polygon : Polygon K} {box : Box K} (found : polygon.box? = some box) : Unites box [polygon]
  | union {first second : Box K} {polygons others whole : List (Polygon K)}
      (mine : Unites first polygons) (yours : Unites second others)
      (parts : (polygons ++ others).Perm whole) : Unites (first.union second) whole

private theorem exists_unites {polygons : List (Polygon K)} (some : polygons ≠ [])
    (cornered : ∀ polygon ∈ polygons, polygon.points ≠ []) : ∃ box : Box K, box.Unites polygons := by
  induction polygons with
  | nil => exact absurd rfl some
  | cons polygon rest ih =>
    obtain ⟨own, further⟩ := List.forall_mem_cons.mp cornered
    obtain ⟨box, found⟩ := Option.ne_none_iff_exists'.mp (mt ofPoints?_eq_none_iff.mp own)
    cases rest with
    | nil => exact ⟨box, .single found⟩
    | cons next rest =>
      obtain ⟨united, unites⟩ := ih (List.cons_ne_nil next rest) further
      exact ⟨box.union united, .union (.single found) unites (.refl _)⟩

end Unions

structure Encloses (box inner : Box Float) : Prop where
  left : box.lower.x ≤ inner.lower.x
  bottom : box.lower.y ≤ inner.lower.y
  right : inner.upper.x ≤ box.upper.x
  top : inner.upper.y ≤ box.upper.y

/-- Boxes with equal sides, where the two zeros count as equal. -/
structure Coincides (first second : Box Float) : Prop where
  left : first.lower.x == second.lower.x
  bottom : first.lower.y == second.lower.y
  right : first.upper.x == second.upper.x
  top : first.upper.y == second.upper.y

def Attains (points : List (Point Float)) (coordinate : Point Float → Float) (value : Float) : Prop :=
  ∃ point ∈ points, coordinate point = value

/-- A box contains every one of some points, and each of its sides passes through one of them. -/
structure Tight (box : Box Float) (points : List (Point Float)) : Prop where
  contains : ∀ point ∈ points, box.Encloses (ofPoint point)
  left : Attains points (·.x) box.lower.x
  bottom : Attains points (·.y) box.lower.y
  right : Attains points (·.x) box.upper.x
  top : Attains points (·.y) box.upper.y

private theorem Encloses.trans {outer box inner : Box Float} (first : outer.Encloses box)
    (second : box.Encloses inner) : outer.Encloses inner where
  left := le_through first.left second.left
  bottom := le_through first.bottom second.bottom
  right := le_through second.right first.right
  top := le_through second.top first.top

private theorem Encloses.antisymm {first second : Box Float} (around : first.Encloses second)
    (within : second.Encloses first) : first.Coincides second where
  left := beq_of_le around.left within.left
  bottom := beq_of_le around.bottom within.bottom
  right := beq_of_le within.right around.right
  top := beq_of_le within.top around.top

private theorem encloses_union {first second : Box Float} (lower : first.lower.IsOrdered)
    (upper : first.upper.IsOrdered) (lower' : second.lower.IsOrdered)
    (upper' : second.upper.IsOrdered) :
    (first.union second).Encloses first ∧ (first.union second).Encloses second := by
  have left := least_le (number_iff.mp lower.x) (number_iff.mp lower'.x)
  have bottom := least_le (number_iff.mp lower.y) (number_iff.mp lower'.y)
  have right := le_greatest (number_iff.mp upper.x) (number_iff.mp upper'.x)
  have top := le_greatest (number_iff.mp upper.y) (number_iff.mp upper'.y)
  exact ⟨⟨left.1, bottom.1, right.1, top.1⟩, ⟨left.2, bottom.2, right.2, top.2⟩⟩

section Points

variable {box other : Box Float} {points others : List (Point Float)}

private theorem Attains.mono {coordinate : Point Float → Float} {value : Float}
    (attained : Attains points coordinate value) (within : points ⊆ others) :
    Attains others coordinate value := by
  obtain ⟨point, member, through⟩ := attained
  exact ⟨point, within member, through⟩

/-- What is one of two values is attained where both are. -/
theorem Attains.append {coordinate : Point Float → Float} {first second chosen : Float}
    (mine : Attains points coordinate first) (yours : Attains others coordinate second)
    (either : chosen = first ∨ chosen = second) : Attains (points ++ others) coordinate chosen := by
  rcases either with rfl | rfl
  · exact mine.mono (List.subset_append_left ..)
  · exact yours.mono (List.subset_append_right ..)

private theorem Tight.isOrdered (tight : box.Tight points) :
    box.lower.IsOrdered ∧ box.upper.IsOrdered := by
  obtain ⟨point, member, _⟩ := tight.left
  have around := tight.contains point member
  exact ⟨⟨number_iff.mpr (number_of_le around.left).1, number_iff.mpr (number_of_le around.bottom).1⟩,
    ⟨number_iff.mpr (number_of_le around.right).2, number_iff.mpr (number_of_le around.top).2⟩⟩

private theorem Tight.congr (tight : box.Tight points)
    (same : ∀ point, point ∈ points ↔ point ∈ others) :
    box.Tight others where
  contains point member := tight.contains point ((same point).mpr member)
  left := tight.left.mono fun point => (same point).mp
  bottom := tight.bottom.mono fun point => (same point).mp
  right := tight.right.mono fun point => (same point).mp
  top := tight.top.mono fun point => (same point).mp

private theorem Tight.encloses (tight : box.Tight points) (inner : other.Tight others)
    (within : others ⊆ points) : box.Encloses other := by
  obtain ⟨leftmost, member, left⟩ := inner.left.mono within
  obtain ⟨lowest, member', bottom⟩ := inner.bottom.mono within
  obtain ⟨rightmost, member'', right⟩ := inner.right.mono within
  obtain ⟨highest, member''', top⟩ := inner.top.mono within
  exact ⟨left ▸ (tight.contains leftmost member).left, bottom ▸ (tight.contains lowest member').bottom,
    right ▸ (tight.contains rightmost member'').right, top ▸ (tight.contains highest member''').top⟩

/-- The points leave a tight box no choice. -/
theorem Tight.coincides (tight : box.Tight points) (tight' : other.Tight others)
    (same : ∀ point, point ∈ points ↔ point ∈ others) : box.Coincides other :=
  (tight.encloses tight' fun point => (same point).mpr).antisymm
    (tight'.encloses tight fun point => (same point).mp)

private theorem tight_ofPoint {point : Point Float} (ordered : point.IsOrdered) :
    (ofPoint point).Tight [point] where
  contains := by
    have x := le_self (number_iff.mp ordered.x)
    have y := le_self (number_iff.mp ordered.y)
    exact List.forall_mem_singleton.mpr ⟨x, y, x, y⟩
  left := ⟨point, List.mem_singleton_self point, rfl⟩
  bottom := ⟨point, List.mem_singleton_self point, rfl⟩
  right := ⟨point, List.mem_singleton_self point, rfl⟩
  top := ⟨point, List.mem_singleton_self point, rfl⟩

private theorem Tight.union (tight : box.Tight points) (tight' : other.Tight others) :
    (box.union other).Tight (points ++ others) where
  contains := by
    obtain ⟨lower, upper⟩ := tight.isOrdered
    obtain ⟨lower', upper'⟩ := tight'.isOrdered
    obtain ⟨around, around'⟩ := encloses_union lower upper lower' upper'
    exact List.forall_mem_append.mpr ⟨fun point member => around.trans (tight.contains point member),
      fun point member => around'.trans (tight'.contains point member)⟩
  left := tight.left.append tight'.left (least_eq_or ..)
  bottom := tight.bottom.append tight'.bottom (least_eq_or ..)
  right := tight.right.append tight'.right (greatest_eq_or ..)
  top := tight.top.append tight'.top (greatest_eq_or ..)

private theorem Tight.cover (tight : box.Tight points) {point : Point Float}
    (ordered : point.IsOrdered) :
    (box.cover point).Tight (points ++ [point]) := by
  rw [cover_eq]
  exact tight.union (tight_ofPoint ordered)

private theorem Tight.foldl_cover (tight : box.Tight points)
    (ordered : ∀ point ∈ others, point.IsOrdered) :
    (others.foldl Box.cover box).Tight (points ++ others) := by
  induction others generalizing box points with
  | nil => rwa [List.append_nil]
  | cons point rest ih =>
    obtain ⟨first, further⟩ := List.forall_mem_cons.mp ordered
    rw [List.foldl_cons, List.append_cons]
    exact ih (tight.cover first) further

private theorem tight_of_ofPoints? (ordered : ∀ point ∈ points, point.IsOrdered)
    (found : ofPoints? points = some box) : box.Tight points := by
  cases points with
  | nil => cases found
  | cons first rest =>
    cases found
    obtain ⟨head, further⟩ := List.forall_mem_cons.mp ordered
    exact (tight_ofPoint head).foldl_cover further

end Points

private theorem Unites.tight {box : Box Float} {polygons : List (Polygon Float)}
    (unites : box.Unites polygons)
    (ordered : ∀ point ∈ polygons.flatMap (·.points), point.IsOrdered) :
    box.Tight (polygons.flatMap (·.points)) := by
  induction unites with
  | single found =>
    rw [List.flatMap_singleton] at ordered ⊢
    exact tight_of_ofPoints? ordered found
  | union mine yours parts ih ih' =>
    have same := parts.flatMap_right (·.points)
    rw [List.flatMap_append] at same
    have halves := List.forall_mem_append.mp fun point member => ordered point (same.subset member)
    exact ((ih halves.1).union (ih' halves.2)).congr fun point => same.mem_iff

end Box

namespace LayerGeometry

section Polygons

variable {K : Type}

/-- The polygons that have a point, on whatever layer. -/
def cornered (geometry : LayerGeometry K) : List (Polygon K) :=
  geometry.values.flatten.filter (!·.isEmpty)

variable {geometry : LayerGeometry K}

private theorem points_eq : geometry.points = geometry.values.flatten.flatMap (·.points) := by
  rw [points, ← List.flatMap_id, List.flatMap_assoc]
  rfl

private theorem points_cornered : geometry.cornered.flatMap (·.points) = geometry.points := by
  rw [points_eq, cornered]
  induction geometry.values.flatten with
  | nil => rfl
  | cons polygon rest ih =>
    rw [List.flatMap_cons, ← ih, List.filter_cons]
    split
    · rw [List.flatMap_cons]
    · rename_i hollow
      rw [Bool.not_eq_true, Bool.not_eq_false', Polygon.isEmpty, List.isEmpty_iff] at hollow
      rw [hollow, List.nil_append]

theorem points_eq_nil_iff :
    geometry.points = [] ↔ ∀ polygon ∈ geometry.values.flatten, polygon.points = [] := by
  rw [points_eq, List.flatMap_eq_nil_iff]

private theorem ne_nil_of_mem_cornered {polygon : Polygon K} (member : polygon ∈ geometry.cornered) :
    polygon.points ≠ [] := by
  simpa [Polygon.isEmpty] using (List.mem_filter.mp member).2

theorem box?_eq_none_iff [Scalar K] : geometry.box? = none ↔ geometry.points = [] :=
  Box.ofPoints?_eq_none_iff

/-- Where there is a point, the boxes of the polygons that have one can be united. -/
theorem exists_unites [Scalar K] (some : geometry.points ≠ []) :
    ∃ united : Box K, united.Unites geometry.cornered := by
  refine Box.exists_unites (fun none => some ?_) fun polygon => ne_nil_of_mem_cornered
  rw [← points_cornered, none]
  rfl

end Polygons

variable {geometry other : LayerGeometry Float} {box united : Box Float}

theorem tight_of_box? (ordered : ∀ point ∈ geometry.points, point.IsOrdered)
    (found : geometry.box? = some box) : box.Tight geometry.points :=
  Box.tight_of_ofPoints? ordered found

theorem coincides_of_unites (ordered : ∀ point ∈ geometry.points, point.IsOrdered)
    (found : geometry.box? = some box) (unites : united.Unites geometry.cornered) :
    box.Coincides united := by
  have tight : united.Tight geometry.points := by
    rw [← points_cornered] at ordered ⊢
    exact unites.tight ordered
  exact (tight_of_box? ordered found).coincides tight fun _ => .rfl

/-- The same points in other polygons, on other layers and in another order have the same box. -/
theorem regrouped (ordered : ∀ point ∈ geometry.points, point.IsOrdered)
    (same : ∀ point, point ∈ other.points ↔ point ∈ geometry.points) :
    Option.Rel Box.Coincides geometry.box? other.box? := by
  have none_iff : geometry.box? = none ↔ other.box? = none := by
    simp only [box?_eq_none_iff, List.eq_nil_iff_forall_not_mem, same]
  cases found : geometry.box? with
  | none =>
    rw [none_iff.mp found]
    exact .none
  | some box =>
    obtain ⟨box', found'⟩ := Option.ne_none_iff_exists'.mp
      (mt none_iff.mpr (found ▸ Option.some_ne_none box))
    rw [found']
    have ordered' : ∀ point ∈ other.points, point.IsOrdered := fun point member =>
      ordered point ((same point).mp member)
    exact .some ((tight_of_box? ordered found).coincides (tight_of_box? ordered' found') fun point =>
      (same point).symm)

end LayerGeometry

end MaskLayout
