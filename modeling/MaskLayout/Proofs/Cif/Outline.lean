import MaskLayout.Cif.Fragment
import MaskLayout.Proofs.BreadthFirst
import MaskLayout.Proofs.Outcome

namespace MaskLayout

variable {K : Type} [Scalar K]

/-- Whether all that a reference stands for can be carried by a call. -/
def Layout.isNative (layout : Layout K) (reference : Reference K) : Bool :=
  match layout.flatTransform reference none with
  | .ok transform => transform.isRigid
  | .error _ => false

namespace Cif

open BreadthFirst

/-- The fragment that a native reference leads to from a routine under a layer map. -/
def callee? (layout : Layout K) (layerMap : LayerMap) (reference : Reference K) : Option Fragment :=
  match layout.resolve reference, layout.flatLayerMap reference none with
  | .ok node, .ok inner =>
    match inner.compose layerMap with
    | .ok composed => if layout.isNative reference then some ⟨node, composed⟩ else none
    | .error _ => none
  | _, _ => none

/-- The fragments that a fragment calls, in the order of its children. -/
def callees (layout : Layout K) (fragment : Fragment) : List Fragment :=
  match layout.node fragment.node with
  | .ok node => node.children.filterMap fun child => callee? layout fragment.layerMap child.2
  | .error _ => []

/-- How many children of a fragment no call can carry. -/
def expansions (layout : Layout K) (fragment : Fragment) : Nat :=
  match layout.node fragment.node with
  | .ok node => node.children.countP fun child => !layout.isNative child.2
  | .error _ => 0

namespace Edge

omit [Scalar K] in
def calls : Edge K → List Fragment
  | call fragment _ => [fragment]
  | inline _ => []

omit [Scalar K] in
def lines (number : Fragment → Nat) : Edge K → List (Line K)
  | call fragment transform => [.call (number fragment) transform]
  | inline runs => runs.flatMap Run.lines

end Edge

namespace Body

omit [Scalar K] in
/-- The fragments that are called, as often as they are. -/
def calls (body : Body K) : List Fragment := body.edges.flatMap Edge.calls

omit [Scalar K] in
def lines (body : Body K) (number : Fragment → Nat) : List (Line K) :=
  body.runs.flatMap Run.lines ++ body.edges.flatMap (Edge.lines number)

end Body

/-- The fragments that have a routine, in the order of their numbers. -/
abbrev Defined (K : Type) := List (Fragment × Body K)

namespace Defined

omit [Scalar K] in
def fragments (defined : Defined K) : List Fragment := defined.map (·.1)

omit [Scalar K] in
def number (defined : Defined K) (fragment : Fragment) : Nat := defined.fragments.idxOf fragment + 1

omit [Scalar K] in
def routines (defined : Defined K) : List (List (Line K)) :=
  defined.map fun entry => entry.2.lines defined.number

end Defined

/-- A pending fragment gets its body, unless it has one, and what it calls is pending later. -/
def define (layout : Layout K) (settings : Settings K) (state : Defined K × List Fragment)
    (fragment : Fragment) : Except (CifError K) (Defined K × List Fragment) :=
  if fragment ∈ state.1.fragments then .ok state
  else do
    let body ← body layout settings fragment
    return (state.1 ++ [(fragment, body)], state.2 ++ body.calls)

/-- Defines the pending fragments one by one and collects what is pending then. -/
def pass (layout : Layout K) (settings : Settings K) (defined : Defined K)
    (pending : List Fragment) : Except (CifError K) (Defined K × List Fragment) :=
  pending.foldlM (define layout settings) (defined, [])

/-- Passes until one defines nothing, with their number. -/
def passes (layout : Layout K) (settings : Settings K) (allowance : Nat) (defined : Defined K)
    (pending : List Fragment) : Except (CifError K) (Defined K × Nat) :=
  match pass layout settings defined pending with
  | .error error => .error error
  | .ok (extended, later) =>
    if extended.length = defined.length then .ok (extended, 1)
    else match allowance with
      | 0 => .error (.layout .endless)
      | allowance + 1 => do
        let (all, count) ← passes layout settings allowance extended later
        return (all, count + 1)

/-- All fragments that a design needs. Along targets that do not lead back to themselves no pass is
further from the first one than there are nodes. -/
def outline (layout : Layout K) (settings : Settings K) (root : Fragment) :
    Except (CifError K) (Defined K × Nat) :=
  passes layout settings layout.nodes.count [] [root]

omit [Scalar K] in
@[simp] theorem ofLayout_ok {α : Type} (value : α) :
    (ofLayout (.ok value) : Except (CifError K) α) = .ok value := rfl

omit [Scalar K] in
@[simp] theorem ofLayout_error {α : Type} (error : LayoutError) :
    (ofLayout (.error error) : Except (CifError K) α) = .error (.layout error) := rfl

omit [Scalar K] in
theorem ofLayout_eq_ok_iff {α : Type} {result : Except LayoutError α} {value : α} :
    (ofLayout result : Except (CifError K) α) = .ok value ↔ result = .ok value := by
  cases result with
  | ok other => simp [ofLayout, Except.mapError]
  | error error => simp [ofLayout, Except.mapError]

/-- What a reference is compiled to: a call of the composed fragment, or its flattened geometry. -/
theorem edge_cases {layout : Layout K} {settings : Settings K} {layerMap : LayerMap} {name : String}
    {reference : Reference K} {result : Edge K}
    (success : edge layout settings layerMap name reference = .ok result) :
    (∃ fragment transform inner, result = .call fragment transform ∧
      layout.flatTransform reference none = .ok transform ∧ transform.isRigid = true ∧
      layout.resolve reference = .ok fragment.node ∧
      layout.flatLayerMap reference none = .ok inner ∧
      inner.compose layerMap = .ok fragment.layerMap) ∨
    (∃ runs transform flattened, result = .inline runs ∧
      layout.flatTransform reference none = .ok transform ∧ transform.isRigid = false ∧
      settings.strict = false ∧ layout.flatten reference = .ok flattened ∧
      draw layerMap flattened.geometry = .ok runs) := by
  obtain ⟨transform, found, rest⟩ := bind_eq_ok_iff.mp success
  rw [ofLayout_eq_ok_iff] at found
  split at rest
  · rename_i rigid
    obtain ⟨node, resolved, rest⟩ := bind_eq_ok_iff.mp rest
    obtain ⟨inner, mapped, rest⟩ := bind_eq_ok_iff.mp rest
    obtain ⟨composed, fits, same⟩ := bind_eq_ok_iff.mp rest
    rw [ofLayout_eq_ok_iff] at resolved mapped fits
    exact .inl ⟨⟨node, composed⟩, transform, inner, (Except.ok.inj same).symm, found, rigid, resolved,
      mapped, fits⟩
  · rename_i flexible
    split at rest
    · cases rest
    · rename_i lenient
      obtain ⟨flattened, expanded, rest⟩ := bind_eq_ok_iff.mp rest
      obtain ⟨runs, drawn, same⟩ := bind_eq_ok_iff.mp rest
      rw [ofLayout_eq_ok_iff] at expanded drawn
      exact .inr ⟨runs, transform, flattened, (Except.ok.inj same).symm, found, by simpa using flexible,
        by simpa using lenient, expanded, drawn⟩

theorem edge_calls {layout : Layout K} {settings : Settings K} {layerMap : LayerMap} {name : String}
    {reference : Reference K} {result : Edge K}
    (success : edge layout settings layerMap name reference = .ok result) :
    result.calls = (callee? layout layerMap reference).toList := by
  rcases edge_cases success with ⟨fragment, transform, inner, rfl, found, rigid, resolved, mapped, fits⟩ |
    ⟨runs, transform, flattened, rfl, found, flexible, _⟩
  · simp [Edge.calls, callee?, Layout.isNative, found, rigid, resolved, mapped, fits]
  · have foreign : layout.isNative reference = false := by simp [Layout.isNative, found, flexible]
    unfold callee?
    split
    · split
      · simp [Edge.calls, foreign]
      · rfl
    · rfl

theorem edge_isInline {layout : Layout K} {settings : Settings K} {layerMap : LayerMap}
    {name : String} {reference : Reference K} {result : Edge K}
    (success : edge layout settings layerMap name reference = .ok result) :
    result.isInline = !layout.isNative reference := by
  rcases edge_cases success with ⟨fragment, transform, inner, rfl, found, rigid, _⟩ |
    ⟨runs, transform, flattened, rfl, found, flexible, _⟩
  · simp [Edge.isInline, Layout.isNative, found, rigid]
  · simp [Edge.isInline, Layout.isNative, found, flexible]

theorem body_eq_ok {layout : Layout K} {settings : Settings K} {fragment : Fragment} {result : Body K}
    (success : body layout settings fragment = .ok result) :
    ∃ node, layout.node fragment.node = .ok node ∧
      draw fragment.layerMap node.geometry = .ok result.runs ∧
      List.Forall₂ (fun child made => edge layout settings fragment.layerMap child.1 child.2 = .ok made)
        node.children result.edges := by
  obtain ⟨node, found, rest⟩ := bind_eq_ok_iff.mp success
  obtain ⟨runs, drawn, rest⟩ := bind_eq_ok_iff.mp rest
  obtain ⟨edges, made, same⟩ := bind_eq_ok_iff.mp rest
  rw [ofLayout_eq_ok_iff] at found drawn
  cases Except.ok.inj same
  exact ⟨node, found, drawn, mapM_eq_ok_iff.mp made⟩

theorem body_eq_ok_iff {layout : Layout K} {settings : Settings K} {fragment : Fragment}
    {result : Body K} : body layout settings fragment = .ok result ↔
      ∃ node, layout.node fragment.node = .ok node ∧
        draw fragment.layerMap node.geometry = .ok result.runs ∧
        List.Forall₂ (fun child made =>
          edge layout settings fragment.layerMap child.1 child.2 = .ok made) node.children result.edges := by
  constructor
  · exact body_eq_ok
  · intro parts
    obtain ⟨node, found, drawn, edges⟩ := parts
    exact bind_eq_ok_iff.mpr ⟨node, ofLayout_eq_ok_iff.mpr found, bind_eq_ok_iff.mpr
      ⟨result.runs, ofLayout_eq_ok_iff.mpr drawn, bind_eq_ok_iff.mpr
        ⟨result.edges, mapM_eq_ok_iff.mpr edges, rfl⟩⟩⟩

theorem body_calls {layout : Layout K} {settings : Settings K} {fragment : Fragment} {result : Body K}
    (success : body layout settings fragment = .ok result) :
    result.calls = callees layout fragment := by
  obtain ⟨node, found, _, made⟩ := body_eq_ok success
  unfold Body.calls callees
  simp only [found]
  generalize node.children = children, result.edges = edges at made
  induction made with
  | nil => rfl
  | cons first _ ih =>
    rw [List.flatMap_cons, ih, edge_calls first, List.filterMap_cons]
    cases callee? layout fragment.layerMap _ <;> rfl

theorem body_expansions {layout : Layout K} {settings : Settings K} {fragment : Fragment}
    {result : Body K} (success : body layout settings fragment = .ok result) :
    result.edges.countP Edge.isInline = expansions layout fragment := by
  obtain ⟨node, found, _, made⟩ := body_eq_ok success
  unfold expansions
  simp only [found]
  generalize node.children = children, result.edges = edges at made
  induction made with
  | nil => rfl
  | cons first _ ih => rw [List.countP_cons, List.countP_cons, ih, edge_isInline first]

omit [Scalar K] in
@[simp] theorem Defined.fragments_nil : Defined.fragments ([] : Defined K) = [] := rfl

omit [Scalar K] in
@[simp] theorem Defined.fragments_singleton (fragment : Fragment) (made : Body K) :
    Defined.fragments [(fragment, made)] = [fragment] := rfl

omit [Scalar K] in
@[simp] theorem Defined.length_fragments (defined : Defined K) :
    defined.fragments.length = defined.length := List.length_map _

omit [Scalar K] in
theorem Defined.fragments_append (defined added : Defined K) :
    Defined.fragments (defined ++ added) = defined.fragments ++ added.fragments :=
  List.map_append

/-- Fragments with the bodies that are made of them. -/
def Defined.Made (layout : Layout K) (settings : Settings K) (defined : Defined K) : Prop :=
  ∀ entry ∈ defined, body layout settings entry.1 = .ok entry.2

/-- What defining pending fragments does: those that are new get their bodies, in order, and what
these call comes to what is pending later. -/
def Extended (layout : Layout K) (settings : Settings K) (pending : List Fragment)
    (before after : Defined K × List Fragment) : Prop :=
  ∃ added : Defined K, after.1 = before.1 ++ added ∧ added.Made layout settings ∧
    added.fragments = news before.1.fragments pending ∧
    after.2 = before.2 ++ added.fragments.flatMap (callees layout)

private theorem Extended.trans {layout : Layout K} {settings : Settings K} {first second : List Fragment}
    {before between after : Defined K × List Fragment}
    (start : Extended layout settings first before between)
    (rest : Extended layout settings second between after) :
    Extended layout settings (first ++ second) before after := by
  obtain ⟨added, grown, made, order, collected⟩ := start
  obtain ⟨more, grown', made', order', collected'⟩ := rest
  rw [grown, Defined.fragments_append, order] at order'
  refine ⟨added ++ more, ?_, ?_, ?_, ?_⟩
  · rw [grown', grown, List.append_assoc]
  · intro entry member
    exact (List.mem_append.mp member).elim (made entry) (made' entry)
  · rw [Defined.fragments_append, news_append, order, order']
  · rw [collected', collected, Defined.fragments_append, List.flatMap_append, List.append_assoc]

theorem define_eq_ok {layout : Layout K} {settings : Settings K} {state next : Defined K × List Fragment}
    {fragment : Fragment} (success : define layout settings state fragment = .ok next) :
    Extended layout settings [fragment] state next := by
  unfold define at success
  split at success
  · rename_i known
    cases Except.ok.inj success
    exact ⟨[], by simp, by simp [Defined.Made], by simp [news, known], by simp⟩
  · rename_i fresh
    obtain ⟨made, found, same⟩ := bind_eq_ok_iff.mp success
    cases Except.ok.inj same
    refine ⟨[(fragment, made)], rfl, by simpa [Defined.Made] using found, ?_, ?_⟩
    · simp [news, fresh]
    · simp [body_calls found]

theorem pass_eq_ok {layout : Layout K} {settings : Settings K} {defined : Defined K}
    {pending : List Fragment} {after : Defined K × List Fragment}
    (success : pass layout settings defined pending = .ok after) :
    Extended layout settings pending (defined, []) after := by
  unfold pass at success
  generalize (defined, ([] : List Fragment)) = state at success
  induction pending generalizing state with
  | nil =>
    cases Except.ok.inj success
    exact ⟨[], by simp, by simp [Defined.Made], rfl, by simp⟩
  | cons fragment rest ih =>
    rw [List.foldlM_cons] at success
    obtain ⟨next, first, later⟩ := bind_eq_ok_iff.mp success
    exact (define_eq_ok first).trans (ih next later)

/-- A pass that defines nothing leaves nothing pending. -/
theorem stopped_pass {layout : Layout K} {settings : Settings K} {defined extended : Defined K}
    {pending later : List Fragment}
    (passed : pass layout settings defined pending = .ok (extended, later))
    (stopped : extended.length = defined.length) : extended = defined ∧ later = [] := by
  obtain ⟨added, grown, _, _, collected⟩ := pass_eq_ok passed
  simp only at grown collected
  have none : added = [] := by
    rw [grown, List.length_append] at stopped
    exact List.length_eq_zero_iff.mp (by omega)
  rw [none] at grown collected
  exact ⟨by rw [grown, List.append_nil], by rw [collected]; rfl⟩

private theorem last_pass {layout : Layout K} {settings : Settings K} {defined extended : Defined K}
    {pending later : List Fragment}
    (passed : pass layout settings defined pending = .ok (extended, later))
    (stopped : extended.length = defined.length) (made : defined.Made layout settings) :
    Sweeps (callees layout) defined.fragments pending extended.fragments 1 ∧
      extended.Made layout settings := by
  obtain ⟨rfl, _⟩ := stopped_pass passed stopped
  obtain ⟨added, grown, _, order, _⟩ := pass_eq_ok passed
  rw [List.self_eq_append_right.mp grown, Defined.fragments_nil] at order
  exact ⟨.last order.symm, made⟩

private theorem next_pass {layout : Layout K} {settings : Settings K} {defined extended all : Defined K}
    {pending later : List Fragment} {count : Nat}
    (passed : pass layout settings defined pending = .ok (extended, later))
    (further : extended.length ≠ defined.length) (made : defined.Made layout settings)
    (rest : extended.Made layout settings →
      Sweeps (callees layout) extended.fragments later all.fragments count ∧
        all.Made layout settings) :
    Sweeps (callees layout) defined.fragments pending all.fragments (count + 1) ∧
      all.Made layout settings := by
  obtain ⟨added, grown, new, order, collected⟩ := pass_eq_ok passed
  simp only [List.nil_append] at grown order collected
  have both : extended.Made layout settings := by
    intro entry member
    rw [grown] at member
    exact (List.mem_append.mp member).elim (made entry) (new entry)
  obtain ⟨sweeps, finished⟩ := rest both
  rw [grown, Defined.fragments_append, order, collected, order] at sweeps
  refine ⟨.sweep (fun nothing => ?_) sweeps, finished⟩
  rw [nothing] at order
  have none : added = [] := List.map_eq_nil_iff.mp order
  exact further (by rw [grown, none, List.append_nil])

/-- The passes are the sweeps of a breadth-first search along the calls. -/
theorem passes_eq_ok {layout : Layout K} {settings : Settings K} {allowance count : Nat}
    {defined all : Defined K} {pending : List Fragment}
    (success : passes layout settings allowance defined pending = .ok (all, count))
    (made : defined.Made layout settings) :
    Sweeps (callees layout) defined.fragments pending all.fragments count ∧
      all.Made layout settings := by
  induction allowance generalizing defined pending all count with
  | zero =>
    unfold passes at success
    split at success
    · cases success
    · rename_i extended later passed
      split at success
      · rename_i stopped
        obtain ⟨rfl, rfl⟩ := Prod.mk.inj (Except.ok.inj success)
        exact last_pass passed stopped made
      · cases success
  | succ allowance ih =>
    unfold passes at success
    split at success
    · cases success
    · rename_i extended later passed
      split at success
      · rename_i stopped
        obtain ⟨rfl, rfl⟩ := Prod.mk.inj (Except.ok.inj success)
        exact last_pass passed stopped made
      · rename_i further
        obtain ⟨⟨rest, rounds⟩, followed, same⟩ := bind_eq_ok_iff.mp success
        obtain ⟨rfl, rfl⟩ := Prod.mk.inj (Except.ok.inj same)
        exact next_pass passed further made (ih followed)

end Cif

end MaskLayout
