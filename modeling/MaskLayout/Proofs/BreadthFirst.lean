import Mathlib.Order.Bounds.Basic

/-!
Breadth-first search along lists of successors. It is told in two ways: item by item with a queue,
and by sweeps, each of which takes in all that the one before has brought up. Both discover the same
items in the same order, and the number of sweeps is the greatest distance and two more.
-/
namespace MaskLayout.BreadthFirst

variable {α : Type}

/-- A way from the root along so many successors. -/
inductive Walk (next : α → List α) (root : α) : Nat → α → Prop where
  | start : Walk next root 0 root
  | step {length : Nat} {item other : α} (way : Walk next root length item)
      (member : other ∈ next item) : Walk next root (length + 1) other

/-- The greatest distance of an item from the root, by the shortest way to each. -/
def Farthest (next : α → List α) (root : α) (distance : Nat) : Prop :=
  IsGreatest {shortest | ∃ item, IsLeast {length | Walk next root length item} shortest} distance

variable [DecidableEq α]

/-- The items that are not known yet, each once, in the order in which they come up. -/
def news (known : List α) : List α → List α
  | [] => []
  | item :: rest => if item ∈ known then news known rest else item :: news (item :: known) rest

/-- The search with a queue. An item that is taken out puts what it discovers at the end. -/
inductive Search (next : α → List α) : List α → List α → List α → Prop where
  | done {found : List α} : Search next [] found found
  | take {item : α} {queue found all : List α}
      (rest : Search next (queue ++ news found (next item)) (found ++ news found (next item)) all) :
      Search next (item :: queue) found all

/-- The search by sweeps, with their number; the last one finds nothing new. -/
inductive Sweeps (next : α → List α) : List α → List α → List α → Nat → Prop where
  | last {known pending : List α} (nothing : news known pending = []) :
      Sweeps next known pending known 1
  | sweep {known pending all : List α} {count : Nat} (something : news known pending ≠ [])
      (rest : Sweeps next (known ++ news known pending) ((news known pending).flatMap next) all count) :
      Sweeps next known pending all (count + 1)

theorem mem_news {known items : List α} {item : α} :
    item ∈ news known items ↔ item ∈ items ∧ item ∉ known := by
  induction items generalizing known with
  | nil => simp [news]
  | cons head rest ih =>
    unfold news
    split
    · rename_i old
      rw [ih, List.mem_cons]
      constructor
      · intro new
        obtain ⟨later, fresh⟩ := new
        exact ⟨.inr later, fresh⟩
      · intro new
        obtain ⟨same | later, fresh⟩ := new
        · exact absurd (same ▸ old) fresh
        · exact ⟨later, fresh⟩
    · rename_i fresh
      rw [List.mem_cons, ih, List.mem_cons, List.mem_cons]
      by_cases same : item = head
      · simp [same, fresh]
      · simp [same]

private theorem nodup_news (known items : List α) : (news known items).Nodup := by
  induction items generalizing known with
  | nil => exact .nil
  | cons head rest ih =>
    unfold news
    split
    · exact ih known
    · refine List.nodup_cons.mpr ⟨fun again => ?_, ih (head :: known)⟩
      exact (mem_news.mp again).2 (by simp)

theorem nodup_append_news {known : List α} (distinct : known.Nodup) (items : List α) :
    (known ++ news known items).Nodup := by
  refine List.nodup_append.mpr ⟨distinct, nodup_news known items, fun old member other fresh same => ?_⟩
  exact (mem_news.mp fresh).2 (same ▸ member)

/-- Only which items are known matters, not in which order they are. -/
theorem news_congr {known other : List α} (same : ∀ item, item ∈ known ↔ item ∈ other)
    (items : List α) : news known items = news other items := by
  induction items generalizing known other with
  | nil => rfl
  | cons head rest ih =>
    have longer : ∀ item, item ∈ head :: known ↔ item ∈ head :: other := by
      intro item
      rw [List.mem_cons, List.mem_cons, same]
    simp only [news, same head, ih same, ih longer]

theorem news_append (known first second : List α) :
    news known (first ++ second) = news known first ++ news (known ++ news known first) second := by
  induction first generalizing known with
  | nil => simp [news]
  | cons head rest ih =>
    simp only [List.cons_append, news]
    split
    · exact ih known
    · rw [ih, List.cons_append]
      congr 2
      apply news_congr
      intro item
      simp only [List.mem_append, List.mem_cons]
      tauto

/-- The queue takes out a block of items one by one, as if all were taken at once. -/
theorem Search.block {next : α → List α} (block : List α) {queue found all : List α}
    (rest : Search next (queue ++ news found (block.flatMap next))
      (found ++ news found (block.flatMap next)) all) :
    Search next (block ++ queue) found all := by
  induction block generalizing queue found with
  | nil => simpa [news] using rest
  | cons head block ih =>
    rw [List.flatMap_cons, news_append, ← List.append_assoc, ← List.append_assoc] at rest
    have later := ih rest
    rw [← List.append_assoc] at later
    exact .take later

private theorem Sweeps.search {next : α → List α} {known pending all : List α} {count : Nat}
    (sweeps : Sweeps next known pending all count) :
    Search next (news known pending) (known ++ news known pending) all := by
  induction sweeps with
  | last nothing =>
    rw [nothing, List.append_nil]
    exact .done
  | @sweep known pending all count something rest ih =>
    have taken : Search next (news known pending ++ []) (known ++ news known pending) all :=
      .block (news known pending) ih
    rwa [List.append_nil] at taken

private theorem Sweeps.nodup {next : α → List α} {known pending all : List α} {count : Nat}
    (sweeps : Sweeps next known pending all count) (distinct : known.Nodup) : all.Nodup := by
  induction sweeps with
  | last nothing => exact distinct
  | sweep something rest ih => exact ih (nodup_append_news distinct _)

private theorem Sweeps.extends {next : α → List α} {known pending all : List α} {count : Nat}
    (sweeps : Sweeps next known pending all count) : known ++ news known pending <+: all := by
  induction sweeps with
  | last nothing => simp [nothing]
  | sweep something rest ih => exact (List.prefix_append _ _).trans ih

theorem Sweeps.mem_of_pending {next : α → List α} {known pending all : List α} {count : Nat}
    (sweeps : Sweeps next known pending all count) {item : α} (member : item ∈ pending) : item ∈ all := by
  apply sweeps.extends.subset
  by_cases old : item ∈ known
  · exact List.mem_append_left _ old
  · exact List.mem_append_right _ (mem_news.mpr ⟨member, old⟩)

/-- Only the successors of what is found matter. -/
theorem Sweeps.congr {next other : α → List α} {known pending all : List α} {count : Nat}
    (sweeps : Sweeps next known pending all count) (same : ∀ item ∈ all, next item = other item) :
    Sweeps other known pending all count := by
  induction sweeps with
  | last nothing => exact .last nothing
  | @sweep known pending all count something rest ih =>
    have fresh : (news known pending).flatMap next = (news known pending).flatMap other := by
      rw [List.flatMap_def, List.flatMap_def]
      refine congrArg List.flatten (List.map_congr_left fun item member => same item ?_)
      exact (Sweeps.sweep something rest).extends.subset (List.mem_append_right _ member)
    exact .sweep something (fresh ▸ ih same)

theorem Sweeps.head? {next : α → List α} {root : α} {all : List α} {count : Nat}
    (sweeps : Sweeps next [] [root] all count) : all.head? = some root := by
  obtain ⟨rest, same⟩ := sweeps.extends
  rw [← same]
  rfl

theorem Sweeps.count_pos {next : α → List α} {known pending all : List α} {count : Nat}
    (sweeps : Sweeps next known pending all count) : 0 < count := by
  cases sweeps with
  | last nothing => exact Nat.one_pos
  | sweep something rest => exact Nat.succ_pos _

/-- Where the sweeps stand after so many of them. -/
structure Level (next : α → List α) (root : α) (distance : Nat) (known pending : List α) : Prop where
  nearer : ∀ item, item ∈ known ↔ ∃ length < distance, Walk next root length item
  walk : ∀ item ∈ pending, Walk next root distance item
  reached : ∀ item, Walk next root distance item → item ∈ pending ∨ item ∈ known

omit [DecidableEq α] in
theorem Level.start (next : α → List α) (root : α) : Level next root 0 [] [root] where
  nearer item := by simp
  walk item member := by
    rw [List.mem_singleton.mp member]
    exact .start
  reached item way := by
    cases way with
    | start => simp

theorem Level.sweep {next : α → List α} {root : α} {distance : Nat} {known pending : List α}
    (level : Level next root distance known pending) :
    Level next root (distance + 1) (known ++ news known pending)
      ((news known pending).flatMap next) := by
  have nearer (item : α) : item ∈ known ++ news known pending ↔
      ∃ length < distance + 1, Walk next root length item := by
    rw [List.mem_append, mem_news]
    constructor
    · intro member
      rcases member with old | ⟨fresh, _⟩
      · obtain ⟨length, near, way⟩ := (level.nearer item).mp old
        exact ⟨length, by omega, way⟩
      · exact ⟨distance, by omega, level.walk item fresh⟩
    · intro close
      obtain ⟨length, near, way⟩ := close
      by_cases old : item ∈ known
      · exact .inl old
      · have same : length = distance := by
          have far : ¬ length < distance := fun nearer => old ((level.nearer item).mpr ⟨length, nearer, way⟩)
          omega
        exact .inr ⟨(level.reached item (same ▸ way)).resolve_right old, old⟩
  refine ⟨nearer, fun item member => ?_, fun item way => ?_⟩
  · obtain ⟨source, fresh, step⟩ := List.mem_flatMap.mp member
    exact .step (level.walk source (mem_news.mp fresh).1) step
  · cases way with
    | @step length source other way step =>
      by_cases old : source ∈ known
      · -- A shorter way to the source is a shorter way to the item as well.
        obtain ⟨shorter, near, detour⟩ := (level.nearer source).mp old
        exact .inr ((nearer item).mpr ⟨shorter + 1, by omega, .step detour step⟩)
      · have pending := (level.reached source way).resolve_right old
        exact .inl (List.mem_flatMap.mpr ⟨source, mem_news.mpr ⟨pending, old⟩, step⟩)

/-- When a sweep finds nothing new, every way has been followed to its end. -/
theorem Level.complete {next : α → List α} {root : α} {distance : Nat} {known pending : List α}
    (level : Level next root distance known pending) (nothing : news known pending = [])
    {length : Nat} {item : α} (way : Walk next root length item) : item ∈ known := by
  have after := level.sweep
  rw [nothing, List.append_nil] at after
  induction way with
  | start =>
    exact (after.nearer root).mpr ⟨0, by omega, .start⟩
  | step way step ih =>
    obtain ⟨shorter, near, detour⟩ := (level.nearer _).mp ih
    exact (after.nearer _).mpr ⟨shorter + 1, by omega, .step detour step⟩

theorem Sweeps.mem_iff {next : α → List α} {root : α} {distance : Nat} {known pending all : List α}
    {count : Nat} (sweeps : Sweeps next known pending all count)
    (level : Level next root distance known pending) (item : α) :
    item ∈ all ↔ ∃ length, Walk next root length item := by
  induction sweeps generalizing distance with
  | last nothing =>
    constructor
    · intro member
      obtain ⟨length, _, way⟩ := (level.nearer item).mp member
      exact ⟨length, way⟩
    · intro reachable
      obtain ⟨length, way⟩ := reachable
      exact level.complete nothing way
  | sweep something rest ih => exact ih level.sweep

/-- Each item is found by the sweep of its distance at the latest. -/
theorem Sweeps.near {next : α → List α} {root : α} {distance : Nat} {known pending all : List α}
    {count : Nat} (sweeps : Sweeps next known pending all count)
    (level : Level next root distance known pending) {item : α} (member : item ∈ all) :
    ∃ length, length + 1 < distance + count ∧ Walk next root length item := by
  induction sweeps generalizing distance with
  | last nothing =>
    obtain ⟨length, near, way⟩ := (level.nearer item).mp member
    exact ⟨length, by omega, way⟩
  | sweep something rest ih =>
    obtain ⟨length, near, way⟩ := ih level.sweep member
    exact ⟨length, by omega, way⟩

/-- The last sweep but one still finds something, to which there is no shorter way. -/
theorem Sweeps.far {next : α → List α} {root : α} {distance : Nat} {known pending all : List α}
    {count : Nat} (sweeps : Sweeps next known pending all (count + 2))
    (level : Level next root distance known pending) :
    ∃ item, IsLeast {length | Walk next root length item} (distance + count) := by
  generalize total : count + 2 = number at sweeps
  induction sweeps generalizing distance count with
  | last nothing => omega
  | @sweep known pending all rounds something rest ih =>
    cases count with
    | zero =>
      obtain ⟨item, fresh⟩ := List.exists_mem_of_ne_nil _ something
      obtain ⟨found, unknown⟩ := mem_news.mp fresh
      refine ⟨item, level.walk item found, fun length way => ?_⟩
      have far : ¬ length < distance := fun near => unknown ((level.nearer item).mpr ⟨length, near, way⟩)
      omega
    | succ count =>
      have rounds_eq : count + 2 = rounds := by omega
      obtain ⟨item, least⟩ := ih level.sweep rounds_eq
      exact ⟨item, by rwa [Nat.add_right_comm] at least⟩

/-- A search by sweeps from one root: it discovers what can be reached, each item once and in the
order of the queue, in as many sweeps as the greatest distance and two more. -/
theorem Sweeps.spec {next : α → List α} {root : α} {all : List α} {count : Nat}
    (sweeps : Sweeps next [] [root] all count) :
    Search next [root] [root] all ∧ all.Nodup ∧
      (∀ item, item ∈ all ↔ ∃ length, Walk next root length item) ∧
      ∃ distance, Farthest next root distance ∧ count = distance + 2 := by
  have level := Level.start next root
  have first : news [] [root] = [root] := rfl
  refine ⟨?_, sweeps.nodup .nil, sweeps.mem_iff level, ?_⟩
  · simpa [first] using sweeps.search
  · obtain ⟨distance, rfl⟩ : ∃ distance, count = distance + 2 := by
      cases sweeps with
      | last nothing => simp [first] at nothing
      | @sweep _ _ _ count something rest =>
        have positive := rest.count_pos
        exact ⟨count - 1, by omega⟩
    refine ⟨distance, ⟨?_, ?_⟩, rfl⟩
    · simpa using sweeps.far level
    · intro shortest distant
      obtain ⟨item, way, least⟩ := distant
      obtain ⟨length, near, other⟩ := sweeps.near level ((sweeps.mem_iff level item).mpr ⟨_, way⟩)
      have bound := least other
      omega

end MaskLayout.BreadthFirst
