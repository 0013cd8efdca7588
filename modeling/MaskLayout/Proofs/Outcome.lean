import Mathlib.Data.List.Forall2

namespace MaskLayout

variable {ε σ α β γ : Type}

/-- What holds of a computation: one property of its value, another of its error. -/
def Outcome (good : α → Prop) (bad : ε → Prop) : Except ε α → Prop
  | .ok value => good value
  | .error error => bad error

theorem Outcome.weaken {good better : α → Prop} {bad worse : ε → Prop} {result : Except ε α}
    (outcome : Outcome good bad result) (stronger : ∀ value, good value → better value)
    (wider : ∀ error, bad error → worse error) : Outcome better worse result := by
  cases result with
  | ok value => exact stronger value outcome
  | error error => exact wider error outcome

theorem Outcome.mono {good better : α → Prop} {bad : ε → Prop} {result : Except ε α}
    (outcome : Outcome good bad result) (stronger : ∀ value, good value → better value) :
    Outcome better bad result :=
  outcome.weaken stronger fun _ same => same

theorem Outcome.bind {good : α → Prop} {next : β → Prop} {bad : ε → Prop} {first : Except ε α}
    {rest : α → Except ε β} (start : Outcome good bad first)
    (follow : ∀ value, good value → Outcome next bad (rest value)) :
    Outcome next bad (first >>= rest) := by
  cases first with
  | ok value => exact follow value start
  | error error => exact start

/-- Two things that are known of one computation. -/
theorem Outcome.and {good better : α → Prop} {bad worse : ε → Prop} {result : Except ε α}
    (first : Outcome good bad result) (second : Outcome better worse result) :
    Outcome (fun value => good value ∧ better value) (fun error => bad error ∧ worse error) result := by
  cases result with
  | ok value => exact ⟨first, second⟩
  | error error => exact ⟨first, second⟩

/-- Every item of a fold is settled by its own step, and the steps keep what the first one finds. -/
theorem Outcome.foldlM (keeps : σ → Prop) (settled : α → Prop) {bad : ε → Prop}
    {step : σ → α → Except ε σ} (items : List α)
    (each : ∀ item ∈ items, ∀ state, keeps state →
      Outcome (fun next => keeps next ∧ settled item) bad (step state item))
    {state : σ} (start : keeps state) :
    Outcome (fun last => keeps last ∧ ∀ item ∈ items, settled item) bad
      (items.foldlM step state) := by
  induction items generalizing state with
  | nil => exact ⟨start, by simp⟩
  | cons item rest ih =>
    rw [List.foldlM_cons]
    refine (each item (by simp) state start).bind fun next kept => ?_
    have later := ih (fun other member => each other (by simp [member])) kept.1
    refine later.mono fun last done => ⟨done.1, fun other member => ?_⟩
    rcases List.mem_cons.mp member with same | member
    · exact same ▸ kept.2
    · exact done.2 other member

/-- What every step of a fold keeps. -/
theorem Outcome.foldlM_keeps {keeps : σ → Prop} {bad : ε → Prop} {step : σ → α → Except ε σ}
    (items : List α)
    (each : ∀ item ∈ items, ∀ state, keeps state → Outcome keeps bad (step state item))
    {state : σ} (start : keeps state) : Outcome keeps bad (items.foldlM step state) := by
  refine (Outcome.foldlM keeps (fun _ => True) items (fun item member state kept => ?_) start).mono
    fun _ both => both.1
  exact (each item member state kept).mono fun _ next => ⟨next, trivial⟩

theorem Outcome.forM {settled : α → Prop} {bad : ε → Prop} {step : α → Except ε PUnit}
    (items : List α)
    (each : ∀ item ∈ items, Outcome (fun _ => settled item) bad (step item)) :
    Outcome (fun _ => ∀ item ∈ items, settled item) bad (items.forM step) := by
  induction items with
  | nil => simp [Outcome, pure, Except.pure]
  | cons item rest ih =>
    rw [List.forM_eq_forM, List.forM_cons]
    refine (each item (by simp)).bind fun _ first => ?_
    have later := ih fun other member => each other (by simp [member])
    exact later.mono fun _ others => List.forall_mem_cons.mpr ⟨first, others⟩

/-- Items that are computed one by one come out well, or fail as one of them does. -/
theorem Outcome.mapM (good : β → Prop) {bad : ε → Prop} {each : α → Except ε β} (items : List α)
    (one : ∀ item ∈ items, Outcome good bad (each item)) :
    Outcome (fun results => ∀ result ∈ results, good result) bad (items.mapM each) := by
  induction items with
  | nil => simp [Outcome, pure, Except.pure]
  | cons item rest ih =>
    rw [List.mapM_cons]
    refine (one item (by simp)).bind fun first found => ?_
    refine (ih fun other member => one other (by simp [member])).bind fun others later => ?_
    exact List.forall_mem_cons.mpr ⟨found, later⟩

/-- A computation that can fail only in some ways. -/
abbrev FailsOnly (bad : ε → Prop) (result : Except ε α) : Prop := Outcome (fun _ => True) bad result

theorem FailsOnly.isOk {bad : ε → Prop} {result : Except ε α} (outcome : FailsOnly bad result)
    (never : ∀ error, ¬ bad error) : result.isOk := by
  cases result with
  | ok value => rfl
  | error error => exact absurd outcome (never error)

@[simp] theorem ok_bind (value : α) (rest : α → Except ε β) :
    (Except.ok value >>= rest) = rest value := rfl

@[simp] theorem error_bind (error : ε) (rest : α → Except ε β) :
    (Except.error error >>= rest) = .error error := rfl

theorem bind_eq_ok_iff {first : Except ε α} {rest : α → Except ε β} {result : β} :
    first >>= rest = .ok result ↔ ∃ value, first = .ok value ∧ rest value = .ok result := by
  cases first with
  | ok value => simp [bind, Except.bind]
  | error error => simp [bind, Except.bind]

theorem mem_toOption_iff {result : Except ε α} {value : α} :
    value ∈ result.toOption ↔ result = .ok value := by
  cases result with
  | ok other => simp [Except.toOption, eq_comm]
  | error error => simp [Except.toOption]

theorem exists_eq_ok_iff {result : Except ε α} : (∃ value, result = .ok value) ↔ result.isOk := by
  cases result with
  | ok value => simp [Except.isOk, Except.toBool]
  | error error => simp [Except.isOk, Except.toBool]

/-- Two computations have the same values if they have the same optional result. -/
theorem forall_eq_ok_iff {first second : Except ε α} :
    (∀ value, first = .ok value ↔ second = .ok value) ↔ first.toOption = second.toOption := by
  simp only [← mem_toOption_iff]
  exact Option.ext_iff.symm

theorem map_eq_ok_iff {change : α → β} {result : Except ε α} {value : β} :
    result.map change = .ok value ↔ ∃ source, result = .ok source ∧ change source = value := by
  cases result with
  | ok source => simp [Except.map]
  | error error => simp [Except.map]

theorem map_eq_error_iff {change : α → β} {result : Except ε α} {error : ε} :
    result.map change = .error error ↔ result = .error error := by
  cases result with
  | ok source => simp [Except.map]
  | error other => simp [Except.map]

theorem map_of_bind {first : Except ε α} {rest : α → Except ε β} {change : β → γ} :
    (first >>= rest).map change = first >>= fun value => (rest value).map change := by
  cases first <;> rfl

theorem bind_of_map {first : Except ε α} {change : α → β} {rest : β → Except ε γ} :
    first.map change >>= rest = first >>= fun value => rest (change value) := by
  cases first <;> rfl

/-- Two computations that fail alike, or come to related values. -/
inductive Follows (related : α → β → Prop) : Except ε α → Except ε β → Prop where
  | ok {value : α} {other : β} (pair : related value other) : Follows related (.ok value) (.ok other)
  | error (error : ε) : Follows related (.error error) (.error error)

theorem Follows.bind {σ τ : Type} {related : α → β → Prop} {onward : σ → τ → Prop}
    {first : Except ε α} {second : Except ε β} {rest : α → Except ε σ} {other : β → Except ε τ}
    (start : Follows related first second)
    (each : ∀ value twin, related value twin → Follows onward (rest value) (other twin)) :
    Follows onward (first >>= rest) (second >>= other) := by
  cases start with
  | ok pair => exact each _ _ pair
  | error error => exact .error error

theorem Follows.of_error {related : α → β → Prop} {first : Except ε α} {error : ε}
    (follows : Follows related first (.error error)) : first = .error error := by
  cases follows
  rfl

theorem Follows.of_ok {related : α → β → Prop} {first : Except ε α} {value : β}
    (follows : Follows related first (.ok value)) : ∃ own, first = .ok own ∧ related own value := by
  cases follows with
  | ok pair => exact ⟨_, rfl, pair⟩

/-- The second computation comes to what the first one comes to, if that succeeds. -/
def Upheld (first second : Except ε α) : Prop := ∀ value, first = .ok value → second = .ok value

theorem Upheld.refl (result : Except ε α) : Upheld result result := fun _ success => success

theorem Upheld.bind {first second : Except ε α} {rest other : α → Except ε β}
    (start : Upheld first second)
    (follow : ∀ value, first = .ok value → Upheld (rest value) (other value)) :
    Upheld (first >>= rest) (second >>= other) := by
  intro result success
  obtain ⟨value, found, later⟩ := bind_eq_ok_iff.mp success
  exact bind_eq_ok_iff.mpr ⟨value, start value found, follow value found result later⟩

/-- The same continuation after two computations. -/
theorem Upheld.then {first second : Except ε α} (start : Upheld first second) (rest : α → Except ε β) :
    Upheld (first >>= rest) (second >>= rest) :=
  start.bind fun value _ => .refl (rest value)

theorem mapM_eq_ok_iff {each : α → Except ε β} {items : List α} {results : List β} :
    items.mapM each = .ok results ↔
      List.Forall₂ (fun item result => each item = .ok result) items results := by
  induction items generalizing results with
  | nil => simp [pure, Except.pure, eq_comm]
  | cons item rest ih =>
    rw [List.mapM_cons, bind_eq_ok_iff, List.forall₂_cons_left_iff]
    constructor
    · intro success
      obtain ⟨first, found, later⟩ := success
      obtain ⟨others, collected, same⟩ := bind_eq_ok_iff.mp later
      exact ⟨first, others, found, ih.mp collected, (Except.ok.inj same).symm⟩
    · intro pairs
      obtain ⟨first, others, found, collected, same⟩ := pairs
      exact ⟨first, found, bind_eq_ok_iff.mpr ⟨others, ih.mpr collected, by rw [same]; rfl⟩⟩

/-- A fold over a list whose members are known to be in it. -/
theorem foldlM_attach {step : σ → α → Except ε σ} {items : List α} {state : σ} :
    items.attach.foldlM (fun state item => step state item.1) state = items.foldlM step state := by
  conv_rhs => rw [← List.attach_map_subtype_val items, List.foldlM_map]

/-- Every item of a fold that succeeds has a step that does. -/
theorem exists_step_of_foldlM {step : σ → α → Except ε σ} {items : List α} {state last : σ}
    (success : items.foldlM step state = .ok last) :
    ∀ item ∈ items, ∃ before next, step before item = .ok next := by
  induction items generalizing state with
  | nil => simp
  | cons item rest ih =>
    rw [List.foldlM_cons] at success
    obtain ⟨next, moved, later⟩ := bind_eq_ok_iff.mp success
    exact List.forall_mem_cons.mpr ⟨⟨state, next, moved⟩, ih later⟩

theorem exists_foldlM {step : σ → α → Except ε σ} {items : List α}
    (each : ∀ item ∈ items, ∀ before, ∃ next, step before item = .ok next) (state : σ) :
    ∃ last, items.foldlM step state = .ok last := by
  induction items generalizing state with
  | nil => exact ⟨state, rfl⟩
  | cons item rest ih =>
    obtain ⟨first, others⟩ := List.forall_mem_cons.mp each
    obtain ⟨next, moved⟩ := first state
    obtain ⟨last, folded⟩ := ih others next
    exact ⟨last, by rw [List.foldlM_cons, moved]; exact folded⟩

/-- A fold whose steps first compute something from their items, and then go on with that. -/
theorem foldlM_bind_eq_ok_iff {each : α → Except ε β} {step : σ → β → Except ε σ} {items : List α}
    {state last : σ} :
    items.foldlM (fun state item => each item >>= step state) state = .ok last ↔
      ∃ results, List.Forall₂ (fun item result => each item = .ok result) items results ∧
        results.foldlM step state = .ok last := by
  induction items generalizing state with
  | nil => simp
  | cons item rest ih =>
    simp only [List.foldlM_cons, bind_eq_ok_iff, ih, List.forall₂_cons_left_iff]
    constructor
    · rintro ⟨next, ⟨first, found, moved⟩, others, pairs, later⟩
      exact ⟨first :: others, ⟨first, others, found, pairs, rfl⟩,
        bind_eq_ok_iff.mpr ⟨next, moved, later⟩⟩
    · rintro ⟨_, ⟨first, others, found, pairs, rfl⟩, folded⟩
      obtain ⟨next, moved, later⟩ := bind_eq_ok_iff.mp folded
      exact ⟨next, ⟨first, found, moved⟩, others, pairs, later⟩

theorem Upheld.mapM {each other : α → Except ε β} {items : List α}
    (one : ∀ item ∈ items, Upheld (each item) (other item)) :
    Upheld (items.mapM each) (items.mapM other) := by
  induction items with
  | nil => exact .refl _
  | cons item rest ih =>
    obtain ⟨first, others⟩ := List.forall_mem_cons.mp one
    rw [List.mapM_cons, List.mapM_cons]
    exact first.bind fun _ _ => (ih others).then _

theorem exists_mapM_iff {each : α → Except ε β} {items : List α} :
    (∃ results, items.mapM each = .ok results) ↔ ∀ item ∈ items, ∃ result, each item = .ok result := by
  induction items with
  | nil => simp [pure, Except.pure]
  | cons item rest ih =>
    rw [List.forall_mem_cons, ← ih]
    constructor
    · intro success
      obtain ⟨results, collected⟩ := success
      cases mapM_eq_ok_iff.mp collected with
      | cons first later => exact ⟨⟨_, first⟩, _, mapM_eq_ok_iff.mpr later⟩
    · intro parts
      obtain ⟨⟨first, found⟩, others, collected⟩ := parts
      exact ⟨first :: others, mapM_eq_ok_iff.mpr (.cons found (mapM_eq_ok_iff.mp collected))⟩

/-- Computations that agree item by item have the same results, or the same error. -/
theorem mapM_congr {each : α → Except ε β} {other : γ → Except ε β} {items : List α} {twins : List γ}
    (pairs : List.Forall₂ (fun item twin => each item = other twin) items twins) :
    items.mapM each = twins.mapM other := by
  induction pairs with
  | nil => rfl
  | cons same _ ih => rw [List.mapM_cons, List.mapM_cons, same, ih]

/-- Results that are changed one by one, or all together. -/
theorem mapM_of_map {each : α → Except ε β} {change : β → γ} {items : List α} :
    items.mapM (fun item => (each item).map change) = (items.mapM each).map (List.map change) := by
  induction items with
  | nil => rfl
  | cons item rest ih =>
    rw [List.mapM_cons, List.mapM_cons, ih]
    cases each item with
    | error error => rfl
    | ok result => cases rest.mapM each <;> rfl

/-- A change that every step of a fold goes along with. -/
theorem foldlM_of_map {τ : Type} {step : σ → α → Except ε σ} {other : τ → α → Except ε τ}
    (change : σ → τ) {items : List α}
    (each : ∀ state, ∀ item ∈ items, other (change state) item = (step state item).map change)
    (state : σ) : items.foldlM other (change state) = (items.foldlM step state).map change := by
  induction items generalizing state with
  | nil => rfl
  | cons item rest ih =>
    rw [List.foldlM_cons, List.foldlM_cons, each state item (by simp), bind_of_map, map_of_bind]
    exact bind_congr fun next => ih (fun state item member => each state item (by simp [member])) next

/-- Every result of a list of items is the result of one of them. -/
theorem exists_mem_of_forall₂ {related : α → β → Prop} {items : List α} {results : List β}
    (pairs : List.Forall₂ related items results) {result : β} (member : result ∈ results) :
    ∃ item ∈ items, related item result := by
  induction pairs with
  | nil => cases member
  | cons first _ ih =>
    rcases List.mem_cons.mp member with rfl | later
    · exact ⟨_, List.mem_cons_self, first⟩
    · obtain ⟨item, listed, pair⟩ := ih later
      exact ⟨item, List.mem_cons_of_mem _ listed, pair⟩

theorem forall₂_and_right_iff {related : α → β → Prop} {good : β → Prop} {items : List α}
    {results : List β} :
    List.Forall₂ (fun item result => related item result ∧ good result) items results ↔
      List.Forall₂ related items results ∧ ∀ result ∈ results, good result := by
  constructor
  · intro pairs
    refine ⟨pairs.imp fun _ _ both => both.1, fun result member => ?_⟩
    obtain ⟨_, _, both⟩ := exists_mem_of_forall₂ pairs member
    exact both.2
  · intro parts
    obtain ⟨pairs, all⟩ := parts
    induction pairs with
    | nil => exact .nil
    | cons first _ ih =>
      obtain ⟨here, later⟩ := List.forall_mem_cons.mp all
      exact .cons ⟨first, here⟩ (ih later)

/-- Lists that are related item by item through a list between them. -/
theorem forall₂_through {first : α → β → Prop} {second : β → γ → Prop} {third : α → γ → Prop}
    {items : List α} {between : List β} {others : List γ} (start : List.Forall₂ first items between)
    (rest : List.Forall₂ second between others)
    (each : ∀ item middle other, first item middle → second middle other → third item other) :
    List.Forall₂ third items others := by
  induction start generalizing others with
  | nil =>
    cases rest
    exact .nil
  | cons pair _ ih =>
    cases rest with
    | cons next later => exact .cons (each _ _ _ pair next) (ih later)

/-- A list that is related to the results of another list, item by item. -/
theorem exists_forall₂ {first : α → β → Prop} {second : α → γ → Prop} {third : β → γ → Prop}
    {items : List α} {results : List β} (pairs : List.Forall₂ first items results)
    (each : ∀ item ∈ items, ∀ result ∈ results, first item result →
      ∃ other, second item other ∧ third result other) :
    ∃ others, List.Forall₂ second items others ∧ List.Forall₂ third results others := by
  induction pairs with
  | nil => exact ⟨[], .nil, .nil⟩
  | cons pair _ ih =>
    obtain ⟨other, left, right⟩ := each _ (by simp) _ (by simp) pair
    obtain ⟨others, start, rest⟩ := ih fun item member result listed =>
      each item (List.mem_cons_of_mem _ member) result (List.mem_cons_of_mem _ listed)
    exact ⟨other :: others, .cons left start, .cons right rest⟩

end MaskLayout
