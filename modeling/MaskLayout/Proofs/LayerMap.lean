import MaskLayout.LayerMap
import MaskLayout.Proofs.Outcome

/-!
Layer maps one around the other. Where a name can be looked up in one map after the other, the composed
map sends it to the same place, unless the outer map takes up what the inner one discards. Whether it
matters how maps are put in brackets is asked here, too.
-/
namespace MaskLayout.LayerMap

theorem compose_identity (below : LayerMap) : below.compose .identity = .ok below := by
  cases below <;> rfl

theorem compose_constant (below : LayerMap) (destination : Option String) :
    below.compose (.constant destination) = .ok (.constant destination) := by
  cases below <;> rfl

theorem compose_discardAll (below : LayerMap) : below.compose .discardAll = .ok .discardAll :=
  compose_constant below none

/-- The composition of maps, the innermost one first. -/
def composeAll : List LayerMap → Except LayoutError LayerMap
  | [] => .ok .identity
  | inner :: outer => do inner.compose (← composeAll outer)

theorem composeAll_cons_eq_ok {inner composed : LayerMap} {outer : List LayerMap} :
    composeAll (inner :: outer) = .ok composed ↔
      ∃ above, composeAll outer = .ok above ∧ inner.compose above = .ok composed :=
  bind_eq_ok_iff

theorem composeAll_singleton (map : LayerMap) : composeAll [map] = .ok map :=
  composeAll_cons_eq_ok.mpr ⟨.identity, rfl, compose_identity map⟩

/-- The outer maps count only as what they are composed to. -/
theorem composeAll_append {first second : List LayerMap} {above : LayerMap}
    (outer : composeAll second = .ok above) :
    composeAll (first ++ second) = composeAll (first ++ [above]) := by
  induction first with
  | nil => exact outer.trans (composeAll_singleton above).symm
  | cons map first ih => exact congrArg (· >>= map.compose) ih

/-- A map sends a name on, and it does not claim what was discarded below it. -/
def Passes (map : LayerMap) (name result : Option String) : Prop :=
  match name with
  | some name => map.lookup name = .ok result
  | none => result = none ∧ ∀ name, map ≠ .constant (some name)

theorem passes_compose {below above composed : LayerMap} {name : String}
    {between result : Option String} (fits : below.compose above = .ok composed)
    (known : below.lookup name = .ok between) (passes : above.Passes between result) :
    composed.lookup name = .ok result := by
  cases between with
  | some middle =>
    cases above with
    | identity =>
      rw [compose_identity] at fits
      cases Except.ok.inj fits
      exact known.trans passes
    | constant destination =>
      cases below <;> cases Except.ok.inj fits <;> exact passes
    | table outer =>
      simp only [Passes, lookup] at passes
      cases found : outer.find? middle with
      | none => simp [found] at passes
      | some last =>
        simp only [found, Except.ok.injEq] at passes
        cases below with
        | identity =>
          cases Except.ok.inj fits
          cases Except.ok.inj known
          simp [lookup, found, passes]
        | constant destination =>
          cases Except.ok.inj known
          simp only [compose, found, Except.ok.injEq] at fits
          simp [← fits, lookup, passes]
        | table inner =>
          cases Except.ok.inj fits
          simp only [lookup] at known
          cases held : inner.find? name with
          | none => simp [held] at known
          | some sent =>
            simp only [held, Except.ok.injEq] at known
            simp [lookup, NameTable.find?_map, held, known, sendOn, found, passes]
  | none =>
    obtain ⟨rfl, unclaimed⟩ := passes
    cases above with
    | identity =>
      rw [compose_identity] at fits
      cases Except.ok.inj fits
      exact known
    | constant destination =>
      cases destination with
      | some claimed => exact absurd rfl (unclaimed claimed)
      | none => cases below <;> cases Except.ok.inj fits <;> rfl
    | table outer =>
      cases below with
      | identity => cases Except.ok.inj known
      | constant destination =>
        cases Except.ok.inj known
        cases Except.ok.inj fits
        rfl
      | table inner =>
        cases Except.ok.inj fits
        simp only [lookup] at known
        cases held : inner.find? name with
        | none => simp [held] at known
        | some sent =>
          simp only [held, Except.ok.injEq] at known
          simp [lookup, NameTable.find?_map, held, known, sendOn]

/-- Maps compose if the outer one knows the one layer to which the inner one sends everything. -/
theorem exists_compose {below above : LayerMap}
    (claims : ∀ source, below = .constant (some source) →
      ∃ destination, above.lookup source = .ok destination) :
    ∃ composed, below.compose above = .ok composed := by
  cases above with
  | identity => exact ⟨below, compose_identity below⟩
  | constant destination => exact ⟨.constant destination, compose_constant below destination⟩
  | table outer =>
    cases below with
    | identity => exact ⟨_, rfl⟩
    | table inner => exact ⟨_, rfl⟩
    | constant destination =>
      cases destination with
      | none => exact ⟨_, rfl⟩
      | some source =>
        obtain ⟨last, known⟩ := claims source rfl
        simp only [lookup] at known
        cases found : outer.find? source with
        | none => simp [found] at known
        | some there => exact ⟨.constant there, by simp [compose, found]⟩

/-- Looks a name up in one map, and then where it is sent in the map around. -/
def lookupThrough (below above : LayerMap) (name : String) : Except LayoutError (Option String) := do
  match ← below.lookup name with
  | some between => above.lookup between
  | none => return none

theorem lookupThrough_eq_ok_iff {below above : LayerMap} {name : String} {result : Option String} :
    below.lookupThrough above name = .ok result ↔
      (∃ between, below.lookup name = .ok (some between) ∧ above.lookup between = .ok result) ∨
        (below.lookup name = .ok none ∧ result = none) := by
  unfold lookupThrough
  cases found : below.lookup name with
  | error error => simp [bind, Except.bind]
  | ok destination =>
    cases destination with
    | some between => simp [bind, Except.bind]
    | none => simp [bind, Except.bind, pure, Except.pure, eq_comm]

/-- A map that sends everything to one layer takes up again what is discarded below it. -/
def Reclaims (below above : LayerMap) (name claimed : String) : Prop :=
  below.lookup name = .ok none ∧ above = .constant (some claimed)

/-- Maps through which a name can be looked up one after the other do compose, and the composed map
sends the name to the same place, unless the outer one takes up what the inner one discards. -/
theorem compose_reads {below above : LayerMap} {name : String} {result : Option String}
    (through : below.lookupThrough above name = .ok result) :
    ∃ composed, below.compose above = .ok composed ∧
      ((∀ claimed, ¬ Reclaims below above name claimed) → composed.lookup name = .ok result) ∧
      ∀ claimed, Reclaims below above name claimed → composed.lookup name = .ok (some claimed) := by
  have known : ∀ source, below = .constant (some source) →
      ∃ destination, above.lookup source = .ok destination := by
    rintro source rfl
    exact ⟨result, through⟩
  obtain ⟨composed, fits⟩ := exists_compose known
  refine ⟨composed, fits, fun unclaimed => ?_, ?_⟩
  · rcases lookupThrough_eq_ok_iff.mp through with ⟨between, sent, onward⟩ | ⟨discarded, rfl⟩
    · exact passes_compose fits sent onward
    · exact passes_compose fits discarded ⟨rfl, fun claimed same => unclaimed claimed ⟨discarded, same⟩⟩
  · rintro claimed ⟨_, rfl⟩
    cases below <;> cases Except.ok.inj fits <;> rfl

/-- A layer that one table discards stays discarded under another one, which renames the rest. -/
theorem tables_read :
    ∃ composed, (ofList [("m1", some "metal"), ("tmp", none)]).compose
        (ofList [("metal", some "top"), ("tmp", some "top")]) = .ok composed ∧
      composed.lookup "tmp" = .ok none := by
  have through : (ofList [("m1", some "metal"), ("tmp", none)]).lookupThrough
      (ofList [("metal", some "top"), ("tmp", some "top")]) "tmp" = .ok none := by
    decide +kernel
  obtain ⟨composed, fits, kept, _⟩ := compose_reads through
  exact ⟨composed, fits, kept fun claimed reclaimed => by cases reclaimed.2⟩

/-- Without the exception the law fails: what a table discards comes back under a constant map. -/
theorem compose_reads_fails : ¬ ∀ (below above : LayerMap) (name : String) (result : Option String),
    below.lookupThrough above name = .ok result →
      ∃ composed, below.compose above = .ok composed ∧ composed.lookup name = .ok result := by
  intro law
  have through : (ofList [("tmp", none)]).lookupThrough (.constant (some "top")) "tmp" = .ok none := by
    decide +kernel
  obtain ⟨composed, fits, discarded⟩ := law _ _ _ _ through
  cases Except.ok.inj fits
  cases discarded

/-- It makes no difference for some names where the brackets are put: composing the inner maps only,
and reading on in the outer one, does the same as composing them all. -/
structure Associates (inner : List LayerMap) (outer : LayerMap) (names : List String) : Prop where
  composes : (∃ within, composeAll inner = .ok within) ↔
    ∃ whole, composeAll (inner ++ [outer]) = .ok whole
  reads : ∀ within whole, composeAll inner = .ok within → composeAll (inner ++ [outer]) = .ok whole →
    ∀ name ∈ names, ∀ result,
      whole.lookup name = .ok result ↔ within.lookupThrough outer name = .ok result

private theorem associates_iff {inner : List LayerMap} {outer : LayerMap} {names : List String} :
    Associates inner outer names ↔
      (composeAll inner).isOk = (composeAll (inner ++ [outer])).isOk ∧
      ∀ within ∈ (composeAll inner).toOption, ∀ whole ∈ (composeAll (inner ++ [outer])).toOption,
        ∀ name ∈ names, (whole.lookup name).toOption = (within.lookupThrough outer name).toOption := by
  simp only [mem_toOption_iff, ← forall_eq_ok_iff]
  constructor
  · intro associates
    refine ⟨Bool.eq_iff_iff.mpr ?_, fun within start whole all =>
      associates.reads within whole start all⟩
    rw [← exists_eq_ok_iff, ← exists_eq_ok_iff]
    exact associates.composes
  · intro parts
    obtain ⟨composes, reads⟩ := parts
    refine ⟨?_, fun within whole start all => reads within start whole all⟩
    rw [exists_eq_ok_iff, exists_eq_ok_iff]
    exact Bool.eq_iff_iff.mp composes

instance (inner : List LayerMap) (outer : LayerMap) (names : List String) :
    Decidable (Associates inner outer names) :=
  decidable_of_iff _ associates_iff.symm

end MaskLayout.LayerMap
