import Mathlib.Logic.Relation

/-!
Loops that run until a round stops them. Nothing bounds the rounds from outside: a loop that ends does
so by itself.
-/
namespace MaskLayout

/-- What a round of a loop comes to: another state to go on in, or the result. -/
inductive Round (σ ρ : Type) where
  | next (state : σ)
  | stop (result : ρ)

/-- A loop ends with a result, after so many rounds. -/
inductive Ends {σ ρ : Type} (round : σ → Round σ ρ) : Nat → σ → ρ → Prop where
  | stop {state : σ} {result : ρ} (halts : round state = .stop result) : Ends round 1 state result
  | next {rounds : Nat} {state later : σ} {result : ρ} (goes : round state = .next later)
      (rest : Ends round rounds later result) : Ends round (rounds + 1) state result

/-- A state from which a loop comes to another state ends as that one does. -/
theorem Ends.after {σ ρ : Type} {round : σ → Round σ ρ} {state later : σ}
    (way : Relation.ReflTransGen (fun before after => round before = .next after) state later)
    {rounds : Nat} {result : ρ} (ends : Ends round rounds later result) :
    ∃ more, Ends round more state result := by
  induction way using Relation.ReflTransGen.head_induction_on with
  | refl => exact ⟨rounds, ends⟩
  | head goes _ ih =>
    obtain ⟨more, rest⟩ := ih
    exact ⟨more + 1, .next goes rest⟩

end MaskLayout
