import Mathlib.Data.List.Basic
import MaskLayout.Json.Numeral
import MaskLayout.Json.Token

namespace MaskLayout.Json

/-- What may stand behind a value: nothing that a number could go on with. -/
def Delimited (rest : List Char) : Prop := ∀ c ∈ rest.head?, c ∈ [',', '\n', ']', '\x7d']

/-- The whole part of a number: a zero on its own, or digits of which the first is not zero. -/
def Unpadded (digits : List Char) : Prop :=
  digits = ['0'] ∨ ∃ first rest, digits = first :: rest ∧ first ≠ '0'

namespace Mode

variable {draft longer : NumberDraft} {c : Char} {rest : List Char}

private theorem scan_next (next : draft.next? c = some longer) :
    scan (number draft) (c :: rest) = scan (number longer) rest := by
  simp [scan, step, next]

/-- A number is finished by what follows it. -/
theorem scan_complete (complete : draft.isComplete) (delimited : Delimited rest) :
    scan (number draft) rest = .number draft.numeral :: scan blank rest := by
  cases rest with
  | nil => simp [scan, finish, complete]
  | cons c rest =>
    have stops : draft.next? c = none ∧ ¬ c.isDigit := by
      have listed := delimited c rfl
      simp only [List.mem_cons, List.not_mem_nil, or_false] at listed
      rcases listed with rfl | rfl | rfl | rfl <;>
        cases phase : draft.phase <;> simp [NumberDraft.next?, phase]
    simp [scan, step, stops.1, stops.2, complete]

/-- Digits that all do the same to a draft amount to the number that they stand for. -/
theorem scan_digits (drafts : Nat → Nat → NumberDraft)
    (next : ∀ value count, ∀ c : Char, c.isDigit →
      (drafts value count).next? c = some (drafts (10 * value + (c.toNat - 48)) (count + 1)))
    {digits : List Char} (all : ∀ c ∈ digits, c.isDigit) (value count : Nat)
    (rest : List Char) :
    scan (number (drafts value count)) (digits ++ rest) =
      scan (number (drafts (Nat.ofDigitChars 10 digits value) (count + digits.length))) rest := by
  induction digits generalizing value count with
  | nil => simp
  | cons c digits ih =>
    rw [List.cons_append, scan_next (next value count c (all c (by simp))),
      ih (fun other member => all other (by simp [member])), Nat.ofDigitChars_cons, List.length_cons,
      Nat.add_assoc, Nat.add_comm 1]
    rfl

/-- How far a number is after its whole part. -/
def wholePhase (digits : List Char) : NumberPhase := if digits = ['0'] then .zero else .whole

/-- A number with its sign before it. -/
def signed (negative : Bool) (text : List Char) : List Char := if negative then '-' :: text else text

private theorem scan_signed {first : Char} (digit : first.isDigit) (negative : Bool) (rest : List Char) :
    scan blank (signed negative (first :: rest)) =
      scan (number (.start .minus negative 0)) (first :: rest) := by
  cases negative with
  | true => rfl
  | false =>
    by_cases zero : first = '0'
    · rw [zero]
      rfl
    · have unblank : isBlank first = false := by
        refine decide_eq_false fun blank => ?_
        rcases blank with rfl | rfl | rfl | rfl <;> exact absurd digit (by decide)
      have next : (NumberDraft.start .minus false 0).next? first =
          some (.start .whole false (NumberDraft.digitValue first)) := by
        simp [NumberDraft.next?, NumberDraft.start, zero, digit]
      rw [scan_next next]
      simp [signed, scan, step, start, unblank, digit, zero]

private theorem scan_wholePart {digits : List Char} (all : ∀ c ∈ digits, c.isDigit)
    (unpadded : Unpadded digits) (negative : Bool) (rest : List Char) :
    scan blank (signed negative (digits ++ rest)) =
      scan (number (.start (wholePhase digits) negative (Nat.ofDigitChars 10 digits 0))) rest := by
  rcases unpadded with rfl | ⟨first, later, rfl, nonzero⟩
  · exact scan_signed rfl negative rest
  · have digit := all first (by simp)
    have next : (NumberDraft.start .minus negative 0).next? first =
        some (.start .whole negative (first.toNat - 48)) := by
      simp [NumberDraft.next?, NumberDraft.start, NumberDraft.digitValue, nonzero, digit]
    have phase : wholePhase (first :: later) = .whole := by simp [wholePhase, nonzero]
    have others : ∀ c ∈ later, c.isDigit := fun c member => all c (List.mem_cons_of_mem _ member)
    rw [List.cons_append, scan_signed digit, scan_next next, phase, Nat.ofDigitChars_cons,
      Nat.mul_zero, Nat.zero_add]
    refine scan_digits (fun value _ => .start .whole negative value) ?_ others _ 0 rest
    intro value _ c digit
    simp [NumberDraft.next?, NumberDraft.start, NumberDraft.shift, NumberDraft.digitValue, digit]

private theorem scan_fraction {digits : List Char} (all : ∀ c ∈ digits, c.isDigit)
    (some_digits : digits ≠ [])
    {whole : List Char} (negative : Bool) (value : Nat) :
    scan (number (.start (wholePhase whole) negative value)) ('.' :: digits ++ rest) =
      scan (number ⟨.fraction, negative, Nat.ofDigitChars 10 digits value, digits.length, false, 0⟩)
        rest := by
  have point : (NumberDraft.start (wholePhase whole) negative value).next? '.' =
      some ⟨.point, negative, value, 0, false, 0⟩ := by
    unfold wholePhase
    split <;> simp [NumberDraft.next?, NumberDraft.start]
  rw [List.cons_append, scan_next point]
  refine (scan_digits (fun value count =>
    ⟨if count = 0 then .point else .fraction, negative, value, count, false, 0⟩) ?_ all _ 0 rest).trans ?_
  · intro value count c digit
    by_cases first : count = 0 <;>
      simp [NumberDraft.next?, NumberDraft.shift, NumberDraft.digitValue, digit, first]
  · simp [some_digits]

/-- The power of ten, after digits without or with a point. -/
theorem scan_power {draft : NumberDraft} (ready : draft.next? 'e' = some { draft with phase := .power })
    (fresh : draft.powerNegative = false ∧ draft.powerDigits = 0) {digits : List Char}
    (all : ∀ c ∈ digits, c.isDigit) (some_digits : digits ≠ []) (below : Bool) :
    scan (number draft) ('e' :: (if below then '-' else '+') :: digits ++ rest) =
      scan (number { draft with
        phase := .powerDigits
        powerNegative := below
        powerDigits := Nat.ofDigitChars 10 digits 0 }) rest := by
  have sign : NumberDraft.next? { draft with phase := .power } (if below then '-' else '+') =
      some { draft with phase := .powerSign, powerNegative := below } := by
    cases below <;> simp [NumberDraft.next?, fresh.1]
  rw [List.cons_append, List.cons_append, scan_next ready, scan_next sign]
  rw [fresh.2]
  refine (scan_digits (fun value count =>
    { draft with
      phase := if count = 0 then .powerSign else .powerDigits
      powerNegative := below
      powerDigits := value }) ?_ all 0 0 rest).trans ?_
  · intro value count c digit
    by_cases first : count = 0 <;>
      simp [NumberDraft.next?, NumberDraft.digitValue, digit, first]
  · simp [some_digits]

end Mode

private theorem isDigit_of_mem_toDigits {n : Nat} : ∀ c ∈ Nat.toDigits 10 n, c.isDigit :=
  fun _ member => Nat.isDigit_of_mem_toDigits (by decide) (by decide) member

private theorem unpadded_toDigits (n : Nat) : Unpadded (Nat.toDigits 10 n) := by
  induction n using Nat.strongRecOn with
  | ind n ih =>
    by_cases single : n < 10
    · rw [Nat.toDigits_of_lt_base single]
      by_cases zero : n = 0
      · exact .inl (by rw [zero]; rfl)
      · exact .inr ⟨_, _, rfl, by simp [zero]⟩
    · rw [Nat.toDigits_of_base_le (by decide) (by omega)]
      rcases ih (n / 10) (by omega) with zero | ⟨first, rest, same, nonzero⟩
      · have value := Nat.ofDigitChars_ten_toDigits (n := n / 10)
        rw [zero] at value
        simp [Nat.ofDigitChars_cons] at value
        omega
      · exact .inr ⟨first, rest ++ [Nat.digitChar (n % 10)], by rw [same]; rfl, nonzero⟩

/-- The first digits of a number are those of a number, if any are left out. -/
theorem Unpadded.take {digits : List Char} (unpadded : Unpadded digits) (count : Nat)
    (positive : 0 < count) : Unpadded (digits.take count) := by
  obtain ⟨count, rfl⟩ := Nat.exists_eq_add_of_lt positive
  rcases unpadded with rfl | ⟨first, rest, rfl, nonzero⟩
  · exact .inl (by simp)
  · exact .inr ⟨first, rest.take count, by simp, nonzero⟩

/-- Digits around a point: the whole part, and as many digits behind the point as there are places. -/
theorem exists_positional {decimal : Decimal} {places : Nat}
    (below : decimal.exponent = -(places : Int)) (positive : 0 < places) :
    ∃ whole fraction, decimal.positional = whole ++ '.' :: fraction ∧ Unpadded whole ∧
      (∀ c ∈ whole ++ fraction, c.isDigit) ∧ fraction.length = places ∧
      Nat.ofDigitChars 10 (whole ++ fraction) 0 = decimal.digits := by
  let digits := Nat.toDigits 10 decimal.digits
  let padded := digits.leftpad (places + 1) '0'
  have length : padded.length = max (places + 1) digits.length := List.length_leftpad ..
  have text : decimal.positional =
      padded.take (padded.length - places) ++ '.' :: padded.drop (padded.length - places) := by
    unfold Decimal.positional
    dsimp only
    rw [if_neg (by omega), below, Int.neg_neg, Int.toNat_natCast, List.splitAt_eq]
  refine ⟨_, _, text, ?_, ?_, ?_, ?_⟩
  · by_cases long : places < digits.length
    · have unchanged : padded = digits := by
        simp [padded, List.leftpad, show places + 1 - digits.length = 0 by omega]
      rw [unchanged]
      exact (unpadded_toDigits decimal.digits).take _ (by omega)
    · left
      have first : padded.length - places = 1 := by omega
      obtain ⟨zeros, more⟩ : ∃ zeros, places + 1 - digits.length = zeros + 1 :=
        ⟨places - digits.length, by omega⟩
      rw [first]
      simp [padded, List.leftpad, more, List.replicate_succ]
  · rw [List.take_append_drop]
    intro c member
    rcases List.mem_append.mp member with zero | digit
    · rw [List.eq_of_mem_replicate zero]
      rfl
    · exact isDigit_of_mem_toDigits c digit
  · rw [List.length_drop]
    omega
  · rw [List.take_append_drop, show padded = _ ++ digits from rfl, Nat.ofDigitChars_append]
    simp [digits]

namespace Mode

variable {rest : List Char}

private theorem scan_positional {decimal : Decimal} {places : Nat}
    (below : decimal.exponent = -(places : Int)) (positive : 0 < places) (negative : Bool) :
    scan blank (signed negative (decimal.positional ++ rest)) =
      scan (number ⟨.fraction, negative, decimal.digits, places, false, 0⟩) rest := by
  obtain ⟨whole, fraction, text, unpadded, all, length, value⟩ := exists_positional below positive
  have whole_digits : ∀ c ∈ whole, c.isDigit := fun c member => all c (by simp [member])
  have fraction_digits : ∀ c ∈ fraction, c.isDigit := fun c member => all c (by simp [member])
  have some_digits : fraction ≠ [] := by
    intro none
    simp [none] at length
    omega
  rw [text, List.append_assoc, scan_wholePart whole_digits unpadded,
    scan_fraction fraction_digits some_digits, ← Nat.ofDigitChars_append, value, length]

/-- One digit before the point, and the others behind it. -/
def significand : List Char → List Char
  | first :: second :: others => first :: '.' :: second :: others
  | short => short

private theorem scientific_eq (decimal : Decimal) :
    decimal.scientific = significand (Nat.toDigits 10 decimal.digits) ++
      'e' :: (if decide (decimal.leading < 0) then '-' else '+') ::
        Nat.toDigits 10 decimal.leading.natAbs := by
  simp only [decide_eq_true_eq]
  rfl

/-- After the digits a power of ten may come. -/
theorem scan_significand {digits : List Char} (all : ∀ c ∈ digits, c.isDigit)
    (unpadded : Unpadded digits) (negative : Bool) :
    ∃ phase, ∃ draft : NumberDraft,
      draft = ⟨phase, negative, Nat.ofDigitChars 10 digits 0, digits.length - 1, false, 0⟩ ∧
      draft.next? 'e' = some { draft with phase := .power } ∧
      ∀ rest, scan blank (signed negative (significand digits ++ rest)) =
        scan (number draft) rest := by
  match digits with
  | [] => rcases unpadded with same | ⟨_, _, same, _⟩ <;> cases same
  | [only] =>
    refine ⟨wholePhase [only], _, rfl, ?_, fun rest => scan_wholePart all unpadded negative rest⟩
    unfold wholePhase
    split <;> simp [NumberDraft.next?]
  | first :: second :: others =>
    have first_digit : ∀ c ∈ [first], c.isDigit := fun c member => all c (by simp_all)
    have other_digits : ∀ c ∈ second :: others, c.isDigit := fun c member => all c (by simp_all)
    refine ⟨.fraction, _, rfl, by simp [NumberDraft.next?], fun rest => ?_⟩
    have whole := scan_wholePart first_digit (unpadded.take 1 (by decide)) negative
      ('.' :: (second :: others) ++ rest)
    refine whole.trans ?_
    rw [scan_fraction other_digits (by simp), ← Nat.ofDigitChars_append]
    rfl

/-- The number that a power of ten completes. -/
theorem numeral_of_power (decimal : Decimal) (negative : Bool) :
    NumberDraft.numeral ⟨.powerDigits, negative, decimal.digits, decimal.count - 1,
      decimal.leading < 0, decimal.leading.natAbs⟩ = ⟨negative, decimal, false⟩ := by
  have count : 0 < decimal.count := Nat.length_toDigits_pos
  have power : (if decide (decimal.leading < 0) then -(decimal.leading.natAbs : Int)
      else decimal.leading.natAbs) - (decimal.count - 1 : Nat) = decimal.exponent := by
    have signed : (if decide (decimal.leading < 0) then -(decimal.leading.natAbs : Int)
        else decimal.leading.natAbs) = decimal.leading := by
      simp only [decide_eq_true_eq]
      split <;> omega
    rw [signed, Decimal.leading]
    omega
  simp only [NumberDraft.numeral, power]
  rfl

private theorem scan_scientific (decimal : Decimal) (negative : Bool) (rest : List Char) :
    ∃ draft : NumberDraft, draft.isComplete ∧ draft.numeral = ⟨negative, decimal, false⟩ ∧
      scan blank (signed negative (decimal.scientific ++ rest)) =
        scan (number draft) rest := by
  obtain ⟨phase, draft, same, ready, significand⟩ := scan_significand
    (isDigit_of_mem_toDigits (n := decimal.digits)) (unpadded_toDigits decimal.digits) negative
  rw [Nat.ofDigitChars_ten_toDigits] at same
  refine ⟨_, rfl, numeral_of_power decimal negative, ?_⟩
  rw [scientific_eq, List.append_assoc, significand]
  refine (scan_power ready (by simp [same]) (isDigit_of_mem_toDigits (n := decimal.leading.natAbs))
    Nat.toDigits_ne_nil _).trans ?_
  rw [Nat.ofDigitChars_ten_toDigits, same]
  rfl

end Mode

/-- A number written whole has no power of ten. -/
def Numeral.IsRegular (numeral : Numeral) : Prop := numeral.whole → numeral.decimal.exponent = 0

namespace Mode

/-- The text of a number is scanned as the number, whatever finishes it. -/
theorem exists_draft {numeral : Numeral} (regular : numeral.IsRegular) (rest : List Char) :
    ∃ draft : NumberDraft, draft.isComplete ∧ draft.numeral = numeral ∧
      scan blank (numeral.text ++ rest) = scan (number draft) rest := by
  obtain ⟨negative, decimal, whole⟩ := numeral
  have text {magnitude : List Char} : (if negative then '-' :: magnitude else magnitude) ++ rest =
      signed negative (magnitude ++ rest) := by
    unfold signed
    split <;> rfl
  unfold Numeral.text
  dsimp only
  rw [text]
  cases whole with
  | true =>
    obtain ⟨digits, exponent⟩ := decimal
    obtain rfl : exponent = 0 := regular rfl
    have plain : Decimal.positional ⟨digits, 0⟩ = Nat.toDigits 10 digits := by
      simp [Decimal.positional]
    refine ⟨.start (wholePhase (Nat.toDigits 10 digits)) negative digits, ?_, ?_, ?_⟩
    · unfold wholePhase
      split <;> rfl
    · unfold wholePhase
      split <;> rfl
    · rw [if_pos (.inl rfl), plain, scan_wholePart isDigit_of_mem_toDigits (unpadded_toDigits digits),
        Nat.ofDigitChars_ten_toDigits]
  | false =>
    by_cases plain : decimal.exponent < 0 ∧ Numeral.isPlain decimal.leading
    · obtain ⟨places, same⟩ := Int.eq_ofNat_of_zero_le (show 0 ≤ -decimal.exponent by omega)
      have below : decimal.exponent = -(places : Int) := by omega
      rw [if_pos (.inr plain)]
      refine ⟨_, rfl, ?_, scan_positional below (by omega) negative⟩
      obtain ⟨digits, exponent⟩ := decimal
      simp [NumberDraft.numeral, show exponent = -(places : Int) from below]
    · rw [if_neg (by simpa using plain)]
      exact scan_scientific decimal negative rest

theorem scan_numeral {numeral : Numeral} (regular : numeral.IsRegular) {rest : List Char}
    (delimited : Delimited rest) :
    scan blank (numeral.text ++ rest) = .number numeral :: scan blank rest := by
  obtain ⟨draft, complete, same, scanned⟩ := exists_draft regular rest
  rw [scanned, scan_complete complete delimited, same]

end Mode

end MaskLayout.Json
