import MaskLayout.Proofs.Decimal
import MaskLayout.Proofs.Json.Reading

namespace MaskLayout.Json

variable {α β : Type}

/-- A value is printed so that it can be read, and a decoder finds it there. -/
structure Restores (decode : Reading → Except Defect α) (json : Json) (value : α) : Prop where
  regular : json.Regular
  decoded : decode (.ofJson json) = .ok value

theorem Restores.decode_pretty {decoder : Reading → Except Defect α} {json : Json} {value : α}
    (restores : Restores decoder json value) : decode decoder json.pretty = .ok value := by
  have read := read_chars restores.regular (some 0)
  unfold decode pretty
  rw [String.toList_ofList, read]
  simp [restores.decoded, bind, Except.bind, pure, Except.pure]

theorem ofJson_number (value : Numeral) : Reading.ofJson (.number value) = .number value := rfl

theorem ofJson_string (value : String) : Reading.ofJson (.string value) = .string (.ofString value) := rfl

private theorem ofJson_array (items : List Json) :
    Reading.ofJson (.array items) = .array (Items.ofList items) := rfl

private theorem ofJson_object (members : List (String × Json)) :
    Reading.ofJson (.object members) = .object (Members.ofList members) := rfl

theorem restores_string (value : String) : Restores Reading.string? (.string value) value :=
  ⟨.string value, Quoted.string_ofString value⟩

theorem restores_word {n : Nat} (small : n < UInt32.size) :
    Restores Reading.word? (ofNat n) (UInt32.ofNat n) := by
  refine ⟨.number fun _ => rfl, ?_⟩
  simp [ofJson_number, ofNat, Numeral.ofNat, Reading.word?, small]

theorem restores_float {x : Float} (finite : x.isFinite) :
    Restores Reading.float? (ofFloat x) x := by
  obtain ⟨numeral, printed, fraction, value⟩ := Numeral.exists_ofFloat? finite
  have json : ofFloat x = .number numeral := by simp [ofFloat, printed]
  rw [json]
  refine ⟨.number fun whole => absurd whole (by simp [fraction]), ?_⟩
  simp [ofJson_number, Reading.float?, value, finite]

theorem restores_none (decode : Reading → Except Defect α) :
    Restores (Reading.option? decode) .null none :=
  ⟨.null, rfl⟩

theorem Restores.some {decode : Reading → Except Defect α} {json : Json} {value : α}
    (restores : Restores decode json value) (present : json ≠ .null) :
    Restores (Reading.option? decode) json (some value) := by
  refine ⟨restores.regular, ?_⟩
  have decoded := restores.decoded
  cases json with
  | null => exact absurd rfl present
  | _ => simp_all [Reading.ofJson, Reading.option?, Except.map]

theorem restores_list {decode : Reading → Except Defect α} (print : α → Json) {values : List α}
    (each : ∀ value ∈ values, Restores decode (print value) value) :
    Restores (Reading.list? decode) (.array (values.map print)) values := by
  refine ⟨.array ?_, ?_⟩
  · intro item member
    obtain ⟨value, listed, rfl⟩ := List.mem_map.mp member
    exact (each value listed).regular
  · rw [ofJson_array, Reading.list?]
    induction values with
    | nil => rfl
    | cons value values ih =>
      have later := ih fun other member => each other (List.mem_cons_of_mem _ member)
      simp [Items.ofList, Items.list?, (each value List.mem_cons_self).decoded, later, bind, Except.bind,
        pure, Except.pure]

theorem restores_pair {first : Reading → Except Defect α} {second : Reading → Except Defect β}
    {left right : Json} {a : α} {b : β} (start : Restores first left a)
    (rest : Restores second right b) :
    Restores (Reading.pair? first second) (.array [left, right]) (a, b) := by
  refine ⟨.array (by simp [start.regular, rest.regular]), ?_⟩
  simp [ofJson_array, Reading.pair?, Items.ofList, Items.next, Items.finish, start.decoded,
    rest.decoded, bind, Except.bind, pure, Except.pure]

theorem restores_entries {decode : Reading → Except Defect α} (print : α → Json)
    {entries : List (String × α)} (each : ∀ entry ∈ entries, Restores decode (print entry.2) entry.2) :
    Restores (Reading.entries? decode)
      (.object (entries.map fun (name, value) => (name, print value))) entries := by
  refine ⟨.object ?_, ?_⟩
  · intro member listed
    obtain ⟨entry, present, rfl⟩ := List.mem_map.mp listed
    exact (each entry present).regular
  · rw [ofJson_object, Reading.entries?]
    induction entries with
    | nil => rfl
    | cons entry entries ih =>
      have later := ih fun other member => each other (List.mem_cons_of_mem _ member)
      simp [Members.ofList, Members.entries?, (each entry List.mem_cons_self).decoded, later, bind,
        Except.bind, pure, Except.pure]

theorem restores_bare {bare? : String → Option α}
    {payload? : String → Option (Reading → Except Defect α)} {name : String} {value : α}
    (found : bare? name = some value) :
    Restores (Reading.case? bare? payload?) (.string name) value := by
  refine ⟨.string name, ?_⟩
  simp [ofJson_string, Reading.case?, found, bind, Except.bind]

theorem restores_payload (bare? : String → Option α)
    {payload? : String → Option (Reading → Except Defect α)} {name : String}
    {decode : Reading → Except Defect α} {json : Json} {value : α} (found : payload? name = some decode)
    (restores : Restores decode json value) :
    Restores (Reading.case? bare? payload?) (.object [(name, json)]) value := by
  refine ⟨.object (by simp [restores.regular]), ?_⟩
  simp [ofJson_object, Members.ofList, Reading.case?, Members.case?, found, restores.decoded, bind,
    Except.bind, pure, Except.pure]

/-- A change of what is found, in the decoder and in the value. -/
theorem Restores.map {decode : Reading → Except Defect α} {json : Json} {value : α}
    (restores : Restores decode json value) (change : α → β) :
    Restores (fun reading => (decode reading).map change) json (change value) :=
  ⟨restores.regular, by simp [restores.decoded, Except.map]⟩

section Record

variable {ρ : Type}

@[simp] theorem required_some (value : α) : required (some value) = .ok value := rfl

@[simp] theorem record?_object (fields : List (Field ρ)) (mayStop : Bool) (empty : ρ)
    (members : List (String × Json)) :
    (Reading.ofJson (.object members)).record? fields mayStop empty =
      Field.collect fields empty (Members.ofList members) := by
  rw [ofJson_object, Reading.record?]

@[simp] theorem collect_nil (fields : List (Field ρ)) (record : ρ) :
    Field.collect fields record (Members.ofList []) = .ok record := rfl

/-- A member that is a field, the first of its name, is added to the record. -/
@[simp] theorem collect_cons (fields : List (Field ρ)) (record : ρ) (name : String) (json : Json)
    (rest : List (String × Json)) :
    Field.collect fields record (Members.ofList ((name, json) :: rest)) =
      match fields.find? (·.name = name) with
      | some field =>
        if field.isSet record then .error .unfit
        else field.set record (.ofJson json) >>= fun next =>
          Field.collect fields next (Members.ofList rest)
      | none => Reading.skip (.ofJson json) >>= fun _ =>
          Field.collect fields record (Members.ofList rest) := by
  rw [Members.ofList, Field.collect, Quoted.string_ofString]
  rfl

end Record

end MaskLayout.Json
