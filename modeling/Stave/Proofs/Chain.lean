/-!
# Steps that may fail

A reader and an edit are chains of steps, each of which may fail. A chain comes to a value
if every step does, and to an error where the first step fails that does.
-/
namespace Stave

variable {ε ε' α β γ : Type} {step : Except ε α} {next : α → Except ε β} {rename : ε → ε'}

theorem bind_ok_iff {value : β} :
    (step >>= next) = .ok value ↔ ∃ middle, step = .ok middle ∧ next middle = .ok value := by
  cases step with
  | error error =>
    constructor
    · intro h
      cases h
    · rintro ⟨middle, h, -⟩
      cases h
  | ok middle =>
    constructor
    · intro h
      exact ⟨middle, rfl, h⟩
    · rintro ⟨other, h, hnext⟩
      cases h
      exact hnext

theorem bind_error_iff {error : ε} :
    (step >>= next) = .error error ↔
      step = .error error ∨ ∃ middle, step = .ok middle ∧ next middle = .error error := by
  cases step with
  | error other =>
    constructor
    · intro h
      cases h
      exact .inl rfl
    · rintro (h | ⟨middle, h, -⟩)
      · cases h
        rfl
      · cases h
  | ok middle =>
    constructor
    · intro h
      exact .inr ⟨middle, rfl, h⟩
    · rintro (h | ⟨other, h, hnext⟩)
      · cases h
      · cases h
        exact hnext

theorem map_ok_iff {f : α → β} {value : β} :
    step.map f = .ok value ↔ ∃ middle, step = .ok middle ∧ f middle = value := by
  cases step with
  | error error =>
    constructor
    · intro h
      cases h
    · rintro ⟨middle, h, -⟩
      cases h
  | ok middle =>
    constructor
    · intro h
      cases h
      exact ⟨middle, rfl, rfl⟩
    · rintro ⟨other, h, rfl⟩
      cases h
      rfl

/-- Steps that come to the same in the end fail alike or both come to a value. -/
theorem eq_or_exists_of_map_eq {f : α → γ} {g : β → γ} {step' : Except ε β}
    (h : step.map f = step'.map g) :
    (∃ error, step = .error error ∧ step' = .error error) ∨
      ∃ value value', step = .ok value ∧ step' = .ok value' ∧ f value = g value' := by
  cases step with
  | error error =>
    cases step' with
    | error other =>
      cases h
      exact .inl ⟨error, rfl, rfl⟩
    | ok value' => cases h
  | ok value =>
    cases step' with
    | error other => cases h
    | ok value' => exact .inr ⟨value, value', rfl, rfl, Except.ok.inj h⟩

/-- Errors may be renamed at every step of a chain. -/
theorem mapError_bind :
    (step >>= next).mapError rename =
      step.mapError rename >>= fun middle => (next middle).mapError rename := by
  cases step <;> rfl

/-- What a chain comes to may be changed at its last step. -/
theorem map_bind (f : β → γ) :
    (step >>= next).map f = step >>= fun middle => (next middle).map f := by
  cases step <;> rfl

theorem map_mapError (f : α → β) : (step.mapError rename).map f = (step.map f).mapError rename := by
  cases step <;> rfl

theorem toOption_eq_some_iff {value : α} : step.toOption = some value ↔ step = .ok value := by
  cases step with
  | error error =>
    constructor <;> intro h <;> cases h
  | ok other =>
    constructor <;> intro h <;> cases h <;> rfl

/-- The error of a step that fails. -/
def failure? : Except ε α → Option ε
  | .error error => some error
  | .ok _ => none

theorem failure?_eq_some_iff {error : ε} : failure? step = some error ↔ step = .error error := by
  cases step with
  | error other =>
    constructor <;> intro h <;> cases h <;> rfl
  | ok value =>
    constructor <;> intro h <;> cases h

theorem mapError_ok_iff {value : α} : step.mapError rename = .ok value ↔ step = .ok value := by
  cases step with
  | error error =>
    constructor <;> intro h <;> cases h
  | ok other =>
    constructor <;> intro h <;> cases h <;> rfl

theorem mapError_error_iff {error : ε'} :
    step.mapError rename = .error error ↔
      ∃ fault, step = .error fault ∧ rename fault = error := by
  cases step with
  | error fault =>
    constructor
    · intro h
      cases h
      exact ⟨fault, rfl, rfl⟩
    · rintro ⟨other, h, rfl⟩
      cases h
      rfl
  | ok value =>
    constructor
    · intro h
      cases h
    · rintro ⟨fault, h, -⟩
      cases h

/-- Two steps agree: both come to values that are related, or both fail. -/
inductive Agree (related : α → β → Prop) : Except ε α → Except ε' β → Prop where
  | ok {value : α} {value' : β} (values : related value value') :
      Agree related (.ok value) (.ok value')
  | error {error : ε} {error' : ε'} : Agree related (.error error) (.error error')

/-- Steps agree if neither comes to a value. -/
theorem Agree.of_ne_ok {related : α → β → Prop} {step' : Except ε' β}
    (h : ∀ value, step ≠ .ok value) (h' : ∀ value, step' ≠ .ok value) :
    Agree related step step' := by
  cases step with
  | ok value => exact absurd rfl (h value)
  | error error =>
    cases step' with
    | ok value => exact absurd rfl (h' value)
    | error error' => exact .error

/-- Steps that agree may be followed by steps that agree on related values. -/
theorem Agree.bind {related : α → α → Prop} {related' : β → β → Prop} {step' : Except ε α}
    {next' : α → Except ε β} (h : Agree related step step')
    (hnext : ∀ value value', related value value' → Agree related' (next value) (next' value')) :
    Agree related' (step >>= next) (step' >>= next') := by
  cases h with
  | ok values => exact hnext _ _ values
  | error => exact .error

end Stave
