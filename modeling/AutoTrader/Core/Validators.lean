import AutoTrader.Python.Case

/-!
# The secrets and the owner in `app/core/config.py`

The validators of `JWT_SECRET`, `WEBHOOK_SECRET` and `WEBHOOK_TRADE_OWNER_EMAIL`.
-/

namespace AutoTrader

open Python

/-- `PLACEHOLDER_SECRETS`. -/
def placeholderSecrets : List String :=
  ["replace_with_a_long_random_string_at_least_32_chars",
    "replace_with_a_random_string_at_least_16_chars", "change-me", "changeme", "replace-me",
    "your-secret-here", "string"]

inductive SettingError
  /-- The bound of the field is not met. -/
  | stringTooShort (minLength : Nat)
  | valueError (message : String)
  deriving DecidableEq

section Validators

variable (tables : CaseTables)

def IsPlaceholder (value : String) : Prop :=
  lower tables (strip value.toList) ∈ placeholderSecrets.map String.toList

instance : DecidablePred (IsPlaceholder tables) := fun value =>
  inferInstanceAs (Decidable (lower tables (strip value.toList) ∈ _))

/-- `_reject_placeholder_secrets`. -/
def rejectPlaceholderSecrets (fieldName value : String) : Except SettingError String :=
  if IsPlaceholder tables value then
    .error (.valueError (fieldName ++ " still contains a placeholder value. " ++
      "Generate a real secret with: " ++
      "python -c \"import secrets; print(secrets.token_urlsafe(48))\""))
  else .ok value

/-- A field with `Field(min_length=...)` and the validator. -/
def validateSecret (fieldName : String) (minLength : Nat) (value : String) :
    Except SettingError String :=
  if value.toList.length < minLength then .error (.stringTooShort minLength)
  else rejectPlaceholderSecrets tables fieldName value

def jwtSecret : String → Except SettingError String := validateSecret tables "JWT_SECRET" 32

def webhookSecret : String → Except SettingError String :=
  validateSecret tables "WEBHOOK_SECRET" 16

/-- `_normalise_owner_email`. -/
def normaliseOwnerEmail (value : String) : Except SettingError String :=
  let value := lower tables (strip value.toList)
  if '@' ∈ value then .ok (String.ofList value)
  else .error (.valueError "WEBHOOK_TRADE_OWNER_EMAIL must be an email address")

end Validators

variable {tables : CaseTables}

theorem validateSecret_eq_ok {fieldName value secret : String} {minLength : Nat} :
    validateSecret tables fieldName minLength value = .ok secret ↔
      secret = value ∧ minLength ≤ value.toList.length ∧ ¬ IsPlaceholder tables value := by
  simp only [validateSecret, rejectPlaceholderSecrets]
  by_cases hlength : value.toList.length < minLength
  · rw [if_pos hlength]
    refine ⟨fun h => (by cases h), fun h => ?_⟩
    omega
  · rw [if_neg hlength]
    by_cases hplaceholder : IsPlaceholder tables value
    · rw [if_pos hplaceholder]
      exact ⟨fun h => (by cases h), fun h => absurd hplaceholder h.2.2⟩
    · rw [if_neg hplaceholder]
      refine ⟨fun h => ?_, fun h => by rw [h.1]⟩
      cases h
      exact ⟨rfl, by omega, hplaceholder⟩

theorem normaliseOwnerEmail_eq_ok {value email : String} :
    normaliseOwnerEmail tables value = .ok email ↔
      email = String.ofList (lower tables (strip value.toList)) ∧
        '@' ∈ lower tables (strip value.toList) := by
  simp only [normaliseOwnerEmail]
  by_cases h : '@' ∈ lower tables (strip value.toList)
  · rw [if_pos h, Except.ok.injEq]
    exact ⟨fun heq => ⟨heq.symm, h⟩, fun heq => heq.1.symm⟩
  · rw [if_neg h]
    exact ⟨fun heq => (by cases heq), fun heq => absurd heq.2 h⟩

/-- What the validator returns it returns again. -/
theorem normaliseOwnerEmail_idem {value email : String}
    (h : normaliseOwnerEmail tables value = .ok email) :
    normaliseOwnerEmail tables email = .ok email := by
  obtain ⟨rfl, hat⟩ := normaliseOwnerEmail_eq_ok.mp h
  rw [normaliseOwnerEmail_eq_ok, String.toList_ofList, lower_strip_idem]
  exact ⟨rfl, hat⟩

end AutoTrader
