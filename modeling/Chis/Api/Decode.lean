import Chis.Api.Request

/-!
# Decoding and validating request bodies

`pkg/validator/validator.go` with the parts of `encoding/json` and of the validator it rests on. A
body is decoded into the fields of a struct, whatever their order; then every field is checked
against the rules of its tag.
-/

namespace Chis.Api

/-! ### Decoding -/

/-- The nesting at which `encoding/json` gives up. -/
def maxNestingDepth : Nat := 10000

/-- Folding of one character of a key: letters count without their case, and two characters
outside ASCII count as letters. -/
def foldRune (c : Char) : Char :=
  if c.toNat = 0x17F then 'S' else if c.toNat = 0x212A then 'K' else c.toUpper

/-- Whether a key names a field. -/
def namesField (field key : String) : Bool := key.toList.map foldRune = field.toList.map foldRune

/-- The values given for a field, in order. -/
def given (field : String) (ms : List (String × Json Decimal)) : List (Json Decimal) :=
  (ms.filter fun m ↦ namesField field m.1).map Prod.snd

/-- A field of type `string`: `null` leaves it as it is, and a value of another type is an error. -/
def stringField (field : String) (ms : List (String × Json Decimal)) : Option String :=
  (given field ms).foldlM
    (fun acc j ↦
      match j with
      | .str s => some s
      | .null => some acc
      | _ => none) ""

/-- A field of type `time.Time`; `none` inside is the zero time. -/
def timeField (env : Env) (field : String) (ms : List (String × Json Decimal)) :
    Option (Option Time) :=
  (given field ms).foldlM
    (fun acc j ↦
      match j with
      | .str s => env.parseTime s
      | .null => some acc
      | _ => none) none

/-- A value decoded into an `interface{}`: every number becomes the nearest double. -/
def decodeAny (j : Json Decimal) : Option (Json Double) := j.traverse Double.ofDecimal

/-- A field of type `interface{}`, `nil` unless a value other than `null` is given last. -/
def anyField (field : String) (ms : List (String × Json Decimal)) : Option (Json Double) :=
  (given field ms).foldlM (fun _ j ↦ decodeAny j) .null

/-- `json.NewDecoder(body).Decode`: the members of the first value of a body, which is an object.
`null` decodes like an object without members. -/
def decode (body : String) : Option (List (String × Json Decimal)) :=
  match Json.parsePrefix body with
  | some (j, _) =>
    if maxNestingDepth < j.depth then none
    else
      match j with
      | .obj ms => some ms
      | .null => some []
      | _ => none
  | none => none

/-! ### Validation -/

/-- The rules of the tags in use. -/
inductive Rule
  | required | email | url
  | min (n : Nat)
  | oneof (options : List String)
deriving DecidableEq

/-- Whether a text satisfies a rule. -/
def Rule.check (env : Env) : Rule → String → Bool
  | .required, s => s ≠ ""
  | .email, s => env.isEmail s
  | .url, s => env.isUrl s
  | .min n, s => n ≤ s.length
  | .oneof options, s => options.contains s

/-- The message of `FormatErrors` for a rule that fails; `validator.go:42`. -/
def Rule.message (field : String) : Rule → String
  | .required => field ++ " is required"
  | .email => field ++ " must be a valid email"
  | .url => field ++ " must be a valid URL"
  | .min n => field ++ " must be at least " ++ toString n ++ " characters"
  | .oneof options => field ++ " must be one of: " ++ String.intercalate " " options

/-- The error of a field: that of its first rule that fails. -/
def fieldErrors (env : Env) (field : String) (rules : List Rule) (value : String) :
    List FieldError :=
  ((rules.find? fun r ↦ !r.check env value).map fun r ↦ ⟨field, r.message field⟩).toList

/-- Every error names the field it is about. -/
theorem fieldErrors_field {env : Env} {field value : String} {rules : List Rule} {e : FieldError}
    (h : e ∈ fieldErrors env field rules value) : e.field = field := by
  rw [fieldErrors, Option.mem_toList, Option.map_eq_some_iff] at h
  obtain ⟨r, -, rfl⟩ := h
  rfl

/-- A field has no error exactly when it satisfies its rules. -/
theorem fieldErrors_eq_nil {env : Env} {field value : String} {rules : List Rule} :
    fieldErrors env field rules value = [] ↔ ∀ r ∈ rules, r.check env value = true := by
  simp [fieldErrors]

/-- The same with `omitempty`: an empty field is not checked. -/
def optionalErrors (env : Env) (field : String) (rules : List Rule) (value : String) :
    List FieldError :=
  if value = "" then [] else fieldErrors env field rules value

/-- `DecodeAndValidate`; `validator.go:20`. -/
def decodeAndValidate {α : Type} (fields : List (String × Json Decimal) → Option α)
    (errors : α → List FieldError) (body : String) : Except Fault α :=
  match (decode body).bind fields with
  | none => .error (.other "invalid JSON")
  | some req => if errors req = [] then .ok req else .error (.validation (errors req))

/-- A body is accepted exactly when it decodes to a value without errors. -/
theorem decodeAndValidate_ok {α : Type} {fields : List (String × Json Decimal) → Option α}
    {errors : α → List FieldError} {body : String} {req : α} :
    decodeAndValidate fields errors body = .ok req ↔
      (decode body).bind fields = some req ∧ errors req = [] := by
  unfold decodeAndValidate
  split
  · next h => simp [h]
  · next req' h =>
    rw [h, Option.some.injEq]
    split
    · next he =>
      rw [Except.ok.injEq]
      constructor
      · rintro rfl
        exact ⟨rfl, he⟩
      · exact And.left
    · next he =>
      simp only [reduceCtorEq, false_iff, not_and]
      rintro rfl
      exact he

end Chis.Api
