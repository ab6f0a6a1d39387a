import Mathlib.Logic.Basic

/-!
# The exception filters of the two apps

`AllExceptionsFilter` of the API app and `HttpExceptionFilter` of the auth app turn an exception
into an error envelope. They agree on every exception whose response has a code and a text as its
message; where a field is missing each falls back to a value of its own, which its tests fix.

`toUpperCase` maps every code point by a table of the Unicode standard; the table is a parameter.
-/

namespace FoosballApi.Http

variable {δ : Type}

/-- The `message` of a response: a text, or the texts that a `ValidationPipe` collects. -/
inductive Message where
  | text (value : String)
  | texts (values : List String)
  deriving DecidableEq, Repr

/-- An object response; any of its fields may be missing. The details are passed on as they are. -/
structure ResponseObject (δ : Type) where
  code : Option String := none
  message : Option Message := none
  error : Option String := none
  statusCode : Option Nat := none
  details : Option δ := none
  deriving DecidableEq

/-- `exception.getResponse()`. -/
inductive ExceptionResponse (δ : Type) where
  | text (value : String)
  | object (fields : ResponseObject δ)
  deriving DecidableEq

/-- `HttpException`, with the `message` every `Error` has. -/
structure HttpException (δ : Type) where
  status : Nat
  response : ExceptionResponse δ
  message : String
  deriving DecidableEq

/-- What a handler can throw. -/
inductive Thrown (δ : Type) where
  | http (exception : HttpException δ)
  | other
  deriving DecidableEq

/-- The `error` object of a reply. -/
structure ErrorBody (δ : Type) where
  code : String
  message : Option Message
  details : Option δ := none
  deriving DecidableEq

/-- A reply with an error envelope. -/
structure ErrorReply (δ : Type) where
  status : Nat
  error : ErrorBody δ
  deriving DecidableEq

/-! ## `AllExceptionsFilter` -/

/-- `catch(exception)`. -/
def AllExceptionsFilter.catch : Thrown δ → ErrorReply δ
  | .other =>
      ⟨500, { code := "INTERNAL_ERROR", message := some (.text "An unexpected error occurred") }⟩
  | .http exception =>
      match exception.response with
      | .object r =>
          ⟨exception.status,
            { code := r.code.getD "HTTP_ERROR"
              message := some (r.message.getD (.text exception.message))
              details := r.details }⟩
      | .text response =>
          ⟨exception.status, { code := "HTTP_ERROR", message := some (.text response) }⟩

/-! ## `HttpExceptionFilter` -/

/-- The characters of the class `\s`. -/
def isSpace (c : Char) : Bool :=
  c.toNat ∈ [0x09, 0x0a, 0x0b, 0x0c, 0x0d, 0x20, 0xa0, 0x1680, 0x2028, 0x2029, 0x202f, 0x205f,
    0x3000, 0xfeff] || (0x2000 ≤ c.toNat && c.toNat ≤ 0x200a)

/-- Put one `_` in the place of each run of spaces; `inRun` says that the character before was a
space. -/
def replaceRuns (inRun : Bool) : List Char → List Char
  | [] => []
  | c :: rest =>
      if isSpace c then
        if inRun then replaceRuns true rest else '_' :: replaceRuns true rest
      else c :: replaceRuns false rest

/-- `error.toUpperCase().replace(/\s+/g, '_')`. -/
def errorCode (upper : Char → List Char) (error : String) : String :=
  String.ofList (replaceRuns false (error.toList.flatMap upper))

/-- `Array.isArray(r.message) ? r.message.join('; ') : (r.message ?? 'An error occurred')`. -/
def joinedMessage : Option Message → String
  | some (.texts values) => "; ".intercalate values
  | some (.text value) => value
  | none => "An error occurred"

/-- `catch(exception)`. -/
def HttpExceptionFilter.catch (upper : Char → List Char) (exception : HttpException δ) :
    ErrorReply δ :=
  match exception.response with
  | .object r =>
      match r.code with
      | some code =>
          ⟨exception.status, { code := code, message := r.message, details := r.details }⟩
      | none =>
          ⟨exception.status,
            { code := (r.error.map (errorCode upper)).getD "ERROR"
              message := some (.text (joinedMessage r.message)) }⟩
  | .text response => ⟨exception.status, { code := "ERROR", message := some (.text response) }⟩

/-! ## What the two envelopes have in common -/

namespace ExceptionResponse

/-- The code of a response, when it has one. -/
def code : ExceptionResponse δ → Option String
  | .object r => r.code
  | .text _ => none

/-- The message of a response, when it has one; a text is its own message. -/
def message : ExceptionResponse δ → Option Message
  | .object r => r.message
  | .text value => some (.text value)

/-- The code that the auth app sends for a response without one. -/
def fallbackCode (upper : Char → List Char) : ExceptionResponse δ → String
  | .object r => (r.error.map (errorCode upper)).getD "ERROR"
  | .text _ => "ERROR"

end ExceptionResponse

/-- Both replies have the exception's status and texts as code and message, the same ones. -/
def OneEnvelope (upper : Char → List Char) (exception : HttpException δ) : Prop :=
  let api := AllExceptionsFilter.catch (.http exception)
  let auth := HttpExceptionFilter.catch upper exception
  api.status = exception.status ∧ auth.status = exception.status ∧
    api.error.code = auth.error.code ∧
      ∃ text, api.error.message = some (.text text) ∧ auth.error.message = some (.text text)

variable {upper : Char → List Char} {exception : HttpException δ}

/-- Both filters pass the status on. -/
theorem status_catch (upper : Char → List Char) (exception : HttpException δ) :
    (AllExceptionsFilter.catch (.http exception)).status = exception.status ∧
      (HttpExceptionFilter.catch upper exception).status = exception.status := by
  obtain ⟨status, response, message⟩ := exception
  cases response with
  | text value => exact ⟨rfl, rfl⟩
  | object r =>
      obtain ⟨_ | code, message, error, statusCode, details⟩ := r <;> exact ⟨rfl, rfl⟩

/-- The code of the response, or the fallback of the app. -/
theorem code_catch (upper : Char → List Char) (exception : HttpException δ) :
    (AllExceptionsFilter.catch (.http exception)).error.code =
        exception.response.code.getD "HTTP_ERROR" ∧
      (HttpExceptionFilter.catch upper exception).error.code =
        exception.response.code.getD (exception.response.fallbackCode upper) := by
  obtain ⟨status, response, message⟩ := exception
  cases response with
  | text value => exact ⟨rfl, rfl⟩
  | object r =>
      obtain ⟨_ | code, message, error, statusCode, details⟩ := r <;> exact ⟨rfl, rfl⟩

/-- Both filters pass a text on. -/
theorem message_catch_text {text : String}
    (htext : exception.response.message = some (.text text)) :
    (AllExceptionsFilter.catch (.http exception)).error.message = some (.text text) ∧
      (HttpExceptionFilter.catch upper exception).error.message = some (.text text) := by
  obtain ⟨status, response, message⟩ := exception
  cases response with
  | text value => exact ⟨htext, htext⟩
  | object r =>
      obtain ⟨code, message, error, statusCode, details⟩ := r
      obtain rfl : message = some (.text text) := htext
      cases code <;> exact ⟨rfl, rfl⟩

/-- The replies have one code exactly when the response has a code, or its `error` spells the
fallback of the API. -/
theorem same_code_iff (upper : Char → List Char) (exception : HttpException δ) :
    (AllExceptionsFilter.catch (.http exception)).error.code =
        (HttpExceptionFilter.catch upper exception).error.code ↔
      exception.response.code.isSome ∨ exception.response.fallbackCode upper = "HTTP_ERROR" := by
  obtain ⟨hapi, hauth⟩ := code_catch upper exception
  rw [hapi, hauth]
  cases hcode : exception.response.code with
  | some code => simp
  | none =>
      simp only [Option.getD_none, Option.isSome_none, Bool.false_eq_true, false_or]
      exact eq_comm

/-- A text reaches the client through both apps, in one envelope exactly when the codes agree. -/
theorem oneEnvelope_iff {text : String} (htext : exception.response.message = some (.text text)) :
    OneEnvelope upper exception ↔
      exception.response.code.isSome ∨ exception.response.fallbackCode upper = "HTTP_ERROR" := by
  rw [← same_code_iff upper exception]
  obtain ⟨hapi, hauth⟩ := status_catch upper exception
  constructor
  · intro h
    exact h.2.2.1
  · intro hcode
    exact ⟨hapi, hauth, hcode, text, message_catch_text htext⟩

/-- Both filters reply with the exception's status. The code is that of the response, or the app's
own fallback. A text is passed on by both, and then they send one envelope exactly when the codes
agree; for a missing message each has its own fallback, and the auth app joins several texts. -/
theorem filters_reply (upper : Char → List Char) (exception : HttpException δ) :
    let api := AllExceptionsFilter.catch (.http exception)
    let auth := HttpExceptionFilter.catch upper exception
    let response := exception.response
    (api.status = exception.status ∧ auth.status = exception.status) ∧
    (api.error.code = response.code.getD "HTTP_ERROR" ∧
      auth.error.code = response.code.getD (response.fallbackCode upper)) ∧
    (∀ text, response.message = some (.text text) →
      (api.error.message = some (.text text) ∧ auth.error.message = some (.text text)) ∧
      (OneEnvelope upper exception ↔
        response.code.isSome ∨ response.fallbackCode upper = "HTTP_ERROR")) ∧
    (response.message = none → api.error.message = some (.text exception.message) ∧
      (response.code = none → auth.error.message = some (.text "An error occurred"))) ∧
    ∀ texts, response.message = some (.texts texts) → response.code = none →
      auth.error.message = some (.text ("; ".intercalate texts)) := by
  refine ⟨status_catch upper exception, code_catch upper exception, ?_, ?_, ?_⟩
  · intro text htext
    exact ⟨message_catch_text htext, oneEnvelope_iff htext⟩
  · intro hnone
    obtain ⟨status, response, message⟩ := exception
    cases response with
    | text value => cases hnone
    | object r =>
        obtain ⟨code, _ | message, error, statusCode, details⟩ := r
        · refine ⟨rfl, fun hcode => ?_⟩
          obtain rfl : code = none := hcode
          rfl
        · cases hnone
  · intro texts htexts hcode
    obtain ⟨status, response, message⟩ := exception
    cases response with
    | text value => cases htexts
    | object r =>
        obtain ⟨code, message, error, statusCode, details⟩ := r
        obtain rfl : message = some (.texts texts) := htexts
        obtain rfl : code = none := hcode
        rfl

/-- `new NotFoundException({ code: 'USER_NOT_FOUND', message: 'User 999 not found' })`. -/
def userNotFound : HttpException Unit :=
  ⟨404, .object { code := some "USER_NOT_FOUND", message := some (.text "User 999 not found") },
    "User 999 not found"⟩

/-- A table of upper-case letters that knows the ASCII letters. -/
def asciiUpper (c : Char) : List Char := [c.toUpper]

example : errorCode asciiUpper "Bad  Request" = "BAD_REQUEST" := by decide

/-- Both apps report a missing user alike. -/
theorem filters_reply_userNotFound : OneEnvelope asciiUpper userNotFound :=
  ((filters_reply asciiUpper userNotFound).2.2.1 "User 999 not found" rfl).2.mpr (.inl rfl)

/-- `new HttpException('Forbidden', 403)`. -/
def forbiddenText : HttpException Unit := ⟨403, .text "Forbidden", "Forbidden"⟩

/-- A text response has the code `HTTP_ERROR` in one app and `ERROR` in the other. -/
theorem not_one_envelope_forbiddenText :
    ¬ ∀ (upper : Char → List Char) (exception : HttpException Unit),
      OneEnvelope upper exception := by
  intro h
  obtain ⟨-, -, hcode, -⟩ := h asciiUpper forbiddenText
  have hdiffer : (AllExceptionsFilter.catch (.http forbiddenText)).error.code ≠
      (HttpExceptionFilter.catch asciiUpper forbiddenText).error.code := by decide
  exact hdiffer hcode

end FoosballApi.Http
