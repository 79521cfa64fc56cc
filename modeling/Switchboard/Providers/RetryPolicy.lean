import Mathlib.Data.List.Infix
import Mathlib.Tactic
import Switchboard.Library.Except
import Switchboard.Library.Json

/-!
# Which upstream failures are retried

One policy decides before a response stream is open, another one while it is read.
They agree on every exception but those whose timeouts say nothing about the stream.
-/

namespace Switchboard.Providers.RetryPolicy

/-- The exception classes that the policies ask for. -/
inductive ExceptionClass where
  | providerRecoveryExhausted
  | executionFailure
  | retryableProviderProtocolError
  | timeoutError
  | authenticationError
  | permissionDeniedError
  | badRequestError
  | rateLimitError
  | apiTimeoutError
  | apiConnectionError
  | httpStatusError
  | timeoutException
  | readTimeout
  | networkError
  | connectError
  | readError
  | writeError
  | remoteProtocolError
deriving DecidableEq, Repr

/-- Where a class is at home. No class inherits from two of these. -/
inductive Home where
  | recovery
  | execution
  | protocol
  | builtin
  | openai
  | httpx
deriving DecidableEq, Repr

def ExceptionClass.home : ExceptionClass → Home
  | providerRecoveryExhausted => .recovery
  | executionFailure => .execution
  | retryableProviderProtocolError => .protocol
  | timeoutError => .builtin
  | authenticationError | permissionDeniedError | badRequestError | rateLimitError
  | apiTimeoutError | apiConnectionError => .openai
  | httpStatusError | timeoutException | readTimeout | networkError | connectError | readError
  | writeError | remoteProtocolError => .httpx

/-- The `body` of an exception; one that has none has the body `None`. -/
inductive Body where
  | value (body : Json)
  | bytes (data : List UInt8)

/-- What is read of an exception. `statusCode` is its attribute of that name, if that is
an integer; `responseText` is missing where reading it fails. -/
structure ProviderException where
  isinstance : ExceptionClass → Bool
  message : String
  statusCode : Option ℤ
  body : Body
  responseText : Option String
  /-- `exc.response.status_code` of an HTTP status error. -/
  responseStatus : ℤ
  /-- Fields of an execution failure. -/
  failureStatus : ℤ
  failureRetryable : Bool
  one_home : ∀ {c d}, isinstance c = true → isinstance d = true → c.home = d.home
  readTimeout_timeout : isinstance .readTimeout = true → isinstance .timeoutException = true
  connectError_network : isinstance .connectError = true → isinstance .networkError = true
  readError_network : isinstance .readError = true → isinstance .networkError = true
  writeError_network : isinstance .writeError = true → isinstance .networkError = true
  apiTimeout_connection : isinstance .apiTimeoutError = true → isinstance .apiConnectionError = true
  /-- A status error is no connection error. -/
  denied_connection : isinstance .permissionDeniedError = true →
    isinstance .apiConnectionError = false
  /-- The protocol errors of the providers carry a message only. -/
  protocol_plain : isinstance .retryableProviderProtocolError = true → body = .value .null

/-- What the policies use of Python. `loads` gives none where it raises `ValueError`; the
text of a JSON string is shorter than the string. `int` gives none where it raises. -/
structure Python where
  loads : String → Option Json
  loads_shorter : ∀ {s t}, loads s = some (.str t) → t.length < s.length
  dumps : Json → String
  decode : List UInt8 → String
  lower : String → String
  isdigit : String → Bool
  int : String → Option ℤ

/-! ## Transient statuses -/

def rateLimitMarkers : List String := ["rate_limit", "rate limit", "too many requests"]

def overloadMarkers : List String :=
  ["resourceexhausted", "resource exhausted", "limit reached", "overloaded", "capacity"]

def internalErrorMarkers : List String := ["internal_server_error", "internal server error"]

def hasMarker (text : String) (markers : List String) : Bool :=
  markers.any fun marker => marker.toList <:+: text.toList

/-- The status that a text stands for. -/
def markedStatus (text : String) : Option ℤ :=
  if hasMarker text rateLimitMarkers then some 429
  else if hasMarker text overloadMarkers then some 503
  else if hasMarker text internalErrorMarkers then some 500
  else none

def isRetryableStatus (status : ℤ) : Bool := status = 429 || 500 ≤ status && status ≤ 599

variable (py : Python)

/-- `_coerce_status`; a Boolean is an integer. -/
def coerceStatus : Json → Except String (Option ℤ)
  | .int n => .ok (some n)
  | .bool b => .ok (some (if b then 1 else 0))
  | .str s =>
    if py.isdigit s then
      match py.int s with
      | some n => .ok (some n)
      | none => .error s!"invalid literal for int() with base 10: {Json.reprString s}"
    else .ok none
  | _ => .ok none

def statusFromTypeFields (item : Json) : Option ℤ :=
  let values := [item.getD "type", item.getD "code"].filterMap fun value =>
    match value with
    | .str s => some (py.lower s)
    | _ => none
  markedStatus (" ".intercalate values)

def statusFromKeys (item : Json) : List String → Except String (Option ℤ)
  | [] => .ok none
  | key :: keys => do
    match ← coerceStatus py (item.getD key) with
    | some status => return some status
    | none => statusFromKeys item keys

def isMapping : Json → Bool
  | .obj _ => true
  | _ => false

/-- A decoded body, and the object its field `error` holds. -/
def decodedCandidates (body : Json) : List Json :=
  if isMapping (body.getD "error") then [body, body.getD "error"] else [body]

/-- `_body_candidates`. A body that is a text may be encoded more than once. -/
def bodyCandidates : Json → List Json
  | .str s =>
    match h : py.loads s with
    | some (.str t) =>
      have := py.loads_shorter h
      bodyCandidates (.str t)
    | some value => decodedCandidates value
    | none => [.str s]
  | value => decodedCandidates value
termination_by value => match value with
  | .str s => s.length
  | _ => 0

def statusFromCandidates : List Json → Except String (Option ℤ)
  | [] => .ok none
  | item :: items =>
    if !isMapping item then statusFromCandidates items
    else do
      match ← statusFromKeys py item ["status", "status_code", "code"] with
      | some status => return some status
      | none =>
        match statusFromTypeFields py item with
        | some status => return some status
        | none => statusFromCandidates items

def statusFromBody : Body → Except String (Option ℤ)
  | .value body => statusFromCandidates py (bodyCandidates py body)
  | .bytes data => statusFromCandidates py (bodyCandidates py (.str (py.decode data)))

def bodyToText : Body → String
  | .bytes data => py.decode data
  | .value (.str s) => s
  | .value .null => ""
  | .value body => py.dumps body

def transientErrorText (exc : ProviderException) : String :=
  let parts := [exc.message, bodyToText py exc.body, exc.responseText.getD ""]
  py.lower (" ".intercalate (parts.filter (· ≠ "")))

def retryableTransientStatus (exc : ProviderException) : Except String (Option ℤ) :=
  if exc.isinstance .providerRecoveryExhausted then .ok none
  else if exc.isinstance .executionFailure then
    .ok (if exc.failureRetryable && isRetryableStatus exc.failureStatus then
      some exc.failureStatus else none)
  else if exc.isinstance .rateLimitError then .ok (some 429)
  else if exc.isinstance .httpStatusError then
    .ok (if isRetryableStatus exc.responseStatus then some exc.responseStatus else none)
  else if exc.statusCode.any isRetryableStatus then .ok exc.statusCode
  else do
    let bodyStatus ← statusFromBody py exc.body
    if bodyStatus.any isRetryableStatus then return bodyStatus
    return markedStatus (transientErrorText py exc)

/-! ## The two policies -/

/-- `is_retryable_provider_error`. -/
def isRetryableProviderError (exc : ProviderException) : Except String Bool :=
  if exc.isinstance .providerRecoveryExhausted then .ok false
  else if exc.isinstance .executionFailure then .ok exc.failureRetryable
  else if exc.isinstance .authenticationError || exc.isinstance .permissionDeniedError ||
      exc.isinstance .badRequestError then .ok false
  else do
    let status ← retryableTransientStatus py exc
    if status.isSome then return true
    return [ExceptionClass.timeoutError, .timeoutException, .connectError, .readError, .writeError,
      .remoteProtocolError, .networkError, .apiTimeoutError, .apiConnectionError,
      .retryableProviderProtocolError].any exc.isinstance

/-- `is_retryable_stream_error`. -/
def isRetryableStreamError (exc : ProviderException) : Except String Bool :=
  if exc.isinstance .retryableProviderProtocolError then .ok true
  else if exc.isinstance .executionFailure then .ok exc.failureRetryable
  else if exc.isinstance .authenticationError || exc.isinstance .badRequestError then .ok false
  else do
    let status ← retryableTransientStatus py exc
    if status.isSome then return true
    return [ExceptionClass.timeoutError, .readTimeout, .readError, .remoteProtocolError,
      .connectError, .networkError, .apiTimeoutError, .apiConnectionError].any exc.isinstance

/-! ## Where they agree -/

variable {py : Python} {exc : ProviderException} {c d : ExceptionClass}

/-- A timeout of the client other than one that waited for the next bytes of a response. -/
def OtherTimeout (exc : ProviderException) : Prop :=
  exc.isinstance .timeoutException = true ∧ exc.isinstance .readTimeout = false ∧
    exc.isinstance .networkError = false ∧ exc.isinstance .remoteProtocolError = false

theorem not_isinstance (h : exc.isinstance c = true) (hhome : c.home ≠ d.home) :
    exc.isinstance d = false := by
  by_contra hd
  exact hhome (exc.one_home h (by simpa using hd))

theorem statusFromBody_null : statusFromBody py (.value .null) = .ok none := by
  simp [statusFromBody, bodyCandidates, decodedCandidates, statusFromCandidates, isMapping,
    Json.getD, Json.get?]

theorem protocol_transient (h : exc.isinstance .retryableProviderProtocolError = true) :
    ∃ status, retryableTransientStatus py exc = .ok status := by
  unfold retryableTransientStatus
  rw [exc.protocol_plain h, statusFromBody_null]
  split_ifs
  all_goals exact ⟨_, rfl⟩

theorem recovery_agrees (h : exc.isinstance .providerRecoveryExhausted = true) :
    isRetryableStreamError py exc = isRetryableProviderError py exc := by
  have hother : ∀ d, d ≠ .providerRecoveryExhausted → exc.isinstance d = false := by
    intro d hd
    refine not_isinstance h ?_
    cases d <;> first | exact absurd rfl hd | decide
  have htransient : retryableTransientStatus py exc = .ok none := by
    unfold retryableTransientStatus
    rw [if_pos h]
  unfold isRetryableStreamError isRetryableProviderError
  rw [htransient]
  simp [h, hother, pure, Except.pure, bind, Except.bind]

theorem protocol_agrees (h : exc.isinstance .retryableProviderProtocolError = true) :
    isRetryableStreamError py exc = isRetryableProviderError py exc := by
  have hother : ∀ d, d ≠ .retryableProviderProtocolError → exc.isinstance d = false := by
    intro d hd
    refine not_isinstance h ?_
    cases d <;> first | exact absurd rfl hd | decide
  obtain ⟨status, htransient⟩ := @protocol_transient py _ h
  unfold isRetryableStreamError isRetryableProviderError
  rw [htransient]
  cases status <;> simp [h, hother, pure, Except.pure, bind, Except.bind]

/-- The classes the two policies end with differ only in timeouts. -/
theorem classes_agree (hprotocol : exc.isinstance .retryableProviderProtocolError = false)
    (hother : ¬ OtherTimeout exc) :
    [ExceptionClass.timeoutError, .readTimeout, .readError, .remoteProtocolError,
      .connectError, .networkError, .apiTimeoutError, .apiConnectionError].any exc.isinstance =
    [ExceptionClass.timeoutError, .timeoutException, .connectError, .readError, .writeError,
      .remoteProtocolError, .networkError, .apiTimeoutError, .apiConnectionError,
      .retryableProviderProtocolError].any exc.isinstance := by
  have hread := exc.readTimeout_timeout
  have hwrite := exc.writeError_network
  unfold OtherTimeout at hother
  simp only [List.any_cons, List.any_nil, hprotocol, Bool.or_false]
  grind

theorem otherTimeout_splits (hother : OtherTimeout exc)
    (hstatus : retryableTransientStatus py exc = .ok none) :
    isRetryableStreamError py exc = .ok false ∧ isRetryableProviderError py exc = .ok true := by
  obtain ⟨htimeout, hread, hnetwork, hremote⟩ := hother
  have hhome : ∀ d, d.home ≠ .httpx → exc.isinstance d = false := fun d hd =>
    not_isinstance htimeout (Ne.symm hd)
  have hconnect := exc.connectError_network
  have hreadError := exc.readError_network
  rw [hnetwork] at hconnect hreadError
  have hrecovery := hhome .providerRecoveryExhausted (by decide)
  have hexecution := hhome .executionFailure (by decide)
  have hprotocol := hhome .retryableProviderProtocolError (by decide)
  have hauthentication := hhome .authenticationError (by decide)
  have hdenied := hhome .permissionDeniedError (by decide)
  have hbad := hhome .badRequestError (by decide)
  have hbuiltin := hhome .timeoutError (by decide)
  have hapi := hhome .apiTimeoutError (by decide)
  have hconnection := hhome .apiConnectionError (by decide)
  unfold isRetryableStreamError isRetryableProviderError
  rw [hstatus]
  constructor
  · simp_all [pure, Except.pure, bind, Except.bind]
  · simp_all [pure, Except.pure, bind, Except.bind]

theorem denied_agrees (h : exc.isinstance .permissionDeniedError = true)
    (hstatus : retryableTransientStatus py exc = .ok none) :
    isRetryableStreamError py exc = isRetryableProviderError py exc := by
  have hhome : ∀ d, d.home ≠ .openai → exc.isinstance d = false := fun d hd =>
    not_isinstance h (Ne.symm hd)
  have hconnection := exc.denied_connection h
  have hapi := exc.apiTimeout_connection
  have hnone : [ExceptionClass.timeoutError, .readTimeout, .readError, .remoteProtocolError,
      .connectError, .networkError, .apiTimeoutError, .apiConnectionError].any
      exc.isinstance = false := by
    rw [List.any_eq_false]
    intro d hd
    have hcases : d.home ≠ .openai ∨ d = .apiTimeoutError ∨ d = .apiConnectionError := by
      revert hd
      cases d <;> decide
    obtain hd | rfl | rfl := hcases
    · rw [hhome d hd]
      decide
    · rw [hconnection] at hapi
      exact fun h => absurd (hapi h) (by decide)
    · rw [hconnection]
      decide
  unfold isRetryableStreamError isRetryableProviderError
  rw [hstatus, hnone, hhome .providerRecoveryExhausted (by decide),
    hhome .executionFailure (by decide), hhome .retryableProviderProtocolError (by decide)]
  simp [h, pure, Except.pure, bind, Except.bind]

/-- Apart from a denied request whose message or body stands for a transient status, the
policies differ only in timeouts without such a status: before the stream is open they
are retried, in the stream they are not. -/
theorem retry_policies_agree (py : Python) (exc : ProviderException)
    (hdenied : exc.isinstance .permissionDeniedError = true →
      retryableTransientStatus py exc = .ok none) :
    (OtherTimeout exc → retryableTransientStatus py exc = .ok none →
      isRetryableStreamError py exc = .ok false ∧ isRetryableProviderError py exc = .ok true) ∧
    (¬ (OtherTimeout exc ∧ retryableTransientStatus py exc = .ok none) →
      isRetryableStreamError py exc = isRetryableProviderError py exc) := by
  refine ⟨otherTimeout_splits, fun hagree => ?_⟩
  by_cases hrecovery : exc.isinstance .providerRecoveryExhausted = true
  · exact recovery_agrees hrecovery
  by_cases hprotocol : exc.isinstance .retryableProviderProtocolError = true
  · exact protocol_agrees hprotocol
  by_cases hforbidden : exc.isinstance .permissionDeniedError = true
  · exact denied_agrees hforbidden (hdenied hforbidden)
  rw [Bool.not_eq_true] at hrecovery hprotocol hforbidden
  unfold isRetryableStreamError isRetryableProviderError
  rw [hrecovery, hprotocol, hforbidden, Bool.or_false]
  cases hstatus : retryableTransientStatus py exc with
  | error e => rfl
  | ok status =>
    cases status with
    | some status => rfl
    | none =>
      have hother : ¬ OtherTimeout exc := fun h => hagree ⟨h, hstatus⟩
      have hclasses := classes_agree hprotocol hother
      simp only [Bool.false_eq_true, if_false]
      rw [hclasses]

/-- Enough of Python for texts in lower case. -/
def plainPython : Python where
  loads _ := none
  loads_shorter h := by cases h
  dumps _ := ""
  decode _ := ""
  lower s := s
  isdigit _ := false
  int _ := none

def connectTimeout : ProviderException where
  isinstance c := c = .timeoutException
  message := "connect"
  statusCode := none
  body := .value .null
  responseText := none
  responseStatus := 0
  failureStatus := 0
  failureRetryable := false
  one_home hc hd := by
    rw [of_decide_eq_true hc, of_decide_eq_true hd]
  readTimeout_timeout h := by cases h
  connectError_network h := by cases h
  readError_network h := by cases h
  writeError_network h := by cases h
  apiTimeout_connection h := by cases h
  denied_connection h := by cases h
  protocol_plain h := by cases h

theorem connectTimeout_status :
    retryableTransientStatus plainPython connectTimeout = .ok none := by
  have hmarked : markedStatus (transientErrorText plainPython connectTimeout) = none := by
    decide
  unfold retryableTransientStatus
  simp only [connectTimeout, statusFromBody_null] at hmarked ⊢
  rw [hmarked]
  rfl

theorem retry_policies_agree_connectTimeout :
    isRetryableStreamError plainPython connectTimeout = .ok false ∧
      isRetryableProviderError plainPython connectTimeout = .ok true :=
  (retry_policies_agree plainPython connectTimeout fun h => by cases h).1
    ⟨rfl, rfl, rfl, rfl⟩ connectTimeout_status

/-- A request that could not connect in time is retried by one policy only. -/
theorem retry_policies_differ :
    ¬ ∀ (py : Python) (exc : ProviderException),
      isRetryableStreamError py exc = isRetryableProviderError py exc := by
  intro h
  have hsplit := @otherTimeout_splits plainPython _ ⟨rfl, rfl, rfl, rfl⟩ connectTimeout_status
  have hsame := h plainPython connectTimeout
  rw [hsplit.1, hsplit.2] at hsame
  cases hsame

end Switchboard.Providers.RetryPolicy
