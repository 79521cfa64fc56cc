import Switchboard.Library.Json
import Switchboard.Library.Run

/-!
# Codex credentials

`OpenAIAuthManager` of `providers/openai_codex/auth.py`, any number of processes over one
credential file. A step is what a process does between two of its awaits; a section under
the file lock that awaits nothing from the server is one step.
-/

namespace Switchboard.Providers

/-- `_Credentials` -/
structure Credentials where
  accessToken : String
  refreshToken : String
  idToken : String
  accountId : String
  email : Option String
  expiresAt : ℤ
  fedramp : Bool
deriving DecidableEq, Repr

structure OpenAIAccess where
  accessToken : String
  accountId : String
  fedramp : Bool
deriving DecidableEq, Repr

inductive AuthError where
  | reconnectRequired (message : String)
  | login (message : String)
  | httpStatus (code : ℕ)
  | transport
  /-- The body of a response is not JSON. -/
  | decode
deriving DecidableEq, Repr

def refreshEarlySeconds : ℤ := 5 * 60

/-! ## Token responses -/

def truthy : Json → Bool
  | .null => false
  | .bool b => b
  | .int n => n ≠ 0
  | .float repr => repr ≠ "0.0" ∧ repr ≠ "-0.0"
  | .str s => s ≠ ""
  | .arr items => !items.isEmpty
  | .obj fields => !fields.isEmpty

def mappingClaim (payload : Json) (key : String) : Json :=
  match payload.get? key with
  | some (.obj fields) => .obj fields
  | _ => .obj []

def stringClaim (payload : Json) (key : String) : Option String := payload.text? key

def integerClaim (payload : Json) (key : String) : Option ℤ :=
  match payload.get? key with
  | some (.int n) => some n
  | some (.bool b) => some (if b then 1 else 0)
  | _ => none

section Decode

-- `_jwt_claims` decodes the middle part of a token.
variable (jwtClaims : String → Except String Json)

def optionalJwtClaims (token : String) : Json :=
  match jwtClaims token with
  | .ok claims => claims
  | .error _ => .obj []

def fromTokens (now : ℤ) (accessToken refreshToken idToken : String) :
    Except String Credentials := do
  let accessClaims := optionalJwtClaims jwtClaims accessToken
  let idClaims ← jwtClaims idToken
  let accessAuth := mappingClaim accessClaims "https://api.openai.com/auth"
  let authClaims :=
    if truthy accessAuth then accessAuth else mappingClaim idClaims "https://api.openai.com/auth"
  match stringClaim authClaims "chatgpt_account_id" with
  | none => .error "OpenAI sign-in did not return a ChatGPT account identifier."
  | some accountId =>
    let profile := mappingClaim idClaims "https://api.openai.com/profile"
    .ok
      { accessToken := accessToken
        refreshToken := refreshToken
        idToken := idToken
        accountId := accountId
        email := (stringClaim idClaims "email").or (stringClaim profile "email")
        expiresAt := (integerClaim accessClaims "exp").getD (now + 8 * 24 * 60 * 60)
        fedramp := match authClaims.get? "chatgpt_account_is_fedramp" with
          | some (.bool b) => b
          | _ => false }

/-- A token of the response, or the previous one where the response has none. -/
def tokenField (payload : Json) (key : String) (previous : Option String) : Option String :=
  match payload.getD key, previous with
  | .str "", previous => previous
  | .str s, _ => some s
  | value, some previous => if truthy value then none else some previous
  | _, none => none

/-- `_credentials_from_token_response` -/
def credentialsFromTokenResponse (now : ℤ) (payload : Json) (previous : Option Credentials) :
    Except String Credentials :=
  match payload with
  | .obj _ =>
    match tokenField payload "access_token" (previous.map (·.accessToken)),
      tokenField payload "refresh_token" (previous.map (·.refreshToken)),
      tokenField payload "id_token" (previous.map (·.idToken)) with
    | some accessToken, some refreshToken, some idToken =>
      fromTokens jwtClaims now accessToken refreshToken idToken
    | _, _, _ => .error "OpenAI token response is missing credentials."
  | _ => .error "OpenAI returned an invalid token response."

end Decode

/-! ## Processes -/

/-- The call that refreshes. Only `access` without `force_refresh` goes on with the old
credentials after a transient failure. -/
inductive RefreshCaller where
  | access | forced
deriving DecidableEq, Repr

/-- What the holder of the state lock does. -/
inductive AuthActivity where
  | idle
  /-- `_refresh_locked` waits for the file lock. -/
  | waitLock (current : Credentials) (caller : RefreshCaller)
  /-- The file lock is held and the request is under way. -/
  | refreshing (current : Credentials) (caller : RefreshCaller)
  /-- `disconnect` waits for the file lock. -/
  | disconnecting
deriving DecidableEq, Repr

/-- A login task after the exchange of its code. -/
inductive LoginPhase where
  /-- It waits for the file lock. -/
  | granted (credentials : Credentials)
  /-- The file is written, the state lock is awaited. -/
  | written (credentials : Credentials)
deriving DecidableEq, Repr

structure OpenAIAuthManager where
  credentials : Option Credentials := none
  revision : ℕ := 0
  lastError : Option String := none
  closed : Bool := false
  activity : AuthActivity := .idle
  login : Option LoginPhase := none
  /-- What the last call returned or raised. -/
  outcome : Option (Except AuthError OpenAIAccess) := none

/-- `__init__` -/
def OpenAIAuthManager.create (file : Option Credentials) : OpenAIAuthManager :=
  { credentials := file, revision := if file.isSome then 1 else 0 }

def OpenAIAuthManager.finish (m : OpenAIAuthManager) (outcome : Except AuthError OpenAIAccess) :
    OpenAIAuthManager :=
  { m with activity := .idle, outcome := some outcome }

def OpenAIAuthManager.returns (m : OpenAIAuthManager) (c : Credentials) : OpenAIAuthManager :=
  m.finish (.ok ⟨c.accessToken, c.accountId, c.fedramp⟩)

def OpenAIAuthManager.raises (m : OpenAIAuthManager) (error : AuthError) : OpenAIAuthManager :=
  m.finish (.error error)

/-- What `recover_unauthorized` works with after it has read the file. -/
def OpenAIAuthManager.reloaded (m : OpenAIAuthManager) (file : Option Credentials) :
    Option Credentials :=
  match file, m.credentials with
  | some reloaded, some current =>
    if reloaded.accessToken ≠ current.accessToken then some reloaded else some current
  | some reloaded, none => some reloaded
  | none, current => current

/-- `_is_transient_refresh_error` -/
def isTransientRefreshError : AuthError → Bool
  | .httpStatus code => code = 429 ∨ 500 ≤ code
  | .transport => true
  | _ => false

/-- An error of `_refresh_locked`, in the call that made it. -/
def OpenAIAuthManager.refreshFails (m : OpenAIAuthManager) (current : Credentials)
    (caller : RefreshCaller) (error : AuthError) : OpenAIAuthManager :=
  if caller = .access ∧ isTransientRefreshError error then m.returns current else m.raises error

/-- The answer to a refresh request. -/
inductive TokenResponse where
  /-- A status and a body, if that is JSON. -/
  | status (code : ℕ) (payload : Option Json)
  | transportError

/-- A file written or deleted by a process that held these credentials. -/
structure FileChange where
  held : Option Credentials
  before : Option Credentials
deriving DecidableEq

/-- The processes, their file and the server. The last three fields are history. -/
structure AuthWorld where
  file : Option Credentials := none
  fileLock : Option ℕ := none
  processes : ℕ → OpenAIAuthManager := fun _ => {}
  /-- Credentials the server has given out, oldest first. -/
  issued : List Credentials := []
  /-- Refresh tokens that are used up or revoked. -/
  used : List String := []
  /-- Accounts disconnected and not signed in again. -/
  disconnected : List String := []
  /-- Refresh requests, with the file when they were sent. -/
  requests : List (String × Option Credentials) := []
  changes : List FileChange := []
  /-- What refreshes wrote, with the accounts that were disconnected then. -/
  refreshWrites : List (Credentials × List String) := []

inductive AuthOp where
  | start (p : ℕ)
  | close (p : ℕ)
  | access (p : ℕ) (now : ℤ) (forceRefresh : Bool)
  | recoverUnauthorized (p : ℕ) (rejectedToken : String)
  /-- The file lock is acquired for a refresh. -/
  | lockRefresh (p : ℕ) (now : ℤ)
  /-- The file lock is not free for half a minute. -/
  | lockTimeout (p : ℕ)
  | respond (p : ℕ) (now : ℤ) (response : TokenResponse) (consumed : Bool)
  | exchangeCode (p : ℕ) (now : ℤ) (payload : Json)
  | writeLogin (p : ℕ)
  | adoptLogin (p : ℕ)
  | cancelLogin (p : ℕ)
  | disconnect (p : ℕ) (revoked : Bool)
  | deleteCredentials (p : ℕ)

namespace AuthWorld

variable (jwtClaims : String → Except String Json)

def setProcess (s : AuthWorld) (p : ℕ) (m : OpenAIAuthManager) : AuthWorld :=
  { s with processes := Function.update s.processes p m }

/-- A process that exits gives up the file lock. -/
def start (s : AuthWorld) (p : ℕ) : AuthWorld :=
  { s.setProcess p (.create s.file) with
    fileLock := if s.fileLock = some p then none else s.fileLock }

def close (s : AuthWorld) (p : ℕ) : AuthWorld :=
  let m := s.processes p
  if m.activity = .idle then s.setProcess p { m with closed := true, login := none } else s

def access (s : AuthWorld) (p : ℕ) (now : ℤ) (forceRefresh : Bool) : AuthWorld :=
  let m := s.processes p
  if m.activity ≠ .idle then s
  else if m.closed then
    s.setProcess p (m.raises (.reconnectRequired "OpenAI authentication is shutting down."))
  else match m.credentials with
    | none => s.setProcess p
        (m.raises (.reconnectRequired "Connect an OpenAI ChatGPT account in the FCC Admin UI."))
    | some credentials =>
      if forceRefresh then s.setProcess p { m with activity := .waitLock credentials .forced }
      else if credentials.expiresAt ≤ now + refreshEarlySeconds then
        s.setProcess p { m with activity := .waitLock credentials .access }
      else s.setProcess p (m.returns credentials)

def recoverUnauthorized (s : AuthWorld) (p : ℕ) (rejectedToken : String) : AuthWorld :=
  let m := s.processes p
  if m.activity ≠ .idle then s
  else
    let m := { m with credentials := m.reloaded s.file }
    match m.credentials with
    | none => s.setProcess p (m.raises (.reconnectRequired
        "OpenAI credentials are no longer available. Reconnect in Admin."))
    | some current =>
      if current.accessToken ≠ rejectedToken then s.setProcess p (m.returns current)
      else s.setProcess p { m with activity := .waitLock current .forced }

/-- `_refresh_locked` up to its request. -/
def lockRefresh (s : AuthWorld) (p : ℕ) (now : ℤ) : AuthWorld :=
  let m := s.processes p
  match m.activity with
  | .waitLock current caller =>
    if s.fileLock ≠ none then s
    else
      match s.file with
      | some reloaded =>
        if reloaded ≠ current ∧ reloaded.expiresAt > now + refreshEarlySeconds then
          s.setProcess p ({ m with credentials := some reloaded }.returns reloaded)
        else
          { s.setProcess p { m with activity := .refreshing current caller } with
            fileLock := some p
            requests := s.requests ++ [(current.refreshToken, s.file)] }
      | none =>
        { s.setProcess p { m with activity := .refreshing current caller } with
          fileLock := some p
          requests := s.requests ++ [(current.refreshToken, s.file)] }
  | _ => s

def lockTimeout (s : AuthWorld) (p : ℕ) : AuthWorld :=
  let m := s.processes p
  match m.activity with
  | .waitLock current caller => s.setProcess p (m.refreshFails current caller
      (.reconnectRequired "Timed out waiting for another FCC process to refresh OpenAI."))
  | .disconnecting => s.setProcess p
      (m.raises (.reconnectRequired "Could not lock the OpenAI credential file."))
  | _ => s

/-- `_delete_credentials_unlocked`, by a process that held these credentials. -/
def deleteFile (s : AuthWorld) (held : Option Credentials) : AuthWorld :=
  { s with file := none, changes := s.changes ++ [⟨held, s.file⟩] }

/-- `_write_credentials_unlocked`, by a process that held these credentials. -/
def writeFile (s : AuthWorld) (held : Option Credentials) (credentials : Credentials) :
    AuthWorld :=
  { s with file := some credentials, changes := s.changes ++ [⟨held, s.file⟩] }

/-- `_refresh_locked` from the answer on. -/
def respond (s : AuthWorld) (p : ℕ) (now : ℤ) (response : TokenResponse) (consumed : Bool) :
    AuthWorld :=
  let m := s.processes p
  match m.activity with
  | .refreshing current caller =>
    let s := { s with
      fileLock := none
      used := if consumed then current.refreshToken :: s.used else s.used }
    match response with
    | .transportError => s.setProcess p (m.refreshFails current caller .transport)
    | .status code payload =>
      if code ∈ [400, 401, 403] then
        let message := "OpenAI sign-in expired. Reconnect the account in Admin."
        (s.deleteFile (some current)).setProcess p
          ({ m with
            credentials := none
            revision := m.revision + 1
            lastError := some message }.raises (.reconnectRequired message))
      else if ¬ (200 ≤ code ∧ code < 300) then
        s.setProcess p (m.refreshFails current caller (.httpStatus code))
      else match payload with
        | none => s.setProcess p (m.refreshFails current caller .decode)
        | some payload =>
          match credentialsFromTokenResponse jwtClaims now payload (some current) with
          | .error message => s.setProcess p (m.refreshFails current caller (.login message))
          | .ok refreshed =>
            { (s.writeFile (some current) refreshed).setProcess p
                ({ m with
                  credentials := some refreshed
                  revision := m.revision + 1 }.returns refreshed) with
              issued := s.issued ++ [refreshed]
              refreshWrites := s.refreshWrites ++ [(refreshed, s.disconnected)] }
  | _ => s

def exchangeCode (s : AuthWorld) (p : ℕ) (now : ℤ) (payload : Json) : AuthWorld :=
  let m := s.processes p
  if m.closed ∨ m.login.isSome then s
  else match credentialsFromTokenResponse jwtClaims now payload none with
    | .error _ => s.setProcess p { m with
        lastError := some "OpenAI sign-in failed. Retry or use the device-code option." }
    | .ok credentials =>
      { s.setProcess p { m with login := some (.granted credentials) } with
        issued := s.issued ++ [credentials] }

/-- The file is written without the state lock. -/
def writeLogin (s : AuthWorld) (p : ℕ) : AuthWorld :=
  let m := s.processes p
  match m.login with
  | some (.granted credentials) =>
    if s.fileLock ≠ none then s
    else
      { (s.writeFile (some credentials) credentials).setProcess p
          { m with login := some (.written credentials) } with
        disconnected := s.disconnected.filter fun a => a ≠ credentials.accountId }
  | _ => s

def adoptLogin (s : AuthWorld) (p : ℕ) : AuthWorld :=
  let m := s.processes p
  match m.login with
  | some (.written credentials) =>
    if m.activity ≠ .idle then s
    else s.setProcess p
      { m with
        credentials := some credentials
        revision := m.revision + 1
        lastError := none
        login := none }
  | _ => s

def cancelLogin (s : AuthWorld) (p : ℕ) : AuthWorld :=
  s.setProcess p { s.processes p with login := none }

/-- `disconnect` up to the deletion; the revocation may fail. -/
def disconnect (s : AuthWorld) (p : ℕ) (revoked : Bool) : AuthWorld :=
  let m := s.processes p
  if m.activity ≠ .idle then s
  else if m.closed then
    s.setProcess p (m.raises (.reconnectRequired "OpenAI authentication is shutting down."))
  else
    { s.setProcess p { m with activity := .disconnecting, login := none } with
      used := if revoked then (m.credentials.map (·.refreshToken)).toList ++ s.used else s.used }

/-- The deletion of `disconnect`. -/
def deleteCredentials (s : AuthWorld) (p : ℕ) : AuthWorld :=
  let m := s.processes p
  if m.activity = .disconnecting ∧ s.fileLock = none then
    { (s.deleteFile m.credentials).setProcess p
        { m with
          credentials := none
          revision := m.revision + 1
          lastError := none
          activity := .idle } with
      disconnected := s.disconnected ++
        (s.file.map (·.accountId)).toList ++ (m.credentials.map (·.accountId)).toList }
  else s

/-- The first credentials were given out before the second ones. -/
def Newer (s : AuthWorld) (older newer : Credentials) : Prop :=
  s.issued.idxOf older < s.issued.idxOf newer

instance (s : AuthWorld) (older newer : Credentials) : Decidable (s.Newer older newer) :=
  inferInstanceAs (Decidable (_ < _))

end AuthWorld

section System

variable (jwtClaims : String → Except String Json)

def AuthOp.apply (s : AuthWorld) : AuthOp → AuthWorld
  | start p => s.start p
  | close p => s.close p
  | access p now forceRefresh => s.access p now forceRefresh
  | recoverUnauthorized p rejectedToken => s.recoverUnauthorized p rejectedToken
  | lockRefresh p now => s.lockRefresh p now
  | lockTimeout p => s.lockTimeout p
  | respond p now response consumed => s.respond jwtClaims p now response consumed
  | exchangeCode p now payload => s.exchangeCode jwtClaims p now payload
  | writeLogin p => s.writeLogin p
  | adoptLogin p => s.adoptLogin p
  | cancelLogin p => s.cancelLogin p
  | disconnect p revoked => s.disconnect p revoked
  | deleteCredentials p => s.deleteCredentials p

/-- Refresh tokens rotate: each answer has a new one, and a used one gets no answer. The
account stays the same. -/
def AuthOp.Proper (s : AuthWorld) : AuthOp → Prop
  | respond p now (.status code (some payload)) consumed =>
    ∀ current caller refreshed, (s.processes p).activity = .refreshing current caller →
      200 ≤ code ∧ code < 300 →
      credentialsFromTokenResponse jwtClaims now payload (some current) = .ok refreshed →
      consumed = true ∧ current.refreshToken ∉ s.used ∧
        refreshed.refreshToken ∉ s.issued.map (·.refreshToken) ∧
        refreshed.accountId = current.accountId
  | exchangeCode _ now payload =>
    ∀ credentials, credentialsFromTokenResponse jwtClaims now payload none = .ok credentials →
      credentials.refreshToken ∉ s.issued.map (·.refreshToken)
  | _ => True

def authSystem : System AuthWorld AuthOp where
  init s := s = {}
  step s op s' := op.Proper jwtClaims s ∧ s' = op.apply jwtClaims s

end System

end Switchboard.Providers
