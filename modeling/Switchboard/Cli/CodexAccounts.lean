import Switchboard.Library.Dict
import Switchboard.Library.FreshNames
import Switchboard.Library.Json
import Switchboard.Library.Run

/-!
# Codex tool accounts

The store of `cli/codex_accounts.py` below `$CODEX_HOME`: the live file, the saved
profiles, the marker, and the stashes of running `add_account` calls. A section under the
lock is one step; in between the Codex program may rotate the tokens of the live file, and
logins write it. A profile name is taken for a directory of its own, as all names that
`_validate_profile` accepts but `.` and `..` are.
-/

namespace Switchboard.Cli

open Switchboard.FreshNames

/-- The content of an `auth.json`. -/
inductive AuthFile where
  | undecodable
  | json (raw : Json)

inductive AccountError where
  | invalidProfileName
  | authNotFound
  | authInvalid
  | notSubscription
  | missingAccountId
  | codexNotFound
  | profileExists (profile : String)
  | loginNotStarted
  | loginFailed
  | unknownProfile (profile : String)
  | activeAccount
deriving DecidableEq, Repr

/-- `_Identity` -/
structure Identity where
  accountId : String
  email : Option String
deriving DecidableEq, Repr

/-! ## Identities -/

/-- `_read_auth` -/
def readAuth : Option AuthFile → Except AccountError Json
  | none => .error .authNotFound
  | some .undecodable => .error .authInvalid
  | some (.json raw) => match raw.get? "tokens" with
    | some (.obj _) => .ok raw
    | _ => .error .notSubscription

/-- `_claim` -/
def claim (raw : Json) (key : String) : Option String := raw.text? key

section Identity

-- `_jwt_claims` decodes the middle part of a token, and has no claims for other strings.
variable (jwtClaims : String → Json)

def tokenClaims (tokens : Json) (key : String) : Json :=
  match tokens.get? key with
  | some (.str token) => jwtClaims token
  | _ => .obj []

/-- `_identity` -/
def identity (file : Option AuthFile) : Except AccountError Identity := do
  let raw ← readAuth file
  let tokens := raw.getD "tokens"
  match tokens.text? "account_id" with
  | none => .error .missingAccountId
  | some accountId =>
    let idClaims := tokenClaims jwtClaims tokens "id_token"
    let accessClaims := tokenClaims jwtClaims tokens "access_token"
    .ok ⟨accountId, (claim idClaims "email").or (claim accessClaims "email")⟩

/-- The account of a file that `_try_identity` can read. -/
def account? (file : Option AuthFile) : Option String :=
  match identity jwtClaims file with
  | .ok identity => some identity.accountId
  | .error _ => none

end Identity

/-! ## Profile names -/

def isProfileChar (c : Char) : Bool := c.isAlphanum || c = '.' || c = '_' || c = '-'

/-- `_validate_profile` -/
def validProfile (profile : String) : Bool :=
  profile ≠ "" && profile.toList.all isProfileChar

/-- Every run of other characters becomes one hyphen. -/
def hyphenate : Bool → List Char → List Char
  | _, [] => []
  | inRun, c :: cs =>
    if isProfileChar c then c :: hyphenate false cs
    else if inRun then hyphenate true cs
    else '-' :: hyphenate true cs

def stripMarks (cs : List Char) : List Char :=
  let isMark (c : Char) : Bool := c = '.' || c = '_' || c = '-'
  ((cs.dropWhile isMark).reverse.dropWhile isMark).reverse

/-- The name that `_derive_profile` asks for. -/
def derivedStem (identity : Identity) : String :=
  let stem := match identity.email with
    | some email => email.toList.takeWhile (· ≠ '@')
    | none => "account".toList
  match stripMarks (hyphenate false stem) with
  | [] => "account"
  | cs => String.ofList cs

/-! ## The store -/

/-- A profile that was written, with the file that was there. -/
structure ProfileWrite where
  profile : String
  before : Option AuthFile
  written : AuthFile

/-- Profiles are directories, some without an `auth.json`. The last field is history. -/
structure AccountStore where
  live : Option AuthFile := none
  profiles : Dict String (Option AuthFile) := .empty
  /-- The text of `current_profile`. -/
  marker : Option String := none
  writes : List ProfileWrite := []

structure CodexAccount where
  profile : String
  accountId : String
  email : Option String
  active : Bool
deriving DecidableEq, Repr

namespace AccountStore

variable (jwtClaims : String → Json)

/-- `profile_auth_path`, read -/
def profileAuth (s : AccountStore) (profile : String) : Option AuthFile :=
  (s.profiles.get? profile).bind id

def profileExists (s : AccountStore) (profile : String) : Bool := s.profiles.contains profile

/-- `_read_marker` -/
def readMarker (s : AccountStore) : Option String := s.marker.filter validProfile

def profileForAccount (s : AccountStore) (accountId : String) : Option String :=
  (s.profiles.entries.find? fun e =>
    validProfile e.1 ∧ account? jwtClaims e.2 = some accountId).map Prod.fst

/-- Among the names with a counter one is free. -/
theorem exists_free (s : AccountStore) (candidate : String) :
    ∃ k : ℕ, s.profileExists (candidate ++ "-" ++ toString (k + 2)) = false := by
  obtain ⟨k, hk⟩ :=
    FreshNames.exists_free (numbered_injective (candidate ++ "-")) s.profiles.keys
  refine ⟨k, ?_⟩
  rw [← Bool.not_eq_true, profileExists, Dict.contains_iff]
  rintro ⟨value, hvalue⟩
  exact hk (Dict.mem_keys.mpr ⟨value, hvalue⟩)

/-- The candidate, or the first name with a counter that is free. -/
def countedProfile (s : AccountStore) (candidate : String) : String :=
  if ¬ s.profileExists candidate then candidate
  else candidate ++ "-" ++ toString (Nat.find (s.exists_free candidate) + 2)

/-- `_available_profile`; the last argument stands for the random suffix. -/
def availableProfile (s : AccountStore) (requested accountId fallback : String) : String :=
  if ¬ s.profileExists requested then requested
  else
    let kept := accountId.toList.filter Char.isAlphanum
    let last := kept.drop (kept.length - 8)
    s.countedProfile (requested ++ "-" ++ if last = [] then fallback else String.ofList last)

/-- `_save_profile` -/
def saveProfile (s : AccountStore) (profile : String) (source : AuthFile) :
    Except AccountError Unit × AccountStore :=
  if ¬ validProfile profile then (.error .invalidProfileName, s)
  else
    (.ok (),
      { s with
        profiles := s.profiles.set profile (some source)
        writes := s.writes ++ [⟨profile, s.profileAuth profile, source⟩] })

/-- The profile that `_sync_live` saves to. -/
def syncProfile (s : AccountStore) (identity : Identity) (fallback : String) : String :=
  let derived := s.availableProfile (derivedStem identity) identity.accountId fallback
  match s.profileForAccount jwtClaims identity.accountId with
  | some profile => profile
  | none => match s.readMarker with
    | some marker => if ¬ s.profileExists marker then marker else derived
    | none => derived

/-- `_sync_live` -/
def syncLive (s : AccountStore) (fallback : String) :
    Except AccountError (Option String) × AccountStore :=
  match s.live with
  | none => (.ok none, s)
  | some live => match identity jwtClaims (some live) with
    | .error error => (.error error, s)
    | .ok identity =>
      let profile := s.syncProfile jwtClaims identity fallback
      match s.saveProfile profile live with
      | (.error error, s) => (.error error, s)
      | (.ok (), s) => (.ok (some profile), { s with marker := some profile })

def isActive (s : AccountStore) (accountId : String) : Bool :=
  account? jwtClaims s.live = some accountId

/-- The saved accounts in the order of the listing. -/
def accounts (s : AccountStore) : List CodexAccount :=
  let items := s.profiles.entries.mergeSort fun e f => e.1.toLower ≤ f.1.toLower
  let listed := items.filterMap fun e =>
    match validProfile e.1, identity jwtClaims e.2 with
    | true, .ok identity =>
      some ⟨e.1, identity.accountId, identity.email, s.isActive jwtClaims identity.accountId⟩
    | _, _ => none
  listed.mergeSort fun a b =>
    (a.active && !b.active) || (a.active == b.active && a.profile.toLower ≤ b.profile.toLower)

def listAccounts (s : AccountStore) (fallback : String) :
    Except AccountError (List CodexAccount) × AccountStore :=
  match s.syncLive jwtClaims fallback with
  | (.error error, s) => (.error error, s)
  | (.ok _, s) => (.ok (s.accounts jwtClaims), s)

def selectAccount (s : AccountStore) (profile fallback : String) :
    Except AccountError CodexAccount × AccountStore :=
  if ¬ validProfile profile then (.error .invalidProfileName, s)
  else match s.syncLive jwtClaims fallback with
    | (.error error, s) => (.error error, s)
    | (.ok _, s) =>
      let source := s.profileAuth profile
      match identity jwtClaims source with
      | .error error => (.error error, s)
      | .ok identity =>
        (.ok ⟨profile, identity.accountId, identity.email, true⟩,
          { s with live := source, marker := some profile })

def forgetAccount (s : AccountStore) (profile fallback : String) :
    Except AccountError Unit × AccountStore :=
  if ¬ validProfile profile then (.error .invalidProfileName, s)
  else match s.syncLive jwtClaims fallback with
    | (.error error, s) => (.error error, s)
    | (.ok _, s) =>
      if ¬ s.profileExists profile then (.error (.unknownProfile profile), s)
      else match identity jwtClaims (s.profileAuth profile) with
        | .error error => (.error error, s)
        | .ok target =>
          if account? jwtClaims s.live = some target.accountId then (.error .activeAccount, s)
          else
            (.ok (),
              { s with
                profiles := s.profiles.erase profile
                marker := if s.readMarker = some profile then none else s.marker })

/-- The first section of `add_account`, with the file to stash. -/
def stashLive (s : AccountStore) (profile fallback : String) :
    Except AccountError (Option AuthFile) × AccountStore :=
  match s.syncLive jwtClaims fallback with
  | (.error error, s) => (.error error, s)
  | (.ok _, s) =>
    if s.profileExists profile then (.error (.profileExists profile), s)
    else (.ok s.live, { s with live := none })

/-- `_restore_stash` -/
def restoreStash (s : AccountStore) (stash : Option AuthFile) (marker : Option String) :
    AccountStore :=
  { s with live := stash, marker := marker }

/-- The last section of `add_account`. -/
def finishAdd (s : AccountStore) (profile fallback : String) (stash : Option AuthFile)
    (previousMarker : Option String) : Except AccountError CodexAccount × AccountStore :=
  match s.live, identity jwtClaims s.live with
  | some live, .ok identity =>
    let target := match s.profileForAccount jwtClaims identity.accountId with
      | some existing => existing
      | none => s.availableProfile profile identity.accountId fallback
    match s.saveProfile target live with
    | (.error error, s) => (.error error, s)
    | (.ok (), s) =>
      (.ok ⟨target, identity.accountId, identity.email, true⟩, { s with marker := some target })
  | _, .error error => (.error error, s.restoreStash stash previousMarker)
  | none, .ok _ => (.error .authNotFound, s.restoreStash stash previousMarker)

end AccountStore

/-! ## Runs -/

inductive AddPhase where
  /-- Before its first section. -/
  | begun
  | loggingIn
  /-- The login could not start or failed. -/
  | failed
  | returned
  | over
deriving DecidableEq, Repr

/-- A call of `add_account`. -/
structure AddTask where
  profile : String
  previousMarker : Option String
  stash : Option AuthFile := none
  phase : AddPhase := .begun

/-- The store with its users. The last two fields are history. -/
structure AccountWorld where
  store : AccountStore := {}
  adds : Dict ℕ AddTask := .empty
  /-- The live file was written by a login that failed, and nobody has used it since. -/
  leftover : Bool := false
  /-- The latest credentials of the accounts that were live or saved and not forgotten. -/
  latest : Dict String AuthFile := .empty

/-- The strings that are last in some of these stand for random suffixes. -/
inductive AccountOp where
  | list (fallback : String)
  | select (profile fallback : String)
  | forget (profile fallback : String)
  | addBegin (k : ℕ) (profile : String) (codexFound : Bool)
  | addStash (k : ℕ) (fallback : String)
  /-- The login of an add is over, and may have written the live file. -/
  | loginEnds (k : ℕ) (ok : Bool) (written : Option AuthFile)
  | addRestore (k : ℕ)
  | addFinish (k : ℕ) (fallback : String)
  /-- The Codex program has new tokens for the live account. -/
  | rotate (file : AuthFile)

namespace AccountWorld

variable (jwtClaims : String → Json)

/-- The live file has the latest credentials of its account. -/
def noteLive (w : AccountWorld) : AccountWorld :=
  match w.store.live, account? jwtClaims w.store.live with
  | some live, some accountId =>
    { w with latest := w.latest.set accountId live, leftover := false }
  | _, _ => { w with leftover := false }

/-- What a failed login left is used as the live account. -/
def takeUp (w : AccountWorld) : AccountWorld := if w.leftover then w.noteLive jwtClaims else w

def setAdd (w : AccountWorld) (k : ℕ) (task : AddTask) : AccountWorld :=
  { w with adds := w.adds.set k task }

def list (w : AccountWorld) (fallback : String) : AccountWorld :=
  { w.takeUp jwtClaims with store := (w.store.listAccounts jwtClaims fallback).2 }

def select (w : AccountWorld) (profile fallback : String) : AccountWorld :=
  if ¬ validProfile profile then w
  else { w.takeUp jwtClaims with store := (w.store.selectAccount jwtClaims profile fallback).2 }

def forget (w : AccountWorld) (profile fallback : String) : AccountWorld :=
  if ¬ validProfile profile then w
  else
    let used := w.takeUp jwtClaims
    match w.store.forgetAccount jwtClaims profile fallback with
    | (.error _, store) => { used with store := store }
    | (.ok (), store) =>
      let synced := (w.store.syncLive jwtClaims fallback).2
      { used with
        store := store
        latest := match account? jwtClaims (synced.profileAuth profile) with
          | some accountId => used.latest.erase accountId
          | none => used.latest }

/-- The marker is read before the lock is awaited. -/
def addBegin (w : AccountWorld) (k : ℕ) (profile : String) (codexFound : Bool) : AccountWorld :=
  if validProfile profile ∧ codexFound ∧ w.adds.contains k = false then
    w.setAdd k { profile := profile, previousMarker := w.store.readMarker }
  else w

def addStash (w : AccountWorld) (k : ℕ) (fallback : String) : AccountWorld :=
  match w.adds.get? k with
  | none => w
  | some task =>
    if task.phase = .begun then
      match w.store.stashLive jwtClaims task.profile fallback with
      | (.error _, store) =>
        { w.takeUp jwtClaims with store := store }.setAdd k { task with phase := .over }
      | (.ok stash, store) =>
        { w.takeUp jwtClaims with store := store }.setAdd k
          { task with stash := stash, phase := .loggingIn }
    else w

def writeLive (w : AccountWorld) (file : AuthFile) : AccountWorld :=
  { w with store := { w.store with live := some file } }

def loginEnds (w : AccountWorld) (k : ℕ) (ok : Bool) (written : Option AuthFile) :
    AccountWorld :=
  match w.adds.get? k with
  | none => w
  | some task =>
    if task.phase = .loggingIn then
      let w := match written with
        | none => w
        | some file =>
          if ok then (w.writeLive file).noteLive jwtClaims
          else { w.writeLive file with leftover := true }
      w.setAdd k { task with phase := if ok then .returned else .failed }
    else w

/-- The stash is live again. An account that was forgotten meanwhile is back. -/
def restore (w : AccountWorld) (k : ℕ) (task : AddTask) : AccountWorld :=
  { w with
    store := w.store.restoreStash task.stash task.previousMarker
    leftover := false
    latest := match task.stash, account? jwtClaims task.stash with
      | some stash, some accountId =>
        if w.latest.contains accountId then w.latest else w.latest.set accountId stash
      | _, _ => w.latest }.setAdd k { task with phase := .over }

def addRestore (w : AccountWorld) (k : ℕ) : AccountWorld :=
  match w.adds.get? k with
  | none => w
  | some task => if task.phase = .failed then w.restore jwtClaims k task else w

def addFinish (w : AccountWorld) (k : ℕ) (fallback : String) : AccountWorld :=
  match w.adds.get? k with
  | none => w
  | some task =>
    if task.phase = .returned then
      if account? jwtClaims w.store.live = none then w.restore jwtClaims k task
      else
        { w.takeUp jwtClaims with
          store := (w.store.finishAdd jwtClaims task.profile fallback task.stash
            task.previousMarker).2 }.setAdd k { task with phase := .over }
    else w

def rotate (w : AccountWorld) (file : AuthFile) : AccountWorld :=
  if account? jwtClaims w.store.live ≠ none ∧
      account? jwtClaims (some file) = account? jwtClaims w.store.live then
    (w.writeLive file).noteLive jwtClaims
  else w

end AccountWorld

section System

variable (jwtClaims : String → Json)

def AccountOp.apply (w : AccountWorld) : AccountOp → AccountWorld
  | list fallback => w.list jwtClaims fallback
  | select profile fallback => w.select jwtClaims profile fallback
  | forget profile fallback => w.forget jwtClaims profile fallback
  | addBegin k profile codexFound => w.addBegin k profile codexFound
  | addStash k fallback => w.addStash jwtClaims k fallback
  | loginEnds k ok written => w.loginEnds jwtClaims k ok written
  | addRestore k => w.addRestore jwtClaims k
  | addFinish k fallback => w.addFinish jwtClaims k fallback
  | rotate file => w.rotate jwtClaims file

namespace AccountStore

/-- A profile in the listing, with its credentials. -/
def IsProfile (s : AccountStore) (profile : String) (file : AuthFile) : Prop :=
  validProfile profile = true ∧ s.profiles.get? profile = some (some file)

def Saved (s : AccountStore) (file : AuthFile) : Prop := ∃ profile, s.IsProfile profile file

/-- No account has two profiles. -/
def Distinct (s : AccountStore) : Prop :=
  ∀ p q f g accountId, s.IsProfile p f → s.IsProfile q g →
    account? jwtClaims (some f) = some accountId → account? jwtClaims (some g) = some accountId →
    p = q

/-- The credentials of an account in the store: the live ones, if it is live. -/
def Current (s : AccountStore) (accountId : String) (file : AuthFile) : Prop :=
  account? jwtClaims (some file) = some accountId ∧
    (s.live = some file ∨ account? jwtClaims s.live ≠ some accountId ∧ s.Saved file)

end AccountStore

/-- At first no add is running, and no account has two profiles. -/
def accountSystem : System AccountWorld AccountOp where
  init w := w.store.Distinct jwtClaims ∧ w.store.writes = [] ∧ w.adds = .empty ∧
    w.leftover = false ∧
    ∀ accountId file, w.latest.get? accountId = some file ↔
      w.store.Current jwtClaims accountId file
  step w op w' := w' = op.apply jwtClaims w

end System

end Switchboard.Cli
