import Switchboard.Config.Admin
import Switchboard.Library.Run

/-!
# Configuration updates

`apply_admin_config`, `apply_custom_provider` and `remove_custom_provider` of
`runtime/application.py`. A step is what one update does between two of its awaits: it
waits for `_config_lock`, whose waiters take turns in the order of their arrival, and for
the provider manager, which prepares a replacement, commits and publishes it at once, and
then closes the generation before. Updates are not cancelled.
-/

namespace Switchboard.Runtime

open Config

inductive ConfigUpdate where
  | admin (updates : Dict String Json)
  | applyCustom (values : Json) (existingProviderId : Option String)
  | removeCustom (providerId : String)

/-- What an update asks `apply_admin_config` for. `apply_custom_provider` reads the document
that it has computed again to report its provider. -/
structure ConfigRequest where
  updates : Dict String Json
  added : Option String := none

/-- The managed file and the settings of the current generation. -/
structure ConfigStore (σ : Type*) where
  managed : Option String
  published : σ
deriving DecidableEq

/-- What the update that holds the lock waits for. -/
inductive HolderPhase (σ : Type*) where
  | replacing (targetValues : Dict String String) (settings : σ)
  | closing

structure LockHolder (σ : Type*) where
  update : ConfigUpdate
  request : ConfigRequest
  phase : HolderPhase σ

structure ApplicationRuntime (σ : Type*) where
  store : ConfigStore σ
  holder : Option (LockHolder σ) := none
  waiters : List (ConfigUpdate × ConfigRequest) := []
  /-- The updates that are over, in their order, and whether they were applied. -/
  reported : List (ConfigUpdate × Bool) := []

inductive ConfigOp where
  /-- `writes` tells whether the managed file can be written. -/
  | begin (update : ConfigUpdate) (writes : Bool)
  | wake (writes : Bool)
  | replaceFails
  | replaceCommits
  | closed

section Environment

variable {σ : Type*} (codec : TextCodec) (builtInProviderIds : List String)
  (env : AdminEnvironment σ)

/-- The value of `CUSTOM_PROVIDERS_JSON` that is in effect. -/
def rawProviders (managed : Option String) : String :=
  match env.fieldByKey customProvidersEnv with
  | none => ""
  | some _ => (env.loadValueState managed customProvidersEnv).value

def providersUpdate (document : String) : Dict String Json :=
  Dict.empty.set customProvidersEnv (.str document)

/-- An update up to its call of `apply_admin_config`. -/
def ConfigUpdate.request (u : ConfigUpdate) (managed : Option String) :
    Except String ConfigRequest :=
  match u with
  | .admin updates => .ok { updates := updates }
  | .applyCustom values existingProviderId => do
    let updated ← updateCustomProviderJson codec builtInProviderIds (rawProviders env managed)
      values existingProviderId
    .ok { updates := providersUpdate updated, added := some updated }
  | .removeCustom providerId => do
    let updated ← removeCustomProviderJson codec builtInProviderIds (rawProviders env managed)
      providerId
    .ok { updates := providersUpdate updated }

/-- Whether `apply_custom_provider` can read its own document again. -/
def ConfigRequest.reports (request : ConfigRequest) : Bool :=
  match request.added with
  | none => true
  | some document => (parseCustomProviderJson codec builtInProviderIds document).isOk

/-- `_commit_admin_update` -/
def ConfigStore.commit (c : ConfigStore σ) (targetValues : Dict String String) : ConfigStore σ :=
  { c with managed := some (env.renderEnvFile targetValues) }

namespace ApplicationRuntime

/-- An update ends with an applied result, or with an error. -/
def report (w : ApplicationRuntime σ) (u : ConfigUpdate) (applied : Bool) :
    ApplicationRuntime σ :=
  { w with holder := none, reported := w.reported ++ [(u, applied)] }

/-- `apply_admin_config` under the lock, up to its wait for the provider manager. -/
def applyAdminConfig (w : ApplicationRuntime σ) (u : ConfigUpdate) (request : ConfigRequest)
    (writes : Bool) : ApplicationRuntime σ :=
  let prepared := env.prepareAdminUpdate w.store.managed request.updates
  match prepared.settings with
  | .error _ => w.report u false
  | .ok settings =>
    if prepared.pendingFields ≠ [] then
      if writes then
        { w with store := w.store.commit env prepared.targetValues }.report u
          (request.reports codec builtInProviderIds)
      else w.report u false
    else { w with holder := some ⟨u, request, .replacing prepared.targetValues settings⟩ }

def begin (w : ApplicationRuntime σ) (u : ConfigUpdate) (writes : Bool) : ApplicationRuntime σ :=
  match u.request codec builtInProviderIds env w.store.managed with
  | .error _ => { w with reported := w.reported ++ [(u, false)] }
  | .ok request =>
    if w.holder.isNone ∧ w.waiters.isEmpty then
      w.applyAdminConfig codec builtInProviderIds env u request writes
    else { w with waiters := w.waiters ++ [(u, request)] }

/-- The first waiter takes the lock that was released. -/
def wake (w : ApplicationRuntime σ) (writes : Bool) : ApplicationRuntime σ :=
  match w.holder, w.waiters with
  | none, (u, request) :: rest =>
    { w with waiters := rest }.applyAdminConfig codec builtInProviderIds env u request writes
  | _, _ => w

/-- The replacement is not prepared, or the managed file is not written. -/
def replaceFails (w : ApplicationRuntime σ) : ApplicationRuntime σ :=
  match w.holder with
  | some ⟨u, _, .replacing _ _⟩ => w.report u false
  | _ => w

def replaceCommits (w : ApplicationRuntime σ) : ApplicationRuntime σ :=
  match w.holder with
  | some ⟨u, request, .replacing targetValues settings⟩ =>
    { w with
      store := { w.store.commit env targetValues with published := settings }
      holder := some ⟨u, request, .closing⟩ }
  | _ => w

def closed (w : ApplicationRuntime σ) : ApplicationRuntime σ :=
  match w.holder with
  | some ⟨u, request, .closing⟩ => w.report u (request.reports codec builtInProviderIds)
  | _ => w

end ApplicationRuntime

def ConfigOp.apply (op : ConfigOp) (w : ApplicationRuntime σ) : ApplicationRuntime σ :=
  match op with
  | .begin u writes => w.begin codec builtInProviderIds env u writes
  | .wake writes => w.wake codec builtInProviderIds env writes
  | .replaceFails => w.replaceFails
  | .replaceCommits => w.replaceCommits env
  | .closed => w.closed codec builtInProviderIds

/-- Updates from a store on which none has begun. -/
def configSystem (start : ConfigStore σ) : System (ApplicationRuntime σ) ConfigOp where
  init w := w = { store := start }
  step w op w' := w' = op.apply codec builtInProviderIds env w

end Environment

end Switchboard.Runtime
