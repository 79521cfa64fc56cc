import Switchboard.Library.Except
import Switchboard.Runtime.ApplicationConfig

/-!
# Serial configuration updates

The updates that were applied, one after the other from the first store, give the store of
every run in which an update finds its document up to date when it gets the lock.
-/

namespace Switchboard.Runtime

open Config

section Environment

variable {σ : Type*} (codec : TextCodec) (builtInProviderIds : List String)
  (env : AdminEnvironment σ)

/-- The store after a request that nothing interrupts, if it is applied. -/
def ConfigStore.applied (c : ConfigStore σ) (request : ConfigRequest) : Option (ConfigStore σ) :=
  let prepared := env.prepareAdminUpdate c.managed request.updates
  match prepared.settings with
  | .error _ => none
  | .ok settings =>
    if request.reports codec builtInProviderIds = false then none
    else if prepared.pendingFields ≠ [] then some (c.commit env prepared.targetValues)
    else some { c.commit env prepared.targetValues with published := settings }

/-- The store after an update that nothing interrupts, if it is applied. -/
def ConfigStore.update (c : ConfigStore σ) (u : ConfigUpdate) : Option (ConfigStore σ) :=
  match u.request codec builtInProviderIds env c.managed with
  | .error _ => none
  | .ok request => c.applied codec builtInProviderIds env request

/-- The store after updates one after the other, if all of them are applied. -/
def ConfigStore.serial (c : ConfigStore σ) (us : List ConfigUpdate) : Option (ConfigStore σ) :=
  System.replay (ConfigStore.update codec builtInProviderIds env) c us

namespace ApplicationRuntime

def succeeded (w : ApplicationRuntime σ) : List ConfigUpdate :=
  (w.reported.filter fun r => r.2).map Prod.fst

/-- The update that is committed and not reported yet. -/
def closing (w : ApplicationRuntime σ) : List ConfigUpdate :=
  match w.holder with
  | some ⟨u, _, .closing⟩ => [u]
  | _ => []

/-- An added or edited provider that `prepare_admin_update` accepts can be reported. It
always can be, unless a value from outside locks `CUSTOM_PROVIDERS_JSON`. -/
def Reportable (w : ApplicationRuntime σ) (request : ConfigRequest) : Prop :=
  (∃ settings, (env.prepareAdminUpdate w.store.managed request.updates).settings = .ok settings) →
    request.reports codec builtInProviderIds = true

/-- An update that gets the lock still asks for what it would ask for now. -/
def Fits (w : ApplicationRuntime σ) : ConfigOp → Prop
  | .begin u _ => w.holder = none → w.waiters = [] → ∀ request,
      u.request codec builtInProviderIds env w.store.managed = .ok request →
        w.Reportable codec builtInProviderIds env request
  | .wake _ => w.holder = none → ∀ u request rest, w.waiters = (u, request) :: rest →
      u.request codec builtInProviderIds env w.store.managed = .ok request ∧
        w.Reportable codec builtInProviderIds env request
  | _ => True

/-- What holds of the update that has the lock. -/
def Prepared (w : ApplicationRuntime σ) (holder : LockHolder σ) : Prop :=
  holder.request.reports codec builtInProviderIds = true ∧
    match holder.phase with
    | .replacing targetValues settings =>
      holder.update.request codec builtInProviderIds env w.store.managed = .ok holder.request ∧
        env.prepareAdminUpdate w.store.managed holder.request.updates =
          ⟨targetValues, .ok settings, []⟩
    | .closing => True

structure Serial (start : ConfigStore σ) (w : ApplicationRuntime σ) : Prop where
  store : start.serial codec builtInProviderIds env (w.succeeded ++ w.closing) = some w.store
  prepared : ∀ holder ∈ w.holder, w.Prepared codec builtInProviderIds env holder

end ApplicationRuntime

end Environment

namespace ApplicationRuntime

variable {σ : Type*} {codec : TextCodec} {builtInProviderIds : List String}
  {env : AdminEnvironment σ} {start c : ConfigStore σ} {w : ApplicationRuntime σ}
  {u : ConfigUpdate} {request : ConfigRequest}

/-! ## Reports -/

@[simp] theorem succeeded_report (w : ApplicationRuntime σ) (u : ConfigUpdate) (applied : Bool) :
    (w.report u applied).succeeded = w.succeeded ++ if applied then [u] else [] := by
  cases applied <;> simp [succeeded, report]

@[simp] theorem closing_of_none (h : w.holder = none) : w.closing = [] := by
  rw [closing, h]

@[simp] theorem closing_report (w : ApplicationRuntime σ) (u : ConfigUpdate) (applied : Bool) :
    (w.report u applied).closing = [] :=
  closing_of_none rfl

@[simp] theorem store_report (w : ApplicationRuntime σ) (u : ConfigUpdate) (applied : Bool) :
    (w.report u applied).store = w.store := rfl

/-- An update that is reported to have failed has left no trace. -/
theorem Serial.report_failed (h : w.Serial codec builtInProviderIds env start)
    (hclosing : w.closing = []) (u : ConfigUpdate) :
    (w.report u false).Serial codec builtInProviderIds env start where
  store := by
    rw [succeeded_report, closing_report]
    simpa [hclosing] using h.store
  prepared := by simp [report]

/-! ## Updates under the lock -/

theorem update_eq_applied
    (hrequest : u.request codec builtInProviderIds env c.managed = .ok request) :
    c.update codec builtInProviderIds env u = c.applied codec builtInProviderIds env request := by
  rw [ConfigStore.update, hrequest]

/-- One more update after those of a serial order. -/
theorem serial_append (us : List ConfigUpdate) {d : ConfigStore σ}
    (hus : start.serial codec builtInProviderIds env us = some c)
    (hu : c.update codec builtInProviderIds env u = some d) :
    start.serial codec builtInProviderIds env (us ++ [u]) = some d := by
  rw [ConfigStore.serial, System.replay_append_singleton]
  exact Option.bind_eq_some_iff.mpr ⟨c, hus, hu⟩

theorem Serial.applyAdminConfig (h : w.Serial codec builtInProviderIds env start)
    (hfree : w.holder = none)
    (hrequest : u.request codec builtInProviderIds env w.store.managed = .ok request)
    (hreportable : w.Reportable codec builtInProviderIds env request) (writes : Bool) :
    (w.applyAdminConfig codec builtInProviderIds env u request writes).Serial codec
      builtInProviderIds env start := by
  have hclosing : w.closing = [] := closing_of_none hfree
  have hserial := h.store
  rw [hclosing, List.append_nil] at hserial
  unfold ApplicationRuntime.applyAdminConfig
  cases hsettings : (env.prepareAdminUpdate w.store.managed request.updates).settings with
  | error errors =>
    simp only [hsettings]
    exact h.report_failed hclosing u
  | ok settings =>
    simp only [hsettings]
    have hreports := hreportable ⟨settings, hsettings⟩
    by_cases hpending :
        (env.prepareAdminUpdate w.store.managed request.updates).pendingFields ≠ []
    · rw [if_pos hpending]
      cases writes with
      | false => exact h.report_failed hclosing u
      | true =>
        have hupdate := update_eq_applied hrequest
        simp only [ConfigStore.applied, hsettings, hreports, Bool.true_eq_false, if_false,
          if_pos hpending] at hupdate
        refine ⟨?_, by simp [report]⟩
        simpa [hreports, report, succeeded] using serial_append _ hserial hupdate
    · rw [if_neg hpending]
      refine ⟨?_, ?_⟩
      · simpa [closing, succeeded] using hserial
      · rintro holder ⟨⟩
        refine ⟨hreports, hrequest, ?_⟩
        rw [not_not] at hpending
        rw [← hsettings, ← hpending]

theorem Serial.begin (h : w.Serial codec builtInProviderIds env start) {writes : Bool}
    (hfits : w.Fits codec builtInProviderIds env (.begin u writes)) :
    (w.begin codec builtInProviderIds env u writes).Serial codec builtInProviderIds env start := by
  unfold ApplicationRuntime.begin
  cases hrequest : u.request codec builtInProviderIds env w.store.managed with
  | error message =>
    refine ⟨?_, h.prepared⟩
    simpa [succeeded, closing] using h.store
  | ok request =>
    by_cases hfree : w.holder.isNone ∧ w.waiters.isEmpty
    · have hholder := Option.isNone_iff_eq_none.mp hfree.1
      simp only [if_pos hfree]
      exact h.applyAdminConfig hholder hrequest
        (hfits hholder (List.isEmpty_iff.mp hfree.2) request hrequest) writes
    · simp only [if_neg hfree]
      exact ⟨h.store, h.prepared⟩

theorem Serial.wake (h : w.Serial codec builtInProviderIds env start) {writes : Bool}
    (hfits : w.Fits codec builtInProviderIds env (.wake writes)) :
    (w.wake codec builtInProviderIds env writes).Serial codec builtInProviderIds env start := by
  unfold ApplicationRuntime.wake
  split
  case h_1 u request rest hholder hwaiters =>
    obtain ⟨hrequest, hreportable⟩ := hfits hholder u request rest hwaiters
    have hrest : { w with waiters := rest }.Serial codec builtInProviderIds env start :=
      ⟨h.store, h.prepared⟩
    exact hrest.applyAdminConfig hholder hrequest hreportable writes
  case h_2 => exact h

/-! ## Replacements -/

theorem Serial.replaceFails (h : w.Serial codec builtInProviderIds env start) :
    w.replaceFails.Serial codec builtInProviderIds env start := by
  unfold ApplicationRuntime.replaceFails
  split
  case h_1 u request targetValues settings hholder =>
    exact h.report_failed (by rw [closing, hholder]) u
  case h_2 => exact h

theorem Serial.replaceCommits (h : w.Serial codec builtInProviderIds env start) :
    (w.replaceCommits env).Serial codec builtInProviderIds env start := by
  unfold ApplicationRuntime.replaceCommits
  split
  case h_1 u request targetValues settings hholder =>
    obtain ⟨hreports, hrequest, hprepared⟩ := h.prepared _ hholder
    have hserial := h.store
    rw [show w.closing = [] by rw [closing, hholder], List.append_nil] at hserial
    have hupdate := update_eq_applied hrequest
    simp only at hreports hprepared
    simp only [ConfigStore.applied, hprepared, hreports, Bool.true_eq_false, if_false, ne_eq,
      not_true_eq_false] at hupdate
    refine ⟨serial_append _ hserial hupdate, ?_⟩
    rintro holder ⟨⟩
    exact ⟨hreports, trivial⟩
  case h_2 => exact h

theorem Serial.closed (h : w.Serial codec builtInProviderIds env start) :
    (w.closed codec builtInProviderIds).Serial codec builtInProviderIds env start := by
  unfold ApplicationRuntime.closed
  split
  case h_1 u request hholder =>
    obtain ⟨hreports, -⟩ := h.prepared _ hholder
    have hserial := h.store
    rw [show w.closing = [u] by rw [closing, hholder]] at hserial
    simp only at hreports
    refine ⟨?_, by simp [report]⟩
    rw [succeeded_report, closing_report, store_report, hreports]
    simpa using hserial
  case h_2 => exact h

/-! ## Runs -/

theorem Serial.step (h : w.Serial codec builtInProviderIds env start) {op : ConfigOp}
    (hfits : w.Fits codec builtInProviderIds env op) :
    (op.apply codec builtInProviderIds env w).Serial codec builtInProviderIds env start := by
  cases op with
  | «begin» u writes => exact h.begin hfits
  | wake writes => exact h.wake hfits
  | replaceFails => exact h.replaceFails
  | replaceCommits => exact h.replaceCommits
  | closed => exact h.closed

theorem serial_of_reach
    (h : (configSystem codec builtInProviderIds env start).Reach
      (Fits codec builtInProviderIds env) w) :
    w.Serial codec builtInProviderIds env start := by
  refine System.Reach.invariant ?_ ?_ h
  · rintro _ rfl
    exact ⟨rfl, by simp⟩
  · rintro s op _ _ hs hfits rfl
    exact hs.step hfits

/-- An update that nothing interrupts is reported with the store that it makes. -/
theorem update_run {w : ApplicationRuntime σ} {d : ConfigStore σ} (hholder : w.holder = none)
    (hwaiters : w.waiters = [])
    (hupdate : w.store.update codec builtInProviderIds env u = some d) :
    ∃ ops : List ConfigOp,
      ops.foldl (fun w op => op.apply codec builtInProviderIds env w) w =
        { store := d, reported := w.reported ++ [(u, true)] } := by
  obtain ⟨c, _, _, reported⟩ := w
  cases hholder
  cases hwaiters
  simp only [ConfigStore.update] at hupdate
  cases hrequest : u.request codec builtInProviderIds env c.managed with
  | error message =>
    rw [hrequest] at hupdate
    cases hupdate
  | ok request =>
    rw [hrequest] at hupdate
    simp only [ConfigStore.applied] at hupdate
    cases hsettings : (env.prepareAdminUpdate c.managed request.updates).settings with
    | error errors =>
      simp only [hsettings] at hupdate
      cases hupdate
    | ok settings =>
      simp only [hsettings] at hupdate
      split_ifs at hupdate with hreports hpending
      · refine ⟨[.begin u true], ?_⟩
        simp [ConfigOp.apply, ApplicationRuntime.begin, hrequest,
          ApplicationRuntime.applyAdminConfig, hsettings, hpending, report, hreports,
          Option.some.inj hupdate]
      · have hempty := not_not.mp hpending
        refine ⟨[.begin u true, .replaceCommits, .closed], ?_⟩
        simp [ConfigOp.apply, ApplicationRuntime.begin, hrequest,
          ApplicationRuntime.applyAdminConfig, hsettings, hempty, report, hreports,
          ApplicationRuntime.replaceCommits, ApplicationRuntime.closed,
          Option.some.inj hupdate]

end ApplicationRuntime

open ApplicationRuntime

/-- In every run in which each update that gets the lock is up to date, the store is the one
that the applied updates make one after the other, and no other update leaves a trace. -/
theorem updates_serialise {σ : Type*} {codec : TextCodec} {builtInProviderIds : List String}
    {env : AdminEnvironment σ} {start : ConfigStore σ} {w : ApplicationRuntime σ}
    (h : (configSystem codec builtInProviderIds env start).Reach
      (Fits codec builtInProviderIds env) w) :
    start.serial codec builtInProviderIds env (w.succeeded ++ w.closing) = some w.store ∧
      (w.holder = none →
        start.serial codec builtInProviderIds env w.succeeded = some w.store) := by
  have hserial := (serial_of_reach h).store
  refine ⟨hserial, fun hholder => ?_⟩
  rwa [closing_of_none hholder, List.append_nil] at hserial

section Example

mutual

/-- `json.dumps` with compact separators, of texts that need no escapes. -/
def sampleDumps : Json → String
  | .null => "null"
  | .bool b => if b then "true" else "false"
  | .int n => toString n
  | .float r => r
  | .str s => "\"" ++ s ++ "\""
  | .arr items => "[" ++ ",".intercalate (sampleDumpsItems items) ++ "]"
  | .obj fields => "\x7b" ++ ",".intercalate (sampleDumpsFields fields) ++ "\x7d"

def sampleDumpsItems : List Json → List String
  | [] => []
  | j :: js => sampleDumps j :: sampleDumpsItems js

def sampleDumpsFields : List (String × Json) → List String
  | [] => []
  | (k, j) :: fs => ("\"" ++ k ++ "\":" ++ sampleDumps j) :: sampleDumpsFields fs

end

def sampleProvider (name : String) : CustomProviderDescriptor where
  providerId := name
  displayName := name
  baseUrl := "https://" ++ name ++ ".example"
  apiKey := "key"

def sampleDocument (names : List String) : Json :=
  .obj [("providers", .arr (names.map fun name => providerEntry (sampleProvider name)))]

def sampleDocuments : List Json := [["a"], ["b"], ["a", "b"]].map sampleDocument

def sampleUrl (host : String) : SplitResult where
  scheme := "https"
  hostname := some host
  username := none
  password := none
  port := none
  query := ""
  fragment := ""
  url := "https://" ++ host

def sampleCodec : TextCodec where
  jsonLoads raw := match sampleDocuments.find? fun d => sampleDumps d = raw with
    | some document => .ok document
    | none => .error "Expecting value"
  jsonDumps := sampleDumps
  casefold := id
  asciiNormalized := id
  urlsplit url := if url = "https://a.example" then some (sampleUrl "a.example")
    else if url = "https://b.example" then some (sampleUrl "b.example") else none
  ipAddress _ := none

def providersField : ConfigFieldSpec where
  key := "CUSTOM_PROVIDERS_JSON"
  sectionId := "providers"
  inputKey := some "CUSTOM_PROVIDERS_JSON"
  secret := true
  restartRequired := true
  sessionSensitive := true

def sampleValues (document : String) : Dict String String :=
  Dict.empty.set "CUSTOM_PROVIDERS_JSON" document

/-- A double-quoted value up to its end. -/
def unescapeEnv : List Char → List Char
  | [] => []
  | '\\' :: c :: cs => c :: unescapeEnv cs
  | '"' :: _ => []
  | c :: cs => c :: unescapeEnv cs

theorem unescapeEnv_escaped (cs rest : List Char) :
    unescapeEnv (cs.flatMap AdminEnvironment.escapeEnvChar ++ '"' :: rest) = cs := by
  induction cs with
  | nil => rfl
  | cons c cs ih =>
    rw [List.flatMap_cons, List.append_assoc, AdminEnvironment.escapeEnvChar]
    by_cases hback : c = '\\'
    · subst hback
      simp only [if_true, List.cons_append, List.nil_append, unescapeEnv, ih]
    · by_cases hquote : c = '"'
      · subst hquote
        simp only [if_neg hback, if_true, List.cons_append, List.nil_append, unescapeEnv, ih]
      · simp only [if_neg hback, if_neg hquote, List.cons_append, List.nil_append]
        rw [unescapeEnv.eq_4 _ _ (by rintro _ _ rfl _; exact hback rfl) hquote, ih]

/-- The values of a managed file with one quoted value. -/
def sampleDotenv (text : String) : Dict String String :=
  sampleValues (String.ofList (unescapeEnv ((text.toList.dropWhile (· ≠ '=')).drop 2)))

def sampleEnv : AdminEnvironment (List (String × String)) where
  sections := [⟨"providers", "Providers"⟩]
  fields := [providersField]
  template := ∅
  repoEnv := ∅
  explicitEnv := ∅
  processEnv := ∅
  dotenvValues := sampleDotenv
  settings _ kwargs := .ok kwargs
  voiceNoteEnabled _ := false
  whisperDevice _ := "cpu"

def sampleHeader : List String :=
  ["# Managed by Free Claude Code /admin.", "# Edit in the server UI when possible.", "",
    "# Providers", "CUSTOM_PROVIDERS_JSON=\""]

theorem renderEnvFile_sampleValues {d : String} (hquote : '"' ∈ d.toList) :
    sampleEnv.renderEnvFile (sampleValues d) =
      "\n".intercalate sampleHeader ++
        String.ofList (d.toList.flatMap AdminEnvironment.escapeEnvChar) ++ "\"" ++ "\n" := by
  have hd : d ≠ "" := by rintro rfl; simp at hquote
  have hany : (d.toList.any fun c => Text.isSpace c || c ∈ ['"', '#', '=', '$']) = true :=
    List.any_eq_true.mpr ⟨_, hquote, by decide⟩
  have hvalue : (sampleValues d).get? "CUSTOM_PROVIDERS_JSON" = some d := rfl
  have hnewline : ∀ e ∈ "\n".toList, Text.isSpace e = true := by
    intro e he
    have he : e ∈ ['\n'] := he
    rw [List.mem_singleton.mp he]
    rfl
  have hstrip := Text.rstrip_append (p := Text.isSpace) (s := "\n".intercalate sampleHeader ++
    String.ofList (d.toList.flatMap AdminEnvironment.escapeEnvChar)) (c := '"') "\n" rfl hnewline
  simp only [AdminEnvironment.renderEnvFile, sampleEnv, providersField, List.flatMap_cons,
    List.flatMap_nil, List.filter_cons, List.filter_nil, if_true, decide_true, List.map_cons,
    List.map_nil, hvalue, Option.getD_some, AdminEnvironment.quoteEnvValue, if_neg hd, hany]
  refine Eq.trans (congrArg (fun s => Text.rstrip Text.isSpace s ++ "\n") ?_)
    (congrArg (· ++ "\n") hstrip)
  simp only [sampleHeader, List.cons_append, List.nil_append, List.append_nil,
    String.intercalate_cons_cons, String.intercalate_singleton, String.append_assoc]
  rfl

theorem sampleDotenv_render {d : String} (hquote : '"' ∈ d.toList) :
    sampleDotenv (sampleEnv.renderEnvFile (sampleValues d)) = sampleValues d := by
  have hheader : ("\n".intercalate sampleHeader).toList.dropWhile (· ≠ '=') = ['=', '"'] := by
    decide +kernel
  have hvalue : ((sampleEnv.renderEnvFile (sampleValues d)).toList.dropWhile (· ≠ '=')).drop 2 =
      d.toList.flatMap AdminEnvironment.escapeEnvChar ++ '"' :: ['\n'] := by
    rw [renderEnvFile_sampleValues hquote]
    simp only [String.toList_append, List.append_assoc, List.dropWhile_append, hheader]
    simp
  rw [sampleDotenv, hvalue, unescapeEnv_escaped, String.ofList_toList]

/-- The managed file holds a document, or there is no such file. -/
def SampleFile (managed : Option String) (document : String) : Prop :=
  managed = none ∧ document = "" ∨
    '"' ∈ document.toList ∧ managed = some (sampleEnv.renderEnvFile (sampleValues document))

theorem SampleFile.managedValues {managed : Option String} {d : String}
    (h : SampleFile managed d) :
    sampleEnv.managedValues managed = ∅ ∧ d = "" ∨
      sampleEnv.managedValues managed = sampleValues d := by
  rcases h with ⟨rfl, rfl⟩ | ⟨hquote, rfl⟩
  · exact Or.inl ⟨rfl, rfl⟩
  · exact Or.inr (sampleDotenv_render hquote)

theorem SampleFile.value {managed : Option String} {d : String} (h : SampleFile managed d) :
    ∃ source, isLockedSource source = false ∧
      sampleEnv.loadValueState managed "CUSTOM_PROVIDERS_JSON" = ⟨d, source⟩ := by
  rcases h.managedValues with ⟨hvalues, rfl⟩ | hvalues
  · refine ⟨.template, rfl, ?_⟩
    rw [AdminEnvironment.loadValueState, hvalues]
    rfl
  · refine ⟨.managedEnv, rfl, ?_⟩
    rw [AdminEnvironment.loadValueState, hvalues]
    rfl

theorem SampleFile.rawProviders {managed : Option String} {d : String}
    (h : SampleFile managed d) : rawProviders sampleEnv managed = d := by
  obtain ⟨source, -, hvalue⟩ := h.value
  have hfield : sampleEnv.fieldByKey customProvidersEnv = some providersField := rfl
  rw [Runtime.rawProviders, hfield, customProvidersEnv]
  exact congrArg ValueEntry.value hvalue

theorem SampleFile.seededValues {managed : Option String} {d : String} (h : SampleFile managed d) :
    sampleEnv.seededValues managed = sampleValues d := by
  rcases h with ⟨rfl, rfl⟩ | ⟨hquote, rfl⟩
  · rfl
  · have hvalues : sampleEnv.managedValues (some (sampleEnv.renderEnvFile (sampleValues d))) =
        sampleValues d := sampleDotenv_render hquote
    rw [AdminEnvironment.seededValues, hvalues]
    rfl

/-- A document other than the current one is committed and not published. -/
theorem SampleFile.prepare {managed : Option String} {old doc : String}
    (h : SampleFile managed old) (hquote : '"' ∈ doc.toList) (hne : doc ≠ old) :
    sampleEnv.prepareAdminUpdate managed (providersUpdate doc) =
      ⟨sampleValues doc, .ok [("CUSTOM_PROVIDERS_JSON", doc)], ["CUSTOM_PROVIDERS_JSON"]⟩ := by
  obtain ⟨source, hsource, hvalue⟩ := h.value
  have hmasked : isMaskedSecret (.str doc) = false := by
    refine decide_eq_false ?_
    rintro rfl
    exact absurd hquote (by decide)
  have hwritten : sampleEnv.writtenField managed "CUSTOM_PROVIDERS_JSON" (.str doc) =
      some providersField := by
    have hfield : sampleEnv.fieldByKey "CUSTOM_PROVIDERS_JSON" = some providersField := rfl
    simp [AdminEnvironment.writtenField, hfield, hvalue, hsource, hmasked]
  have hentries : (providersUpdate doc).entries = [("CUSTOM_PROVIDERS_JSON", .str doc)] := rfl
  have htarget : sampleEnv.targetValuesWithUpdates managed (providersUpdate doc) =
      sampleValues doc := by
    rw [AdminEnvironment.targetValuesWithUpdates, h.seededValues, hentries]
    simp only [List.foldl_cons, List.foldl_nil, hwritten]
    rfl
  have heffective : sampleEnv.effectiveValuesForValidation managed (sampleValues doc) =
      sampleValues doc := by
    show (if isLockedSource (sampleEnv.loadValueState managed "CUSTOM_PROVIDERS_JSON").source = true
      then _ else _) = _
    rw [hvalue, hsource]
    rfl
  have hsettings : sampleEnv.settingsFromValues managed (sampleValues doc) =
      .ok [("CUSTOM_PROVIDERS_JSON", doc)] := rfl
  have hpending : sampleEnv.changedPendingFields managed (providersUpdate doc)
      [("CUSTOM_PROVIDERS_JSON", doc)] = ["CUSTOM_PROVIDERS_JSON"] := by
    rw [AdminEnvironment.changedPendingFields, hentries]
    simp [hwritten, hvalue, providersField, normalizeForEnv, Json.toStr, hne]
  simp only [AdminEnvironment.prepareAdminUpdate, htarget, heffective, hsettings, hpending]

def sampleIds : List String := ["nvidia_nim"]

def sampleText (names : List String) : String := sampleDumps (sampleDocument names)

theorem quote_mem_sampleText (names : List String) : '"' ∈ (sampleText names).toList := by
  simp [sampleText, sampleDocument, sampleDumps, sampleDumpsFields]

theorem sampleText_ne : sampleText ["a"] ≠ sampleText ["b"] ∧
    sampleText ["a"] ≠ sampleText ["a", "b"] ∧ sampleText ["b"] ≠ sampleText ["a", "b"] := by
  decide

theorem jsonLoads_sampleText :
    sampleCodec.jsonLoads (sampleText ["a"]) = .ok (sampleDocument ["a"]) ∧
      sampleCodec.jsonLoads (sampleText ["b"]) = .ok (sampleDocument ["b"]) := by
  have hab : sampleDumps (sampleDocument ["a"]) ≠ sampleDumps (sampleDocument ["b"]) :=
    sampleText_ne.1
  constructor
  · simp [sampleCodec, sampleDocuments, sampleText]
  · simp [sampleCodec, sampleDocuments, sampleText, hab]

theorem parse_sampleText {name : String} (hname : name = "a" ∨ name = "b") :
    parseCustomProviderJson sampleCodec sampleIds (sampleText [name]) =
      .ok [sampleProvider name] := by
  have hstrip : Text.strip Text.isSpace (sampleText [name]) ≠ "" :=
    Text.strip_ne_empty (quote_mem_sampleText [name]) (by decide)
  have hsize : ¬ maxCustomConfigBytes < (sampleText [name]).utf8ByteSize := by
    rcases hname with rfl | rfl
    · decide +kernel
    · decide +kernel
  rw [parseCustomProviderJson, if_neg hsize, if_neg hstrip]
  rcases hname with rfl | rfl
  · rw [jsonLoads_sampleText.1]
    rfl
  · rw [jsonLoads_sampleText.2]
    rfl

def sampleFields (name : String) : Json :=
  .obj [("id", .str name), ("display_name", .str name),
    ("base_url", .str ("https://" ++ name ++ ".example")), ("api_key", .str "key")]

theorem add_first :
    updateCustomProviderJson sampleCodec sampleIds "" (sampleFields "a") none =
        .ok (sampleText ["a"]) ∧
      updateCustomProviderJson sampleCodec sampleIds "" (sampleFields "b") none =
        .ok (sampleText ["b"]) := by
  decide

theorem add_second :
    updateCustomProviderJson sampleCodec sampleIds (sampleText ["a"]) (sampleFields "b") none =
        .ok (sampleText ["a", "b"]) ∧
      updateCustomProviderJson sampleCodec sampleIds (sampleText ["b"]) (sampleFields "a") none =
        .ok (sampleText ["a", "b"]) := by
  rw [updateCustomProviderJson, updateCustomProviderJson, parse_sampleText (Or.inl rfl),
    parse_sampleText (Or.inr rfl)]
  decide +kernel

def sampleAdd (name : String) : ConfigUpdate := .applyCustom (sampleFields name) none

theorem SampleFile.request {managed : Option String} {old doc name : String}
    (h : SampleFile managed old)
    (hdoc : updateCustomProviderJson sampleCodec sampleIds old (sampleFields name) none = .ok doc) :
    (sampleAdd name).request sampleCodec sampleIds sampleEnv managed =
      .ok ⟨providersUpdate doc, some doc⟩ := by
  rw [sampleAdd, ConfigUpdate.request, h.rawProviders, hdoc]
  rfl

abbrev SampleRuntime := ApplicationRuntime (List (String × String))

def sampleAdmin : ConfigUpdate := .admin ∅

def emptyStore : ConfigStore (List (String × String)) where
  managed := none
  published := [("CUSTOM_PROVIDERS_JSON", "")]

def sampleRequest (name : String) : ConfigRequest :=
  ⟨providersUpdate (sampleText [name]), some (sampleText [name])⟩

theorem sampleFile_none : SampleFile none "" := Or.inl ⟨rfl, rfl⟩

theorem request_none {name : String} (hname : name = "a" ∨ name = "b") :
    (sampleAdd name).request sampleCodec sampleIds sampleEnv none = .ok (sampleRequest name) := by
  rcases hname with rfl | rfl
  · exact sampleFile_none.request add_first.1
  · exact sampleFile_none.request add_first.2

theorem begin_waits {w : SampleRuntime} {u : ConfigUpdate} {request : ConfigRequest}
    (hrequest : u.request sampleCodec sampleIds sampleEnv w.store.managed = .ok request)
    (hholder : w.holder.isNone = false) (writes : Bool) :
    w.begin sampleCodec sampleIds sampleEnv u writes =
      { w with waiters := w.waiters ++ [(u, request)] } := by
  simp [ApplicationRuntime.begin, hrequest, hholder]

/-- Waiting updates that add providers. -/
def sampleWaiters (names : List String) : List (ConfigUpdate × ConfigRequest) :=
  names.map fun name => (sampleAdd name, sampleRequest name)

/-- A replacement is prepared while other updates wait. -/
def sampleReplacing (names : List String) : SampleRuntime where
  store := emptyStore
  holder := some ⟨sampleAdmin, { updates := ∅ },
    .replacing (sampleValues "") [("CUSTOM_PROVIDERS_JSON", "")]⟩
  waiters := sampleWaiters names

theorem begin_sampleAdmin :
    ConfigOp.apply sampleCodec sampleIds sampleEnv (.begin sampleAdmin true)
      { store := emptyStore } = sampleReplacing [] := rfl

theorem begin_sampleAdd (names : List String) {name : String} (hname : name = "a" ∨ name = "b") :
    ConfigOp.apply sampleCodec sampleIds sampleEnv (.begin (sampleAdd name) true)
        (sampleReplacing names) = sampleReplacing (names ++ [name]) := by
  have hwaits := begin_waits (w := sampleReplacing names) (request_none hname) rfl true
  have hwaiters : sampleWaiters (names ++ [name]) =
      sampleWaiters names ++ [(sampleAdd name, sampleRequest name)] := List.map_append
  rw [sampleReplacing, sampleReplacing, hwaiters]
  exact hwaits

/-- The store with a document. -/
def sampleStore (names : List String) : ConfigStore (List (String × String)) :=
  emptyStore.commit sampleEnv (sampleValues (sampleText names))

theorem sampleStore_file (names : List String) :
    SampleFile (sampleStore names).managed (sampleText names) :=
  Or.inr ⟨quote_mem_sampleText names, rfl⟩

theorem sampleStore_injective {names names' : List String}
    (h : sampleStore names = sampleStore names') : sampleText names = sampleText names' := by
  rw [← (sampleStore_file names).rawProviders, h, (sampleStore_file names').rawProviders]

theorem published_sampleStore (names : List String) :
    (sampleStore names).published = emptyStore.published := rfl

theorem commit_sampleText {c : ConfigStore (List (String × String))}
    (hpublished : c.published = emptyStore.published) (names : List String) :
    c.commit sampleEnv (sampleValues (sampleText names)) = sampleStore names := by
  rw [sampleStore, ConfigStore.commit, ConfigStore.commit, hpublished]

theorem reports_sampleRequest {name : String} (hname : name = "a" ∨ name = "b") :
    (sampleRequest name).reports sampleCodec sampleIds = true := by
  have hadded : (sampleRequest name).added = some (sampleText [name]) := rfl
  rw [ConfigRequest.reports, hadded]
  simp only [parse_sampleText hname]
  rfl

/-- An added provider that gets the lock is committed. -/
theorem SampleFile.wake {c : ConfigStore (List (String × String))} {old name : String}
    (h : SampleFile c.managed old) (hpublished : c.published = emptyStore.published)
    (hname : name = "a" ∨ name = "b") (hne : sampleText [name] ≠ old)
    (rest : List (ConfigUpdate × ConfigRequest)) (reported : List (ConfigUpdate × Bool)) :
    ConfigOp.apply sampleCodec sampleIds sampleEnv (.wake true)
        { store := c, waiters := (sampleAdd name, sampleRequest name) :: rest
          reported := reported } =
      { store := sampleStore [name], waiters := rest
        reported := reported ++ [(sampleAdd name, true)] } := by
  have hreports := reports_sampleRequest hname
  have hprepare := h.prepare (quote_mem_sampleText [name]) hne
  have hupdates : (sampleRequest name).updates = providersUpdate (sampleText [name]) := rfl
  simp [ConfigOp.apply, ApplicationRuntime.wake, ApplicationRuntime.applyAdminConfig, hupdates,
    hprepare, hreports, report, commit_sampleText hpublished]

abbrev sampleSystem : System SampleRuntime ConfigOp :=
  configSystem sampleCodec sampleIds sampleEnv emptyStore

theorem reach_next {w w' : SampleRuntime} (h : sampleSystem.Reachable w) (op : ConfigOp)
    (hop : op.apply sampleCodec sampleIds sampleEnv w = w') : sampleSystem.Reachable w' :=
  h.next hop.symm

theorem bothAdded_reachable : sampleSystem.Reachable
    { store := sampleStore ["b"]
      reported := [(sampleAdmin, false), (sampleAdd "a", true), (sampleAdd "b", true)] } := by
  have h0 : sampleSystem.Reachable { store := emptyStore } := .start rfl
  have h1 := reach_next h0 (.begin sampleAdmin true) begin_sampleAdmin
  have h2 := reach_next h1 _ (begin_sampleAdd [] (Or.inl rfl))
  have h3 := reach_next h2 _ (begin_sampleAdd ["a"] (Or.inr rfl))
  have h4 : sampleSystem.Reachable
      { store := emptyStore, waiters := sampleWaiters ["a", "b"]
        reported := [(sampleAdmin, false)] } := reach_next h3 .replaceFails rfl
  have h5 := reach_next h4 (.wake true) (sampleFile_none.wake rfl (Or.inl rfl) (by decide)
    (sampleWaiters ["b"]) [(sampleAdmin, false)])
  exact reach_next h5 (.wake true) ((sampleStore_file ["a"]).wake (published_sampleStore _)
    (Or.inr rfl) sampleText_ne.1.symm [] [(sampleAdmin, false), (sampleAdd "a", true)])

/-- A provider that is added after another one is kept with it. -/
theorem SampleFile.update {c d : ConfigStore (List (String × String))} {old doc name : String}
    (h : SampleFile c.managed old)
    (hdoc : updateCustomProviderJson sampleCodec sampleIds old (sampleFields name) none = .ok doc)
    (hquote : '"' ∈ doc.toList) (hne : doc ≠ old)
    (hupdate : c.update sampleCodec sampleIds sampleEnv (sampleAdd name) = some d) :
    d = c.commit sampleEnv (sampleValues doc) := by
  rw [update_eq_applied (h.request hdoc), ConfigStore.applied, h.prepare hquote hne] at hupdate
  simp only at hupdate
  split_ifs at hupdate with hreports hpending
  · exact (Option.some.inj hupdate).symm
  · exact absurd (List.cons_ne_nil _ _) hpending

theorem serial_adds {first second : String} {d : ConfigStore (List (String × String))}
    (hfirst : updateCustomProviderJson sampleCodec sampleIds "" (sampleFields first) none =
      .ok (sampleText [first]))
    (hsecond : updateCustomProviderJson sampleCodec sampleIds (sampleText [first])
      (sampleFields second) none = .ok (sampleText ["a", "b"]))
    (hne : "" ≠ sampleText [first]) (hne' : sampleText ["a", "b"] ≠ sampleText [first])
    (hd : emptyStore.serial sampleCodec sampleIds sampleEnv [sampleAdd first, sampleAdd second] =
      some d) : d = sampleStore ["a", "b"] := by
  rw [ConfigStore.serial, System.replay] at hd
  obtain ⟨c, hc, hd⟩ := Option.bind_eq_some_iff.mp hd
  rw [System.replay] at hd
  obtain ⟨e, he, hd⟩ := Option.bind_eq_some_iff.mp hd
  rw [sampleFile_none.update hfirst (quote_mem_sampleText _) hne.symm hc,
    commit_sampleText (c := emptyStore) rfl] at he
  rw [← Option.some.inj hd,
    (sampleStore_file [first]).update hsecond (quote_mem_sampleText _) hne' he,
    commit_sampleText (published_sampleStore _)]

/-- Two providers are added and both updates report success, but only one is kept. -/
theorem concurrentAdds_lose : ∃ w, sampleSystem.Reachable w ∧ w.holder.isNone ∧ w.waiters = [] ∧
    ∀ order, order.Perm w.succeeded →
      emptyStore.serial sampleCodec sampleIds sampleEnv order ≠ some w.store := by
  refine ⟨_, bothAdded_reachable, rfl, rfl, ?_⟩
  intro order horder hserial
  have hstore : sampleStore ["b"] = sampleStore ["a", "b"] := by
    rcases List.perm_pair.mp horder with rfl | rfl
    · exact serial_adds add_first.1 add_second.1 (by decide +kernel) sampleText_ne.2.1.symm hserial
    · exact serial_adds add_first.2 add_second.2 (by decide +kernel) sampleText_ne.2.2.symm hserial
  exact sampleText_ne.2.2 (sampleStore_injective hstore)

theorem reach_fits {w w' : SampleRuntime}
    (h : sampleSystem.Reach (Fits sampleCodec sampleIds sampleEnv) w) (op : ConfigOp)
    (hfits : w.Fits sampleCodec sampleIds sampleEnv op)
    (hop : op.apply sampleCodec sampleIds sampleEnv w = w') :
    sampleSystem.Reach (Fits sampleCodec sampleIds sampleEnv) w' :=
  h.next hfits hop.symm

/-- A provider that is added after a failed replacement. -/
theorem updates_serialise_sample :
    let w : SampleRuntime :=
      { store := sampleStore ["a"], reported := [(sampleAdmin, false), (sampleAdd "a", true)] }
    w.store ≠ emptyStore ∧
      emptyStore.serial sampleCodec sampleIds sampleEnv [sampleAdd "a"] = some w.store := by
  have h0 : sampleSystem.Reach (Fits sampleCodec sampleIds sampleEnv) { store := emptyStore } :=
    .start rfl
  have h1 := reach_fits h0 (.begin sampleAdmin true)
    (by
      rintro - - request hrequest -
      cases hrequest
      rfl) begin_sampleAdmin
  have h2 := reach_fits h1 (.begin (sampleAdd "a") true) (by rintro ⟨⟩)
    (begin_sampleAdd [] (Or.inl rfl))
  have h3 : sampleSystem.Reach (Fits sampleCodec sampleIds sampleEnv)
      { store := emptyStore, waiters := sampleWaiters ["a"], reported := [(sampleAdmin, false)] } :=
    reach_fits h2 .replaceFails trivial rfl
  have h4 := reach_fits h3 (.wake true)
    (by
      rintro - u request rest hwaiters
      cases hwaiters
      exact And.intro (request_none (Or.inl rfl)) fun _ => reports_sampleRequest (Or.inl rfl))
    (sampleFile_none.wake rfl (Or.inl rfl) (by decide +kernel) [] [(sampleAdmin, false)])
  refine ⟨?_, (updates_serialise h4).2 rfl⟩
  intro hstore
  cases congrArg ConfigStore.managed hstore

end Example

end Switchboard.Runtime
