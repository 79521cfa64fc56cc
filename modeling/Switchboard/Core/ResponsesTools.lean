import Mathlib
import Switchboard.Core.ToolNames
import Switchboard.Library.Except
import Switchboard.Library.Json

/-!
# Tools of a Responses request

The declarations of a Responses request become Anthropic tools, and the name of an
Anthropic tool is taken back to the declaration it came from.
-/

namespace Switchboard.Core.ResponsesTools

open Switchboard.Text Switchboard.Core.ToolNames

/-- What a conversion raises. -/
inductive ConversionFailure where
  | conversion (message : String)
  | typeError (message : String)
deriving DecidableEq

/-- `type(value).__name__`. -/
def typeName : Json → String
  | .null => "NoneType"
  | .bool _ => "bool"
  | .int _ => "int"
  | .float _ => "float"
  | .str _ => "str"
  | .arr _ => "list"
  | .obj _ => "dict"

def isObj : Json → Bool
  | .obj _ => true
  | _ => false

def optionalStr : Json → Option String
  | .str s => some s
  | _ => none

def requiredStr (value : Json) (fieldName : String) : Except ConversionFailure String :=
  match value with
  | .str s =>
    if s ≠ "" then .ok s
    else .error (.conversion s!"Responses field {fieldName} must be a non-empty string")
  | _ => .error (.conversion s!"Responses field {fieldName} must be a non-empty string")

/-- Whether the type of an item is the given text. -/
def hasType (item : Json) (kind : String) : Bool :=
  match item.getD "type" with
  | .str s => s = kind
  | _ => false

/-! ## Names -/

inductive ToolKind where
  | function
  | custom
deriving DecidableEq, Repr

/-- `scope` is the namespace. -/
structure ResponsesToolIdentity where
  kind : ToolKind
  name : String
  scope : Option String := none
deriving DecidableEq

def maxAnthropicToolNameLen : Nat := 64

def toolNamePart (value : String) : List Char :=
  let normalized := stripped (· = '_') (replaceInvalid false value.toList)
  if normalized = [] then ['t', 'o', 'o', 'l'] else normalized

/-- Namespace and name, cleaned and joined. -/
def combined (scope name : String) : List Char :=
  toolNamePart scope ++ ['_', '_'] ++ toolNamePart name

-- the hexadecimal digits of the digest of a text
variable (sha1 : List Char → List (Fin 16))

/-- The end of a joined name that is too long gives way to its digest. -/
def shortened (text : List Char) : List Char :=
  if text.length ≤ maxAnthropicToolNameLen then text
  else
    let digest := ((sha1 text).map hexDigit).take 8
    text.take (maxAnthropicToolNameLen - digest.length - 1) ++ '_' :: digest

def responsesToolNameToAnthropicName (name : String) (scope : Option String) : String :=
  match scope with
  | none => name
  | some scope =>
    if scope = "" then name else String.ofList (shortened sha1 (combined scope name))

/-! ## Declarations -/

/-- The part of a declaration that describes its function. -/
def functionSource (tool : Json) : Json :=
  if isObj (tool.getD "function") then tool.getD "function" else tool

def customSource (tool : Json) : Json :=
  if isObj (tool.getD "custom") then tool.getD "custom" else tool

structure AnthropicTool where
  name : String
  inputSchema : Json
  description : Option String

/-- The parameters of a function, which may be left out. -/
def parametersSchema (name : String) : Json → Except ConversionFailure Json
  | .null => .ok (.obj [("type", .str "object"), ("properties", .obj [])])
  | .obj fields => .ok (.obj fields)
  | _ => .error (.conversion s!"Responses tool {Json.reprString name} parameters must be an object")

def convertFunctionTool (tool : Json) (scope : Option String) :
    Except ConversionFailure AnthropicTool := do
  let source := functionSource tool
  let name ← requiredStr (source.getD "name") "tool.name"
  let schema ← parametersSchema name (source.getD "parameters")
  return ⟨responsesToolNameToAnthropicName sha1 name scope, schema, source.text? "description"⟩

/-- What the model is told of the format of a custom tool. -/
def formatGuidance (dumps : Json → String) (format : Json) : List String :=
  if !isObj format then []
  else
    match optionalStr (format.getD "type") with
    | some "text" => ["Custom tool input format: unconstrained text."]
    | some "grammar" =>
      let guidance := match format.text? "syntax" with
        | some grammar => s!"Custom tool input format: grammar ({grammar})"
        | none => "Custom tool input format: grammar"
      match format.text? "definition" with
      | some definition => [s!"{guidance}: {definition}"]
      | none => [s!"{guidance}."]
    | some "" | none => [s!"Custom tool input format: {dumps format}"]
    | some other => [s!"Custom tool input format: {other}."]

def customToolDescription (dumps : Json → String) (source : Json) : Option String :=
  let parts := (source.text? "description").toList ++ formatGuidance dumps (source.getD "format")
  if parts = [] then none else some ("\n\n".intercalate parts)

def customInputSchema : Json :=
  .obj [("type", .str "object"),
    ("properties", .obj [("input", .obj [("type", .str "string"),
      ("description", .str "Free-form input for the custom tool.")])]),
    ("required", .arr [.str "input"])]

-- `json.dumps`
variable (dumps : Json → String)

def convertCustomTool (tool : Json) (scope : Option String) :
    Except ConversionFailure AnthropicTool := do
  let source := customSource tool
  let name ← requiredStr (source.getD "name") "tool.name"
  return ⟨responsesToolNameToAnthropicName sha1 name scope, customInputSchema,
    customToolDescription dumps source⟩

/-- One round of the loop of `_convert_namespace_tool`. -/
def convertNestedTool (scope : String) (tool : Json) : Except ConversionFailure AnthropicTool :=
  if !isObj tool then
    .error (.conversion s!"Unsupported Responses namespace tool: {typeName tool}")
  else if hasType tool "function" then convertFunctionTool sha1 tool (some scope)
  else if hasType tool "custom" then convertCustomTool sha1 dumps tool (some scope)
  else
    let kind := tool.getD "type"
    .error (.conversion s!"Unsupported Responses namespace tool type: {kind.repr}")

def convertNested (scope : String) : List Json → Except ConversionFailure (List AnthropicTool)
  | [] => .ok []
  | tool :: tools => do
    let converted ← convertNestedTool sha1 dumps scope tool
    let others ← convertNested scope tools
    return converted :: others

def convertNamespaceTool (tool : Json) : Except ConversionFailure (List AnthropicTool) := do
  let scope ← requiredStr (tool.getD "name") "tool.namespace.name"
  match tool.getD "tools" with
  | .arr nested => convertNested sha1 dumps scope nested
  | _ => .error (.conversion
      s!"Responses namespace tool {Json.reprString scope} tools must be a list")

/-- Built-in tools that are passed over. -/
def isPassiveType (tool : Json) : Bool :=
  hasType tool "web_search" || hasType tool "image_generation" || hasType tool "tool_search"

/-- One round of the loop of `convert_tools`. Looking a list or a dictionary up in the
set of passive types is an error of its own. -/
def convertTool (tool : Json) : Except ConversionFailure (List AnthropicTool) :=
  if !isObj tool then .error (.conversion s!"Unsupported Responses tool: {typeName tool}")
  else if hasType tool "function" then do
    return [← convertFunctionTool sha1 tool none]
  else if hasType tool "custom" then do
    return [← convertCustomTool sha1 dumps tool none]
  else if hasType tool "namespace" then convertNamespaceTool sha1 dumps tool
  else
    match tool.getD "type" with
    | .arr _ => .error (.typeError "unhashable type: 'list'")
    | .obj _ => .error (.typeError "unhashable type: 'dict'")
    | kind =>
      if isPassiveType tool then .ok []
      else .error (.conversion s!"Unsupported Responses tool type: {kind.repr}")

def convertEach : List Json → Except ConversionFailure (List AnthropicTool)
  | [] => .ok []
  | tool :: tools => do
    let converted ← convertTool sha1 dumps tool
    let others ← convertEach tools
    return converted ++ others

def convertTools : Json → Except ConversionFailure (Option (List AnthropicTool))
  | .null => .ok none
  | .arr tools => some <$> convertEach sha1 dumps tools
  | _ => .error (.conversion "Responses tools must be a list")

/-! ## The way back -/

/-- The name of a function or a custom tool, if it is a text that is not empty. -/
def matchTool (tool : Json) (scope : Option String) (anthropicName : String) :
    Option ResponsesToolIdentity :=
  let found (kind : ToolKind) (source : Json) : Option ResponsesToolIdentity :=
    match source.text? "name" with
    | some name =>
      if responsesToolNameToAnthropicName sha1 name scope = anthropicName then
        some ⟨kind, name, scope⟩
      else none
    | none => none
  if hasType tool "function" then found .function (functionSource tool)
  else if hasType tool "custom" then found .custom (customSource tool)
  else none

def matchNested (scope anthropicName : String) : List Json → Option ResponsesToolIdentity
  | [] => none
  | tool :: tools =>
    if !isObj tool then matchNested scope anthropicName tools
    else
      match matchTool sha1 tool (some scope) anthropicName with
      | some identity => some identity
      | none => matchNested scope anthropicName tools

/-- One round of the loop of `responses_tool_identity_from_anthropic_name`. -/
def matchDeclared (anthropicName : String) (tool : Json) : Option ResponsesToolIdentity :=
  if !isObj tool then none
  else if hasType tool "function" || hasType tool "custom" then
    matchTool sha1 tool none anthropicName
  else if hasType tool "namespace" then
    match tool.text? "name", tool.getD "tools" with
    | some scope, .arr nested => matchNested sha1 scope anthropicName nested
    | _, _ => none
  else none

def matchTools (anthropicName : String) : List Json → Option ResponsesToolIdentity
  | [] => none
  | tool :: tools =>
    match matchDeclared sha1 anthropicName tool with
    | some identity => some identity
    | none => matchTools anthropicName tools

def responsesToolIdentityFromAnthropicName (tools : Option (List Json)) (anthropicName : String) :
    ResponsesToolIdentity :=
  match tools with
  | none => ⟨.function, anthropicName, none⟩
  | some tools => (matchTools sha1 anthropicName tools).getD ⟨.function, anthropicName, none⟩

/-! ## Declared identities -/

/-- The identity that a function or a custom tool declares. -/
def declaration (tool : Json) (scope : Option String) : Option ResponsesToolIdentity :=
  if hasType tool "function" then
    ((functionSource tool).text? "name").map fun name => ⟨.function, name, scope⟩
  else if hasType tool "custom" then
    ((customSource tool).text? "name").map fun name => ⟨.custom, name, scope⟩
  else none

def nestedDeclarations (scope : String) (tools : List Json) : List ResponsesToolIdentity :=
  tools.filterMap fun tool => if isObj tool then declaration tool (some scope) else none

def toolDeclarations (tool : Json) : List ResponsesToolIdentity :=
  if !isObj tool then []
  else if hasType tool "function" || hasType tool "custom" then (declaration tool none).toList
  else if hasType tool "namespace" then
    match tool.text? "name", tool.getD "tools" with
    | some scope, .arr nested => nestedDeclarations scope nested
    | _, _ => []
  else []

/-- The identities that a list of tools declares, in its order. -/
def declarations (tools : List Json) : List ResponsesToolIdentity := tools.flatMap toolDeclarations

def ResponsesToolIdentity.anthropicName
    (identity : ResponsesToolIdentity) : String :=
  responsesToolNameToAnthropicName sha1 identity.name identity.scope

variable {sha1 : List Char → List (Fin 16)} {dumps : Json → String}
  {tool : Json} {tools nested : List Json} {scope : Option String} {space given : String}

theorem matchTool_eq : matchTool sha1 tool scope given =
    (declaration tool scope).filter fun d => d.anthropicName sha1 = given := by
  unfold matchTool declaration
  dsimp only
  split_ifs
  · cases (functionSource tool).text? "name" with
    | none => rfl
    | some name =>
      by_cases hname : responsesToolNameToAnthropicName sha1 name scope = given <;>
        simp [Option.filter, ResponsesToolIdentity.anthropicName, hname]
  · cases (customSource tool).text? "name" with
    | none => rfl
    | some name =>
      by_cases hname : responsesToolNameToAnthropicName sha1 name scope = given <;>
        simp [Option.filter, ResponsesToolIdentity.anthropicName, hname]
  · rfl

theorem matchNested_eq : matchNested sha1 space given nested =
    (nestedDeclarations space nested).find? fun d => d.anthropicName sha1 = given := by
  induction nested with
  | nil => rfl
  | cons tool nested ih =>
    unfold nestedDeclarations at ih ⊢
    rw [matchNested, List.filterMap_cons]
    by_cases hobj : isObj tool = true
    · rw [if_neg (by simp [hobj]), if_pos hobj, matchTool_eq, ih]
      cases declaration tool (some space) with
      | none => rfl
      | some d =>
        dsimp only
        rw [List.find?_cons]
        by_cases hd : d.anthropicName sha1 = given <;> simp only [Option.filter, hd] <;> rfl
    · rw [if_pos (by simp [hobj]), if_neg hobj]
      exact ih

theorem matchDeclared_eq : matchDeclared sha1 given tool =
    (toolDeclarations tool).find? fun d => d.anthropicName sha1 = given := by
  unfold matchDeclared toolDeclarations
  split_ifs
  · rfl
  · rw [matchTool_eq]
    cases declaration tool none with
    | none => rfl
    | some d => by_cases hd : d.anthropicName sha1 = given <;> simp [Option.filter, hd]
  · cases tool.text? "name" with
    | none => rfl
    | some scope =>
      cases tool.getD "tools" with
      | arr nested => exact matchNested_eq
      | _ => rfl
  · rfl

/-- The way back leads to the first declaration with the given name. -/
theorem matchTools_eq : matchTools sha1 given tools =
    (declarations tools).find? fun d => d.anthropicName sha1 = given := by
  induction tools with
  | nil => rfl
  | cons tool tools ih =>
    unfold declarations at ih ⊢
    rw [matchTools, matchDeclared_eq, List.flatMap_cons, List.find?_append, ← ih]
    cases (toolDeclarations tool).find? _ <;> rfl

/-! ## The names that declarations are given -/

variable {t : AnthropicTool} {converted : List AnthropicTool} {a b : ResponsesToolIdentity}

theorem text?_of_requiredStr {item : Json} {key fieldName s : String}
    (h : requiredStr (item.getD key) fieldName = .ok s) : item.text? key = some s := by
  unfold requiredStr Json.getD at h
  unfold Json.text?
  cases hget : item.get? key with
  | none =>
    rw [hget] at h
    cases h
  | some value =>
    rw [hget] at h
    cases value with
    | str text =>
      simp only [Option.getD_some] at h
      split_ifs at h with hne
      cases h
      simpa using hne
    | _ => cases h

theorem convertFunctionTool_name (h : convertFunctionTool sha1 tool scope = .ok t) :
    ∃ name, (functionSource tool).text? "name" = some name ∧
      t.name = responsesToolNameToAnthropicName sha1 name scope := by
  obtain ⟨name, hname, h⟩ := bind_eq_ok.mp h
  obtain ⟨schema, _, h⟩ := bind_eq_ok.mp h
  cases h
  exact ⟨name, text?_of_requiredStr hname, rfl⟩

theorem convertCustomTool_name (h : convertCustomTool sha1 dumps tool scope = .ok t) :
    ∃ name, (customSource tool).text? "name" = some name ∧
      t.name = responsesToolNameToAnthropicName sha1 name scope := by
  obtain ⟨name, hname, h⟩ := bind_eq_ok.mp h
  cases h
  exact ⟨name, text?_of_requiredStr hname, rfl⟩

/-- A function or a custom tool that is accepted declares one identity. -/
theorem declaration_of_function (hkind : hasType tool "function" = true)
    (h : convertFunctionTool sha1 tool scope = .ok t) :
    ∃ d, declaration tool scope = some d ∧ t.name = d.anthropicName sha1 := by
  obtain ⟨name, hname, ht⟩ := convertFunctionTool_name h
  refine ⟨⟨.function, name, scope⟩, ?_, ht⟩
  rw [declaration, if_pos hkind, hname, Option.map_some]

theorem declaration_of_custom (hfunction : ¬ hasType tool "function" = true)
    (hkind : hasType tool "custom" = true) (h : convertCustomTool sha1 dumps tool scope = .ok t) :
    ∃ d, declaration tool scope = some d ∧ t.name = d.anthropicName sha1 := by
  obtain ⟨name, hname, ht⟩ := convertCustomTool_name h
  refine ⟨⟨.custom, name, scope⟩, ?_, ht⟩
  rw [declaration, if_neg hfunction, if_pos hkind, hname, Option.map_some]

theorem declaration_of_nested (h : convertNestedTool sha1 dumps space tool = .ok t) :
    isObj tool = true ∧
      ∃ d, declaration tool (some space) = some d ∧ t.name = d.anthropicName sha1 := by
  unfold convertNestedTool at h
  split_ifs at h with hobj hfunction hcustom
  · exact ⟨by simpa using hobj, declaration_of_function hfunction h⟩
  · exact ⟨by simpa using hobj, declaration_of_custom hfunction hcustom h⟩

theorem convertNested_names (h : convertNested sha1 dumps space nested = .ok converted) :
    converted.map (·.name) = (nestedDeclarations space nested).map (·.anthropicName sha1) := by
  induction nested generalizing converted with
  | nil =>
    cases h
    rfl
  | cons tool nested ih =>
    rw [convertNested] at h
    obtain ⟨t, ht, h⟩ := bind_eq_ok.mp h
    obtain ⟨others, hothers, h⟩ := bind_eq_ok.mp h
    cases h
    obtain ⟨hobj, d, hd, hname⟩ := declaration_of_nested ht
    have hrest := ih hothers
    unfold nestedDeclarations at hrest ⊢
    rw [List.filterMap_cons, if_pos hobj, hd]
    simp only [List.map_cons, hname, hrest]

theorem convertTool_names (h : convertTool sha1 dumps tool = .ok converted) :
    converted.map (·.name) = (toolDeclarations tool).map (·.anthropicName sha1) := by
  unfold convertTool at h
  unfold toolDeclarations
  split_ifs at h with hobj hfunction hcustom hspace hpassive
  · obtain ⟨t, ht, h⟩ := bind_eq_ok.mp h
    cases h
    obtain ⟨d, hd, hname⟩ := declaration_of_function hfunction ht
    simp [hobj, hfunction, hd, hname]
  · obtain ⟨t, ht, h⟩ := bind_eq_ok.mp h
    cases h
    obtain ⟨d, hd, hname⟩ := declaration_of_custom hfunction hcustom ht
    simp [hobj, hcustom, hd, hname]
  · obtain ⟨scope, hscope, h⟩ := bind_eq_ok.mp h
    rw [text?_of_requiredStr hscope]
    cases hnested : tool.getD "tools" with
    | arr nested =>
      rw [hnested] at h
      simp only [hobj, hfunction, hcustom, hspace, Bool.or_self, if_true, if_false,
        Bool.false_eq_true]
      exact convertNested_names h
    | _ =>
      rw [hnested] at h
      cases h
  · have hnone : converted = [] := by
      split at h <;> cases h
      rfl
    simp [hnone, hfunction, hcustom, hspace]
  · split at h <;> cases h

theorem convertEach_names (h : convertEach sha1 dumps tools = .ok converted) :
    converted.map (·.name) = (declarations tools).map (·.anthropicName sha1) := by
  induction tools generalizing converted with
  | nil =>
    cases h
    rfl
  | cons tool tools ih =>
    rw [convertEach] at h
    obtain ⟨first, hfirst, h⟩ := bind_eq_ok.mp h
    obtain ⟨others, hothers, h⟩ := bind_eq_ok.mp h
    cases h
    have hrest := ih hothers
    unfold declarations at hrest ⊢
    rw [List.flatMap_cons, List.map_append, List.map_append, convertTool_names hfirst, hrest]

/-! ## When names clash -/

/-- Two identities for which there is one Anthropic name: texts that are joined to one
text, or of which one is cut and its digest makes up for the rest. -/
def Clash (sha1 : List Char → List (Fin 16)) (a b : ResponsesToolIdentity) : Prop :=
  match a.scope, b.scope with
  | none, none => a.name = b.name
  | none, some space => a.name.toList = shortened sha1 (combined space b.name)
  | some space, none => shortened sha1 (combined space a.name) = b.name.toList
  | some first, some second =>
    combined first a.name = combined second b.name ∨
      (maxAnthropicToolNameLen < (combined first a.name).length ∨
        maxAnthropicToolNameLen < (combined second b.name).length) ∧
      shortened sha1 (combined first a.name) = shortened sha1 (combined second b.name)

theorem anthropicName_scoped {kind : ToolKind} {name : String} (h : space ≠ "") :
    ResponsesToolIdentity.anthropicName sha1 ⟨kind, name, some space⟩ =
      String.ofList (shortened sha1 (combined space name)) := by
  unfold ResponsesToolIdentity.anthropicName responsesToolNameToAnthropicName
  exact if_neg h

theorem anthropicName_eq_iff (ha : a.scope ≠ some "") (hb : b.scope ≠ some "") :
    a.anthropicName sha1 = b.anthropicName sha1 ↔ Clash sha1 a b := by
  obtain ⟨kind, name, scope⟩ := a
  obtain ⟨kind', name', scope'⟩ := b
  have hspace : ∀ {space : String}, some space ≠ some "" → space ≠ "" := fun h heq =>
    h (congrArg some heq)
  cases scope with
  | none =>
    cases scope' with
    | none => rfl
    | some second =>
      rw [anthropicName_scoped (hspace hb), ← String.toList_inj, String.toList_ofList]
      rfl
  | some first =>
    cases scope' with
    | none =>
      rw [anthropicName_scoped (hspace ha), ← String.toList_inj, String.toList_ofList]
      rfl
    | some second =>
      rw [anthropicName_scoped (hspace ha), anthropicName_scoped (hspace hb),
        ← String.toList_inj, String.toList_ofList, String.toList_ofList]
      constructor
      · intro heq
        by_cases hlong : maxAnthropicToolNameLen < (combined first name).length ∨
            maxAnthropicToolNameLen < (combined second name').length
        · exact .inr ⟨hlong, heq⟩
        · obtain ⟨hshort, hshort'⟩ := not_or.mp hlong
          left
          unfold shortened at heq
          rwa [if_pos (not_lt.mp hshort), if_pos (not_lt.mp hshort')] at heq
      · rintro (heq | ⟨-, heq⟩)
        · rw [heq]
        · exact heq

/-- Joined texts tell their namespaces apart when these have no run of underscores that
could be read as the separator. -/
theorem combined_injective {first second name name' : String}
    (h : combined first name = combined second name')
    (hfirst : ¬ ['_', '_'] <:+: toolNamePart first ∧ ¬ ['_'] <:+ toolNamePart first)
    (hsecond : ¬ ['_', '_'] <:+: toolNamePart second ∧ ¬ ['_'] <:+ toolNamePart second) :
    toolNamePart first = toolNamePart second ∧ toolNamePart name = toolNamePart name' := by
  -- what one namespace is longer by would have to begin with the separator
  have hlonger : ∀ {x y extra rest rest' : List Char}, ¬ ['_', '_'] <:+: y → ¬ ['_'] <:+ y →
      y = x ++ extra → '_' :: '_' :: rest = extra ++ '_' :: '_' :: rest' → extra = [] := by
    intro x y extra rest rest' hinfix hsuffix hy hextra
    match extra with
    | [] => rfl
    | [c] =>
      simp only [List.cons_append, List.cons.injEq] at hextra
      exact absurd ⟨x, by rw [hy, hextra.1]⟩ hsuffix
    | c :: d :: extra =>
      simp only [List.cons_append, List.cons.injEq] at hextra
      exact absurd ⟨x, extra, by rw [hy, ← hextra.1, ← hextra.2.1]; simp⟩ hinfix
  have hparts : toolNamePart first ++ '_' :: '_' :: toolNamePart name =
      toolNamePart second ++ '_' :: '_' :: toolNamePart name' := by
    simpa [combined] using h
  obtain ⟨extra, hlong, hrest⟩ | ⟨extra, hlong, hrest⟩ := List.append_eq_append_iff.mp hparts
  · have hnone := hlonger hsecond.1 hsecond.2 hlong hrest
    subst hnone
    simp only [List.nil_append, List.cons.injEq, true_and] at hrest
    exact ⟨by simpa using hlong.symm, hrest⟩
  · have hnone := hlonger hfirst.1 hfirst.2 hlong hrest
    subst hnone
    simp only [List.nil_append, List.cons.injEq, true_and] at hrest
    exact ⟨by simpa using hlong, hrest.symm⟩

theorem scope_of_mem_declarations (h : a ∈ declarations tools) : a.scope ≠ some "" := by
  have hscope : ∀ {tool scope d}, declaration tool scope = some d → d.scope = scope := by
    intro tool scope d hd
    unfold declaration at hd
    split_ifs at hd <;> obtain ⟨name, -, rfl⟩ := Option.map_eq_some_iff.mp hd <;> rfl
  obtain ⟨tool, -, ha⟩ := List.mem_flatMap.mp h
  unfold toolDeclarations at ha
  split_ifs at ha
  · exact absurd ha List.not_mem_nil
  · rw [hscope (Option.mem_toList.mp ha)]
    simp
  · cases hname : tool.text? "name" with
    | none => simp [hname] at ha
    | some space =>
      rw [hname] at ha
      cases hnested : tool.getD "tools" with
      | arr nested =>
        rw [hnested] at ha
        obtain ⟨nestedTool, -, ha⟩ := List.mem_filterMap.mp ha
        split_ifs at ha
        rw [hscope ha]
        intro hempty
        cases hempty
        unfold Json.text? at hname
        split at hname
        · split_ifs at hname with hne
          exact hne (Option.some.inj hname)
        · cases hname
      | _ =>
        rw [hnested] at ha
        cases ha
  · exact absurd ha List.not_mem_nil

/-- Every declared identity comes back from the name it was given, and no other one has
that name. -/
structure RoundTrip (sha1 : List Char → List (Fin 16)) (tools : List Json)
    (converted : List AnthropicTool) : Prop where
  recovered : converted.map
    (fun t => responsesToolIdentityFromAnthropicName sha1 (some tools) t.name) = declarations tools
  distinct : ∀ a ∈ declarations tools, ∀ b ∈ declarations tools, a ≠ b →
    a.anthropicName sha1 ≠ b.anthropicName sha1

theorem identity_of_name (hnames : ∀ b ∈ declarations tools,
      b.anthropicName sha1 = a.anthropicName sha1 → b = a) (ha : a ∈ declarations tools) :
    responsesToolIdentityFromAnthropicName sha1 (some tools) (a.anthropicName sha1) = a := by
  unfold responsesToolIdentityFromAnthropicName
  dsimp only
  rw [matchTools_eq]
  cases hfind : (declarations tools).find? fun d =>
      d.anthropicName sha1 = a.anthropicName sha1 with
  | none => simpa using List.find?_eq_none.mp hfind a ha
  | some b =>
    have hname : b.anthropicName sha1 = a.anthropicName sha1 := by
      simpa using List.find?_some hfind
    exact hnames b (List.mem_of_find?_eq_some hfind) hname

theorem convertEach_of_convertTools
    (h : convertTools sha1 dumps (.arr tools) = .ok (some converted)) :
    convertEach sha1 dumps tools = .ok converted := by
  rw [convertTools] at h
  cases hconverted : convertEach sha1 dumps tools with
  | error e =>
    rw [hconverted] at h
    cases h
  | ok found =>
    rw [hconverted] at h
    cases h
    rfl

def functionTool (name : String) : Json :=
  .obj [("type", .str "function"), ("name", .str name)]

def namespaceTool (name : String) (tools : List Json) : Json :=
  .obj [("type", .str "namespace"), ("name", .str name), ("tools", .arr tools)]

/-- The separator in the name of the one is part of the namespace of the other. -/
def clashingTools : List Json :=
  [namespaceTool "a" [functionTool "b__c"], namespaceTool "a__b" [functionTool "c"]]

def separateTools : List Json :=
  [functionTool "c", namespaceTool "a" [functionTool "b.c"]]

theorem declarations_separateTools :
    declarations separateTools = [⟨.function, "c", none⟩, ⟨.function, "b.c", some "a"⟩] := by
  decide

theorem separate_not_clash :
    shortened (fun _ => []) (combined "a" "b.c") ≠ "c".toList := by
  decide

end Switchboard.Core.ResponsesTools
