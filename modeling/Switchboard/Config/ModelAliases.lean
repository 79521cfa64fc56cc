import Mathlib
import Switchboard.Config.ModelRefs
import Switchboard.Library.Dict
import Switchboard.Library.Except

/-!
# Model aliases

Logical names of models, given as `alias=provider/model` entries.
-/

namespace Switchboard.Config

open Text

abbrev ModelAliasMap := Dict (List Char) (List Char)

def ModelAliasMap.resolveIfConfigured (aliases : ModelAliasMap) (requested : List Char) :
    List Char :=
  if '/' ∈ requested then requested else (aliases.get? requested).getD requested

section Parse

variable (casefold : List Char → List Char)

/-- `_is_reserved_claude_model_name` -/
def isReservedClaudeModelName (name : List Char) : Bool :=
  casefold name = "claude".toList || "claude-".toList.isPrefixOf (casefold name)

/-- One entry of the text; an error is the text of a `ModelAliasError`. -/
def addAlias (aliases : ModelAliasMap) (rawEntry : List Char) :
    Except (List Char) ModelAliasMap :=
  let entry := stripped isSpace rawEntry
  if entry = [] then .ok aliases
  else
    match partitionAt '=' entry with
    | none => .error ("invalid alias entry: ".toList ++ entry)
    | some (rawName, rawTarget) =>
      let name := stripped isSpace rawName
      let target := stripped isSpace rawTarget
      if name = [] ∨ target = [] then .error ("invalid alias entry: ".toList ++ entry)
      else if '/' ∈ name then .error ("alias must not contain '/': ".toList ++ name)
      else if isReservedClaudeModelName casefold name then
        .error ("alias uses the reserved Claude model namespace: ".toList ++ name)
      else if '/' ∉ target then
        .error ("alias target must be an exact provider/model ref: ".toList ++ target)
      else if name ∈ aliases.keys then .error ("duplicate model alias: ".toList ++ name)
      else .ok (aliases.set name target)

def rawEntries (value : List Char) : List (List Char) :=
  (value.map fun c => if c = '\r' ∨ c = '\n' then ',' else c).splitOn ','

def parseModelAliases (value : List Char) : Except (List Char) ModelAliasMap :=
  (rawEntries value).foldlM (addAlias casefold) .empty

/-- The aliases that can be parsed. -/
def WellFormedAliases (aliases : ModelAliasMap) : Prop :=
  ∀ name target, aliases.get? name = some target → '/' ∉ name ∧ BeginsPlain target

theorem beginsPlain_stripped {text : List Char} (hslash : '/' ∈ stripped isSpace text) :
    BeginsPlain (stripped isSpace text) := by
  refine ⟨?_, hslash⟩
  obtain ⟨rest, hrest⟩ := List.rdropWhile_prefix isSpace (text.dropWhile isSpace)
  rw [stripped] at hslash ⊢
  cases hstripped : (text.dropWhile isSpace).rdropWhile isSpace with
  | nil =>
    rw [hstripped] at hslash
    cases hslash
  | cons c kept =>
    rw [hstripped] at hrest
    have hhead := List.head_dropWhile_not isSpace (l := text) (by simp [← hrest])
    simp only [← hrest, List.cons_append, List.head_cons] at hhead
    exact ⟨c, kept, rfl, hhead⟩

theorem addAlias_wellFormed {aliases added : ModelAliasMap} {rawEntry : List Char}
    (haliases : WellFormedAliases aliases) (h : addAlias casefold aliases rawEntry = .ok added) :
    WellFormedAliases added := by
  unfold addAlias at h
  dsimp only at h
  split_ifs at h with hempty
  · cases h
    exact haliases
  · split at h
    · cases h
    · next rawName rawTarget hpart =>
      split_ifs at h with hblank hname hreserved htarget hdup
      cases h
      intro name target hget
      rw [Dict.get?_set] at hget
      split_ifs at hget with hsame
      · cases hget
        exact ⟨hsame ▸ hname, beginsPlain_stripped htarget⟩
      · exact haliases name target hget

theorem parseModelAliases_wellFormed {value : List Char} {aliases : ModelAliasMap}
    (h : parseModelAliases casefold value = .ok aliases) : WellFormedAliases aliases :=
  foldlM_ok_invariant (P := fun _ aliases => WellFormedAliases aliases)
    (fun _ _ _ _ hbefore hstep => addAlias_wellFormed casefold hbefore hstep)
    (fun _ _ hget => by rw [Dict.get?_empty] at hget; cases hget) h

end Parse

end Switchboard.Config
