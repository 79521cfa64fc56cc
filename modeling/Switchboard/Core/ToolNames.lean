import Mathlib
import Switchboard.Library.Dict
import Switchboard.Library.Text

/-!
# Tool names on the wire

The reversible names under which tools are offered to OpenAI-compatible models. Names that are not
portable get an alias.
-/

namespace Switchboard.Core.ToolNames

open Switchboard.Text

def openaiToolNameMaxLength : Nat := 64

def aliasDigestLength : Nat := 16

def portableChar (c : Char) : Bool :=
  c.isAlpha || c.isDigit || c = '_' || c = '-'

/-- `_PORTABLE_TOOL_NAME.fullmatch`. -/
def isPortable (name : List Char) : Bool :=
  1 ≤ name.length && name.length ≤ openaiToolNameMaxLength && name.all portableChar

/-- `_INVALID_TOOL_NAME_CHARACTERS.sub("_", name)`; the flag says whether the last character was
replaced too. -/
def replaceInvalid : Bool → List Char → List Char
  | _, [] => []
  | inRun, c :: name =>
    if portableChar c then c :: replaceInvalid false name
    else if inRun then replaceInvalid true name
    else '_' :: replaceInvalid true name

/-- The characters that aliases do not begin with and their readable parts do not end with. -/
def isFiller (c : Char) : Bool := c = '_' || c = '-'

/-- `text or "tool"`. -/
def orTool (text : List Char) : List Char := if text = [] then ['t', 'o', 'o', 'l'] else text

def readable (name : List Char) : List Char :=
  let text := orTool (stripped isFiller (replaceInvalid false name))
  let maxReadableLength := openaiToolNameMaxLength - aliasDigestLength - 1
  orTool ((text.take maxReadableLength).rdropWhile isFiller)

def hexDigit (n : Fin 16) : Char :=
  ['0', '1', '2', '3', '4', '5', '6', '7', '8', '9', 'a', 'b', 'c', 'd', 'e', 'f'].get n

-- the hexadecimal digits of the digest of a text
variable (sha256 : List Char → List (Fin 16))

def aliasDigest (name : List Char) (attempt : Nat) : List Char :=
  let digestInput := if attempt = 0 then name else name ++ '\x00' :: (Nat.toDigits 10 attempt)
  ((sha256 digestInput).map hexDigit).take aliasDigestLength

/-- `_unique_alias`. The fuel bounds the attempts. -/
def uniqueAlias (name : List Char) (reserved : List (List Char)) :
    Nat → Nat → Option (List Char)
  | 0, _ => none
  | fuel + 1, attempt =>
    let wire := readable name ++ '_' :: aliasDigest sha256 name attempt
    if reserved.contains wire then uniqueAlias name reserved fuel (attempt + 1) else some wire

structure OpenAIToolNameCodec where
  originalToAlias : Dict (List Char) (List Char)
  aliasToOriginal : Dict (List Char) (List Char)
  unchangedNames : List (List Char)

/-- The loop of `from_names` over the names that are not portable. -/
def addAliases (fuel : Nat) :
    List (List Char) → List (List Char) → OpenAIToolNameCodec → Option OpenAIToolNameCodec
  | [], _, codec => some codec
  | name :: names, reserved, codec =>
    match uniqueAlias sha256 name reserved fuel 0 with
    | none => none
    | some wire =>
      addAliases fuel names (wire :: reserved)
        { codec with
          originalToAlias := codec.originalToAlias.set name wire,
          aliasToOriginal := codec.aliasToOriginal.set wire name }

namespace OpenAIToolNameCodec

/-- `from_names`, when every search for an alias ends within the fuel. -/
def fromNames (fuel : Nat) (names : List (List Char)) : Option OpenAIToolNameCodec :=
  let uniqueNames := (names.filter (· ≠ [])).dedup
  let portableNames := uniqueNames.filter isPortable
  let others := (uniqueNames.filter fun name => !isPortable name).insertionSort (· ≤ ·)
  addAliases sha256 fuel others portableNames ⟨.empty, .empty, portableNames⟩

variable (codec : OpenAIToolNameCodec)

def hasAliases : Bool := codec.originalToAlias.entries ≠ []

def encode (name : List Char) : List Char := (codec.originalToAlias.get? name).getD name

def decode (name : List Char) : List Char := (codec.aliasToOriginal.get? name).getD name

def isAlias (value : List Char) : Bool := codec.aliasToOriginal.contains value

def isUnchangedName (value : List Char) : Bool := codec.unchangedNames.contains value

def isAliasPrefix (value : List Char) : Bool :=
  value ≠ [] && codec.aliasToOriginal.keys.any fun wire => wire ≠ value && value.isPrefixOf wire

/-- A name under which a tool of the request is offered. -/
def IsWireName (value : List Char) : Prop :=
  codec.isUnchangedName value = true ∨ codec.isAlias value = true

end OpenAIToolNameCodec

/-! ### Aliases are portable and belong to one name -/

theorem replaceInvalid_portable (inRun : Bool) (name : List Char) :
    ∀ c ∈ replaceInvalid inRun name, portableChar c = true := by
  induction name generalizing inRun with
  | nil => simp [replaceInvalid]
  | cons c name ih =>
    intro e he
    rw [replaceInvalid] at he
    split_ifs at he with hportable hrun
    · obtain rfl | he := List.mem_cons.mp he
      · exact hportable
      · exact ih false e he
    · exact ih true e he
    · obtain rfl | he := List.mem_cons.mp he
      · decide
      · exact ih true e he

theorem orTool_portable {text : List Char} (htext : ∀ c ∈ text, portableChar c = true) :
    ∀ c ∈ orTool text, portableChar c = true := by
  rw [orTool]
  split_ifs
  · exact List.all_eq_true.mp rfl
  · exact htext

theorem readable_portable (name : List Char) : ∀ c ∈ readable name, portableChar c = true := by
  rw [readable]
  apply orTool_portable
  intro c hc
  have htake := List.mem_of_mem_take ((List.rdropWhile_prefix isFiller _).subset hc)
  apply orTool_portable _ c htake
  intro e he
  have hdrop := (List.dropWhile_suffix isFiller).subset
    ((List.rdropWhile_prefix isFiller _).subset he)
  exact replaceInvalid_portable false name e hdrop

theorem readable_length (name : List Char) : (readable name).length ≤ 47 := by
  have htool : ∀ text : List Char, text.length ≤ 47 → (orTool text).length ≤ 47 := by
    intro text htext
    rw [orTool]
    split_ifs
    · decide
    · exact htext
  rw [readable]
  apply htool
  have hle := (List.rdropWhile_prefix isFiller ((orTool (stripped isFiller
    (replaceInvalid false name))).take 47)).length_le
  rw [List.length_take] at hle
  exact hle.trans (min_le_left _ _)

theorem hexDigit_portable (n : Fin 16) : portableChar (hexDigit n) = true := by
  revert n
  decide

theorem uniqueAlias_spec {name wire : List Char} {reserved : List (List Char)}
    {fuel attempt : Nat} (h : uniqueAlias sha256 name reserved fuel attempt = some wire) :
    wire ∉ reserved ∧ isPortable wire = true := by
  induction fuel generalizing attempt with
  | zero => cases h
  | succ fuel ih =>
    rw [uniqueAlias] at h
    split_ifs at h with hreserved
    · exact ih h
    · cases h
      refine ⟨by simpa using hreserved, ?_⟩
      have hchars : ∀ c ∈ aliasDigest sha256 name attempt, portableChar c = true := by
        intro c hc
        obtain ⟨n, _, rfl⟩ := List.mem_map.mp (List.mem_of_mem_take hc)
        exact hexDigit_portable n
      have hlen : (aliasDigest sha256 name attempt).length ≤ 16 := by
        rw [aliasDigest, List.length_take]
        exact min_le_left _ _
      have hreadable := readable_length name
      have hall : (readable name ++ '_' :: aliasDigest sha256 name attempt).all portableChar
          = true := by
        rw [List.all_eq_true]
        intro c hc
        obtain hc | hc := List.mem_append.mp hc
        · exact readable_portable name c hc
        · obtain rfl | hc := List.mem_cons.mp hc
          · decide
          · exact hchars c hc
      rw [isPortable, hall]
      simp only [List.length_append, List.length_cons, openaiToolNameMaxLength, Bool.and_true,
        Bool.and_eq_true, decide_eq_true_eq]
      omega

namespace OpenAIToolNameCodec

/-- What `from_names` makes of the names of a request. -/
structure WellFormed (names : List (List Char)) (codec : OpenAIToolNameCodec) : Prop where
  unchanged : ∀ name ∈ codec.unchangedNames, name ∈ names ∧ isPortable name = true
  original : ∀ {wire name}, codec.aliasToOriginal.get? wire = some name →
    name ∈ names ∧ name ≠ [] ∧ isPortable name = false
  alias_portable : ∀ {wire name}, codec.aliasToOriginal.get? wire = some name →
    isPortable wire = true
  alias_changed : ∀ {wire name}, codec.aliasToOriginal.get? wire = some name →
    wire ∉ codec.unchangedNames
  injective : ∀ {wire other name}, codec.aliasToOriginal.get? wire = some name →
    codec.aliasToOriginal.get? other = some name → wire = other
  hasAliases : ∀ {wire name}, codec.aliasToOriginal.get? wire = some name →
    codec.hasAliases = true

/-- Aliases are reserved, and the names that are still to come have none. -/
structure Adding (names pending reserved : List (List Char)) (codec : OpenAIToolNameCodec) : Prop
    extends WellFormed names codec where
  nodup : pending.Nodup
  pending_mem : ∀ name ∈ pending, name ∈ names ∧ name ≠ [] ∧ isPortable name = false
  pending_new : ∀ {wire name}, codec.aliasToOriginal.get? wire = some name → name ∉ pending
  reserved_alias : ∀ {wire name}, codec.aliasToOriginal.get? wire = some name → wire ∈ reserved
  reserved_unchanged : ∀ name ∈ codec.unchangedNames, name ∈ reserved

theorem Adding.add {names pending reserved : List (List Char)} {name wire : List Char}
    {codec : OpenAIToolNameCodec} (h : Adding names (name :: pending) reserved codec)
    (hwire : wire ∉ reserved) (hportable : isPortable wire = true) :
    Adding names pending (wire :: reserved)
      { codec with
        originalToAlias := codec.originalToAlias.set name wire,
        aliasToOriginal := codec.aliasToOriginal.set wire name } := by
  have hcases : ∀ {other original},
      (codec.aliasToOriginal.set wire name).get? other = some original →
      other = wire ∧ original = name ∨
        other ≠ wire ∧ codec.aliasToOriginal.get? other = some original := by
    intro other original hget
    rw [Dict.get?_set] at hget
    split_ifs at hget with heq
    · exact .inl ⟨heq, (Option.some.inj hget).symm⟩
    · exact .inr ⟨heq, hget⟩
  have hnodup := List.nodup_cons.mp h.nodup
  have hmem := h.pending_mem name List.mem_cons_self
  constructor
  · constructor
    · exact h.unchanged
    · intro other original hget
      obtain ⟨_, rfl⟩ | ⟨_, hold⟩ := hcases hget
      · exact hmem
      · exact h.original hold
    · intro other original hget
      obtain ⟨rfl, _⟩ | ⟨_, hold⟩ := hcases hget
      · exact hportable
      · exact h.alias_portable hold
    · intro other original hget
      obtain ⟨rfl, _⟩ | ⟨_, hold⟩ := hcases hget
      · exact fun hunchanged => hwire (h.reserved_unchanged _ hunchanged)
      · exact h.alias_changed hold
    · intro first second original hfirst hsecond
      obtain ⟨rfl, rfl⟩ | ⟨_, holdFirst⟩ := hcases hfirst
      · obtain ⟨rfl, _⟩ | ⟨_, holdSecond⟩ := hcases hsecond
        · rfl
        · exact absurd List.mem_cons_self (h.pending_new holdSecond)
      · obtain ⟨rfl, rfl⟩ | ⟨_, holdSecond⟩ := hcases hsecond
        · exact absurd List.mem_cons_self (h.pending_new holdFirst)
        · exact h.injective holdFirst holdSecond
    · intro other original _
      have hkey := (Dict.mem_keys_set codec.originalToAlias name name wire).mpr (.inl rfl)
      rw [OpenAIToolNameCodec.hasAliases, decide_eq_true_eq]
      intro hempty
      rw [Dict.keys, hempty] at hkey
      cases hkey
  · exact hnodup.2
  · exact fun other hother => h.pending_mem other (List.mem_cons_of_mem _ hother)
  · intro other original hget hpending
    obtain ⟨_, rfl⟩ | ⟨_, hold⟩ := hcases hget
    · exact hnodup.1 hpending
    · exact h.pending_new hold (List.mem_cons_of_mem _ hpending)
  · intro other original hget
    obtain ⟨rfl, _⟩ | ⟨_, hold⟩ := hcases hget
    · exact List.mem_cons_self
    · exact List.mem_cons_of_mem _ (h.reserved_alias hold)
  · exact fun other hother => List.mem_cons_of_mem _ (h.reserved_unchanged other hother)

theorem Adding.addAliases {fuel : Nat} {names pending reserved : List (List Char)}
    {codec result : OpenAIToolNameCodec} (h : Adding names pending reserved codec)
    (hresult : addAliases sha256 fuel pending reserved codec = some result) :
    WellFormed names result := by
  induction pending generalizing reserved codec with
  | nil =>
    cases hresult
    exact h.toWellFormed
  | cons name pending ih =>
    rw [ToolNames.addAliases] at hresult
    cases hwire : uniqueAlias sha256 name reserved fuel 0 with
    | none => simp [hwire] at hresult
    | some wire =>
      simp only [hwire] at hresult
      obtain ⟨hnew, hportable⟩ := uniqueAlias_spec sha256 hwire
      exact ih (h.add hnew hportable) hresult

/-- The names to which `from_names` gives aliases, sorted. -/
def nonPortableNames (names : List (List Char)) : List (List Char) :=
  (((names.filter (· ≠ [])).dedup).filter fun name => !isPortable name).insertionSort (· ≤ ·)

def portableNames (names : List (List Char)) : List (List Char) :=
  ((names.filter (· ≠ [])).dedup).filter isPortable

theorem mem_nonPortableNames {names : List (List Char)} {name : List Char} :
    name ∈ nonPortableNames names ↔ name ∈ names ∧ name ≠ [] ∧ isPortable name = false := by
  rw [nonPortableNames, (List.perm_insertionSort _ _).mem_iff, List.mem_filter, List.mem_dedup,
    List.mem_filter]
  simp [and_assoc]

theorem adding_start (names : List (List Char)) :
    Adding names (nonPortableNames names) (portableNames names)
      ⟨.empty, .empty, portableNames names⟩ := by
  have hnone : ∀ {wire name},
      (Dict.empty : Dict (List Char) (List Char)).get? wire ≠ some name := by
    simp
  constructor
  · constructor
    · intro name hname
      obtain ⟨hname, hportable⟩ := List.mem_filter.mp hname
      exact ⟨(List.mem_filter.mp (List.mem_dedup.mp hname)).1, hportable⟩
    all_goals exact fun hget => absurd hget hnone
  · exact (List.perm_insertionSort _ _).nodup_iff.mpr ((List.nodup_dedup _).filter _)
  · exact fun name hname => mem_nonPortableNames.mp hname
  · exact fun hget => absurd hget hnone
  · exact fun hget => absurd hget hnone
  · exact fun name hname => hname

theorem wellFormed_fromNames {fuel : Nat} {names : List (List Char)}
    {codec : OpenAIToolNameCodec} (h : fromNames sha256 fuel names = some codec) :
    WellFormed names codec :=
  Adding.addAliases sha256 (adding_start names) h

end OpenAIToolNameCodec

namespace OpenAIToolNameCodec

variable {codec : OpenAIToolNameCodec} {names : List (List Char)}

theorem isAlias_iff {value : List Char} :
    codec.isAlias value = true ↔ ∃ name, codec.aliasToOriginal.get? value = some name :=
  Dict.contains_iff

theorem decode_of_not_alias {value : List Char} (h : codec.isAlias value = false) :
    codec.decode value = value := by
  rw [decode]
  cases hget : codec.aliasToOriginal.get? value with
  | none => rfl
  | some name =>
    rw [isAlias_iff.mpr ⟨name, hget⟩] at h
    cases h

theorem WellFormed.hasAliases_of_alias (hwf : WellFormed names codec) {value : List Char}
    (h : codec.isAlias value = true) : codec.hasAliases = true := by
  obtain ⟨name, hget⟩ := isAlias_iff.mp h
  exact hwf.hasAliases hget

theorem WellFormed.hasAliases_of_prefix (hwf : WellFormed names codec) {value : List Char}
    (h : codec.isAliasPrefix value = true) : codec.hasAliases = true := by
  rw [isAliasPrefix, Bool.and_eq_true, List.any_eq_true] at h
  obtain ⟨_, wire, hwire, _⟩ := h
  obtain ⟨name, hget⟩ := Dict.mem_keys.mp hwire
  exact hwf.hasAliases hget

theorem WellFormed.not_alias_of_unchanged (hwf : WellFormed names codec) {value : List Char}
    (h : codec.isUnchangedName value = true) : codec.isAlias value = false := by
  rw [isUnchangedName, List.contains_iff_mem] at h
  cases halias : codec.isAlias value with
  | false => rfl
  | true =>
    obtain ⟨name, hget⟩ := isAlias_iff.mp halias
    exact absurd h (hwf.alias_changed hget)

theorem WellFormed.portable_wire (hwf : WellFormed names codec) {value : List Char}
    (h : codec.IsWireName value) : isPortable value = true := by
  obtain hunchanged | halias := h
  · rw [isUnchangedName, List.contains_iff_mem] at hunchanged
    exact (hwf.unchanged value hunchanged).2
  · obtain ⟨name, hget⟩ := isAlias_iff.mp halias
    exact hwf.alias_portable hget

/-- Only one name on the wire stands for a name of the request: another text decodes to it only
when it is not portable. -/
theorem WellFormed.decode_injective (hwf : WellFormed names codec) {wire value : List Char}
    (hwire : codec.IsWireName wire) (hportable : isPortable value = true)
    (hdecode : codec.decode value = codec.decode wire) : value = wire := by
  cases hvalue : codec.isAlias value with
  | true =>
    obtain ⟨name, hname⟩ := isAlias_iff.mp hvalue
    have hvalueName : codec.decode value = name := by rw [decode, hname]; rfl
    cases halias : codec.isAlias wire with
    | true =>
      obtain ⟨other, hother⟩ := isAlias_iff.mp halias
      have hwireName : codec.decode wire = other := by rw [decode, hother]; rfl
      rw [hvalueName, hwireName] at hdecode
      subst hdecode
      exact hwf.injective hname hother
    | false =>
      rw [hvalueName, decode_of_not_alias halias] at hdecode
      have hwirePortable := hwf.portable_wire hwire
      rw [← hdecode, (hwf.original hname).2.2] at hwirePortable
      cases hwirePortable
  | false =>
    rw [decode_of_not_alias hvalue] at hdecode
    cases halias : codec.isAlias wire with
    | true =>
      obtain ⟨other, hother⟩ := isAlias_iff.mp halias
      have hwireName : codec.decode wire = other := by rw [decode, hother]; rfl
      rw [hdecode, hwireName, (hwf.original hother).2.2] at hportable
      cases hportable
    | false => rw [hdecode, decode_of_not_alias halias]

end OpenAIToolNameCodec

theorem portable_toNat {c : Char} (h : portableChar c = true) :
    0x2d ≤ c.toNat ∧ c.toNat ≤ 0x7a := by
  simp only [portableChar, Char.isAlpha, Char.isUpper, Char.isLower, Char.isDigit,
    Bool.or_eq_true, Bool.and_eq_true, decide_eq_true_eq, ge_iff_le, UInt32.le_iff_toNat_le] at h
  rw [Char.toNat]
  obtain (((h | h) | h) | rfl) | rfl := h
  · have hfirst : ('A'.val.toNat) = 65 := rfl
    have hlast : ('Z'.val.toNat) = 90 := rfl
    omega
  · have hfirst : ('a'.val.toNat) = 97 := rfl
    have hlast : ('z'.val.toNat) = 122 := rfl
    omega
  · have hfirst : ('0'.val.toNat) = 48 := rfl
    have hlast : ('9'.val.toNat) = 57 := rfl
    omega
  · decide
  · decide

theorem isSpace_of_portable {c : Char} (h : portableChar c = true) : isSpace c = false := by
  obtain ⟨hlow, hhigh⟩ := portable_toNat h
  simp [isSpace]
  omega

theorem stripped_of_portable {text : List Char} (h : ∀ c ∈ text, portableChar c = true) :
    stripped isSpace text = text := by
  have hspace : ∀ c ∈ text, ¬ isSpace c = true := by
    intro c hc
    rw [isSpace_of_portable (h c hc)]
    decide
  have hdrop : text.dropWhile isSpace = text := by
    cases text with
    | nil => rfl
    | cons c text => exact List.dropWhile_cons_of_neg (hspace c List.mem_cons_self)
  rw [stripped, hdrop, List.rdropWhile_eq_self_iff]
  intro hne
  exact hspace _ (List.getLast_mem hne)

end Switchboard.Core.ToolNames
