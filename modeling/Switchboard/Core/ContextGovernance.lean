import Switchboard.Core.ChatFailures
import Switchboard.Core.ContextGovernor

/-!
# What the context governor keeps

A redirected text fits the limit, marker included, so governing again leaves it alone. All other
blocks are kept. What is lost with a text block that is replaced or dropped are the blocks in its
other fields.
-/

namespace Switchboard.Core.ContextGovernor

open Switchboard.Core.Anthropic Switchboard.Utf8

/-! ## The size of a redirected text -/

theorem encode_length (text : String) : (encode text).length = text.utf8ByteSize := by
  rw [encode, utf8ByteSize_eq, List.length_flatMap]
  simp [size]

theorem clipUtf8_size (text : String) (maxBytes : ℕ) (fromEnd : Bool) :
    (clipUtf8 text maxBytes fromEnd).utf8ByteSize ≤ maxBytes := by
  unfold clipUtf8
  simp only
  split_ifs with hfits
  · rwa [← encode_length]
  · refine (utf8ByteSize_decodeIgnore _).trans ?_
    rw [List.length_drop]
    omega
  · exact (utf8ByteSize_decodeIgnore _).trans (List.length_take_le _ _)

theorem size_of_ascii {text : List Char} (h : ∀ c ∈ text, c.utf8Size = 1) :
    size text = text.length := by
  induction text with
  | nil => rfl
  | cons c text ih =>
    rw [size_cons, h c List.mem_cons_self, ih fun d hd => h d (List.mem_cons_of_mem _ hd),
      List.length_cons, Nat.add_comm]

theorem utf8Size_of_isDigit {c : Char} (h : c.isDigit = true) : c.utf8Size = 1 := by
  rw [Char.utf8Size_eq_one_iff]
  simp only [Char.isDigit, Bool.and_eq_true, decide_eq_true_eq] at h
  exact UInt32.le_trans h.2 (by decide)

/-- The number that is written into the header is as long as its place. -/
theorem utf8ByteSize_tenDigits {n : ℕ} (h : n < 10 ^ 10) : (tenDigits n).utf8ByteSize = 10 := by
  have hlength : n.repr.length ≤ 10 := (Nat.length_repr_le_iff (by decide)).mpr h
  have hdigits : ∀ c ∈ n.repr.toList, c.utf8Size = 1 := by
    intro c hc
    rw [Nat.repr_eq_ofList_toDigits, String.toList_ofList] at hc
    exact utf8Size_of_isDigit (Nat.isDigit_of_mem_toDigits (by decide) (by decide) hc)
  have hzeros : ∀ c ∈ List.replicate (10 - n.repr.length) '0', c.utf8Size = 1 := by
    intro c hc
    rw [List.eq_of_mem_replicate hc]
    decide
  have htext : (tenDigits n).toList = List.replicate (10 - n.repr.length) '0' ++ n.repr.toList := by
    simp [tenDigits]
  rw [utf8ByteSize_eq, htext, size_append, size_of_ascii hzeros, size_of_ascii hdigits,
    List.length_replicate, String.length_toList]
  omega

theorem redirectedText_size {text path digest replacement : String} {bytes tokens maxBytes : ℕ}
    (hmax : maxBytes ≤ maxToolResultMaxBytes)
    (h : redirectedText text bytes tokens path digest maxBytes = .ok replacement) :
    replacement.utf8ByteSize ≤ maxBytes := by
  unfold redirectedText at h
  simp only [encode_length] at h
  split_ifs at h with hroom
  have heq := Except.ok.inj h
  generalize "[FCC context governor: tool result redirected]\n" ++ _ ++ _ ++ _ ++ _ ++ _ ++ _ =
    header at hroom heq
  generalize "\n--- excerpt end ---" = footer at hroom heq
  generalize "\n... omitted middle ...\n" = separator at hroom heq
  set excerptBudget := ((maxBytes : ℤ) - header.utf8ByteSize - footer.utf8ByteSize).toNat -
    separator.utf8ByteSize with hbudget
  generalize hhead : clipUtf8 text (excerptBudget / 2) false = head at heq
  generalize htail : clipUtf8 text (excerptBudget - excerptBudget / 2) true = tail at heq
  have hheadSize : head.utf8ByteSize ≤ excerptBudget / 2 := hhead ▸ clipUtf8_size _ _ _
  have htailSize : tail.utf8ByteSize ≤ excerptBudget - excerptBudget / 2 :=
    htail ▸ clipUtf8_size _ _ _
  have hsize : (header ++ head ++ separator ++ tail ++ footer).utf8ByteSize ≤ maxBytes := by
    simp only [String.utf8ByteSize_append]
    omega
  have hdigits := utf8ByteSize_tenDigits (n := (header ++ head ++ separator ++ tail ++
    footer).utf8ByteSize) (by rw [maxToolResultMaxBytes] at hmax; omega)
  rw [← heq, utf8ByteSize_replace (by decide)]
  · exact hsize
  · rw [String.utf8ByteSize_append, hdigits]
    decide

/-- The marker fits with a path, a digest and numbers that leave room for it. -/
theorem redirectedText_returns {text path digest : String} {bytes tokens maxBytes : ℕ}
    (h : 337 + bytes.repr.utf8ByteSize + tokens.repr.utf8ByteSize + path.utf8ByteSize +
      digest.utf8ByteSize < maxBytes) :
    ∃ replacement, redirectedText text bytes tokens path digest maxBytes = .ok replacement := by
  have hmarker : (["[FCC context governor: tool result redirected]\n", "original_bytes=",
      " visible_bytes=0000000000 ", "original_tokens=", " ", "artifact_sha256=",
      " artifact_path=", "\n", "The complete redacted result is outside model context. Retrieve a ",
      "bounded slice from artifact_path before relying on omitted content.\n",
      "--- excerpt begin ---\n", "\n--- excerpt end ---",
      "\n... omitted middle ...\n"].map String.utf8ByteSize).sum = 337 := by decide
  simp only [List.map_cons, List.map_nil, List.sum_cons, List.sum_nil] at hmarker
  unfold redirectedText
  simp only [encode_length, String.utf8ByteSize_append, toString]
  rw [if_neg]
  · exact ⟨_, rfl⟩
  · omega

section Walk

variable {σ : Type} {artifacts : Artifacts σ} {config : ContextGovernorConfig}
  {dumps : Json → String} {s s' : σ}

theorem redirect_size {toolUseId text mode check : String}
    {redirected : String × ContextGovernanceRecord}
    (h : redirect artifacts config toolUseId text mode check s = .ok (redirected, s')) :
    redirected.1.utf8ByteSize ≤ config.toolResultMaxBytes := by
  unfold redirect at h
  obtain ⟨⟨artifact, t⟩, -, h⟩ := bind_eq_ok.mp h
  obtain ⟨replacement, hreplacement, h⟩ := bind_eq_ok.mp h
  cases h
  exact redirectedText_size config.bounds.2 hreplacement

/-! ## Media and tool search blocks -/

/-- A media block, or metadata of a tool search. -/
def isProtected (block : Json) : Bool :=
  isMediaBlockType (block.getD "type") || isMetadata block

mutual

/-- The media and tool search blocks inside a value, at any depth and in their order. -/
def protectedBlocks : Json → List Json
  | .obj fields =>
    if isProtected (.obj fields) then [.obj fields] else protectedFields fields
  | .arr items => protectedItems items
  | _ => []

def protectedItems : List Json → List Json
  | [] => []
  | item :: items => protectedBlocks item ++ protectedItems items

def protectedFields : List (String × Json) → List Json
  | [] => []
  | (_, value) :: fields => protectedBlocks value ++ protectedFields fields

end

mutual

/-- Where the governor finds media, there is a block. -/
theorem protected_of_containsMediaContent : ∀ {value : Json},
    containsMediaContent value = .ok true → protectedBlocks value ≠ []
  | .obj fields, h => by
    rw [containsMediaContent] at h
    obtain ⟨-, -, h⟩ := bind_eq_ok.mp h
    rw [protectedBlocks]
    split_ifs with hprotected
    · exact List.cons_ne_nil _ _
    · have hmedia : isMediaBlockType ((fields.lookup "type").getD .null) = false := by
        simp only [isProtected, Bool.or_eq_true, not_or, Bool.not_eq_true] at hprotected
        exact hprotected.1
      rw [hmedia] at h
      exact protected_of_containsMediaFields h
  | .arr items, h => by
    rw [containsMediaContent] at h
    rw [protectedBlocks]
    exact protected_of_containsMediaItems h
  | .null, h | .bool _, h | .int _, h | .float _, h | .str _, h => by
    simp [containsMediaContent] at h

theorem protected_of_containsMediaItems : ∀ {items : List Json},
    containsMediaItems items = .ok true → protectedItems items ≠ []
  | [], h => by simp [containsMediaItems] at h
  | item :: items, h => by
    rw [containsMediaItems] at h
    obtain ⟨found, hfound, h⟩ := bind_eq_ok.mp h
    rw [protectedItems]
    cases found with
    | true => simp [protected_of_containsMediaContent hfound]
    | false => simp [protected_of_containsMediaItems h]

theorem protected_of_containsMediaFields : ∀ {fields : List (String × Json)},
    containsMediaFields fields = .ok true → protectedFields fields ≠ []
  | [], h => by simp [containsMediaFields] at h
  | (_, value) :: fields, h => by
    rw [containsMediaFields] at h
    obtain ⟨found, hfound, h⟩ := bind_eq_ok.mp h
    rw [protectedFields]
    cases found with
    | true => simp [protected_of_containsMediaContent hfound]
    | false => simp [protected_of_containsMediaFields h]

end

/-! ## A text block with another text -/

theorem lookup_of_getD {fields : List (String × Json)} {key text : String}
    (h : (Json.obj fields).getD key = .str text) : fields.lookup key = some (.str text) := by
  rw [Json.getD, Json.get?_obj] at h
  cases hfield : fields.lookup key with
  | none =>
    rw [hfield] at h
    cases h
  | some value =>
    rw [hfield] at h
    exact congrArg some h

theorem text_block {item : Json} (h : isText "text" (item.getD "type") = true) :
    ∃ fields, item = .obj fields ∧ fields.lookup "type" = some (.str "text") := by
  have hstr : item.getD "type" = .str "text" := by
    cases htype : item.getD "type" with
    | str t =>
      rw [htype] at h
      simp only [isText, decide_eq_true_eq] at h
      rw [h]
    | _ =>
      rw [htype] at h
      cases h
  cases item with
  | obj fields => exact ⟨fields, rfl, lookup_of_getD hstr⟩
  | _ => cases hstr

theorem lookup_setField (key k : String) (value : Json) (fields : List (String × Json)) :
    (setField key value fields).lookup k = if k = key then some value else fields.lookup k := by
  have hcons : ∀ (j : String) (v : Json) (rest : List (String × Json)),
      ((j, v) :: rest).lookup k = if k = j then some v else rest.lookup k := by
    intro j v rest
    rw [List.lookup_cons]
    by_cases hk : k = j
    · simp [hk]
    · rw [if_neg hk, beq_eq_false_iff_ne.mpr hk]
  induction fields with
  | nil => rw [setField, hcons]
  | cons field fields ih =>
    obtain ⟨j, v⟩ := field
    rw [setField, hcons]
    by_cases hj : j = key
    · rw [if_pos hj, hcons, hj]
      split_ifs <;> rfl
    · rw [if_neg hj, hcons, ih]
      by_cases hk : k = j
      · simp [hk, hj]
      · simp [hk]

/-- A text holds no blocks. -/
theorem fields_setText {fields : List (String × Json)} {text : String} (replacement : String)
    (h : fields.lookup "text" = some (.str text)) :
    protectedFields (setField "text" (.str replacement) fields) = protectedFields fields ∧
      containsMediaFields (setField "text" (.str replacement) fields) =
        containsMediaFields fields := by
  induction fields with
  | nil => cases h
  | cons field fields ih =>
    obtain ⟨k, v⟩ := field
    rw [setField]
    by_cases hk : k = "text"
    · subst hk
      rw [List.lookup_cons_self] at h
      cases h
      rw [if_pos rfl]
      simp [protectedFields, protectedBlocks, containsMediaFields, containsMediaContent]
    · have hbeq : ("text" == k) = false := by simpa using Ne.symm hk
      rw [List.lookup_cons, hbeq] at h
      obtain ⟨hprotected, hmedia⟩ := ih h
      rw [if_neg hk]
      simp [protectedFields, containsMediaFields, hprotected, hmedia]

/-- What the walks read of a text block whose text is replaced. -/
structure SameBlock (block block' : Json) (replacement : String) : Prop where
  blockType : block'.getD "type" = block.getD "type"
  text : block'.getD "text" = .str replacement
  blocks : protectedBlocks block' = protectedBlocks block
  media : containsMediaContent block' = containsMediaContent block

theorem copyTextBlock_same {item : Json} {text : String} (replacement : String)
    (htype : isText "text" (item.getD "type") = true) (htext : item.getD "text" = .str text) :
    SameBlock item (copyTextBlock item replacement) replacement := by
  obtain ⟨fields, rfl, hlookup⟩ := text_block htype
  have hold : fields.lookup "text" = some (.str text) := lookup_of_getD htext
  obtain ⟨hfields, hmedia⟩ := fields_setText replacement hold
  have hplain : ∀ fields' : List (String × Json), fields'.lookup "type" = some (.str "text") →
      isProtected (.obj fields') = false := by
    intro fields' h
    have hget : (Json.obj fields').getD "type" = .str "text" := by
      simp [Json.getD, Json.get?, h]
    have hserver : isText "server_tool_use" (.str "text") = false := by decide
    simp only [isProtected, isMetadata, hget, hserver, Bool.false_and]
    decide
  have hnew : (setField "text" (.str replacement) fields).lookup "type" =
      some (.str "text") := by
    rw [lookup_setField, if_neg (by decide), hlookup]
  refine ⟨?_, ?_, ?_, ?_⟩
  · simp [copyTextBlock, Json.getD, Json.get?, hnew, hlookup]
  · simp [copyTextBlock, Json.getD, Json.get?, lookup_setField]
  · simp [copyTextBlock, protectedBlocks, hplain _ hnew, hplain _ hlookup, hfields]
  · rw [copyTextBlock, containsMediaContent, containsMediaContent, hnew, hlookup, hmedia]

/-! ## The texts of a list -/

/-- The text blocks that `replaceTexts` drops. -/
def droppedTexts : Bool → List Json → List Json
  | _, [] => []
  | inserted, item :: items =>
    if isText "text" (item.getD "type") then
      if inserted then item :: droppedTexts true items else droppedTexts true items
    else droppedTexts inserted items

theorem directTexts_text {item : Json} {items : List Json} {texts : List String}
    (htype : isText "text" (item.getD "type") = true)
    (h : directTexts (item :: items) = .ok (some texts)) :
    ∃ text rest, item.getD "text" = .str text ∧ directTexts items = .ok (some rest) ∧
      texts = text :: rest := by
  rw [directTexts] at h
  simp only [htype, if_true] at h
  split at h
  · next text htext =>
    obtain ⟨rest, hrest, h⟩ := bind_eq_ok.mp h
    cases rest with
    | none => cases h
    | some rest =>
      cases h
      exact ⟨text, rest, htext, hrest, rfl⟩
  · cases h

theorem directTexts_other {item : Json} {items : List Json} {texts : List String}
    (htype : isText "text" (item.getD "type") = false)
    (h : directTexts (item :: items) = .ok (some texts)) :
    directTexts items = .ok (some texts) ∧ ∀ items', directTexts (item :: items') =
      directTexts items' := by
  rw [directTexts] at h
  simp only [htype, Bool.false_eq_true, if_false] at h
  split_ifs at h with hmedia
  · refine ⟨h, fun items' => ?_⟩
    rw [directTexts]
    simp [htype, hmedia]
  · obtain ⟨found, hfound, h⟩ := bind_eq_ok.mp h
    cases found with
    | false => cases h
    | true =>
      refine ⟨h, fun items' => ?_⟩
      rw [directTexts]
      simp only [htype, Bool.false_eq_true, if_false, hmedia, hfound]
      rfl

/-- The blocks inside the list are those of the new list and of the texts that it drops. -/
theorem length_protectedItems {items : List Json} {texts : List String} (replacement : String)
    (inserted : Bool) (h : directTexts items = .ok (some texts)) :
    (protectedItems items).length =
      (protectedItems (replaceTexts replacement inserted items)).length +
        (protectedItems (droppedTexts inserted items)).length := by
  induction items generalizing inserted texts with
  | nil => rfl
  | cons item items ih =>
    rw [replaceTexts, droppedTexts]
    cases htype : isText "text" (item.getD "type") with
    | true =>
      obtain ⟨text, rest, htext, hrest, -⟩ := directTexts_text htype h
      have hsame := copyTextBlock_same replacement htype htext
      have hlater := ih true hrest
      cases inserted <;>
        simp only [if_true, Bool.false_eq_true, if_false, protectedItems, List.length_append,
          hsame.blocks] <;> omega
    | false =>
      have hlater := ih inserted (directTexts_other htype h).1
      simp only [Bool.false_eq_true, if_false, protectedItems, List.length_append]
      omega

theorem protectedItems_replaceTexts {items : List Json} {texts : List String}
    (replacement : String) (inserted : Bool) (h : directTexts items = .ok (some texts)) :
    protectedItems (replaceTexts replacement inserted items) = protectedItems items ↔
      protectedItems (droppedTexts inserted items) = [] := by
  constructor
  · intro heq
    have hlength := length_protectedItems replacement inserted h
    rw [heq] at hlength
    exact List.eq_nil_of_length_eq_zero (by omega)
  · intro hnone
    induction items generalizing inserted texts with
    | nil => rfl
    | cons item items ih =>
      rw [replaceTexts]
      rw [droppedTexts] at hnone
      cases htype : isText "text" (item.getD "type") with
      | true =>
        obtain ⟨text, rest, htext, hrest, -⟩ := directTexts_text htype h
        have hsame := copyTextBlock_same replacement htype htext
        cases inserted with
        | true =>
          simp only [htype, if_true, protectedItems, List.append_eq_nil_iff] at hnone
          simp [protectedItems, hnone.1, ih true hrest hnone.2]
        | false =>
          simp only [htype, if_true, Bool.false_eq_true, if_false] at hnone
          simp [protectedItems, hsame.blocks, ih true hrest hnone]
      | false =>
        simp only [htype, Bool.false_eq_true, if_false] at hnone
        simp [protectedItems, ih inserted (directTexts_other htype h).1 hnone]

/-- Media that is not in a dropped text is found again. -/
theorem containsMediaItems_replaceTexts {items : List Json} {texts : List String}
    (replacement : String) (inserted : Bool) (h : directTexts items = .ok (some texts))
    (hnone : protectedItems (droppedTexts inserted items) = [])
    (hmedia : containsMediaItems items = .ok true) :
    containsMediaItems (replaceTexts replacement inserted items) = .ok true := by
  induction items generalizing inserted texts with
  | nil => cases hmedia
  | cons item items ih =>
    rw [containsMediaItems] at hmedia
    obtain ⟨found, hfound, hmedia⟩ := bind_eq_ok.mp hmedia
    rw [replaceTexts]
    rw [droppedTexts] at hnone
    cases htype : isText "text" (item.getD "type") with
    | true =>
      obtain ⟨text, rest, htext, hrest, -⟩ := directTexts_text htype h
      have hsame := copyTextBlock_same replacement htype htext
      cases inserted with
      | true =>
        simp only [htype, if_true, protectedItems, List.append_eq_nil_iff] at hnone ⊢
        cases found with
        | true => exact absurd hnone.1 (protected_of_containsMediaContent hfound)
        | false => exact ih true hrest hnone.2 hmedia
      | false =>
        simp only [htype, if_true, Bool.false_eq_true, if_false] at hnone ⊢
        rw [containsMediaItems, hsame.media, hfound]
        cases found with
        | true => rfl
        | false => exact ih true hrest hnone hmedia
    | false =>
      simp only [htype, Bool.false_eq_true, if_false] at hnone ⊢
      rw [containsMediaItems, hfound]
      cases found with
      | true => rfl
      | false => exact ih inserted (directTexts_other htype h).1 hnone hmedia

/-- One direct text is left, unless there was none. -/
theorem directTexts_replaceTexts {items : List Json} {texts : List String}
    (replacement : String) (inserted : Bool) (h : directTexts items = .ok (some texts)) :
    directTexts (replaceTexts replacement inserted items) =
      .ok (some (if inserted ∨ texts = [] then [] else [replacement])) := by
  induction items generalizing inserted texts with
  | nil =>
    cases h
    simp [replaceTexts, directTexts]
  | cons item items ih =>
    rw [replaceTexts]
    cases htype : isText "text" (item.getD "type") with
    | true =>
      obtain ⟨text, rest, htext, hrest, rfl⟩ := directTexts_text htype h
      have hsame := copyTextBlock_same replacement htype htext
      have hlater := ih true hrest
      cases inserted with
      | true => simpa using hlater
      | false =>
        simp only [if_true, Bool.false_eq_true, if_false, true_or] at hlater ⊢
        rw [directTexts]
        simp only [hsame.blockType, htype, hsame.text, if_true, hlater]
        simp
    | false =>
      obtain ⟨hrest, hsame⟩ := directTexts_other htype h
      simp only [Bool.false_eq_true, if_false]
      rw [hsame]
      exact ih inserted hrest

/-- An item that is no text stays. -/
theorem textOnlyItems_replaceTexts {items : List Json} {texts : List String}
    (replacement : String) (inserted : Bool) (h : directTexts items = .ok (some texts))
    (hnone : textOnlyItems items = none) :
    textOnlyItems (replaceTexts replacement inserted items) = none := by
  induction items generalizing inserted texts with
  | nil => cases hnone
  | cons item items ih =>
    rw [replaceTexts]
    cases htype : isText "text" (item.getD "type") with
    | true =>
      obtain ⟨text, rest, htext, hrest, -⟩ := directTexts_text htype h
      have hsame := copyTextBlock_same replacement htype htext
      rw [textOnlyItems] at hnone
      simp only [htype, htext, if_true, Option.map_eq_none_iff] at hnone
      cases inserted with
      | true => simpa using ih true hrest hnone
      | false =>
        simp only [if_true, Bool.false_eq_true, if_false]
        rw [textOnlyItems]
        simp [hsame.blockType, htype, hsame.text, ih true hrest hnone]
    | false =>
      simp only [Bool.false_eq_true, if_false]
      rw [textOnlyItems]
      simp [htype]

/-! ## One tool result -/

theorem normalizedContent_idem (content : ResultContent) :
    normalizedContent (normalizedContent content) = normalizedContent content := by
  cases content with
  | str text => rfl
  | list items => rfl
  | dict fields =>
    rw [normalizedContent]
    split
    · rfl
    · next h =>
      rw [normalizedContent]
      split
      · next items hitems => exact absurd hitems (h items)
      · rfl

/-- The direct text of a content is too long. `content` is what an envelope holds. -/
inductive Redirects (config : ContextGovernorConfig) : ResultContent → Prop
  | textOnly {content text} : textOnlyContent content = some text →
      config.toolResultMaxBytes < (encode text).length → Redirects config content
  | mixedMedia {items texts} : textOnlyItems items = none → config.preserveMedia = true →
      containsMediaItems items = .ok true → directTexts items = .ok (some texts) →
      config.toolResultMaxBytes < (encode (String.join texts)).length →
      Redirects config (.list items)

/-- The text blocks that are not in a redirected content any more. -/
def textsReplaced : ResultContent → List Json
  | .list items => if (textOnlyItems items).isSome then items else droppedTexts false items
  | _ => []

/-- A content that governing leaves alone, whatever the artifacts are. -/
def Settled (artifacts : Artifacts σ) (config : ContextGovernorConfig) (dumps : Json → String)
    (result : ToolResult) : Prop :=
  ∀ s, governToolResult artifacts config dumps result s = .ok ((result, []), s)

theorem settled_of_short {result : ToolResult} {text : String}
    (hcontent : normalizedContent result.content = result.content)
    (htext : textOnlyContent result.content = some text)
    (hshort : (encode text).length ≤ config.toolResultMaxBytes) :
    Settled artifacts config dumps result := by
  intro s
  rw [governToolResult]
  simp only [hcontent, htext, hshort, if_true]
  rfl

/-- What governing makes of the content of a tool result. -/
inductive Outcome (artifacts : Artifacts σ) (config : ContextGovernorConfig)
    (dumps : Json → String) (result : ToolResult) : ResultContent → Prop
  | kept : ¬ Redirects config (normalizedContent result.content) →
      Settled artifacts config dumps { result with content := normalizedContent result.content } →
      Outcome artifacts config dumps result (normalizedContent result.content)
  | textOnly {text replacement} : textOnlyContent (normalizedContent result.content) = some text →
      config.toolResultMaxBytes < (encode text).length →
      replacement.utf8ByteSize ≤ config.toolResultMaxBytes →
      Outcome artifacts config dumps result (.str replacement)
  | mixedMedia {items texts replacement} : normalizedContent result.content = .list items →
      textOnlyItems items = none → config.preserveMedia = true →
      containsMediaItems items = .ok true → directTexts items = .ok (some texts) →
      config.toolResultMaxBytes < (encode (String.join texts)).length →
      replacement.utf8ByteSize ≤ config.toolResultMaxBytes →
      Outcome artifacts config dumps result (.list (replaceTexts replacement false items))

/-- A mixed content is left alone, whatever the artifacts are, or its text is too long. -/
theorem governMixedMediaText_cases {toolUseId : String} {content : ResultContent}
    {mixed : Option (List Json × ContextGovernanceRecord)}
    (h : governMixedMediaText artifacts config toolUseId content s = .ok (mixed, s')) :
    (mixed = none ∧ s' = s ∧
      (∀ t, governMixedMediaText artifacts config toolUseId content t = .ok (none, t)) ∧
      ∀ items texts, content = .list items → directTexts items = .ok (some texts) →
        (encode (String.join texts)).length ≤ config.toolResultMaxBytes) ∨
    ∃ items texts replacement record, content = .list items ∧
      mixed = some (replaceTexts replacement false items, record) ∧
      directTexts items = .ok (some texts) ∧
      config.toolResultMaxBytes < (encode (String.join texts)).length ∧
      replacement.utf8ByteSize ≤ config.toolResultMaxBytes := by
  cases content with
  | str text =>
    cases h
    exact Or.inl ⟨rfl, rfl, fun _ => rfl, fun _ _ h => nomatch h⟩
  | dict fields =>
    cases h
    exact Or.inl ⟨rfl, rfl, fun _ => rfl, fun _ _ h => nomatch h⟩
  | list items =>
    rw [governMixedMediaText] at h
    obtain ⟨found, hfound, h⟩ := bind_eq_ok.mp h
    cases found with
    | none =>
      cases h
      refine Or.inl ⟨rfl, rfl, ?_, ?_⟩
      · intro t
        rw [governMixedMediaText, hfound]
        rfl
      · rintro _ texts ⟨⟩ htexts
        rw [hfound] at htexts
        cases htexts
    | some texts =>
      simp only at h
      split_ifs at h with hshort
      · cases h
        refine Or.inl ⟨rfl, rfl, ?_, ?_⟩
        · intro t
          rw [governMixedMediaText, hfound]
          exact if_pos hshort
        · rintro _ texts' ⟨⟩ htexts
          rw [hfound] at htexts
          cases htexts
          rcases hshort with rfl | hshort
          · exact Nat.zero_le _
          · exact hshort
      · obtain ⟨⟨redirected, t⟩, hredirect, h⟩ := bind_eq_ok.mp h
        cases h
        rw [not_or] at hshort
        exact Or.inr ⟨items, texts, redirected.1, redirected.2, rfl, rfl, hfound, by omega,
          redirect_size hredirect⟩

theorem outcome_of_governToolResult {result result' : ToolResult}
    {records : List ContextGovernanceRecord}
    (h : governToolResult artifacts config dumps result s = .ok ((result', records), s')) :
    ∃ content, result' = { result with content := content } ∧
      Outcome artifacts config dumps result content := by
  have hidem := normalizedContent_idem result.content
  rw [governToolResult] at h
  cases htext : textOnlyContent (normalizedContent result.content) with
  | some text =>
    simp only [htext] at h
    split_ifs at h with hshort
    · cases h
      refine ⟨_, rfl, .kept ?_ (settled_of_short hidem htext hshort)⟩
      intro hredirects
      generalize hcontent : normalizedContent result.content = content at hredirects
      rw [hcontent] at htext
      cases hredirects with
      | textOnly htext' hlong =>
        rw [htext] at htext'
        cases htext'
        omega
      | mixedMedia hnone =>
        rw [textOnlyContent, hnone] at htext
        cases htext
    · obtain ⟨⟨redirected, t⟩, hredirect, h⟩ := bind_eq_ok.mp h
      cases h
      exact ⟨_, rfl, .textOnly htext (by omega) (redirect_size hredirect)⟩
  | none =>
    simp only [htext] at h
    obtain ⟨media, hmedia, hrest⟩ := bind_eq_ok.mp h
    clear h
    cases media with
    | true =>
      have hpreserve : config.preserveMedia = true := by
        by_contra hoff
        rw [if_neg hoff] at hmedia
        cases hmedia
      simp only [if_true] at hrest
      obtain ⟨⟨mixed, t⟩, hmixed, hmade⟩ := bind_eq_ok.mp hrest
      clear hrest
      rcases governMixedMediaText_cases hmixed with
        ⟨rfl, rfl, hagain, hshort⟩ | ⟨items, texts, replacement, record, hlist, rfl, htexts,
          hlong, hsize⟩
      · cases hmade
        refine ⟨_, rfl, .kept ?_ ?_⟩
        · intro hredirects
          generalize hcontent : normalizedContent result.content = content at hredirects
          cases hredirects with
          | textOnly htext' =>
            rw [hcontent, htext'] at htext
            cases htext
          | mixedMedia _ _ _ htexts hlong =>
            have hfits := hshort _ _ hcontent htexts
            omega
        · intro u
          rw [governToolResult]
          simp only [hidem, htext]
          refine bind_eq_ok.mpr ⟨true, hmedia, ?_⟩
          simp only [if_true]
          exact bind_eq_ok.mpr ⟨(none, u), hagain u, rfl⟩
      · cases hmade
        rw [hlist] at htext
        rw [if_pos hpreserve, hlist] at hmedia
        exact ⟨_, rfl, .mixedMedia hlist htext hpreserve hmedia htexts hlong hsize⟩
    | false =>
      simp only [Bool.false_eq_true, if_false] at hrest
      split_ifs at hrest with hlarge
      · cases hrest
        refine ⟨_, rfl, .kept ?_ ?_⟩
        · intro hredirects
          generalize hcontent : normalizedContent result.content = content at hredirects
          cases hredirects with
          | textOnly htext' =>
            rw [hcontent, htext'] at htext
            cases htext
          | mixedMedia hnone hpreserve hfound =>
            rw [if_pos hpreserve, hcontent] at hmedia
            exact absurd (hfound.symm.trans hmedia) (by simp)
        · intro u
          rw [governToolResult]
          simp only [hidem, htext]
          refine bind_eq_ok.mpr ⟨false, hmedia, ?_⟩
          simp only [Bool.false_eq_true, if_false]
          exact if_neg hlarge

/-! ## What is kept of it -/

/-- What the governor walks over: the content of an envelope instead of the envelope. -/
def unwrapped (config : ContextGovernorConfig) (content : ResultContent) : ResultContent :=
  if config.enabled then normalizedContent content else content

def contentTexts : ResultContent → List String
  | .str text => [text]
  | .list items => (items.filter fun item => isText "text" (item.getD "type")).filterMap fun item =>
      match item.getD "text" with
      | .str text => some text
      | _ => none
  | .dict _ => []

/-- A new text fits the limit, and the media and tool search blocks are as before. -/
structure KeepsContent (config : ContextGovernorConfig) (content content' : ResultContent) :
    Prop where
  redirected : content' ≠ content →
    ∀ text ∈ contentTexts content', text.utf8ByteSize ≤ config.toolResultMaxBytes
  blocks : protectedBlocks content'.toJson = protectedBlocks content.toJson

/-- No block is in another field of a text that is replaced. -/
def NothingNested (config : ContextGovernorConfig) (result : ToolResult) : Prop :=
  config.enabled = true → Redirects config (normalizedContent result.content) →
    ∀ item ∈ textsReplaced (normalizedContent result.content), protectedBlocks item = []

theorem protectedItems_eq_nil {items : List Json} :
    protectedItems items = [] ↔ ∀ item ∈ items, protectedBlocks item = [] := by
  induction items with
  | nil => simp [protectedItems]
  | cons item items ih => simp [protectedItems, ih]

theorem contentTexts_of_directTexts {items : List Json} {texts : List String}
    (h : directTexts items = .ok (some texts)) : contentTexts (.list items) = texts := by
  induction items generalizing texts with
  | nil =>
    cases h
    rfl
  | cons item items ih =>
    cases htype : isText "text" (item.getD "type") with
    | true =>
      obtain ⟨text, rest, htext, hrest, rfl⟩ := directTexts_text htype h
      have hlater := ih hrest
      rw [contentTexts] at hlater ⊢
      rw [List.filter_cons_of_pos (by exact htype), List.filterMap_cons]
      simp only [htext, hlater]
    | false =>
      have hlater := ih (directTexts_other htype h).1
      rw [contentTexts] at hlater ⊢
      rwa [List.filter_cons_of_neg (by simp [htype])]

theorem texts_ne_nil {texts : List String}
    (hlong : config.toolResultMaxBytes < (encode (String.join texts)).length) : texts ≠ [] := by
  rintro rfl
  exact absurd hlong (Nat.not_lt_zero _)

theorem Outcome.keeps_iff (henabled : config.enabled = true) {result : ToolResult}
    {content : ResultContent} (h : Outcome artifacts config dumps result content) :
    KeepsContent config (unwrapped config result.content) content ↔
      NothingNested config result := by
  rw [unwrapped, if_pos henabled]
  cases h with
  | kept hshort =>
    refine ⟨fun _ _ hredirects => absurd hredirects hshort, fun _ => ⟨?_, rfl⟩⟩
    exact fun hne => absurd rfl hne
  | @textOnly text replacement htext hlong hsize =>
    have hredirects := Redirects.textOnly htext hlong
    have hbound : ∀ text ∈ contentTexts (.str replacement),
        text.utf8ByteSize ≤ config.toolResultMaxBytes := by
      intro text hmem
      rw [contentTexts, List.mem_singleton] at hmem
      rwa [hmem]
    suffices hblocks : protectedBlocks (normalizedContent result.content).toJson = [] ↔
        ∀ item ∈ textsReplaced (normalizedContent result.content), protectedBlocks item = [] by
      have hnone : protectedBlocks (ResultContent.str replacement).toJson = [] := by
        simp [ResultContent.toJson, protectedBlocks]
      constructor
      · exact fun hkeeps _ _ => hblocks.mp (hkeeps.blocks.symm.trans hnone)
      · exact fun hnested =>
          ⟨fun _ => hbound, hnone.trans (hblocks.mpr (hnested henabled hredirects)).symm⟩
    cases hcontent : normalizedContent result.content with
    | str old => simp [ResultContent.toJson, protectedBlocks, textsReplaced]
    | list items =>
      rw [hcontent, textOnlyContent] at htext
      rw [ResultContent.toJson, protectedBlocks, protectedItems_eq_nil, textsReplaced]
      simp [htext]
    | dict fields =>
      rw [hcontent] at htext
      cases htext
  | @mixedMedia items texts replacement hlist hnone hpreserve hmedia htexts hlong hsize =>
    have hredirects := Redirects.mixedMedia hnone hpreserve hmedia htexts hlong
    have hbound : ∀ text ∈ contentTexts (.list (replaceTexts replacement false items)),
        text.utf8ByteSize ≤ config.toolResultMaxBytes := by
      intro text hmem
      rw [contentTexts_of_directTexts (directTexts_replaceTexts replacement false htexts)] at hmem
      simp only [Bool.false_eq_true, false_or, texts_ne_nil hlong, if_false,
        List.mem_singleton] at hmem
      rwa [hmem]
    have hblocks := protectedItems_replaceTexts replacement false htexts
    rw [protectedItems_eq_nil] at hblocks
    rw [NothingNested, hlist, textsReplaced, hnone]
    simp only [Option.isSome_none, Bool.false_eq_true, if_false]
    constructor
    · intro hkeeps _ _
      have hsame := hkeeps.blocks
      simp only [ResultContent.toJson, protectedBlocks] at hsame
      exact hblocks.mp hsame
    · intro hnested
      refine ⟨fun _ => hbound, ?_⟩
      simp only [ResultContent.toJson, protectedBlocks]
      exact hblocks.mpr (hnested henabled hredirects)

/-- Governing the new content changes nothing. -/
theorem Outcome.settled {result : ToolResult} {content : ResultContent}
    (h : Outcome artifacts config dumps result content) (henabled : config.enabled = true)
    (hnested : NothingNested config result) :
    Settled artifacts config dumps { result with content := content } := by
  cases h with
  | kept _ hsettled => exact hsettled
  | textOnly _ _ hsize => exact settled_of_short rfl rfl (by rwa [encode_length])
  | @mixedMedia items texts replacement hlist hnone hpreserve hmedia htexts hlong hsize =>
    have hredirects := Redirects.mixedMedia hnone hpreserve hmedia htexts hlong
    have hdropped : protectedItems (droppedTexts false items) = [] := by
      rw [NothingNested, hlist, textsReplaced, hnone] at hnested
      exact protectedItems_eq_nil.mpr (hnested henabled hredirects)
    have hagain : containsMediaContent (.arr (replaceTexts replacement false items)) =
        .ok true := by
      rw [containsMediaContent]
      exact containsMediaItems_replaceTexts replacement false htexts hdropped hmedia
    have hdirect := directTexts_replaceTexts replacement false htexts
    simp only [Bool.false_eq_true, false_or, texts_ne_nil hlong, if_false] at hdirect
    intro s
    rw [governToolResult]
    simp only [normalizedContent, textOnlyContent,
      textOnlyItems_replaceTexts replacement false htexts hnone, ResultContent.toJson]
    refine bind_eq_ok.mpr ⟨true, by rw [if_pos hpreserve, hagain], ?_⟩
    simp only [if_true]
    refine bind_eq_ok.mpr ⟨(none, s), ?_, rfl⟩
    rw [governMixedMediaText, hdirect]
    refine if_pos (Or.inr ?_)
    have hjoin : String.join [replacement] = replacement := by simp
    rwa [hjoin, encode_length]

/-! ## The walk over blocks and messages -/

/-- Every tool result has a content that is related to it, and the rest is the same. -/
inductive BlockRel (R : ToolResult → ResultContent → Prop) : Block → Block → Prop
  | other (fields) : BlockRel R (.other fields) (.other fields)
  | toolResult {result content} : R result content →
      BlockRel R (.toolResult result) (.toolResult { result with content := content })

inductive MessageRel (R : ToolResult → ResultContent → Prop) : Message → Message → Prop
  | text {message text} : message.content = .text text → MessageRel R message message
  | blocks {message blocks blocks'} : message.content = .blocks blocks →
      List.Forall₂ (BlockRel R) blocks blocks' →
      MessageRel R message { message with content := .blocks blocks' }

def Block.toolResult? : Block → Option ToolResult
  | .toolResult result => some result
  | .other _ => none

def Message.toolResults (message : Message) : List ToolResult :=
  match message.content with
  | .text _ => []
  | .blocks blocks => blocks.filterMap Block.toolResult?

theorem forall₂_blockRel_iff {R Q : ToolResult → ResultContent → Prop} {P : ToolResult → Prop}
    (hRQ : ∀ {result content}, R result content → (Q result content ↔ P result))
    {blocks blocks' : List Block} (h : List.Forall₂ (BlockRel R) blocks blocks') :
    List.Forall₂ (BlockRel Q) blocks blocks' ↔
      ∀ result ∈ blocks.filterMap Block.toolResult?, P result := by
  induction h with
  | nil => simp
  | @cons block block' blocks blocks' hblock _ ih =>
    rw [List.forall₂_cons, ih]
    cases hblock with
    | other fields =>
      refine ⟨fun hQ => hQ.2, fun hP => ⟨.other fields, hP⟩⟩
    | @toolResult result content hR =>
      simp only [Block.toolResult?, List.filterMap_cons, List.mem_cons, forall_eq_or_imp]
      refine and_congr_left fun _ => ?_
      rw [← hRQ hR]
      refine ⟨fun hQ => ?_, .toolResult⟩
      generalize hnew : ({ result with content := content } : ToolResult) = new at hQ
      cases hQ with
      | toolResult hQ =>
        rw [ToolResult.mk.injEq] at hnew
        rwa [hnew.2.1]

theorem forall₂_messageRel_iff {R Q : ToolResult → ResultContent → Prop} {P : ToolResult → Prop}
    (hRQ : ∀ {result content}, R result content → (Q result content ↔ P result))
    {messages messages' : List Message} (h : List.Forall₂ (MessageRel R) messages messages') :
    List.Forall₂ (MessageRel Q) messages messages' ↔
      ∀ message ∈ messages, ∀ result ∈ message.toolResults, P result := by
  induction h with
  | nil => simp
  | @cons message message' messages messages' hmessage _ ih =>
    rw [List.forall₂_cons, ih, List.forall_mem_cons]
    refine and_congr_left fun _ => ?_
    cases hmessage with
    | text htext => simpa [Message.toolResults, htext] using MessageRel.text htext
    | @blocks blocks blocks' hcontent hblocks =>
      rw [Message.toolResults, hcontent]
      have hiff := forall₂_blockRel_iff (Q := Q) (P := P) hRQ hblocks
      refine ⟨fun hQ => hiff.mp ?_, fun hP => .blocks hcontent (hiff.mpr hP)⟩
      generalize hnew : ({ message with content := .blocks blocks' } : Message) = new at hQ
      cases hQ with
      | text htext =>
        rw [hcontent] at htext
        cases htext
      | blocks hcontent' hQ =>
        rw [hcontent] at hcontent'
        cases hcontent'
        rw [Message.mk.injEq] at hnew
        obtain ⟨-, hnew, -⟩ := hnew
        cases hnew
        exact hQ

theorem outcome_of_governBlocks {blocks : List Block}
    {governed : List Block × List ContextGovernanceRecord}
    (h : governBlocks artifacts config dumps blocks s = .ok (governed, s')) :
    List.Forall₂ (BlockRel (Outcome artifacts config dumps)) blocks governed.1 := by
  induction blocks generalizing governed s with
  | nil =>
    cases h
    exact .nil
  | cons block blocks ih =>
    cases block with
    | other fields =>
      rw [governBlocks] at h
      obtain ⟨⟨rest, t⟩, hrest, hmade⟩ := bind_eq_ok.mp h
      cases hmade
      exact .cons (.other fields) (ih hrest)
    | toolResult result =>
      rw [governBlocks] at h
      obtain ⟨⟨first, t⟩, hfirst, hmade⟩ := bind_eq_ok.mp h
      obtain ⟨⟨rest, u⟩, hrest, hmade⟩ := bind_eq_ok.mp hmade
      cases hmade
      obtain ⟨content, hcontent, hout⟩ := outcome_of_governToolResult hfirst
      rw [hcontent]
      exact .cons (.toolResult hout) (ih hrest)

theorem outcome_of_governMessages {messages : List Message}
    {governed : List Message × List ContextGovernanceRecord}
    (h : governMessages artifacts config dumps messages s = .ok (governed, s')) :
    List.Forall₂ (MessageRel (Outcome artifacts config dumps)) messages governed.1 := by
  induction messages generalizing governed s with
  | nil =>
    cases h
    exact .nil
  | cons message messages ih =>
    rw [governMessages] at h
    split at h
    · next text htext =>
      obtain ⟨⟨rest, t⟩, hrest, hmade⟩ := bind_eq_ok.mp h
      cases hmade
      exact .cons (.text htext) (ih hrest)
    · next blocks hblocks =>
      obtain ⟨⟨first, t⟩, hfirst, hmade⟩ := bind_eq_ok.mp h
      obtain ⟨⟨rest, u⟩, hrest, hmade⟩ := bind_eq_ok.mp hmade
      cases hmade
      exact .cons (.blocks hblocks (outcome_of_governBlocks hfirst)) (ih hrest)

/-- Governing again changes nothing in a list of blocks that are settled. -/
theorem governBlocks_settled {blocks blocks' : List Block}
    (h : List.Forall₂ (BlockRel fun result content =>
      Settled artifacts config dumps { result with content := content }) blocks blocks') (s : σ) :
    governBlocks artifacts config dumps blocks' s = .ok ((blocks', []), s) := by
  induction h with
  | nil => rfl
  | cons hblock _ ih =>
    cases hblock with
    | other fields =>
      rw [governBlocks, ih]
      rfl
    | toolResult hsettled =>
      rw [governBlocks]
      exact bind_eq_ok.mpr ⟨_, hsettled s, bind_eq_ok.mpr ⟨_, ih, rfl⟩⟩

theorem governMessages_settled {messages messages' : List Message}
    (h : List.Forall₂ (MessageRel fun result content =>
      Settled artifacts config dumps { result with content := content }) messages messages')
    (s : σ) : governMessages artifacts config dumps messages' s = .ok ((messages', []), s) := by
  induction h with
  | nil => rfl
  | cons hmessage _ ih =>
    rw [governMessages]
    cases hmessage with
    | text htext =>
      rw [htext]
      simp only [ih]
      rfl
    | blocks hcontent hblocks =>
      exact bind_eq_ok.mpr ⟨_, governBlocks_settled hblocks s, bind_eq_ok.mpr ⟨_, ih, rfl⟩⟩

/-! ## The store does not matter -/

theorem steady_writeArtifact (text : String) : Steady (writeArtifact artifacts text) := by
  unfold writeArtifact
  split_ifs
  · exact Steady.raises _
  · exact Steady.stored _

theorem steady_redirect (toolUseId text mode check : String) :
    Steady (redirect artifacts config toolUseId text mode check) :=
  (steady_writeArtifact _).bind fun _ => Steady.after fun _ => Steady.value _

theorem steady_governMixedMediaText (toolUseId : String) (content : ResultContent) :
    Steady (governMixedMediaText artifacts config toolUseId content) := by
  cases content with
  | str text => exact Steady.value none
  | dict fields => exact Steady.value none
  | list items =>
    refine Steady.after fun texts => ?_
    cases texts with
    | none => exact Steady.value none
    | some texts =>
      dsimp only
      split_ifs
      · exact Steady.value none
      · exact (steady_redirect _ _ _ _).bind fun redirected =>
          Steady.value (some (replaceTexts redirected.1 false items, redirected.2))

theorem steady_governToolResult (result : ToolResult) :
    Steady (governToolResult artifacts config dumps result) := by
  unfold governToolResult
  cases htext : textOnlyContent (normalizedContent result.content) with
  | some text =>
    simp only [htext]
    split_ifs
    · exact Steady.value _
    · exact (steady_redirect _ _ _ _).bind fun redirected =>
        Steady.value ({ result with content := .str redirected.1 }, [redirected.2])
  | none =>
    simp only [htext]
    refine Steady.after fun found => ?_
    cases found with
    | true =>
      refine (steady_governMixedMediaText _ _).bind fun mixedMedia => ?_
      cases mixedMedia with
      | none => exact Steady.value _
      | some made => exact Steady.value _
    | false =>
      simp only [Bool.false_eq_true, if_false]
      split_ifs
      · exact Steady.raises _
      · exact Steady.value _

theorem steady_governBlocks (blocks : List Block) :
    Steady (governBlocks artifacts config dumps blocks) := by
  induction blocks with
  | nil => exact Steady.value _
  | cons block blocks ih =>
    cases block with
    | other fields => exact ih.bind fun governed => Steady.value _
    | toolResult result =>
      exact (steady_governToolResult result).bind fun first =>
        ih.bind fun governed => Steady.value _

theorem steady_governMessages (messages : List Message) :
    Steady (governMessages artifacts config dumps messages) := by
  induction messages with
  | nil => exact Steady.value _
  | cons message messages ih =>
    intro s t s' t' a b h h'
    rw [governMessages] at h h'
    cases hcontent : message.content with
    | text text =>
      simp only [hcontent] at h h'
      exact (ih.bind fun governed => Steady.value (message :: governed.1, governed.2)) h h'
    | blocks blocks =>
      simp only [hcontent] at h h'
      refine Steady.bind (steady_governBlocks blocks) (fun first => ?_) h h'
      dsimp only
      exact ih.bind fun governed =>
        Steady.value ({ message with content := .blocks first.1 } :: governed.1,
          first.2 ++ governed.2)

/-! ## Requests -/

variable {ρ τ : Type} {request : MessagesRequest ρ} {governed : Governed (MessagesRequest ρ)}

/-- What the walk keeps of a request, and governing it again. -/
structure Preserves (artifacts : Artifacts σ) (config : ContextGovernorConfig)
    (dumps : Json → String) (request governed : MessagesRequest ρ) : Prop where
  others : governed.others = request.others
  messages : List.Forall₂
    (MessageRel fun result content => KeepsContent config (unwrapped config result.content) content)
    request.messages governed.messages
  again : ∀ s, governMessagesRequest artifacts config dumps governed s =
    .ok ({ request := governed }, s)

/-- A count request with the messages of `request` is governed in the same way: from the same
store always, and from any other if it is governed at all. -/
def CountsTheSame (artifacts : Artifacts σ) (config : ContextGovernorConfig)
    (dumps : Json → String) (request : MessagesRequest ρ) (s : σ)
    (governed : Governed (MessagesRequest ρ)) : Prop :=
  ∀ (τ : Type) (validate : TokenCountRequest τ → Except Raised (MessagesRequest ρ))
    (count : TokenCountRequest τ), count.messages = request.messages →
    (∃ others, validate count = .ok { messages := count.messages, others := others }) →
    let same : Governed (TokenCountRequest τ) :=
      { request := { count with messages := governed.request.messages }
        records := governed.records }
    (∃ s', governTokenCountRequest artifacts config dumps validate count s = .ok (same, s')) ∧
      ∀ t counted t', governTokenCountRequest artifacts config dumps validate count t =
        .ok (counted, t') → counted = same

theorem countsTheSame (h : governMessagesRequest artifacts config dumps request s =
    .ok (governed, s')) : CountsTheSame artifacts config dumps request s governed := by
  intro τ validate count hmessages hvalidate
  obtain ⟨others, hvalidate⟩ := hvalidate
  rw [hmessages] at hvalidate
  rw [governMessagesRequest] at h
  split_ifs at h with henabled
  · obtain ⟨⟨made, u⟩, hmade, hgoverned⟩ := bind_eq_ok.mp h
    cases hgoverned
    constructor
    · refine ⟨s', bind_eq_ok.mpr ⟨_, hvalidate, ?_⟩⟩
      rw [governMessagesRequest, if_pos henabled]
      exact bind_eq_ok.mpr ⟨_, bind_eq_ok.mpr ⟨_, hmade, rfl⟩, rfl⟩
    · intro t counted t' hcount
      obtain ⟨messageRequest, hvalidated, hrest⟩ := bind_eq_ok.mp hcount
      cases hvalidate.symm.trans hvalidated
      obtain ⟨⟨again, v⟩, hagain, hcounted⟩ := bind_eq_ok.mp hrest
      rw [governMessagesRequest, if_pos henabled] at hagain
      obtain ⟨⟨made', v'⟩, hmade', hgoverned'⟩ := bind_eq_ok.mp hagain
      cases steady_governMessages _ hmade hmade'
      cases hgoverned'
      cases hcounted
      rfl
  · cases h
    constructor
    · refine ⟨s, bind_eq_ok.mpr ⟨_, hvalidate, ?_⟩⟩
      rw [governMessagesRequest, if_neg henabled]
      rfl
    · intro t counted t' hcount
      obtain ⟨messageRequest, hvalidated, hrest⟩ := bind_eq_ok.mp hcount
      cases hvalidate.symm.trans hvalidated
      rw [governMessagesRequest, if_neg henabled] at hrest
      cases hrest
      rfl

theorem messageRel_refl {R : ToolResult → ResultContent → Prop}
    (hR : ∀ result : ToolResult, R result result.content) (message : Message) :
    MessageRel R message message := by
  cases hcontent : message.content with
  | text text => exact .text hcontent
  | blocks blocks =>
    have hsame : ({ message with content := .blocks blocks } : Message) = message := by
      rw [← hcontent]
    have hblocks : List.Forall₂ (BlockRel R) blocks blocks := by
      refine List.forall₂_same.mpr fun block _ => ?_
      cases block with
      | other fields => exact .other fields
      | toolResult result => exact .toolResult (hR result)
    have hrel := MessageRel.blocks hcontent hblocks
    rwa [hsame] at hrel

theorem preserves_iff (h : governMessagesRequest artifacts config dumps request s =
    .ok (governed, s')) :
    Preserves artifacts config dumps request governed.request ↔
      ∀ message ∈ request.messages, ∀ result ∈ message.toolResults,
        NothingNested config result := by
  rw [governMessagesRequest] at h
  split_ifs at h with henabled
  · obtain ⟨⟨made, u⟩, hmade, hgoverned⟩ := bind_eq_ok.mp h
    cases hgoverned
    have houtcome := outcome_of_governMessages hmade
    have hkeeps := forall₂_messageRel_iff
      (Q := fun result content => KeepsContent config (unwrapped config result.content) content)
      (P := NothingNested config) (fun hout => hout.keeps_iff henabled) houtcome
    refine ⟨fun hpreserves => hkeeps.mp hpreserves.messages, fun hnested => ?_⟩
    have hboth := (forall₂_messageRel_iff (P := NothingNested config)
      (Q := fun result content => Outcome artifacts config dumps result content ∧
        NothingNested config result) (fun hout => and_iff_right hout) houtcome).mpr hnested
    have hsettled := (forall₂_messageRel_iff (P := fun _ => True)
      (Q := fun result content => Settled artifacts config dumps { result with content := content })
      (fun hout => iff_true_intro (hout.1.settled henabled hout.2)) hboth).mpr
        fun _ _ _ _ => trivial
    refine ⟨rfl, hkeeps.mpr hnested, fun t => ?_⟩
    rw [governMessagesRequest, if_pos henabled]
    exact bind_eq_ok.mpr ⟨_, governMessages_settled hsettled t, rfl⟩
  · cases h
    have hkeeps : ∀ result : ToolResult,
        KeepsContent config (unwrapped config result.content) result.content := by
      intro result
      rw [unwrapped, if_neg henabled]
      exact ⟨fun hne => absurd rfl hne, rfl⟩
    refine ⟨fun _ _ _ _ _ hon => absurd hon henabled, fun _ => ⟨rfl, ?_, fun t => ?_⟩⟩
    · exact List.forall₂_same.mpr fun message _ => messageRel_refl hkeeps message
    · rw [governMessagesRequest, if_neg henabled]

end Walk

/-! ## A tool result with an image in a field of a text -/

section Example

mutual

/-- `json.dumps` without spaces, of texts that need no escapes. -/
def dumped : Json → String
  | .null => "null"
  | .bool b => if b then "true" else "false"
  | .int n => toString n
  | .float repr => repr
  | .str s => "\"" ++ s ++ "\""
  | .arr items => "[" ++ ",".intercalate (dumpedItems items) ++ "]"
  | .obj fields => "\x7b" ++ ",".intercalate (dumpedFields fields) ++ "\x7d"

def dumpedItems : List Json → List String
  | [] => []
  | item :: items => dumped item :: dumpedItems items

def dumpedFields : List (String × Json) → List String
  | [] => []
  | (key, value) :: fields => ("\"" ++ key ++ "\":" ++ dumped value) :: dumpedFields fields

end

def sampleConfig : ContextGovernorConfig where
  toolResultMaxBytes := 600

/-- The artifact of the sample, in a directory where it can be written. -/
def sampleArtifacts : Artifacts Unit where
  redactSensitiveErrorText text := text
  locate _ := ("/root/.fcc/context-artifacts/tool-result-b12c74df8bdfc82003e36d57.txt",
    "b12c74df8bdfc82003e36d572404535ec3f5acff1e4e5264bf7bb826f37b71f0")
  store _ _ := .ok ()

/-- A long text, a text with an image among its annotations, and a block of a tool search. -/
def annotatedItems (text : String) : List Json :=
  [.obj [("type", .str "text"), ("text", .str text)],
    .obj [("type", .str "text"), ("text", .str "seen"),
      ("annotations", .arr [.obj [("type", .str "image")]])],
    .obj [("type", .str "tool_reference"), ("tool_name", .str "search")]]

def annotatedResult (text : String) : ToolResult where
  toolUseId := "toolu_1"
  content := .list (annotatedItems text)
  extra := []

def annotatedRequest (text : String) : MessagesRequest Unit where
  messages := [{ role := "user", content := .blocks [.toolResult (annotatedResult text)],
                 reasoningContent := none }]
  others := ()

def longText : String := .ofList (List.replicate 700 'a')

theorem utf8ByteSize_replicate (n : ℕ) :
    (String.ofList (List.replicate n 'a')).utf8ByteSize = n := by
  have hone : ∀ c ∈ List.replicate n 'a', c.utf8Size = 1 := by
    intro c hc
    rw [List.eq_of_mem_replicate hc]
    decide
  rw [utf8ByteSize_ofList, size_of_ascii hone, List.length_replicate]

theorem annotatedItems_texts (text : String) :
    directTexts (annotatedItems text) = .ok (some [text, "seen"]) := rfl

theorem annotatedItems_media (text : String) :
    containsMediaItems (annotatedItems text) = .ok true := rfl

variable {text : String}

theorem annotatedTexts_size (hsize : text.utf8ByteSize = 700) :
    (encode (String.join [text, "seen"])).length = 704 := by
  have hjoin : String.join [text, "seen"] = text ++ "seen" := by simp [String.join]
  have hseen : "seen".utf8ByteSize = 4 := by decide
  rw [encode_length, hjoin, String.utf8ByteSize_append, hsize, hseen]

theorem annotatedTexts_long (hsize : text.utf8ByteSize = 700) :
    sampleConfig.toolResultMaxBytes < (encode (String.join [text, "seen"])).length := by
  rw [annotatedTexts_size hsize]
  decide

/-- The image is in the second text, which is dropped. -/
theorem annotatedResult_nested (hsize : text.utf8ByteSize = 700) :
    ¬ NothingNested sampleConfig (annotatedResult text) := by
  intro h
  have hnone := h rfl (.mixedMedia rfl rfl (annotatedItems_media text) (annotatedItems_texts text)
    (annotatedTexts_long hsize))
  cases hnone _ List.mem_cons_self

theorem annotatedTexts_redirected (hsize : text.utf8ByteSize = 700) (s : Unit) : ∃ redirected,
    redirect sampleArtifacts sampleConfig "toolu_1" (String.join [text, "seen"])
      "mixed_media_text_redirected" "text_only_preserved_media" s = .ok (redirected, s) := by
  have hbytes := annotatedTexts_size hsize
  have htokens : estimatedTokens (String.join [text, "seen"]) = 176 := by
    rw [estimatedTokens, hbytes]
    decide
  have hwrite : writeArtifact sampleArtifacts (String.join [text, "seen"]) s =
      .ok (sampleArtifacts.locate (String.join [text, "seen"]), s) := by
    rw [writeArtifact, if_neg]
    · rfl
    · rw [hbytes]
      decide
  have hreturns : ∃ replacement, redirectedText (String.join [text, "seen"]) 704 176
      (sampleArtifacts.locate "").1 (sampleArtifacts.locate "").2
      sampleConfig.toolResultMaxBytes = .ok replacement := redirectedText_returns (by decide)
  obtain ⟨replacement, hreplacement⟩ := hreturns
  refine ⟨_, bind_eq_ok.mpr ⟨_, hwrite, bind_eq_ok.mpr ⟨replacement, ?_, rfl⟩⟩⟩
  rw [hbytes, htokens]
  exact hreplacement

theorem annotatedRequest_governed (hsize : text.utf8ByteSize = 700) : ∃ governed,
    governMessagesRequest sampleArtifacts sampleConfig dumped (annotatedRequest text) () =
      .ok (governed, ()) := by
  obtain ⟨redirected, hredirect⟩ := annotatedTexts_redirected hsize ()
  have hmixed : governMixedMediaText sampleArtifacts sampleConfig "toolu_1"
      (.list (annotatedItems text)) () =
        .ok (some (replaceTexts redirected.1 false (annotatedItems text), redirected.2), ()) := by
    rw [governMixedMediaText, annotatedItems_texts]
    have hlong : ¬ ([text, "seen"] = [] ∨
        (encode (String.join [text, "seen"])).length ≤ sampleConfig.toolResultMaxBytes) := by
      have hlong := annotatedTexts_long hsize
      simpa using hlong
    exact (if_neg hlong).trans (bind_eq_ok.mpr ⟨_, hredirect, rfl⟩)
  have hresult : ∃ made, governToolResult sampleArtifacts sampleConfig dumped
      (annotatedResult text) () = .ok (made, ()) :=
    ⟨_, bind_eq_ok.mpr ⟨true, annotatedItems_media text, bind_eq_ok.mpr ⟨_, hmixed, rfl⟩⟩⟩
  obtain ⟨made, hmade⟩ := hresult
  exact ⟨_, bind_eq_ok.mpr ⟨_, bind_eq_ok.mpr ⟨_, bind_eq_ok.mpr ⟨_, hmade,
    bind_eq_ok.mpr ⟨_, rfl, rfl⟩⟩, bind_eq_ok.mpr ⟨_, rfl, rfl⟩⟩, rfl⟩⟩

end Example

end Switchboard.Core.ContextGovernor
