import Mathlib
import Switchboard.Core.ChatFailures
import Switchboard.Core.ResponsesRequest

/-!
# The history in a Responses request

`TurnHolds` says that the items of a message hold each of its blocks once and in order,
with the reasoning before the others, and `HoldsHistory` that a request does for every
message. What a turn returns holds its message, but for the reasoning of a user.
-/

namespace Switchboard.Core.Responses

open Switchboard.Text Switchboard.Core.Anthropic Switchboard.Core.ToolNames

/-! ## What is held -/

/-- A block in the items of a request; reasoning is apart. -/
inductive Held where
  | text (text : String)
  | image (url : String)
  | call (callId name arguments : String)
  | result (callId : String) (output : ToolOutput)

def heldPart : ContentPart → Held
  | .text text => .text text
  | .imageUrl url => .image url

namespace ResponsesItem

def held : ResponsesItem → List Held
  | .assistantMessage texts => texts.map .text
  | .userMessage parts => parts.map heldPart
  | .functionCall callId name arguments => [.call callId name arguments]
  | .functionCallOutput callId output => [.result callId output]
  | .developerMessage .. | .reasoning .. => []

def isReasoning : ResponsesItem → Bool
  | .reasoning .. => true
  | _ => false

def summary : ResponsesItem → List String
  | .reasoning summary _ => summary
  | _ => []

def encryptedContent : ResponsesItem → List String
  | .reasoning _ encrypted => encrypted.toList
  | _ => []

/-- The role of the messages that have such an item. -/
def role : ResponsesItem → Role
  | .assistantMessage _ | .reasoning .. | .functionCall .. => .assistant
  | .userMessage _ | .functionCallOutput .. => .user
  | .developerMessage .. => .system

end ResponsesItem

variable (ext : Externals) (toolNames : OpenAIToolNameCodec)

/-- The URL is that of the source of the image. -/
def IsImageUrl (block : Json) (url : String) : Prop :=
  let source := normalizeImageSource block
  isText "url" (source.getD "type") = true ∧ source.getD "url" = .str url ∨
    isText "base64" (source.getD "type") = true ∧ ∃ mediaType data,
      source.getD "media_type" = .str mediaType ∧ source.getD "data" = .str data ∧
        url = s!"data:{mediaType};base64,{data}"

/-- The blocks of a tool result, but for search metadata. -/
def resultBlocks (content : Json) : List Json :=
  match realContent content with
  | .arr blocks => blocks
  | .null => []
  | value => [value]

def isTextBlock (block : Json) : Bool := isText "text" (block.getD "type")

def isImageBlock (block : Json) : Bool := isText "image" (block.getD "type")

/-- The part holds the block of a tool result. -/
def PartHolds (block : Json) : ContentPart → Prop
  | .imageUrl url => isTextBlock block = false ∧ isImageBlock block = true ∧ IsImageUrl block url
  | .text text =>
    isTextBlock block = true ∧ text = textOf block ∨
      isTextBlock block = false ∧ isImageBlock block = false ∧
        serializeToolResultContent ext.dumpsUnicode block = .ok text

/-- A value of a tool result of which no text is made. -/
def isBlank (block : Json) : Bool :=
  !isTextBlock block && !isImageBlock block &&
    match serializeToolResultContent ext.dumpsUnicode block with
    | .ok text => text = ""
    | .error _ => false

/-- The text holds a tool result without images. -/
def TextHolds (content : Json) (text : String) : Prop :=
  (∀ block ∈ resultBlocks content, isImageBlock block = false) ∧
    match realContent content with
    | .arr blocks => text = "\n".intercalate (blocks.map (serializeItem ext.dumpsUnicode))
    | .obj fields => text = ext.dumpsUnicode (.obj fields)
    | .null => text = ""
    | value => text = value.toStr

/-- The output holds each block of a tool result once, in order. -/
def ResultHolds (content : Json) : ToolOutput → Prop
  | .text text => TextHolds ext content text
  | .parts parts =>
    List.Forall₂ (PartHolds ext) ((resultBlocks content).filter fun block => !isBlank ext block)
      parts

def BlockHeld : ContentBlock → Held → Prop
  | .text text, .text heldText => heldText = text
  | .image source, .image url => IsImageUrl (imageBlock source) url
  | .toolUse id name input _, .call callId heldName arguments =>
    callId = id ∧ heldName = String.ofList (toolNames.encode name.toList) ∧
      arguments = ext.dumpsCompact (.obj input)
  | .toolResult toolUseId content, .result callId output =>
    callId = toolUseId ∧ ResultHolds ext content.toJson output
  | _, _ => False

/-! ## Turns -/

def thinkingText : ContentBlock → Option String
  | .thinking thinking => some thinking
  | _ => none

def redactedData : ContentBlock → Option String
  | .redactedThinking data => some data
  | _ => none

/-- The blocks that are no reasoning and no search metadata. -/
def isContent (block : ContentBlock) : Bool :=
  !block.isToolSearchMetadata && (thinkingText block).isNone && (redactedData block).isNone

def messageBlocks (message : Message) : List ContentBlock :=
  match message.content with
  | .str text => [.text text]
  | .list blocks => blocks

def isFilled (text : String) : Bool := text ≠ ""

/-- The thinking of a message that is not empty. -/
def messageThinking (message : Message) : List String :=
  (message.reasoningContent.toList ++ (messageBlocks message).filterMap thinkingText).filter
    isFilled

/-- The items hold a message of a user or an assistant. -/
structure TurnHolds (message : Message) (items : List ResponsesItem) : Prop where
  roles : ∀ item ∈ items, item.role = message.role
  reasoningFirst : ∃ reasoning others, items = reasoning ++ others ∧
    (∀ item ∈ reasoning, item.isReasoning = true) ∧ ∀ item ∈ others, item.isReasoning = false
  thinking : (items.flatMap ResponsesItem.summary).filter isFilled = messageThinking message
  redacted : items.flatMap ResponsesItem.encryptedContent =
    (messageBlocks message).filterMap redactedData
  blocks : message.role ≠ .system → List.Forall₂ (BlockHeld ext toolNames)
    ((messageBlocks message).filter isContent) (items.flatMap ResponsesItem.held)

/-- The texts of the system prompt and of the system messages. -/
def systemPromptTexts (request : MessagesRequest) : List String :=
  match request.system with
  | none => []
  | some (.str text) => [text]
  | some (.parts texts) => texts

def blockText : ContentBlock → Option String
  | .text text => some text
  | _ => none

def systemMessageTexts (message : Message) : List String :=
  if message.role = .system then (messageBlocks message).filterMap blockText else []

def instructionTexts (request : MessagesRequest) : List String :=
  systemPromptTexts request ++ request.messages.flatMap systemMessageTexts

/-- The input and the instructions of the request hold the history. -/
def HoldsHistory (request : MessagesRequest) (body : ResponsesBody) : Prop :=
  ∃ turns pieces, List.Forall₂ (TurnHolds ext toolNames) request.messages turns ∧
    (∀ message ∈ request.messages, message.role = .system →
      ∀ block ∈ messageBlocks message, (blockText block).isSome = true) ∧
    pieces.filter isFilled = (instructionTexts request).filter isFilled ∧
    (body.instructions.getD "" = "\n\n".intercalate pieces ∧ body.input = turns.flatten ∨
      body.instructions = none ∧
        body.input = .developerMessage ("\n\n".intercalate pieces) true :: turns.flatten)

/-! ## Tool results -/

theorem envelopeContent_eq_arr {fields : List (String × Json)} {value : Json}
    (h : envelopeContent fields = some value) : ∃ items, value = .arr items := by
  unfold envelopeContent at h
  split_ifs at h
  split at h
  · cases h
    exact ⟨_, rfl⟩
  · cases h

mutual

/-- What is unwrapped is a list. -/
theorem normalized_eq_arr : ∀ (content value : Json),
    normalizedToolResultContent content = some value → ∃ items, value = .arr items
  | .obj fields, value, h => by
    rw [normalizedToolResultContent] at h
    by_cases htype : (fields.lookup "type").isSome = true
    · rw [if_pos htype] at h
      cases h
    · rw [if_neg htype] at h
      cases henvelope : envelopeContent fields with
      | some items =>
        rw [henvelope] at h
        cases h
        exact envelopeContent_eq_arr henvelope
      | none =>
        simp only [henvelope] at h
        split_ifs at h
        exact normalizedResult_eq_arr fields value h
  | .null, _, h | .bool _, _, h | .int _, _, h | .float _, _, h | .str _, _, h | .arr _, _, h => by
    simp [normalizedToolResultContent] at h

theorem normalizedResult_eq_arr : ∀ (fields : List (String × Json)) (value : Json),
    normalizedResult fields = some value → ∃ items, value = .arr items
  | [], _, h => by simp [normalizedResult] at h
  | (key, field) :: fields, value, h => by
    rw [normalizedResult] at h
    split_ifs at h
    · exact normalized_eq_arr field value h
    · exact normalizedResult_eq_arr fields value h

end

theorem normalize_normalize (content : Json) :
    normalizeToolResultContent (normalizeToolResultContent content) =
      normalizeToolResultContent content := by
  unfold normalizeToolResultContent
  cases h : normalizedToolResultContent content with
  | none => simp [h]
  | some value =>
    obtain ⟨items, rfl⟩ := normalized_eq_arr content value h
    simp [normalizedToolResultContent]

/-- What is left of a content: the blocks of a list, nothing of search metadata, or any
other value as it is. -/
theorem realContent_cases (content : Json) :
    (∃ blocks, normalizeToolResultContent content = .arr blocks ∧
      realContent content = .arr (blocks.filter fun block => !isMetadata block)) ∨
    realContent content = .null ∨
    ((∀ blocks, realContent content ≠ .arr blocks) ∧
      isMetadata (normalizeToolResultContent content) = false ∧
      realContent content = normalizeToolResultContent content) := by
  unfold realContent
  cases normalizeToolResultContent content with
  | arr blocks => exact .inl ⟨blocks, rfl, rfl⟩
  | obj fields =>
    cases hmeta : isMetadata (.obj fields) with
    | true => exact .inr (.inl (by simp [hmeta]))
    | false => exact .inr (.inr ⟨by simp [hmeta], rfl, by simp [hmeta]⟩)
  | null | bool b | int n | float r | str t =>
    exact .inr (.inr ⟨fun blocks h => (by cases h), rfl, rfl⟩)

/-- The metadata is left out once and for all. -/
theorem realContent_realContent (content : Json) :
    realContent (realContent content) = realContent content := by
  rcases realContent_cases content with ⟨blocks, -, hreal⟩ | hreal | ⟨-, -, hreal⟩
  · rw [hreal]
    simp [realContent, normalizeToolResultContent, normalizedToolResultContent]
  · rw [hreal]
    rfl
  · have hagain : realContent (normalizeToolResultContent content) = realContent content := by
      unfold realContent
      rw [normalize_normalize]
    rw [hreal, hagain, hreal]

/-- No lookup fails in what is left of a content where none fails. -/
theorem contentLookupFails_realContent {content : Json} (h : contentLookupFails content = false) :
    contentLookupFails (realContent content) = false := by
  unfold contentLookupFails at h
  rcases realContent_cases content with ⟨blocks, hblocks, hreal⟩ | hreal | ⟨-, -, hreal⟩
  · rw [hblocks] at h
    rw [hreal]
    simp only [contentLookupFails, normalizeToolResultContent, normalizedToolResultContent,
      Option.getD_none, List.any_eq_false] at h ⊢
    exact fun block hblock => h block (List.mem_of_mem_filter hblock)
  · rw [hreal]
    rfl
  · rw [hreal]
    unfold contentLookupFails
    rw [normalize_normalize]
    exact h

theorem resultBlocks_real {content block : Json} (h : block ∈ resultBlocks content) :
    isMetadata block = false := by
  unfold resultBlocks at h
  rcases realContent_cases content with ⟨blocks, -, hreal⟩ | hreal | ⟨hvalue, hmeta, hreal⟩
  · rw [hreal] at h
    simpa using (List.mem_filter.mp h).2
  · rw [hreal] at h
    cases h
  · split at h
    · next blocks hblocks => exact absurd hblocks (hvalue blocks)
    · cases h
    · rw [List.mem_singleton.mp h, hreal]
      exact hmeta

theorem serializeItems_eq (dumps : Json → String) {items : List Json}
    (hlookup : items.any lookupFails = false)
    (hmeta : ∀ item ∈ items, isMetadata item = false) :
    serializeItems dumps items = .ok (items.map (serializeItem dumps)) := by
  induction items with
  | nil => rfl
  | cons item items ih =>
    rw [List.any_cons, Bool.or_eq_false_iff] at hlookup
    rw [List.forall_mem_cons] at hmeta
    simp [serializeItems, isToolSearchMetadataBlock_eq, hlookup.1, hmeta.1, ih hlookup.2 hmeta.2,
      bind, Except.bind, pure, Except.pure]

/-- The types of all media in a value that was searched. -/
theorem image_mem_mediaTypes {block : Json} {found : List String}
    (h : mediaTypes block = .ok found) (himage : isImageBlock block = true) : "image" ∈ found := by
  cases block with
  | obj fields =>
    rw [mediaTypes] at h
    obtain ⟨own, hown, h⟩ := bind_eq_ok.mp h
    obtain ⟨others, -, h⟩ := bind_eq_ok.mp h
    cases h
    unfold mediaBlockType at hown
    obtain ⟨_, -, hown⟩ := bind_eq_ok.mp hown
    cases hown
    simp only [List.mem_append, List.mem_filter]
    exact .inl ⟨by decide, himage⟩
  | null | bool b | int n | float r | str t | arr items => cases himage

theorem image_mem_mediaTypesOfItems {blocks : List Json} {found : List String} {block : Json}
    (h : mediaTypesOfItems blocks = .ok found) (hmem : block ∈ blocks)
    (himage : isImageBlock block = true) : "image" ∈ found := by
  induction blocks generalizing found with
  | nil => cases hmem
  | cons first blocks ih =>
    rw [mediaTypesOfItems] at h
    obtain ⟨own, hown, h⟩ := bind_eq_ok.mp h
    obtain ⟨others, hothers, h⟩ := bind_eq_ok.mp h
    cases h
    rw [List.mem_append]
    rcases List.mem_cons.mp hmem with rfl | hmem
    · exact .inl (image_mem_mediaTypes hown himage)
    · exact .inr (ih hothers hmem)

/-- A content in which no media are found has no image among its blocks. -/
theorem no_image_of_noMedia {content : Json}
    (h : toolResultMediaBlockTypes (realContent content) = .ok []) :
    ∀ block ∈ resultBlocks content, isImageBlock block = false := by
  intro block hblock
  unfold toolResultMediaBlockTypes at h
  obtain ⟨real, hreal, h⟩ := bind_eq_ok.mp h
  obtain ⟨found, hfound, hfinal⟩ := bind_eq_ok.mp h
  rw [withoutToolSearchMetadata_eq] at hreal
  split_ifs at hreal
  rw [realContent_realContent] at hreal
  cases hreal
  by_contra himage
  rw [Bool.not_eq_false] at himage
  have hmem : "image" ∈ found := by
    unfold resultBlocks at hblock
    split at hblock
    · next blocks hblocks =>
      rw [hblocks, mediaTypes] at hfound
      exact image_mem_mediaTypesOfItems hfound hblock himage
    · cases hblock
    · rw [List.mem_singleton.mp hblock] at himage
      exact image_mem_mediaTypes hfound himage
  have hempty : (["document", "image"].filter (· ∈ found)) = [] := Except.ok.inj hfinal
  have := List.filter_eq_nil_iff.mp hempty "image" (by decide)
  simp [hmem] at this

variable {ext} {toolNames}

/-- A result without media is held by its text. -/
theorem serialize_holds {content : Json} {text : String}
    (hlookup : contentLookupFails content = false)
    (hmedia : toolResultMediaBlockTypes (realContent content) = .ok [])
    (h : serializeToolResultContent ext.dumpsUnicode (realContent content) = .ok text) :
    TextHolds ext content text := by
  refine ⟨no_image_of_noMedia hmedia, ?_⟩
  unfold serializeToolResultContent at h
  rw [withoutToolSearchMetadata_eq, contentLookupFails_realContent hlookup,
    realContent_realContent] at h
  simp only [Bool.false_eq_true, if_false] at h
  cases hreal : realContent content with
  | arr blocks =>
    have hblocks : ∀ block ∈ blocks, isMetadata block = false := by
      intro block hblock
      have hmem : block ∈ resultBlocks content := by simpa [resultBlocks, hreal] using hblock
      exact resultBlocks_real hmem
    have hfails : blocks.any lookupFails = false := by
      have := contentLookupFails_realContent hlookup
      rw [hreal] at this
      simpa [contentLookupFails, normalizeToolResultContent, normalizedToolResultContent] using this
    rw [hreal] at h
    obtain ⟨real, hblocks', h⟩ := bind_eq_ok.mp h
    cases hblocks'
    obtain ⟨parts, hparts, h⟩ := bind_eq_ok.mp h
    rw [serializeItems_eq _ hfails hblocks] at hparts
    cases hparts
    exact (Except.ok.inj h).symm
  | null | bool b | int n | float r | str t | obj fields =>
    rw [hreal] at h
    exact (Except.ok.inj h).symm

theorem imagePart_holds {block : Json} {url : String} (h : imagePart ext block = .ok url) :
    IsImageUrl block url := by
  unfold imagePart at h
  dsimp only at h
  split_ifs at h with hurl hbase64
  · refine .inl ⟨hurl, ?_⟩
    split at h
    · next text htext =>
      obtain ⟨_, -, h⟩ := bind_eq_ok.mp h
      cases h
      exact htext
    · cases h
  · refine .inr ⟨hbase64, ?_⟩
    split at h
    · next mediaType data hmedia hdata =>
      obtain ⟨_, -, h⟩ := bind_eq_ok.mp h
      cases h
      exact ⟨mediaType, data, hmedia, hdata, rfl⟩
    · cases h

/-- One round, by what it finds out about the block. -/
theorem addOutputBlock_eq (ext : Externals) (toolUseId : String) (output : List ContentPart)
    (block : Json) (hlookup : lookupFails block = false) (hmeta : isMetadata block = false) :
    addOutputBlock ext toolUseId output block =
      if isTextBlock block then .ok (output ++ [.text (textOf block)])
      else if isImageBlock block then
        (fun url => output ++ [.imageUrl url]) <$> imagePart ext block
      else if isText "document" (block.getD "type") then
        .error (.conversion ("OpenAI Responses cannot represent document blocks inside " ++
          s!"tool_result {Json.reprString toolUseId} without a supported file source; " ++
          "refusing lossy serialization."))
      else toolResultMediaBlockTypes block >>= fun nestedMedia =>
        if nestedMedia ≠ [] then
          .error (.conversion (
            "OpenAI Responses cannot represent nested structured media blocks " ++
            s!"inside tool_result {Json.reprString toolUseId}; refusing lossy serialization."))
        else
          (fun serialized => if serialized = "" then output else output ++ [.text serialized]) <$>
            serializeToolResultContent ext.dumpsUnicode block := by
  unfold addOutputBlock isTextBlock isImageBlock
  rw [isToolSearchMetadataBlock_eq, hlookup, hmeta]
  by_cases htext : isText "text" (block.getD "type") = true
  · simp only [htext, if_true]
    rfl
  · by_cases himage : isText "image" (block.getD "type") = true
    · simp only [htext, himage]
      cases imagePart ext block <;> rfl
    · by_cases hdocument : isText "document" (block.getD "type") = true
      · simp only [htext, himage, hdocument]
        rfl
      · simp only [htext, himage, hdocument]
        cases toolResultMediaBlockTypes block with
        | error e => rfl
        | ok nestedMedia =>
          cases nestedMedia with
          | nil => cases serializeToolResultContent ext.dumpsUnicode block <;> rfl
          | cons media others => rfl

/-- One round adds the part of a block, unless nothing is made of it. -/
theorem addOutputBlock_holds {toolUseId : String} {output next : List ContentPart} {block : Json}
    (hmeta : isMetadata block = false)
    (h : addOutputBlock ext toolUseId output block = .ok next) :
    isBlank ext block = true ∧ next = output ∨
      isBlank ext block = false ∧ ∃ part, PartHolds ext block part ∧ next = output ++ [part] := by
  by_cases hlookup : lookupFails block = true
  · simp [addOutputBlock, isToolSearchMetadataBlock_eq, hlookup, bind, Except.bind] at h
  · rw [Bool.not_eq_true] at hlookup
    rw [addOutputBlock_eq ext toolUseId output block hlookup hmeta] at h
    split_ifs at h with htext himage hdocument
    · cases h
      exact .inr ⟨by simp [isBlank, htext], .text (textOf block), Or.inl ⟨htext, rfl⟩, rfl⟩
    · rw [Bool.not_eq_true] at htext
      cases hurl : imagePart ext block with
      | error e =>
        rw [hurl] at h
        cases h
      | ok url =>
        rw [hurl] at h
        cases h
        exact .inr ⟨by simp [isBlank, himage], .imageUrl url,
          ⟨htext, himage, imagePart_holds hurl⟩, rfl⟩
    · rw [Bool.not_eq_true] at htext himage
      obtain ⟨nestedMedia, -, h⟩ := bind_eq_ok.mp h
      split_ifs at h
      cases hserialized : serializeToolResultContent ext.dumpsUnicode block with
      | error e =>
        rw [hserialized] at h
        cases h
      | ok serialized =>
        rw [hserialized] at h
        cases h
        by_cases hempty : serialized = ""
        · exact .inl ⟨by simp [isBlank, htext, himage, hserialized, hempty], by simp [hempty]⟩
        · exact .inr ⟨by simp [isBlank, htext, himage, hserialized, hempty], .text serialized,
            Or.inr ⟨htext, himage, hserialized⟩, by simp [hempty]⟩

theorem outputBlocks_holds {toolUseId : String} {blocks : List Json}
    (hmeta : ∀ block ∈ blocks, isMetadata block = false) {output final : List ContentPart}
    (h : blocks.foldlM (addOutputBlock ext toolUseId) output = .ok final) :
    ∃ parts, final = output ++ parts ∧
      List.Forall₂ (PartHolds ext) (blocks.filter fun block => !isBlank ext block) parts := by
  induction blocks generalizing output with
  | nil =>
    cases h
    exact ⟨[], (List.append_nil _).symm, .nil⟩
  | cons block blocks ih =>
    rw [List.forall_mem_cons] at hmeta
    rw [List.foldlM_cons] at h
    obtain ⟨next, hnext, h⟩ := bind_eq_ok.mp h
    obtain ⟨parts, rfl, hparts⟩ := ih hmeta.2 h
    rcases addOutputBlock_holds hmeta.1 hnext with
      ⟨hblank, rfl⟩ | ⟨hblank, part, hpart, rfl⟩
    · exact ⟨parts, rfl, by simpa [hblank] using hparts⟩
    · refine ⟨part :: parts, by simp, ?_⟩
      rw [List.filter_cons_of_pos (by simp [hblank])]
      exact .cons hpart hparts

/-- The output of a call holds the tool result it answers with. -/
theorem toolResultOutput_holds {content : Json} {toolUseId : String} {output : ToolOutput}
    (h : toolResultOutput ext content toolUseId = .ok output) : ResultHolds ext content output := by
  unfold toolResultOutput at h
  obtain ⟨real, hreal, h⟩ := bind_eq_ok.mp h
  rw [withoutToolSearchMetadata_eq] at hreal
  cases hlookup : contentLookupFails content with
  | true => simp [hlookup] at hreal
  | false =>
    rw [hlookup] at hreal
    cases hreal
    obtain ⟨media, hmedia, h⟩ := bind_eq_ok.mp h
    split_ifs at h with hempty
    · rw [hempty] at hmedia
      obtain ⟨text, htext, h⟩ := bind_eq_ok.mp h
      cases h
      exact serialize_holds hlookup hmedia htext
    · obtain ⟨blocks, hblocks, h⟩ := bind_eq_ok.mp h
      obtain ⟨parts, hparts, h⟩ := bind_eq_ok.mp h
      cases h
      have hresult : blocks = resultBlocks content := by
        unfold outputBlocks at hblocks
        unfold resultBlocks
        split at hblocks
        · next items hitems =>
          cases hblocks
          rw [hitems]
        · next hnoList =>
          split_ifs at hblocks with htyped
          cases hblocks
          split
          · next items hitems => exact absurd hitems (hnoList items)
          · next hnull => simp [hnull, Json.getD, Json.get?, isText] at htyped
          · rfl
      rw [hresult] at hparts
      obtain ⟨held, rfl, hheld⟩ := outputBlocks_holds (fun block => resultBlocks_real) hparts
      exact hheld

/-! ## Assistant messages -/

theorem summary_of_not_reasoning {item : ResponsesItem} (h : item.isReasoning = false) :
    item.summary = [] := by
  cases item with
  | reasoning summary encrypted => cases h
  | _ => rfl

theorem encryptedContent_of_not_reasoning {item : ResponsesItem} (h : item.isReasoning = false) :
    item.encryptedContent = [] := by
  cases item with
  | reasoning summary encrypted => cases h
  | _ => rfl

@[simp] theorem flushText_textParts (turn : AssistantItems) : turn.flushText.textParts = [] := by
  unfold AssistantItems.flushText
  split_ifs with hempty
  · exact List.isEmpty_iff.mp hempty
  · rfl

@[simp] theorem flushText_thinkingParts (turn : AssistantItems) :
    turn.flushText.thinkingParts = turn.thinkingParts := by
  unfold AssistantItems.flushText
  split_ifs <;> rfl

@[simp] theorem flushText_encryptedParts (turn : AssistantItems) :
    turn.flushText.encryptedParts = turn.encryptedParts := by
  unfold AssistantItems.flushText
  split_ifs <;> rfl

theorem flushText_held (turn : AssistantItems) :
    turn.flushText.items.flatMap ResponsesItem.held =
      turn.items.flatMap ResponsesItem.held ++ turn.textParts.map .text := by
  unfold AssistantItems.flushText
  split_ifs with hempty
  · simp [List.isEmpty_iff.mp hempty]
  · simp [ResponsesItem.held]

theorem flushText_mem {turn : AssistantItems} {item : ResponsesItem}
    (h : item ∈ turn.flushText.items) :
    item ∈ turn.items ∨ item = .assistantMessage turn.textParts := by
  unfold AssistantItems.flushText at h
  split_ifs at h
  · exact .inl h
  · simpa using h

/-- What the loop of `_assistant_items` has made of the blocks done so far. -/
structure AssistantDone (ext : Externals) (toolNames : OpenAIToolNameCodec)
    (reasoningContent : Option String) (done : List ContentBlock) (turn : AssistantItems) :
    Prop where
  held : List.Forall₂ (BlockHeld ext toolNames) (done.filter isContent)
    (turn.items.flatMap ResponsesItem.held ++ turn.textParts.map .text)
  thinking : turn.thinkingParts = reasoningContent.toList ++ done.filterMap thinkingText
  encrypted : turn.encryptedParts = done.filterMap redactedData
  items : ∀ item ∈ turn.items, item.role = .assistant ∧ item.isReasoning = false

theorem thinkingText_of_metadata {block : ContentBlock} (h : block.isToolSearchMetadata = true) :
    thinkingText block = none ∧ redactedData block = none := by
  cases block with
  | thinking thinking | redactedThinking data =>
    simp [ContentBlock.isToolSearchMetadata, ContentBlock.blockType, toolSearchMetadataBlockTypes]
      at h
  | _ => exact ⟨rfl, rfl⟩

variable {reasoningContent : Option String}

theorem AssistantDone.add {done : List ContentBlock} {block : ContentBlock}
    {turn next : AssistantItems} (h : AssistantDone ext toolNames reasoningContent done turn)
    (hnext : addAssistantBlock ext toolNames turn block = .ok next) :
    AssistantDone ext toolNames reasoningContent (done ++ [block]) next := by
  unfold addAssistantBlock at hnext
  by_cases hmeta : block.isToolSearchMetadata = true
  · rw [if_pos hmeta] at hnext
    cases hnext
    have hcontent : isContent block = false := by simp [isContent, hmeta]
    obtain ⟨hthinking, hredacted⟩ := thinkingText_of_metadata hmeta
    exact {
      held := by simpa [List.filter_append, hcontent] using h.held
      thinking := by simpa [hthinking] using h.thinking
      encrypted := by simpa [hredacted] using h.encrypted
      items := h.items }
  · rw [if_neg hmeta] at hnext
    cases block with
    | text text =>
      cases hnext
      refine { held := ?_, thinking := ?_, encrypted := ?_, items := h.items }
      · rw [List.filter_append, List.map_append, ← List.append_assoc]
        exact List.rel_append h.held (.cons rfl .nil)
      · simpa [List.filterMap_cons, thinkingText] using h.thinking
      · simpa [List.filterMap_cons, redactedData] using h.encrypted
    | thinking thinking =>
      cases hnext
      refine { held := ?_, thinking := ?_, encrypted := ?_, items := h.items }
      · simpa [List.filter_append, isContent, thinkingText] using h.held
      · simp [thinkingText, h.thinking]
      · simpa [List.filterMap_cons, redactedData] using h.encrypted
    | redactedThinking data =>
      cases hnext
      refine { held := ?_, thinking := ?_, encrypted := ?_, items := h.items }
      · simpa [List.filter_append, isContent, redactedData] using h.held
      · simpa [List.filterMap_cons, thinkingText] using h.thinking
      · simp [redactedData, h.encrypted]
    | toolUse id name input extraContent =>
      cases hnext
      refine { held := ?_, thinking := ?_, encrypted := ?_, items := ?_ }
      · rw [List.filter_append, flushText_textParts, List.map_nil, List.append_nil,
          List.flatMap_append, flushText_held]
        exact List.rel_append h.held (.cons ⟨rfl, rfl, rfl⟩ .nil)
      · simpa [List.filterMap_cons, thinkingText] using h.thinking
      · simpa [List.filterMap_cons, redactedData] using h.encrypted
      · intro item hitem
        rcases List.mem_append.mp hitem with hitem | hitem
        · rcases flushText_mem hitem with hitem | rfl
          · exact h.items item hitem
          · exact ⟨rfl, rfl⟩
        · rw [List.mem_singleton.mp hitem]
          exact ⟨rfl, rfl⟩
    | _ => cases hnext

theorem reasoningItems_reasoning {thinkingParts encryptedParts : List String}
    {item : ResponsesItem} (h : item ∈ reasoningItems thinkingParts encryptedParts) :
    item.role = .assistant ∧ item.isReasoning = true ∧ item.held = [] := by
  unfold reasoningItems at h
  split at h
  · split_ifs at h
    · cases h
    · rw [List.mem_singleton.mp h]
      exact ⟨rfl, rfl, rfl⟩
  · rcases List.mem_cons.mp h with rfl | h
    · exact ⟨rfl, rfl, rfl⟩
    · obtain ⟨data, -, rfl⟩ := List.mem_map.mp h
      exact ⟨rfl, rfl, rfl⟩

theorem reasoningItems_summary (thinkingParts encryptedParts : List String) :
    (reasoningItems thinkingParts encryptedParts).flatMap ResponsesItem.summary =
      thinkingParts.filter isFilled := by
  have hfilled : isFilled = fun text => decide (text ≠ "") := rfl
  unfold reasoningItems
  cases encryptedParts with
  | nil =>
    split_ifs with hempty
    · simp [hempty]
    · simp [ResponsesItem.summary, hfilled]
  | cons encrypted others =>
    simp [List.flatMap_map, ResponsesItem.summary, hfilled]

theorem reasoningItems_encrypted (thinkingParts encryptedParts : List String) :
    (reasoningItems thinkingParts encryptedParts).flatMap ResponsesItem.encryptedContent =
      encryptedParts := by
  unfold reasoningItems
  cases encryptedParts with
  | nil =>
    split_ifs
    · rfl
    · rfl
  | cons encrypted others => simp [List.flatMap_map, ResponsesItem.encryptedContent]

/-- Reasoning first, and then what holds the other blocks. -/
theorem turnHolds_of_parts {message : Message} {reasoning others : List ResponsesItem}
    (hrole : message.role = .assistant)
    (hreasoning : ∀ item ∈ reasoning,
      item.role = .assistant ∧ item.isReasoning = true ∧ item.held = [])
    (hothers : ∀ item ∈ others, item.role = .assistant ∧ item.isReasoning = false)
    (hthinking : (reasoning.flatMap ResponsesItem.summary).filter isFilled =
      messageThinking message)
    (hredacted : reasoning.flatMap ResponsesItem.encryptedContent =
      (messageBlocks message).filterMap redactedData)
    (hheld : List.Forall₂ (BlockHeld ext toolNames) ((messageBlocks message).filter isContent)
      (others.flatMap ResponsesItem.held)) :
    TurnHolds ext toolNames message (reasoning ++ others) := by
  have hsummary : others.flatMap ResponsesItem.summary = [] :=
    List.flatMap_eq_nil_iff.mpr fun item hitem => summary_of_not_reasoning (hothers item hitem).2
  have hencrypted : others.flatMap ResponsesItem.encryptedContent = [] :=
    List.flatMap_eq_nil_iff.mpr fun item hitem =>
      encryptedContent_of_not_reasoning (hothers item hitem).2
  have hnone : reasoning.flatMap ResponsesItem.held = [] :=
    List.flatMap_eq_nil_iff.mpr fun item hitem => (hreasoning item hitem).2.2
  exact {
    roles := by
      intro item hitem
      rw [hrole]
      rcases List.mem_append.mp hitem with hitem | hitem
      · exact (hreasoning item hitem).1
      · exact (hothers item hitem).1
    reasoningFirst := ⟨reasoning, others, rfl, fun item hitem => (hreasoning item hitem).2.1,
      fun item hitem => (hothers item hitem).2⟩
    thinking := by rw [List.flatMap_append, hsummary, List.append_nil, hthinking]
    redacted := by rw [List.flatMap_append, hencrypted, List.append_nil, hredacted]
    blocks := by
      intro _
      rw [List.flatMap_append, hnone, List.nil_append]
      exact hheld }

theorem flushText_append (reasoning : List ResponsesItem) (turn : AssistantItems) :
    ({ turn with items := reasoning ++ turn.items } : AssistantItems).flushText.items =
      reasoning ++ turn.flushText.items := by
  unfold AssistantItems.flushText
  split_ifs
  · rfl
  · exact List.append_assoc _ _ _

/-- The items of an assistant message hold it. -/
theorem assistantItems_holds {message : Message} {items : List ResponsesItem}
    (hrole : message.role = .assistant)
    (h : assistantItems ext toolNames message.content message.reasoningContent = .ok items) :
    TurnHolds ext toolNames message items := by
  unfold assistantItems at h
  cases hcontent : message.content with
  | str text =>
    rw [hcontent] at h
    cases h
    have hblocks : messageBlocks message = [.text text] := by simp [messageBlocks, hcontent]
    refine turnHolds_of_parts hrole ?_ ?_ ?_ ?_ ?_
    · intro item hitem
      obtain ⟨reasoning, -, rfl⟩ := List.mem_map.mp hitem
      exact ⟨rfl, rfl, rfl⟩
    · intro item hitem
      rw [List.mem_singleton.mp hitem]
      exact ⟨rfl, rfl⟩
    · rw [messageThinking, hblocks]
      cases message.reasoningContent <;> rfl
    · rw [hblocks]
      cases message.reasoningContent <;> rfl
    · rw [hblocks]
      exact .cons rfl .nil
  | list blocks =>
    rw [hcontent] at h
    obtain ⟨turn, hturn, h⟩ := bind_eq_ok.mp h
    have hdone : AssistantDone ext toolNames message.reasoningContent blocks turn := by
      refine foldlM_ok_invariant
        (P := AssistantDone ext toolNames message.reasoningContent)
        (fun done block turn next hdone hnext => hdone.add hnext) ?_ hturn
      exact { held := .nil, thinking := by simp, encrypted := rfl, items := by simp }
    have hblocks : messageBlocks message = blocks := by simp [messageBlocks, hcontent]
    cases h
    rw [flushText_append]
    refine turnHolds_of_parts hrole (fun item => reasoningItems_reasoning) ?_ ?_ ?_ ?_
    · intro item hitem
      rcases flushText_mem hitem with hitem | rfl
      · exact hdone.items item hitem
      · exact ⟨rfl, rfl⟩
    · rw [reasoningItems_summary, messageThinking, hblocks, hdone.thinking, List.filter_filter]
      simp
    · rw [reasoningItems_encrypted, hblocks, hdone.encrypted]
    · rw [flushText_held, hblocks]
      exact hdone.held

/-! ## User messages -/

theorem flushMessage_held (turn : UserItems) :
    turn.flushMessage.items.flatMap ResponsesItem.held =
      turn.items.flatMap ResponsesItem.held ++ turn.messageParts.map heldPart := by
  unfold UserItems.flushMessage
  split_ifs with hempty
  · simp [List.isEmpty_iff.mp hempty]
  · simp [ResponsesItem.held]

@[simp] theorem flushMessage_messageParts (turn : UserItems) :
    turn.flushMessage.messageParts = [] := by
  unfold UserItems.flushMessage
  split_ifs with hempty
  · exact List.isEmpty_iff.mp hempty
  · rfl

theorem flushMessage_mem {turn : UserItems} {item : ResponsesItem}
    (h : item ∈ turn.flushMessage.items) :
    item ∈ turn.items ∨ item = .userMessage turn.messageParts := by
  unfold UserItems.flushMessage at h
  split_ifs at h
  · exact .inl h
  · simpa using h

/-- What the loop of `_user_items` has made of the blocks done so far. -/
structure UserDone (ext : Externals) (toolNames : OpenAIToolNameCodec) (done : List ContentBlock)
    (turn : UserItems) : Prop where
  held : List.Forall₂ (BlockHeld ext toolNames) (done.filter isContent)
    (turn.items.flatMap ResponsesItem.held ++ turn.messageParts.map heldPart)
  noReasoning : ∀ block ∈ done, thinkingText block = none ∧ redactedData block = none
  items : ∀ item ∈ turn.items, item.role = .user ∧ item.isReasoning = false

theorem UserDone.add {done : List ContentBlock} {block : ContentBlock} {turn next : UserItems}
    (h : UserDone ext toolNames done turn) (hnext : addUserBlock ext turn block = .ok next) :
    UserDone ext toolNames (done ++ [block]) next := by
  unfold addUserBlock at hnext
  have hdone : thinkingText block = none ∧ redactedData block = none →
      ∀ other ∈ done ++ [block], thinkingText other = none ∧ redactedData other = none := by
    intro hblock other hother
    rcases List.mem_append.mp hother with hother | hother
    · exact h.noReasoning other hother
    · rw [List.mem_singleton.mp hother]
      exact hblock
  by_cases hmeta : block.isToolSearchMetadata = true
  · rw [if_pos hmeta] at hnext
    cases hnext
    have hcontent : isContent block = false := by simp [isContent, hmeta]
    exact {
      held := by simpa [List.filter_append, hcontent] using h.held
      noReasoning := hdone (thinkingText_of_metadata hmeta)
      items := h.items }
  · rw [if_neg hmeta] at hnext
    cases block with
    | text text =>
      cases hnext
      refine { held := ?_, noReasoning := hdone ⟨rfl, rfl⟩, items := h.items }
      rw [List.filter_append, List.map_append, ← List.append_assoc]
      exact List.rel_append h.held (.cons rfl .nil)
    | image source =>
      obtain ⟨url, hurl, hnext⟩ := bind_eq_ok.mp hnext
      cases hnext
      refine { held := ?_, noReasoning := hdone ⟨rfl, rfl⟩, items := h.items }
      rw [List.filter_append, List.map_append, ← List.append_assoc]
      exact List.rel_append h.held (.cons (imagePart_holds hurl) .nil)
    | toolResult toolUseId content =>
      obtain ⟨output, houtput, hnext⟩ := bind_eq_ok.mp hnext
      cases hnext
      refine { held := ?_, noReasoning := hdone ⟨rfl, rfl⟩, items := ?_ }
      · rw [List.filter_append, flushMessage_messageParts, List.map_nil, List.append_nil,
          List.flatMap_append, flushMessage_held]
        exact List.rel_append h.held (.cons ⟨rfl, toolResultOutput_holds houtput⟩ .nil)
      · intro item hitem
        rcases List.mem_append.mp hitem with hitem | hitem
        · rcases flushMessage_mem hitem with hitem | rfl
          · exact h.items item hitem
          · exact ⟨rfl, rfl⟩
        · rw [List.mem_singleton.mp hitem]
          exact ⟨rfl, rfl⟩
    | _ => cases hnext

/-- The items of a user message hold its blocks, none of which is reasoning. -/
theorem userItems_done {message : Message} {items : List ResponsesItem}
    (h : userItems ext message.content = .ok items) :
    UserDone ext toolNames (messageBlocks message) { items := items } := by
  unfold userItems at h
  cases hcontent : message.content with
  | str text =>
    rw [hcontent] at h
    cases h
    have hblocks : messageBlocks message = [.text text] := by simp [messageBlocks, hcontent]
    rw [hblocks]
    exact {
      held := .cons rfl .nil
      noReasoning := by simp [thinkingText, redactedData]
      items := by simp [ResponsesItem.role, ResponsesItem.isReasoning] }
  | list blocks =>
    rw [hcontent] at h
    obtain ⟨turn, hturn, h⟩ := bind_eq_ok.mp h
    have hdone : UserDone ext toolNames blocks turn := by
      refine foldlM_ok_invariant (P := UserDone ext toolNames)
        (fun done block turn next hdone hnext => hdone.add hnext) ?_ hturn
      exact { held := .nil, noReasoning := by simp, items := by simp }
    have hblocks : messageBlocks message = blocks := by simp [messageBlocks, hcontent]
    cases h
    rw [hblocks]
    refine { held := ?_, noReasoning := hdone.noReasoning, items := ?_ }
    · rw [List.map_nil, List.append_nil, flushMessage_held]
      exact hdone.held
    · intro item hitem
      rcases flushMessage_mem hitem with hitem | rfl
      · exact hdone.items item hitem
      · exact ⟨rfl, rfl⟩

/-! ## System messages -/

theorem systemTexts_list {context : String} {blocks : List ContentBlock} {texts : List String}
    (h : systemTexts context (.list blocks) = .ok texts) :
    texts = blocks.filterMap blockText ∧
      ∀ block ∈ blocks, (blockText block).isSome = true := by
  induction blocks generalizing texts with
  | nil =>
    cases h
    simp
  | cons block blocks ih =>
    rw [systemTexts, List.mapM_cons] at h
    obtain ⟨text, htext, h⟩ := bind_eq_ok.mp h
    obtain ⟨others, hothers, h⟩ := bind_eq_ok.mp h
    cases h
    obtain ⟨rfl, hall⟩ := ih hothers
    cases block with
    | text own =>
      cases htext
      exact ⟨rfl, List.forall_mem_cons.mpr ⟨rfl, hall⟩⟩
    | _ => cases htext

theorem systemTexts_texts {context : String} {message : Message} {texts : List String}
    (h : systemTexts context message.content = .ok texts) :
    texts = (messageBlocks message).filterMap blockText ∧
      ∀ block ∈ messageBlocks message, (blockText block).isSome = true := by
  unfold messageBlocks
  cases hcontent : message.content with
  | str text =>
    rw [hcontent] at h
    cases h
    simp [blockText]
  | list blocks =>
    rw [hcontent] at h
    exact systemTexts_list h

theorem eq_empty_of_intercalate {separator : String} {texts : List String}
    (h : separator.intercalate texts = "") : ∀ text ∈ texts, text = "" := by
  induction texts with
  | nil => simp
  | cons first texts ih =>
    by_cases hempty : texts = []
    · rw [hempty, String.intercalate_singleton] at h
      simp [hempty, h]
    · rw [String.intercalate_cons_of_ne_nil hempty] at h
      simp only [String.append_eq_empty_iff] at h
      exact List.forall_mem_cons.mpr ⟨h.1.1, ih h.2⟩

/-- Texts that were joined in groups are joined. -/
theorem intercalate_groups (separator : String) {groups : List (List String)}
    (hgroups : ∀ group ∈ groups, group ≠ []) :
    separator.intercalate (groups.map separator.intercalate) =
      separator.intercalate groups.flatten := by
  induction groups with
  | nil => rfl
  | cons group groups ih =>
    rw [List.forall_mem_cons] at hgroups
    by_cases hempty : groups = []
    · simp [hempty]
    · have hmap : groups.map separator.intercalate ≠ [] := by simpa using hempty
      have hflatten : groups.flatten ≠ [] := by
        obtain ⟨other, others, rfl⟩ := List.exists_cons_of_ne_nil hempty
        simp [hgroups.2 other List.mem_cons_self]
      rw [List.map_cons, List.flatten_cons, String.intercalate_cons_of_ne_nil hmap,
        String.intercalate_append_of_ne_nil hgroups.1 hflatten, ih hgroups.2]

/-- Instructions, as the texts that were joined in them; blank texts may be missing. -/
def Joined (texts instructions : List String) : Prop :=
  ∃ groups : List (List String), (∀ group ∈ groups, group ≠ []) ∧
    instructions = groups.map "\n\n".intercalate ∧
    groups.flatten.filter isFilled = texts.filter isFilled

theorem Joined.append {texts others instructions added : List String}
    (h : Joined texts instructions) (hadded : Joined others added) :
    Joined (texts ++ others) (instructions ++ added) := by
  obtain ⟨groups, hgroups, rfl, hfilled⟩ := h
  obtain ⟨more, hmore, rfl, hmoreFilled⟩ := hadded
  refine ⟨groups ++ more, ?_, by simp, by simp [hfilled, hmoreFilled]⟩
  intro group hgroup
  rcases List.mem_append.mp hgroup with hgroup | hgroup
  · exact hgroups group hgroup
  · exact hmore group hgroup

theorem joined_filled (texts : List String) : Joined texts (texts.filter isFilled) := by
  have hflatten : ∀ texts : List String, (texts.map fun text => [text]).flatten = texts := by
    intro texts
    induction texts with
    | nil => rfl
    | cons text texts ih => rw [List.map_cons, List.flatten_cons, ih, List.singleton_append]
  refine ⟨(texts.filter isFilled).map fun text => [text], ?_, ?_, ?_⟩
  · intro group hgroup
    obtain ⟨text, -, rfl⟩ := List.mem_map.mp hgroup
    exact List.cons_ne_nil _ _
  · simp [Function.comp_def]
  · rw [hflatten, List.filter_filter]
    simp

theorem systemText_eq (request : MessagesRequest) :
    systemText request = (systemPromptTexts request).filter isFilled := by
  unfold systemText systemPromptTexts
  cases request.system with
  | none => rfl
  | some system =>
    cases system with
    | str text =>
      by_cases hempty : text = "" <;> simp [hempty, isFilled]
    | parts texts => rfl

theorem joined_messageInstructions {message : Message} {instructions : List String}
    (h : messageInstructions message = .ok instructions) :
    Joined (systemMessageTexts message) instructions := by
  unfold messageInstructions at h
  unfold systemMessageTexts
  cases hrole : message.role with
  | system =>
    rw [hrole] at h
    obtain ⟨text, htext, h⟩ := bind_eq_ok.mp h
    obtain ⟨texts, htexts, htext⟩ := bind_eq_ok.mp htext
    cases htext
    cases h
    rw [if_pos rfl, ← (systemTexts_texts htexts).1]
    by_cases hempty : "\n\n".intercalate texts = ""
    · rw [if_pos hempty]
      refine ⟨[], by simp, rfl, ?_⟩
      symm
      rw [List.flatten_nil, List.filter_nil, List.filter_eq_nil_iff]
      intro text htext
      simp [isFilled, eq_empty_of_intercalate hempty text htext]
    · rw [if_neg hempty]
      refine ⟨[texts], ?_, rfl, by simp⟩
      intro group hgroup hnil
      rw [List.mem_singleton.mp hgroup] at hnil
      exact hempty (by simp [hnil])
  | user | assistant =>
    rw [hrole] at h
    cases h
    exact ⟨[], by simp, rfl, by simp⟩

end Switchboard.Core.Responses
