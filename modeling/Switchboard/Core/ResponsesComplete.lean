import Mathlib
import Switchboard.Core.ResponsesHistory

/-!
# Which requests hold their history

A request that is built holds its history exactly where only assistants have reasoning, and
what is raised instead is the conversion's own error unless a lookup or the image library
fails at a block that is reached.
-/

namespace Switchboard.Core.Responses

open Switchboard.Text Switchboard.Core.Anthropic Switchboard.Core.ToolNames

variable {ext : Externals} {toolNames : OpenAIToolNameCodec}

/-! ## Histories -/

/-- A message that is converted, with its items and what it adds to the instructions. -/
structure Converts (ext : Externals) (toolNames : OpenAIToolNameCodec) (message : Message)
    (items : List ResponsesItem) (instructions : List String) : Prop where
  items : messageItems ext toolNames message = .ok items
  instructions : messageInstructions message = .ok instructions

/-- What the loop over the messages returns is what each message was converted to. -/
theorem addMessages_ok {messages : List Message} {start final : List String × List ResponsesItem}
    (h : messages.foldlM (addMessage ext toolNames) start = .ok final) :
    ∃ converted : List (List ResponsesItem × List String),
      List.Forall₂ (fun message parts => Converts ext toolNames message parts.1 parts.2) messages
        converted ∧
      final = (start.1 ++ (converted.map Prod.snd).flatten,
        start.2 ++ (converted.map Prod.fst).flatten) := by
  induction messages generalizing start with
  | nil =>
    cases h
    exact ⟨[], .nil, by simp⟩
  | cons message messages ih =>
    rw [List.foldlM_cons] at h
    obtain ⟨next, hnext, h⟩ := bind_eq_ok.mp h
    obtain ⟨converted, hconverted, hfinal⟩ := ih h
    obtain ⟨instructions, hinstructions, hnext⟩ := bind_eq_ok.mp hnext
    obtain ⟨items, hitems, hnext⟩ := bind_eq_ok.mp hnext
    cases hnext
    exact ⟨(items, instructions) :: converted, .cons ⟨hitems, hinstructions⟩ hconverted,
      by simp [hfinal]⟩

/-- A message of a user or the system has no reasoning text. -/
def NoReasoning (message : Message) : Prop :=
  message.role ≠ .assistant → message.reasoningContent.getD "" = ""

theorem filter_reasoning {reasoning : Option String} :
    reasoning.toList.filter isFilled = [] ↔ reasoning.getD "" = "" := by
  cases reasoning with
  | none => simp
  | some text => simp [isFilled]

theorem Converts.system_texts {message : Message} {items : List ResponsesItem}
    {instructions : List String} (h : Converts ext toolNames message items instructions)
    (hrole : message.role = .system) :
    ∀ block ∈ messageBlocks message, (blockText block).isSome = true := by
  have htexts := h.instructions
  rw [messageInstructions, hrole] at htexts
  obtain ⟨text, htext, -⟩ := bind_eq_ok.mp htexts
  obtain ⟨texts, htexts, -⟩ := bind_eq_ok.mp htext
  exact (systemTexts_texts htexts).2

/-- Only the reasoning of a message is no part of what it was converted to: that of a user or
the system. -/
theorem messageThinking_of_other {message : Message} {items : List ResponsesItem}
    {instructions : List String} (h : Converts ext toolNames message items instructions)
    (hrole : message.role ≠ .assistant) :
    messageThinking message = message.reasoningContent.toList.filter isFilled ∧
      (messageBlocks message).filterMap redactedData = [] := by
  have hblocks : ∀ block ∈ messageBlocks message,
      thinkingText block = none ∧ redactedData block = none := by
    cases hcase : message.role with
    | assistant => exact absurd hcase hrole
    | user =>
      have hitems := h.items
      rw [messageItems, hcase] at hitems
      have hdone : UserDone ext toolNames (messageBlocks message) { items := items } :=
        userItems_done hitems
      exact hdone.noReasoning
    | system =>
      intro block hblock
      have hsome := h.system_texts hcase block hblock
      cases block with
      | text own => exact ⟨rfl, rfl⟩
      | _ => cases hsome
  have hthinking : (messageBlocks message).filterMap thinkingText = [] :=
    List.filterMap_eq_nil_iff.mpr fun block hblock => (hblocks block hblock).1
  refine ⟨by rw [messageThinking, hthinking, List.append_nil], ?_⟩
  exact List.filterMap_eq_nil_iff.mpr fun block hblock => (hblocks block hblock).2

/-- What a message was converted to holds it, unless it is the reasoning of another role than
the assistant. -/
theorem Converts.holds {message : Message} {items : List ResponsesItem}
    {instructions : List String} (h : Converts ext toolNames message items instructions)
    (hreasoning : NoReasoning message) : TurnHolds ext toolNames message items := by
  have hitems := h.items
  unfold messageItems at hitems
  cases hrole : message.role with
  | assistant =>
    rw [hrole] at hitems
    exact assistantItems_holds hrole hitems
  | user =>
    rw [hrole] at hitems
    obtain ⟨hthinking, hredacted⟩ := messageThinking_of_other h (by simp [hrole])
    have hdone : UserDone ext toolNames (messageBlocks message) { items := items } :=
      userItems_done hitems
    have hempty := filter_reasoning.mpr (hreasoning (by simp [hrole]))
    have hsummary : items.flatMap ResponsesItem.summary = [] :=
      List.flatMap_eq_nil_iff.mpr fun item hitem =>
        summary_of_not_reasoning (hdone.items item hitem).2
    have hencrypted : items.flatMap ResponsesItem.encryptedContent = [] :=
      List.flatMap_eq_nil_iff.mpr fun item hitem =>
        encryptedContent_of_not_reasoning (hdone.items item hitem).2
    exact {
      roles := fun item hitem => (hdone.items item hitem).1.trans hrole.symm
      reasoningFirst := ⟨[], items, rfl, by simp, fun item hitem => (hdone.items item hitem).2⟩
      thinking := by rw [hthinking, hempty, hsummary]; rfl
      redacted := by rw [hredacted, hencrypted]
      blocks := fun _ => by simpa using hdone.held }
  | system =>
    rw [hrole] at hitems
    cases hitems
    obtain ⟨hthinking, hredacted⟩ := messageThinking_of_other h (by simp [hrole])
    have hempty := filter_reasoning.mpr (hreasoning (by simp [hrole]))
    exact {
      roles := by simp
      reasoningFirst := ⟨[], [], rfl, by simp, by simp⟩
      thinking := by rw [hthinking, hempty]; rfl
      redacted := hredacted.symm
      blocks := fun hsystem => absurd hrole hsystem }

/-- The thinking in the items of a message. -/
def keptThinking (message : Message) : List String :=
  if message.role = .assistant then messageThinking message else []

theorem Converts.summary {message : Message} {items : List ResponsesItem}
    {instructions : List String} (h : Converts ext toolNames message items instructions) :
    (items.flatMap ResponsesItem.summary).filter isFilled = keptThinking message := by
  have hitems := h.items
  unfold messageItems at hitems
  unfold keptThinking
  cases hrole : message.role with
  | assistant =>
    rw [hrole] at hitems
    exact (assistantItems_holds hrole hitems).thinking
  | user =>
    rw [hrole] at hitems
    have hdone : UserDone ext toolNames (messageBlocks message) { items := items } :=
      userItems_done hitems
    have hsummary : items.flatMap ResponsesItem.summary = [] :=
      List.flatMap_eq_nil_iff.mpr fun item hitem =>
        summary_of_not_reasoning (hdone.items item hitem).2
    simp [hsummary]
  | system =>
    rw [hrole] at hitems
    cases hitems
    rfl

/-- A part of a concatenation that may be missing is empty where nothing is missing. -/
theorem nil_of_flatMap_length {α β : Type} {p : α → Prop} [DecidablePred p] {f : α → List β}
    {l : List α}
    (h : (l.flatMap f).length ≤ (l.flatMap fun a => if p a then f a else []).length) :
    ∀ a ∈ l, ¬ p a → f a = [] := by
  have hle : ∀ l : List α, (l.flatMap fun a => if p a then f a else []).length ≤
      (l.flatMap f).length := by
    intro l
    induction l with
    | nil => rfl
    | cons a l ih =>
      simp only [List.flatMap_cons, List.length_append]
      split_ifs
      · omega
      · simp only [List.length_nil]
        omega
  induction l with
  | nil => simp
  | cons a l ih =>
    have hrest := hle l
    simp only [List.flatMap_cons, List.length_append] at h
    refine List.forall_mem_cons.mpr ⟨fun ha => ?_, ih ?_⟩
    · rw [if_neg ha, List.length_nil] at h
      exact List.length_eq_zero_iff.mp (by omega)
    · split_ifs at h
      · omega
      · rw [List.length_nil] at h
        omega

theorem flatMap_of_forall₂ {α β γ : Type} {R : α → β → Prop} {f : α → List γ} {g : β → List γ}
    {l : List α} {m : List β} (hrel : List.Forall₂ R l m) (h : ∀ a b, R a b → f a = g b) :
    l.flatMap f = m.flatMap g := by
  induction hrel with
  | nil => rfl
  | cons hab _ ih => rw [List.flatMap_cons, List.flatMap_cons, h _ _ hab, ih]

theorem exists_of_forall₂ {α β : Type} {R : α → β → Prop} {l : List α} {m : List β}
    (h : List.Forall₂ R l m) : ∀ a ∈ l, ∃ b, R a b := by
  induction h with
  | nil => simp
  | cons hab _ ih => exact List.forall_mem_cons.mpr ⟨⟨_, hab⟩, ih⟩

theorem turnsHold {messages : List Message} {converted : List (List ResponsesItem × List String)}
    (h : List.Forall₂ (fun message parts => Converts ext toolNames message parts.1 parts.2)
      messages converted) (hreasoning : ∀ message ∈ messages, NoReasoning message) :
    List.Forall₂ (TurnHolds ext toolNames) messages (converted.map Prod.fst) := by
  induction h with
  | nil => exact .nil
  | cons hmessage _ ih =>
    rw [List.forall_mem_cons] at hreasoning
    exact .cons (hmessage.holds hreasoning.1) (ih hreasoning.2)

/-- The thinking in a list of items. -/
def thinkingOf (items : List ResponsesItem) : List String :=
  (items.flatMap ResponsesItem.summary).filter isFilled

theorem thinkingOf_flatten (turns : List (List ResponsesItem)) :
    thinkingOf turns.flatten = turns.flatMap thinkingOf := by
  induction turns with
  | nil => rfl
  | cons turn turns ih =>
    rw [List.flatMap_cons, ← ih]
    simp [thinkingOf]

theorem joined_messages {messages : List Message}
    {converted : List (List ResponsesItem × List String)}
    (h : List.Forall₂ (fun message parts => Converts ext toolNames message parts.1 parts.2)
      messages converted) :
    Joined (messages.flatMap systemMessageTexts) (converted.map Prod.snd).flatten := by
  induction h with
  | nil => exact ⟨[], by simp, rfl, rfl⟩
  | cons hmessage _ ih => exact (joined_messageInstructions hmessage.instructions).append ih

variable {selectPromptCacheKey : CacheKeySources → Option String} {request : MessagesRequest}
  {reasoning : ReasoningPolicy} {promptCacheKey : Option String}
  {explicitPromptCacheBreakpoint : Bool} {body : ResponsesBody}

/-- What a request that is built was built from. -/
theorem build_ok
    (h : buildResponsesProviderRequest ext toolNames selectPromptCacheKey request reasoning
      promptCacheKey explicitPromptCacheBreakpoint = .ok body) :
    ∃ (converted : List (List ResponsesItem × List String)) (instructions : List String),
      List.Forall₂ (fun message parts => Converts ext toolNames message parts.1 parts.2)
        request.messages converted ∧
      Joined (instructionTexts request) instructions ∧
      (body.instructions.getD "" = "\n\n".intercalate instructions ∧
          body.input = (converted.map Prod.fst).flatten ∨
        body.instructions = none ∧
          body.input = .developerMessage ("\n\n".intercalate instructions) true ::
            (converted.map Prod.fst).flatten) := by
  unfold buildResponsesProviderRequest at h
  obtain ⟨_, -, h⟩ := bind_eq_ok.mp h
  obtain ⟨final, hfinal, h⟩ := bind_eq_ok.mp h
  obtain ⟨converted, hconverted, rfl⟩ := addMessages_ok hfinal
  simp only [List.nil_append] at h
  obtain ⟨-, h⟩ := guard_eq_ok.mp h
  obtain ⟨choice, -, h⟩ := bind_eq_ok.mp h
  cases h
  refine ⟨converted, systemText request ++ (converted.map Prod.snd).flatten, hconverted, ?_, ?_⟩
  · rw [systemText_eq]
    exact (joined_filled _).append (joined_messages hconverted)
  · generalize systemText request ++ (converted.map Prod.snd).flatten = instructions
    by_cases hnone : instructions = []
    · exact .inl ⟨by simp [hnone], by simp [hnone]⟩
    · cases explicitPromptCacheBreakpoint with
      | true => exact .inr ⟨by simp, by simp [hnone]⟩
      | false => exact .inl ⟨by simp [hnone], by simp⟩

/-- A request that is built holds its history exactly where no user and no system message has a
reasoning text. -/
theorem holdsHistory_iff
    (h : buildResponsesProviderRequest ext toolNames selectPromptCacheKey request reasoning
      promptCacheKey explicitPromptCacheBreakpoint = .ok body) :
    HoldsHistory ext toolNames request body ↔
      ∀ message ∈ request.messages, NoReasoning message := by
  obtain ⟨converted, instructions, hconverted, hjoined, hplaced⟩ := build_ok h
  constructor
  · rintro ⟨turns, pieces, hturns, -, -, hinput⟩
    have hheld : request.messages.flatMap messageThinking = turns.flatMap thinkingOf :=
      flatMap_of_forall₂ hturns fun message items hturn => hturn.thinking.symm
    have hkept : request.messages.flatMap keptThinking =
        (converted.map Prod.fst).flatMap thinkingOf := by
      rw [List.flatMap_map]
      exact flatMap_of_forall₂ hconverted fun message parts hparts => hparts.summary.symm
    have hsame : thinkingOf body.input = request.messages.flatMap messageThinking := by
      rw [hheld, ← thinkingOf_flatten]
      rcases hinput with ⟨-, hinput⟩ | ⟨-, hinput⟩
      · rw [hinput]
      · rw [hinput]
        rfl
    have hbuilt : thinkingOf body.input = request.messages.flatMap keptThinking := by
      rw [hkept, ← thinkingOf_flatten]
      rcases hplaced with ⟨-, hinput⟩ | ⟨-, hinput⟩
      · rw [hinput]
      · rw [hinput]
        rfl
    have hnone := nil_of_flatMap_length (p := fun message : Message => message.role = .assistant)
      (f := messageThinking) (l := request.messages)
      (by rw [← hsame, hbuilt]; rfl)
    intro message hmessage hrole
    obtain ⟨parts, hparts⟩ := exists_of_forall₂ hconverted message hmessage
    rw [← filter_reasoning, ← (messageThinking_of_other hparts hrole).1]
    exact hnone message hmessage hrole
  · intro hreasoning
    obtain ⟨groups, hgroups, rfl, hfilled⟩ := hjoined
    refine ⟨converted.map Prod.fst, groups.flatten, ?_, ?_, hfilled, ?_⟩
    · exact turnsHold hconverted hreasoning
    · intro message hmessage hrole
      obtain ⟨parts, hparts⟩ := exists_of_forall₂ hconverted message hmessage
      exact hparts.system_texts hrole
    · rw [← intercalate_groups _ hgroups]
      exact hplaced

/-! ## What leaves the conversion -/

/-- The image library fails on a base64 image that passes the checks before it. -/
def ImagePartFails (library : ImageLibrary) (block : Json) : Prop :=
  let source := normalizeImageSource block
  isText "url" (source.getD "type") = false ∧ isText "base64" (source.getD "type") = true ∧
    ∃ mediaType encoded, source.getD "media_type" = .str mediaType ∧
      source.getD "data" = .str encoded ∧ mediaType ∈ supportedImageTypes ∧
      encoded.length ≤ 4 * ((maxImageBytes + 2) / 3) ∧
      ∃ data, b64decode encoded.toList = some data ∧ data ≠ [] ∧ data.length ≤ maxImageBytes ∧
        library.open? data = .failed

theorem foreign_imagePart (block : Json) :
    Foreign (imagePart ext block) ↔ ImagePartFails ext.library block := by
  unfold imagePart ImagePartFails
  generalize normalizeImageSource block = source
  dsimp only
  by_cases hurl : isText "url" (source.getD "type") = true
  · simp only [hurl, if_true, Bool.true_eq_false, false_and, iff_false]
    cases source.getD "url" with
    | str url =>
      show ¬ Foreign (validateImageUrl ext.library url >>= fun _ => pure url)
      rw [foreign_bind_left fun _ => not_foreign_pure _]
      exact not_foreign_validateImageUrl _ _
    | _ => simp [Raised.isConversion]
  · simp only [hurl, Bool.false_eq_true, if_false, true_and]
    by_cases hbase64 : isText "base64" (source.getD "type") = true
    · simp only [hbase64, if_true, true_and]
      cases hmedia : source.getD "media_type" with
      | str mediaType =>
        cases hdata : source.getD "data" with
        | str encoded =>
          show Foreign (validateBase64Source ext.library mediaType encoded >>= fun _ => pure _) ↔ _
          rw [foreign_bind_left fun _ => not_foreign_pure _, foreign_validateBase64Source]
          simp
        | _ => simp [Raised.isConversion]
      | _ => simp [Raised.isConversion]
    · simp [hbase64, Raised.isConversion]

/-- What breaks the conversion of a block of a tool result with media. -/
def OutputBlockFails (library : ImageLibrary) (block : Json) : Prop :=
  if lookupFails block then True
  else if isMetadata block || isTextBlock block then False
  else if isImageBlock block then ImagePartFails library block
  else isText "document" (block.getD "type") = false ∧ mediaLookupFails block = true

theorem foreign_addOutputBlock (toolUseId : String) (output : List ContentPart) (block : Json) :
    Foreign (addOutputBlock ext toolUseId output block) ↔
      OutputBlockFails ext.library block := by
  unfold OutputBlockFails
  by_cases hlookup : lookupFails block = true
  · rw [addOutputBlock, isToolSearchMetadataBlock_eq]
    simp [hlookup, foreign_bind, Raised.isConversion]
  · by_cases hmeta : isMetadata block = true
    · rw [addOutputBlock, isToolSearchMetadataBlock_eq]
      simp [hlookup, hmeta, foreign_bind]
    · rw [Bool.not_eq_true] at hlookup hmeta
      rw [addOutputBlock_eq ext toolUseId output block hlookup hmeta]
      by_cases htext : isTextBlock block = true
      · simp [hlookup, hmeta, htext]
      · by_cases himage : isImageBlock block = true
        · simp [hlookup, hmeta, htext, himage, foreign_imagePart]
        · by_cases hdocument : isText "document" (block.getD "type") = true
          · simp [hlookup, hmeta, htext, himage, hdocument, Raised.isConversion]
          · simp only [hlookup, hmeta, htext, himage, hdocument, Bool.false_eq_true, if_false,
              Bool.or_self, foreign_bind, (looks_toolResultMediaBlockTypes block).foreign, true_and]
            constructor
            · rintro (hfails | ⟨nestedMedia, -, hnested⟩)
              · exact hfails
              · split_ifs at hnested
                · simp [Raised.isConversion] at hnested
                · rw [foreign_map, (looks_serialize _ _).foreign] at hnested
                  simp [mediaLookupFails, hnested]
            · exact .inl

/-- The blocks after which the loop goes on. -/
def OutputBlockPasses (ext : Externals) (toolUseId : String) (block : Json) : Prop :=
  ∃ output, addOutputBlock ext toolUseId [] block = .ok output

theorem addOutputBlock_returns (toolUseId : String) (output : List ContentPart) (block : Json) :
    (∃ next, addOutputBlock ext toolUseId output block = .ok next) ↔
      OutputBlockPasses ext toolUseId block := by
  unfold OutputBlockPasses
  by_cases hlookup : lookupFails block = true
  · simp [addOutputBlock, isToolSearchMetadataBlock_eq, hlookup, bind_eq_ok]
  · by_cases hmeta : isMetadata block = true
    · simp only [addOutputBlock, isToolSearchMetadataBlock_eq, hlookup, hmeta]
      exact iff_of_true ⟨output, rfl⟩ ⟨[], rfl⟩
    · rw [Bool.not_eq_true] at hlookup hmeta
      simp only [addOutputBlock_eq ext toolUseId _ block hlookup hmeta]
      split_ifs
      · simp
      · cases imagePart ext block with
        | error e => exact iff_of_false (by rintro ⟨_, h⟩; cases h) (by rintro ⟨_, h⟩; cases h)
        | ok url => exact iff_of_true ⟨_, rfl⟩ ⟨_, rfl⟩
      · simp
      · cases toolResultMediaBlockTypes block with
        | error e => exact iff_of_false (by rintro ⟨_, h⟩; cases h) (by rintro ⟨_, h⟩; cases h)
        | ok nestedMedia =>
          cases nestedMedia with
          | nil =>
            cases serializeToolResultContent ext.dumpsUnicode block with
            | error e =>
              exact iff_of_false (by rintro ⟨_, h⟩; cases h) (by rintro ⟨_, h⟩; cases h)
            | ok text => exact iff_of_true ⟨_, rfl⟩ ⟨_, rfl⟩
          | cons media others =>
            exact iff_of_false (by rintro ⟨_, h⟩; cases h) (by rintro ⟨_, h⟩; cases h)

theorem not_foreign_outputBlocks (toolUseId : String) (media : List String) (content : Json) :
    ¬ Foreign (outputBlocks toolUseId media content) := by
  unfold outputBlocks
  split
  · simp
  · split_ifs <;> simp [Raised.isConversion]

/-- What breaks the conversion of a tool result: a lookup of a list or a mapping, or the first
of its blocks at which the loop ends. -/
def ResultFails (ext : Externals) (content : Json) (toolUseId : String) : Prop :=
  contentLookupFails content = true ∨ mediaLookupFails (realContent content) = true ∨
    ∃ media blocks, toolResultMediaBlockTypes (realContent content) = .ok media ∧ media ≠ [] ∧
      outputBlocks toolUseId media (realContent content) = .ok blocks ∧
      ∃ pre block post, blocks = pre ++ block :: post ∧
        (∀ passed ∈ pre, OutputBlockPasses ext toolUseId passed) ∧
        OutputBlockFails ext.library block

theorem foreign_toolResultOutput (content : Json) (toolUseId : String) :
    Foreign (toolResultOutput ext content toolUseId) ↔ ResultFails ext content toolUseId := by
  unfold toolResultOutput ResultFails
  rw [withoutToolSearchMetadata_eq]
  cases hlookup : contentLookupFails content with
  | true => simp [foreign_bind, Raised.isConversion]
  | false =>
    simp only [Bool.false_eq_true, if_false, false_or]
    show Foreign (toolResultMediaBlockTypes (realContent content) >>= fun media => _) ↔ _
    rw [foreign_bind, (looks_toolResultMediaBlockTypes _).foreign]
    refine or_congr Iff.rfl ⟨?_, ?_⟩
    · rintro ⟨media, hmedia, h⟩
      split_ifs at h with hempty
      · rw [foreign_bind_left fun text => not_foreign_pure _, (looks_serialize _ _).foreign,
          contentLookupFails_realContent hlookup] at h
        cases h
      · rw [foreign_bind] at h
        rcases h with h | ⟨blocks, hblocks, h⟩
        · exact absurd h (not_foreign_outputBlocks _ _ _)
        · rw [foreign_bind_left fun parts => not_foreign_pure _,
            foreign_loop (addOutputBlock_returns toolUseId) (foreign_addOutputBlock toolUseId)] at h
          exact ⟨media, blocks, hmedia, hempty, hblocks, h⟩
    · rintro ⟨media, blocks, hmedia, hempty, hblocks, h⟩
      refine ⟨media, hmedia, ?_⟩
      rw [if_neg hempty, foreign_bind]
      refine .inr ⟨blocks, hblocks, ?_⟩
      rw [foreign_bind_left fun parts => not_foreign_pure _,
        foreign_loop (addOutputBlock_returns toolUseId) (foreign_addOutputBlock toolUseId)]
      exact h

/-- What breaks the conversion of a block of a user. -/
def BlockFails (ext : Externals) : ContentBlock → Prop
  | .image source => ImagePartFails ext.library (imageBlock source)
  | .toolResult toolUseId content => ResultFails ext content.toJson toolUseId
  | _ => False

theorem foreign_addUserBlock (turn : UserItems) (block : ContentBlock) :
    Foreign (addUserBlock ext turn block) ↔ BlockFails ext block := by
  unfold addUserBlock
  by_cases hmeta : block.isToolSearchMetadata = true
  · rw [if_pos hmeta]
    cases block with
    | image source | toolResult toolUseId content =>
      simp [ContentBlock.isToolSearchMetadata, ContentBlock.blockType,
        toolSearchMetadataBlockTypes] at hmeta
    | _ => simp [BlockFails]
  · rw [if_neg hmeta]
    cases block with
    | image source =>
      rw [BlockFails, ← foreign_imagePart]
      exact foreign_bind_left fun url => not_foreign_pure _
    | toolResult toolUseId content =>
      rw [BlockFails, ← foreign_toolResultOutput]
      exact foreign_bind_left fun output => not_foreign_pure _
    | _ => simp [BlockFails, Raised.isConversion]

/-- The blocks of a user after which the loop goes on. -/
def BlockPasses (ext : Externals) (block : ContentBlock) : Prop :=
  ∃ turn, addUserBlock ext {} block = .ok turn

theorem addUserBlock_returns (turn : UserItems) (block : ContentBlock) :
    (∃ next, addUserBlock ext turn block = .ok next) ↔ BlockPasses ext block := by
  unfold BlockPasses addUserBlock
  split_ifs
  · simp
  · cases block with
    | image source =>
      simp only [bind_eq_ok]
      constructor
      · rintro ⟨next, url, hurl, -⟩
        exact ⟨_, url, hurl, rfl⟩
      · rintro ⟨next, url, hurl, -⟩
        exact ⟨_, url, hurl, rfl⟩
    | toolResult toolUseId content =>
      simp only [bind_eq_ok]
      constructor
      · rintro ⟨next, output, houtput, -⟩
        exact ⟨_, output, houtput, rfl⟩
      · rintro ⟨next, output, houtput, -⟩
        exact ⟨_, output, houtput, rfl⟩
    | _ => simp

/-- What breaks the conversion of a message: the first block of a user at which it ends. -/
def MessageFails (ext : Externals) (message : Message) : Prop :=
  message.role = .user ∧ ∃ blocks, message.content = .list blocks ∧
    ∃ pre block post, blocks = pre ++ block :: post ∧
      (∀ passed ∈ pre, BlockPasses ext passed) ∧ BlockFails ext block

theorem not_foreign_addAssistantBlock (turn : AssistantItems) (block : ContentBlock) :
    ¬ Foreign (addAssistantBlock ext toolNames turn block) := by
  unfold addAssistantBlock
  split_ifs
  · simp
  · cases block <;> simp [Raised.isConversion]

theorem foreign_messageItems (message : Message) :
    Foreign (messageItems ext toolNames message) ↔ MessageFails ext message := by
  unfold messageItems MessageFails
  cases message.role with
  | system => simp
  | assistant =>
    simp only [reduceCtorEq, false_and, iff_false]
    unfold assistantItems
    cases message.content with
    | str text => simp
    | list blocks =>
      show ¬ Foreign (blocks.foldlM (addAssistantBlock ext toolNames) _ >>= fun turn => pure _)
      rw [foreign_bind_left fun turn => not_foreign_pure _, foreign_foldlM]
      rintro ⟨_, block, _, turn, -, -, h⟩
      exact not_foreign_addAssistantBlock turn block h
  | user =>
    simp only [true_and]
    unfold userItems
    cases message.content with
    | str text => simp
    | list blocks =>
      show Foreign (blocks.foldlM (addUserBlock ext) {} >>= fun turn => pure _) ↔ _
      rw [foreign_bind_left fun turn => not_foreign_pure _,
        foreign_loop addUserBlock_returns foreign_addUserBlock]
      simp

/-! ## Requests -/

theorem not_foreign_messageInstructions (message : Message) :
    ¬ Foreign (messageInstructions message) := by
  unfold messageInstructions messageText systemTexts
  cases message.role with
  | system =>
    simp only [foreign_bind, not_foreign_pure, and_false, exists_false, or_false]
    cases message.content with
    | str text => simp
    | list blocks =>
      refine not_foreign_mapM (fun block => ?_) blocks
      cases block <;> simp [Raised.isConversion]
  | user | assistant => simp

/-- The messages after which the loop goes on. -/
def MessageConverts (ext : Externals) (toolNames : OpenAIToolNameCodec) (message : Message) :
    Prop :=
  ∃ items instructions, Converts ext toolNames message items instructions

theorem addMessage_returns (converted : List String × List ResponsesItem) (message : Message) :
    (∃ next, addMessage ext toolNames converted message = .ok next) ↔
      MessageConverts ext toolNames message := by
  unfold addMessage MessageConverts
  simp only [bind_eq_ok]
  constructor
  · rintro ⟨next, instructions, hinstructions, items, hitems, -⟩
    exact ⟨items, instructions, hitems, hinstructions⟩
  · rintro ⟨items, instructions, hitems, hinstructions⟩
    exact ⟨_, instructions, hinstructions, items, hitems, rfl⟩

theorem foreign_addMessage (converted : List String × List ResponsesItem) (message : Message) :
    Foreign (addMessage ext toolNames converted message) ↔ MessageFails ext message := by
  rw [← @foreign_messageItems ext toolNames message]
  unfold addMessage
  simp only [foreign_bind, not_foreign_messageInstructions, false_or, not_foreign_pure, and_false,
    exists_false, or_false]
  constructor
  · rintro ⟨instructions, -, hitems⟩
    exact hitems
  · intro hitems
    have hrole : message.role = .user := ((foreign_messageItems message).mp hitems).1
    exact ⟨[], by simp [messageInstructions, hrole], hitems⟩

theorem not_foreign_bind {α β : Type} {x : Except Raised α} {f : α → Except Raised β}
    (hx : ¬ Foreign x) (hf : ∀ a, ¬ Foreign (f a)) : ¬ Foreign (x >>= f) := by
  rwa [foreign_bind_left hf]

theorem not_foreign_guard {α β : Type} {c : Prop} [Decidable c] {message : String}
    {k : α → Except Raised β} {x : Except Raised β} (hx : ¬ Foreign x) :
    ¬ Foreign (if c then (throw (.conversion message) : Except Raised α) >>= k else x) := by
  split_ifs
  · simp [foreign_bind, Raised.isConversion]
  · exact hx

theorem not_foreign_validate (request : MessagesRequest) :
    ¬ Foreign (validateSupportedRequest request) := by
  have hsummary : ∀ config, ¬ Foreign (validateReasoningSummary config) := by
    intro config
    unfold validateReasoningSummary
    split
    · simp
    · split_ifs <;> simp [Raised.isConversion]
  have hformat : ∀ config, ¬ Foreign (validateStructuredOutputFormat config) := by
    intro config
    unfold validateStructuredOutputFormat
    split
    · simp
    · split_ifs <;> simp [Raised.isConversion]
    · simp [Raised.isConversion]
  unfold validateSupportedRequest
  refine not_foreign_guard (not_foreign_guard ?_)
  refine not_foreign_bind (hsummary _) fun _ => not_foreign_bind (hformat _) fun _ => ?_
  split_ifs <;> simp [Raised.isConversion]

/-- The `type` of the tool choice is looked up, and is a list or a mapping. -/
def ToolChoiceFails (request : MessagesRequest) : Prop :=
  ∃ choice, request.toolChoice = some choice ∧ lookupFails (.obj choice) = true

theorem foreign_toolChoice (choice : Fields) :
    Foreign (toolChoice toolNames choice) ↔ lookupFails (.obj choice) = true := by
  unfold toolChoice lookupFails
  rw [Json.getD, Json.get?_obj]
  refine (foreign_bind_left fun _ => ?_).trans ?_
  · split_ifs
    · simp
    · simp
    · split
      · split_ifs <;> simp [Raised.isConversion]
      · simp [Raised.isConversion]
    · simp [Raised.isConversion]
  · unfold hashable
    cases (choice.lookup "type").getD .null <;> simp [Raised.isConversion]

/-- A message has items. -/
def HasItems (ext : Externals) (toolNames : OpenAIToolNameCodec) (request : MessagesRequest) :
    Prop :=
  ∃ message ∈ request.messages, ∃ item items,
    messageItems ext toolNames message = .ok (item :: items)

/-- The request is converted up to a message that breaks its conversion, or up to a tool choice
that does. -/
def Breaks (ext : Externals) (toolNames : OpenAIToolNameCodec) (request : MessagesRequest) :
    Prop :=
  validateSupportedRequest request = .ok () ∧
    ((∃ pre message post, request.messages = pre ++ message :: post ∧
        (∀ passed ∈ pre, MessageConverts ext toolNames passed) ∧ MessageFails ext message) ∨
      (∀ message ∈ request.messages, MessageConverts ext toolNames message) ∧
        HasItems ext toolNames request ∧ ToolChoiceFails request)

/-- Nothing of the request is refused. -/
def Accepted (ext : Externals) (toolNames : OpenAIToolNameCodec) (request : MessagesRequest) :
    Prop :=
  validateSupportedRequest request = .ok () ∧
    (∀ message ∈ request.messages, MessageConverts ext toolNames message) ∧
    HasItems ext toolNames request ∧
    ∀ choice, request.toolChoice = some choice → ∃ value, toolChoice toolNames choice = .ok value

theorem hasItems_iff {request : MessagesRequest} {start : List String}
    {final : List String × List ResponsesItem}
    (h : request.messages.foldlM (addMessage ext toolNames) (start, []) = .ok final) :
    final.2.isEmpty = false ↔ HasItems ext toolNames request := by
  obtain ⟨converted, hconverted, rfl⟩ := addMessages_ok h
  unfold HasItems
  generalize request.messages = messages at hconverted
  rw [List.nil_append]
  clear h
  induction hconverted with
  | nil => simp
  | @cons message parts messages converted hmessage _ ih =>
    obtain ⟨items, instructions⟩ := parts
    have hitems : messageItems ext toolNames message = .ok items := hmessage.items
    rw [List.exists_mem_cons_iff, ← ih, hitems]
    cases items with
    | nil => simp
    | cons item items => simp

theorem foreign_toolChoices (request : MessagesRequest) :
    Foreign (request.toolChoice.mapM (toolChoice toolNames)) ↔ ToolChoiceFails request := by
  unfold ToolChoiceFails
  cases request.toolChoice with
  | none => simp
  | some choice =>
    rw [Option.mapM_some]
    simp [foreign_toolChoice]

section Build

variable {selectPromptCacheKey : CacheKeySources → Option String} {request : MessagesRequest}
  {reasoning : ReasoningPolicy} {promptCacheKey : Option String}
  {explicitPromptCacheBreakpoint : Bool}

theorem foreign_build :
    Foreign (buildResponsesProviderRequest ext toolNames selectPromptCacheKey request reasoning
      promptCacheKey explicitPromptCacheBreakpoint) ↔ Breaks ext toolNames request := by
  unfold buildResponsesProviderRequest Breaks
  rw [foreign_bind]
  constructor
  · rintro (h | ⟨_, hvalid, h⟩)
    · exact absurd h (not_foreign_validate request)
    · refine ⟨hvalid, ?_⟩
      rw [foreign_bind, foreign_loop addMessage_returns foreign_addMessage] at h
      rcases h with h | ⟨final, hfinal, h⟩
      · exact .inl h
      · refine .inr ⟨(foldlM_returns_iff addMessage_returns _ _).mp ⟨final, hfinal⟩, ?_⟩
        cases hempty : final.2.isEmpty with
        | true => simp [hempty, foreign_bind, Raised.isConversion] at h
        | false =>
          simp only [hempty, Bool.false_eq_true, if_false] at h
          rw [foreign_bind_left fun choice => not_foreign_pure _, foreign_toolChoices] at h
          exact ⟨(hasItems_iff hfinal).mp hempty, h⟩
  · rintro ⟨hvalid, h⟩
    refine .inr ⟨(), hvalid, ?_⟩
    rw [foreign_bind, foreign_loop addMessage_returns foreign_addMessage]
    rcases h with h | ⟨hconverts, hitems, hchoice⟩
    · exact .inl h
    · obtain ⟨final, hfinal⟩ :=
        (foldlM_returns_iff addMessage_returns _ (systemText request, [])).mpr hconverts
      refine .inr ⟨final, hfinal, ?_⟩
      simp only [(hasItems_iff hfinal).mpr hitems, Bool.false_eq_true, if_false]
      rw [foreign_bind_left fun choice => not_foreign_pure _, foreign_toolChoices]
      exact hchoice

theorem build_returns :
    (∃ body, buildResponsesProviderRequest ext toolNames selectPromptCacheKey request reasoning
      promptCacheKey explicitPromptCacheBreakpoint = .ok body) ↔
      Accepted ext toolNames request := by
  unfold buildResponsesProviderRequest Accepted
  have hchoices : (∃ value, request.toolChoice.mapM (toolChoice toolNames) = .ok value) ↔
      ∀ choice, request.toolChoice = some choice →
        ∃ value, toolChoice toolNames choice = .ok value := by
    cases request.toolChoice with
    | none => simp [pure, Except.pure]
    | some choice =>
      simp only [Option.mapM_some, Option.some.injEq, forall_eq']
      cases toolChoice toolNames choice <;> simp [Functor.map, Except.map]
  rw [← hchoices]
  constructor
  · rintro ⟨body, h⟩
    obtain ⟨_, hvalid, h⟩ := bind_eq_ok.mp h
    obtain ⟨final, hfinal, h⟩ := bind_eq_ok.mp h
    obtain ⟨hempty, h⟩ := guard_eq_ok.mp h
    obtain ⟨choice, hchoice, -⟩ := bind_eq_ok.mp h
    rw [Bool.not_eq_true] at hempty
    exact ⟨hvalid, (foldlM_returns_iff addMessage_returns _ _).mp ⟨final, hfinal⟩,
      (hasItems_iff hfinal).mp hempty, choice, hchoice⟩
  · rintro ⟨hvalid, hconverts, hitems, choice, hchoice⟩
    obtain ⟨final, hfinal⟩ :=
      (foldlM_returns_iff addMessage_returns _ (systemText request, [])).mpr hconverts
    have hempty := (hasItems_iff hfinal).mpr hitems
    simp only [bind_eq_ok, guard_eq_ok]
    exact ⟨_, (), hvalid, final, hfinal, by simp [hempty], choice, hchoice, rfl⟩

/-- A request is built that holds the history, or the conversion's own error is raised. -/
def KeepsHistory (ext : Externals) (toolNames : OpenAIToolNameCodec) (request : MessagesRequest) :
    Except Raised ResponsesBody → Prop
  | .ok body => HoldsHistory ext toolNames request body
  | .error e => e.isConversion = true

/-- Nothing of a history is dropped exactly where no block that is reached breaks the conversion
and, in a request that is accepted, only assistants have reasoning texts. -/
theorem buildResponsesProviderRequest_keeps :
    KeepsHistory ext toolNames request (buildResponsesProviderRequest ext toolNames
      selectPromptCacheKey request reasoning promptCacheKey explicitPromptCacheBreakpoint) ↔
      ¬ Breaks ext toolNames request ∧
        (Accepted ext toolNames request → ∀ message ∈ request.messages, NoReasoning message) := by
  have hforeign : Foreign (buildResponsesProviderRequest ext toolNames selectPromptCacheKey request
      reasoning promptCacheKey explicitPromptCacheBreakpoint) ↔ Breaks ext toolNames request :=
    foreign_build
  have hreturns : (∃ body, buildResponsesProviderRequest ext toolNames selectPromptCacheKey request
      reasoning promptCacheKey explicitPromptCacheBreakpoint = .ok body) ↔
      Accepted ext toolNames request := build_returns
  rw [← hforeign, ← hreturns]
  cases hbuild : buildResponsesProviderRequest ext toolNames selectPromptCacheKey request reasoning
      promptCacheKey explicitPromptCacheBreakpoint with
  | error e => simp [KeepsHistory]
  | ok body => simp [KeepsHistory, holdsHistory_iff hbuild]

end Build

section Example

def plainExternals : Externals where
  library := ⟨fun _ => .unreadable, fun _ => none⟩
  dumpsUnicode := Json.repr
  dumpsCompact := Json.repr

/-- A user message with a reasoning text. -/
def askedWithReasoning : MessagesRequest where
  model := "gpt-5"
  messages := [{ role := .user, content := .str "What day is it?"
                 reasoningContent := some "The date is unknown." }]

theorem user_reasoning_dropped : ¬ ∀ (request : MessagesRequest) (reasoning : ReasoningPolicy),
    KeepsHistory plainExternals ⟨.empty, .empty, []⟩ request
      (buildResponsesProviderRequest plainExternals ⟨.empty, .empty, []⟩ (fun _ => none) request
        reasoning none false) := by
  intro h
  obtain ⟨body, hbody⟩ : ∃ body, buildResponsesProviderRequest plainExternals
      ⟨.empty, .empty, []⟩ (fun _ => none) askedWithReasoning {} none false = .ok body := ⟨_, rfl⟩
  have hkeeps := h askedWithReasoning {}
  rw [hbody] at hkeeps
  have hnone := (holdsHistory_iff hbody).mp hkeeps _ List.mem_cons_self (by decide)
  exact absurd hnone (by decide)

end Example

end Switchboard.Core.Responses
